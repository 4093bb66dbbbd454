import ClassMap.Proofs.Resolution.Plan
import ClassMap.Proofs.Schema.FirstNames
import ClassMap.Proofs.Schema.Table

/-!
A schema and the changes that made it. A run of changes that meets no clash leaves one table for
each table that a change names, in the order of first appearance, and each table reflects the
changes made to it under any of its spellings.
-/

set_option autoImplicit false
set_option relaxedAutoImplicit false

namespace ClassMap

namespace SchemaChange

def column? : SchemaChange → Option Column
  | column _ added _ => some added
  | _ => none

def foreignKey? : SchemaChange → Option ForeignKey
  | foreignKey _ added => some added
  | _ => none

/-- The changes made to one table. -/
def changesOf (changes : List SchemaChange) (table : String) : List SchemaChange :=
  changes.filter fun c ↦ sameTable c.tableName table

def columnsOf (changes : List SchemaChange) (table : String) : List Column :=
  (changesOf changes table).filterMap column?

def constraintsOf (changes : List SchemaChange) (table : String) : List ForeignKey :=
  (changesOf changes table).filterMap foreignKey?

variable {t result : Table} {c : SchemaChange} {changes : List SchemaChange} {table : String}
  {tables results : List Table} {change : Table → Except MappingError Table} {name : String}

theorem mem_columnsOf_iff {a : Column} :
    a ∈ columnsOf changes table ↔
      ∃ name owner, .column name a owner ∈ changes ∧ sameTable name table = true := by
  rw [columnsOf, List.mem_filterMap]
  constructor
  · intro hcolumns
    obtain ⟨c, hc, hcolumn⟩ := hcolumns
    obtain ⟨hmem, hname⟩ := List.mem_filter.mp hc
    cases c with
    | column name added owner =>
      obtain rfl := Option.some.inj hcolumn
      exact ⟨name, owner, hmem, hname⟩
    | table => exact absurd hcolumn (by simp [column?])
    | foreignKey => exact absurd hcolumn (by simp [column?])
    | index => exact absurd hcolumn (by simp [column?])
  · intro hchange
    obtain ⟨name, owner, hmem, hname⟩ := hchange
    exact ⟨_, List.mem_filter.mpr ⟨hmem, hname⟩, rfl⟩

theorem mem_constraintsOf_iff {fk : ForeignKey} :
    fk ∈ constraintsOf changes table ↔
      ∃ name, .foreignKey name fk ∈ changes ∧ sameTable name table = true := by
  rw [constraintsOf, List.mem_filterMap]
  constructor
  · intro hkeys
    obtain ⟨c, hc, hkey⟩ := hkeys
    obtain ⟨hmem, hname⟩ := List.mem_filter.mp hc
    cases c with
    | foreignKey name added =>
      obtain rfl := Option.some.inj hkey
      exact ⟨name, hmem, hname⟩
    | table => exact absurd hkey (by simp [foreignKey?])
    | column => exact absurd hkey (by simp [foreignKey?])
    | index => exact absurd hkey (by simp [foreignKey?])
  · intro hchange
    obtain ⟨name, hmem, hname⟩ := hchange
    exact ⟨_, List.mem_filter.mpr ⟨hmem, hname⟩, rfl⟩

theorem applyTo_name (h : c.applyTo t = .ok result) : result.name = t.name := by
  cases c with
  | table => exact Except.ok.inj h ▸ rfl
  | column _ added owner => exact Table.addColumn_name h
  | foreignKey _ added => exact Except.ok.inj h ▸ Table.addForeignKey_name t added
  | index _ added owner => exact (Table.addIndex_eq_ok h).1

/-- One change to a table. -/
theorem reflects_applyTo {added : List Column} {constraints : List ForeignKey}
    (ht : t.Reflects added constraints) (h : c.applyTo t = .ok result) :
    result.Reflects (added ++ c.column?.toList) (constraints ++ c.foreignKey?.toList) := by
  cases c with
  | table _ description =>
    obtain rfl := Except.ok.inj h
    have hsame : (t.describe description).Reflects added constraints := ht.of_eq rfl rfl
    simpa [column?, foreignKey?] using hsame
  | column _ added owner => simpa [column?, foreignKey?] using ht.addColumn h
  | foreignKey _ added =>
    obtain rfl := Except.ok.inj h
    simpa [column?, foreignKey?] using ht.addForeignKey added
  | index _ added owner =>
    obtain ⟨-, hcolumns, hkeys⟩ := Table.addIndex_eq_ok h
    simpa [column?, foreignKey?] using ht.of_eq hcolumns hkeys

/-- A change goes to the table of its name, or to a new one at the end. -/
theorem changeTable_eq_ok (h : changeTable name change tables = .ok results) :
    (∃ before t result after, tables = before ++ t :: after ∧ results = before ++ result :: after ∧
      sameTable t.name name = true ∧ change t = .ok result) ∨
    ((∀ t ∈ tables, sameTable t.name name = false) ∧
      ∃ result, change { name } = .ok result ∧ results = tables ++ [result]) := by
  induction tables generalizing results with
  | nil =>
    obtain ⟨result, hresult, hpure⟩ := Traversal.bind_eq_ok_iff.mp h
    obtain rfl := Traversal.pure_eq_ok_iff.mp hpure
    exact Or.inr ⟨fun _ ht ↦ absurd ht List.not_mem_nil, result, hresult, rfl⟩
  | cons t rest ih =>
    rw [changeTable] at h
    split at h
    · rename_i hname
      obtain ⟨result, hresult, hpure⟩ := Traversal.bind_eq_ok_iff.mp h
      obtain rfl := Traversal.pure_eq_ok_iff.mp hpure
      exact Or.inl ⟨[], t, result, rest, rfl, rfl, hname, hresult⟩
    · rename_i hname
      obtain ⟨others, hothers, hpure⟩ := Traversal.bind_eq_ok_iff.mp h
      obtain rfl := Traversal.pure_eq_ok_iff.mp hpure
      rcases ih hothers with ⟨before, u, result, after, rfl, rfl, hu, hresult⟩ |
        ⟨hnone, result, hresult, rfl⟩
      · exact Or.inl ⟨t :: before, u, result, after, rfl, rfl, hu, hresult⟩
      · refine Or.inr ⟨fun u hu ↦ ?_, result, hresult, rfl⟩
        rcases List.mem_cons.mp hu with rfl | hu
        · exact Bool.eq_false_iff.mpr hname
        · exact hnone u hu

/-- The tables that a run of changes leaves. -/
structure Made (changes : List SchemaChange) (tables : List Table) : Prop where
  names : tables.map (·.name) = firstNames (changes.map tableName)
  reflects : ∀ t ∈ tables, t.Reflects (columnsOf changes t.name) (constraintsOf changes t.name)

theorem Made.nodup (h : Made changes tables) :
    (tables.map fun t ↦ Text.lower t.name).Nodup := by
  have hnodup := nodup_firstNames (changes.map tableName)
  rwa [← h.names, List.map_map] at hnodup

theorem changesOf_append_of_same (h : sameTable c.tableName table = true) :
    changesOf (changes ++ [c]) table = changesOf changes table ++ [c] := by
  simp [changesOf, List.filter_append, h]

theorem changesOf_append_of_ne (h : sameTable c.tableName table = false) :
    changesOf (changes ++ [c]) table = changesOf changes table := by
  simp [changesOf, List.filter_append, h]

theorem changesOf_eq_nil (hnames : tables.map (·.name) = firstNames (changes.map tableName))
    (hnone : ∀ t ∈ tables, sameTable t.name table = false) : changesOf changes table = [] := by
  refine List.filter_eq_nil_iff.mpr fun c hc hname ↦ ?_
  obtain ⟨first, hfirst, hsame⟩ := exists_mem_firstNames (List.mem_map_of_mem (f := tableName) hc)
  rw [← hnames] at hfirst
  obtain ⟨t, ht, rfl⟩ := List.mem_map.mp hfirst
  have htable := sameTable_trans (sameTable_symm hsame) hname
  rw [hnone t ht] at htable
  exact Bool.noConfusion htable

/-- A change adds the name of its table, if there is no table of that name. -/
theorem names_apply (hnames : tables.map (·.name) = firstNames (changes.map tableName))
    (happly : c.apply tables = .ok results) :
    results.map (·.name) = firstNames ((changes ++ [c]).map tableName) := by
  rw [List.map_append, List.map_singleton, firstNames_append_singleton, appendName, ← hnames]
  rcases changeTable_eq_ok happly with ⟨before, t, result, after, rfl, rfl, hname, hresult⟩ |
    ⟨hnone, result, hresult, rfl⟩
  · have hseen : ((before ++ t :: after).map (·.name)).any (sameTable c.tableName) = true :=
      List.any_eq_true.mpr ⟨t.name, by simp, sameTable_symm hname⟩
    rw [if_pos hseen]
    simp [applyTo_name hresult]
  · have hnew : ¬ (tables.map (·.name)).any (sameTable c.tableName) = true := by
      intro hseen
      obtain ⟨name, hname, hsame⟩ := List.any_eq_true.mp hseen
      obtain ⟨t, ht, rfl⟩ := List.mem_map.mp hname
      rw [sameTable_comm, hnone t ht] at hsame
      exact Bool.noConfusion hsame
    rw [if_neg hnew, List.map_append, List.map_singleton, applyTo_name hresult]

theorem names_of_applyAll (h : applyAll [] changes = .ok tables) :
    tables.map (·.name) = firstNames (changes.map tableName) := by
  induction changes using List.reverseRecOn generalizing tables with
  | nil =>
    obtain rfl := Traversal.pure_eq_ok_iff.mp h
    rfl
  | append_singleton changes c ih =>
    obtain ⟨middle, hmiddle, hlast⟩ := applyAll_append_eq_ok_iff.mp h
    have happly : c.apply middle = .ok tables := by
      simpa [applyAll] using hlast
    exact names_apply (ih hmiddle) happly

/-- Every change is made to some table. -/
theorem exists_table_of_mem (h : applyAll [] changes = .ok tables) (hc : c ∈ changes) :
    ∃ t ∈ tables, sameTable c.tableName t.name = true := by
  obtain ⟨first, hfirst, hsame⟩ := exists_mem_firstNames (List.mem_map_of_mem (f := tableName) hc)
  rw [← names_of_applyAll h] at hfirst
  obtain ⟨t, ht, rfl⟩ := List.mem_map.mp hfirst
  exact ⟨t, ht, hsame⟩

/-- What holds of a new table without changes and is kept by every change made to a table. -/
structure Kept (holds : List SchemaChange → Table → Prop) : Prop where
  new : ∀ name, holds [] { name }
  step : ∀ changes c t result, holds changes t → c.applyTo t = .ok result →
    holds (changes ++ [c]) result

/-- What every change keeps holds of each table after a run, with the changes made to it. -/
theorem Kept.of_applyAll {holds : List SchemaChange → Table → Prop} (hkept : Kept holds)
    (h : applyAll [] changes = .ok tables) : ∀ t ∈ tables, holds (changesOf changes t.name) t := by
  induction changes using List.reverseRecOn generalizing tables with
  | nil =>
    obtain rfl := Traversal.pure_eq_ok_iff.mp h
    exact fun _ ht ↦ absurd ht List.not_mem_nil
  | append_singleton changes c ih =>
    obtain ⟨middle, hmiddle, hlast⟩ := applyAll_append_eq_ok_iff.mp h
    have happly : c.apply middle = .ok tables := by
      simpa [applyAll] using hlast
    have hnames := names_of_applyAll hmiddle
    have hthere : ∀ u ∈ middle, sameTable c.tableName u.name = false →
        holds (changesOf (changes ++ [c]) u.name) u := by
      intro u hu hother
      rw [changesOf_append_of_ne hother]
      exact ih hmiddle u hu
    rcases changeTable_eq_ok happly with ⟨before, t, result, after, rfl, rfl, hname, hresult⟩ |
      ⟨hnone, result, hresult, rfl⟩
    -- table names are apart, so the change goes past all tables but one
    · have hnodup : ((before ++ t :: after).map fun u ↦ Text.lower u.name).Nodup := by
        have hfirst := nodup_firstNames (changes.map tableName)
        rwa [← hnames, List.map_map] at hfirst
      rw [List.map_append, List.map_cons, List.nodup_middle, List.nodup_cons, ← List.map_append]
        at hnodup
      have hothers : ∀ u ∈ before ++ after, sameTable c.tableName u.name = false := by
        intro u hu
        rw [← sameTable_congr hname]
        by_contra hsame
        have hlower : Text.lower u.name = Text.lower t.name :=
          (sameTable_iff.mp (by simpa using hsame)).symm
        exact hnodup.1 (List.mem_map.mpr ⟨u, hu, hlower⟩)
      intro u hu
      rcases List.mem_append.mp hu with hbefore | hrest
      · exact hthere u (List.mem_append_left _ hbefore)
          (hothers u (List.mem_append_left after hbefore))
      · rcases List.mem_cons.mp hrest with rfl | hafter
        · have hown := ih hmiddle t (List.mem_append_right before List.mem_cons_self)
          rw [applyTo_name hresult, changesOf_append_of_same (sameTable_symm hname)]
          exact hkept.step _ c t u hown hresult
        · exact hthere u (List.mem_append_right before (List.mem_cons_of_mem t hafter))
            (hothers u (List.mem_append_right before hafter))
    · intro u hu
      rcases List.mem_append.mp hu with hbefore | hadded
      · exact hthere u hbefore (sameTable_comm _ _ ▸ hnone u hbefore)
      · obtain rfl := List.mem_singleton.mp hadded
        rw [applyTo_name hresult, changesOf_append_of_same (sameTable_self _),
          changesOf_eq_nil hnames hnone]
        exact hkept.step [] c _ u (hkept.new _) hresult

theorem kept_reflects : Kept fun changes t ↦
    t.Reflects (changes.filterMap column?) (changes.filterMap foreignKey?) := by
  refine ⟨Table.reflects_new, fun changes c t result ht h ↦ ?_⟩
  have hstep := reflects_applyTo ht h
  rw [List.filterMap_append, List.filterMap_append]
  cases hc : c.column? <;> cases hfk : c.foreignKey? <;> simpa [hc, hfk] using hstep

theorem made_of_applyAll (h : applyAll [] changes = .ok tables) : Made changes tables :=
  ⟨names_of_applyAll h, kept_reflects.of_applyAll h⟩

/-- A change to a table keeps its constraints apart. -/
theorem statesOnce_applyTo (ht : t.StatesOnce) (h : c.applyTo t = .ok result) :
    result.StatesOnce := by
  cases c with
  | table _ description =>
    obtain rfl := Except.ok.inj h
    exact ht
  | column _ added owner => exact ht.of_eq (Table.addColumn_foreignKeys h)
  | foreignKey _ added =>
    obtain rfl := Except.ok.inj h
    exact ht.addForeignKey added
  | index _ added owner => exact ht.of_eq (Table.addIndex_eq_ok h).2.2

theorem statesOnce_of_applyAll (h : applyAll [] changes = .ok tables) :
    ∀ t ∈ tables, t.StatesOnce :=
  have hkept : Kept fun _ t ↦ t.StatesOnce :=
    ⟨fun _ ↦ List.Pairwise.nil, fun _ _ _ _ ht h ↦ statesOnce_applyTo ht h⟩
  hkept.of_applyAll h

end SchemaChange

end ClassMap

import ClassMap.Proofs.Schema.Run

/-!
When a run of changes meets no clash. Only two changes to one table can clash: two columns of one
name that differ in type or size, or two indices of one name that differ at all. So a run succeeds
exactly when any two of its changes agree, in whatever order they are made.
-/

set_option autoImplicit false
set_option relaxedAutoImplicit false

namespace ClassMap

namespace Table

variable {t result : Table} {added : List Index} {index : Index} {a : Column} {owner : String}

/-- A table has the indices that were added to it, no two of them with one name. -/
structure Indexed (t : Table) (added : List Index) : Prop where
  nodup : (t.indices.map fun i ↦ Text.foldLatin i.name).Nodup
  mem_iff : ∀ i, i ∈ t.indices ↔ i ∈ added

theorem Indexed.of_eq (h : t.Indexed added) (hindices : result.indices = t.indices) :
    result.Indexed added :=
  ⟨hindices ▸ h.nodup, hindices ▸ h.mem_iff⟩

/-- An index is added under a new name, or it is there already. -/
theorem addIndex_cases (h : t.addIndex index owner = .ok result) :
    ((∀ i ∈ t.indices, Text.sameName i.name index.name = false) ∧
      result = { t with indices := t.indices ++ [index] }) ∨
    (index ∈ t.indices ∧ result = t) := by
  unfold addIndex at h
  split at h
  case h_1 hnone =>
    refine Or.inl ⟨fun i hi ↦ ?_, (Except.ok.inj h).symm⟩
    simpa using List.find?_eq_none.mp hnone i hi
  case h_2 present hpresent =>
    split at h
    case isTrue heq =>
      exact Or.inr ⟨heq ▸ List.mem_of_find?_eq_some hpresent, (Except.ok.inj h).symm⟩
    case isFalse => exact absurd h (by simp)

theorem Indexed.addIndex (h : t.Indexed added) (hadd : t.addIndex index owner = .ok result) :
    result.Indexed (added ++ [index]) := by
  rcases addIndex_cases hadd with ⟨hnew, rfl⟩ | ⟨hthere, rfl⟩
  · constructor
    · rw [List.map_append, List.nodup_append]
      refine ⟨h.nodup, List.nodup_singleton _, fun x hx y hy hxy ↦ ?_⟩
      obtain ⟨i, hi, rfl⟩ := List.mem_map.mp hx
      rw [List.mem_singleton.mp hy] at hxy
      have hother := hnew i hi
      rw [Text.sameName_iff.mpr hxy] at hother
      exact Bool.noConfusion hother
    · intro i
      rw [List.mem_append, List.mem_append, h.mem_iff]
  · refine ⟨h.nodup, fun i ↦ ?_⟩
    rw [List.mem_append, List.mem_singleton, ← h.mem_iff]
    constructor
    · exact Or.inl
    · intro hi
      rcases hi with hi | rfl
      · exact hi
      · exact hthere

theorem addColumn_indices (h : t.addColumn a owner = .ok result) :
    result.indices = t.indices := by
  rcases addColumn_eq_ok h with ⟨-, rfl⟩ | ⟨_, -, -, -, rfl⟩
  · rfl
  · rfl

theorem addForeignKey_indices (t : Table) (fk : ForeignKey) :
    (t.addForeignKey fk).indices = t.indices := by
  unfold addForeignKey
  split
  · rfl
  · rfl

theorem exists_addColumn
    (h : ∀ c ∈ t.columns, Text.sameName c.name a.name = true → c.type = a.type) :
    ∃ result, t.addColumn a owner = .ok result := by
  unfold addColumn
  cases hfound : t.column? a.name with
  | none => exact ⟨_, rfl⟩
  | some present =>
    obtain ⟨hmem, hname⟩ := column?_eq_some hfound
    exact ⟨_, if_pos (h present hmem hname)⟩

theorem exists_addIndex
    (h : ∀ i ∈ t.indices, Text.sameName i.name index.name = true → i = index) :
    ∃ result, t.addIndex index owner = .ok result := by
  unfold addIndex
  cases hfound : t.indices.find? fun i ↦ Text.sameName i.name index.name with
  | none => exact ⟨_, rfl⟩
  | some present =>
    have hname : Text.sameName present.name index.name = true := by
      simpa using List.find?_some hfound
    exact ⟨_, if_pos (h present (List.mem_of_find?_eq_some hfound) hname)⟩

end Table

namespace SchemaChange

variable {t result : Table} {c d : SchemaChange} {changes others : List SchemaChange}
  {tables : List Table} {change : Table → Except MappingError Table} {name : String}

def index? : SchemaChange → Option Index
  | index _ added _ => some added
  | _ => none

/-- Two changes that can be made to one schema. -/
structure Agrees (c d : SchemaChange) : Prop where
  columns : ∀ a ∈ c.column?, ∀ b ∈ d.column?, Text.sameName a.name b.name = true → a.type = b.type
  indices : ∀ i ∈ c.index?, ∀ j ∈ d.index?, Text.sameName i.name j.name = true → i = j

/-- Any two of the changes made to one table agree. -/
def Agree (changes : List SchemaChange) : Prop :=
  ∀ c ∈ changes, ∀ d ∈ changes, sameTable c.tableName d.tableName = true → c.Agrees d

theorem indexed_applyTo {added : List Index} (ht : t.Indexed added)
    (h : c.applyTo t = .ok result) : result.Indexed (added ++ c.index?.toList) := by
  cases c with
  | table _ description =>
    obtain rfl := Except.ok.inj h
    have hdescribed : (t.describe description).Indexed added := ht.of_eq rfl
    simpa [index?] using hdescribed
  | column _ added owner => simpa [index?] using ht.of_eq (Table.addColumn_indices h)
  | foreignKey _ added =>
    obtain rfl := Except.ok.inj h
    simpa [index?] using ht.of_eq (Table.addForeignKey_indices t added)
  | index _ added owner => simpa [index?] using ht.addIndex h

theorem kept_indexed : Kept fun changes t ↦ t.Indexed (changes.filterMap index?) := by
  refine ⟨fun _ ↦ ⟨List.nodup_nil, fun _ ↦ Iff.rfl⟩, fun changes c t result ht h ↦ ?_⟩
  have hstep := indexed_applyTo ht h
  rw [List.filterMap_append]
  cases hc : c.index? <;> simpa [hc] using hstep

theorem exists_changeTable
    (h : ∀ t ∈ tables, sameTable t.name name = true → ∃ result, change t = .ok result)
    (hnew : ∃ result, change { name } = .ok result) :
    ∃ results, changeTable name change tables = .ok results := by
  induction tables with
  | nil =>
    obtain ⟨result, hresult⟩ := hnew
    exact ⟨[result], Traversal.bind_eq_ok_iff.mpr ⟨result, hresult, rfl⟩⟩
  | cons t rest ih =>
    rw [changeTable]
    by_cases hname : (Text.lower t.name == Text.lower name) = true
    · obtain ⟨result, hresult⟩ := h t List.mem_cons_self hname
      rw [if_pos hname]
      exact ⟨result :: rest, Traversal.bind_eq_ok_iff.mpr ⟨result, hresult, rfl⟩⟩
    · obtain ⟨others, hothers⟩ := ih fun u hu ↦ h u (List.mem_cons_of_mem t hu)
      rw [if_neg hname]
      exact ⟨t :: others, Traversal.bind_eq_ok_iff.mpr ⟨others, hothers, rfl⟩⟩

/-- A change can be made to a table that reflects changes it agrees with. -/
theorem exists_applyTo (hreflects : t.Reflects (changes.filterMap column?)
      (changes.filterMap foreignKey?))
    (hindexed : t.Indexed (changes.filterMap index?)) (hagrees : ∀ d ∈ changes, d.Agrees c) :
    ∃ result, c.applyTo t = .ok result := by
  cases c with
  | table => exact ⟨_, rfl⟩
  | foreignKey => exact ⟨_, rfl⟩
  | column _ added owner =>
    refine Table.exists_addColumn fun present hpresent hname ↦ ?_
    obtain ⟨a, ha, hsame⟩ := (hreflects.gathers present hpresent).declared
    obtain ⟨d, hd, hcolumn⟩ := List.mem_filterMap.mp ha
    rw [← (hreflects.gathers present hpresent).type_eq a ha hsame]
    exact (hagrees d hd).columns a hcolumn added rfl (Text.sameName_trans hsame hname)
  | index _ added owner =>
    refine Table.exists_addIndex fun present hpresent hname ↦ ?_
    obtain ⟨d, hd, hindex⟩ := List.mem_filterMap.mp ((hindexed.mem_iff present).mp hpresent)
    exact (hagrees d hd).indices present hindex added rfl hname

/-- Changes that have been made agree with each other. -/
theorem agree_of_applyAll (h : applyAll [] changes = .ok tables) : Agree changes := by
  intro c hc d hd hname
  obtain ⟨t, ht, htable⟩ := exists_table_of_mem h hc
  have hchange : c ∈ changesOf changes t.name := List.mem_filter.mpr ⟨hc, htable⟩
  have hchange' : d ∈ changesOf changes t.name :=
    List.mem_filter.mpr ⟨hd, sameTable_trans (sameTable_symm hname) htable⟩
  have hreflects := kept_reflects.of_applyAll h t ht
  have hindexed := kept_indexed.of_applyAll h t ht
  constructor
  · intro a ha b hb hcolumn
    have ha' := List.mem_filterMap.mpr ⟨c, hchange, ha⟩
    have hb' := List.mem_filterMap.mpr ⟨d, hchange', hb⟩
    obtain ⟨column, hmem, hfound⟩ := hreflects.complete a ha'
    have hgathers := hreflects.gathers column hmem
    have hfound' : Text.sameName b.name column.name = true :=
      Text.sameName_trans (Text.sameName_symm hcolumn) hfound
    exact (hgathers.type_eq a ha' hfound).trans (hgathers.type_eq b hb' hfound').symm
  · intro i hi j hj hindex
    have hi' := (hindexed.mem_iff i).mpr (List.mem_filterMap.mpr ⟨c, hchange, hi⟩)
    have hj' := (hindexed.mem_iff j).mpr (List.mem_filterMap.mpr ⟨d, hchange', hj⟩)
    exact List.inj_on_of_nodup_map hindexed.nodup hi' hj' (Text.sameName_iff.mp hindex)

/-- A run of changes succeeds exactly when any two changes to one table agree. -/
theorem exists_applyAll_iff : (∃ tables, applyAll [] changes = .ok tables) ↔ Agree changes := by
  refine ⟨fun ⟨tables, h⟩ ↦ agree_of_applyAll h, fun hagree ↦ ?_⟩
  induction changes using List.reverseRecOn with
  | nil => exact ⟨[], rfl⟩
  | append_singleton changes c ih =>
    obtain ⟨middle, hmiddle⟩ := ih fun d hd e he ↦
      hagree d (List.mem_append_left _ hd) e (List.mem_append_left _ he)
    have hagrees : ∀ d ∈ changes, sameTable d.tableName c.tableName = true → d.Agrees c :=
      fun d hd ↦ hagree d (List.mem_append_left _ hd) c (by simp)
    have hthere : ∀ t ∈ middle, sameTable t.name c.tableName = true →
        ∃ result, c.applyTo t = .ok result := by
      intro t ht hname
      refine exists_applyTo (kept_reflects.of_applyAll hmiddle t ht)
        (kept_indexed.of_applyAll hmiddle t ht) fun d hd ↦ ?_
      obtain ⟨hmem, hsame⟩ := List.mem_filter.mp hd
      exact hagrees d hmem (sameTable_trans hsame hname)
    have hnew : ∃ result, c.applyTo { name := c.tableName } = .ok result :=
      exists_applyTo (kept_reflects.new _) (kept_indexed.new _) (by simp)
    obtain ⟨results, hresults⟩ := exists_changeTable hthere hnew
    refine ⟨results, applyAll_append_eq_ok_iff.mpr ⟨middle, hmiddle, ?_⟩⟩
    rw [applyAll, List.foldlM_cons]
    exact Traversal.bind_eq_ok_iff.mpr ⟨results, hresults, rfl⟩

/-- Apart from constraints the same changes, in any order. -/
def SameStructure (changes others : List SchemaChange) : Prop :=
  ∀ change, change.foreignKey? = none → (change ∈ changes ↔ change ∈ others)

def Constraints (changes : List SchemaChange) : Prop :=
  ∀ change ∈ changes, ∃ table fk, change = .foreignKey table fk

theorem Constraints.sameStructure (h : Constraints changes) (hothers : Constraints others) :
    SameStructure changes others := by
  have hnone : ∀ {list : List SchemaChange}, Constraints list → ∀ change,
      change.foreignKey? = none → change ∉ list := by
    intro list hlist change hchange hmem
    obtain ⟨table, fk, rfl⟩ := hlist change hmem
    exact absurd hchange (by simp [foreignKey?])
  exact fun change hchange ↦ iff_of_false (hnone h change hchange) (hnone hothers change hchange)

theorem SameStructure.append_left (columns : List SchemaChange) (h : SameStructure changes others) :
    SameStructure (columns ++ changes) (columns ++ others) := by
  intro change hchange
  rw [List.mem_append, List.mem_append, h change hchange]

/-- Constraints never clash, so only the other changes count. -/
theorem Agree.of_sameStructure (h : Agree changes) (hsame : SameStructure changes others) :
    Agree others := by
  have hcolumn : ∀ c ∈ others, ∀ a ∈ c.column?, c ∈ changes := by
    intro c hc a ha
    refine (hsame c ?_).mpr hc
    cases c with
    | column => rfl
    | table => exact absurd ha (by simp [column?])
    | foreignKey => exact absurd ha (by simp [column?])
    | index => exact absurd ha (by simp [column?])
  have hindex : ∀ c ∈ others, ∀ i ∈ c.index?, c ∈ changes := by
    intro c hc i hi
    refine (hsame c ?_).mpr hc
    cases c with
    | index => rfl
    | table => exact absurd hi (by simp [index?])
    | column => exact absurd hi (by simp [index?])
    | foreignKey => exact absurd hi (by simp [index?])
  intro c hc d hd hname
  constructor
  · intro a ha b hb
    exact (h c (hcolumn c hc a ha) d (hcolumn d hd b hb) hname).columns a ha b hb
  · intro i hi j hj
    exact (h c (hindex c hc i hi) d (hindex d hd j hj) hname).indices i hi j hj

end SchemaChange

end ClassMap

import Mathlib.Data.List.Nodup
import ClassMap.Schema.Change

/-!
One table and the changes it has gone through. A table reflects a list of columns and a list of
constraints when each of its columns is what the added columns of that name come to, no column is
missing or there twice, and its constraints are the added ones up to repetition. Every change
keeps this.
-/

set_option autoImplicit false
set_option relaxedAutoImplicit false

namespace ClassMap

namespace Column

/-- A mark that a column has as soon as one declaration of it has it. -/
def IsMark (mark : Column → Bool) : Prop :=
  ∀ present added : Column, mark (present.merge added) = (mark present || mark added)

theorem isMark_primaryKey : IsMark Column.primaryKey := fun _ _ ↦ rfl

theorem isMark_required : IsMark Column.required := fun _ _ ↦ rfl

theorem isMark_autoIncrement : IsMark Column.autoIncrement := fun _ _ ↦ rfl

/-- A column is what the added columns of its name come to. -/
structure Gathers (c : Column) (added : List Column) : Prop where
  declared : ∃ a ∈ added, Text.sameName a.name c.name = true
  type_eq : ∀ a ∈ added, Text.sameName a.name c.name = true → a.type = c.type
  mark_iff : ∀ mark, IsMark mark →
    (mark c = true ↔ ∃ a ∈ added, Text.sameName a.name c.name = true ∧ mark a = true)

variable {c a : Column} {added : List Column}

/-- A column of another name changes nothing. -/
theorem Gathers.append_of_ne (h : c.Gathers added) (hne : Text.sameName a.name c.name = false) :
    c.Gathers (added ++ [a]) := by
  have hmem : ∀ b ∈ added ++ [a], Text.sameName b.name c.name = true → b ∈ added := by
    intro b hb hname
    rcases List.mem_append.mp hb with hb | hb
    · exact hb
    · rw [List.mem_singleton.mp hb, hne] at hname
      exact Bool.noConfusion hname
  refine ⟨?_, fun b hb hname ↦ h.type_eq b (hmem b hb hname) hname, fun mark hmark ↦ ?_⟩
  · obtain ⟨b, hb, hname⟩ := h.declared
    exact ⟨b, List.mem_append_left _ hb, hname⟩
  · rw [h.mark_iff mark hmark]
    constructor
    · intro hmarked
      obtain ⟨b, hb, hname, hb'⟩ := hmarked
      exact ⟨b, List.mem_append_left _ hb, hname, hb'⟩
    · intro hmarked
      obtain ⟨b, hb, hname, hb'⟩ := hmarked
      exact ⟨b, hmem b hb hname, hname, hb'⟩

/-- A column of the same name and type is merged in. -/
theorem Gathers.merge (h : c.Gathers added) (hname : Text.sameName a.name c.name = true)
    (htype : a.type = c.type) : (c.merge a).Gathers (added ++ [a]) := by
  refine ⟨⟨a, by simp, hname⟩, fun b hb hb' ↦ ?_, fun mark hmark ↦ ?_⟩
  · rcases List.mem_append.mp hb with hb | hb
    · exact h.type_eq b hb hb'
    · rw [List.mem_singleton.mp hb]
      exact htype
  · rw [hmark, Bool.or_eq_true, h.mark_iff mark hmark]
    constructor
    · intro hcases
      rcases hcases with ⟨b, hb, hb', hset⟩ | hset
      · exact ⟨b, List.mem_append_left _ hb, hb', hset⟩
      · exact ⟨a, by simp, hname, hset⟩
    · intro hmarked
      obtain ⟨b, hb, hb', hset⟩ := hmarked
      rcases List.mem_append.mp hb with hb | hb
      · exact Or.inl ⟨b, hb, hb', hset⟩
      · exact Or.inr (List.mem_singleton.mp hb ▸ hset)

/-- A column that is new gathers itself. -/
theorem gathers_append_self (hnew : ∀ b ∈ added, Text.sameName b.name a.name = false) :
    a.Gathers (added ++ [a]) := by
  have hself : ∀ b ∈ added ++ [a], Text.sameName b.name a.name = true → b = a := by
    intro b hb hname
    rcases List.mem_append.mp hb with hb | hb
    · rw [hnew b hb] at hname
      exact Bool.noConfusion hname
    · exact List.mem_singleton.mp hb
  refine ⟨⟨a, by simp, Text.sameName_self _⟩, fun b hb hname ↦ by rw [hself b hb hname],
    fun mark _ ↦ ⟨fun hset ↦ ⟨a, by simp, Text.sameName_self _, hset⟩, ?_⟩⟩
  intro hmarked
  obtain ⟨b, hb, hname, hset⟩ := hmarked
  exact hself b hb hname ▸ hset

end Column

namespace Table

/-- A table reflects what has been declared for it. -/
structure Reflects (t : Table) (added : List Column) (constraints : List ForeignKey) : Prop where
  nodup : (t.columns.map fun c ↦ Text.foldLatin c.name).Nodup
  gathers : ∀ c ∈ t.columns, c.Gathers added
  complete : ∀ a ∈ added, ∃ c ∈ t.columns, Text.sameName a.name c.name = true
  declared : ∀ fk ∈ t.foreignKeys, fk ∈ constraints
  stated : ∀ fk ∈ constraints, ∃ stated ∈ t.foreignKeys, sameConstraint stated fk = true

variable {t result : Table} {added : List Column} {constraints : List ForeignKey} {a : Column}
  {owner : String}

theorem reflects_new (name : String) : Reflects { name } [] [] :=
  ⟨List.nodup_nil, fun _ h ↦ absurd h List.not_mem_nil, fun _ h ↦ absurd h List.not_mem_nil,
    fun _ h ↦ absurd h List.not_mem_nil, fun _ h ↦ absurd h List.not_mem_nil⟩

theorem Reflects.of_eq (h : t.Reflects added constraints) (hcolumns : result.columns = t.columns)
    (hkeys : result.foreignKeys = t.foreignKeys) : result.Reflects added constraints := by
  constructor
  case nodup => exact hcolumns ▸ h.nodup
  case gathers => exact hcolumns ▸ h.gathers
  case complete => exact hcolumns ▸ h.complete
  case declared => exact hkeys ▸ h.declared
  case stated => exact hkeys ▸ h.stated

/-- With names that are there once, merging into the first column of a name is merging into every
column of that name. -/
theorem mergeColumn_eq_map {columns : List Column}
    (hnodup : (columns.map fun c ↦ Text.foldLatin c.name).Nodup) :
    mergeColumn a columns =
      columns.map fun c ↦ if Text.sameName c.name a.name then c.merge a else c := by
  induction columns with
  | nil => rfl
  | cons c rest ih =>
    rw [List.map_cons, List.nodup_cons] at hnodup
    rw [mergeColumn, List.map_cons]
    split
    · rename_i hname
      have hrest : ∀ d ∈ rest, (if Text.sameName d.name a.name then d.merge a else d) = d := by
        intro d hd
        rw [if_neg]
        intro hd'
        refine hnodup.1 (List.mem_map.mpr ⟨d, hd, ?_⟩)
        exact (Text.sameName_iff.mp hd').trans (Text.sameName_iff.mp hname).symm
      rw [List.map_congr_left hrest, List.map_id']
    · rw [ih hnodup.2]

theorem column?_eq_none_iff {name : String} :
    t.column? name = none ↔ ∀ c ∈ t.columns, Text.sameName c.name name = false := by
  simp [column?, Text.sameName]

theorem column?_eq_some {name : String} {c : Column} (h : t.column? name = some c) :
    c ∈ t.columns ∧ Text.sameName c.name name = true :=
  ⟨List.mem_of_find?_eq_some h, Text.sameName_iff.mpr (by simpa using List.find?_some h)⟩

/-- Two columns of one name are one column. -/
theorem Reflects.eq_of_sameName (h : t.Reflects added constraints) {c d : Column}
    (hc : c ∈ t.columns) (hd : d ∈ t.columns) (hname : Text.sameName c.name d.name = true) :
    c = d :=
  List.inj_on_of_nodup_map h.nodup hc hd (Text.sameName_iff.mp hname)

/-- A column is added as a new one, or merged into the one that has its name and its type. -/
theorem addColumn_eq_ok (h : t.addColumn a owner = .ok result) :
    ((∀ c ∈ t.columns, Text.sameName c.name a.name = false) ∧
      result = { t with columns := t.columns ++ [a] }) ∨
    ∃ present ∈ t.columns, Text.sameName present.name a.name = true ∧ a.type = present.type ∧
      result = { t with columns := mergeColumn a t.columns } := by
  unfold addColumn at h
  split at h
  case h_1 hnone => exact Or.inl ⟨column?_eq_none_iff.mp hnone, (Except.ok.inj h).symm⟩
  case h_2 present hpresent =>
    obtain ⟨hmem, hname⟩ := column?_eq_some hpresent
    split at h
    case isTrue htype =>
      exact Or.inr ⟨present, hmem, hname, htype.symm, (Except.ok.inj h).symm⟩
    case isFalse => exact absurd h (by simp)

theorem addColumn_name (h : t.addColumn a owner = .ok result) : result.name = t.name := by
  rcases addColumn_eq_ok h with ⟨-, rfl⟩ | ⟨_, -, -, -, rfl⟩
  · rfl
  · rfl

/-- A column under a new name. -/
theorem Reflects.append (h : t.Reflects added constraints)
    (hnew : ∀ c ∈ t.columns, Text.sameName c.name a.name = false) :
    Reflects { t with columns := t.columns ++ [a] } (added ++ [a]) constraints := by
  refine ⟨?_, fun c hc ↦ ?_, fun b hb ↦ ?_, h.declared, h.stated⟩
  · rw [List.map_append, List.nodup_append]
    refine ⟨h.nodup, List.nodup_singleton _, fun x hx y hy hxy ↦ ?_⟩
    obtain ⟨c, hc, rfl⟩ := List.mem_map.mp hx
    obtain rfl := List.mem_singleton.mp hy
    have hne := hnew c hc
    rw [Text.sameName_iff.mpr hxy] at hne
    exact Bool.noConfusion hne
  · rcases List.mem_append.mp hc with hc | hc
    · exact (h.gathers c hc).append_of_ne (Text.sameName_comm _ _ ▸ hnew c hc)
    · obtain rfl := List.mem_singleton.mp hc
      refine Column.gathers_append_self fun b hb ↦ ?_
      obtain ⟨d, hd, hname⟩ := h.complete b hb
      -- a column with the name would be there already
      by_contra hsame
      have hfound : Text.sameName d.name c.name = true :=
        Text.sameName_trans (Text.sameName_symm hname) (by simpa using hsame)
      rw [hnew d hd] at hfound
      exact Bool.noConfusion hfound
  · rcases List.mem_append.mp hb with hb | hb
    · obtain ⟨d, hd, hname⟩ := h.complete b hb
      exact ⟨d, List.mem_append_left _ hd, hname⟩
    · obtain rfl := List.mem_singleton.mp hb
      exact ⟨b, List.mem_append_right _ (List.mem_singleton_self b), Text.sameName_self _⟩

/-- A column under a name that is there, with the type it has. -/
theorem Reflects.merge (h : t.Reflects added constraints) {present : Column}
    (hpresent : present ∈ t.columns) (hname : Text.sameName present.name a.name = true)
    (htype : a.type = present.type) :
    Reflects { t with columns := mergeColumn a t.columns } (added ++ [a]) constraints := by
  rw [mergeColumn_eq_map h.nodup]
  refine ⟨?_, fun c hc ↦ ?_, fun b hb ↦ ?_, h.declared, h.stated⟩
  · have hnames : ∀ c : Column,
        Text.foldLatin (if Text.sameName c.name a.name then c.merge a else c).name =
          Text.foldLatin c.name := by
      intro c
      split
      · rfl
      · rfl
    rw [List.map_map]
    exact (List.map_congr_left fun c _ ↦ hnames c) ▸ h.nodup
  · obtain ⟨d, hd, rfl⟩ := List.mem_map.mp hc
    split
    · rename_i hsame
      have hsame' : Text.sameName d.name present.name = true :=
        Text.sameName_trans hsame (Text.sameName_symm hname)
      obtain rfl := h.eq_of_sameName hd hpresent hsame'
      exact (h.gathers d hd).merge (Text.sameName_symm hname) htype
    · rename_i hsame
      have hother : Text.sameName d.name a.name = false := by simpa using hsame
      exact (h.gathers d hd).append_of_ne (Text.sameName_comm _ _ ▸ hother)
  · have hfound : ∃ d ∈ t.columns, Text.sameName b.name d.name = true := by
      rcases List.mem_append.mp hb with hb | hb
      · exact h.complete b hb
      · exact ⟨present, hpresent, List.mem_singleton.mp hb ▸ Text.sameName_symm hname⟩
    obtain ⟨d, hd, hsame⟩ := hfound
    refine ⟨_, List.mem_map_of_mem hd, ?_⟩
    split
    · exact hsame
    · exact hsame

theorem Reflects.addColumn (h : t.Reflects added constraints)
    (hadd : t.addColumn a owner = .ok result) : result.Reflects (added ++ [a]) constraints := by
  rcases addColumn_eq_ok hadd with ⟨hnew, rfl⟩ | ⟨present, hpresent, hname, htype, rfl⟩
  · exact h.append hnew
  · exact h.merge hpresent hname htype

/-- An index leaves everything else of a table as it is. -/
theorem addIndex_eq_ok {index : Index} (h : t.addIndex index owner = .ok result) :
    result.name = t.name ∧ result.columns = t.columns ∧ result.foreignKeys = t.foreignKeys := by
  unfold addIndex at h
  split at h
  · exact Except.ok.inj h ▸ ⟨rfl, rfl, rfl⟩
  · split at h
    · exact Except.ok.inj h ▸ ⟨rfl, rfl, rfl⟩
    · exact absurd h (by simp)

theorem addForeignKey_name (t : Table) (fk : ForeignKey) : (t.addForeignKey fk).name = t.name := by
  unfold addForeignKey
  split
  · rfl
  · rfl

theorem Reflects.addForeignKey (h : t.Reflects added constraints) (fk : ForeignKey) :
    (t.addForeignKey fk).Reflects added (constraints ++ [fk]) := by
  unfold Table.addForeignKey
  split
  · rename_i hthere
    refine ⟨h.nodup, h.gathers, h.complete, fun x hx ↦ List.mem_append_left _ (h.declared x hx),
      fun x hx ↦ ?_⟩
    rcases List.mem_append.mp hx with hx | hx
    · exact h.stated x hx
    · exact List.mem_singleton.mp hx ▸ List.any_eq_true.mp hthere
  · refine ⟨h.nodup, h.gathers, h.complete, fun x hx ↦ ?_, fun x hx ↦ ?_⟩
    · exact (List.mem_append.mp hx).elim (fun hx ↦ List.mem_append_left _ (h.declared x hx))
        (List.mem_append_right _)
    · rcases List.mem_append.mp hx with hx | hx
      · obtain ⟨stated, hstated, hsame⟩ := h.stated x hx
        exact ⟨stated, List.mem_append_left _ hstated, hsame⟩
      · exact ⟨x, List.mem_append_right _ hx, by simp [sameConstraint]⟩

/-- No constraint of a table is stated twice, whatever the case of the table it leads to. -/
def StatesOnce (t : Table) : Prop :=
  t.foreignKeys.Pairwise fun a b ↦ sameConstraint a b = false

theorem StatesOnce.of_eq (h : t.StatesOnce) (hkeys : result.foreignKeys = t.foreignKeys) :
    result.StatesOnce := by
  rw [StatesOnce, hkeys]
  exact h

theorem StatesOnce.addForeignKey (h : t.StatesOnce) (fk : ForeignKey) :
    (t.addForeignKey fk).StatesOnce := by
  unfold Table.addForeignKey
  by_cases hthere : t.foreignKeys.any (sameConstraint · fk) = true
  · rw [if_pos hthere]
    exact h
  · rw [if_neg hthere]
    have hnew : ∀ stated ∈ t.foreignKeys, sameConstraint stated fk = false := by
      intro stated hstated
      by_contra hsame
      exact hthere (List.any_eq_true.mpr ⟨stated, hstated, by simpa using hsame⟩)
    refine List.pairwise_append.mpr ⟨h, List.pairwise_singleton _ fk, ?_⟩
    intro stated hstated added hadded
    rw [List.mem_singleton.mp hadded]
    exact hnew stated hstated

theorem addColumn_foreignKeys (h : t.addColumn a owner = .ok result) :
    result.foreignKeys = t.foreignKeys := by
  rcases addColumn_eq_ok h with ⟨-, rfl⟩ | ⟨_, -, -, -, rfl⟩
  · rfl
  · rfl

end Table

end ClassMap

import Mathlib
import ClassMap.Proofs.Matches
import ClassMap.Proofs.Schema.Agreement
import ClassMap.Proofs.Spelling.Options

/-!
Changes to a schema under different spellings. Tables and columns are looked up without regard to
case, so how they are spelled never shows in what a change does. Indices and constraints that are
the same up to case are another matter: an index is refused unless it is exactly the one that is
there, and a constraint with other spellings of its columns is a second constraint. So changes that
spell each index in one way can be made in any spelling that does so too, and leave the same schema
but for constraints that are there several times.
-/

set_option autoImplicit false
set_option relaxedAutoImplicit false

namespace ClassMap

open Traversal

/-! ### One spelling for all names -/

theorem sameTable_of_foldLatin_eq {a b : String} (h : Text.foldLatin a = Text.foldLatin b) :
    sameTable a b = true :=
  sameTable_iff.mpr (Text.lower_eq_of_sameName (Text.sameName_iff.mpr h))

def Column.folded (c : Column) : Column :=
  { c with name := Text.foldLatin c.name }

def ForeignKey.folded (fk : ForeignKey) : ForeignKey where
  foreignTable := Text.foldLatin fk.foreignTable
  references := fk.references.map fun (column, foreign) ↦
    (Text.foldLatin column, Text.foldLatin foreign)

def Index.folded (i : Index) : Index :=
  { i with name := Text.foldLatin i.name, columns := i.columns.map Text.foldLatin }

def Table.folded (t : Table) : Table :=
  { t with
    name := Text.foldLatin t.name
    columns := t.columns.map Column.folded
    foreignKeys := t.foreignKeys.map ForeignKey.folded
    indices := t.indices.map Index.folded }

/-- The table in one spelling, with each constraint once. -/
def Table.merged (t : Table) : Table where
  name := Text.foldLatin t.name
  columns := t.columns.map Column.folded
  foreignKeys := (t.foreignKeys.map ForeignKey.folded).eraseDups
  indices := t.indices.map Index.folded
  description := t.description

/-- The schema with one spelling for all names of tables, columns and indices. -/
def Schema.folded (s : Schema) : Schema :=
  { s with tables := s.tables.map Table.folded }

/-- The schema in one spelling, with each constraint of a table once. -/
def Schema.merged (s : Schema) : Schema :=
  { s with tables := s.tables.map Table.merged }

namespace SchemaChange

def folded : SchemaChange → SchemaChange
  | table name description => .table (Text.foldLatin name) description
  | column name added owner => .column (Text.foldLatin name) added.folded owner
  | foreignKey name added => .foreignKey (Text.foldLatin name) added.folded
  | index name added owner => .index (Text.foldLatin name) added.folded owner

/-- Indices of one table that are the same up to case are the same. -/
def IndicesOnce (changes : List SchemaChange) : Prop :=
  ∀ c ∈ changes, ∀ d ∈ changes, sameTable c.tableName d.tableName = true →
    ∀ i ∈ c.index?, ∀ j ∈ d.index?, i.folded = j.folded → i = j

instance (changes : List SchemaChange) : Decidable (IndicesOnce changes) := by
  unfold IndicesOnce
  infer_instance

/-- Constraints of one table that are the same up to case spell their columns the same. -/
def ConstraintsOnce (changes : List SchemaChange) : Prop :=
  ∀ c ∈ changes, ∀ d ∈ changes, sameTable c.tableName d.tableName = true →
    ∀ fk ∈ c.foreignKey?, ∀ gk ∈ d.foreignKey?, fk.folded = gk.folded →
      fk.references = gk.references

instance (changes : List SchemaChange) : Decidable (ConstraintsOnce changes) := by
  unfold ConstraintsOnce
  infer_instance

end SchemaChange

/-! ### Lists without repetition -/

section EraseDups

variable {α : Type} [BEq α] [LawfulBEq α] {xs ys : List α} {x : α}

theorem eraseDups_eq_self (h : xs.Nodup) : xs.eraseDups = xs := by
  induction xs with
  | nil => rfl
  | cons x rest ih =>
    obtain ⟨hx, hrest⟩ := List.nodup_cons.mp h
    have hkept : rest.filter (fun y ↦ !y == x) = rest := by
      refine List.filter_eq_self.mpr fun y hy ↦ ?_
      simpa using fun heq : y = x ↦ hx (heq ▸ hy)
    rw [List.eraseDups_cons, hkept, ih hrest]

theorem eraseDups_append_of_mem (h : x ∈ xs) : (xs ++ [x]).eraseDups = xs.eraseDups := by
  rw [List.eraseDups_append, List.removeAll]
  simp [h]

theorem eraseDups_append_congr (h : xs.eraseDups = ys.eraseDups) (x : α) :
    (xs ++ [x]).eraseDups = (ys ++ [x]).eraseDups := by
  have hthere : xs.elem x = ys.elem x := by
    rw [Bool.eq_iff_iff, List.elem_iff, List.elem_iff, ← List.mem_eraseDups, h,
      List.mem_eraseDups]
  rw [List.eraseDups_append, List.eraseDups_append, h, List.removeAll, List.removeAll]
  simp only [List.filter_cons, hthere, List.filter_nil]

end EraseDups

/-! ### Changes to a table -/

namespace Table

variable {t t' : Table} {a a' : Column} {fk fk' : ForeignKey} {i i' : Index}
  {owner owner' : String}

theorem folded_eq_of_sameConstraint (h : sameConstraint fk fk' = true) :
    fk.folded = fk'.folded := by
  obtain ⟨hname, hreferences⟩ := Bool.and_eq_true_iff.mp h
  rw [ForeignKey.folded, ForeignKey.folded, Text.sameName_iff.mp hname, beq_iff_eq.mp hreferences]

theorem sameConstraint_iff (hone : fk.folded = fk'.folded → fk.references = fk'.references) :
    sameConstraint fk fk' = true ↔ fk.folded = fk'.folded := by
  refine ⟨folded_eq_of_sameConstraint, fun heq ↦ ?_⟩
  rw [sameConstraint, hone heq, beq_self_eq_true, Bool.and_true, Text.sameName_iff]
  exact congrArg ForeignKey.foreignTable heq

theorem folded_mergeColumn (added : Column) (columns : List Column) :
    (mergeColumn added columns).map Column.folded =
      mergeColumn added.folded (columns.map Column.folded) := by
  have hname : ∀ c : Column,
      Text.sameName c.folded.name added.folded.name = Text.sameName c.name added.name := by
    intro c
    simp only [Column.folded, Text.sameName, Text.foldLatin_foldLatin]
  induction columns with
  | nil => rfl
  | cons c rest ih =>
    rw [List.map_cons, mergeColumn, mergeColumn, hname, apply_ite (List.map Column.folded), ← ih]
    rfl

theorem map_folded_column? (t : Table) (name : String) :
    (t.column? name).map Column.folded = (t.columns.map Column.folded).find?
      fun c ↦ Text.foldLatin c.name == Text.foldLatin name := by
  have hname : ∀ c : Column, Text.foldLatin c.folded.name = Text.foldLatin c.name :=
    fun c ↦ Text.foldLatin_foldLatin c.name
  rw [column?, List.find?_map]
  simp only [Function.comp_def, hname]

theorem type_eq_of_folded_eq {c d : Column} (h : c.folded = d.folded) : c.type = d.type := by
  have htype : c.folded.type = d.folded.type := by rw [h]
  exact htype

theorem matches_addColumn (ht : t.merged = t'.merged) (ha : a.folded = a'.folded) :
    Matches merged (t.addColumn a owner) (t'.addColumn a' owner') := by
  obtain ⟨hname, hcolumns, hkeys, hindices, hdescription⟩ := Table.mk.inj ht
  have hfold : Text.foldLatin a.name = Text.foldLatin a'.name := congrArg Column.name ha
  have hfound : (t.column? a.name).map Column.folded = (t'.column? a'.name).map Column.folded := by
    rw [map_folded_column?, map_folded_column?, hcolumns, hfold]
  rw [addColumn, addColumn]
  rcases option_cases_of_map_eq hfound with ⟨hs, hs'⟩ | ⟨present, present', hs, hs', hpresent⟩
  · rw [hs, hs']
    refine .ok ?_
    simp only [merged, List.map_append, hname, hcolumns, hkeys, hindices, hdescription,
      List.map_singleton, ha]
  · rw [hs, hs']
    refine .ite ?_ (.ok ?_) (.error _ _)
    · rw [type_eq_of_folded_eq hpresent, type_eq_of_folded_eq ha]
    · simp only [merged, folded_mergeColumn, hname, hcolumns, hkeys, hindices, hdescription, ha]

/-- Up to case and repetition, a constraint is added where it is not there. -/
theorem merged_addForeignKey (t : Table) (fk : ForeignKey) :
    (t.addForeignKey fk).merged =
      { t.merged with
        foreignKeys := (t.foreignKeys.map ForeignKey.folded ++ [fk.folded]).eraseDups } := by
  rw [addForeignKey]
  split
  · rename_i hthere
    obtain ⟨present, hpresent, hsame⟩ := List.any_eq_true.mp hthere
    have hmem : fk.folded ∈ t.foreignKeys.map ForeignKey.folded :=
      List.mem_map.mpr ⟨present, hpresent, folded_eq_of_sameConstraint hsame⟩
    rw [eraseDups_append_of_mem hmem]
    rfl
  · rw [merged, List.map_append]
    rfl

theorem merged_addForeignKey_congr (ht : t.merged = t'.merged) (hfk : fk.folded = fk'.folded) :
    (t.addForeignKey fk).merged = (t'.addForeignKey fk').merged := by
  have hkeys : (t.foreignKeys.map ForeignKey.folded).eraseDups =
      (t'.foreignKeys.map ForeignKey.folded).eraseDups := congrArg Table.foreignKeys ht
  rw [merged_addForeignKey, merged_addForeignKey, ht, hfk, eraseDups_append_congr hkeys]

/-- An index with one spelling is new to both tables, there in both, or refused by both. -/
theorem matches_addIndex (ht : t.merged = t'.merged) (hi : i.folded = i'.folded)
    (hone : ∀ present ∈ t.indices, present.folded = i.folded → present = i)
    (hone' : ∀ present ∈ t'.indices, present.folded = i'.folded → present = i') :
    Matches merged (t.addIndex i owner) (t'.addIndex i' owner') := by
  obtain ⟨hname, hcolumns, hkeys, hindices, hdescription⟩ := Table.mk.inj ht
  have hfold : Text.foldLatin i.name = Text.foldLatin i'.name := congrArg Index.name hi
  have hfind : ∀ (t : Table) (name : String),
      (t.indices.find? fun j ↦ Text.sameName j.name name).map Index.folded =
        (t.indices.map Index.folded).find? fun j ↦ j.name == Text.foldLatin name := by
    intro t name
    rw [List.find?_map]
    rfl
  have hfound : (t.indices.find? fun j ↦ Text.sameName j.name i.name).map Index.folded =
      (t'.indices.find? fun j ↦ Text.sameName j.name i'.name).map Index.folded := by
    rw [hfind, hfind, hindices, hfold]
  rw [addIndex, addIndex]
  rcases option_cases_of_map_eq hfound with ⟨hs, hs'⟩ | ⟨present, present', hs, hs', hpresent⟩
  · rw [hs, hs']
    refine .ok ?_
    simp only [merged, List.map_append, hname, hcolumns, hkeys, hindices, hdescription,
      List.map_singleton, hi]
  · rw [hs, hs']
    have hmem : present ∈ t.indices := List.mem_of_find?_eq_some hs
    have hmem' : present' ∈ t'.indices := List.mem_of_find?_eq_some hs'
    have hsame : present = i ↔ present' = i' := by
      constructor
      · intro heq
        exact hone' present' hmem' (hpresent.symm.trans (heq ▸ hi))
      · intro heq
        exact hone present hmem (hpresent.trans (heq ▸ hi.symm))
    exact .ite hsame (.ok ht) (.error _ _)

theorem merged_describe_congr (ht : t.merged = t'.merged) (description : Option String) :
    (t.describe description).merged = (t'.describe description).merged := by
  obtain ⟨hname, hcolumns, hkeys, hindices, hdescription⟩ := Table.mk.inj ht
  simp only [describe, merged, hname, hcolumns, hkeys, hindices, hdescription]

theorem merged_eq_folded (h : (t.foreignKeys.map ForeignKey.folded).Nodup) :
    t.merged = t.folded := by
  rw [merged, eraseDups_eq_self h, folded]

end Table

namespace SchemaChange

variable {c c' : SchemaChange} {t t' : Table} {changes changes' : List SchemaChange}
  {tables tables' : List Table} {name name' : String}

/-- A change to a table spells the indices that it has as they are. -/
def SpellsAlike (c : SchemaChange) (t : Table) : Prop :=
  ∀ i ∈ t.indices, ∀ j ∈ c.index?, i.folded = j.folded → i = j

theorem matches_applyTo (hc : c.folded = c'.folded) (ht : t.merged = t'.merged)
    (hspells : c.SpellsAlike t) (hspells' : c'.SpellsAlike t') :
    Matches Table.merged (c.applyTo t) (c'.applyTo t') := by
  -- only changes of one kind are folded to the same
  cases c with
  | table name description =>
    cases c' <;> simp only [folded, reduceCtorEq, table.injEq] at hc
    obtain ⟨-, rfl⟩ := hc
    exact .ok (Table.merged_describe_congr ht description)
  | column name a owner =>
    cases c' <;> simp only [folded, reduceCtorEq, column.injEq] at hc
    exact Table.matches_addColumn ht hc.2.1
  | foreignKey name fk =>
    cases c' <;> simp only [folded, reduceCtorEq, foreignKey.injEq] at hc
    exact .ok (Table.merged_addForeignKey_congr ht hc.2)
  | index name i owner =>
    cases c' <;> simp only [folded, reduceCtorEq, index.injEq] at hc
    exact Table.matches_addIndex ht hc.2.1
      (fun present hpresent ↦ hspells present hpresent i rfl)
      fun present hpresent ↦ hspells' present hpresent _ rfl

theorem matches_changeTable {change change' : Table → Except MappingError Table}
    (hname : Text.foldLatin name = Text.foldLatin name')
    (htables : tables.map Table.merged = tables'.map Table.merged)
    (hthere : ∀ t ∈ tables, ∀ t' ∈ tables', t.merged = t'.merged → sameTable t.name name = true →
      Matches Table.merged (change t) (change' t'))
    (hnew : Matches Table.merged (change { name }) (change' { name := name' })) :
    Matches (List.map Table.merged) (changeTable name change tables)
      (changeTable name' change' tables') := by
  induction tables generalizing tables' with
  | nil =>
    obtain rfl := List.map_eq_nil_iff.mp htables.symm
    exact hnew.bind fun t t' _ _ ht ↦ .pure (congrArg (fun t ↦ [t]) ht)
  | cons t rest ih =>
    cases tables' with
    | nil => exact absurd htables (by simp)
    | cons t' rest' =>
      obtain ⟨ht, hrest⟩ := List.cons.inj htables
      have htname : Text.foldLatin t.name = Text.foldLatin t'.name := congrArg Table.name ht
      rw [changeTable, changeTable, ← sameTable_iff.mp (sameTable_of_foldLatin_eq hname),
        ← sameTable_iff.mp (sameTable_of_foldLatin_eq htname)]
      by_cases hfound : (Text.lower t.name == Text.lower name) = true
      · rw [if_pos hfound, if_pos hfound]
        refine (hthere t List.mem_cons_self t' List.mem_cons_self ht hfound).bind
          fun u u' _ _ hu ↦ .pure ?_
        rw [List.map_cons, List.map_cons, hu, hrest]
      · rw [if_neg hfound, if_neg hfound]
        have hlater := ih hrest fun u hu u' hu' ↦
          hthere u (List.mem_cons_of_mem t hu) u' (List.mem_cons_of_mem t' hu')
        refine hlater.bind fun us us' _ _ hus ↦ .pure ?_
        rw [List.map_cons, List.map_cons, ht, hus]

/-! ### Runs of changes -/

theorem IndicesOnce.of_subset {others : List SchemaChange} (h : IndicesOnce changes)
    (hsubset : others ⊆ changes) : IndicesOnce others :=
  fun c hc d hd ↦ h c (hsubset hc) d (hsubset hd)

theorem Agree.indicesOnce (h : Agree changes) : IndicesOnce changes :=
  fun c hc d hd hname i hi j hj heq ↦
    (h c hc d hd hname).indices i hi j hj (Text.sameName_iff.mpr (congrArg Index.name heq))

/-- A change of a run that spells indices once spells alike what the run has put into a table. -/
theorem IndicesOnce.spellsAlike (h : IndicesOnce (changes ++ [c]))
    (hmade : applyAll [] changes = .ok tables) (ht : t ∈ tables)
    (hname : sameTable t.name c.tableName = true) : c.SpellsAlike t := by
  intro i hi j hj
  have hindexed := kept_indexed.of_applyAll hmade t ht
  obtain ⟨d, hd, hindex⟩ := List.mem_filterMap.mp ((hindexed.mem_iff i).mp hi)
  obtain ⟨hmem, hsame⟩ := List.mem_filter.mp hd
  exact h d (List.mem_append_left _ hmem) c (by simp) (sameTable_trans hsame hname) i hindex j hj

theorem spellsAlike_new (c : SchemaChange) (name : String) : c.SpellsAlike { name } :=
  fun _ hi ↦ absurd hi List.not_mem_nil

theorem foldLatin_tableName (c : SchemaChange) :
    c.folded.tableName = Text.foldLatin c.tableName := by
  cases c <;> rfl

theorem column?_folded (c : SchemaChange) : c.folded.column? = c.column?.map Column.folded := by
  cases c <;> rfl

theorem index?_folded (c : SchemaChange) : c.folded.index? = c.index?.map Index.folded := by
  cases c <;> rfl

theorem sameTable_of_folded_eq (h : c.folded = c'.folded) :
    sameTable c.tableName c'.tableName = true := by
  refine sameTable_of_foldLatin_eq ?_
  rw [← foldLatin_tableName, h, foldLatin_tableName]

/-- What one of two changes with the same folding adds, the other adds up to case. -/
theorem exists_mem_of_folded_eq {β : Type} {part : SchemaChange → Option β} {view : β → β} {b : β}
    (hpart : ∀ c, part c.folded = (part c).map view) (hfold : c'.folded = c.folded)
    (hb : b ∈ part c) : ∃ b' ∈ part c', view b' = view b := by
  refine Option.map_eq_some_iff.mp ?_
  rw [← hpart, hfold, hpart, Option.mem_def.mp hb, Option.map_some]

/-- Changes that spell their indices once agree when they agree in another spelling. -/
theorem Agree.of_folded_eq (h' : Agree changes') (h : changes.map folded = changes'.map folded)
    (hone : IndicesOnce changes) : Agree changes := by
  intro c hc d hd hname
  obtain ⟨c', hc', hcfold⟩ := List.mem_map.mp (h ▸ List.mem_map_of_mem hc)
  obtain ⟨d', hd', hdfold⟩ := List.mem_map.mp (h ▸ List.mem_map_of_mem hd)
  have hname' : sameTable c'.tableName d'.tableName = true :=
    sameTable_trans (sameTable_of_folded_eq hcfold)
      (sameTable_trans hname (sameTable_of_folded_eq hdfold.symm))
  have hagrees := h' c' hc' d' hd' hname'
  constructor
  · intro a ha b hb hsame
    obtain ⟨a', ha', hafold⟩ := exists_mem_of_folded_eq column?_folded hcfold ha
    obtain ⟨b', hb', hbfold⟩ := exists_mem_of_folded_eq column?_folded hdfold hb
    have hsame' : Text.sameName a'.name b'.name = true :=
      Text.sameName_iff.mpr ((congrArg Column.name hafold).trans
        ((Text.sameName_iff.mp hsame).trans (congrArg Column.name hbfold).symm))
    calc a.type = a'.type := (Table.type_eq_of_folded_eq hafold).symm
      _ = b'.type := hagrees.columns a' ha' b' hb' hsame'
      _ = b.type := Table.type_eq_of_folded_eq hbfold
  · intro i hi j hj hsame
    obtain ⟨i', hi', hifold⟩ := exists_mem_of_folded_eq index?_folded hcfold hi
    obtain ⟨j', hj', hjfold⟩ := exists_mem_of_folded_eq index?_folded hdfold hj
    have hsame' : Text.sameName i'.name j'.name = true :=
      Text.sameName_iff.mpr ((congrArg Index.name hifold).trans
        ((Text.sameName_iff.mp hsame).trans (congrArg Index.name hjfold).symm))
    obtain rfl : i' = j' := hagrees.indices i' hi' j' hj' hsame'
    exact hone c hc d hd hname i hi j hj (hifold.symm.trans hjfold)

/-- Runs of the same changes that each spell their indices once are made together and leave the same
schema, up to case and constraints that are there several times. -/
theorem matches_applyAll (h : changes.map folded = changes'.map folded)
    (hone : IndicesOnce changes) (hone' : IndicesOnce changes') :
    Matches (List.map Table.merged) (applyAll [] changes) (applyAll [] changes') := by
  -- by the last change: that indices are spelled alike is known of the changes before it
  induction changes using List.reverseRecOn generalizing changes' with
  | nil =>
    obtain rfl := List.map_eq_nil_iff.mp h.symm
    exact .pure rfl
  | append_singleton before c ih =>
    rw [List.map_append] at h
    obtain ⟨before', last', rfl, hbefore, hlast⟩ := List.map_eq_append_iff.mp h.symm
    obtain ⟨c', rest, rfl, hc, hrest⟩ := List.map_eq_cons_iff.mp hlast
    obtain rfl := List.map_eq_nil_iff.mp hrest
    have hearlier := ih hbefore.symm (hone.of_subset (List.subset_append_left _ _))
      (hone'.of_subset (List.subset_append_left _ _))
    have hname : Text.foldLatin c.tableName = Text.foldLatin c'.tableName := by
      rw [← foldLatin_tableName, ← foldLatin_tableName, hc]
    rw [applyAll_append, applyAll_append]
    refine hearlier.bind fun tables tables' hmade hmade' htables ↦ ?_
    have hchange : Matches (List.map Table.merged) (c.apply tables) (c'.apply tables') := by
      refine matches_changeTable hname htables (fun t ht t' ht' heq hsame ↦ ?_) ?_
      · have hsame' : sameTable t'.name c'.tableName = true :=
          sameTable_trans (sameTable_of_foldLatin_eq (congrArg Table.name heq.symm))
            (sameTable_trans hsame (sameTable_of_foldLatin_eq hname))
        exact matches_applyTo hc.symm heq (hone.spellsAlike hmade ht hsame)
          (hone'.spellsAlike hmade' ht' hsame')
      · refine matches_applyTo hc.symm ?_ (spellsAlike_new c _) (spellsAlike_new c' _)
        rw [Table.merged, Table.merged, hname]
    simpa [applyAll] using hchange

/-! ### Constraints that are there once -/

/-- The constraints of a table that is made from changes that spell them once differ by more than
case. -/
theorem ConstraintsOnce.nodup_folded (hone : ConstraintsOnce changes)
    (hmade : applyAll [] changes = .ok tables) (ht : t ∈ tables) :
    (t.foreignKeys.map ForeignKey.folded).Nodup := by
  refine List.pairwise_map.mpr ((statesOnce_of_applyAll hmade t ht).imp_of_mem ?_)
  intro fk gk hfk hgk hother heq
  have hreflects := kept_reflects.of_applyAll hmade t ht
  obtain ⟨c, hc, hkey⟩ := List.mem_filterMap.mp (hreflects.declared fk hfk)
  obtain ⟨d, hd, hkey'⟩ := List.mem_filterMap.mp (hreflects.declared gk hgk)
  obtain ⟨hc, hcname⟩ := List.mem_filter.mp hc
  obtain ⟨hd, hdname⟩ := List.mem_filter.mp hd
  have hreferences : fk.references = gk.references :=
    hone c hc d hd (sameTable_trans hcname (sameTable_symm hdname)) fk hkey gk hkey' heq
  rw [(Table.sameConstraint_iff fun _ ↦ hreferences).mpr heq] at hother
  exact Bool.noConfusion hother

theorem ConstraintsOnce.map_merged (hone : ConstraintsOnce changes)
    (hmade : applyAll [] changes = .ok tables) :
    tables.map Table.merged = tables.map Table.folded :=
  List.map_congr_left fun _ ht ↦ Table.merged_eq_folded (hone.nodup_folded hmade ht)

/-- A run that leaves the schema of a run that spells constraints once spells them once itself. -/
theorem ConstraintsOnce.of_made (hone : ConstraintsOnce changes)
    (hmade : applyAll [] changes = .ok tables) (hmade' : applyAll [] changes' = .ok tables')
    (htables : tables.map Table.folded = tables'.map Table.folded) : ConstraintsOnce changes' := by
  intro c hc d hd hname fk hfk gk hgk heq
  obtain ⟨t', ht', hctable⟩ := exists_table_of_mem hmade' hc
  have hreflects := kept_reflects.of_applyAll hmade' t' ht'
  have hnodup : (t'.foreignKeys.map ForeignKey.folded).Nodup := by
    obtain ⟨t, ht, hfolded⟩ := List.mem_map.mp (htables ▸ List.mem_map_of_mem ht')
    have hkeys : t.foreignKeys.map ForeignKey.folded = t'.foreignKeys.map ForeignKey.folded :=
      congrArg Table.foreignKeys hfolded
    exact hkeys ▸ hone.nodup_folded hmade ht
  have hdtable : sameTable d.tableName t'.name = true :=
    sameTable_trans (sameTable_symm hname) hctable
  obtain ⟨stated, hstated, hsame⟩ := hreflects.stated fk
    (List.mem_filterMap.mpr ⟨c, List.mem_filter.mpr ⟨hc, hctable⟩, hfk⟩)
  obtain ⟨stated', hstated', hsame'⟩ := hreflects.stated gk
    (List.mem_filterMap.mpr ⟨d, List.mem_filter.mpr ⟨hd, hdtable⟩, hgk⟩)
  have hstatedOnce : stated = stated' := by
    refine List.inj_on_of_nodup_map hnodup hstated hstated' ?_
    rw [Table.folded_eq_of_sameConstraint hsame, heq, Table.folded_eq_of_sameConstraint hsame']
  rw [← beq_iff_eq.mp (Bool.and_eq_true_iff.mp hsame).2, hstatedOnce,
    beq_iff_eq.mp (Bool.and_eq_true_iff.mp hsame').2]

end SchemaChange

end ClassMap

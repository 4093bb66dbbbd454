import Mathlib.Data.List.Basic
import ClassMap.Proofs.Resolution.Changes

/-!
The order of the tables of a plan: those of the classes come first, in the order of the classes,
and after them the join tables in the order in which the collections are resolved.
-/

set_option autoImplicit false
set_option relaxedAutoImplicit false

namespace ClassMap

open Traversal

/-- Names that are gathered part by part, each part as good as a shorter one after whatever comes
before it. -/
theorem firstNames_append_flatMap {α β : Type} {long : β → List String} {short : α → List String}
    {xs : List α} {ys : List β} (P : List String → Prop)
    (hP : ∀ before more, P before → P (before ++ more))
    (h : List.Forall₂ (fun x y ↦ ∀ before, P before →
      firstNames (before ++ long y) = firstNames (before ++ short x)) xs ys)
    {before : List String} (hbefore : P before) :
    firstNames (before ++ ys.flatMap long) = firstNames (before ++ xs.flatMap short) := by
  induction h generalizing before with
  | nil => rfl
  | @cons x y xs ys hhead _ ih =>
    rw [List.flatMap_cons, List.flatMap_cons, ← List.append_assoc, ← List.append_assoc,
      firstNames_append_congr (hhead before hbefore)]
    exact ih (hP before (short x) hbefore)

/-- The join table of a collection that has one. -/
def Association.joinTable? (association : Association) : Option String :=
  association.collection?.bind (·.indirectionTable)

namespace Scope

variable {s : Scope} {p : PersistentClass} {c element : ClassDecl} {a : EffectiveAssociation}
  {association : Association} {changes : List SchemaChange} {before : List String}

/-- The tables of all classes are among some names. -/
def Covers (s : Scope) (names : List String) : Prop :=
  ∀ c table, s.tableOf c = some table → ∃ name ∈ names, sameTable table name = true

theorem Covers.append {more : List String} (h : s.Covers before) : s.Covers (before ++ more) := by
  intro c table htable
  obtain ⟨name, hname, hsame⟩ := h c table htable
  exact ⟨name, List.mem_append_left more hname, hsame⟩

theorem ResolvedReference.firstNames_eq {d : ReferenceDescriptor} {target : ClassDecl}
    {keys : List FieldDescriptor} (h : ResolvedReference s c a d changes target keys)
    (hbefore : s.Covers before) :
    firstNames (before ++ changes.map (·.tableName)) = firstNames before := by
  refine firstNames_append_of_seen fun name hname ↦ ?_
  obtain ⟨change, hchange, rfl⟩ := List.mem_map.mp hname
  obtain ⟨-, table, _, htable, -, rfl⟩ := (h.mem_changes change).mp hchange
  exact hbefore c table htable

theorem ResolvedCollection.firstNames_eq {d : CollectionDescriptor} {options : CollectionOptions}
    (h : ResolvedCollection s c a d changes options element) (hbefore : s.Covers before) :
    firstNames (before ++ changes.map (·.tableName)) =
      firstNames (before ++ d.indirectionTable.toList) := by
  rcases h.keys_cases with ⟨htable, hkeys⟩ | ⟨joinTable, htable, hkeys⟩
  · rw [htable, Option.toList_none, List.append_nil]
    refine firstNames_append_of_seen fun name hname ↦ ?_
    obtain ⟨_, -, -, hmem⟩ := inverseKeys_eq_ok hkeys
    obtain ⟨change, hchange, rfl⟩ := List.mem_map.mp hname
    obtain ⟨-, -, table, _, helement, -, rfl⟩ := (hmem change).mp hchange
    exact hbefore element table helement
  · rw [htable]
    obtain ⟨-, -, constraints, rfl, hmem⟩ := joinKeys_eq_ok hkeys
    refine firstNames_append_cons before fun name hname ↦ ?_
    obtain ⟨change, hchange, rfl⟩ := List.mem_map.mp hname
    have htableName : change.tableName = joinTable := by
      rcases List.mem_append.mp hchange with hcolumn | hconstraint
      · obtain ⟨pair, -, rfl⟩ := List.mem_map.mp hcolumn
        rfl
      · obtain ⟨-, -, ⟨_, -, rfl⟩ | ⟨_, -, rfl⟩⟩ := (hmem change).mp hconstraint
        · rfl
        · rfl
    exact htableName ▸ sameTable_self joinTable

theorem firstNames_associationPlan (hplan : s.associationPlan c a = .ok (association, changes))
    (hbefore : s.Covers before) :
    firstNames (before ++ changes.map (·.tableName)) =
      firstNames (before ++ association.joinTable?.toList) := by
  rcases associationPlan_eq_ok_iff.mp hplan with ⟨-, d, rfl, hd⟩ | ⟨-, d, rfl, hd⟩
  · obtain ⟨options, element, hresolved⟩ := collectionPlan_eq_ok hd
    exact hresolved.firstNames_eq hbefore
  · obtain ⟨target, keys, hresolved⟩ := resolveReference_eq_ok hd
    rw [hresolved.firstNames_eq hbefore]
    simp [Association.joinTable?, Association.collection?]

theorem firstNames_classPlan {d : ClassDescriptor} (hplan : s.classPlan p = .ok (d, changes))
    (hbefore : s.Covers before) :
    firstNames (before ++ changes.map (·.tableName)) =
      firstNames (before ++ d.collections.filterMap (·.indirectionTable)) := by
  obtain ⟨parts, procedures, hparts, -, rfl, rfl⟩ := classPlan_eq_ok hplan
  have hshort : (s.describe p (parts.map (·.1)) procedures).collections.filterMap
      (·.indirectionTable) = parts.flatMap fun part ↦ part.1.joinTable?.toList := by
    rw [ClassDescriptor.collections, describe, List.filterMap_filterMap, List.filterMap_map,
      List.filterMap_eq_flatMap_toList]
    rfl
  rw [hshort, List.map_flatMap]
  refine firstNames_append_flatMap s.Covers (fun _ _ h ↦ h.append) ?_ hbefore
  refine List.forall₂_same.mpr fun part hpart before hbefore ↦ ?_
  obtain ⟨a, -, ha⟩ := exists_of_mem_mapM hparts hpart
  exact firstNames_associationPlan ha hbefore

theorem covers_of_plan {ds : List ClassDescriptor} (hplan : s.plan = .ok (ds, changes)) :
    s.Covers (ds.filterMap (·.table)) := by
  intro c table htable
  obtain ⟨p, hp, rfl⟩ := Built.isPersistent_iff.mp (tableOf_eq_some htable)
  obtain ⟨d, hd, hdescribes⟩ := exists_mem_describes hplan hp
  exact ⟨table, List.mem_filterMap.mpr ⟨d, hd, hdescribes.table.trans htable⟩, sameTable_self table⟩

theorem filterMap_table_of_plan {ds : List ClassDescriptor} (hplan : s.plan = .ok (ds, changes)) :
    ds.filterMap (·.table) = s.classes.flatMap fun p ↦ (s.tableOf p.decl).toList := by
  obtain ⟨_, parts, -, hparts, rfl, -⟩ := plan_eq_ok hplan
  have hmap : parts.map (fun part ↦ part.1.table) = s.classes.map fun p ↦ s.tableOf p.decl :=
    map_eq_map_of_mapM hparts fun p hp part hpart ↦ (describes_of_classPlan hp hpart).table
  rw [← List.filterMap_eq_flatMap_toList, List.filterMap_map]
  simpa using congrArg (List.filterMap id) hmap

/-- The tables of a plan are those of the classes and then the join tables. -/
theorem firstNames_plan {ds : List ClassDescriptor} (hplan : s.plan = .ok (ds, changes)) :
    firstNames (changes.map (·.tableName)) =
      firstNames (ds.filterMap (·.table) ++
        ds.flatMap fun d ↦ d.collections.filterMap (·.indirectionTable)) := by
  have hcovers := covers_of_plan hplan
  have hclasses := filterMap_table_of_plan hplan
  obtain ⟨tables, parts, htables, hparts, rfl, rfl⟩ := plan_eq_ok hplan
  have hfirst : firstNames (tables.flatMap fun changes ↦ changes.map (·.tableName)) =
      firstNames ((parts.map (·.1)).filterMap (·.table)) := by
    rw [hclasses]
    change firstNames ([] ++ _) = firstNames ([] ++ _)
    refine firstNames_append_flatMap (fun _ ↦ True) (fun _ _ _ ↦ trivial) ?_ trivial
    exact (mapM_eq_ok_iff.mp htables).imp fun p changes hp before _ ↦
      firstNames_tableChanges hp before
  rw [List.map_append, List.map_flatten, ← List.flatMap_def, List.map_flatMap,
    firstNames_append_congr hfirst, List.flatMap_map]
  refine firstNames_append_flatMap s.Covers (fun _ _ h ↦ h.append) ?_ hcovers
  refine List.forall₂_same.mpr fun part hpart before hbefore ↦ ?_
  obtain ⟨p, -, hp⟩ := exists_of_mem_mapM hparts hpart
  exact firstNames_classPlan hp hbefore

end Scope

end ClassMap

import ClassMap.Proofs.Hierarchy.Reordering
import ClassMap.Proofs.Resolution.Changes
import ClassMap.Proofs.Schema.Agreement

/-!
Scopes that agree in everything but the order of their classes. They plan the same associations,
procedures and indices, and so the same descriptors but for the order of extents. Only the table
that a constraint leads to may be spelled in another way, when classes share it: apart from
constraints the plans ask for the same changes.
-/

set_option autoImplicit false
set_option relaxedAutoImplicit false

namespace ClassMap

open Traversal

namespace Scope

section

variable {s : Scope} {c element : ClassDecl} {a : EffectiveAssociation}
  {changes : List SchemaChange} {options : CollectionOptions}

theorem constraints_of_resolveReference {reference : ReferenceDescriptor}
    (hplan : s.resolveReference c a = .ok (reference, changes)) :
    SchemaChange.Constraints changes := by
  obtain ⟨_, _, hresolved⟩ := resolveReference_eq_ok hplan
  intro change hchange
  obtain ⟨-, table, _, -, -, heq⟩ := (hresolved.mem_changes change).mp hchange
  exact ⟨table, _, heq⟩

theorem constraints_of_inverseKeys (hkeys : s.inverseKeys c element a options = .ok changes) :
    SchemaChange.Constraints changes := by
  obtain ⟨_, -, -, hmem⟩ := inverseKeys_eq_ok hkeys
  intro change hchange
  obtain ⟨-, -, table, _, -, -, heq⟩ := (hmem change).mp hchange
  exact ⟨table, _, heq⟩

theorem constraints_of_joinKeys {joinTable : String} {remote : List String}
    (hkeys : s.joinKeys c element a options joinTable = .ok (remote, changes)) :
    ∃ constraints, changes = joinTableChanges c options joinTable
        (options.foreignKeys.zip (s.primaryKeys c) ++ remote.zip (s.primaryKeys element)) ++
          constraints ∧ SchemaChange.Constraints constraints := by
  obtain ⟨-, -, constraints, heq, hmem⟩ := joinKeys_eq_ok hkeys
  refine ⟨constraints, heq, fun change hchange ↦ ?_⟩
  obtain ⟨-, -, ⟨_, -, heq⟩ | ⟨_, -, heq⟩⟩ := (hmem change).mp hchange
  · exact ⟨joinTable, _, heq⟩
  · exact ⟨joinTable, _, heq⟩

end

/-- Scopes whose classes come in different orders and are otherwise the same. -/
structure Reorders (s other : Scope) : Prop where
  hierarchy : s.hierarchy.Reorders other.hierarchy
  checks : s.checks = other.checks
  decls : (s.classes.map (·.decl)).Perm (other.classes.map (·.decl))
  extents : ∀ p ∈ s.classes, ∀ q ∈ other.classes, p.decl = q.decl → p.extents.Perm q.extents
  members : s.membersOf = other.membersOf
  fields : s.fieldsOf = other.fieldsOf

namespace Reorders

variable {s other : Scope} {c element : ClassDecl} {a : EffectiveAssociation}
  {p q : PersistentClass} {changes others : List SchemaChange} {d : ClassDescriptor}
  {ds ds' : List ClassDescriptor}

theorem symm (hsame : s.Reorders other) : other.Reorders s where
  hierarchy := hsame.hierarchy.symm
  checks := hsame.checks.symm
  decls := hsame.decls.symm
  extents := fun p hp q hq hdecl ↦ (hsame.extents q hq p hp hdecl.symm).symm
  members := hsame.members.symm
  fields := hsame.fields.symm

theorem exists_mem (hsame : s.Reorders other) (hp : p ∈ s.classes) :
    ∃ q ∈ other.classes, q.decl = p.decl :=
  List.mem_map.mp (hsame.decls.mem_iff.mp (List.mem_map_of_mem hp))

theorem isPersistent_eq (hsame : s.Reorders other) : s.isPersistent = other.isPersistent := by
  funext c
  have hany := hsame.decls.any_eq (f := (· == c))
  rwa [List.any_map, List.any_map] at hany

theorem tableOf_eq (hsame : s.Reorders other) : s.tableOf = other.tableOf :=
  funext fun _ ↦ by rw [tableOf, tableOf, hsame.isPersistent_eq]

theorem primaryKeys_eq (hsame : s.Reorders other) : s.primaryKeys = other.primaryKeys :=
  funext fun _ ↦ by rw [primaryKeys, primaryKeys, hsame.fields]

theorem field_eq (hsame : s.Reorders other) : s.field = other.field := by
  funext c name use
  rw [field, field, hsame.fields, hsame.members]

theorem persistentClass_eq (hsame : s.Reorders other) :
    s.persistentClass = other.persistentClass := by
  funext className target use
  rw [persistentClass, persistentClass, hsame.hierarchy.find?_eq, hsame.isPersistent_eq]

theorem checkTarget_eq (hsame : s.Reorders other) : s.checkTarget = other.checkTarget := by
  funext c a options
  rw [checkTarget, checkTarget, hsame.checks, hsame.hierarchy.areCompatible_eq]

theorem elementClass_eq (hsame : s.Reorders other) : s.elementClass = other.elementClass := by
  have helement : s.checkElement = other.checkElement := by
    funext c a options
    rw [checkElement, checkElement, hsame.checks, hsame.hierarchy.areCompatible_eq]
  have hcontainer : s.checkContainer = other.checkContainer := by
    funext c a options
    rw [checkContainer, checkContainer, hsame.checks, hsame.hierarchy.checkContainer_eq]
  funext c a options
  rw [elementClass, elementClass, hsame.persistentClass_eq, helement, hcontainer]

theorem findReciprocal_eq (hsame : s.Reorders other) :
    s.findReciprocal = other.findReciprocal := by
  have hcounterparts : s.counterparts = other.counterparts :=
    funext₂ fun _ _ ↦ by rw [counterparts, counterparts, hsame.members]
  funext element a joinTable
  rw [findReciprocal, findReciprocal, hcounterparts]

theorem checkOrder_eq (hsame : s.Reorders other) : s.checkOrder = other.checkOrder := by
  funext element a orderBy
  rw [checkOrder, checkOrder, hsame.field_eq]

theorem procedures_eq (hsame : s.Reorders other) : s.procedures = other.procedures := by
  have hcheck : s.checkArgument = other.checkArgument :=
    funext₂ fun _ _ ↦ by rw [checkArgument, checkArgument, hsame.field_eq]
  have hadd : s.addArgument = other.addArgument := by
    funext c arguments tag
    rw [addArgument, addArgument, hcheck]
  have harguments : s.arguments = other.arguments :=
    funext fun _ ↦ by rw [arguments, arguments, hadd]
  have hprocedure : s.procedure = other.procedure := by
    funext c arguments kind tag
    rw [procedure, procedure, hsame.field_eq]
  exact funext fun _ ↦ by rw [procedures, procedures, harguments, hprocedure]

/-- What a class asks for with its table depends on the class alone. -/
theorem tableChanges_eq (hsame : s.Reorders other) (hdecl : p.decl = q.decl) :
    s.tableChanges p = other.tableChanges q := by
  have hindex : s.index = other.index :=
    funext₂ fun _ _ ↦ by rw [index, index, hsame.field_eq]
  have hcolumns : s.columnChanges = other.columnChanges :=
    funext₂ fun _ _ ↦ by rw [columnChanges, columnChanges, hsame.fields]
  rw [tableChanges, tableChanges, hsame.tableOf_eq, hindex, hcolumns, hdecl]

/-- A reference is resolved in the one scope when it is in the other. -/
theorem exists_resolveReference (hsame : s.Reorders other) {reference : ReferenceDescriptor}
    (hplan : s.resolveReference c a = .ok (reference, changes)) :
    ∃ others, other.resolveReference c a = .ok (reference, others) ∧
      SchemaChange.SameStructure changes others := by
  have hplanned : ∃ others, other.resolveReference c a = .ok (reference, others) := by
    simp only [resolveReference, bind_eq_ok_iff, pure_eq_ok_iff, Prod.mk.injEq,
      hsame.persistentClass_eq, hsame.checkTarget_eq, hsame.field_eq, hsame.primaryKeys_eq]
      at hplan ⊢
    obtain ⟨options, hoptions, name, hname, target, htarget, check, hcheck, keys, hkeys, types,
      htypes, hreference, -⟩ := hplan
    exact ⟨_, options, hoptions, name, hname, target, htarget, check, hcheck, keys, hkeys, types,
      htypes, hreference, rfl⟩
  obtain ⟨others, hothers⟩ := hplanned
  exact ⟨others, hothers,
    (constraints_of_resolveReference hplan).sameStructure (constraints_of_resolveReference hothers)⟩

theorem exists_inverseKeys (hsame : s.Reorders other) {options : CollectionOptions}
    (hkeys : s.inverseKeys c element a options = .ok changes) :
    ∃ others, other.inverseKeys c element a options = .ok others ∧
      SchemaChange.SameStructure changes others := by
  have hplanned : ∃ others, other.inverseKeys c element a options = .ok others := by
    simp only [inverseKeys, bind_eq_ok_iff, pure_eq_ok_iff, hsame.field_eq, hsame.primaryKeys_eq]
      at hkeys ⊢
    obtain ⟨keys, hkeys, types, htypes, -⟩ := hkeys
    exact ⟨_, keys, hkeys, types, htypes, rfl⟩
  obtain ⟨others, hothers⟩ := hplanned
  exact ⟨others, hothers,
    (constraints_of_inverseKeys hkeys).sameStructure (constraints_of_inverseKeys hothers)⟩

theorem exists_joinKeys (hsame : s.Reorders other) {options : CollectionOptions}
    {joinTable : String} {remote : List String}
    (hkeys : s.joinKeys c element a options joinTable = .ok (remote, changes)) :
    ∃ others, other.joinKeys c element a options joinTable = .ok (remote, others) ∧
      SchemaChange.SameStructure changes others := by
  have hplanned : ∃ others,
      other.joinKeys c element a options joinTable = .ok (remote, others) := by
    simp only [joinKeys, bind_eq_ok_iff, pure_eq_ok_iff, Prod.mk.injEq, hsame.findReciprocal_eq,
      hsame.primaryKeys_eq] at hkeys ⊢
    obtain ⟨reciprocal, hreciprocal, remote, hremote, agreed, hagreed, disjoint, hdisjoint, own,
      hown, matched, hmatched, rfl, -⟩ := hkeys
    exact ⟨_, reciprocal, hreciprocal, remote, hremote, agreed, hagreed, disjoint, hdisjoint, own,
      hown, matched, hmatched, rfl, rfl⟩
  obtain ⟨others, hothers⟩ := hplanned
  obtain ⟨constraints, rfl, hconstraints⟩ := constraints_of_joinKeys hkeys
  obtain ⟨constraints', rfl, hconstraints'⟩ := constraints_of_joinKeys hothers
  refine ⟨_, hothers, ?_⟩
  rw [hsame.primaryKeys_eq]
  exact (hconstraints.sameStructure hconstraints').append_left _

theorem exists_collectionPlan (hsame : s.Reorders other) {collection : CollectionDescriptor}
    (hplan : s.collectionPlan c a = .ok (collection, changes)) :
    ∃ others, other.collectionPlan c a = .ok (collection, others) ∧
      SchemaChange.SameStructure changes others := by
  simp only [collectionPlan, bind_eq_ok_iff, pure_eq_ok_iff, Prod.exists, Prod.mk.injEq,
    hsame.elementClass_eq, hsame.checkOrder_eq] at hplan ⊢
  obtain ⟨options, hoptions, element, helement, remote, part, hkeys, order, horder, name, hname,
    hcollection, rfl⟩ := hplan
  have hkeys' : ∃ others, other.collectionKeys c element a options = .ok (remote, others) ∧
      SchemaChange.SameStructure part others := by
    unfold collectionKeys at hkeys ⊢
    cases hjoin : options.indirectionTable with
    | none =>
      simp only [hjoin, bind_eq_ok_iff, pure_eq_ok_iff, Prod.mk.injEq] at hkeys ⊢
      obtain ⟨_, hinverse, hremote, rfl⟩ := hkeys
      obtain ⟨others, hothers, hstructure⟩ := hsame.exists_inverseKeys hinverse
      exact ⟨others, ⟨others, hothers, hremote, rfl⟩, hstructure⟩
    | some joinTable =>
      simp only [hjoin] at hkeys
      exact hsame.exists_joinKeys hkeys
  obtain ⟨others, hothers, hstructure⟩ := hkeys'
  exact ⟨others, ⟨options, hoptions, element, helement, remote, others, hothers, order, horder,
    name, hname, hcollection, rfl⟩, hstructure⟩

/-- An association is planned in the one scope when it is in the other, with the same
descriptor. -/
theorem exists_associationPlan (hsame : s.Reorders other) {association : Association}
    (hplan : s.associationPlan c a = .ok (association, changes)) :
    ∃ others, other.associationPlan c a = .ok (association, others) ∧
      SchemaChange.SameStructure changes others := by
  rcases associationPlan_eq_ok_iff.mp hplan with ⟨hkind, collection, rfl, hcollection⟩ |
    ⟨hkind, reference, rfl, hreference⟩
  · obtain ⟨others, hothers, hstructure⟩ := hsame.exists_collectionPlan hcollection
    exact ⟨others, associationPlan_eq_ok_iff.mpr (Or.inl ⟨hkind, collection, rfl, hothers⟩),
      hstructure⟩
  · obtain ⟨others, hothers, hstructure⟩ := hsame.exists_resolveReference hreference
    exact ⟨others, associationPlan_eq_ok_iff.mpr (Or.inr ⟨hkind, reference, rfl, hothers⟩),
      hstructure⟩

/-- A class gets the same descriptor but for its extents. -/
theorem exists_classPlan (hsame : s.Reorders other) (hdecl : p.decl = q.decl)
    (hplan : s.classPlan p = .ok (d, changes)) :
    ∃ others, other.classPlan q =
      .ok ({ d with extents := q.extents.map (·.name) }, others) := by
  obtain ⟨parts, procedures, hparts, hprocedures, rfl, rfl⟩ := classPlan_eq_ok hplan
  rw [hsame.members, hdecl] at hparts
  rw [hsame.procedures_eq, hdecl] at hprocedures
  have hstep : ∀ a ∈ (other.membersOf q.decl).associations, ∀ part,
      s.associationPlan q.decl a = .ok part →
        ∃ part', other.associationPlan q.decl a = .ok part' ∧ part'.1 = part.1 := by
    intro a _ part hpart
    obtain ⟨others, hothers, -⟩ := hsame.exists_associationPlan hpart
    exact ⟨_, hothers, rfl⟩
  obtain ⟨parts', hparts', hassociations⟩ := exists_mapM_map_eq hstep hparts
  refine ⟨parts'.flatMap (·.2), ?_⟩
  rw [classPlan]
  refine bind_eq_ok_iff.mpr ⟨parts', hparts', bind_eq_ok_iff.mpr ⟨procedures, hprocedures, ?_⟩⟩
  rw [hassociations, describe, describe, hsame.tableOf_eq, hsame.fields, hdecl]
  rfl

/-- Everything can be planned in the one scope when it can be in the other. -/
theorem exists_plan (hsame : s.Reorders other) (hplan : s.plan = .ok (ds, changes)) :
    ∃ ds' others, other.plan = .ok (ds', others) := by
  obtain ⟨tables, parts, htables, hparts, -, -⟩ := plan_eq_ok hplan
  have htables' : ∀ q ∈ other.classes, ∃ part, other.tableChanges q = .ok part := by
    intro q hq
    obtain ⟨p, hp, hdecl⟩ := hsame.symm.exists_mem hq
    obtain ⟨part, -, hpart⟩ := exists_mapM_of_mem htables hp
    exact ⟨part, hsame.tableChanges_eq hdecl ▸ hpart⟩
  have hclasses : ∀ q ∈ other.classes, ∃ part, other.classPlan q = .ok part := by
    intro q hq
    obtain ⟨p, hp, hdecl⟩ := hsame.symm.exists_mem hq
    obtain ⟨part, -, hpart⟩ := exists_mapM_of_mem hparts hp
    obtain ⟨others, hothers⟩ := hsame.exists_classPlan hdecl hpart
    exact ⟨_, hothers⟩
  obtain ⟨tables', htables'⟩ := exists_mapM htables'
  obtain ⟨parts', hparts'⟩ := exists_mapM hclasses
  refine ⟨parts'.map (·.1), tables'.flatten ++ parts'.flatMap (·.2), ?_⟩
  rw [plan]
  exact bind_eq_ok_iff.mpr ⟨tables', htables', bind_eq_ok_iff.mpr ⟨parts', hparts', rfl⟩⟩

theorem mem_plan_of_mem (hsame : s.Reorders other) (hplan : s.plan = .ok (ds, changes))
    (hplan' : other.plan = .ok (ds', others)) {change : SchemaChange}
    (hchange : change.foreignKey? = none) (hmem : change ∈ changes) : change ∈ others := by
  rw [mem_plan_iff hplan']
  rcases (mem_plan_iff hplan).mp hmem with ⟨p, hp, part, hpart, hthere⟩ |
    ⟨p, hp, a, ha, association, part, hpart, hthere⟩
  · obtain ⟨q, hq, hdecl⟩ := hsame.exists_mem hp
    exact Or.inl ⟨q, hq, part, hsame.tableChanges_eq hdecl.symm ▸ hpart, hthere⟩
  · obtain ⟨q, hq, hdecl⟩ := hsame.exists_mem hp
    rw [hsame.members, ← hdecl] at ha
    rw [← hdecl] at hpart
    obtain ⟨part', hpart', hstructure⟩ := hsame.exists_associationPlan hpart
    exact Or.inr ⟨q, hq, a, ha, association, part', hpart', (hstructure change hchange).mp hthere⟩

/-- Apart from constraints the two plans ask for the same changes. -/
theorem sameStructure_plan (hsame : s.Reorders other) (hplan : s.plan = .ok (ds, changes))
    (hplan' : other.plan = .ok (ds', others)) : SchemaChange.SameStructure changes others :=
  fun _ hchange ↦ ⟨hsame.mem_plan_of_mem hplan hplan' hchange,
    hsame.symm.mem_plan_of_mem hplan' hplan hchange⟩

end Reorders

namespace Built

variable {h h' : Hierarchy} {checks : ChecksMode} {s s' : Scope} {c : ClassDecl}

/-- A scope can be built for the classes in any order, if it can be built at all. -/
theorem exists_build (hs : Built h checks s) (hsame : h.Reorders h') :
    ∃ s', build h' checks = .ok s' := by
  obtain ⟨classes, hclasses, hdecls, -⟩ := hsame.exists_persistentClasses hs.classes
  obtain ⟨members, hmembers, hlookup⟩ := hsame.exists_memberTable hs.members
  have hfields : ∀ q ∈ classes, ∃ entry : String × List FieldDescriptor, (do
      let effective := (members.lookup q.decl.name).getD {}
      return (q.decl.name, ← effective.fields.mapM (FieldDescriptor.build q.decl.name))) =
        Except.ok entry := by
    intro q hq
    obtain ⟨p, hp, hdecl⟩ := List.mem_map.mp (hdecls.mem_iff.mpr (List.mem_map_of_mem hq))
    have hbuilt := hs.mapM_build_eq hp
    rw [membersOf, hlookup, hdecl] at hbuilt
    exact ⟨_, bind_eq_ok_iff.mpr ⟨_, hbuilt, rfl⟩⟩
  obtain ⟨fields, hfields⟩ := exists_mapM hfields
  refine ⟨{ hierarchy := h', checks, classes, members, fields }, ?_⟩
  rw [build]
  exact bind_eq_ok_iff.mpr ⟨classes, hclasses, bind_eq_ok_iff.mpr ⟨members, hmembers,
    bind_eq_ok_iff.mpr ⟨fields, hfields, rfl⟩⟩⟩

/-- Scopes built for the same classes in different orders differ in that order only. -/
theorem reorders (hs : Built h checks s) (hs' : Built h' checks s') (hsame : h.Reorders h') :
    s.Reorders s' := by
  obtain ⟨classes, hclasses, hdecls, hextents⟩ := hsame.exists_persistentClasses hs.classes
  obtain rfl := Except.ok.inj (hclasses.symm.trans hs'.classes)
  obtain ⟨members, hmembers, hlookup⟩ := hsame.exists_memberTable hs.members
  obtain rfl := Except.ok.inj (hmembers.symm.trans hs'.members)
  have hmembersOf : s.membersOf = s'.membersOf :=
    funext fun c ↦ by rw [membersOf, membersOf, hlookup]
  have hfieldsOf : ∀ c, s.fieldsOf c = s'.fieldsOf c := by
    intro c
    by_cases hthere : ∃ p ∈ s.classes, p.decl.name = c.name
    · obtain ⟨p, hp, hname⟩ := hthere
      obtain ⟨q, hq, hdecl⟩ := List.mem_map.mp (hdecls.mem_iff.mp (List.mem_map_of_mem hp))
      have hbuilt := hs.mapM_build_eq hp
      have hbuilt' := hs'.mapM_build_eq hq
      rw [hdecl, ← hmembersOf, hbuilt] at hbuilt'
      have hfields := Except.ok.inj hbuilt'
      rwa [fieldsOf, fieldsOf, hname] at hfields
    · have hthere' : ¬ ∃ q ∈ s'.classes, q.decl.name = c.name := by
        rintro ⟨q, hq, hname⟩
        obtain ⟨p, hp, hdecl⟩ := List.mem_map.mp (hdecls.mem_iff.mpr (List.mem_map_of_mem hq))
        exact hthere ⟨p, hp, hdecl ▸ hname⟩
      rw [hs.fieldsOf_eq_nil hthere, hs'.fieldsOf_eq_nil hthere']
  constructor
  case hierarchy =>
    rw [hs.hierarchy, hs'.hierarchy]
    exact hsame
  case checks => exact hs.checks.trans hs'.checks.symm
  case decls => exact hdecls
  case extents => exact hextents
  case members => exact hmembersOf
  case fields => exact funext hfieldsOf

end Built

end Scope

end ClassMap

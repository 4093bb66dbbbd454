import ClassMap.Proofs.Resolution.Plan
import ClassMap.Proofs.Resolution.Scope

/-!
The classes of a resolved repository and the persistent classes of its scope. There is one
descriptor for each persistent class, in the same order, and it describes that class by the table,
the extents and the fields that the scope has for it.
-/

set_option autoImplicit false
set_option relaxedAutoImplicit false

namespace ClassMap

open Traversal

/-- A repository with the scope it was resolved in and the changes that made its schema. -/
structure Repository.ResolvedIn (r : Repository) (decls : List ClassDecl) (checks : ChecksMode)
    (h : Hierarchy) (s : Scope) (changes : List SchemaChange) : Prop where
  ofDeclarations : Hierarchy.ofDeclarations decls = .ok h
  built : Scope.Built h checks s
  planned : s.plan = .ok (r.classes, changes)
  applied : SchemaChange.applyAll [] changes = .ok r.schema.tables

theorem exists_resolvedIn {decls : List ClassDecl} {checks : ChecksMode} {databaseName : String}
    {r : Repository} (hr : resolveDeclarations decls checks databaseName = .ok r) :
    ∃ h s changes, r.ResolvedIn decls checks h s changes := by
  obtain ⟨h, hdecls, hresolve⟩ := resolveDeclarations_eq_ok_iff.mp hr
  obtain ⟨s, changes, hbuild, hplan, happly, -⟩ := Hierarchy.resolve_eq_ok_iff.mp hresolve
  exact ⟨h, s, changes, hdecls, Scope.built_of_build hbuild, hplan, happly⟩

namespace Scope

variable {s : Scope} {p : PersistentClass} {d : ClassDescriptor} {ds : List ClassDescriptor}
  {changes : List SchemaChange}

theorem classPlan_eq_ok (hplan : s.classPlan p = .ok (d, changes)) :
    ∃ parts procedures,
      (s.membersOf p.decl).associations.mapM (s.associationPlan p.decl) = .ok parts ∧
      s.procedures p.decl = .ok procedures ∧ d = s.describe p (parts.map (·.1)) procedures ∧
      changes = parts.flatMap (·.2) := by
  simp only [classPlan, bind_eq_ok_iff, pure_eq_ok_iff, Prod.mk.injEq] at hplan
  obtain ⟨parts, hparts, procedures, hprocedures, rfl, rfl⟩ := hplan
  exact ⟨parts, procedures, hparts, hprocedures, rfl, rfl⟩

theorem plan_eq_ok (hplan : s.plan = .ok (ds, changes)) :
    ∃ tables parts, s.classes.mapM s.tableChanges = .ok tables ∧
      s.classes.mapM s.classPlan = .ok parts ∧ ds = parts.map (·.1) ∧
      changes = tables.flatten ++ parts.flatMap (·.2) := by
  simp only [plan, bind_eq_ok_iff, pure_eq_ok_iff, Prod.mk.injEq] at hplan
  obtain ⟨tables, htables, parts, hparts, rfl, rfl⟩ := hplan
  exact ⟨tables, parts, htables, hparts, rfl, rfl⟩

/-- The descriptor that a persistent class gets, whatever its associations and procedures. -/
structure Describes (s : Scope) (p : PersistentClass) (d : ClassDescriptor) : Prop where
  mem : p ∈ s.classes
  name : d.name = p.decl.name
  table : d.table = s.tableOf p.decl
  extents : d.extents = p.extents.map (·.name)
  fields : d.fields = s.fieldsOf p.decl
  associations : ∃ parts, (s.membersOf p.decl).associations.mapM (s.associationPlan p.decl) =
    .ok parts ∧ d.associations = parts.map (·.1)
  procedures : s.procedures p.decl = .ok d.procedures

theorem describes_of_classPlan (hp : p ∈ s.classes) (hplan : s.classPlan p = .ok (d, changes)) :
    s.Describes p d := by
  obtain ⟨parts, procedures, hparts, hprocedures, rfl, -⟩ := classPlan_eq_ok hplan
  exact ⟨hp, rfl, rfl, rfl, rfl, ⟨parts, hparts, rfl⟩, hprocedures⟩

theorem exists_classPlan_of_mem (hplan : s.plan = .ok (ds, changes)) (hd : d ∈ ds) :
    ∃ p ∈ s.classes, ∃ part, s.classPlan p = .ok (d, part) := by
  obtain ⟨_, parts, -, hparts, rfl, -⟩ := plan_eq_ok hplan
  obtain ⟨part, hpart, rfl⟩ := List.mem_map.mp hd
  obtain ⟨p, hp, hclass⟩ := exists_of_mem_mapM hparts hpart
  exact ⟨p, hp, part.2, hclass⟩

theorem exists_describes_of_mem (hplan : s.plan = .ok (ds, changes)) (hd : d ∈ ds) :
    ∃ p, s.Describes p d := by
  obtain ⟨p, hp, part, hclass⟩ := exists_classPlan_of_mem hplan hd
  exact ⟨p, describes_of_classPlan hp hclass⟩

theorem exists_mem_describes (hplan : s.plan = .ok (ds, changes)) (hp : p ∈ s.classes) :
    ∃ d ∈ ds, s.Describes p d := by
  obtain ⟨_, parts, -, hparts, rfl, -⟩ := plan_eq_ok hplan
  obtain ⟨part, hpart, hclass⟩ := exists_mapM_of_mem hparts hp
  exact ⟨part.1, List.mem_map_of_mem hpart, describes_of_classPlan hp hclass⟩

theorem map_name_of_plan (hplan : s.plan = .ok (ds, changes)) :
    ds.map (·.name) = s.classes.map (·.decl.name) := by
  obtain ⟨_, parts, -, hparts, rfl, -⟩ := plan_eq_ok hplan
  rw [List.map_map]
  exact map_eq_map_of_mapM hparts fun p hp part hpart ↦ (describes_of_classPlan hp hpart).name

theorem associationPlan_eq_ok_iff {c : ClassDecl} {a : EffectiveAssociation}
    {association : Association} :
    s.associationPlan c a = .ok (association, changes) ↔
      (a.isCollection = true ∧ ∃ collection, association = .collection collection ∧
        s.collectionPlan c a = .ok (collection, changes)) ∨
      (a.isCollection = false ∧ ∃ reference, association = .reference reference ∧
        s.resolveReference c a = .ok (reference, changes)) := by
  unfold associationPlan
  cases a.isCollection with
  | true =>
    simp only [if_true, bind_eq_ok_iff, pure_eq_ok_iff, Prod.exists, Prod.mk.injEq]
    constructor
    · intro hassociation
      obtain ⟨collection, _, hplan, rfl, rfl⟩ := hassociation
      exact Or.inl ⟨trivial, collection, rfl, hplan⟩
    · intro hcases
      rcases hcases with ⟨-, collection, rfl, hplan⟩ | ⟨hfalse, -⟩
      · exact ⟨collection, changes, hplan, rfl, rfl⟩
      · exact Bool.noConfusion hfalse
  | false =>
    simp only [Bool.false_eq_true, if_false, bind_eq_ok_iff, pure_eq_ok_iff, Prod.exists,
      Prod.mk.injEq]
    constructor
    · intro hassociation
      obtain ⟨reference, _, hplan, rfl, rfl⟩ := hassociation
      exact Or.inr ⟨trivial, reference, rfl, hplan⟩
    · intro hcases
      rcases hcases with ⟨hfalse, -⟩ | ⟨-, reference, rfl, hplan⟩
      · exact hfalse.elim
      · exact ⟨reference, changes, hplan, rfl, rfl⟩

theorem Describes.exists_of_mem_associations (hd : s.Describes p d) {association : Association}
    (hmem : association ∈ d.associations) :
    ∃ a ∈ (s.membersOf p.decl).associations, ∃ changes,
      s.associationPlan p.decl a = .ok (association, changes) := by
  obtain ⟨parts, hparts, hassociations⟩ := hd.associations
  rw [hassociations] at hmem
  obtain ⟨part, hpart, rfl⟩ := List.mem_map.mp hmem
  obtain ⟨a, ha, hplan⟩ := exists_of_mem_mapM hparts hpart
  exact ⟨a, ha, part.2, hplan⟩

/-- A reference of a described class comes from an association that is no collection. -/
theorem Describes.exists_of_mem_references (hd : s.Describes p d) {reference : ReferenceDescriptor}
    (hreference : reference ∈ d.references) :
    ∃ a ∈ (s.membersOf p.decl).associations, ∃ changes, a.isCollection = false ∧
      s.resolveReference p.decl a = .ok (reference, changes) := by
  obtain ⟨association, hmem, hsome⟩ := List.mem_filterMap.mp hreference
  obtain ⟨a, ha, changes, hplan⟩ := hd.exists_of_mem_associations hmem
  rcases associationPlan_eq_ok_iff.mp hplan with ⟨-, _, rfl, -⟩ | ⟨hkind, found, rfl, hfound⟩
  · exact absurd hsome (by simp [Association.reference?])
  · obtain rfl := Option.some.inj hsome
    exact ⟨a, ha, changes, hkind, hfound⟩

/-- A collection of a described class comes from an association that is one. -/
theorem Describes.exists_of_mem_collections (hd : s.Describes p d)
    {collection : CollectionDescriptor} (hcollection : collection ∈ d.collections) :
    ∃ a ∈ (s.membersOf p.decl).associations, ∃ changes, a.isCollection = true ∧
      s.collectionPlan p.decl a = .ok (collection, changes) := by
  obtain ⟨association, hmem, hsome⟩ := List.mem_filterMap.mp hcollection
  obtain ⟨a, ha, changes, hplan⟩ := hd.exists_of_mem_associations hmem
  rcases associationPlan_eq_ok_iff.mp hplan with ⟨hkind, found, rfl, hfound⟩ | ⟨-, _, rfl, -⟩
  · obtain rfl := Option.some.inj hsome
    exact ⟨a, ha, changes, hkind, hfound⟩
  · exact absurd hsome (by simp [Association.collection?])

/-- An association and its descriptor stand at the same place. -/
theorem Describes.mem_zip_associations_iff (hd : s.Describes p d) {a : EffectiveAssociation}
    {association : Association} :
    (a, association) ∈ (s.membersOf p.decl).associations.zip d.associations ↔
      a ∈ (s.membersOf p.decl).associations ∧
        ∃ changes, s.associationPlan p.decl a = .ok (association, changes) := by
  obtain ⟨parts, hparts, hassociations⟩ := hd.associations
  rw [hassociations, List.zip_map_right, List.mem_map]
  constructor
  · intro hpair
    obtain ⟨⟨a', part⟩, hmem, heq⟩ := hpair
    obtain ⟨rfl, rfl⟩ := Prod.mk.inj heq
    obtain ⟨ha, hplan⟩ := (mem_zip_iff_of_mapM hparts).mp hmem
    exact ⟨ha, part.2, hplan⟩
  · intro hassociation
    obtain ⟨ha, changes, hplan⟩ := hassociation
    exact ⟨(a, _), (mem_zip_iff_of_mapM hparts).mpr ⟨ha, hplan⟩, rfl⟩

end Scope

namespace Repository.ResolvedIn

variable {r : Repository} {decls : List ClassDecl} {checks : ChecksMode} {h : Hierarchy}
  {s : Scope} {changes : List SchemaChange} {c : ClassDecl} {d : ClassDescriptor}

theorem decls_eq (hr : r.ResolvedIn decls checks h s changes) : h.classes = decls :=
  Hierarchy.classes_of_ofDeclarations hr.ofDeclarations

/-- A class that is found persistent under some name has its descriptor under that name. -/
theorem exists_describes (hr : r.ResolvedIn decls checks h s changes) {name : String}
    (hdeclared : s.hierarchy.declared? name = some c) (hpersistent : s.isPersistent c = true) :
    ∃ p, ∃ d ∈ r.classes, s.Describes p d ∧ p.decl = c ∧ d.name = name := by
  obtain ⟨p, hp, rfl⟩ := Scope.Built.isPersistent_iff.mp hpersistent
  obtain ⟨d, hd, hdescribes⟩ := Scope.exists_mem_describes hr.planned hp
  exact ⟨p, d, hd, hdescribes, rfl, hdescribes.name.trans (Hierarchy.name_of_declared? hdeclared)⟩

/-- A class found under the name of a descriptor is the class it describes. -/
theorem decl_eq (hr : r.ResolvedIn decls checks h s changes) {p : PersistentClass}
    (hd : s.Describes p d) (hdeclared : s.hierarchy.declared? d.name = some c) : p.decl = c := by
  rw [hr.built.hierarchy] at hdeclared
  exact Hierarchy.eq_of_name_eq (hr.built.mem_classes hd.mem) (Hierarchy.mem_of_declared? hdeclared)
    (hd.name.symm.trans (Hierarchy.name_of_declared? hdeclared).symm)

end Repository.ResolvedIn

end ClassMap

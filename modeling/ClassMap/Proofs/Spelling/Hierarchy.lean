import ClassMap.Proofs.Hierarchy.Mapped
import ClassMap.Proofs.Spelling.Options

/-!
The hierarchy of folded declarations. Classes are told apart by their names, which are not folded,
so everything that is found in the hierarchy, supertypes, cycles, persistence and extents, is what
is found in the original one, folded.
-/

set_option autoImplicit false
set_option relaxedAutoImplicit false

namespace ClassMap

open Traversal

def Member.folded (member : Member) : Member :=
  { member with tags := member.tags.map Tag.folded }

def DeclaredMapping.folded (d : DeclaredMapping) : DeclaredMapping :=
  { d with tag := d.tag.folded, member := d.member.map Member.folded }

theorem DeclaredMapping.type?_folded (d : DeclaredMapping) : d.folded.type? = d.type? := by
  rw [type?, type?, folded, Option.map_map]
  rfl

namespace ClassDecl

/-- The declaration with one spelling for the names of tables and columns. -/
def folded (c : ClassDecl) : ClassDecl :=
  { c with tags := c.tags.map Tag.folded, members := c.members.map Member.folded }

variable (c : ClassDecl)

@[simp] theorem name_folded : c.folded.name = c.name := rfl

@[simp] theorem tags_folded : c.folded.tags = c.tags.map Tag.folded := rfl

@[simp] theorem supertypeNames_folded : c.folded.supertypeNames = c.supertypeNames := rfl

variable {c} in
theorem name_eq_of_folded_eq {d : ClassDecl} (h : c.folded = d.folded) : c.name = d.name := by
  rw [← c.name_folded, h, d.name_folded]

theorem tagsNamed_folded (name : String) :
    c.folded.tagsNamed name = (c.tagsNamed name).map Tag.folded := by
  rw [tagsNamed, tagsNamed, tags_folded, List.filter_map]
  rfl

theorem marker?_folded : c.folded.marker? = c.marker?.map Tag.folded := by
  rw [marker?, marker?, tag?, tag?, tags_folded, List.find?_map]
  rfl

theorem parseOptions_folded : c.folded.parseOptions = ClassOptions.folded <$> c.parseOptions := by
  rw [parseOptions, parseOptions, marker?_folded]
  cases c.marker? with
  | none => rfl
  | some tag => exact ClassOptions.parse_folded c.name tag

theorem options_folded : c.folded.options = c.options.folded := by
  rw [options, options, parseOptions_folded]
  cases c.parseOptions with
  | error e => rfl
  | ok options => rfl

theorem generateRepositoryInfo_folded :
    c.folded.options.generateRepositoryInfo = c.options.generateRepositoryInfo := by
  rw [options_folded]
  rfl

theorem mappings_folded : c.folded.mappings = c.mappings.map DeclaredMapping.folded := by
  have hanonymous :
      c.folded.anonymousMappings = c.anonymousMappings.map DeclaredMapping.folded := by
    rw [anonymousMappings, anonymousMappings, tags_folded, List.filterMap_map, List.map_filterMap]
    refine List.filterMap_congr fun tag _ ↦ ?_
    have hname : tag.folded.get? "name" = tag.get? "name" :=
      Tag.get?_folded_of_not_mem (by decide)
    simp only [Function.comp_apply, Tag.name_folded, hname, Option.bind_eq_bind]
    cases MappingKind.ofTagName? tag.name with
    | none => rfl
    | some kind =>
      simp only [Option.bind_some]
      split
      · rfl
      · rfl
  have hmember : ∀ member : Member, member.folded.tags.filterMap (fun tag ↦
      (MappingKind.ofTagName? tag.name).map fun kind ↦
        ({ name := member.folded.name, kind, tag, member := some member.folded } :
          DeclaredMapping)) =
      (member.tags.filterMap fun tag ↦ (MappingKind.ofTagName? tag.name).map fun kind ↦
        ({ name := member.name, kind, tag, member := some member } : DeclaredMapping)).map
          DeclaredMapping.folded := by
    intro member
    rw [Member.folded, List.filterMap_map, List.map_filterMap]
    refine List.filterMap_congr fun tag _ ↦ ?_
    rw [Function.comp_apply, Option.map_map]
    rfl
  rw [mappings, mappings, List.map_append, hanonymous, memberMappings, memberMappings,
    List.map_flatMap, folded, List.flatMap_map]
  exact congrArg _ (List.flatMap_congr fun member _ ↦ hmember member)

/-- Folding changes the names of tables and columns only. -/
theorem keepsPersistence_folded (h : Hierarchy) : KeepsPersistence h folded Tag.folded where
  name := name_folded
  supertypeNames c := by rw [supertypeNames_folded]
  marked c := by rw [marker?_folded, Option.isSome_map]
  checked c := by
    rw [parseOptions_folded]
    cases c.parseOptions <;> rfl
  generateRepositoryInfo := generateRepositoryInfo_folded
  determineExtents c := by rw [options_folded]; rfl
  extentTags c := c.tagsNamed_folded TagName.extentClass
  extentName className tag need :=
    TagReader.required_folded (r := ⟨className, tag⟩) (by decide) need

end ClassDecl

namespace Hierarchy

/-- The same classes with one spelling for the names of tables and columns. -/
def folded (h : Hierarchy) : Hierarchy where
  classes := h.classes.map ClassDecl.folded
  nodup := by
    rw [List.map_map]
    exact h.nodup

variable {h : Hierarchy} {c d : ClassDecl}

open ClassDecl (keepsPersistence_folded)

@[simp] theorem depth_folded (h : Hierarchy) : h.folded.depth = h.depth :=
  depth_mapped (keepsPersistence_folded h).toKeepsPlace

theorem beq_folded (hc : c ∈ h.classes) (hd : d ∈ h.classes) :
    (c.folded == d.folded) = (c == d) :=
  beq_mapped (keepsPersistence_folded h).toKeepsPlace hc hd

theorem find?_folded (h : Hierarchy) (name : String) :
    h.folded.find? name = (h.find? name).map ClassDecl.folded :=
  find?_mapped (keepsPersistence_folded h).toKeepsPlace name

theorem isSubtypeName_folded (h : Hierarchy) : h.folded.isSubtypeName = h.isSubtypeName :=
  isSubtypeName_mapped_of_eq (keepsPersistence_folded h).toKeepsPlace
    ClassDecl.supertypeNames_folded

theorem typeExists_folded (h : Hierarchy) : h.folded.typeExists = h.typeExists :=
  typeExists_mapped (keepsPersistence_folded h).toKeepsPlace

theorem supertypes_folded (h : Hierarchy) (c : ClassDecl) :
    h.folded.supertypes c.folded = (h.supertypes c).map ClassDecl.folded :=
  supertypes_mapped (keepsPersistence_folded h).toKeepsPlace c

end Hierarchy

def PersistentClass.folded (p : PersistentClass) : PersistentClass :=
  ⟨p.decl.folded, p.extents.map ClassDecl.folded⟩

namespace Hierarchy

variable {h : Hierarchy} {c d : ClassDecl}

theorem persistentClasses_folded (h : Hierarchy) :
    h.folded.persistentClasses = List.map PersistentClass.folded <$> h.persistentClasses :=
  persistentClasses_mapped (ClassDecl.keepsPersistence_folded h)

theorem inheritedFrom_folded (h : Hierarchy) (c : ClassDecl) :
    h.folded.inheritedFrom c.folded = (h.inheritedFrom c).map ClassDecl.folded := by
  rw [inheritedFrom, inheritedFrom, supertypes_folded, ClassDecl.options_folded,
    apply_ite (List.map ClassDecl.folded)]
  rfl

theorem nestedClass_folded (h : Hierarchy) (c : ClassDecl) (mapping : DeclaredMapping) :
    h.folded.nestedClass c.folded mapping.folded =
      ClassDecl.folded <$> h.nestedClass c mapping := by
  simp only [nestedClass, mapping.type?_folded, find?_folded]
  cases h.find? (MemberType.parse (mapping.type?.getD "")).rawName with
  | none => rfl
  | some inner => rfl

end Hierarchy

end ClassMap

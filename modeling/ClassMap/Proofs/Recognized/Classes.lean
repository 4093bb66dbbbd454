import ClassMap.Procedure
import ClassMap.Proofs.Hierarchy.Mapped
import ClassMap.Proofs.Recognized.Tags

/-!
Declarations without the tags and attributes that mean nothing. What a class or a member is asked
for is always a tag of one of the names it may carry, so its marker, its mappings, its patches and
its procedures are those it had before, without their meaningless attributes, and the persistent
classes are the same.
-/

set_option autoImplicit false
set_option relaxedAutoImplicit false

namespace ClassMap

open Traversal

/-- Entries that are left out of a list count for nothing in a selection, and the others for what
they count for in the whole list. -/
theorem filterMap_map_filter {α β γ : Type} {kept : α → Bool} {ψ : α → α} {g : β → γ}
    {f : α → Option β} {f' : α → Option γ} {xs : List α}
    (hkept : ∀ x, kept x = true → f' (ψ x) = (f x).map g)
    (hleft : ∀ x, kept x = false → f x = none) :
    ((xs.filter kept).map ψ).filterMap f' = (xs.filterMap f).map g := by
  rw [List.filterMap_map, List.filterMap_filter, List.map_filterMap]
  refine List.filterMap_congr fun x _ ↦ ?_
  cases hx : kept x with
  | true => exact hkept x hx
  | false => rw [hleft x hx]; rfl

def Member.recognized (member : Member) : Member :=
  { member with
    tags := (member.tags.filter fun tag ↦ TagName.onMembers.contains tag.name).map
      Tag.recognized }

def DeclaredMapping.recognized (d : DeclaredMapping) : DeclaredMapping :=
  { d with tag := d.tag.recognized, member := d.member.map Member.recognized }

theorem MappingKind.mem_onMembers {name : String} {kind : MappingKind}
    (hkind : ofTagName? name = some kind) : name ∈ TagName.onMembers := by
  unfold ofTagName? at hkind
  split_ifs at hkind with hfield hreference hcollection hnested
  · exact hfield ▸ by decide
  · exact hreference ▸ by decide
  · exact hcollection ▸ by decide
  · exact hnested ▸ by decide

theorem MappingKind.mem_onClasses {name : String} {kind : MappingKind}
    (hkind : ofTagName? name = some kind) (hallowed : kind.allowedOnClass = true) :
    name ∈ TagName.onClasses := by
  unfold ofTagName? at hkind
  split_ifs at hkind with hfield hreference hcollection hnested
  · exact hfield ▸ by decide
  · exact hreference ▸ by decide
  · obtain rfl := Option.some.inj hkind
    exact absurd hallowed (by decide)
  · obtain rfl := Option.some.inj hkind
    exact absurd hallowed (by decide)

theorem ProcedureKind.mem_onClasses {name : String} {kind : ProcedureKind}
    (hkind : ofTagName? name = some kind) : name ∈ TagName.onClasses := by
  unfold ofTagName? at hkind
  split_ifs at hkind with hinsert hupdate hdelete
  · exact hinsert ▸ by decide
  · exact hupdate ▸ by decide
  · exact hdelete ▸ by decide

namespace ClassDecl

/-- The declaration with those of its tags and attributes that mean something. -/
def recognized (c : ClassDecl) : ClassDecl :=
  { c with
    tags := (c.tags.filter fun tag ↦ TagName.onClasses.contains tag.name).map Tag.recognized
    members := c.members.map Member.recognized }

variable (c : ClassDecl)

@[simp] theorem name_recognized : c.recognized.name = c.name := rfl

@[simp] theorem supertypeNames_recognized : c.recognized.supertypeNames = c.supertypeNames := rfl

theorem tagsNamed_recognized {name : String} (hname : name ∈ TagName.onClasses) :
    c.recognized.tagsNamed name = (c.tagsNamed name).map Tag.recognized := by
  have hsame : ((·.name == name) : Tag → Bool) ∘ Tag.recognized = (·.name == name) := rfl
  rw [tagsNamed, tagsNamed, recognized, List.filter_map, hsame, List.filter_filter]
  refine congrArg _ (List.filter_congr fun tag _ ↦ ?_)
  by_cases heq : tag.name = name
  · simp [heq, hname]
  · simp [heq]

theorem marker?_recognized : c.recognized.marker? = c.marker?.map Tag.recognized := by
  have hmarkers := congrArg List.head?
    (c.tagsNamed_recognized (show TagName.classTag ∈ TagName.onClasses by decide))
  rwa [tagsNamed, tagsNamed, List.head?_map, List.head?_filter, List.head?_filter] at hmarkers

theorem parseOptions_recognized : c.recognized.parseOptions = c.parseOptions := by
  rw [parseOptions, parseOptions, marker?_recognized]
  cases c.marker? with
  | none => rfl
  | some tag => exact ClassOptions.parse_eq (tag.agree_recognized (by decide))

theorem options_recognized : c.recognized.options = c.options := by
  rw [options, options, parseOptions_recognized]

theorem mappings_recognized : c.recognized.mappings = c.mappings.map DeclaredMapping.recognized := by
  have hanonymous :
      c.recognized.anonymousMappings = c.anonymousMappings.map DeclaredMapping.recognized := by
    refine filterMap_map_filter (fun tag _ ↦ ?_) fun tag hleft ↦ ?_
    · have hname : tag.recognized.get? "name" = tag.get? "name" :=
        Tag.get?_recognized (by decide)
      simp only [Tag.name_recognized, hname, Option.bind_eq_bind]
      cases MappingKind.ofTagName? tag.name with
      | none => rfl
      | some kind =>
        simp only [Option.bind_some]
        split
        · rfl
        · rfl
    · cases hkind : MappingKind.ofTagName? tag.name with
      | none => rfl
      | some kind =>
        have hallowed : ¬ kind.allowedOnClass = true := fun hallowed ↦ by
          simp [MappingKind.mem_onClasses hkind hallowed] at hleft
        simp [hallowed]
  have hmember : ∀ member : Member, member.recognized.tags.filterMap (fun tag ↦
      (MappingKind.ofTagName? tag.name).map fun kind ↦
        ({ name := member.recognized.name, kind, tag, member := some member.recognized } :
          DeclaredMapping)) =
      (member.tags.filterMap fun tag ↦ (MappingKind.ofTagName? tag.name).map fun kind ↦
        ({ name := member.name, kind, tag, member := some member } : DeclaredMapping)).map
          DeclaredMapping.recognized := by
    intro member
    refine filterMap_map_filter (fun tag _ ↦ ?_) fun tag hleft ↦ ?_
    · rw [Option.map_map]
      rfl
    · cases hkind : MappingKind.ofTagName? tag.name with
      | none => rfl
      | some kind => simp [MappingKind.mem_onMembers hkind] at hleft
  rw [mappings, mappings, List.map_append, hanonymous, memberMappings, memberMappings,
    List.map_flatMap, recognized, List.flatMap_map]
  exact congrArg _ (List.flatMap_congr fun member _ ↦ hmember member)

/-- What means nothing has no part in the persistence of classes. -/
theorem keepsPersistence_recognized (h : Hierarchy) :
    KeepsPersistence h recognized Tag.recognized where
  name := name_recognized
  supertypeNames c := by rw [supertypeNames_recognized]
  marked c := by rw [marker?_recognized, Option.isSome_map]
  checked c := by rw [parseOptions_recognized]
  generateRepositoryInfo c := by rw [options_recognized]
  determineExtents c := by rw [options_recognized]
  extentTags c := c.tagsNamed_recognized (by decide)
  extentName className tag need :=
    (Tag.readerAgree_recognized className tag).required_eq "class-ref" (by decide) need

theorem procedureTags_recognized :
    Scope.procedureTags c.recognized =
      (Scope.procedureTags c).map (Prod.map id Tag.recognized) := by
  refine filterMap_map_filter (fun tag _ ↦ ?_) fun tag hleft ↦ ?_
  · rw [Option.map_map]
    rfl
  · cases hkind : ProcedureKind.ofTagName? tag.name with
    | none => rfl
    | some kind => simp [ProcedureKind.mem_onClasses hkind] at hleft

end ClassDecl

/-- The same classes with those of their tags and attributes that mean something. -/
def Hierarchy.recognized (h : Hierarchy) : Hierarchy :=
  h.mapped (ClassDecl.keepsPersistence_recognized h).toKeepsPlace

end ClassMap

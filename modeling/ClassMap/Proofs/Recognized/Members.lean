import ClassMap.Proofs.Members.Recursion
import ClassMap.Proofs.Recognized.Classes

/-!
The effective members of declarations without what means nothing. Each step of their computation
takes the smaller tags to the smaller tags of what it makes, errors included: what a field is
inlined under depends on its name and its column only. So the members of a class are those it has
in the whole declarations, with smaller tags.
-/

set_option autoImplicit false
set_option relaxedAutoImplicit false

namespace ClassMap

open Traversal

def EffectiveField.recognized (f : EffectiveField) : EffectiveField :=
  f.mapped Tag.recognized id

def EffectiveAssociation.recognized (a : EffectiveAssociation) : EffectiveAssociation :=
  a.mapped Tag.recognized

/-- The members with those of the attributes of their tags that mean something. -/
def EffectiveMembers.recognized (m : EffectiveMembers) : EffectiveMembers :=
  m.mapped Tag.recognized id

def OwnMembers.recognized (own : OwnMembers) : OwnMembers :=
  own.mapped Tag.recognized id

def Contribution.recognized : Contribution → Contribution
  | .field f => .field f.recognized
  | .association a => .association a.recognized
  | .nested name inner => .nested name inner.recognized

theorem DeclaredMapping.readsAs_recognized (d : DeclaredMapping) :
    d.ReadsAs Tag.recognized d.recognized where
  name := rfl
  kind := rfl
  type := by
    rw [type?, type?, recognized, Option.map_map]
    rfl
  tag := rfl
  label := rfl

theorem EffectiveField.inlined_recognized (f : EffectiveField) (className owner : String) :
    f.recognized.inlined className owner = (f.inlined className owner).recognized := by
  have hcolumn : f.tag.recognized.get? "column" = f.tag.get? "column" :=
    Tag.get?_recognized (by decide)
  have hbase : f.recognized.baseColumn = f.baseColumn := by
    simp only [baseColumn, recognized, mapped, id_eq, hcolumn]
  rw [inlined, hbase]
  simp only [recognized, mapped, Tag.erase_recognized]
  rfl

theorem OwnMembers.addNested_recognized (own : OwnMembers) (className name : String)
    (inner : EffectiveMembers) :
    own.recognized.addNested className name inner.recognized =
      recognized <$> own.addNested className name inner := by
  have hfields : inner.recognized.fields.map (·.inlined className name) =
      (inner.fields.map (·.inlined className name)).map EffectiveField.recognized := by
    rw [EffectiveMembers.recognized, EffectiveMembers.mapped, List.map_map, List.map_map]
    exact List.map_congr_left fun f _ ↦ f.inlined_recognized className name
  rw [addNested, addNested, hfields]
  exact foldlM_map_eq fun f _ own ↦ addField_mapped Tag.recognized id className own f

namespace Hierarchy

variable {h : Hierarchy} {plain plain' : ClassDecl → Except MappingError EffectiveMembers}

theorem contribution_recognized (h : Hierarchy) (c : ClassDecl) (d : DeclaredMapping) :
    h.recognized.contribution c.recognized d.recognized =
      Contribution.recognized <$> h.contribution c d := by
  have hsame : Contribution.recognized =
      Contribution.mapped ClassDecl.recognized Tag.recognized := by
    funext contribution
    cases contribution <;> rfl
  rw [hsame]
  exact contribution_mapped _ d.readsAs_recognized c

/-! ### The recursion -/

section Level

variable (hplain : ∀ c, plain' c.recognized = EffectiveMembers.recognized <$> plain c)
include hplain

theorem addMappingBy_recognized (c : ClassDecl) (own : OwnMembers) (d : DeclaredMapping) :
    h.recognized.addMappingBy plain' c.recognized own.recognized d.recognized =
      OwnMembers.recognized <$> h.addMappingBy plain c own d := by
  simp only [addMappingBy, contribution_recognized, map_bind, bind_map_left]
  refine congrArg _ (funext fun contribution ↦ ?_)
  cases contribution with
  | field f => exact own.addField_mapped Tag.recognized id c.name f
  | association a => exact own.addAssociation_mapped Tag.recognized id c.name a
  | nested name inner =>
    simp only [Contribution.recognized, ClassDecl.name_recognized, hplain, map_bind,
      bind_map_left, OwnMembers.addNested_recognized]

theorem membersBy_recognized (c : ClassDecl) :
    h.recognized.membersBy plain' c.recognized =
      EffectiveMembers.recognized <$> h.membersBy plain c := by
  have hinherited : (h.recognized.inheritedFrom c.recognized).foldlM (inheritBy plain') {} =
      EffectiveMembers.recognized <$> (h.inheritedFrom c).foldlM (inheritBy plain) {} := by
    rw [recognized, inheritedFrom_mapped _ ClassDecl.options_recognized]
    refine foldlM_map_eq (v := EffectiveMembers.recognized) (s := {}) fun above _ inherited ↦ ?_
    simp only [inheritBy, hplain, map_bind, bind_map_left]
    refine congrArg _ (funext fun m ↦ ?_)
    exact congrArg Except.ok (inherited.inherit_mapped Tag.recognized id m)
  have hpatched : ∀ m : EffectiveMembers, m.recognized.applyInheritedPatches c.recognized =
      EffectiveMembers.recognized <$> m.applyInheritedPatches c := fun m ↦
    m.applyInheritedPatches_mapped id Tag.keepsPatches_recognized c.name_recognized
      (c.tagsNamed_recognized (by decide))
  have hown : c.recognized.mappings.foldlM (h.recognized.addMappingBy plain' c.recognized) {} =
      OwnMembers.recognized <$> c.mappings.foldlM (h.addMappingBy plain c) {} := by
    rw [ClassDecl.mappings_recognized]
    exact foldlM_map_eq (v := OwnMembers.recognized) (s := {}) fun d _ own ↦
      addMappingBy_recognized hplain c own d
  have hcomplete : ∀ (m : EffectiveMembers) (own : OwnMembers),
      EffectiveMembers.complete c.recognized m.recognized own.recognized =
        EffectiveMembers.recognized <$> EffectiveMembers.complete c m own :=
    EffectiveMembers.complete_mapped id Tag.keepsPatches_recognized c.name_recognized
      (c.tagsNamed_recognized (by decide))
  simp only [membersBy, hinherited, bind_map_left, hpatched, hown, hcomplete, map_bind]

end Level

/-- The members of a class by plain recursion are those of the whole declarations, with smaller
tags. -/
theorem membersOf_recognized (depth : Nat) (path : List String) (c : ClassDecl) :
    h.recognized.membersOf depth path c.recognized =
      EffectiveMembers.recognized <$> h.membersOf depth path c := by
  induction depth generalizing path c with
  | zero => rfl
  | succ depth ih =>
    by_cases hunder : c.name ∈ path
    · rw [membersOf_of_mem hunder, membersOf_of_mem (c := c.recognized) hunder]
      rfl
    · rw [membersOf_succ hunder, membersOf_succ (c := c.recognized) hunder]
      exact membersBy_recognized (fun d ↦ ih (c.name :: path) d) c

end Hierarchy

end ClassMap

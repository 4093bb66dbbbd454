import ClassMap.Members.Table
import ClassMap.Proofs.Hierarchy.Mapped
import ClassMap.Proofs.Members.Order

/-!
Effective members under a map of their tags. Members are told apart by their names, which the map
leaves alone, so members are inherited, taken away, replaced and put in order as before. Patching
them commutes with the map if patching a tag does, and if the map keeps what a patch says itself:
the member it is for and whether that member goes away. What a class inherits from and what it
declares are mapped with the declarations.
-/

set_option autoImplicit false
set_option relaxedAutoImplicit false

namespace ClassMap

open Traversal

/-- A map of tags that commutes with patching and keeps what members read of their tags before
they are built. -/
structure KeepsPatches (ψ : Tag → Tag) : Prop where
  applyPatch : ∀ target patch, (ψ target).applyPatch (ψ patch) = ψ (target.applyPatch patch)
  member : ∀ className patch need, (⟨className, ψ patch⟩ : TagReader).required "name" need =
    (⟨className, patch⟩ : TagReader).required "name" need
  suppresses : ∀ className patch, suppresses ⟨className, ψ patch⟩ = suppresses ⟨className, patch⟩
  place : ∀ className tag, (⟨className, ψ tag⟩ : TagReader).signed? "id" =
    (⟨className, tag⟩ : TagReader).signed? "id"

variable (ψ : Tag → Tag) (δ : Option String → Option String)

/-- A field with its tag and its default column mapped. -/
def EffectiveField.mapped (f : EffectiveField) : EffectiveField :=
  { f with tag := ψ f.tag, defaultColumn := δ f.defaultColumn }

def EffectiveAssociation.mapped (a : EffectiveAssociation) : EffectiveAssociation :=
  { a with tag := ψ a.tag }

namespace EffectiveMembers

def mapped (m : EffectiveMembers) : EffectiveMembers :=
  { m with
    fields := m.fields.map (EffectiveField.mapped ψ δ)
    associations := m.associations.map (EffectiveAssociation.mapped ψ) }

variable (m above : EffectiveMembers) (name : String)

theorem hasField_mapped : (m.mapped ψ δ).hasField name = m.hasField name := by
  rw [hasField, hasField, mapped, List.any_map]
  rfl

theorem hasAssociation_mapped : (m.mapped ψ δ).hasAssociation name = m.hasAssociation name := by
  rw [hasAssociation, hasAssociation, mapped, List.any_map]
  rfl

theorem inherit_mapped :
    (m.mapped ψ δ).inherit (above.mapped ψ δ) = (m.inherit above).mapped ψ δ := by
  have hfields : (above.mapped ψ δ).fields.foldl
        (fun fields f ↦ if fields.any (·.name == f.name) then fields else fields ++ [f])
        (m.fields.map (EffectiveField.mapped ψ δ)) =
      (m.inherit above).fields.map (EffectiveField.mapped ψ δ) := by
    rw [mapped, List.foldl_map]
    refine List.foldl_hom (List.map (EffectiveField.mapped ψ δ)) fun fields f ↦ ?_
    rw [apply_ite (List.map (EffectiveField.mapped ψ δ)), List.any_map, List.map_append]
    rfl
  have hassociations : (above.mapped ψ δ).associations.foldl
        (fun associations a ↦
          if associations.any (·.name == a.name) then associations else associations ++ [a])
        (m.associations.map (EffectiveAssociation.mapped ψ)) =
      (m.inherit above).associations.map (EffectiveAssociation.mapped ψ) := by
    rw [mapped, List.foldl_map]
    refine List.foldl_hom (List.map (EffectiveAssociation.mapped ψ)) fun associations a ↦ ?_
    rw [apply_ite (List.map (EffectiveAssociation.mapped ψ)), List.any_map, List.map_append]
    rfl
  rw [inherit, mapped, hassociations, hfields]
  rfl

theorem suppressField_mapped :
    (m.mapped ψ δ).suppressField name = (m.suppressField name).mapped ψ δ := by
  simp only [suppressField, mapped, List.filter_map]
  rfl

theorem suppressAssociation_mapped :
    (m.mapped ψ δ).suppressAssociation name = (m.suppressAssociation name).mapped ψ δ := by
  simp only [suppressAssociation, mapped, List.filter_map]
  rfl

/-- Own members replace mapped members as they would replace the members themselves. -/
theorem override_mapped (own : OwnMembers) :
    (m.mapped ψ δ).override
        ⟨own.fields.map (EffectiveField.mapped ψ δ),
          own.associations.map (EffectiveAssociation.mapped ψ)⟩ =
      (m.override own).mapped ψ δ := by
  simp only [override, mapped, List.filter_map, List.any_map, List.map_append]
  rfl

/-- Only the ordering keys of the fields count for their order. -/
theorem orderFields_mapped (hplace : ∀ className tag,
      (⟨className, ψ tag⟩ : TagReader).signed? "id" = (⟨className, tag⟩ : TagReader).signed? "id")
    (className : String) :
    (m.mapped ψ δ).orderFields className = mapped ψ δ <$> m.orderFields className := by
  have hkeyed : (m.mapped ψ δ).fields.mapM (fun f ↦ do
        return (f, ← (⟨className, f.tag⟩ : TagReader).signed? "id")) =
      List.map (fun item ↦ (item.1.mapped ψ δ, item.2)) <$> m.fields.mapM fun f ↦ do
        return (f, ← (⟨className, f.tag⟩ : TagReader).signed? "id") := by
    refine mapM_map_eq fun f _ ↦ ?_
    simp only [EffectiveField.mapped, hplace, map_bind, map_pure]
  simp only [orderFields, hkeyed, map_bind, bind_map_left, orderByKeys_map]
  rfl

section Patches

variable {ψ} (hψ : KeepsPatches ψ)
include hψ

theorem changeField_mapped (patch : Tag) :
    (m.mapped ψ δ).changeField name (·.applyPatch (ψ patch)) =
      (m.changeField name (·.applyPatch patch)).mapped ψ δ := by
  simp only [changeField, mapped, List.map_map]
  refine congrArg (fun fields ↦ EffectiveMembers.mk fields _ _) (List.map_congr_left fun f _ ↦ ?_)
  rw [Function.comp_apply, Function.comp_apply, apply_ite (EffectiveField.mapped ψ δ)]
  simp only [EffectiveField.mapped, hψ.applyPatch]

theorem changeAssociation_mapped (patch : Tag) :
    (m.mapped ψ δ).changeAssociation name (·.applyPatch (ψ patch)) =
      (m.changeAssociation name (·.applyPatch patch)).mapped ψ δ := by
  simp only [changeAssociation, mapped, List.map_map]
  refine congrArg (fun associations ↦ EffectiveMembers.mk _ associations _)
    (List.map_congr_left fun a _ ↦ ?_)
  rw [Function.comp_apply, Function.comp_apply, apply_ite (EffectiveAssociation.mapped ψ)]
  simp only [EffectiveAssociation.mapped, hψ.applyPatch]

theorem applyInheritedPatch_mapped (className : String) (patch : Tag) :
    (m.mapped ψ δ).applyInheritedPatch className (ψ patch) =
      mapped ψ δ <$> m.applyInheritedPatch className patch := by
  simp only [applyInheritedPatch, hψ.suppresses, hψ.member, map_bind, hasField_mapped,
    hasAssociation_mapped]
  refine congrArg _ (funext fun name ↦ congrArg _ (funext fun ignore ↦ ?_))
  rw [suppressField_mapped, suppressAssociation_mapped, changeField_mapped _ _ _ hψ,
    changeAssociation_mapped _ _ _ hψ, ← apply_ite (mapped ψ δ), ← apply_ite (mapped ψ δ)]
  split
  · rfl
  · split
    · rfl
    · rfl

theorem applyNestedPatch_mapped (className : String) (patch : Tag) :
    (m.mapped ψ δ).applyNestedPatch className (ψ patch) =
      mapped ψ δ <$> m.applyNestedPatch className patch := by
  simp only [applyNestedPatch, hψ.suppresses, hψ.member, map_bind, hasField_mapped]
  refine congrArg _ (funext fun name ↦ congrArg _ (funext fun ignore ↦ ?_))
  rw [suppressField_mapped, changeField_mapped _ _ _ hψ, ← apply_ite (mapped ψ δ)]
  split
  · rfl
  · rfl

variable {c c' : ClassDecl} {m}

/-- A class whose patches are those of another one, mapped. -/
theorem applyInheritedPatches_mapped (hname : c'.name = c.name)
    (hpatches : c'.tagsNamed TagName.modifyInherited =
      (c.tagsNamed TagName.modifyInherited).map ψ) :
    (m.mapped ψ δ).applyInheritedPatches c' = mapped ψ δ <$> m.applyInheritedPatches c := by
  rw [applyInheritedPatches, applyInheritedPatches, hname, hpatches]
  exact foldlM_map_eq fun patch _ m ↦ m.applyInheritedPatch_mapped δ hψ c.name patch

theorem applyNestedPatches_mapped (hname : c'.name = c.name)
    (hpatches : c'.tagsNamed TagName.modifyNested = (c.tagsNamed TagName.modifyNested).map ψ) :
    (m.mapped ψ δ).applyNestedPatches c' = mapped ψ δ <$> m.applyNestedPatches c := by
  rw [applyNestedPatches, applyNestedPatches, hname, hpatches]
  exact foldlM_map_eq fun patch _ m ↦ m.applyNestedPatch_mapped δ hψ c.name patch

end Patches

end EffectiveMembers

namespace OwnMembers

def mapped (own : OwnMembers) : OwnMembers where
  fields := own.fields.map (EffectiveField.mapped ψ δ)
  associations := own.associations.map (EffectiveAssociation.mapped ψ)

variable (className : String) (own : OwnMembers)

theorem addField_mapped (f : EffectiveField) :
    (own.mapped ψ δ).addField className (f.mapped ψ δ) =
      mapped ψ δ <$> own.addField className f := by
  rw [addField, addField, mapped, List.any_map, apply_ite (mapped ψ δ <$> ·)]
  refine ite_congr rfl (fun _ ↦ rfl) fun _ ↦ ?_
  simp only [Functor.map, Except.map, mapped, List.map_append, List.map_singleton]

theorem addAssociation_mapped (a : EffectiveAssociation) :
    (own.mapped ψ δ).addAssociation className (a.mapped ψ) =
      mapped ψ δ <$> own.addAssociation className a := by
  rw [addAssociation, addAssociation, mapped, List.any_map, apply_ite (mapped ψ δ <$> ·)]
  refine ite_congr rfl (fun _ ↦ rfl) fun _ ↦ ?_
  simp only [Functor.map, Except.map, mapped, List.map_append, List.map_singleton]

end OwnMembers

theorem EffectiveMembers.complete_mapped {ψ : Tag → Tag} (hψ : KeepsPatches ψ) {c c' : ClassDecl}
    (hname : c'.name = c.name)
    (hpatches : c'.tagsNamed TagName.modifyNested = (c.tagsNamed TagName.modifyNested).map ψ)
    (m : EffectiveMembers) (own : OwnMembers) :
    complete c' (m.mapped ψ δ) (own.mapped ψ δ) = mapped ψ δ <$> complete c m own := by
  simp only [complete, OwnMembers.mapped, override_mapped,
    applyNestedPatches_mapped δ hψ hname hpatches, bind_map_left, map_bind,
    orderFields_mapped ψ δ _ hψ.place, hname]

/-! ### What a class declares -/

/-- A mapping that says what another one says, with the tag of the other mapped. -/
structure DeclaredMapping.ReadsAs (ψ : Tag → Tag) (d d' : DeclaredMapping) : Prop where
  name : d'.name = d.name
  kind : d'.kind = d.kind
  type : d'.type? = d.type?
  tag : d'.tag = ψ d.tag
  label : d'.tag.name = d.tag.name

/-- What a mapping adds with its tag mapped, or the mapped class that it takes in. -/
def Contribution.mapped (φ : ClassDecl → ClassDecl) (ψ : Tag → Tag) : Contribution → Contribution
  | .field f => .field (f.mapped ψ id)
  | .association a => .association (a.mapped ψ)
  | .nested name inner => .nested name (φ inner)

namespace Hierarchy

variable {h : Hierarchy} {φ : ClassDecl → ClassDecl} {ψ : Tag → Tag} {d d' : DeclaredMapping}

theorem inheritedFrom_mapped (hφ : KeepsPlace h φ) (hoptions : ∀ c, (φ c).options = c.options)
    (c : ClassDecl) :
    (h.mapped hφ).inheritedFrom (φ c) = (h.inheritedFrom c).map φ := by
  rw [inheritedFrom, inheritedFrom, hoptions, apply_ite (List.map φ), supertypes_mapped]
  rfl

theorem nestedClass_mapped (hφ : KeepsPlace h φ) (hd : d.ReadsAs ψ d') (c : ClassDecl) :
    (h.mapped hφ).nestedClass (φ c) d' = φ <$> h.nestedClass c d := by
  simp only [nestedClass, hd.type, hd.name, hφ.name, find?_mapped]
  cases h.find? (MemberType.parse (d.type?.getD "")).rawName with
  | none => rfl
  | some inner => rfl

theorem contribution_mapped (hφ : KeepsPlace h φ) (hd : d.ReadsAs ψ d') (c : ClassDecl) :
    (h.mapped hφ).contribution (φ c) d' = Contribution.mapped φ ψ <$> h.contribution c d := by
  unfold contribution
  simp only [hd.name, hd.kind, hd.type, hd.label, hφ.name, nestedClass_mapped hφ hd]
  split
  · rfl
  · cases d.kind with
    | field => rw [hd.tag]; rfl
    | reference => rw [hd.tag]; rfl
    | collection => rw [hd.tag]; rfl
    | nested => cases h.nestedClass c d <;> rfl

end Hierarchy

end ClassMap

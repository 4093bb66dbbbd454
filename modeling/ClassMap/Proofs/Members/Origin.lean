import ClassMap.Proofs.Entries
import ClassMap.Proofs.Members.Step

/-!
The members of a class themselves, and not only their names. Every stage that makes them keeps
their names apart, and it leaves a member as it is unless it names it. So what a class has under a
name that it neither declares nor patches is what the first class above has under that name
(`field?_stepMembers`, `association?_stepMembers`).
-/

set_option autoImplicit false
set_option relaxedAutoImplicit false

namespace ClassMap

open Traversal

namespace ClassDecl

/-- A class names a member in one of its patches. -/
def Patches (c : ClassDecl) (name : String) : Prop :=
  ∃ tag ∈ c.tagsNamed TagName.modifyInherited ++ c.tagsNamed TagName.modifyNested,
    (TagReader.mk c.name tag).text? "name" = some name

end ClassDecl

namespace EffectiveMembers

def field? (m : EffectiveMembers) (name : String) : Option EffectiveField :=
  m.fields.find? (·.name == name)

def association? (m : EffectiveMembers) (name : String) : Option EffectiveAssociation :=
  m.associations.find? (·.name == name)

/-- No two fields have one name, and no two associations. -/
structure Distinct (m : EffectiveMembers) : Prop where
  fields : (m.fields.map (·.name)).Nodup
  associations : (m.associations.map (·.name)).Nodup

/-- What is found under a name has not changed. -/
structure Leaves (m result : EffectiveMembers) (name : String) : Prop where
  field : result.field? name = m.field? name
  association : result.association? name = m.association? name

variable {m result middle above : EffectiveMembers} {name other className : String} {patch : Tag}

theorem Leaves.refl (m : EffectiveMembers) (name : String) : m.Leaves m name :=
  ⟨rfl, rfl⟩

theorem Leaves.trans (hfirst : m.Leaves middle name) (hsecond : middle.Leaves result name) :
    m.Leaves result name :=
  ⟨hsecond.field.trans hfirst.field, hsecond.association.trans hfirst.association⟩

theorem Distinct.field?_eq_some_iff (h : m.Distinct) {f : EffectiveField} :
    m.field? name = some f ↔ f ∈ m.fields ∧ f.name = name :=
  find?_eq_some_iff_of_nodup h.fields

theorem Distinct.association?_eq_some_iff (h : m.Distinct) {a : EffectiveAssociation} :
    m.association? name = some a ↔ a ∈ m.associations ∧ a.name = name :=
  find?_eq_some_iff_of_nodup h.associations

@[simp] theorem field?_inherit :
    (m.inherit above).field? name = (m.field? name).or (above.field? name) :=
  find?_foldl_new

@[simp] theorem association?_inherit :
    (m.inherit above).association? name = (m.association? name).or (above.association? name) :=
  find?_foldl_new

theorem Distinct.inherit (h : m.Distinct) : (m.inherit above).Distinct :=
  ⟨nodup_foldl_new h.fields, nodup_foldl_new h.associations⟩

theorem Distinct.suppressField (h : m.Distinct) : (m.suppressField name).Distinct :=
  ⟨nodup_filter _ h.fields, h.associations⟩

theorem Distinct.suppressAssociation (h : m.Distinct) : (m.suppressAssociation name).Distinct :=
  ⟨h.fields, nodup_filter _ h.associations⟩

theorem Distinct.changeField (h : m.Distinct) (change : Tag → Tag) :
    (m.changeField name change).Distinct := by
  have hnames : (m.changeField name change).fields.map (·.name) = m.fields.map (·.name) :=
    map_nameOf_map (fun f : EffectiveField ↦ { f with tag := change f.tag }) fun _ ↦ rfl
  exact ⟨hnames ▸ h.fields, h.associations⟩

theorem Distinct.changeAssociation (h : m.Distinct) (change : Tag → Tag) :
    (m.changeAssociation name change).Distinct := by
  have hnames : (m.changeAssociation name change).associations.map (·.name) =
      m.associations.map (·.name) :=
    map_nameOf_map (fun a : EffectiveAssociation ↦ { a with tag := change a.tag }) fun _ ↦ rfl
  exact ⟨h.fields, hnames ▸ h.associations⟩

theorem leaves_suppressField (hne : name ≠ other) : m.Leaves (m.suppressField other) name := by
  refine ⟨find?_filter_of_keeps fun f hf ↦ ?_, rfl⟩
  simpa [hf] using hne

theorem leaves_suppressAssociation (hne : name ≠ other) :
    m.Leaves (m.suppressAssociation other) name := by
  refine ⟨rfl, find?_filter_of_keeps fun a ha ↦ ?_⟩
  simpa [ha] using hne

theorem leaves_changeField (hne : name ≠ other) (change : Tag → Tag) :
    m.Leaves (m.changeField other change) name :=
  ⟨find?_map_of_ne (fun f : EffectiveField ↦ { f with tag := change f.tag }) (fun _ ↦ rfl) hne, rfl⟩

theorem leaves_changeAssociation (hne : name ≠ other) (change : Tag → Tag) :
    m.Leaves (m.changeAssociation other change) name :=
  ⟨rfl, find?_map_of_ne (fun a : EffectiveAssociation ↦ { a with tag := change a.tag })
    (fun _ ↦ rfl) hne⟩

/-- A patch keeps names apart, and what it does not name it leaves. -/
theorem distinct_applyInheritedPatch (h : m.applyInheritedPatch className patch = .ok result)
    (hm : m.Distinct) : result.Distinct := by
  obtain ⟨other, -, ⟨-, change, rfl | rfl⟩ | ⟨-, ⟨-, rfl⟩ | ⟨-, rfl⟩⟩⟩ :=
    applyInheritedPatch_eq_ok h
  · exact hm.changeField change
  · exact hm.changeAssociation change
  · exact hm.suppressField
  · exact hm.suppressAssociation

theorem leaves_applyInheritedPatch (h : m.applyInheritedPatch className patch = .ok result)
    (hname : (TagReader.mk className patch).text? "name" ≠ some name) : m.Leaves result name := by
  obtain ⟨other, hother, hforms⟩ := applyInheritedPatch_eq_ok h
  have hne : name ≠ other := fun heq ↦ hname (heq ▸ hother)
  rcases hforms with ⟨-, change, rfl | rfl⟩ | ⟨-, ⟨-, rfl⟩ | ⟨-, rfl⟩⟩
  · exact leaves_changeField hne change
  · exact leaves_changeAssociation hne change
  · exact leaves_suppressField hne
  · exact leaves_suppressAssociation hne

theorem distinct_applyNestedPatch (h : m.applyNestedPatch className patch = .ok result)
    (hm : m.Distinct) : result.Distinct := by
  obtain ⟨other, -, ⟨-, change, rfl⟩ | ⟨-, rfl⟩⟩ := applyNestedPatch_eq_ok h
  · exact hm.changeField change
  · exact hm.suppressField

theorem leaves_applyNestedPatch (h : m.applyNestedPatch className patch = .ok result)
    (hname : (TagReader.mk className patch).text? "name" ≠ some name) : m.Leaves result name := by
  obtain ⟨other, hother, hforms⟩ := applyNestedPatch_eq_ok h
  have hne : name ≠ other := fun heq ↦ hname (heq ▸ hother)
  rcases hforms with ⟨-, change, rfl⟩ | ⟨-, rfl⟩
  · exact leaves_changeField hne change
  · exact leaves_suppressField hne

variable {c : ClassDecl}

theorem distinct_applyInheritedPatches (h : m.applyInheritedPatches c = .ok result)
    (hm : m.Distinct) : result.Distinct :=
  foldlM_keeps Distinct h (fun _ _ _ _ hstep ↦ distinct_applyInheritedPatch hstep) hm

theorem distinct_applyNestedPatches (h : m.applyNestedPatches c = .ok result)
    (hm : m.Distinct) : result.Distinct :=
  foldlM_keeps Distinct h (fun _ _ _ _ hstep ↦ distinct_applyNestedPatch hstep) hm

theorem leaves_applyInheritedPatches (h : m.applyInheritedPatches c = .ok result)
    (hname : ¬ c.Patches name) : m.Leaves result name := by
  refine foldlM_keeps (m.Leaves · name) h (fun tag htag before after hstep hbefore ↦ ?_)
    (Leaves.refl m name)
  have hother : (TagReader.mk c.name tag).text? "name" ≠ some name := fun heq ↦
    hname ⟨tag, List.mem_append_left _ htag, heq⟩
  exact hbefore.trans (leaves_applyInheritedPatch hstep hother)

theorem leaves_applyNestedPatches (h : m.applyNestedPatches c = .ok result)
    (hname : ¬ c.Patches name) : m.Leaves result name := by
  refine foldlM_keeps (m.Leaves · name) h (fun tag htag before after hstep hbefore ↦ ?_)
    (Leaves.refl m name)
  have hother : (TagReader.mk c.name tag).text? "name" ≠ some name := fun heq ↦
    hname ⟨tag, List.mem_append_right _ htag, heq⟩
  exact hbefore.trans (leaves_applyNestedPatch hstep hother)

end EffectiveMembers

namespace OwnMembers

/-- No two declared fields have one name, and no two declared associations. -/
structure Distinct (own : OwnMembers) : Prop where
  fields : (own.fields.map (·.name)).Nodup
  associations : (own.associations.map (·.name)).Nodup

variable {own result : OwnMembers} {className name : String} {f : EffectiveField}
  {a : EffectiveAssociation}

theorem Distinct.addField (hown : own.Distinct) (h : own.addField className f = .ok result) :
    result.Distinct := by
  unfold OwnMembers.addField at h
  split at h
  · exact absurd h (by simp)
  · rename_i hnew
    obtain rfl := Except.ok.inj h
    exact ⟨nodup_append_singleton hown.fields hnew, hown.associations⟩

theorem Distinct.addAssociation (hown : own.Distinct)
    (h : own.addAssociation className a = .ok result) : result.Distinct := by
  unfold OwnMembers.addAssociation at h
  split at h
  · exact absurd h (by simp)
  · rename_i hnew
    obtain rfl := Except.ok.inj h
    exact ⟨hown.fields, nodup_append_singleton hown.associations hnew⟩

theorem Distinct.addNested (hown : own.Distinct) {inner : EffectiveMembers}
    (h : own.addNested className name inner = .ok result) : result.Distinct :=
  foldlM_keeps Distinct h (fun _ _ _ _ hstep hbefore ↦ hbefore.addField hstep) hown

end OwnMembers

namespace EffectiveMembers

variable {m : EffectiveMembers} {own : OwnMembers} {name : String}

theorem Distinct.override (hm : m.Distinct) (hown : own.Distinct) : (m.override own).Distinct :=
  ⟨nodup_filter_append hm.fields hown.fields,
    nodup_filter_append hm.associations hown.associations⟩

theorem field?_override (hown : own.hasField name = false) :
    (m.override own).field? name = m.field? name :=
  find?_filter_append hown

theorem association?_override (hown : own.hasAssociation name = false) :
    (m.override own).association? name = m.association? name :=
  find?_filter_append hown

end EffectiveMembers

namespace Hierarchy

variable {h : Hierarchy} {c : ClassDecl} {of : ClassDecl → EffectiveMembers} {name : String}
  {m : EffectiveMembers} {own result : OwnMembers}

theorem distinct_addMapping {d : DeclaredMapping} (hadd : h.addMapping of c own d = .ok result)
    (hown : own.Distinct) : result.Distinct := by
  obtain ⟨contribution, -, hrest⟩ := bind_eq_ok_iff.mp hadd
  cases contribution with
  | field f => exact hown.addField hrest
  | association a => exact hown.addAssociation hrest
  | nested name inner => exact hown.addNested hrest

theorem distinct_own (hown : c.mappings.foldlM (h.addMapping of c) {} = .ok own) : own.Distinct :=
  foldlM_keeps OwnMembers.Distinct hown (fun _ _ _ _ hstep ↦ distinct_addMapping hstep)
    ⟨List.nodup_nil, List.nodup_nil⟩

theorem distinct_inheritAll : (h.inheritAll of c).Distinct := by
  have hstart : EffectiveMembers.Distinct {} := ⟨List.nodup_nil, List.nodup_nil⟩
  exact List.foldlRecOn (h.inheritedFrom c) _ hstart fun _ hm _ _ ↦ hm.inherit

/-- The first class above that has a field of a name gives it. -/
theorem field?_inheritAll :
    (h.inheritAll of c).field? name =
      (h.inheritedFrom c).findSome? fun d ↦ (of d).field? name := by
  have hfold : ∀ (above : List ClassDecl) (start : EffectiveMembers),
      (above.foldl (fun m d ↦ m.inherit (of d)) start).field? name =
        (start.field? name).or (above.findSome? fun d ↦ (of d).field? name) := by
    intro above
    induction above with
    | nil => exact fun start ↦ (Option.or_none).symm
    | cons d rest ih =>
      intro start
      rw [List.foldl_cons, ih, EffectiveMembers.field?_inherit, Option.or_assoc,
        List.findSome?_cons]
      cases (of d).field? name <;> rfl
  exact hfold (h.inheritedFrom c) {}

theorem association?_inheritAll :
    (h.inheritAll of c).association? name =
      (h.inheritedFrom c).findSome? fun d ↦ (of d).association? name := by
  have hfold : ∀ (above : List ClassDecl) (start : EffectiveMembers),
      (above.foldl (fun m d ↦ m.inherit (of d)) start).association? name =
        (start.association? name).or (above.findSome? fun d ↦ (of d).association? name) := by
    intro above
    induction above with
    | nil => exact fun start ↦ (Option.or_none).symm
    | cons d rest ih =>
      intro start
      rw [List.foldl_cons, ih, EffectiveMembers.association?_inherit, Option.or_assoc,
        List.findSome?_cons]
      cases (of d).association? name <;> rfl
  exact hfold (h.inheritedFrom c) {}

theorem distinct_stepMembers (hm : h.stepMembers of c = .ok m) : m.Distinct := by
  obtain ⟨inherited, own, patched, hinherited, hown, hpatched, hperm, hassociations, -⟩ :=
    stepMembers_eq_ok hm
  have hfirst : inherited.Distinct :=
    EffectiveMembers.distinct_applyInheritedPatches hinherited distinct_inheritAll
  have hlast : patched.Distinct :=
    EffectiveMembers.distinct_applyNestedPatches hpatched (hfirst.override (distinct_own hown))
  constructor
  · exact (hperm.map EffectiveField.name).nodup_iff.mpr hlast.fields
  · exact hassociations ▸ hlast.associations

/-- What a class has under the name of a field that it neither declares nor patches. -/
theorem field?_stepMembers (hm : h.stepMembers of c = .ok m)
    (hdeclares : ¬ h.DeclaresField (HasField of) c name) (hpatches : ¬ c.Patches name) :
    m.field? name = (h.inheritedFrom c).findSome? fun d ↦ (of d).field? name := by
  have hdistinct := distinct_stepMembers hm
  obtain ⟨inherited, own, patched, hinherited, hown, hpatched, hperm, -⟩ := stepMembers_eq_ok hm
  have hnone : own.hasField name = false := by
    rw [← Bool.not_eq_true, (own_eq_ok hown name).1]
    exact hdeclares
  have hordered : m.field? name = patched.field? name := find?_eq_of_perm hperm hdistinct.fields
  have hlast := EffectiveMembers.leaves_applyNestedPatches hpatched hpatches
  have hfirst := EffectiveMembers.leaves_applyInheritedPatches hinherited hpatches
  rw [hordered, hlast.field, EffectiveMembers.field?_override hnone, hfirst.field,
    field?_inheritAll]

theorem association?_stepMembers (hm : h.stepMembers of c = .ok m)
    (hdeclares : ¬ DeclaresAssociation c name) (hpatches : ¬ c.Patches name) :
    m.association? name = (h.inheritedFrom c).findSome? fun d ↦ (of d).association? name := by
  obtain ⟨inherited, own, patched, hinherited, hown, hpatched, -, hassociations, -⟩ :=
    stepMembers_eq_ok hm
  have hnone : own.hasAssociation name = false := by
    rw [← Bool.not_eq_true, (own_eq_ok hown name).2]
    exact hdeclares
  have hordered : m.association? name = patched.association? name := by
    rw [EffectiveMembers.association?, hassociations, EffectiveMembers.association?]
  have hlast := EffectiveMembers.leaves_applyNestedPatches hpatched hpatches
  have hfirst := EffectiveMembers.leaves_applyInheritedPatches hinherited hpatches
  rw [hordered, hlast.association, EffectiveMembers.association?_override hnone,
    hfirst.association, association?_inheritAll]

end Hierarchy

end ClassMap

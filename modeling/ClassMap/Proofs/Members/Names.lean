import ClassMap.Members.Own
import ClassMap.Proofs.Traversal

/-!
The names of effective members, as inheriting and patching leave them. Inheriting adds names and
takes none away, and among the patches of a class only those that ignore a member count: each takes
one name away and keeps it as suppressed.
-/

set_option autoImplicit false
set_option relaxedAutoImplicit false

namespace ClassMap

open Traversal

namespace EffectiveMembers

variable {m result above : EffectiveMembers} {name other className : String} {patch : Tag}

/-- Entries added under new names only. -/
theorem any_foldl_new {α : Type} (nameOf : α → String) (xs ys : List α) (name : String) :
    (ys.foldl (fun xs y ↦ if xs.any (nameOf · == nameOf y) then xs else xs ++ [y]) xs).any
      (nameOf · == name) = (xs.any (nameOf · == name) || ys.any (nameOf · == name)) := by
  induction ys generalizing xs with
  | nil => simp
  | cons y rest ih =>
    rw [List.foldl_cons, ih, List.any_cons]
    split
    · rename_i hknown
      by_cases hname : nameOf y = name
      · subst hname
        simp [hknown]
      · rw [beq_false_of_ne hname, Bool.false_or]
    · simp [Bool.or_assoc]

@[simp] theorem hasField_inherit :
    (m.inherit above).hasField name = (m.hasField name || above.hasField name) :=
  any_foldl_new EffectiveField.name m.fields above.fields name

@[simp] theorem hasAssociation_inherit :
    (m.inherit above).hasAssociation name = (m.hasAssociation name || above.hasAssociation name) :=
  any_foldl_new EffectiveAssociation.name m.associations above.associations name

@[simp] theorem isSuppressed_inherit :
    (m.inherit above).isSuppressed name = (m.isSuppressed name || above.isSuppressed name) := by
  cases hm : m.suppressed.contains name <;> simp_all [isSuppressed, inherit]

/-- Entries of all names but one. -/
theorem any_filter_bne {α : Type} (nameOf : α → String) (xs : List α) (name other : String) :
    (xs.filter (nameOf · != other)).any (nameOf · == name) = true ↔
      xs.any (nameOf · == name) = true ∧ name ≠ other := by
  simp only [List.any_eq_true, List.mem_filter, beq_iff_eq, bne_iff_ne]
  constructor
  · intro hthere
    obtain ⟨x, ⟨hx, hne⟩, rfl⟩ := hthere
    exact ⟨⟨x, hx, rfl⟩, hne⟩
  · intro hboth
    obtain ⟨⟨x, hx, rfl⟩, hne⟩ := hboth
    exact ⟨x, ⟨hx, hne⟩, rfl⟩

/-- Entries that are changed under the names they have. -/
theorem any_map_keeping {α : Type} (nameOf : α → String) (change : α → α)
    (hchange : ∀ x, nameOf (change x) = nameOf x) (xs : List α) (name : String) :
    (xs.map change).any (nameOf · == name) = xs.any (nameOf · == name) := by
  rw [List.any_map]
  refine congrArg (List.any xs) (funext fun x ↦ ?_)
  rw [Function.comp, hchange x]

theorem hasField_suppressField :
    (m.suppressField other).hasField name = true ↔ m.hasField name = true ∧ name ≠ other :=
  any_filter_bne EffectiveField.name m.fields name other

theorem hasAssociation_suppressAssociation :
    (m.suppressAssociation other).hasAssociation name = true ↔
      m.hasAssociation name = true ∧ name ≠ other :=
  any_filter_bne EffectiveAssociation.name m.associations name other

theorem contains_suppressed (names : List String) :
    (if names.contains other then names else names ++ [other]).contains name = true ↔
      names.contains name = true ∨ name = other := by
  split
  · rename_i hthere
    constructor
    · exact Or.inl
    · intro hnew
      rcases hnew with hname | rfl
      · exact hname
      · exact hthere
  · simp

theorem isSuppressed_suppressField :
    (m.suppressField other).isSuppressed name = true ↔ m.isSuppressed name = true ∨ name = other :=
  contains_suppressed m.suppressed

theorem isSuppressed_suppressAssociation :
    (m.suppressAssociation other).isSuppressed name = true ↔
      m.isSuppressed name = true ∨ name = other :=
  contains_suppressed m.suppressed

@[simp] theorem hasField_changeField (change : Tag → Tag) :
    (m.changeField other change).hasField name = m.hasField name :=
  any_map_keeping EffectiveField.name _ (fun f ↦ by split <;> rfl) m.fields name

@[simp] theorem hasAssociation_changeAssociation (change : Tag → Tag) :
    (m.changeAssociation other change).hasAssociation name = m.hasAssociation name :=
  any_map_keeping EffectiveAssociation.name _ (fun a ↦ by split <;> rfl) m.associations name

/-- Fields lose some names, and these are suppressed. -/
structure Loses (m result : EffectiveMembers) (names : List String) : Prop where
  hasField_iff : ∀ name, result.hasField name = true ↔ m.hasField name = true ∧ name ∉ names
  isSuppressed_iff : ∀ name,
    result.isSuppressed name = true ↔ m.isSuppressed name = true ∨ name ∈ names

theorem Loses.trans {middle : EffectiveMembers} {first second : List String}
    (hfirst : m.Loses middle first) (hsecond : middle.Loses result second) :
    m.Loses result (first ++ second) := by
  constructor
  · intro name
    rw [hsecond.hasField_iff, hfirst.hasField_iff, List.mem_append, not_or, and_assoc]
  · intro name
    rw [hsecond.isSuppressed_iff, hfirst.isSuppressed_iff, List.mem_append, or_assoc]

theorem loses_foldlM {step : EffectiveMembers → Tag → Except MappingError EffectiveMembers}
    {removal : Tag → Option String}
    (hstep : ∀ m tag result, step m tag = .ok result → m.Loses result (removal tag).toList)
    {tags : List Tag} (h : tags.foldlM step m = .ok result) :
    m.Loses result (tags.filterMap removal) := by
  induction tags generalizing m with
  | nil =>
    obtain rfl := pure_eq_ok_iff.mp h
    exact ⟨by simp, by simp⟩
  | cons tag rest ih =>
    obtain ⟨middle, hmiddle, hrest⟩ := bind_eq_ok_iff.mp h
    have hboth := (hstep m tag middle hmiddle).trans (ih hrest)
    cases hremoval : removal tag <;> simpa [hremoval] using hboth

end EffectiveMembers

/-- The name that a patch takes away, if it takes one away. -/
def removal? (className : String) (patch : Tag) : Option String :=
  let r : TagReader := ⟨className, patch⟩
  match r.text? "name", suppresses r with
  | some name, .ok true => some name
  | _, _ => none

namespace ClassDecl

/-- The inherited names that a class takes away, in the order of its patches. -/
def inheritedRemovals (c : ClassDecl) : List String :=
  (c.tagsNamed TagName.modifyInherited).filterMap (removal? c.name)

/-- The names of nested fields that a class takes away. -/
def nestedRemovals (c : ClassDecl) : List String :=
  (c.tagsNamed TagName.modifyNested).filterMap (removal? c.name)

end ClassDecl

namespace EffectiveMembers

variable {m result : EffectiveMembers} {className : String} {patch : Tag}

theorem required_eq_ok {r : TagReader} {key need value : String} :
    r.required key need = .ok value ↔ r.text? key = some value := by
  unfold TagReader.required
  cases r.text? key with
  | none => simp
  | some found => simp

/-- What a patch of an inherited member does under the name it gives: it changes options only, or it
takes the field of that name away, or else the association. -/
theorem applyInheritedPatch_eq_ok (h : m.applyInheritedPatch className patch = .ok result) :
    ∃ name, (TagReader.mk className patch).text? "name" = some name ∧
      ((removal? className patch = none ∧ ∃ change,
          result = m.changeField name change ∨ result = m.changeAssociation name change) ∨
        removal? className patch = some name ∧
          ((m.hasField name = true ∧ result = m.suppressField name) ∨
            (m.hasField name = false ∧ result = m.suppressAssociation name))) := by
  simp only [applyInheritedPatch, bind_eq_ok_iff, required_eq_ok] at h
  obtain ⟨name, hname, ignore, hignore, hrest⟩ := h
  have hremoval : removal? className patch = if ignore then some name else none := by
    simp only [removal?, hname, hignore]
    cases ignore <;> rfl
  refine ⟨name, hname, ?_⟩
  rw [hremoval]
  split at hrest
  · rename_i hfield
    obtain rfl := pure_eq_ok_iff.mp hrest
    cases ignore with
    | true => exact Or.inr ⟨rfl, Or.inl ⟨hfield, rfl⟩⟩
    | false => exact Or.inl ⟨rfl, (·.applyPatch patch), Or.inl rfl⟩
  · rename_i hfield
    split at hrest
    · obtain rfl := pure_eq_ok_iff.mp hrest
      cases ignore with
      | true => exact Or.inr ⟨rfl, Or.inr ⟨by simpa using hfield, rfl⟩⟩
      | false => exact Or.inl ⟨rfl, (·.applyPatch patch), Or.inr rfl⟩
    · exact absurd hrest (by simp [throw, throwThe, MonadExceptOf.throw])

theorem applyNestedPatch_eq_ok (h : m.applyNestedPatch className patch = .ok result) :
    ∃ name, (TagReader.mk className patch).text? "name" = some name ∧
      ((removal? className patch = none ∧ ∃ change, result = m.changeField name change) ∨
        removal? className patch = some name ∧ result = m.suppressField name) := by
  simp only [applyNestedPatch, bind_eq_ok_iff, required_eq_ok] at h
  obtain ⟨name, hname, ignore, hignore, hrest⟩ := h
  have hremoval : removal? className patch = if ignore then some name else none := by
    simp only [removal?, hname, hignore]
    cases ignore <;> rfl
  refine ⟨name, hname, ?_⟩
  rw [hremoval]
  split at hrest
  · obtain rfl := pure_eq_ok_iff.mp hrest
    cases ignore with
    | true => exact Or.inr ⟨rfl, rfl⟩
    | false => exact Or.inl ⟨rfl, (·.applyPatch patch), rfl⟩
  · exact absurd hrest (by simp [throw, throwThe, MonadExceptOf.throw])

theorem loses_suppressField (name : String) : m.Loses (m.suppressField name) [name] :=
  ⟨fun other ↦ by rw [hasField_suppressField, List.mem_singleton],
    fun other ↦ by rw [isSuppressed_suppressField, List.mem_singleton]⟩

theorem loses_changeField (name : String) (change : Tag → Tag) :
    m.Loses (m.changeField name change) [] :=
  ⟨fun other ↦ by simp, fun other ↦ by simp [isSuppressed, changeField]⟩

theorem loses_applyInheritedPatch (h : m.applyInheritedPatch className patch = .ok result) :
    m.Loses result (removal? className patch).toList := by
  obtain ⟨name, -, ⟨hremoval, change, rfl | rfl⟩ | ⟨hremoval, ⟨-, rfl⟩ | ⟨hfield, rfl⟩⟩⟩ :=
    applyInheritedPatch_eq_ok h
  · rw [hremoval]
    exact loses_changeField name change
  · rw [hremoval]
    exact ⟨fun other ↦ by simp [hasField, changeAssociation],
      fun other ↦ by simp [isSuppressed, changeAssociation]⟩
  · rw [hremoval]
    exact loses_suppressField name
  · rw [hremoval]
    refine ⟨fun other ↦ ?_, fun other ↦ ?_⟩
    · have hsame : (m.suppressAssociation name).hasField other = m.hasField other := rfl
      rw [hsame, Option.toList_some, List.mem_singleton]
      refine ⟨fun hother ↦ ⟨hother, fun heq ↦ ?_⟩, And.left⟩
      rw [heq, hfield] at hother
      exact Bool.noConfusion hother
    · rw [isSuppressed_suppressAssociation, Option.toList_some, List.mem_singleton]

theorem loses_applyNestedPatch (h : m.applyNestedPatch className patch = .ok result) :
    m.Loses result (removal? className patch).toList := by
  obtain ⟨name, -, ⟨hremoval, change, rfl⟩ | ⟨hremoval, rfl⟩⟩ := applyNestedPatch_eq_ok h
  · rw [hremoval]
    exact loses_changeField name change
  · rw [hremoval]
    exact loses_suppressField name

theorem loses_applyInheritedPatches {c : ClassDecl} (h : m.applyInheritedPatches c = .ok result) :
    m.Loses result c.inheritedRemovals := by
  unfold applyInheritedPatches at h
  exact loses_foldlM (fun _ _ _ hstep ↦ loses_applyInheritedPatch hstep) h

theorem loses_applyNestedPatches {c : ClassDecl} (h : m.applyNestedPatches c = .ok result) :
    m.Loses result c.nestedRemovals := by
  unfold applyNestedPatches at h
  exact loses_foldlM (fun _ _ _ hstep ↦ loses_applyNestedPatch hstep) h

/-- How often a name may be taken away before its association is: the field of that name, if there
is one, goes first. -/
def spare (m : EffectiveMembers) (name : String) : Nat :=
  if m.hasField name then 1 else 0

/-- One patch takes an association away when it names it and no field stands before it. -/
theorem hasAssociation_applyInheritedPatch (h : m.applyInheritedPatch className patch = .ok result)
    (name : String) (later : Nat) :
    (result.hasAssociation name = true ∧ later ≤ result.spare name) ↔
      m.hasAssociation name = true ∧
        (removal? className patch).toList.count name + later ≤ m.spare name := by
  obtain ⟨other, -, ⟨hremoval, change, rfl | rfl⟩ |
    ⟨hremoval, ⟨hfield, rfl⟩ | ⟨hfield, rfl⟩⟩⟩ := applyInheritedPatch_eq_ok h
  · have hassociation : (m.changeField other change).hasAssociation name =
        m.hasAssociation name := rfl
    simp [hremoval, hassociation, spare]
  · have hfields : (m.changeAssociation other change).hasField name = m.hasField name := rfl
    simp [hremoval, hfields, spare]
  · have hassociation : (m.suppressField other).hasAssociation name = m.hasAssociation name := rfl
    rw [hremoval, hassociation, Option.toList_some]
    refine and_congr_right fun _ ↦ ?_
    by_cases hname : name = other
    · subst hname
      have hgone : (m.suppressField name).hasField name = false :=
        Bool.eq_false_iff.mpr fun hthere ↦ (hasField_suppressField.mp hthere).2 rfl
      simp only [spare, hgone, hfield, List.count_singleton_self, if_true, Bool.false_eq_true,
        if_false]
      omega
    · have hkept : (m.suppressField other).hasField name = m.hasField name :=
        Bool.eq_iff_iff.mpr (by simp [hasField_suppressField, hname])
      simp [spare, hkept, Ne.symm hname]
  · have hfields : (m.suppressAssociation other).hasField name = m.hasField name := rfl
    rw [hremoval, hasAssociation_suppressAssociation, Option.toList_some, spare, spare, hfields]
    by_cases hname : name = other
    · subst hname
      simp [hfield]
    · simp [hname, Ne.symm hname]

theorem hasAssociation_foldlM {tags : List Tag}
    (h : tags.foldlM (applyInheritedPatch className) m = .ok result) (name : String) :
    result.hasAssociation name = true ↔ m.hasAssociation name = true ∧
      (tags.filterMap (removal? className)).count name ≤ m.spare name := by
  induction tags generalizing m with
  | nil =>
    obtain rfl := pure_eq_ok_iff.mp h
    simp
  | cons tag rest ih =>
    obtain ⟨middle, hmiddle, hrest⟩ := bind_eq_ok_iff.mp h
    rw [ih hrest, hasAssociation_applyInheritedPatch hmiddle]
    cases hremoval : removal? className tag with
    | none => simp [hremoval]
    | some other => simp [hremoval, List.count_cons, Nat.add_comm]

theorem associations_foldlM_applyNestedPatch {tags : List Tag}
    (h : tags.foldlM (applyNestedPatch className) m = .ok result) :
    result.associations = m.associations := by
  refine foldlM_keeps (fun after ↦ after.associations = m.associations) h ?_ rfl
  intro tag _ before after hstep hbefore
  obtain ⟨name, -, ⟨-, change, rfl⟩ | ⟨-, rfl⟩⟩ := applyNestedPatch_eq_ok hstep
  · exact hbefore
  · exact hbefore

end EffectiveMembers

end ClassMap

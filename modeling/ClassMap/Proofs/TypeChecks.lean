import ClassMap.Proofs.Resolution.Scope
import ClassMap.Proofs.Resolution.Plan

/-!
The checks of declared types. They look at the types that members are declared with and at the
classes their tags name, and at nothing that resolution has come to; they let an association pass
or refuse it, and change nothing about it. So strict resolution is basic resolution together with
one condition on every association, and it refuses whatever basic resolution refuses
(`strict_refines_basic`).
-/

set_option autoImplicit false
set_option relaxedAutoImplicit false

namespace ClassMap

open Traversal

namespace Hierarchy

/-- A class that a reference tag names is above or below the declared type, if there is one. -/
def TargetFits (h : Hierarchy) (a : EffectiveAssociation) (options : ReferenceOptions) : Prop :=
  ∀ target, options.classRef = some target → ∀ declared, a.rawType? = some declared →
    h.areCompatible target declared = true

/-- An element class that a collection tag names is above or below the declared one. -/
def ElementFits (h : Hierarchy) (a : EffectiveAssociation) (options : CollectionOptions) : Prop :=
  ∀ element, options.elementClassRef = some element → ∀ declared, a.elementType? = some declared →
    h.areCompatible element declared = true

/-- The declared type of a collection is a container, one that the named class can stand for. -/
def ContainerFits (h : Hierarchy) (c : ClassDecl) (a : EffectiveAssociation)
    (options : CollectionOptions) : Prop :=
  ∀ type, a.type = some type →
    h.checkContainer c.name a.name type options.collectionClass = .ok ()

/-- The types of an association fit the options of its tag. -/
structure TypesFit (h : Hierarchy) (c : ClassDecl) (a : EffectiveAssociation) : Prop where
  reference : a.isCollection = false → ∀ options,
    ReferenceOptions.parse c.name a.tag = .ok options → h.TargetFits a options
  collection : a.isCollection = true → ∀ options,
    CollectionOptions.parse c.name a.tag = .ok options →
      h.ElementFits a options ∧ h.ContainerFits c a options

variable {h : Hierarchy} {c : ClassDecl} {a : EffectiveAssociation}

theorem typesFit_iff_of_reference (hkind : a.isCollection = false) {options : ReferenceOptions}
    (hoptions : ReferenceOptions.parse c.name a.tag = .ok options) :
    h.TypesFit c a ↔ h.TargetFits a options := by
  constructor
  · exact fun hfit ↦ hfit.reference hkind options hoptions
  · intro hfits
    constructor
    case reference =>
      intro _ other hother
      obtain rfl := Except.ok.inj (hoptions.symm.trans hother)
      exact hfits
    case collection =>
      intro hcollection
      exact absurd (hkind.symm.trans hcollection) (by simp)

theorem typesFit_iff_of_collection (hkind : a.isCollection = true) {options : CollectionOptions}
    (hoptions : CollectionOptions.parse c.name a.tag = .ok options) :
    h.TypesFit c a ↔ h.ElementFits a options ∧ h.ContainerFits c a options := by
  constructor
  · exact fun hfit ↦ hfit.collection hkind options hoptions
  · intro hfits
    constructor
    case reference =>
      intro hreference
      exact absurd (hkind.symm.trans hreference) (by simp)
    case collection =>
      intro _ other hother
      obtain rfl := Except.ok.inj (hoptions.symm.trans hother)
      exact hfits

end Hierarchy

namespace Scope

/-- The same scope without the checks of declared types. -/
def relaxed (s : Scope) : Scope :=
  { s with checks := .basic }

/-- The same scope with the checks of declared types. -/
def tightened (s : Scope) : Scope :=
  { s with checks := .strict }

variable {s : Scope} {c : ClassDecl} {a : EffectiveAssociation} {p : PersistentClass}
  {changes : List SchemaChange}

@[simp] theorem checkTarget_relaxed (options : ReferenceOptions) :
    s.relaxed.checkTarget c a options = .ok () := rfl

@[simp] theorem checkElement_relaxed (options : CollectionOptions) :
    s.relaxed.checkElement c a options = .ok () := rfl

@[simp] theorem checkContainer_relaxed (options : CollectionOptions) :
    s.relaxed.checkContainer c a options = .ok () := rfl

theorem checkTarget_eq_ok_iff (hs : s.checks = .strict) {options : ReferenceOptions} :
    s.checkTarget c a options = .ok () ↔ s.hierarchy.TargetFits a options := by
  rw [checkTarget, Hierarchy.TargetFits, hs]
  cases options.classRef with
  | none => simp
  | some target =>
    cases a.rawType? with
    | none => simp
    | some declared => simp

theorem checkElement_eq_ok_iff (hs : s.checks = .strict) {options : CollectionOptions} :
    s.checkElement c a options = .ok () ↔ s.hierarchy.ElementFits a options := by
  rw [checkElement, Hierarchy.ElementFits, hs]
  cases options.elementClassRef with
  | none => simp
  | some element =>
    cases a.elementType? with
    | none => simp
    | some declared => simp

theorem checkContainer_eq_ok_iff (hs : s.checks = .strict) {options : CollectionOptions} :
    s.checkContainer c a options = .ok () ↔ s.hierarchy.ContainerFits c a options := by
  rw [checkContainer, Hierarchy.ContainerFits, hs]
  cases a.type with
  | none => simp
  | some type => simp

theorem elementClass_eq_ok_iff (hs : s.checks = .strict) {options : CollectionOptions}
    {element : ClassDecl} :
    s.elementClass c a options = .ok element ↔ s.relaxed.elementClass c a options = .ok element ∧
      s.hierarchy.ElementFits a options ∧ s.hierarchy.ContainerFits c a options := by
  rw [← checkElement_eq_ok_iff hs (c := c), ← checkContainer_eq_ok_iff hs]
  refine bind_congr_and fun name _ ↦ bind_congr_and fun found _ ↦ ?_
  simp only [checkElement_relaxed, checkContainer_relaxed, bind_eq_ok_iff, pure_eq_ok_iff]
  constructor
  · rintro ⟨⟨⟩, hfits, ⟨⟩, hcontainer, rfl⟩
    exact ⟨⟨(), trivial, (), trivial, rfl⟩, hfits, hcontainer⟩
  · rintro ⟨⟨-, -, -, -, rfl⟩, hfits, hcontainer⟩
    exact ⟨(), hfits, (), hcontainer, rfl⟩

theorem collectionPlan_eq_ok_iff (hs : s.checks = .strict) (hkind : a.isCollection = true)
    {d : CollectionDescriptor} :
    s.collectionPlan c a = .ok (d, changes) ↔
      s.relaxed.collectionPlan c a = .ok (d, changes) ∧ s.hierarchy.TypesFit c a := by
  -- only the step that finds the element class looks at the checks; all after it is the same
  refine bind_congr_and fun options hoptions ↦ bind_eq_ok_iff_and fun element ↦ ?_
  rw [Hierarchy.typesFit_iff_of_collection hkind hoptions]
  exact elementClass_eq_ok_iff hs

theorem resolveReference_eq_ok_iff (hs : s.checks = .strict) (hkind : a.isCollection = false)
    {d : ReferenceDescriptor} :
    s.resolveReference c a = .ok (d, changes) ↔
      s.relaxed.resolveReference c a = .ok (d, changes) ∧ s.hierarchy.TypesFit c a := by
  refine bind_congr_and fun options hoptions ↦ bind_congr_and fun name _ ↦
    bind_congr_and fun target _ ↦ bind_eq_ok_iff_and fun _ ↦ ?_
  rw [Hierarchy.typesFit_iff_of_reference hkind hoptions, checkTarget_relaxed,
    checkTarget_eq_ok_iff hs]
  simp

theorem associationPlan_eq_ok_iff_relaxed (hs : s.checks = .strict)
    {part : Association × List SchemaChange} :
    s.associationPlan c a = .ok part ↔
      s.relaxed.associationPlan c a = .ok part ∧ s.hierarchy.TypesFit c a := by
  rw [associationPlan, associationPlan]
  by_cases hkind : a.isCollection = true
  · rw [if_pos hkind, if_pos hkind]
    exact bind_eq_ok_iff_and fun _ ↦ collectionPlan_eq_ok_iff hs hkind
  · rw [if_neg hkind, if_neg hkind]
    have hreference : a.isCollection = false := by simpa using hkind
    exact bind_eq_ok_iff_and fun _ ↦ resolveReference_eq_ok_iff hs hreference

theorem classPlan_eq_ok_iff (hs : s.checks = .strict)
    {part : ClassDescriptor × List SchemaChange} :
    s.classPlan p = .ok part ↔ s.relaxed.classPlan p = .ok part ∧
      ∀ a ∈ (s.membersOf p.decl).associations, s.hierarchy.TypesFit p.decl a :=
  bind_eq_ok_iff_and fun _ ↦
    mapM_eq_ok_iff_and fun _ _ _ ↦ associationPlan_eq_ok_iff_relaxed hs

/-- What a scope plans is what it plans without the checks, if the types of all associations of
its classes fit. -/
theorem plan_eq_ok_iff (hs : s.checks = .strict)
    {result : List ClassDescriptor × List SchemaChange} :
    s.plan = .ok result ↔ s.relaxed.plan = .ok result ∧
      ∀ p ∈ s.classes, ∀ a ∈ (s.membersOf p.decl).associations,
        s.hierarchy.TypesFit p.decl a :=
  bind_congr_and fun _ _ ↦ bind_eq_ok_iff_and fun _ ↦
    mapM_eq_ok_iff_and fun _ _ _ ↦ classPlan_eq_ok_iff hs

theorem Built.relaxed {h : Hierarchy} {checks : ChecksMode} (hs : Built h checks s) :
    Built h .basic s.relaxed :=
  ⟨hs.hierarchy, rfl, hs.classes, hs.members, hs.fields⟩

theorem relaxed_tightened (hs : s.checks = .basic) : s.tightened.relaxed = s := by
  rw [tightened, relaxed, ← hs]

theorem Built.tightened {h : Hierarchy} {checks : ChecksMode} (hs : Built h checks s) :
    Built h .strict s.tightened :=
  ⟨hs.hierarchy, rfl, hs.classes, hs.members, hs.fields⟩

end Scope

/-- The types of all associations fit that the persistent classes of a hierarchy have, inherited
ones included. -/
def Hierarchy.AllTypesFit (h : Hierarchy) : Prop :=
  ∀ classes members, h.persistentClasses = .ok classes → h.memberTable = .ok members →
    ∀ p ∈ classes, ∀ a ∈ ((members.lookup p.decl.name).getD {}).associations, h.TypesFit p.decl a

theorem Scope.Built.allTypesFit_iff {h : Hierarchy} {checks : ChecksMode} {s : Scope}
    (hs : Built h checks s) :
    h.AllTypesFit ↔ ∀ p ∈ s.classes, ∀ a ∈ (s.membersOf p.decl).associations,
      s.hierarchy.TypesFit p.decl a := by
  rw [hs.hierarchy]
  constructor
  · exact fun hfit ↦ hfit s.classes s.members hs.classes hs.members
  · intro hfit classes members hclasses hmembers
    obtain rfl := Except.ok.inj (hs.classes.symm.trans hclasses)
    obtain rfl := Except.ok.inj (hs.members.symm.trans hmembers)
    exact hfit

/-- Strict resolution comes to what basic resolution comes to, as long as all types fit. -/
theorem Hierarchy.resolve_strict_eq_ok_iff {h : Hierarchy} {databaseName : String}
    {r : Repository} :
    h.resolve .strict databaseName = .ok r ↔
      h.resolve .basic databaseName = .ok r ∧ h.AllTypesFit := by
  rw [resolve_eq_ok_iff, resolve_eq_ok_iff]
  constructor
  · rintro ⟨s, changes, hbuild, hplan, happly, hname⟩
    have hs := Scope.built_of_build hbuild
    obtain ⟨hplan, hfit⟩ := (Scope.plan_eq_ok_iff hs.checks).mp hplan
    exact ⟨⟨s.relaxed, changes, hs.relaxed.build_eq, hplan, happly, hname⟩,
      hs.allTypesFit_iff.mpr hfit⟩
  · rintro ⟨⟨s, changes, hbuild, hplan, happly, hname⟩, hfit⟩
    have hs := Scope.built_of_build hbuild
    refine ⟨s.tightened, changes, hs.tightened.build_eq, ?_, happly, hname⟩
    rw [Scope.plan_eq_ok_iff hs.tightened.checks, Scope.relaxed_tightened hs.checks]
    exact ⟨hplan, hs.tightened.allTypesFit_iff.mp hfit⟩

theorem resolve_strict_eq_ok_iff {decls : List ClassDecl} {databaseName : String}
    {r : Repository} :
    resolveDeclarations decls .strict databaseName = .ok r ↔
      resolveDeclarations decls .basic databaseName = .ok r ∧
        ∀ h, Hierarchy.ofDeclarations decls = .ok h → h.AllTypesFit := by
  rw [resolveDeclarations_eq_ok_iff, resolveDeclarations_eq_ok_iff]
  constructor
  · rintro ⟨h, hdecls, hresolve⟩
    obtain ⟨hbasic, hfit⟩ := Hierarchy.resolve_strict_eq_ok_iff.mp hresolve
    refine ⟨⟨h, hdecls, hbasic⟩, fun other hother ↦ ?_⟩
    obtain rfl := Except.ok.inj (hdecls.symm.trans hother)
    exact hfit
  · rintro ⟨⟨h, hdecls, hbasic⟩, hfit⟩
    exact ⟨h, hdecls, Hierarchy.resolve_strict_eq_ok_iff.mpr ⟨hbasic, hfit h hdecls⟩⟩

/-- What strict resolution comes to, basic resolution comes to as well, descriptors and schema, and
what basic resolution refuses is refused. -/
theorem strict_refines_basic (decls : List ClassDecl) (databaseName : String) :
    (∀ r, resolveDeclarations decls .strict databaseName = .ok r →
      resolveDeclarations decls .basic databaseName = .ok r) ∧
    ∀ e, resolveDeclarations decls .basic databaseName = .error e →
      ∃ e', resolveDeclarations decls .strict databaseName = .error e' := by
  have hstrict : ∀ r, resolveDeclarations decls .strict databaseName = .ok r →
      resolveDeclarations decls .basic databaseName = .ok r :=
    fun r hr ↦ (resolve_strict_eq_ok_iff.mp hr).1
  refine ⟨hstrict, fun e he ↦ ?_⟩
  cases hresult : resolveDeclarations decls .strict databaseName with
  | error e' => exact ⟨e', rfl⟩
  | ok r => exact absurd ((hstrict r hresult).symm.trans he) (by simp)

/-- Rooms with their shelves, held by a member of some declared type. -/
def shelves (held : String) : List ClassDecl :=
  [{ name := "Room"
     tags := [⟨"ojb.class", []⟩]
     members := [⟨"id", "int", [⟨"ojb.field", [("primarykey", "true")]⟩]⟩,
       ⟨"shelves", held, [⟨"ojb.collection", [("element-class-ref", "Shelf"),
         ("foreignkey", "roomId"), ("collection-class",
           "org.apache.ojb.broker.util.collections.ManageableArrayList")]⟩]⟩] },
   { name := "Shelf"
     tags := [⟨"ojb.class", []⟩]
     members := [⟨"id", "int", [⟨"ojb.field", [("primarykey", "true")]⟩]⟩,
       ⟨"roomId", "int", [⟨"ojb.field", []⟩]⟩,
       ⟨"room", "java.lang.Object", [⟨"ojb.reference", [("class-ref", "Room"),
         ("foreignkey", "roomId")]⟩]⟩] }]

theorem strict_refines_basic_shelves :
    (∃ r, resolveDeclarations (shelves "java.util.List") .strict "house" = .ok r ∧
      resolveDeclarations (shelves "java.util.List") .basic "house" = .ok r) ∧
    ∃ e e', resolveDeclarations ((shelves "java.util.List").drop 1) .basic "house" = .error e ∧
      resolveDeclarations ((shelves "java.util.List").drop 1) .strict "house" = .error e' := by
  have hok : (resolveDeclarations (shelves "java.util.List") .strict "house").toBool = true := by
    decide +kernel
  obtain ⟨r, hr⟩ := exists_eq_ok_of_toBool hok
  have hfails : (resolveDeclarations ((shelves "java.util.List").drop 1) .basic "house").toBool =
      false := by decide +kernel
  obtain ⟨e, he⟩ := exists_eq_error_of_toBool hfails
  obtain ⟨e', he'⟩ := (strict_refines_basic ((shelves "java.util.List").drop 1) "house").2 e he
  exact ⟨⟨r, hr, (strict_refines_basic (shelves "java.util.List") "house").1 r hr⟩, e, e', he, he'⟩

example : (resolveDeclarations (shelves "java.util.Set") .basic "house").toBool = true ∧
    (resolveDeclarations (shelves "java.util.Set") .strict "house").toBool = false := by
  decide +kernel

end ClassMap

import ClassMap.Proofs.Members.Declaring

/-!
Whether a name denotes one member of a class. Fields and associations are kept in two lists, and
each is inherited, replaced and checked for repeated names without a look at the other. So a
declaration takes the place of an inherited member of its own kind, but a field and an association
of one name can stand side by side in a class. `namesOneMember_iff` lists the four ways in which
they come together.
-/

set_option autoImplicit false
set_option relaxedAutoImplicit false

namespace ClassMap

open Traversal

namespace Hierarchy

variable {h : Hierarchy} {c : ClassDecl} {name : String}

/-- A name stands for one member of each class: no class has a field and an association of one name,
and what a class declares itself takes the place of every inherited member of its name. -/
structure NamesOneMember (h : Hierarchy) (table : MemberTable) : Prop where
  apart : ∀ c ∈ h.classes, ∀ name,
    ¬ ((table.membersOf c).hasField name = true ∧ (table.membersOf c).hasAssociation name = true)
  replaces : ∀ c ∈ h.classes, ∀ d ∈ c.mappings, d.kind ≠ .nested →
    (∀ f ∈ (table.membersOf c).fields, f.name = Text.trim d.name → f.declaredIn = c.name) ∧
      ∀ a ∈ (table.membersOf c).associations, a.name = Text.trim d.name → a.declaredIn = c.name

/-- A field of that name comes down to a class, and no patch of the class takes it away. -/
def InheritsField (h : Hierarchy) (c : ClassDecl) (name : String) : Prop :=
  (∃ above ∈ h.inheritedFrom c, h.CarriesField above name) ∧ name ∉ c.inheritedRemovals

/-- An association of that name comes down to a class, and no patch of the class takes it away. -/
def InheritsAssociation (h : Hierarchy) (c : ClassDecl) (name : String) : Prop :=
  (∃ above ∈ h.inheritedFrom c, h.CarriesAssociation above name) ∧
    (name ∉ c.inheritedRemovals ∨
      c.inheritedRemovals.count name = 1 ∧ ∃ other ∈ h.inheritedFrom c, h.CarriesField other name)

/-- A field and an association of one name meet in a class. -/
inductive Collides (h : Hierarchy) (c : ClassDecl) (name : String) : Prop
  | declared (hfield : h.DeclaresField h.CarriesField c name)
      (hassociation : DeclaresAssociation c name) (hkept : name ∉ c.nestedRemovals) :
      Collides h c name
  | fieldDeclared (hfield : h.DeclaresField h.CarriesField c name)
      (hnone : ¬ DeclaresAssociation c name) (hassociation : h.InheritsAssociation c name)
      (hkept : name ∉ c.nestedRemovals ∨
        ∃ d ∈ c.mappings, d.kind = .field ∧ Text.trim d.name = name) : Collides h c name
  | associationDeclared (hassociation : DeclaresAssociation c name)
      (hnone : ¬ h.DeclaresField h.CarriesField c name) (hfield : h.InheritsField c name)
      (hkept : name ∉ c.nestedRemovals) : Collides h c name
  | inherited (hfield : h.InheritsField c name) (hassociation : h.InheritsAssociation c name)
      (hkept : name ∉ c.nestedRemovals) : Collides h c name

theorem carriesField_iff_inherits :
    h.CarriesField c name ↔
      (h.DeclaresField h.CarriesField c name ∨ h.InheritsField c name) ∧
        name ∉ c.nestedRemovals :=
  carriesField_iff

theorem carriesAssociation_iff_inherits :
    h.CarriesAssociation c name ↔ DeclaresAssociation c name ∨ h.InheritsAssociation c name :=
  carriesAssociation_iff

/-- A class that has a field and an association of one name came by them in one of the four ways. -/
theorem collides_of_carries (hfield : h.CarriesField c name)
    (hassociation : h.CarriesAssociation c name) : h.Collides c name := by
  obtain ⟨hfield, hkept⟩ := carriesField_iff_inherits.mp hfield
  rw [carriesAssociation_iff_inherits] at hassociation
  by_cases hdeclares : DeclaresAssociation c name
  · by_cases hdeclaresField : h.DeclaresField h.CarriesField c name
    · exact .declared hdeclaresField hdeclares hkept
    · exact .associationDeclared hdeclares hdeclaresField (hfield.resolve_left hdeclaresField) hkept
  · have hinherits := hassociation.resolve_left hdeclares
    rcases hfield with hfield | hfield
    · exact .fieldDeclared hfield hdeclares hinherits (Or.inl hkept)
    · exact .inherited hfield hinherits hkept

/-- Nothing collides where a name stands for one member. -/
theorem NamesOneMember.not_collides {table : MemberTable} (hnames : h.NamesOneMember table)
    (hmembers : h.memberTable = .ok table) (hc : c ∈ h.classes) : ¬ h.Collides c name := by
  intro hcollides
  have hdescribes : h.Describes c (table.membersOf c) := members_describe hmembers hc
  have hapart : ¬ (h.CarriesField c name ∧ h.CarriesAssociation c name) := by
    rw [← hdescribes.hasField_iff, ← hdescribes.hasAssociation_iff]
    exact hnames.apart c hc name
  cases hcollides with
  | declared hfield hassociation hkept =>
    exact hapart ⟨carriesField_iff_inherits.mpr ⟨Or.inl hfield, hkept⟩,
      carriesAssociation_iff_inherits.mpr (Or.inl hassociation)⟩
  | associationDeclared hassociation _ hfield hkept =>
    exact hapart ⟨carriesField_iff_inherits.mpr ⟨Or.inr hfield, hkept⟩,
      carriesAssociation_iff_inherits.mpr (Or.inl hassociation)⟩
  | inherited hfield hassociation hkept =>
    exact hapart ⟨carriesField_iff_inherits.mpr ⟨Or.inr hfield, hkept⟩,
      carriesAssociation_iff_inherits.mpr (Or.inr hassociation)⟩
  | fieldDeclared hfield hnone hassociation hkept =>
    have hcarries := carriesAssociation_iff_inherits.mpr (Or.inr hassociation)
    rcases hkept with hkept | ⟨d, hd, hkind, rfl⟩
    · exact hapart ⟨carriesField_iff_inherits.mpr ⟨Or.inl hfield, hkept⟩, hcarries⟩
    · -- the association is still there, and it is declared above
      obtain ⟨a, ha, hname⟩ := List.any_eq_true.mp ((hdescribes.hasAssociation_iff _).mpr hcarries)
      have haname : a.name = Text.trim d.name := by simpa using hname
      have hdeclaredIn := (hnames.replaces c hc d hd (by simp [hkind])).2 a ha haname
      have howns := ((declaredIn_eq_iff hmembers hc).associations a ha).mp hdeclaredIn
      exact hnone (haname ▸ howns)

end Hierarchy

open Hierarchy

/-- A name stands for one member exactly when no field and no association meet under one name. -/
theorem namesOneMember_iff {h : Hierarchy} {table : MemberTable}
    (hmembers : h.memberTable = .ok table) :
    h.NamesOneMember table ↔ ∀ c ∈ h.classes, ∀ name, ¬ h.Collides c name := by
  refine ⟨fun hnames c hc name ↦ hnames.not_collides hmembers hc, fun hnone ↦ ?_⟩
  have hfields : ∀ c ∈ h.classes, ∀ name,
      (table.membersOf c).hasField name = true → h.CarriesField c name :=
    fun c hc name ↦ ((members_describe hmembers hc).hasField_iff name).mp
  have hassociations : ∀ c ∈ h.classes, ∀ name,
      (table.membersOf c).hasAssociation name = true → h.CarriesAssociation c name :=
    fun c hc name ↦ ((members_describe hmembers hc).hasAssociation_iff name).mp
  constructor
  case apart =>
    intro c hc name hboth
    exact hnone c hc name
      (collides_of_carries (hfields c hc name hboth.1) (hassociations c hc name hboth.2))
  case replaces =>
    intro c hc d hd hnested
    have hkind : d.kind = .field ∨ d.kind.isAssociation = true := by
      cases hkind : d.kind <;> simp_all [MappingKind.isAssociation]
    have hlabels := declaredIn_eq_iff hmembers hc
    constructor
    · intro f hf hname
      refine (hlabels.fields f hf).mpr ?_
      rw [hname]
      rcases hkind with hfield | hassociation
      · exact ⟨d, hd, Or.inl ⟨hfield, rfl⟩⟩
      · have hthere := hfields c hc (Text.trim d.name)
          (List.any_eq_true.mpr ⟨f, hf, by simpa using hname⟩)
        have hdeclares : DeclaresAssociation c (Text.trim d.name) := ⟨d, hd, hassociation, rfl⟩
        exact absurd (collides_of_carries hthere
          (carriesAssociation_iff_inherits.mpr (Or.inl hdeclares))) (hnone c hc _)
    · intro a ha hname
      refine (hlabels.associations a ha).mpr ?_
      rw [hname]
      by_contra hother
      rcases hkind with hfield | hassociation
      · have hthere := hassociations c hc (Text.trim d.name)
          (List.any_eq_true.mpr ⟨a, ha, by simpa using hname⟩)
        exact hnone c hc _ (.fieldDeclared ⟨d, hd, Or.inl ⟨hfield, rfl⟩⟩ hother
          ((carriesAssociation_iff_inherits.mp hthere).resolve_left hother)
          (Or.inr ⟨d, hd, hfield, rfl⟩))
      · exact hother ⟨d, hd, hassociation, rfl⟩

/-- A subclass declares a reference under the name of a field that it inherits. -/
def bossTwice : List ClassDecl :=
  [{ name := "Base"
     tags := [⟨"ojb.class", []⟩]
     members := [⟨"id", "int", [⟨"ojb.field", [("primarykey", "true")]⟩]⟩,
       ⟨"boss", "int", [⟨"ojb.field", []⟩]⟩] },
   { name := "Sub"
     superclass := some "Base"
     tags := [⟨"ojb.class", []⟩]
     members := [⟨"boss", "Base", [⟨"ojb.reference", [("foreignkey", "id")]⟩]⟩] }]

theorem namesOneMember_iff_bossTwice :
    ∃ h table, Hierarchy.ofDeclarations bossTwice = .ok h ∧ h.memberTable = .ok table ∧
      (h.NamesOneMember table ↔ ∀ c ∈ h.classes, ∀ name, ¬ h.Collides c name) := by
  have hok : (do
      let h ← Hierarchy.ofDeclarations bossTwice
      return (← h.memberTable).length) = .ok 2 := by
    decide +kernel
  obtain ⟨h, hh, hrest⟩ := bind_eq_ok_iff.mp hok
  obtain ⟨table, htable, -⟩ := bind_eq_ok_iff.mp hrest
  exact ⟨h, table, hh, htable, namesOneMember_iff htable⟩

/-- The subclass has the reference, and the field of its name as well. -/
theorem not_namesOneMember_bossTwice :
    ∃ h table, Hierarchy.ofDeclarations bossTwice = .ok h ∧ h.memberTable = .ok table ∧
      ¬ h.NamesOneMember table := by
  have hboth : (do
      let h ← Hierarchy.ofDeclarations bossTwice
      let table ← h.memberTable
      return h.classes.any fun c ↦
        (table.membersOf c).hasField "boss" && (table.membersOf c).hasAssociation "boss") =
        .ok true := by
    decide +kernel
  obtain ⟨h, hh, hrest⟩ := bind_eq_ok_iff.mp hboth
  obtain ⟨table, htable, hpure⟩ := bind_eq_ok_iff.mp hrest
  refine ⟨h, table, hh, htable, fun hnames ↦ ?_⟩
  obtain ⟨c, hc, hmembers⟩ := List.any_eq_true.mp (pure_eq_ok_iff.mp hpure)
  exact hnames.apart c hc "boss" (Bool.and_eq_true_iff.mp hmembers)

end ClassMap

import ClassMap.Proofs.Members.Carried
import ClassMap.Proofs.Resolution.Scope

/-!
How far the removal of an inherited member reaches. A class that is told to drop a name suppresses
it for every class below, until one declares the name again. What is merged from several supertypes
is merged field by field and suppressed name by suppressed name, so a class that comes to the name
on a second way has both. `suppression_reaches_iff` says that this, and a class that drops a name
and declares it itself, are the only ways in which a removal does not reach.
-/

set_option autoImplicit false
set_option relaxedAutoImplicit false

namespace ClassMap

open Traversal

/-- A member of that name is there, a field or an association. -/
def EffectiveMembers.Has (m : EffectiveMembers) (name : String) : Prop :=
  m.hasField name = true ∨ m.hasAssociation name = true

namespace Hierarchy

/-- A class takes over the members of one directly above it. -/
def TakesOver (h : Hierarchy) (c above : ClassDecl) : Prop :=
  above ∈ h.inheritedFrom c

/-- A class is below another, and neither it nor a class on the way declares the name. -/
structure Undeclared (h : Hierarchy) (name : String) (d a : ClassDecl) : Prop where
  below : Relation.TransGen h.TakesOver d a
  none_declares : ∀ e, Relation.ReflTransGen h.TakesOver d e → Relation.TransGen h.TakesOver e a →
    ¬ h.Declares e name

/-- The removal of an inherited member holds for all descendants: they do not have it, no class has
a name that is suppressed in it, and a reference to the removed name is a structural conflict. -/
structure SuppressionReaches (h : Hierarchy) (table : MemberTable) : Prop where
  gone : ∀ a ∈ h.classes, ∀ name ∈ a.inheritedRemovals, ∀ d ∈ h.classes, h.Undeclared name d a →
    ¬ (table.membersOf d).Has name
  disjoint : ∀ c ∈ h.classes, ∀ name, (table.membersOf c).isSuppressed name = true →
    ¬ (table.membersOf c).Has name
  refused : ∀ checks s, Scope.build h checks = .ok s → ∀ a ∈ h.classes,
    ∀ name ∈ a.inheritedRemovals, ∀ d ∈ h.classes, h.Undeclared name d a →
    ∀ reference use, Text.trim reference = name →
      ∃ e, s.field d reference use = .error e ∧ e.kind = .structuralConflict

variable {h : Hierarchy} {a c d above : ClassDecl} {table : MemberTable} {name : String}

/-- What goes down from a class to those that inherit from it and do not declare the name. -/
theorem Undeclared.induct {motive : ClassDecl → Prop} (hd : h.Undeclared name d a)
    (hstep : ∀ c above, above ∈ h.inheritedFrom c → ¬ h.Declares c name → motive above → motive c)
    (ha : motive a) : motive d := by
  obtain ⟨hbelow, hnone⟩ := hd
  induction hbelow using Relation.TransGen.head_induction_on with
  | single htakes => exact hstep _ a htakes (hnone _ .refl (.single htakes)) ha
  | head htakes hbelow ih =>
    refine hstep _ _ htakes (hnone _ .refl (.head htakes hbelow)) (ih fun e he ↦ ?_)
    exact hnone e (.head htakes he)

theorem suppressed_of_undeclared (ha : h.Suppressed a name) (hd : h.Undeclared name d a) :
    h.Suppressed d name :=
  Undeclared.induct (motive := fun c ↦ h.Suppressed c name) hd
    (fun _ _ habove hown hname ↦ .inherited habove hname hown) ha

/-- A name that comes down to a class stays, unless the class takes it away. -/
theorem carries_or_suppressed_of_above (habove : above ∈ h.inheritedFrom c)
    (hown : ¬ h.Declares c name) (hname : h.Carries above name ∨ h.Suppressed above name) :
    h.Carries c name ∨ h.Suppressed c name := by
  by_cases hremoved : name ∈ c.inheritedRemovals
  · exact Or.inr (.removed hremoved hown)
  by_cases hnested : name ∈ c.nestedRemovals
  · exact Or.inr (.nested hnested)
  rcases hname with (hfield | hassociation) | hsuppressed
  · exact Or.inl (Or.inl (.inherited habove hfield hremoved hnested))
  · exact Or.inl (Or.inr (.inherited habove hassociation hremoved))
  · exact Or.inr (.inherited habove hsuppressed hown)

/-- A class that is told to drop a name suppresses it or has it of its own. -/
theorem carries_or_suppressed_of_removed (hname : name ∈ a.inheritedRemovals) :
    h.Carries a name ∨ h.Suppressed a name := by
  by_cases hown : h.Declares a name
  · by_cases hnested : name ∈ a.nestedRemovals
    · exact Or.inr (.nested hnested)
    rcases hown with hfield | hassociation
    · exact Or.inl (Or.inl (carriesField_iff.mpr ⟨Or.inl hfield, hnested⟩))
    · exact Or.inl (Or.inr (.declared hassociation))
  · exact Or.inr (.removed hname hown)

/-- Below a class that drops a name, the name comes down as a member or as suppressed. -/
theorem suppressed_of_removed_above (hname : name ∈ a.inheritedRemovals)
    (hd : h.Undeclared name d a) (hcarries : ¬ h.Carries d name) : h.Suppressed d name := by
  have hdown : h.Carries d name ∨ h.Suppressed d name :=
    Undeclared.induct (motive := fun c ↦ h.Carries c name ∨ h.Suppressed c name) hd
      (fun _ _ habove hown ↦ carries_or_suppressed_of_above habove hown)
      (carries_or_suppressed_of_removed hname)
  exact hdown.resolve_left hcarries

theorem Describes.has_iff {m : EffectiveMembers} (hm : h.Describes c m) :
    m.Has name ↔ h.Carries c name :=
  or_congr (hm.hasField_iff name) (hm.hasAssociation_iff name)

end Hierarchy

open Hierarchy

/-- Removals reach all descendants exactly when no class has a name on one way that is suppressed
for it on another, and no class that drops a name and declares it itself passes it on. -/
theorem suppression_reaches_iff {h : Hierarchy} {table : MemberTable}
    (hmembers : h.memberTable = .ok table) :
    h.SuppressionReaches table ↔
      (∀ c ∈ h.classes, ∀ name, h.Suppressed c name → ¬ h.Carries c name) ∧
        ∀ a ∈ h.classes, ∀ name ∈ a.inheritedRemovals, h.Declares a name →
          ∀ d ∈ h.classes, h.Undeclared name d a → ¬ h.Carries d name := by
  have hdescribes : ∀ c ∈ h.classes, h.Describes c (table.membersOf c) :=
    fun c hc ↦ members_describe hmembers hc
  constructor
  · intro hreaches
    constructor
    · intro c hc name hsuppressed hcarries
      exact hreaches.disjoint c hc name (((hdescribes c hc).isSuppressed_iff name).mpr hsuppressed)
        ((hdescribes c hc).has_iff.mpr hcarries)
    · intro a ha name hname _ d hd hundeclared hcarries
      exact hreaches.gone a ha name hname d hd hundeclared ((hdescribes d hd).has_iff.mpr hcarries)
  · intro hconditions
    obtain ⟨hdisjoint, hpassed⟩ := hconditions
    have hgone : ∀ a ∈ h.classes, ∀ name ∈ a.inheritedRemovals, ∀ d ∈ h.classes,
        h.Undeclared name d a → ¬ h.Carries d name := by
      intro a ha name hname d hd hundeclared
      by_cases hown : h.Declares a name
      · exact hpassed a ha name hname hown d hd hundeclared
      · exact hdisjoint d hd name (suppressed_of_undeclared (.removed hname hown) hundeclared)
    constructor
    · intro a ha name hname d hd hundeclared hhas
      exact hgone a ha name hname d hd hundeclared ((hdescribes d hd).has_iff.mp hhas)
    · intro c hc name hsuppressed hhas
      exact hdisjoint c hc name (((hdescribes c hc).isSuppressed_iff name).mp hsuppressed)
        ((hdescribes c hc).has_iff.mp hhas)
    · intro checks s hs a ha name hname d hd hundeclared reference use href
      have hbuilt := Scope.built_of_build hs
      have htable : s.members = table := Except.ok.inj (hbuilt.members.symm.trans hmembers)
      have hmembersOf : s.membersOf d = table.membersOf d := by
        rw [Scope.membersOf, htable, MemberTable.membersOf]
      have hcarries : ¬ h.Carries d name := hgone a ha name hname d hd hundeclared
      have hsuppressed : h.Suppressed d name :=
        suppressed_of_removed_above hname hundeclared hcarries
      refine ⟨_, hbuilt.field_eq_error ?_ ?_ use, rfl⟩
      · rw [href, hmembersOf, (hdescribes d hd).isSuppressed_iff]
        exact hsuppressed
      · rw [href, hmembersOf, (hdescribes d hd).hasField_iff]
        exact fun hfield ↦ hcarries (Or.inl hfield)

/-- A base class drops a name of an interface that its subclass implements once more. -/
def listedAgain : List ClassDecl :=
  [{ name := "Named"
     kind := .interface
     members := [⟨"name", "java.lang.String", [⟨"ojb.field", []⟩]⟩] },
   { name := "Base"
     interfaces := ["Named"]
     tags := [⟨"ojb.class", []⟩,
       ⟨"ojb.modify-inherited", [("name", "name"), ("ignore", "true")]⟩] },
   { name := "Leaf"
     superclass := some "Base"
     interfaces := ["Named"] }]

theorem suppression_reaches_iff_listedAgain :
    ∃ h table, Hierarchy.ofDeclarations listedAgain = .ok h ∧ h.memberTable = .ok table ∧
      (h.SuppressionReaches table ↔
        (∀ c ∈ h.classes, ∀ name, h.Suppressed c name → ¬ h.Carries c name) ∧
          ∀ a ∈ h.classes, ∀ name ∈ a.inheritedRemovals, h.Declares a name →
            ∀ d ∈ h.classes, h.Undeclared name d a → ¬ h.Carries d name) := by
  have hok : (do
      let h ← Hierarchy.ofDeclarations listedAgain
      return (← h.memberTable).length) = .ok 3 := by
    decide +kernel
  obtain ⟨h, hh, hrest⟩ := bind_eq_ok_iff.mp hok
  obtain ⟨table, htable, -⟩ := bind_eq_ok_iff.mp hrest
  exact ⟨h, table, hh, htable, suppression_reaches_iff htable⟩

/-- The leaf has the name by its own way to the interface, and has it suppressed by its base. -/
theorem not_suppression_reaches_listedAgain :
    ∃ h table, Hierarchy.ofDeclarations listedAgain = .ok h ∧ h.memberTable = .ok table ∧
      ¬ h.SuppressionReaches table := by
  have hboth : (do
      let h ← Hierarchy.ofDeclarations listedAgain
      let table ← h.memberTable
      return h.classes.any fun c ↦
        (table.membersOf c).isSuppressed "name" && (table.membersOf c).hasField "name") =
        .ok true := by
    decide +kernel
  obtain ⟨h, hh, hrest⟩ := bind_eq_ok_iff.mp hboth
  obtain ⟨table, htable, hpure⟩ := bind_eq_ok_iff.mp hrest
  refine ⟨h, table, hh, htable, fun hreaches ↦ ?_⟩
  obtain ⟨c, hc, hnames⟩ := List.any_eq_true.mp (pure_eq_ok_iff.mp hpure)
  obtain ⟨hsuppressed, hfield⟩ := Bool.and_eq_true_iff.mp hnames
  exact hreaches.disjoint c hc "name" hsuppressed (Or.inl hfield)

end ClassMap

import ClassMap.Proofs.Members.Recursion

/-!
The table of effective members against the plain recursion that keeps nothing. Whatever order the
classes are taken in, the table has for each of them what the recursion comes to, and the
computation fails where the recursion fails first; the bound on its depth is never what ends it. It
succeeds on acyclic dependencies only, and a class that it reports for a cycle depends on itself
(`computesPlainly_of_perm`).
-/

set_option autoImplicit false
set_option relaxedAutoImplicit false

namespace ClassMap

open Traversal

namespace Hierarchy

/-- The members of some classes, computed one after the other with what is there already. -/
def memberTableFrom (h : Hierarchy) (depth : Nat) (order : List ClassDecl) :
    Except MappingError MemberTable :=
  order.foldlM (fun table c ↦ do return (← h.computeMembers depth [] table c).2) []

-- this is how the members of all classes are computed, with the classes as they are declared
example (h : Hierarchy) : h.memberTable = h.memberTableFrom h.depth h.classes := rfl

/-- Taking the classes in some order comes to what the plain recursion comes to, and errors for
cycles are about cycles. -/
structure ComputesPlainly (h : Hierarchy) (order : List ClassDecl) : Prop where
  bounded : ∀ depth, h.depth ≤ depth →
    h.memberTableFrom depth order = h.memberTableFrom h.depth order ∧
      ∀ c ∈ h.classes, h.membersOf depth [] c = h.membersOf h.depth [] c
  plain : (h.memberTableFrom h.depth order).map (fun table ↦ order.map table.membersOf) =
    order.mapM (h.membersOf h.depth [])
  acyclic : ∀ table, h.memberTableFrom h.depth order = .ok table →
    ∀ c, ¬ Relation.TransGen h.DependsOn c c
  entry : ∀ table, h.memberTableFrom h.depth order = .ok table → ∀ c ∈ h.classes,
    ∃ m, table.lookup c.name = some m ∧ h.membersOf h.depth [] c = .ok m ∧
      h.membersBy (h.membersOf h.depth []) c = .ok m
  cycle : ∀ name, h.memberTableFrom h.depth order = .error ⟨name, .nestedCycle⟩ →
    ∃ c ∈ h.classes, c.name = name ∧ Relation.TransGen h.DependsOn c c

variable {h : Hierarchy} {c d : ClassDecl} {table : MemberTable} {order : List ClassDecl}
  {depth : Nat}

theorem usable_nil (htable : Grounded h table) : h.Usable [] table :=
  ⟨htable, fun _ hname ↦ absurd hname List.not_mem_nil⟩

theorem memberTableFrom_eq_of_le (hdepth : h.depth ≤ depth) (horder : ∀ c ∈ order, c ∈ h.classes) :
    h.memberTableFrom depth order = h.memberTableFrom h.depth order := by
  refine foldlM_congr fun c hc table ↦ ?_
  rw [computeMembers_eq_of_underway (.start hdepth) (underway_nil h) (horder c hc)]

/-- Some classes taken in order, from any table there is. -/
theorem map_foldlM_computeMembers (horder : ∀ c ∈ order, c ∈ h.classes)
    (htable : Grounded h table) :
    (order.foldlM (fun table c ↦ do return (← h.computeMembers h.depth [] table c).2) table).map
        (fun last ↦ order.map (MemberTable.membersOf last)) =
      order.mapM (h.membersOf h.depth []) := by
  induction order generalizing table with
  | nil => rfl
  | cons c rest ih =>
    have hc : c ∈ h.classes := horder c List.mem_cons_self
    have hrest : ∀ d ∈ rest, d ∈ h.classes := fun d hd ↦ horder d (List.mem_cons_of_mem c hd)
    have hsame := computeMembers_follows (underway_nil h) hc table htable (usable_nil htable).2
    rw [List.foldlM_cons, List.mapM_cons, ← hsame]
    cases hcompute : h.computeMembers h.depth [] table c with
    | error e => rfl
    | ok result =>
      obtain ⟨m, grown⟩ := result
      obtain ⟨hgrows, hlookup⟩ := computeMembers_eq_ok hc htable hcompute
      have hlater := ih hrest hgrows.grounded
      cases hfold : rest.foldlM
        (fun table c ↦ do return (← h.computeMembers h.depth [] table c).2) grown with
      | error e =>
        rw [hfold] at hlater
        simp only [bind, Except.bind, Except.map, pure, Except.pure] at hlater hfold ⊢
        rw [hfold, ← hlater]
      | ok last =>
        -- the rest of the order leaves the entry of this class as it is
        have hkept : MemberTable.membersOf last c = m :=
          membersOf_eq_of_lookup ((grows_foldlM hrest hgrows.grounded hfold).1.retains _ _ hlookup)
        rw [hfold] at hlater
        simp only [bind, Except.bind, Except.map, pure, Except.pure] at hlater hfold ⊢
        rw [hfold, ← hlater, ← hkept]
        rfl

/-- What a table with an entry for every class says of the recursion. -/
theorem membersBy_of_grounded (htable : Grounded h table) (hall : ∀ c ∈ h.classes, table.Has c)
    (hc : c ∈ h.classes) :
    h.membersOf h.depth [] c = .ok (table.membersOf c) ∧
      h.membersBy (h.membersOf h.depth []) c = .ok (table.membersOf c) := by
  have hplain : ∀ d ∈ h.classes, h.membersOf h.depth [] d = .ok (table.membersOf d) :=
    fun d hd ↦ htable.membersOf_eq_ok (underway_nil h) (usable_nil htable).2 hd (hall d hd)
  refine ⟨hplain c hc, ?_⟩
  rw [membersBy_eq_stepMembers fun d hd ↦ hplain d hd.mem_classes]
  exact (htable.step hc (hall c hc)).2

/-- The table of the declared classes is what the recursion comes to for each of them. -/
theorem memberTable_plain (h : Hierarchy) :
    h.memberTable.map (fun table ↦ h.classes.map table.membersOf) =
      h.classes.mapM (h.membersOf h.depth []) :=
  map_foldlM_computeMembers (fun _ hc ↦ hc) .nil

theorem membersOf_of_memberTable (htable : h.memberTable = .ok table) (hc : c ∈ h.classes) :
    h.membersOf h.depth [] c = .ok (table.membersOf c) := by
  obtain ⟨hgrows, hhas⟩ := grows_foldlM (fun _ hc ↦ hc) .nil htable
  exact (membersBy_of_grounded hgrows.grounded hhas hc).1

/-- A class that depends on itself is a declared one. -/
theorem mem_classes_of_transGen (hcycle : Relation.TransGen h.DependsOn c d) : d ∈ h.classes := by
  cases hcycle with
  | single hd => exact hd.mem_classes
  | tail _ hd => exact hd.mem_classes

end Hierarchy

open Hierarchy

/-- The table of members is the plain recursion, in whatever order the classes are taken. -/
theorem computesPlainly_of_perm {h : Hierarchy} {order : List ClassDecl}
    (horder : order.Perm h.classes) : h.ComputesPlainly order := by
  have hdeclared : ∀ c ∈ order, c ∈ h.classes := fun c hc ↦ horder.mem_iff.mp hc
  have hplain := map_foldlM_computeMembers hdeclared .nil
  have hgrounded : ∀ table, h.memberTableFrom h.depth order = .ok table →
      Grounded h table ∧ ∀ c ∈ h.classes, table.Has c := by
    intro table htable
    obtain ⟨hgrows, hhas⟩ := grows_foldlM hdeclared .nil htable
    exact ⟨hgrows.grounded, fun c hc ↦ hhas c (horder.mem_iff.mpr hc)⟩
  constructor
  case bounded =>
    intro depth hdepth
    exact ⟨memberTableFrom_eq_of_le hdepth hdeclared, fun c hc ↦
      membersOf_eq_of_underway (.start hdepth) (underway_nil h) hc⟩
  case plain => exact hplain
  case acyclic =>
    intro table htable c hcycle
    obtain ⟨htable, hall⟩ := hgrounded table htable
    have hc := mem_classes_of_transGen hcycle
    exact htable.not_transGen hc (hall c hc) hcycle
  case entry =>
    intro table htable c hc
    obtain ⟨htable, hall⟩ := hgrounded table htable
    obtain ⟨m, hm⟩ := hall c hc
    have hmembers := membersBy_of_grounded htable hall hc
    rw [membersOf_eq_of_lookup hm] at hmembers
    exact ⟨m, hm, hmembers⟩
  case cycle =>
    intro name herror
    -- the order fails with an error of the recursion at one of its classes
    have hfails : order.mapM (h.membersOf h.depth []) = .error ⟨name, .nestedCycle⟩ := by
      rw [← hplain]
      change (h.memberTableFrom h.depth order).map _ = _
      rw [herror]
      rfl
    obtain ⟨c, hc, hmembers⟩ := exists_error_of_mapM hfails
    obtain ⟨d, hd, hname, hcycle⟩ := exists_transGen_of_membersOf_error (underway_nil h)
      (fun _ hmem ↦ absurd hmem List.not_mem_nil) (hdeclared c hc) hmembers rfl
    exact ⟨d, hd, hname, hcycle⟩

/-- Two ways up to one class, and a member that takes in a class further down the list. -/
def stores : List ClassDecl :=
  [{ name := "Item"
     members := [⟨"id", "int", [⟨"ojb.field", [("primarykey", "true")]⟩]⟩] },
   { name := "Priced"
     kind := .interface
     interfaces := ["Item"] },
   { name := "Crate"
     superclass := some "Item"
     interfaces := ["Priced"]
     tags := [⟨"ojb.class", []⟩]
     members := [⟨"place", "Place", [⟨"ojb.nested", []⟩]⟩] },
   { name := "Place"
     members := [⟨"shelf", "int", [⟨"ojb.field", []⟩]⟩] }]

theorem computesPlainly_of_perm_stores :
    ∃ h table, Hierarchy.ofDeclarations stores = .ok h ∧
      h.memberTableFrom h.depth h.classes.reverse = .ok table ∧
      h.classes.reverse.Perm h.classes ∧ h.ComputesPlainly h.classes.reverse := by
  have hok : (do
      let h ← Hierarchy.ofDeclarations stores
      return (← h.memberTableFrom h.depth h.classes.reverse).length) = .ok 4 := by
    decide +kernel
  obtain ⟨h, hh, hrest⟩ := bind_eq_ok_iff.mp hok
  obtain ⟨table, htable, -⟩ := bind_eq_ok_iff.mp hrest
  have hperm : h.classes.reverse.Perm h.classes := List.reverse_perm h.classes
  exact ⟨h, table, hh, htable, hperm, computesPlainly_of_perm hperm⟩

end ClassMap

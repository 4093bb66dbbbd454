import ClassMap.Proofs.Hierarchy.Navigation
import ClassMap.Proofs.Resolution.Faults

/-!
Cycles of supertypes. The search for them goes on from class to class as long as it meets a class
that it has not met, so on every hierarchy it comes to an end (`Walk.searches_explore`). It meets a
class again below itself exactly when some class is above itself, and the class it reports is one of
those. A resolution reports such a class before it looks at anything else, and reports a cycle of
supertypes at no other place (`supertypeCycles_exact`).
-/

set_option autoImplicit false
set_option relaxedAutoImplicit false

namespace ClassMap

open Traversal

namespace Walk

variable {α : Type} {next : α → List α} {nodes path done xs : List α} {x : α} {depth : Nat}

/-- A search through some nodes, below those on its path and after those it is done with, and what
it comes to: all the nodes it is done with then, or a node that was met again below itself. -/
inductive Searches (next : α → List α) : List α → List α → List α → Except α (List α) → Prop
  | nil {path done : List α} : Searches next path done [] (.ok done)
  | skip {path done xs : List α} {x : α} {found : Except α (List α)} (hdone : x ∈ done)
      (hrest : Searches next path done xs found) : Searches next path done (x :: xs) found
  | again {path done xs : List α} {x : α} (hdone : x ∉ done) (hpath : x ∈ path) :
      Searches next path done (x :: xs) (.error x)
  | found {path done xs : List α} {x y : α} (hdone : x ∉ done) (hpath : x ∉ path)
      (hbelow : Searches next (x :: path) done (next x) (.error y)) :
      Searches next path done (x :: xs) (.error y)
  | finish {path done later xs : List α} {x : α} {found : Except α (List α)} (hdone : x ∉ done)
      (hpath : x ∉ path) (hbelow : Searches next (x :: path) done (next x) (.ok later))
      (hrest : Searches next path (x :: later) xs found) : Searches next path done (x :: xs) found

/-- The node that was met again, if one was. -/
def met? : Except α (List α) → Option α
  | .error x => some x
  | .ok _ => none

variable [DecidableEq α]

/-- The bound on the depth never ends a search: the nodes on the path are all different. -/
theorem searches_explore (hnext : ∀ x, ∀ y ∈ next x, y ∈ nodes) (hnodup : path.Nodup)
    (hpath : ∀ p ∈ path, p ∈ nodes) (hdepth : nodes.length < depth + path.length)
    (hxs : ∀ x ∈ xs, x ∈ nodes) :
    Searches next path done xs (xs.foldlM (explore next depth path) done) := by
  induction depth generalizing path done xs with
  | zero =>
    have hlength : path.length ≤ nodes.length :=
      (List.subperm_of_subset hnodup hpath).length_le
    omega
  | succ depth ih =>
    -- the successors of one node, with the depth below it fixed
    induction xs generalizing done with
    | nil => exact .nil
    | cons x rest ihs =>
      obtain ⟨hx, hrest⟩ := List.forall_mem_cons.mp hxs
      rw [List.foldlM_cons, explore]
      by_cases hdone : x ∈ done
      · rw [if_pos hdone]
        exact .skip hdone (ihs hrest)
      · rw [if_neg hdone]
        by_cases hagain : x ∈ path
        · rw [if_pos hagain]
          exact .again hdone hagain
        · rw [if_neg hagain]
          have hbelow : Searches next (x :: path) done (next x)
              ((next x).foldlM (explore next depth (x :: path)) done) := by
            refine ih (List.nodup_cons.mpr ⟨hagain, hnodup⟩) ?_ ?_ (hnext x)
            · exact List.forall_mem_cons.mpr ⟨hx, hpath⟩
            · rw [List.length_cons]
              omega
          cases hfound : (next x).foldlM (explore next depth (x :: path)) done with
          | error y =>
            rw [hfound] at hbelow
            exact .found hdone hagain hbelow
          | ok later =>
            rw [hfound] at hbelow
            exact .finish hdone hagain hbelow (ihs hrest)

theorem exists_searches (hnext : ∀ x, ∀ y ∈ next x, y ∈ nodes) (hdepth : nodes.length < depth) :
    ∃ found, Searches next [] [] nodes found ∧ findCycle? next depth nodes = met? found := by
  refine ⟨nodes.foldlM (explore next depth []) [], ?_, ?_⟩
  · exact searches_explore hnext List.nodup_nil (by simp) (by simpa using hdepth) fun _ hx ↦ hx
  · unfold findCycle?
    cases nodes.foldlM (explore next depth []) [] with
    | error y => rfl
    | ok done => rfl

theorem leads_of_findCycle? (h : findCycle? next depth nodes = some x) : Leads next x x := by
  unfold findCycle? at h
  split at h
  case h_1 y hsearch =>
    obtain rfl := Option.some.inj h
    obtain ⟨z, -, done, herror⟩ := exists_error_of_foldlM hsearch
    exact leads_of_explore (by simp) herror
  case h_2 => exact absurd h (by simp)

end Walk

namespace Hierarchy

variable {h : Hierarchy} {c : ClassDecl}

/-- What is found of the cycles of a hierarchy, and what a resolution makes of it. -/
structure ReportsCycles (h : Hierarchy) : Prop where
  ends : ∃ found, Walk.Searches h.supertypes [] [] h.classes found ∧
    h.findSupertypeCycle? = Walk.met? found
  eq_none_iff : h.findSupertypeCycle? = none ↔ ∀ c ∈ h.classes, ¬ h.IsBelow c c
  onCycle : ∀ c, h.findSupertypeCycle? = some c → c ∈ h.classes ∧ h.IsBelow c c
  refused : (∃ c ∈ h.classes, h.IsBelow c c) → ∀ checks databaseName, ∃ e,
    h.resolve checks databaseName = .error e ∧ e.kind = .structuralConflict ∧
      e.cause = .supertypeCycle ∧ ∃ c ∈ h.classes, c.name = e.className ∧ h.IsBelow c c
  spared : (∀ c ∈ h.classes, ¬ h.IsBelow c c) → ∀ checks databaseName e,
    h.resolve checks databaseName = .error e → e.cause ≠ .supertypeCycle

theorem isBelow_of_findSupertypeCycle? (hc : h.findSupertypeCycle? = some c) :
    c ∈ h.classes ∧ h.IsBelow c c := by
  have hcycle : Walk.Leads h.supertypes c c := Walk.leads_of_findCycle? hc
  obtain ⟨d, -, hlast⟩ := Relation.TransGen.tail'_iff.mp hcycle
  have hmem : c ∈ h.classes := (mem_supertypes hlast).1
  exact ⟨hmem, (leads_supertypes_iff hmem hmem).mp hcycle⟩

theorem findSupertypeCycle?_eq_none_iff :
    h.findSupertypeCycle? = none ↔ ∀ c ∈ h.classes, ¬ h.IsBelow c c := by
  have hnext : ∀ c, ∀ d ∈ h.supertypes c, d ∈ h.classes := fun _ _ hd ↦ (mem_supertypes hd).1
  constructor
  · intro hnone c hc hbelow
    have hacyclic := (Walk.findCycle?_eq_none_iff hnext (Nat.lt_succ_self _)).mp hnone
    exact hacyclic c ((leads_supertypes_iff hc hc).mpr hbelow)
  · intro hacyclic
    cases hfound : h.findSupertypeCycle? with
    | none => rfl
    | some c =>
      obtain ⟨hc, hbelow⟩ := isBelow_of_findSupertypeCycle? hfound
      exact absurd hbelow (hacyclic c hc)

/-- The check comes first, so nothing else is reported of a hierarchy that has a cycle. -/
theorem resolve_of_findSupertypeCycle? (hc : h.findSupertypeCycle? = some c) (checks : ChecksMode)
    (databaseName : String) : h.resolve checks databaseName = .error ⟨c.name, .supertypeCycle⟩ := by
  have hchecked : h.checkAcyclic = .error ⟨c.name, .supertypeCycle⟩ := by rw [checkAcyclic, hc]
  simp only [resolve, Scope.build, persistentClasses, hchecked]
  rfl

theorem reportsCycles (h : Hierarchy) : h.ReportsCycles := by
  constructor
  case ends =>
    exact Walk.exists_searches (fun _ _ hd ↦ (mem_supertypes hd).1) (Nat.lt_succ_self _)
  case eq_none_iff => exact findSupertypeCycle?_eq_none_iff
  case onCycle => exact fun c hc ↦ isBelow_of_findSupertypeCycle? hc
  case refused =>
    intro hcycle checks databaseName
    cases hfound : h.findSupertypeCycle? with
    | none =>
      obtain ⟨c, hc, hbelow⟩ := hcycle
      exact absurd hbelow (findSupertypeCycle?_eq_none_iff.mp hfound c hc)
    | some c =>
      obtain ⟨hc, hbelow⟩ := isBelow_of_findSupertypeCycle? hfound
      exact ⟨⟨c.name, .supertypeCycle⟩, resolve_of_findSupertypeCycle? hfound checks databaseName,
        rfl, rfl, c, hc, rfl, hbelow⟩
  case spared =>
    intro hacyclic checks databaseName e he
    have hchecked : h.checkAcyclic = .ok () := by
      rw [checkAcyclic, findSupertypeCycle?_eq_none_iff.mpr hacyclic]
    exact h.failsBy_resolve hchecked checks databaseName e he

end Hierarchy

/-- Declarations with different names are a hierarchy, and whether it has a cycle of supertypes is
found out in any case and decides whether a resolution reports one. -/
theorem supertypeCycles_exact {decls : List ClassDecl} (hnodup : (decls.map (·.name)).Nodup) :
    ∃ h, Hierarchy.ofDeclarations decls = .ok h ∧ h.classes = decls ∧ h.ReportsCycles ∧
      ∀ checks databaseName,
        resolveDeclarations decls checks databaseName = h.resolve checks databaseName := by
  obtain ⟨h, hdecls⟩ := Hierarchy.exists_ofDeclarations hnodup
  refine ⟨h, hdecls, Hierarchy.classes_of_ofDeclarations hdecls, h.reportsCycles, ?_⟩
  intro checks databaseName
  rw [resolveDeclarations, hdecls]
  rfl

/-- The tug is on no cycle itself, but it leads to one; the raft is above itself. -/
def ringOfTugs : List ClassDecl :=
  [{ name := "Tug", superclass := some "Barge", tags := [⟨"ojb.class", [("refresh", "maybe")]⟩] },
   { name := "Barge", interfaces := ["Lighter", "java.io.Serializable"] },
   { name := "Lighter", kind := .interface, interfaces := ["Scow"] },
   { name := "Scow", kind := .interface, interfaces := ["Lighter"] },
   { name := "Raft", superclass := some "Raft" }]

theorem supertypeCycles_exact_ringOfTugs :
    (ringOfTugs.map (·.name)).Nodup ∧ ∃ h, Hierarchy.ofDeclarations ringOfTugs = .ok h ∧
      h.classes = ringOfTugs ∧ h.ReportsCycles ∧
      (∀ checks databaseName,
        resolveDeclarations ringOfTugs checks databaseName = h.resolve checks databaseName) ∧
      h.resolve .strict "harbour" = .error ⟨"Lighter", .supertypeCycle⟩ := by
  have hnodup : (ringOfTugs.map (·.name)).Nodup := by decide
  obtain ⟨h, hdecls, hclasses, hreports, hresolve⟩ := supertypeCycles_exact hnodup
  refine ⟨hnodup, h, hdecls, hclasses, hreports, hresolve, ?_⟩
  rw [← hresolve]
  decide +kernel

end ClassMap

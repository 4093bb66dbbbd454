import Mathlib.Data.List.Perm.Subperm
import ClassMap.Proofs.Traversal
import ClassMap.Proofs.Walk

/-!
The search for cycles. It finds one exactly when some node leads back to itself: a node that is met
again below itself does, and if none is met again, all nodes can be listed in such a way that each
stands before those it leads to. So whether there is a cycle does not depend on where the search
starts.
-/

set_option autoImplicit false
set_option relaxedAutoImplicit false

namespace ClassMap.Walk

open Traversal

variable {α : Type} {next : α → List α} {nodes path done later xs : List α} {x y : α} {depth : Nat}

/-- A list in which each node stands before the nodes it leads to. -/
inductive Settled (next : α → List α) : List α → Prop
  | nil : Settled next []
  | cons {x : α} {rest : List α} (hrest : Settled next rest) (hnext : ∀ y ∈ next x, y ∈ rest) :
      Settled next (x :: rest)

theorem Settled.not_leads (h : Settled next done) (hx : x ∈ done) : ¬ Leads next x x := by
  induction h generalizing x with
  | nil => exact absurd hx List.not_mem_nil
  | cons _ hnext ih =>
    intro hcycle
    rcases List.mem_cons.mp hx with rfl | hx
    · -- the cycle goes on behind the first node, from its successor back to that successor
      obtain ⟨y, hstep, hback⟩ := Relation.TransGen.head'_iff.mp hcycle
      exact ih (hnext y hstep) (Relation.TransGen.tail' hback hstep)
    · exact ih hx hcycle

/-- A step that goes on with a settled list and ends with one that has the node it is for. -/
def Settles (next : α → List α) (nodes : List α)
    (step : List α → α → Except α (List α)) : Prop :=
  ∀ done x later, x ∈ nodes → Settled next done → step done x = .ok later →
    Settled next later ∧ (∀ y ∈ done, y ∈ later) ∧ x ∈ later

theorem Settles.foldlM {step : List α → α → Except α (List α)} (hstep : Settles next nodes step)
    (hxs : ∀ x ∈ xs, x ∈ nodes) (hdone : Settled next done)
    (h : xs.foldlM step done = .ok later) :
    Settled next later ∧ (∀ y ∈ done, y ∈ later) ∧ ∀ x ∈ xs, x ∈ later := by
  induction xs generalizing done with
  | nil =>
    obtain rfl := pure_eq_ok_iff.mp h
    exact ⟨hdone, fun y hy ↦ hy, by simp⟩
  | cons x rest ih =>
    rw [List.foldlM_cons] at h
    obtain ⟨middle, hmiddle, hrest⟩ := bind_eq_ok_iff.mp h
    obtain ⟨hsettled, hkept, hx⟩ :=
      hstep done x middle (hxs x List.mem_cons_self) hdone hmiddle
    obtain ⟨hlater, hkept', hothers⟩ :=
      ih (fun y hy ↦ hxs y (List.mem_cons_of_mem x hy)) hsettled hrest
    refine ⟨hlater, fun y hy ↦ hkept' y (hkept y hy), fun y hy ↦ ?_⟩
    rcases List.mem_cons.mp hy with rfl | hy
    · exact hkept' y hx
    · exact hothers y hy

variable [DecidableEq α]

/-- Without an error a node is settled with everything it leads to. There are steps enough, since
the nodes on the way are all different. -/
theorem settles_explore (hnext : ∀ x, ∀ y ∈ next x, y ∈ nodes) (hnodup : path.Nodup)
    (hpath : ∀ p ∈ path, p ∈ nodes) (hdepth : nodes.length < depth + path.length) :
    Settles next nodes (explore next depth path) := by
  -- the way has no repetition, so it cannot be longer than there are nodes
  induction depth generalizing path with
  | zero =>
    have hlength : path.length ≤ nodes.length :=
      (List.subperm_of_subset hnodup hpath).length_le
    omega
  | succ depth ih =>
    intro done x later hx hdone h
    unfold explore at h
    by_cases hmet : x ∈ done
    · rw [if_pos hmet] at h
      obtain rfl := Except.ok.inj h
      exact ⟨hdone, fun y hy ↦ hy, hmet⟩
    · rw [if_neg hmet] at h
      by_cases hagain : x ∈ path
      · rw [if_pos hagain] at h
        exact absurd h (by simp)
      · rw [if_neg hagain] at h
        obtain ⟨middle, hmiddle, hpure⟩ := bind_eq_ok_iff.mp h
        obtain rfl := pure_eq_ok_iff.mp hpure
        have hbelow : ∀ p ∈ x :: path, p ∈ nodes := by
          intro p hp
          rcases List.mem_cons.mp hp with rfl | hp
          · exact hx
          · exact hpath p hp
        have hfuel : nodes.length < depth + (x :: path).length := by
          rw [List.length_cons]
          omega
        have hstep := ih (List.nodup_cons.mpr ⟨hagain, hnodup⟩) hbelow hfuel
        obtain ⟨hsettled, hkept, hsuccessors⟩ := hstep.foldlM (hnext x) hdone hmiddle
        exact ⟨.cons hsettled hsuccessors, fun y hy ↦ List.mem_cons_of_mem x (hkept y hy),
          List.mem_cons_self⟩

/-- A node that is met again leads back to itself, as every node on the way leads on. -/
theorem leads_of_explore (hpath : ∀ p ∈ path, Leads next p x)
    (h : explore next depth path done x = .error y) : Leads next y y := by
  induction depth generalizing path done x with
  | zero => exact absurd h (by simp [explore])
  | succ depth ih =>
    unfold explore at h
    by_cases hmet : x ∈ done
    · rw [if_pos hmet] at h
      exact absurd h (by simp)
    · rw [if_neg hmet] at h
      by_cases hagain : x ∈ path
      · rw [if_pos hagain] at h
        obtain rfl := Except.error.inj h
        exact hpath x hagain
      · rw [if_neg hagain] at h
        have hfold : (next x).foldlM (explore next depth (x :: path)) done = .error y := by
          cases hpass : (next x).foldlM (explore next depth (x :: path)) done with
          | error z =>
            rw [hpass] at h
            exact h
          | ok middle =>
            rw [hpass] at h
            exact absurd h (by simp [bind, Except.bind, pure, Except.pure])
        obtain ⟨z, hz, met, herror⟩ := exists_error_of_foldlM hfold
        -- the next node is below everything on the way, which is what the induction asks for
        have hleads : ∀ p ∈ x :: path, Leads next p z := by
          intro p hp
          rcases List.mem_cons.mp hp with rfl | hp
          · exact Relation.TransGen.single hz
          · exact (hpath p hp).tail hz
        exact ih hleads herror

/-- No cycle is found exactly when there is none. -/
theorem findCycle?_eq_none_iff (hnext : ∀ x, ∀ y ∈ next x, y ∈ nodes)
    (hdepth : nodes.length < depth) :
    findCycle? next depth nodes = none ↔ ∀ x, ¬ Leads next x x := by
  unfold findCycle?
  cases hsearch : nodes.foldlM (explore next depth []) [] with
  | error y =>
    obtain ⟨x, -, done, herror⟩ := exists_error_of_foldlM hsearch
    have hcycle : Leads next y y := leads_of_explore (by simp) herror
    exact ⟨fun h ↦ absurd h (by simp), fun h ↦ absurd hcycle (h y)⟩
  | ok done =>
    have hstep : Settles next nodes (explore next depth []) :=
      settles_explore hnext List.nodup_nil (by simp) (by simpa using hdepth)
    obtain ⟨hsettled, -, hall⟩ := hstep.foldlM (fun x hx ↦ hx) .nil hsearch
    refine ⟨fun _ x hcycle ↦ ?_, fun _ ↦ rfl⟩
    obtain ⟨y, -, hlast⟩ := Relation.TransGen.tail'_iff.mp hcycle
    exact hsettled.not_leads (hall x (hnext y x hlast)) hcycle

end ClassMap.Walk

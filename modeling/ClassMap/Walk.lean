/-!
Depth-first walks over a graph given by the successors of each node. The depth that a walk may
reach is an argument; a graph with `n` nodes is explored completely at depth `n + 1`, since every
step down adds a node to those already met.
-/

set_option autoImplicit false
set_option relaxedAutoImplicit false

namespace ClassMap.Walk

variable {α : Type} [DecidableEq α]

/-- The nodes met so far followed by `x` and what it leads to, each where it is first met. -/
def visit (next : α → List α) : Nat → List α → α → List α
  | 0, seen, _ => seen
  | depth + 1, seen, x =>
    if x ∈ seen then seen else (next x).foldl (visit next depth) (seen ++ [x])

/-- Everything reached from `x` in zero or more steps, in preorder. -/
def preorder (next : α → List α) (depth : Nat) (x : α) : List α :=
  visit next depth [] x

/-- The nodes that lead into no cycle, or a node that was met again below itself. -/
def explore (next : α → List α) : Nat → List α → List α → α → Except α (List α)
  | 0, _, done, _ => .ok done
  | depth + 1, path, done, x =>
    if x ∈ done then .ok done
    else if x ∈ path then .error x
    else do
      let done ← (next x).foldlM (explore next depth (x :: path)) done
      return x :: done

/-- A node on a cycle, if the given nodes lead to one. -/
def findCycle? (next : α → List α) (depth : Nat) (nodes : List α) : Option α :=
  match nodes.foldlM (explore next depth []) [] with
  | .error x => some x
  | .ok _ => none

theorem mem_visit_of_mem (next : α → List α) (depth : Nat) {seen : List α} {y : α} (x : α)
    (hy : y ∈ seen) : y ∈ visit next depth seen x := by
  induction depth generalizing seen x with
  | zero => exact hy
  | succ depth ih =>
    have step : ∀ (xs seen : List α), y ∈ seen → y ∈ xs.foldl (visit next depth) seen := by
      intro xs
      induction xs with
      | nil => exact fun _ h ↦ h
      | cons z zs ihs => exact fun _ h ↦ ihs _ (ih z h)
    unfold visit
    split
    · exact hy
    · exact step _ _ (List.mem_append_left [x] hy)

theorem mem_foldl_visit_of_mem (next : α → List α) (depth : Nat) (xs : List α) {seen : List α}
    {y : α} (hy : y ∈ seen) : y ∈ xs.foldl (visit next depth) seen := by
  induction xs generalizing seen with
  | nil => exact hy
  | cons x xs ih => exact ih (mem_visit_of_mem next depth x hy)

end ClassMap.Walk

import ClassMap.Members.Order

/-!
Ordering by keys moves the items around and does nothing else: what comes out is a permutation of
what went in, and the places depend on the keys alone.
-/

set_option autoImplicit false
set_option relaxedAutoImplicit false

namespace ClassMap

variable {α : Type}

/-- The items without a key. -/
def unkeyedItems (items : List (α × Option Int32)) : List α :=
  items.filterMap fun item ↦ if item.2.isNone then some item.1 else none

theorem refill_perm (items : List (α × Option Int32)) (fillers : List α)
    (h : fillers.length = (keyedItems items).length) :
    (refill items fillers).Perm (fillers ++ unkeyedItems items) := by
  induction items generalizing fillers with
  | nil =>
    obtain rfl : fillers = [] := List.eq_nil_of_length_eq_zero (by simpa [keyedItems] using h)
    exact List.Perm.refl _
  | cons item rest ih =>
    obtain ⟨x, key⟩ := item
    cases key with
    | none =>
      have hrest := ih fillers (by simpa [keyedItems] using h)
      exact (hrest.cons x).trans List.perm_middle.symm
    | some key =>
      cases fillers with
      | nil => simp [keyedItems] at h
      | cons filler fillers =>
        have hrest := ih fillers (by simpa [keyedItems] using h)
        exact hrest.cons filler

/-- Items with a key and items without one are all the items. -/
theorem keyedItems_append_unkeyedItems (items : List (α × Option Int32)) :
    ((keyedItems items).map (·.2) ++ unkeyedItems items).Perm (items.map (·.1)) := by
  induction items with
  | nil => exact List.Perm.refl _
  | cons item rest ih =>
    obtain ⟨x, key⟩ := item
    cases key with
    | none => exact List.perm_middle.trans (ih.cons x)
    | some key => exact ih.cons x

theorem orderByKeys_perm (items : List (α × Option Int32)) :
    (orderByKeys items).Perm (items.map (·.1)) := by
  have hsorted : (((keyedItems items).mergeSort fun a b ↦ decide (a.1 ≤ b.1)).map (·.2)).Perm
      ((keyedItems items).map (·.2)) :=
    (List.mergeSort_perm _ _).map _
  have hfilled := refill_perm items _ (hsorted.length_eq.trans (List.length_map _))
  exact hfilled.trans ((hsorted.append_right _).trans (keyedItems_append_unkeyedItems items))

variable {β : Type}

/-- Ordering looks at the keys only. -/
theorem orderByKeys_map (f : α → β) (items : List (α × Option Int32)) :
    orderByKeys (items.map fun item ↦ (f item.1, item.2)) = (orderByKeys items).map f := by
  have hkeyed : keyedItems (items.map fun item ↦ (f item.1, item.2)) =
      (keyedItems items).map fun item ↦ (item.1, f item.2) := by
    rw [keyedItems, keyedItems, List.filterMap_map, List.map_filterMap]
    refine congrArg (List.filterMap · items) (funext fun item ↦ ?_)
    rw [Function.comp_apply, Option.map_map]
    rfl
  have hrefill : ∀ (items : List (α × Option Int32)) (fillers : List α),
      refill (items.map fun item ↦ (f item.1, item.2)) (fillers.map f) =
        (refill items fillers).map f := by
    intro items
    induction items with
    | nil => exact fun _ ↦ rfl
    | cons item rest ih =>
      intro fillers
      obtain ⟨x, key⟩ := item
      cases key with
      | none => exact congrArg (f x :: ·) (ih fillers)
      | some key =>
        cases fillers with
        | nil => exact ih []
        | cons filler fillers => exact congrArg (f filler :: ·) (ih fillers)
  have hsorted : ((keyedItems items).map fun item ↦ (item.1, f item.2)).mergeSort
        (fun a b ↦ decide (a.1 ≤ b.1)) =
      ((keyedItems items).mergeSort fun a b ↦ decide (a.1 ≤ b.1)).map
        fun item ↦ (item.1, f item.2) :=
    (List.map_mergeSort (f := fun item : Int32 × α ↦ (item.1, f item.2)) fun _ _ _ _ ↦ rfl).symm
  rw [orderByKeys, orderByKeys, hkeyed, hsorted, List.map_map, ← hrefill, List.map_map]
  rfl

end ClassMap

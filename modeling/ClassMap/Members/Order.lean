/-!
Ordering by keys that only some items have. Items without a key stay where they are; the places
of the others are filled with them in ascending order of their keys, equal keys in their order.
-/

set_option autoImplicit false
set_option relaxedAutoImplicit false

namespace ClassMap

variable {α : Type}

/-- The items with a key, each with its key. -/
def keyedItems (items : List (α × Option Int32)) : List (Int32 × α) :=
  items.filterMap fun item ↦ item.2.map fun key ↦ (key, item.1)

/-- Puts the given items in turn into the places of the items with a key. -/
def refill : List (α × Option Int32) → List α → List α
  | [], _ => []
  | (x, none) :: rest, fillers => x :: refill rest fillers
  | (_, some _) :: rest, filler :: fillers => filler :: refill rest fillers
  | (_, some _) :: rest, [] => refill rest []

def orderByKeys (items : List (α × Option Int32)) : List α :=
  refill items (((keyedItems items).mergeSort fun a b ↦ decide (a.1 ≤ b.1)).map (·.2))

end ClassMap

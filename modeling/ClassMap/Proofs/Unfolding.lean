import Mathlib.Order.WellFoundedSet
import ClassMap.Proofs.Walk

/-!
The order of a depth-first walk. A walk without a memory follows every way there is, and comes to a
node as often as there are ways to it: its visits unfold the graph into a tree. Where no node leads
back to itself the tree is finite, and then a walk that remembers what it has met lists the same
nodes in the order in which the tree first comes to them (`tail_preorder_eq`). It leaves out what
lies below a node met before, and all of that has been met with it.
-/

set_option autoImplicit false
set_option relaxedAutoImplicit false

namespace ClassMap.Walk

variable {α : Type} {next : α → List α} {nodes xs visits seen : List α} {x y : α} {depth : Nat}

/-- The visits of a walk without a memory that starts from some nodes, one after the other. -/
inductive Unfolds (next : α → List α) : List α → List α → Prop
  | nil : Unfolds next [] []
  | cons {x : α} {rest below after : List α} (hbelow : Unfolds next (next x) below)
      (hafter : Unfolds next rest after) : Unfolds next (x :: rest) (x :: (below ++ after))

theorem reaches_iff : Reaches next x y ↔ y = x ∨ ∃ z ∈ next x, Reaches next z y := by
  refine Relation.ReflTransGen.cases_head_iff.trans ?_
  rw [eq_comm]
  rfl

/-- The visits are to all that the nodes reach. -/
theorem Unfolds.mem_iff (h : Unfolds next xs visits) :
    y ∈ visits ↔ ∃ x ∈ xs, Reaches next x y := by
  induction h with
  | nil => simp
  | cons _ _ ihbelow ihafter =>
    rw [List.mem_cons, List.mem_append, ihbelow, ihafter, List.exists_mem_cons_iff, reaches_iff,
      or_assoc]

theorem Unfolds.mem_cons_iff (h : Unfolds next (next x) visits) :
    y ∈ x :: visits ↔ Reaches next x y := by
  rw [List.mem_cons, h.mem_iff, reaches_iff]

theorem exists_unfolds_of_forall (h : ∀ x ∈ xs, ∃ below, Unfolds next (next x) below) :
    ∃ visits, Unfolds next xs visits := by
  induction xs with
  | nil => exact ⟨[], .nil⟩
  | cons x rest ih =>
    obtain ⟨below, hbelow⟩ := h x List.mem_cons_self
    obtain ⟨after, hafter⟩ := ih fun y hy ↦ h y (List.mem_cons_of_mem x hy)
    exact ⟨_, .cons hbelow hafter⟩

/-- A finite graph in which no node leads back to itself can be unfolded from everywhere. -/
theorem exists_unfolds (hnext : ∀ x, ∀ y ∈ next x, y ∈ nodes) (hacyclic : ∀ x, ¬ Leads next x x)
    (hx : x ∈ nodes) : ∃ below, Unfolds next (next x) below := by
  have hirrefl : Std.Irrefl (flip (Leads next)) := ⟨hacyclic⟩
  have htrans : IsTrans α (flip (Leads next)) := ⟨fun _ _ _ hab hbc ↦ hbc.trans hab⟩
  have horder : IsStrictOrder α (flip (Leads next)) := { }
  have hwell : Set.WellFoundedOn {z | z ∈ nodes} (flip (Leads next)) :=
    (List.finite_toSet nodes).wellFoundedOn
  refine hwell.induction (P := fun z ↦ ∃ below, Unfolds next (next z) below) hx fun z _ ih ↦ ?_
  exact exists_unfolds_of_forall fun y hy ↦ ih y (hnext z y hy) (Relation.TransGen.single hy)

/-- A node met before that is reached again has all below it met as well. -/
def Closed (next : α → List α) (xs seen : List α) : Prop :=
  ∀ x ∈ xs, ∀ y, Reaches next x y → y ∈ seen → ∀ z, Reaches next y z → z ∈ seen

/-- A node that is met changes nothing for what it leads to, from where no way leads back to it. -/
theorem Closed.below {rest : List α} (h : Closed next (x :: rest) seen)
    (hacyclic : ∀ x, ¬ Leads next x x) : Closed next (next x) (seen ++ [x]) := by
  intro y hy z hreach hz w hw
  have hne : z ≠ x := by
    rintro rfl
    exact hacyclic z (Relation.TransGen.head' hy hreach)
  have hseen : z ∈ seen := by simpa [hne] using hz
  exact List.mem_append_left _ (h x List.mem_cons_self z (.head hy hreach) hseen w hw)

variable [DecidableEq α]

/-- What has been met, after one more visit. -/
def meet (seen : List α) (x : α) : List α :=
  if x ∈ seen then seen else seen ++ [x]

theorem foldl_meet_eq_self (h : ∀ y ∈ visits, y ∈ seen) : visits.foldl meet seen = seen := by
  induction visits with
  | nil => rfl
  | cons y rest ih =>
    rw [List.foldl_cons, meet, if_pos (h y List.mem_cons_self)]
    exact ih fun z hz ↦ h z (List.mem_cons_of_mem y hz)

theorem foldl_meet (visits seen : List α) :
    visits.foldl meet seen = seen ++ (visits.filter (· ∉ seen)).eraseDups := by
  induction visits generalizing seen with
  | nil => simp
  | cons y rest ih =>
    rw [List.foldl_cons, ih, meet]
    by_cases hy : y ∈ seen
    · rw [if_pos hy, List.filter_cons_of_neg (by simpa using hy)]
    · rw [if_neg hy, List.filter_cons_of_pos (by simpa using hy), List.eraseDups_cons,
        List.append_assoc, List.singleton_append, List.filter_filter]
      refine congrArg (fun others ↦ seen ++ y :: List.eraseDups others) ?_
      refine List.filter_congr fun z _ ↦ ?_
      by_cases hz : z = y
      · simp [hz]
      · simp [hz]

theorem mem_foldl_meet : y ∈ visits.foldl meet seen ↔ y ∈ seen ∨ y ∈ visits := by
  rw [foldl_meet, List.mem_append, List.mem_eraseDups, List.mem_filter, decide_eq_true_iff]
  by_cases hy : y ∈ seen
  · simp [hy]
  · simp [hy]

/-- What is met below one node is met with all that lies below it. -/
theorem Closed.after {rest : List α} (h : Closed next (x :: rest) seen)
    (hunfolds : Unfolds next (next x) visits) :
    Closed next rest ((x :: visits).foldl meet seen) := by
  intro y hy z hreach hz w hw
  rw [mem_foldl_meet] at hz ⊢
  rcases hz with hz | hz
  · exact Or.inl (h y (List.mem_cons_of_mem x hy) z hreach hz w hw)
  · have hdown : Reaches next x z := hunfolds.mem_cons_iff.mp hz
    exact Or.inr (hunfolds.mem_cons_iff.mpr (hdown.trans hw))

/-- A walk that remembers meets what the unfolding visits, each node at its first visit. The
induction is on the unfolding; what has been met stays closed below the nodes that are left. -/
theorem foldl_visit_eq (hnext : ∀ x, ∀ y ∈ next x, y ∈ nodes) (hacyclic : ∀ x, ¬ Leads next x x)
    (h : Unfolds next xs visits) (hxs : ∀ x ∈ xs, x ∈ nodes)
    (hdepth : (unmet nodes seen).length ≤ depth) (hclosed : Closed next xs seen) :
    xs.foldl (visit next depth) seen = visits.foldl meet seen := by
  induction h generalizing seen depth with
  | nil => rfl
  | @cons x rest below after hbelow _ ihbelow ihafter =>
    have hx : x ∈ nodes := hxs x List.mem_cons_self
    have hrest : ∀ y ∈ rest, y ∈ nodes := fun y hy ↦ hxs y (List.mem_cons_of_mem x hy)
    have hvisit : visit next depth seen x = (x :: below).foldl meet seen := by
      by_cases hmet : x ∈ seen
      · -- a node met before adds nothing, and neither does anything below it
        have hall : ∀ y ∈ x :: below, y ∈ seen := fun y hy ↦
          hclosed x List.mem_cons_self x .refl hmet y (hbelow.mem_cons_iff.mp hy)
        rw [foldl_meet_eq_self hall]
        cases depth with
        | zero => rfl
        | succ depth => rw [visit, if_pos hmet]
      · have hless := length_unmet_lt hx hmet
        cases depth with
        | zero => omega
        | succ depth =>
          rw [visit, if_neg hmet, List.foldl_cons, meet, if_neg hmet]
          exact ihbelow (hnext x) (by omega) (hclosed.below hacyclic)
    have hgrown : (unmet nodes ((x :: below).foldl meet seen)).length ≤ depth :=
      Nat.le_trans (length_unmet_le fun z hz ↦ mem_foldl_meet.mpr (Or.inl hz)) hdepth
    rw [List.foldl_cons, hvisit, ← List.cons_append, List.foldl_append]
    exact ihafter hrest hgrown (hclosed.after hbelow)

/-- A walk lists what lies below its start, each node where the unfolding first comes to it. -/
theorem tail_preorder_eq (hnext : ∀ x, ∀ y ∈ next x, y ∈ nodes)
    (hacyclic : ∀ x, ¬ Leads next x x) (hdepth : nodes.length ≤ depth)
    (h : Unfolds next (next x) visits) :
    (preorder next (depth + 1) x).tail = visits.eraseDups := by
  have hnew : ∀ y ∈ visits, y ∉ [x] := by
    intro y hy heq
    obtain ⟨z, hz, hreach⟩ := h.mem_iff.mp hy
    rw [List.mem_singleton.mp heq] at hreach
    exact hacyclic x (Relation.TransGen.head' hz hreach)
  have hclosed : Closed next (next x) [x] := by
    intro y hy z hreach hz
    exact absurd hz (hnew z (h.mem_iff.mpr ⟨y, hy, hreach⟩))
  have hfuel : (unmet nodes [x]).length ≤ depth :=
    Nat.le_trans (List.length_filter_le _ _) hdepth
  have hall : visits.filter (· ∉ [x]) = visits :=
    List.filter_eq_self.mpr fun y hy ↦ decide_eq_true (hnew y hy)
  rw [preorder, visit, if_neg List.not_mem_nil, List.nil_append,
    foldl_visit_eq hnext hacyclic h (hnext x) hfuel hclosed, foldl_meet, hall,
    List.singleton_append, List.tail_cons]

end ClassMap.Walk

import Mathlib.Data.List.Nodup
import Mathlib.Logic.Relation
import ClassMap.Walk

/-!
What a depth-first walk finds. Every node it lists is reached from the start, none is listed
twice, and the start comes first; so what follows the start is reached from it in at least one
step and is never the start again. A walk that may go as deep as there are nodes lists everything
that is reached, so which nodes it lists does not depend on the order of the successors. And a map
that takes one graph to another and keeps its nodes apart takes the walks of the one to the walks of
the other.
-/

set_option autoImplicit false
set_option relaxedAutoImplicit false

namespace ClassMap.Walk

variable {α : Type} {next : α → List α}

/-- One step along the graph. -/
def Step (next : α → List α) (x y : α) : Prop :=
  y ∈ next x

/-- Reached in zero or more steps. -/
abbrev Reaches (next : α → List α) : α → α → Prop :=
  Relation.ReflTransGen (Step next)

/-- Reached in one or more steps. -/
abbrev Leads (next : α → List α) : α → α → Prop :=
  Relation.TransGen (Step next)

theorem Reaches.leads_of_ne {x y : α} (h : Reaches next x y) (hne : y ≠ x) : Leads next x y := by
  rcases Relation.reflTransGen_iff_eq_or_transGen.mp h with heq | hleads
  · exact absurd heq hne
  · exact hleads

variable [DecidableEq α]

theorem reaches_of_mem_visit {depth : Nat} {seen : List α} {x y : α}
    (hy : y ∈ visit next depth seen x) : y ∈ seen ∨ Reaches next x y := by
  induction depth generalizing seen x with
  | zero => exact Or.inl hy
  | succ depth ih =>
    -- the successors are walked one after the other, each from what the ones before it left
    have hall : ∀ (xs seen : List α), y ∈ xs.foldl (visit next depth) seen →
        y ∈ seen ∨ ∃ z ∈ xs, Reaches next z y := by
      intro xs
      induction xs with
      | nil => exact fun _ hmem ↦ Or.inl hmem
      | cons z zs ihs =>
        intro seen hmem
        rcases ihs _ hmem with hvisit | ⟨w, hw, hreach⟩
        · rcases ih hvisit with hseen | hreach
          · exact Or.inl hseen
          · exact Or.inr ⟨z, List.mem_cons_self, hreach⟩
        · exact Or.inr ⟨w, List.mem_cons_of_mem z hw, hreach⟩
    unfold visit at hy
    split at hy
    · exact Or.inl hy
    · rcases hall _ _ hy with hmem | ⟨z, hz, hreach⟩
      · rcases List.mem_append.mp hmem with hseen | hself
        · exact Or.inl hseen
        · rw [List.mem_singleton.mp hself]
          exact Or.inr Relation.ReflTransGen.refl
      · exact Or.inr (Relation.ReflTransGen.head hz hreach)

theorem nodup_visit {depth : Nat} {seen : List α} (x : α) (hseen : seen.Nodup) :
    (visit next depth seen x).Nodup := by
  induction depth generalizing seen x with
  | zero => exact hseen
  | succ depth ih =>
    unfold visit
    split
    · exact hseen
    · rename_i hx
      have hstart : (seen ++ [x]).Nodup := by
        refine List.nodup_append.mpr ⟨hseen, List.nodup_singleton x, ?_⟩
        intro a ha b hb hab
        exact hx (List.mem_singleton.mp hb ▸ hab ▸ ha)
      exact List.foldlRecOn (next x) _ hstart fun _ hnodup z _ ↦ ih z hnodup

theorem prefix_visit (depth : Nat) (seen : List α) (x : α) : seen <+: visit next depth seen x := by
  induction depth generalizing seen x with
  | zero => exact List.prefix_refl seen
  | succ depth ih =>
    unfold visit
    split
    · exact List.prefix_refl seen
    · exact List.foldlRecOn (next x) _ (List.prefix_append seen [x])
        fun met hmet z _ ↦ hmet.trans (ih met z)

theorem nodup_preorder (depth : Nat) (x : α) : (preorder next depth x).Nodup :=
  nodup_visit x List.nodup_nil

theorem exists_preorder_eq_cons (depth : Nat) (x : α) :
    ∃ rest, preorder next (depth + 1) x = x :: rest := by
  have hprefix : [x] <+: (next x).foldl (visit next depth) [x] :=
    List.foldlRecOn (next x) _ (List.prefix_refl [x])
      fun met hmet z _ ↦ hmet.trans (prefix_visit depth met z)
  obtain ⟨rest, hrest⟩ := hprefix
  refine ⟨rest, ?_⟩
  simpa [preorder, visit] using hrest.symm

/-- What a walk lists after its start is somewhere else and is reached in one or more steps. -/
theorem leads_of_mem_tail_preorder {depth : Nat} {x y : α}
    (hy : y ∈ (preorder next (depth + 1) x).tail) : y ≠ x ∧ Leads next x y := by
  obtain ⟨rest, hrest⟩ : ∃ rest, preorder next (depth + 1) x = x :: rest :=
    exists_preorder_eq_cons depth x
  have hnodup : (preorder next (depth + 1) x).Nodup := nodup_preorder (depth + 1) x
  rw [hrest, List.nodup_cons] at hnodup
  rw [hrest, List.tail_cons] at hy
  have hne : y ≠ x := fun h ↦ hnodup.1 (h ▸ hy)
  have hmem : y ∈ preorder next (depth + 1) x := hrest ▸ List.mem_cons_of_mem x hy
  rcases reaches_of_mem_visit hmem with hnil | hreach
  · exact absurd hnil List.not_mem_nil
  · exact ⟨hne, hreach.leads_of_ne hne⟩

/-- The nodes that have not been met. -/
def unmet (nodes seen : List α) : List α :=
  nodes.filter fun x ↦ !seen.contains x

theorem length_unmet_le {nodes seen met : List α} (hseen : ∀ x ∈ seen, x ∈ met) :
    (unmet nodes met).length ≤ (unmet nodes seen).length := by
  refine (List.monotone_filter_right nodes fun x hx ↦ ?_).length_le
  by_cases h : x ∈ seen
  · simp [hseen x h] at hx
  · simp [h]

theorem length_unmet_lt {nodes seen : List α} {x : α} (hx : x ∈ nodes) (hnew : x ∉ seen) :
    (unmet nodes (seen ++ [x])).length < (unmet nodes seen).length := by
  have hfilter : unmet nodes (seen ++ [x]) = (unmet nodes seen).filter (· ≠ x) := by
    rw [unmet, unmet, List.filter_filter]
    refine List.filter_congr fun y _ ↦ ?_
    by_cases hy : y = x
    · simp [hy]
    · simp [hy]
  have hthere : x ∈ unmet nodes seen := List.mem_filter.mpr ⟨hx, by simpa using hnew⟩
  rw [hfilter, List.length_filter_lt_length_iff_exists]
  exact ⟨x, hthere, by simp⟩

/-- Whatever has been met since `seen` has all its successors met. -/
def Explored (next : α → List α) (seen met : List α) : Prop :=
  ∀ x ∈ met, x ∉ seen → ∀ y ∈ next x, y ∈ met

variable {nodes : List α}

/-- A walk with a step left for every node that has not been met leaves nothing out. -/
theorem explored_visit (hnext : ∀ x, ∀ y ∈ next x, y ∈ nodes) {depth : Nat} {seen : List α} {x : α}
    (hx : x ∈ nodes) (hdepth : (unmet nodes seen).length ≤ depth) :
    x ∈ visit next depth seen x ∧ Explored next seen (visit next depth seen x) := by
  induction depth generalizing seen x with
  | zero =>
    have hnil : unmet nodes seen = [] := List.length_eq_zero_iff.mp (Nat.le_zero.mp hdepth)
    have hmet : x ∈ seen := by
      simpa using List.filter_eq_nil_iff.mp hnil x hx
    exact ⟨hmet, fun y hy hnew ↦ absurd hy hnew⟩
  | succ depth ih =>
    -- one successor after the other: what the first ones leave unmet is all there is for the next
    have hall : ∀ (xs seen : List α), (∀ z ∈ xs, z ∈ nodes) → (unmet nodes seen).length ≤ depth →
        (∀ z ∈ xs, z ∈ xs.foldl (visit next depth) seen) ∧
          Explored next seen (xs.foldl (visit next depth) seen) := by
      intro xs
      induction xs with
      | nil => exact fun seen _ _ ↦ ⟨by simp, fun y hy hnew ↦ absurd hy hnew⟩
      | cons z zs ihs =>
        intro seen hxs hfuel
        obtain ⟨hz, hexplored⟩ := ih (hxs z List.mem_cons_self) hfuel
        have hgrown : (unmet nodes (visit next depth seen z)).length ≤ depth :=
          Nat.le_trans (length_unmet_le fun y hy ↦ mem_visit_of_mem next depth z hy) hfuel
        obtain ⟨hzs, hrest⟩ := ihs _ (fun y hy ↦ hxs y (List.mem_cons_of_mem z hy)) hgrown
        rw [List.foldl_cons]
        refine ⟨fun y hy ↦ ?_, fun y hy hnew w hw ↦ ?_⟩
        · rcases List.mem_cons.mp hy with rfl | hy
          · exact mem_foldl_visit_of_mem next depth zs hz
          · exact hzs y hy
        · by_cases hmet : y ∈ visit next depth seen z
          · exact mem_foldl_visit_of_mem next depth zs (hexplored y hmet hnew w hw)
          · exact hrest y hy hmet w hw
    unfold visit
    by_cases hseen : x ∈ seen
    · rw [if_pos hseen]
      exact ⟨hseen, fun y hy hnew ↦ absurd hy hnew⟩
    · rw [if_neg hseen]
      have hfuel : (unmet nodes (seen ++ [x])).length ≤ depth :=
        Nat.le_of_lt_succ (Nat.lt_of_lt_of_le (length_unmet_lt hx hseen) hdepth)
      obtain ⟨hsuccessors, hexplored⟩ := hall (next x) (seen ++ [x]) (hnext x) hfuel
      refine ⟨mem_foldl_visit_of_mem next depth _ (by simp), fun y hy hnew w hw ↦ ?_⟩
      by_cases hyx : y = x
      · rw [hyx] at hw
        exact hsuccessors w hw
      · exact hexplored y hy (by simp [hnew, hyx]) w hw

/-- A walk that may go as deep as there are nodes lists exactly what is reached. -/
theorem mem_preorder_iff (hnext : ∀ x, ∀ y ∈ next x, y ∈ nodes) {depth : Nat} {x y : α}
    (hx : x ∈ nodes) (hdepth : nodes.length ≤ depth) :
    y ∈ preorder next depth x ↔ Reaches next x y := by
  constructor
  · intro hy
    rcases reaches_of_mem_visit hy with hnil | hreach
    · exact absurd hnil List.not_mem_nil
    · exact hreach
  · intro hreach
    have hfuel : (unmet nodes []).length ≤ depth :=
      Nat.le_trans (List.length_filter_le _ _) hdepth
    obtain ⟨hself, hexplored⟩ := explored_visit hnext hx hfuel
    induction hreach with
    | refl => exact hself
    | tail _ hstep ih => exact hexplored _ ih List.not_mem_nil _ hstep

theorem mem_tail_preorder_iff (hnext : ∀ x, ∀ y ∈ next x, y ∈ nodes) {depth : Nat} {x y : α}
    (hx : x ∈ nodes) (hdepth : nodes.length ≤ depth + 1) :
    y ∈ (preorder next (depth + 1) x).tail ↔ y ≠ x ∧ Leads next x y := by
  refine ⟨leads_of_mem_tail_preorder, fun hleads ↦ ?_⟩
  obtain ⟨hne, hleads⟩ := hleads
  have hmem : y ∈ preorder next (depth + 1) x :=
    (mem_preorder_iff hnext hx hdepth).mpr hleads.to_reflTransGen
  obtain ⟨rest, hrest⟩ : ∃ rest, preorder next (depth + 1) x = x :: rest :=
    exists_preorder_eq_cons depth x
  rw [hrest] at hmem ⊢
  exact (List.mem_cons.mp hmem).resolve_left hne

/-! ### Walks carried from one graph to another -/

/-- A map that keeps the nodes of a graph apart and takes the successors of each of them to the
successors of its image. -/
structure Carries {β : Type} (f : α → β) (nodes : List α) (next : α → List α)
    (next' : β → List β) : Prop where
  injOn : ∀ x ∈ nodes, ∀ y ∈ nodes, f x = f y → x = y
  closed : ∀ x ∈ nodes, next x ⊆ nodes
  next_eq : ∀ x ∈ nodes, next' (f x) = (next x).map f

namespace Carries

variable {β : Type} {f : α → β} {next' : β → List β} {x : α} {xs seen path done : List α}

omit [DecidableEq α] in
theorem mem_map_iff (h : Carries f nodes next next') (hx : x ∈ nodes) (hseen : seen ⊆ nodes) :
    f x ∈ seen.map f ↔ x ∈ seen := by
  refine ⟨fun hmem ↦ ?_, List.mem_map_of_mem⟩
  obtain ⟨y, hy, heq⟩ := List.mem_map.mp hmem
  exact h.injOn y (hseen hy) x hx heq ▸ hy

variable [DecidableEq β]

/-- A walk over the images meets the images of what the walk over the nodes meets. -/
theorem visit_map (h : Carries f nodes next next') (depth : Nat) (hx : x ∈ nodes)
    (hseen : seen ⊆ nodes) :
    visit next' depth (seen.map f) (f x) = (visit next depth seen x).map f ∧
      visit next depth seen x ⊆ nodes := by
  induction depth generalizing seen x with
  | zero => exact ⟨rfl, hseen⟩
  | succ depth ih =>
    -- the successors one after the other, all within the nodes
    have hall : ∀ (xs seen : List α), xs ⊆ nodes → seen ⊆ nodes →
        (xs.map f).foldl (visit next' depth) (seen.map f) =
            (xs.foldl (visit next depth) seen).map f ∧
          xs.foldl (visit next depth) seen ⊆ nodes := by
      intro xs
      induction xs with
      | nil => exact fun _ _ hseen ↦ ⟨rfl, hseen⟩
      | cons z zs ihs =>
        intro seen hxs hseen
        obtain ⟨hz, hzs⟩ := List.cons_subset.mp hxs
        obtain ⟨hvisit, hmet⟩ := ih hz hseen
        rw [List.map_cons, List.foldl_cons, List.foldl_cons, hvisit]
        exact ihs _ hzs hmet
    unfold visit
    simp only [h.mem_map_iff hx hseen]
    split
    · exact ⟨rfl, hseen⟩
    · rw [h.next_eq x hx, ← List.map_singleton, ← List.map_append]
      exact hall _ _ (h.closed x hx) (List.append_subset.mpr ⟨hseen, by simpa using hx⟩)

theorem preorder_map (h : Carries f nodes next next') (depth : Nat) (hx : x ∈ nodes) :
    preorder next' depth (f x) = (preorder next depth x).map f :=
  (h.visit_map depth hx (List.nil_subset nodes)).1

/-- What is explored, or the node met again, with nodes replaced by their images. -/
def outcome (f : α → β) : Except α (List α) → Except β (List β)
  | .ok done => .ok (done.map f)
  | .error x => .error (f x)

omit [DecidableEq α] [DecidableEq β] in
/-- Exploring one node after the other, when each step comes to the image of what it comes to. -/
theorem foldlM_map_eq_outcome {step : List α → α → Except α (List α)}
    {step' : List β → β → Except β (List β)}
    (hstep : ∀ z ∈ nodes, ∀ done, done ⊆ nodes →
      step' (done.map f) (f z) = outcome f (step done z) ∧
        ∀ more, step done z = .ok more → more ⊆ nodes)
    (hxs : xs ⊆ nodes) (hdone : done ⊆ nodes) :
    (xs.map f).foldlM step' (done.map f) = outcome f (xs.foldlM step done) ∧
      ∀ more, xs.foldlM step done = .ok more → more ⊆ nodes := by
  induction xs generalizing done with
  | nil => exact ⟨rfl, fun more hmore ↦ Except.ok.inj hmore ▸ hdone⟩
  | cons z zs ih =>
    obtain ⟨hz, hzs⟩ := List.cons_subset.mp hxs
    obtain ⟨hexplore, hmore⟩ := hstep z hz done hdone
    simp only [List.map_cons, List.foldlM_cons, hexplore]
    cases hnext : step done z with
    | error y => exact ⟨rfl, fun _ hmore ↦ absurd hmore (by simp [bind, Except.bind])⟩
    | ok more => exact ih hzs (hmore more hnext)

theorem explore_map (h : Carries f nodes next next') (depth : Nat) (hx : x ∈ nodes)
    (hpath : path ⊆ nodes) (hdone : done ⊆ nodes) :
    explore next' depth (path.map f) (done.map f) (f x) =
        outcome f (explore next depth path done x) ∧
      ∀ more, explore next depth path done x = .ok more → more ⊆ nodes := by
  induction depth generalizing path done x with
  | zero => exact ⟨rfl, fun more hmore ↦ Except.ok.inj hmore ▸ hdone⟩
  | succ depth ih =>
    have hunder : x :: path ⊆ nodes := List.cons_subset.mpr ⟨hx, hpath⟩
    obtain ⟨hpass, hmore⟩ := foldlM_map_eq_outcome
      (fun z hz done hdone ↦ ih hz hunder hdone) (h.closed x hx) hdone
    unfold explore
    simp only [h.mem_map_iff hx hdone, h.mem_map_iff hx hpath]
    split
    · exact ⟨rfl, fun more hmore ↦ Except.ok.inj hmore ▸ hdone⟩
    · split
      · exact ⟨rfl, fun _ hmore ↦ absurd hmore (by simp)⟩
      · rw [h.next_eq x hx, ← List.map_cons, hpass]
        cases hnext : (next x).foldlM (explore next depth (x :: path)) done with
        | error y => exact ⟨rfl, fun _ hmore ↦ absurd hmore (by simp [bind, Except.bind])⟩
        | ok more =>
          refine ⟨rfl, fun last hlast ↦ ?_⟩
          obtain rfl : x :: more = last := Except.ok.inj hlast
          exact List.cons_subset.mpr ⟨hx, hmore more hnext⟩

theorem findCycle?_map (h : Carries f nodes next next') (depth : Nat) :
    findCycle? next' depth (nodes.map f) = (findCycle? next depth nodes).map f := by
  have hnil : [] ⊆ nodes := List.nil_subset nodes
  have hpass := (foldlM_map_eq_outcome
    (fun z hz done hdone ↦ h.explore_map depth hz hnil hdone)
    (List.Subset.refl nodes) hnil).1
  rw [List.map_nil] at hpass
  rw [findCycle?, findCycle?, hpass]
  cases nodes.foldlM (explore next depth []) [] with
  | error x => rfl
  | ok done => rfl

end Carries

end ClassMap.Walk

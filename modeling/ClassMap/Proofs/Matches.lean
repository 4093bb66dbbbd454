import ClassMap.Proofs.Traversal

/-!
Two computations side by side. They match under a view when they succeed together and the view shows
the same of their results; errors are not compared. Passes whose entries and steps match, match.
-/

set_option autoImplicit false
set_option relaxedAutoImplicit false

namespace ClassMap.Traversal

variable {ε α β γ δ σ τ : Type}

/-! ### Matching computations -/

/-- Both computations fail, or both succeed and the view shows the same of the results. -/
def Matches (view : α → γ) (x y : Except ε α) : Prop :=
  x.toOption.map view = y.toOption.map view

variable {view : α → γ} {x y : Except ε α} {a b : α}

theorem Matches.symm (h : Matches view x y) : Matches view y x :=
  Eq.symm h

theorem Matches.ok (h : view a = view b) : Matches view (.ok a : Except ε α) (.ok b) :=
  congrArg some h

theorem Matches.pure (h : view a = view b) :
    Matches view (Pure.pure a : Except ε α) (Pure.pure b) :=
  .ok h

theorem Matches.error (e e' : ε) : Matches view (.error e) (.error e') :=
  rfl

theorem Matches.of_eq (h : x = y) : Matches view x y := by
  rw [h, Matches]

/-- Computations with the same errors and the same view of their results. -/
theorem Matches.of_map_eq (h : view <$> x = view <$> y) : Matches view x y := by
  have hoption := congrArg Except.toOption h
  cases x <;> cases y <;> exact hoption

theorem Matches.exists_ok (h : Matches view x y) (hx : x = .ok a) :
    ∃ b, y = .ok b ∧ view a = view b := by
  subst hx
  cases y with
  | error e => exact absurd h (by simp [Matches, Except.toOption])
  | ok b => exact ⟨b, rfl, Option.some.inj h⟩

/-- Matching, spelled out. -/
theorem matches_iff :
    Matches view x y ↔ ((∃ a, x = .ok a) ↔ ∃ b, y = .ok b) ∧
      ∀ a b, x = .ok a → y = .ok b → view a = view b := by
  cases x with
  | error e =>
    cases y with
    | error e' => simp [Matches, Except.toOption]
    | ok b => simp [Matches, Except.toOption]
  | ok a =>
    cases y with
    | error e => simp [Matches, Except.toOption]
    | ok b => simp [Matches, Except.toOption]

theorem Matches.bind {view' : β → δ} {f g : α → Except ε β} (h : Matches view x y)
    (hnext : ∀ a b, x = .ok a → y = .ok b → view a = view b → Matches view' (f a) (g b)) :
    Matches view' (x >>= f) (y >>= g) := by
  cases hx : x with
  | error e =>
    cases hy : y with
    | error e' => exact .error e e'
    | ok b =>
      obtain ⟨a, ha, -⟩ := h.symm.exists_ok hy
      exact absurd (hx.symm.trans ha) (by simp)
  | ok a =>
    obtain ⟨b, hb, hab⟩ := h.exists_ok hx
    rw [hb]
    exact hnext a b hx hb hab

/-- Computations that start in the same way. -/
theorem Matches.bind_same {view : β → δ} {f g : α → Except ε β}
    (hnext : ∀ a, x = .ok a → Matches view (f a) (g a)) : Matches view (x >>= f) (x >>= g) := by
  cases hx : x with
  | error e => exact .error e e
  | ok a => exact hnext a hx

theorem Matches.ite {p q : Prop} [Decidable p] [Decidable q] {x' y' : Except ε α} (hcond : p ↔ q)
    (hthen : Matches view x y) (helse : Matches view x' y') :
    Matches view (if p then x else x') (if q then y else y') := by
  by_cases hp : p
  · rwa [if_pos hp, if_pos (hcond.mp hp)]
  · rwa [if_neg hp, if_neg (mt hcond.mpr hp)]

theorem Matches.discard (h : Matches view x y) :
    Matches id (discard x : Except ε Unit) (discard y) := by
  have hdone : ∀ x : Except ε α,
      (∃ done, (Functor.discard x : Except ε Unit) = .ok done) ↔ ∃ a, x = .ok a :=
    fun _ ↦ ⟨fun ⟨_, h⟩ ↦ discard_eq_ok_iff.mp h, fun h ↦ ⟨(), discard_eq_ok_iff.mpr h⟩⟩
  refine matches_iff.mpr ⟨?_, fun _ _ _ _ ↦ rfl⟩
  rw [hdone, hdone]
  exact (matches_iff.mp h).1

/-- Options that a view shows the same of are both absent or both present. -/
theorem option_cases_of_map_eq {f : α → γ} {o o' : Option α} (h : o.map f = o'.map f) :
    (o = none ∧ o' = none) ∨ ∃ a b, o = some a ∧ o' = some b ∧ f a = f b := by
  cases o with
  | none => exact .inl ⟨rfl, Option.map_eq_none_iff.mp h.symm⟩
  | some a =>
    obtain ⟨b, hb, hab⟩ := Option.map_eq_some_iff.mp h.symm
    exact .inr ⟨a, b, rfl, hb, hab.symm⟩

/-! ### Matching passes -/

/-- Lists that a view shows the same of have their entries in step. -/
theorem forall₂_of_map_eq {f : α → γ} {xs ys : List α} (h : xs.map f = ys.map f) :
    List.Forall₂ (fun x y ↦ x ∈ xs ∧ y ∈ ys ∧ f x = f y) xs ys := by
  induction xs generalizing ys with
  | nil =>
    obtain rfl := List.map_eq_nil_iff.mp h.symm
    exact .nil
  | cons x xs ih =>
    cases ys with
    | nil => exact absurd h (by simp)
    | cons y ys =>
      obtain ⟨hhead, htail⟩ := List.cons.inj h
      refine .cons ⟨List.mem_cons_self, List.mem_cons_self, hhead⟩ ?_
      exact (ih htail).imp fun z w hzw ↦
        ⟨List.mem_cons_of_mem x hzw.1, List.mem_cons_of_mem y hzw.2.1, hzw.2.2⟩

theorem map_eq_map_of_forall₂ {R : α → β → Prop} {p : α → γ} {q : β → γ} {xs : List α}
    {ys : List β} (h : List.Forall₂ R xs ys) (hentry : ∀ x y, R x y → p x = q y) :
    xs.map p = ys.map q := by
  rw [← List.forall₂_eq_eq_eq, List.forall₂_map_left_iff, List.forall₂_map_right_iff]
  exact h.imp hentry

/-- Lists that a view shows the same of look the same in any way that the view decides. -/
theorem map_eq_map_of_map_eq {f : α → γ} {p q : α → δ} {xs ys : List α} (h : xs.map f = ys.map f)
    (hentry : ∀ x y, f x = f y → p x = q y) : xs.map p = ys.map q :=
  map_eq_map_of_forall₂ (forall₂_of_map_eq h) fun x y hxy ↦ hentry x y hxy.2.2

theorem Matches.mapM {R : α → β → Prop} {view : γ → δ} {f : α → Except ε γ} {g : β → Except ε γ}
    {xs : List α} {ys : List β} (h : List.Forall₂ R xs ys)
    (hstep : ∀ x y, R x y → Matches view (f x) (g y)) :
    Matches (List.map view) (xs.mapM f) (ys.mapM g) := by
  induction h with
  | nil => exact .ok rfl
  | cons hxy _ ih =>
    rw [List.mapM_cons, List.mapM_cons]
    refine (hstep _ _ hxy).bind fun z w _ _ hzw ↦ ih.bind fun zs ws _ _ hzws ↦ .ok ?_
    rw [List.map_cons, List.map_cons, hzw, hzws]

theorem Matches.mapM_same {view : β → γ} {f g : α → Except ε β} {xs : List α}
    (hstep : ∀ x, Matches view (f x) (g x)) :
    Matches (List.map view) (xs.mapM f) (xs.mapM g) := by
  have hsame : List.Forall₂ (· = ·) xs xs := List.forall₂_same.mpr fun _ _ ↦ rfl
  exact Matches.mapM hsame fun x y hxy ↦ hxy ▸ hstep x

theorem Matches.foldlM {R : α → β → Prop} {view : σ → δ} {f : σ → α → Except ε σ}
    {g : σ → β → Except ε σ} {xs : List α} {ys : List β} {s t : σ} (h : List.Forall₂ R xs ys)
    (hstep : ∀ x y s t, R x y → view s = view t → Matches view (f s x) (g t y))
    (hstart : view s = view t) : Matches view (xs.foldlM f s) (ys.foldlM g t) := by
  induction h generalizing s t with
  | nil => exact .ok hstart
  | cons hxy _ ih =>
    rw [List.foldlM_cons, List.foldlM_cons]
    exact (hstep _ _ s t hxy hstart).bind fun _ _ _ _ hnext ↦ ih hnext

theorem Matches.forM {f g : α → Except ε Unit} {xs : List α}
    (hstep : ∀ x ∈ xs, Matches id (f x) (g x)) : Matches id (xs.forM f) (xs.forM g) := by
  induction xs with
  | nil => exact .ok rfl
  | cons x xs ih =>
    change Matches id (f x >>= fun _ ↦ xs.forM f) (g x >>= fun _ ↦ xs.forM g)
    exact (hstep x List.mem_cons_self).bind fun _ _ _ _ _ ↦
      ih fun y hy ↦ hstep y (List.mem_cons_of_mem x hy)

/-- Passes over lists in step, whose entries come to the same. -/
theorem mapM_eq_of_forall₂ {R : α → β → Prop} {f : α → Except ε γ} {g : β → Except ε γ}
    {xs : List α} {ys : List β} (h : List.Forall₂ R xs ys)
    (hstep : ∀ x y, R x y → g y = f x) : ys.mapM g = xs.mapM f := by
  induction h with
  | nil => rfl
  | cons hxy _ ih => rw [List.mapM_cons, List.mapM_cons, hstep _ _ hxy, ih]

/-! ### The same errors -/

/-- Computations with the same errors whose results look alike go on in the same way if they go on
alike from what looks alike. -/
theorem map_bind_congr {α' β' : Type} {view : α → γ} {view' : α' → γ} {next : β → δ}
    {next' : β' → δ} {x : Except ε α} {y : Except ε α'} {f : α → Except ε β}
    {g : α' → Except ε β'} (hsame : view <$> x = view' <$> y)
    (hnext : ∀ a b, x = .ok a → y = .ok b → view a = view' b → next <$> f a = next' <$> g b) :
    next <$> (x >>= f) = next' <$> (y >>= g) := by
  cases hx : x with
  | error e =>
    cases hy : y with
    | error e' =>
      rw [hx, hy] at hsame
      obtain rfl := Except.error.inj hsame
      rfl
    | ok b =>
      rw [hx, hy] at hsame
      exact absurd hsame (by simp [Functor.map, Except.map])
  | ok a =>
    cases hy : y with
    | error e =>
      rw [hx, hy] at hsame
      exact absurd hsame (by simp [Functor.map, Except.map])
    | ok b =>
      rw [hx, hy] at hsame
      exact hnext a b hx hy (Except.ok.inj hsame)

theorem map_mapM_congr {view : β → δ} {view' : γ → δ} {f : α → Except ε β} {g : α → Except ε γ}
    {xs : List α} (hstep : ∀ x ∈ xs, view <$> f x = view' <$> g x) :
    List.map view <$> xs.mapM f = List.map view' <$> xs.mapM g := by
  induction xs with
  | nil => rfl
  | cons x xs ih =>
    rw [List.mapM_cons, List.mapM_cons]
    refine map_bind_congr (hstep x List.mem_cons_self) fun y z _ _ hyz ↦ ?_
    refine map_bind_congr (ih fun w hw ↦ hstep w (List.mem_cons_of_mem x hw)) ?_
    intro ys zs _ _ hrest
    exact congrArg Except.ok (List.cons_eq_cons.mpr ⟨hyz, hrest⟩)

theorem map_foldlM_congr {R : α → β → Prop} {view : σ → δ} {f : σ → α → Except ε σ}
    {g : σ → β → Except ε σ} {xs : List α} {ys : List β} {s t : σ} (h : List.Forall₂ R xs ys)
    (hstep : ∀ x y s t, R x y → view s = view t → view <$> f s x = view <$> g t y)
    (hstart : view s = view t) : view <$> xs.foldlM f s = view <$> ys.foldlM g t := by
  induction h generalizing s t with
  | nil => exact congrArg Except.ok hstart
  | cons hxy _ ih =>
    rw [List.foldlM_cons, List.foldlM_cons]
    exact map_bind_congr (hstep _ _ s t hxy hstart) fun _ _ _ _ hnext ↦ ih hnext

/-- The same for passes over one list. -/
theorem map_foldlM_congr_left {view : σ → δ} {f g : σ → α → Except ε σ} {xs : List α} {s t : σ}
    (hstep : ∀ x ∈ xs, ∀ s t, view s = view t → view <$> f s x = view <$> g t x)
    (hstart : view s = view t) : view <$> xs.foldlM f s = view <$> xs.foldlM g t := by
  have hsame : List.Forall₂ (fun x y ↦ x = y ∧ x ∈ xs) xs xs :=
    List.forall₂_same.mpr fun _ hx ↦ ⟨rfl, hx⟩
  refine map_foldlM_congr hsame (fun x y s t hxy hst ↦ ?_) hstart
  obtain ⟨rfl, hx⟩ := hxy
  exact hstep x hx s t hst

/-! ### Passes over mapped entries -/

/-- A pass over mapped entries whose steps come to the mapped results comes to the mapped result. -/
theorem mapM_map_eq {f : α → Except ε γ} {g : β → Except ε δ} {entry : α → β} {result : γ → δ}
    {xs : List α} (hstep : ∀ x ∈ xs, g (entry x) = result <$> f x) :
    (xs.map entry).mapM g = List.map result <$> xs.mapM f := by
  induction xs with
  | nil => rfl
  | cons x xs ih =>
    rw [List.map_cons, List.mapM_cons, List.mapM_cons, hstep x List.mem_cons_self,
      ih fun y hy ↦ hstep y (List.mem_cons_of_mem x hy)]
    simp only [map_bind, map_pure, bind_map_left, List.map_cons]

/-- The same for a pass whose steps rely on something that they keep. -/
theorem foldlM_map_eq_of_keeps {f : σ → α → Except ε σ} {g : τ → β → Except ε τ} {entry : α → β}
    {v : σ → τ} {xs : List α} {s : σ} (P : σ → Prop)
    (hstep : ∀ x ∈ xs, ∀ s, P s →
      g (v s) (entry x) = v <$> f s x ∧ ∀ t, f s x = .ok t → P t)
    (hstart : P s) : (xs.map entry).foldlM g (v s) = v <$> xs.foldlM f s := by
  induction xs generalizing s with
  | nil => rfl
  | cons x xs ih =>
    obtain ⟨hsame, hkept⟩ := hstep x List.mem_cons_self s hstart
    rw [List.map_cons, List.foldlM_cons, List.foldlM_cons, hsame]
    cases hnext : f s x with
    | error e => rfl
    | ok next => exact ih (fun y hy ↦ hstep y (List.mem_cons_of_mem x hy)) (hkept next hnext)

theorem foldlM_map_eq {f : σ → α → Except ε σ} {g : τ → β → Except ε τ} {entry : α → β}
    {v : σ → τ} {xs : List α} {s : σ}
    (hstep : ∀ x ∈ xs, ∀ s, g (v s) (entry x) = v <$> f s x) :
    (xs.map entry).foldlM g (v s) = v <$> xs.foldlM f s :=
  foldlM_map_eq_of_keeps (fun _ ↦ True) (fun x hx s _ ↦ ⟨hstep x hx s, fun _ _ ↦ trivial⟩) trivial

end ClassMap.Traversal

import Mathlib.Data.List.Forall2
import Mathlib.Data.List.Perm.Basic

/-!
Passes over a list that end at the first error. A pass that succeeds has succeeded on every entry,
and whatever each of its steps keeps, the whole pass keeps.
-/

set_option autoImplicit false
set_option relaxedAutoImplicit false

namespace ClassMap.Traversal

variable {ε α β σ : Type}

theorem bind_eq_ok_iff {x : Except ε α} {f : α → Except ε β} {b : β} :
    (x >>= f) = .ok b ↔ ∃ a, x = .ok a ∧ f a = .ok b := by
  cases x with
  | error e => simp [bind, Except.bind]
  | ok a => simp [bind, Except.bind]

theorem bind_eq_error_iff {x : Except ε α} {f : α → Except ε β} {e : ε} :
    (x >>= f) = .error e ↔ x = .error e ∨ ∃ a, x = .ok a ∧ f a = .error e := by
  cases x with
  | error e => simp [bind, Except.bind]
  | ok a => simp [bind, Except.bind]

theorem pure_eq_ok_iff {a b : α} : (pure a : Except ε α) = .ok b ↔ a = b := by
  simp [pure, Except.pure]

/-- Computations that start in the same way and go on alike after what they start with. -/
theorem bind_congr_ok {x : Except ε α} {f g : α → Except ε β}
    (h : ∀ a, x = .ok a → f a = g a) : (x >>= f) = (x >>= g) := by
  cases x with
  | error e => rfl
  | ok a => exact h a rfl

/-- Two computations that go on in the same way, the first of them under a condition. -/
theorem bind_eq_ok_iff_and {x y : Except ε α} {f : α → Except ε β} {b : β} {P : Prop}
    (h : ∀ a, x = .ok a ↔ y = .ok a ∧ P) : (x >>= f) = .ok b ↔ (y >>= f) = .ok b ∧ P := by
  simp only [bind_eq_ok_iff, h]
  constructor
  · rintro ⟨a, ⟨ha, hP⟩, hb⟩
    exact ⟨⟨a, ha, hb⟩, hP⟩
  · rintro ⟨⟨a, ha, hb⟩, hP⟩
    exact ⟨a, ⟨ha, hP⟩, hb⟩

/-- Two computations that start in the same way, the first of them going on under a condition. -/
theorem bind_congr_and {x : Except ε α} {f g : α → Except ε β} {b : β} {P : Prop}
    (h : ∀ a, x = .ok a → (f a = .ok b ↔ g a = .ok b ∧ P)) :
    (x >>= f) = .ok b ↔ (x >>= g) = .ok b ∧ P := by
  cases x with
  | error e => simp [bind, Except.bind]
  | ok a => exact h a rfl

theorem discard_eq_ok_iff {x : Except ε α} : (discard x : Except ε Unit) = .ok () ↔
    ∃ a, x = .ok a := by
  cases x with
  | error e => simp [discard, Functor.discard, Functor.mapConst, Except.map]
  | ok a => simp [discard, Functor.discard, Functor.mapConst, Except.map]

theorem exists_eq_ok_of_toBool {x : Except ε α} (h : x.toBool = true) : ∃ a, x = .ok a := by
  cases x with
  | error e => exact absurd h (by simp [Except.toBool])
  | ok a => exact ⟨a, rfl⟩

theorem exists_eq_ok_of_map {x : Except ε α} {f : α → β} {b : β} (h : x.map f = .ok b) :
    ∃ a, x = .ok a ∧ f a = b := by
  cases x with
  | error e => exact absurd h (by simp [Except.map])
  | ok a => exact ⟨a, rfl, Except.ok.inj h⟩

theorem exists_eq_error_of_toBool {x : Except ε α} (h : x.toBool = false) :
    ∃ e, x = .error e := by
  cases x with
  | error e => exact ⟨e, rfl⟩
  | ok a => exact absurd h (by simp [Except.toBool])

theorem mapM_eq_ok_iff {f : α → Except ε β} {xs : List α} {ys : List β} :
    xs.mapM f = .ok ys ↔ List.Forall₂ (fun x y ↦ f x = .ok y) xs ys := by
  induction xs generalizing ys with
  | nil =>
    rw [List.mapM_nil, pure_eq_ok_iff, List.forall₂_nil_left_iff]
    exact eq_comm
  | cons x xs ih =>
    rw [List.mapM_cons]
    simp only [bind_eq_ok_iff, pure_eq_ok_iff]
    constructor
    · intro hpass
      obtain ⟨y, hy, rest, hrest, rfl⟩ := hpass
      exact List.Forall₂.cons hy (ih.mp hrest)
    · intro h
      cases h with
      | cons hy hrest => exact ⟨_, hy, _, ih.mpr hrest, rfl⟩

/-- In two lists that are in step, each entry has another one beside it. -/
theorem exists_mem_of_forall₂ {R : α → β → Prop} {xs : List α} {ys : List β}
    (h : List.Forall₂ R xs ys) {x : α} (hx : x ∈ xs) : ∃ y ∈ ys, R x y := by
  induction h with
  | nil => exact absurd hx List.not_mem_nil
  | @cons z y _ _ hzy _ ih =>
    rcases List.mem_cons.mp hx with rfl | hx
    · exact ⟨y, List.mem_cons_self, hzy⟩
    · obtain ⟨w, hw, hxw⟩ := ih hx
      exact ⟨w, List.mem_cons_of_mem y hw, hxw⟩

theorem exists_mapM_of_mem {f : α → Except ε β} {xs : List α} {ys : List β}
    (h : xs.mapM f = .ok ys) {x : α} (hx : x ∈ xs) : ∃ y ∈ ys, f x = .ok y :=
  exists_mem_of_forall₂ (mapM_eq_ok_iff.mp h) hx

theorem exists_of_mem_mapM {f : α → Except ε β} {xs : List α} {ys : List β}
    (h : xs.mapM f = .ok ys) {y : β} (hy : y ∈ ys) : ∃ x ∈ xs, f x = .ok y :=
  exists_mem_of_forall₂ (mapM_eq_ok_iff.mp h).flip hy

theorem exists_mapM {f : α → Except ε β} {xs : List α} (h : ∀ x ∈ xs, ∃ y, f x = .ok y) :
    ∃ ys, xs.mapM f = .ok ys := by
  induction xs with
  | nil => exact ⟨[], rfl⟩
  | cons x xs ih =>
    obtain ⟨y, hy⟩ := h x List.mem_cons_self
    obtain ⟨ys, hys⟩ := ih fun z hz ↦ h z (List.mem_cons_of_mem x hz)
    refine ⟨y :: ys, ?_⟩
    rw [List.mapM_cons, hy, hys]
    rfl

theorem mapM_congr {f g : α → Except ε β} {xs : List α} (h : ∀ x ∈ xs, f x = g x) :
    xs.mapM f = xs.mapM g := by
  induction xs with
  | nil => rfl
  | cons x rest ih =>
    obtain ⟨hx, hrest⟩ := List.forall_mem_cons.mp h
    rw [List.mapM_cons, List.mapM_cons, hx, ih hrest]

/-- Passes whose steps differ in a condition on the entry differ in the condition on all entries. -/
theorem mapM_eq_ok_iff_and {f g : α → Except ε β} {P : α → Prop} {xs : List α} {ys : List β}
    (hstep : ∀ x ∈ xs, ∀ y, f x = .ok y ↔ g x = .ok y ∧ P x) :
    xs.mapM f = .ok ys ↔ xs.mapM g = .ok ys ∧ ∀ x ∈ xs, P x := by
  induction xs generalizing ys with
  | nil => simp
  | cons x xs ih =>
    have hrest : ∀ zs, xs.mapM f = .ok zs ↔ xs.mapM g = .ok zs ∧ ∀ z ∈ xs, P z :=
      fun zs ↦ ih fun z hz ↦ hstep z (List.mem_cons_of_mem x hz)
    simp only [List.mapM_cons, bind_eq_ok_iff, pure_eq_ok_iff, hrest,
      hstep x List.mem_cons_self, List.forall_mem_cons]
    constructor
    · rintro ⟨y, ⟨hy, hx⟩, zs, ⟨hzs, hxs⟩, rfl⟩
      exact ⟨⟨y, hy, zs, hzs, rfl⟩, hx, hxs⟩
    · rintro ⟨⟨y, hy, zs, hzs, rfl⟩, hx, hxs⟩
      exact ⟨y, ⟨hy, hx⟩, zs, ⟨hzs, hxs⟩, rfl⟩

/-- What the results show of the entries they come from. -/
theorem map_eq_map_of_mapM {γ : Type} {f : α → Except ε β} {p : α → γ} {q : β → γ} {xs : List α}
    {ys : List β} (h : xs.mapM f = .ok ys)
    (hstep : ∀ x ∈ xs, ∀ y, f x = .ok y → q y = p x) : ys.map q = xs.map p := by
  have hall := mapM_eq_ok_iff.mp h
  clear h
  induction hall with
  | nil => rfl
  | @cons x y xs ys hxy _ ih =>
    have hhead := hstep x List.mem_cons_self y hxy
    have htail := ih fun z hz w hw ↦ hstep z (List.mem_cons_of_mem x hz) w hw
    rw [List.map_cons, List.map_cons, hhead, htail]

/-- Two passes that show the same of each entry show the same in the end. -/
theorem exists_mapM_map_eq {γ δ : Type} {f : α → Except ε β} {g : α → Except ε γ} {p : β → δ}
    {q : γ → δ} {xs : List α} {ys : List β}
    (hstep : ∀ x ∈ xs, ∀ y, f x = .ok y → ∃ z, g x = .ok z ∧ q z = p y)
    (h : xs.mapM f = .ok ys) : ∃ zs, xs.mapM g = .ok zs ∧ zs.map q = ys.map p := by
  have hall := mapM_eq_ok_iff.mp h
  clear h
  induction hall with
  | nil => exact ⟨[], rfl, rfl⟩
  | @cons x y xs ys hxy _ ih =>
    obtain ⟨z, hz, hzy⟩ := hstep x List.mem_cons_self y hxy
    obtain ⟨zs, hzs, hmap⟩ := ih fun w hw ↦ hstep w (List.mem_cons_of_mem x hw)
    refine ⟨z :: zs, ?_, ?_⟩
    · rw [List.mapM_cons, hz, hzs]
      rfl
    · rw [List.map_cons, List.map_cons, hzy, hmap]

/-- An entry stands across from what it comes to, and from nothing else. -/
theorem mem_zip_iff_of_mapM {f : α → Except ε β} {xs : List α} {ys : List β}
    (h : xs.mapM f = .ok ys) {x : α} {y : β} : (x, y) ∈ xs.zip ys ↔ x ∈ xs ∧ f x = .ok y := by
  have hall := mapM_eq_ok_iff.mp h
  clear h
  induction hall with
  | nil => simp
  | @cons z w xs ys hzw _ ih =>
    rw [List.zip_cons_cons, List.mem_cons, List.mem_cons]
    constructor
    · intro hmem
      rcases hmem with heq | hrest
      · obtain ⟨rfl, rfl⟩ := Prod.mk.inj heq
        exact ⟨Or.inl rfl, hzw⟩
      · obtain ⟨hx, hxy⟩ := ih.mp hrest
        exact ⟨Or.inr hx, hxy⟩
    · intro hentry
      rcases hentry with ⟨rfl | hx, hxy⟩
      · obtain rfl := Except.ok.inj (hzw.symm.trans hxy)
        exact Or.inl rfl
      · exact Or.inr (ih.mpr ⟨hx, hxy⟩)

/-- The first entry of some kind comes to the first result of that kind. -/
theorem exists_find?_of_mapM {f : α → Except ε β} {p : α → Bool} {q : β → Bool} {xs : List α}
    {ys : List β} (h : xs.mapM f = .ok ys) (hstep : ∀ x y, f x = .ok y → q y = p x) {x : α}
    (hx : xs.find? p = some x) : ∃ y, f x = .ok y ∧ ys.find? q = some y := by
  have hall := mapM_eq_ok_iff.mp h
  clear h
  induction hall with
  | nil => exact absurd hx (by simp)
  | @cons z w xs ys hzw _ ih =>
    rw [List.find?_cons] at hx ⊢
    rw [hstep z w hzw]
    split at hx
    · obtain rfl := Option.some.inj hx
      exact ⟨w, hzw, rfl⟩
    · exact ih hx

theorem forM_eq_ok_iff {f : α → Except ε Unit} {xs : List α} :
    xs.forM f = .ok () ↔ ∀ x ∈ xs, f x = .ok () := by
  induction xs with
  | nil => simp [pure, Except.pure]
  | cons x xs ih =>
    change (f x >>= fun _ ↦ xs.forM f) = .ok () ↔ _
    rw [bind_eq_ok_iff, List.forall_mem_cons]
    constructor
    · intro hpass
      obtain ⟨_, hx, hrest⟩ := hpass
      exact ⟨hx, ih.mp hrest⟩
    · intro hsteps
      obtain ⟨hx, hrest⟩ := hsteps
      exact ⟨(), hx, ih.mpr hrest⟩

/-- A property that every step of a pass keeps holds at its end. -/
theorem foldlM_keeps {f : σ → α → Except ε σ} {xs : List α} {start last : σ} (P : σ → Prop)
    (h : xs.foldlM f start = .ok last)
    (hstep : ∀ x ∈ xs, ∀ s t, f s x = .ok t → P s → P t) (hstart : P start) : P last := by
  induction xs generalizing start with
  | nil =>
    rw [List.foldlM_nil, pure_eq_ok_iff] at h
    exact h ▸ hstart
  | cons x xs ih =>
    rw [List.foldlM_cons, bind_eq_ok_iff] at h
    obtain ⟨next, hnext, hrest⟩ := h
    exact ih hrest (fun y hy ↦ hstep y (List.mem_cons_of_mem x hy))
      (hstep x List.mem_cons_self _ _ hnext hstart)

/-- A pass succeeds if each of its steps does, as long as the steps keep what they rely on. -/
theorem exists_foldlM_of_keeps {f : σ → α → Except ε σ} {xs : List α} {start : σ} (P : σ → Prop)
    (hstep : ∀ x ∈ xs, ∀ s, P s → ∃ t, f s x = .ok t ∧ P t) (hstart : P start) :
    ∃ last, xs.foldlM f start = .ok last ∧ P last := by
  induction xs generalizing start with
  | nil => exact ⟨start, rfl, hstart⟩
  | cons x xs ih =>
    obtain ⟨next, hnext, hkept⟩ := hstep x List.mem_cons_self start hstart
    obtain ⟨last, hlast, hend⟩ := ih (fun y hy ↦ hstep y (List.mem_cons_of_mem x hy)) hkept
    refine ⟨last, ?_, hend⟩
    rw [List.foldlM_cons]
    exact bind_eq_ok_iff.mpr ⟨next, hnext, hlast⟩

/-- Passes whose steps are the same on the entries of a list are the same. -/
theorem foldlM_congr {f g : σ → α → Except ε σ} {xs : List α} {start : σ}
    (hstep : ∀ x ∈ xs, ∀ s, f s x = g s x) : xs.foldlM f start = xs.foldlM g start := by
  induction xs generalizing start with
  | nil => rfl
  | cons x xs ih =>
    rw [List.foldlM_cons, List.foldlM_cons, hstep x List.mem_cons_self]
    exact congrArg _ (funext fun s ↦ ih fun y hy ↦ hstep y (List.mem_cons_of_mem x hy))

/-- Two passes over a list that start alike and keep alike end alike: the second succeeds when the
first does. -/
theorem exists_foldlM {τ : Type} {f : σ → α → Except ε σ} {g : τ → α → Except ε τ}
    {R : σ → τ → Prop} {xs : List α} {start last : σ} {start' : τ}
    (hstep : ∀ x ∈ xs, ∀ s s' t, R s t → f s x = .ok s' → ∃ t', g t x = .ok t' ∧ R s' t')
    (hstart : R start start') (h : xs.foldlM f start = .ok last) :
    ∃ last', xs.foldlM g start' = .ok last' ∧ R last last' := by
  induction xs generalizing start start' with
  | nil =>
    obtain rfl := pure_eq_ok_iff.mp h
    exact ⟨start', rfl, hstart⟩
  | cons x xs ih =>
    rw [List.foldlM_cons] at h
    obtain ⟨middle, hmiddle, hrest⟩ := bind_eq_ok_iff.mp h
    obtain ⟨middle', hmiddle', hagree⟩ := hstep x List.mem_cons_self _ _ _ hstart hmiddle
    obtain ⟨last', hlast', hend⟩ :=
      ih (fun y hy ↦ hstep y (List.mem_cons_of_mem x hy)) hagree hrest
    refine ⟨last', ?_, hend⟩
    rw [List.foldlM_cons]
    exact bind_eq_ok_iff.mpr ⟨middle', hmiddle', hlast'⟩

/-- A pass that reads the entries and gathers what it has read on the way. -/
theorem exists_mapM_of_foldlM {f : α → Except ε β} {gather : σ → β → σ} {xs : List α}
    {start last : σ} (h : xs.foldlM (fun s x ↦ do return gather s (← f x)) start = .ok last) :
    ∃ ys, xs.mapM f = .ok ys ∧ last = ys.foldl gather start := by
  induction xs generalizing start with
  | nil => exact ⟨[], rfl, (pure_eq_ok_iff.mp h).symm⟩
  | cons x xs ih =>
    rw [List.foldlM_cons] at h
    obtain ⟨next, hnext, hrest⟩ := bind_eq_ok_iff.mp h
    obtain ⟨y, hy, hgathered⟩ := bind_eq_ok_iff.mp hnext
    obtain rfl := pure_eq_ok_iff.mp hgathered
    obtain ⟨ys, hys, hlast⟩ := ih hrest
    refine ⟨y :: ys, ?_, hlast⟩
    rw [List.mapM_cons, hy, hys]
    rfl

/-- A pass that ends with an error has met it at one of the entries. -/
theorem exists_error_of_foldlM {f : σ → α → Except ε σ} {xs : List α} {start : σ} {e : ε}
    (h : xs.foldlM f start = .error e) : ∃ x ∈ xs, ∃ s, f s x = .error e := by
  induction xs generalizing start with
  | nil => exact absurd h (by simp [pure, Except.pure])
  | cons x xs ih =>
    rw [List.foldlM_cons] at h
    cases hstep : f start x with
    | error e' =>
      rw [hstep] at h
      exact ⟨x, List.mem_cons_self, start, hstep.trans h⟩
    | ok next =>
      rw [hstep] at h
      obtain ⟨y, hy, s, herror⟩ := ih h
      exact ⟨y, List.mem_cons_of_mem x hy, s, herror⟩

/-- A pass that carries something along ends, and fails, like the pass without it, if each of its
steps does, as long as the steps keep what they rely on. -/
theorem map_fst_foldlM {τ : Type} {F : σ × τ → α → Except ε (σ × τ)} {G : σ → α → Except ε σ}
    {xs : List α} {carried : τ} (P : τ → Prop) (start : σ)
    (hstep : ∀ x ∈ xs, ∀ s t, P t → (F (s, t) x).map Prod.fst = G s x ∧
      ∀ s' t', F (s, t) x = .ok (s', t') → P t')
    (hstart : P carried) :
    (xs.foldlM F (start, carried)).map Prod.fst = xs.foldlM G start ∧
      ∀ s t, xs.foldlM F (start, carried) = .ok (s, t) → P t := by
  induction xs generalizing start carried with
  | nil =>
    refine ⟨rfl, fun s t hlast ↦ ?_⟩
    obtain ⟨-, rfl⟩ := Prod.mk.inj (pure_eq_ok_iff.mp hlast)
    exact hstart
  | cons x xs ih =>
    obtain ⟨hsame, hkept⟩ := hstep x List.mem_cons_self start carried hstart
    simp only [List.foldlM_cons, ← hsame]
    cases hnext : F (start, carried) x with
    | error e => exact ⟨rfl, fun s t hlast ↦ absurd hlast (by simp [bind, Except.bind])⟩
    | ok next =>
      obtain ⟨s, t⟩ := next
      exact ih s (fun y hy ↦ hstep y (List.mem_cons_of_mem x hy)) (hkept s t hnext)

theorem exists_error_of_mapM {f : α → Except ε β} {xs : List α} {e : ε}
    (h : xs.mapM f = .error e) : ∃ x ∈ xs, f x = .error e := by
  induction xs with
  | nil => exact absurd h (by simp [pure, Except.pure])
  | cons x xs ih =>
    rw [List.mapM_cons] at h
    rcases bind_eq_error_iff.mp h with herror | ⟨y, -, hrest⟩
    · exact ⟨x, List.mem_cons_self, herror⟩
    rcases bind_eq_error_iff.mp hrest with herror | ⟨ys, -, hpure⟩
    · obtain ⟨z, hz, herror⟩ := ih herror
      exact ⟨z, List.mem_cons_of_mem x hz, herror⟩
    · exact absurd hpure (by simp [pure, Except.pure])

theorem lookup_eq_some_of_mem [DecidableEq α] {entries : List (α × β)} {key : α} {value : β}
    (hnodup : (entries.map (·.1)).Nodup) (hmem : (key, value) ∈ entries) :
    entries.lookup key = some value := by
  induction entries with
  | nil => exact absurd hmem List.not_mem_nil
  | cons entry rest ih =>
    rw [List.map_cons, List.nodup_cons] at hnodup
    rcases List.mem_cons.mp hmem with rfl | hrest
    · exact List.lookup_cons_self
    · have hne : key ≠ entry.1 := fun h ↦ hnodup.1 (h ▸ List.mem_map_of_mem hrest)
      rw [show entry = (entry.1, entry.2) from rfl, List.lookup_cons, beq_false_of_ne hne]
      exact ih hnodup.2 hrest

/-- What is left out of a list does not count where nothing is made of it. -/
theorem filterMap_filter_of_eq_none {f : α → Option β} {keep : α → Bool} {xs : List α}
    (hf : ∀ x, keep x = false → f x = none) : (xs.filter keep).filterMap f = xs.filterMap f := by
  rw [List.filterMap_filter]
  refine List.filterMap_congr fun x _ ↦ ?_
  cases hkeep : keep x with
  | true => rfl
  | false => exact (hf x hkeep).symm

/-- A rearranged list is read as well, and what is read is rearranged with it. -/
theorem exists_mapM_of_perm {f : α → Except ε β} {xs xs' : List α}
    {ys : List β} (hperm : xs'.Perm xs) (h : xs.mapM f = .ok ys) :
    ∃ ys', xs'.mapM f = .ok ys' ∧ ys'.Perm ys := by
  obtain ⟨ys', hall, hys⟩ := List.perm_comp_forall₂ hperm (mapM_eq_ok_iff.mp h)
  exact ⟨ys', mapM_eq_ok_iff.mpr hall, hys⟩

/-- Two lists whose entries have the same keys in the same order are read alike, if entries with the
same key are. -/
theorem mapM_eq_ok_of_map_eq {γ : Type} {f g : α → Except ε β} {key : α → γ} {xs xs' : List α}
    {ys : List β} (hkeys : xs'.map key = xs.map key) (h : xs.mapM f = .ok ys)
    (hstep : ∀ x ∈ xs, ∀ x' ∈ xs', key x' = key x → ∀ y, f x = .ok y → g x' = .ok y) :
    xs'.mapM g = .ok ys := by
  have hall := mapM_eq_ok_iff.mp h
  clear h
  induction hall generalizing xs' with
  | nil =>
    obtain rfl := List.map_eq_nil_iff.mp hkeys
    rfl
  | @cons x y xs ys hxy _ ih =>
    obtain ⟨x', rest, rfl, hkey, hrest⟩ := List.map_eq_cons_iff.mp hkeys
    have hread := hstep x List.mem_cons_self x' List.mem_cons_self hkey y hxy
    have hothers := ih hrest fun z hz z' hz' ↦
      hstep z (List.mem_cons_of_mem x hz) z' (List.mem_cons_of_mem x' hz')
    rw [List.mapM_cons, hread, hothers]
    rfl

/-- What goes with the same entries in two lists that are in step. -/
theorem forall₂_of_forall₂ {γ : Type} {R : α → β → Prop} {S : α → γ → Prop}
    {T : β → γ → Prop} {xs : List α} {ys : List β} {zs : List γ} (hys : List.Forall₂ R xs ys)
    (hzs : List.Forall₂ S xs zs) (h : ∀ x y z, R x y → S x z → T y z) : List.Forall₂ T ys zs := by
  induction hys generalizing zs with
  | nil => exact List.forall₂_nil_left_iff.mp hzs ▸ .nil
  | cons hy _ ih =>
    obtain ⟨z, rest, hz, hrest, rfl⟩ := List.forall₂_cons_left_iff.mp hzs
    exact .cons (h _ _ _ hy hz) (ih hrest)

end ClassMap.Traversal

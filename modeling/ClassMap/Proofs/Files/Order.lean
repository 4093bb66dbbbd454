import ClassMap.Files.Path

/-!
The order of paths. Components are in a linear order, the root and the dots before the names, and
paths are compared by the first components in which they differ; so two paths of which each comes
before the other are the same path, whatever way they are written.
-/

set_option autoImplicit false
set_option relaxedAutoImplicit false

namespace ClassMap.Path

/-! ### Components -/

namespace Component

theorem le_total (a b : Component) : a.le b = true ∨ b.le a = true := by
  cases a <;> cases b <;> simp [le, rank, String.le_total]

theorem le_antisymm {a b : Component} (hab : a.le b = true) (hba : b.le a = true) : a = b := by
  cases a <;> cases b
  case name.name s t =>
    exact congrArg name (String.le_antisymm (of_decide_eq_true hab) (of_decide_eq_true hba))
  all_goals simp_all [le, rank]

theorem le_trans {a b c : Component} (hab : a.le b = true) (hbc : b.le c = true) :
    a.le c = true := by
  cases a <;> cases b <;> cases c
  case name.name.name s t u =>
    exact decide_eq_true (String.le_trans (of_decide_eq_true hab) (of_decide_eq_true hbc))
  all_goals simp_all [le, rank]

end Component

/-! ### Component by component -/

variable {a b : Component} {as bs cs : List Component}

theorem componentsLe_cons_iff : componentsLe (a :: as) (b :: bs) = true ↔
    (a = b ∧ componentsLe as bs = true) ∨ (a ≠ b ∧ a.le b = true) := by
  rw [componentsLe]
  by_cases hab : a = b <;> simp [hab]

theorem componentsLe_total (as bs : List Component) :
    componentsLe as bs = true ∨ componentsLe bs as = true := by
  induction as generalizing bs with
  | nil => exact Or.inl rfl
  | cons a as ih =>
    cases bs with
    | nil => exact Or.inr rfl
    | cons b bs =>
      rw [componentsLe_cons_iff, componentsLe_cons_iff]
      by_cases hab : a = b
      · exact (ih bs).imp (fun h ↦ Or.inl ⟨hab, h⟩) fun h ↦ Or.inl ⟨hab.symm, h⟩
      · exact (Component.le_total a b).imp (fun h ↦ Or.inr ⟨hab, h⟩)
          fun h ↦ Or.inr ⟨Ne.symm hab, h⟩

theorem componentsLe_antisymm (hab : componentsLe as bs = true)
    (hba : componentsLe bs as = true) : as = bs := by
  induction as generalizing bs with
  | nil =>
    cases bs with
    | nil => rfl
    | cons b bs => exact Bool.noConfusion hba
  | cons a as ih =>
    cases bs with
    | nil => exact Bool.noConfusion hab
    | cons b bs =>
      rw [componentsLe_cons_iff] at hab hba
      rcases hab with ⟨rfl, hab⟩ | ⟨hne, hab⟩
      · rcases hba with ⟨-, hba⟩ | ⟨hne, -⟩
        · rw [ih hab hba]
        · exact absurd rfl hne
      · rcases hba with ⟨rfl, -⟩ | ⟨-, hba⟩
        · exact absurd rfl hne
        · exact absurd (Component.le_antisymm hab hba) hne

theorem componentsLe_trans (hab : componentsLe as bs = true) (hbc : componentsLe bs cs = true) :
    componentsLe as cs = true := by
  induction as generalizing bs cs with
  | nil => rfl
  | cons a as ih =>
    cases bs with
    | nil => exact Bool.noConfusion hab
    | cons b bs =>
      cases cs with
      | nil => exact Bool.noConfusion hbc
      | cons c cs =>
        rw [componentsLe_cons_iff] at hab hbc ⊢
        rcases hab with ⟨rfl, hab⟩ | ⟨hfirst, hab⟩
        · rcases hbc with ⟨rfl, hbc⟩ | ⟨hlast, hbc⟩
          · exact Or.inl ⟨rfl, ih hab hbc⟩
          · exact Or.inr ⟨hlast, hbc⟩
        · rcases hbc with ⟨rfl, -⟩ | ⟨-, hbc⟩
          · exact Or.inr ⟨hfirst, hab⟩
          · refine Or.inr ⟨?_, Component.le_trans hab hbc⟩
            rintro rfl
            exact hfirst (Component.le_antisymm hab hbc)

/-! ### Paths -/

variable {p q r : String}

theorem le_total (p q : String) : le p q = true ∨ le q p = true :=
  componentsLe_total _ _

theorem le_trans (hpq : le p q = true) (hqr : le q r = true) : le p r = true :=
  componentsLe_trans hpq hqr

theorem same_iff : same p q = true ↔ components p = components q :=
  beq_iff_eq

theorem same_of_le (hpq : le p q = true) (hqp : le q p = true) : same p q = true :=
  same_iff.mpr (componentsLe_antisymm hpq hqp)

/-- What comes after a path comes after it in any way to write it. -/
theorem le_congr (h : same p q = true) : le p r = le q r := by
  rw [le, le, same_iff.mp h]

theorem same_congr (h : same p q = true) : same p r = same q r := by
  rw [same, same, same_iff.mp h]

end ClassMap.Path

import ClassMap.Text.Case

/-!
The two ways of comparing names without regard to case. Small forms only get coarser when the
capitals of the Latin alphabet have been made small before, so names that are the same as column
names are the same as table names.
-/

set_option autoImplicit false
set_option relaxedAutoImplicit false

namespace ClassMap.Text

/-- The capitals `A` to `Z`. -/
def capitals : List Char :=
  (List.range' 65 26).map Char.ofNat

theorem toLower_eq_self_or (c : Char) : c.toLower = c ∨ c ∈ capitals := by
  by_cases h : c.val ≥ 'A'.val ∧ c.val ≤ 'Z'.val
  · refine Or.inr (List.mem_map.mpr ⟨c.toNat, ?_, Char.ofNat_toNat c⟩)
    have hlow : 65 ≤ c.toNat := h.1
    have hhigh : c.toNat ≤ 90 := h.2
    simp only [List.mem_range'_1]
    omega
  · exact Or.inl (dif_neg h)

/-- What does not tell a capital from its small letter does not see that letters are made small. -/
theorem eq_toLower {β : Type} (f : Char → β)
    (h : capitals.map f = capitals.map fun c ↦ f c.toLower) (c : Char) : f c = f c.toLower := by
  rcases toLower_eq_self_or c with hself | hcapital
  · rw [hself]
  · exact List.map_inj_left.mp h c hcapital

theorem lowerChar_toLower (c : Char) : lowerChar c.toLower = lowerChar c :=
  (eq_toLower lowerChar (by decide +kernel) c).symm

theorem isSigma_toLower (c : Char) : (c.toLower.toNat == 0x3A3) = (c.toNat == 0x3A3) :=
  (eq_toLower (fun c ↦ c.toNat == 0x3A3) (by decide +kernel) c).symm

theorem isIgnorable_toLower (c : Char) :
    inRanges caseIgnorableRanges c.toLower = inRanges caseIgnorableRanges c :=
  (eq_toLower (inRanges caseIgnorableRanges) (by decide +kernel) c).symm

theorem isCased_toLower (c : Char) : inRanges casedRanges c.toLower = inRanges casedRanges c :=
  (eq_toLower (inRanges casedRanges) (by decide +kernel) c).symm

theorem meetsLetter_map_toLower (cs : List Char) :
    meetsLetter (cs.map Char.toLower) = meetsLetter cs := by
  induction cs with
  | nil => rfl
  | cons c rest ih =>
    unfold meetsLetter at ih ⊢
    rw [List.map_cons, List.dropWhile_cons, List.dropWhile_cons, isIgnorable_toLower]
    cases inRanges caseIgnorableRanges c with
    | true => exact ih
    | false => exact isCased_toLower c

theorem lowerAfter_map_toLower (before cs : List Char) :
    lowerAfter (before.map Char.toLower) (cs.map Char.toLower) = lowerAfter before cs := by
  induction cs generalizing before with
  | nil => rfl
  | cons c rest ih =>
    rw [List.map_cons, lowerAfter, lowerAfter, isSigma_toLower, meetsLetter_map_toLower,
      meetsLetter_map_toLower, lowerChar_toLower, ← ih (c :: before), List.map_cons]

theorem lower_foldLatin (s : String) : lower (foldLatin s) = lower s := by
  have hlist : (foldLatin s).toList = s.toList.map Char.toLower := by
    simp [foldLatin]
  rw [lower, lower, hlist]
  exact congrArg String.ofList (lowerAfter_map_toLower [] s.toList)

/-- Names that are the same as names of columns have the same small form. -/
theorem lower_eq_of_sameName {a b : String} (h : sameName a b = true) : lower a = lower b := by
  rw [← lower_foldLatin a, ← lower_foldLatin b, sameName_iff.mp h]

end ClassMap.Text

import ClassMap.Proofs.Text.Entries

/-!
Numbers are written in decimal digits without a sign or leading zeros, a minus sign for negative
ones aside, and what is written so is read back. A written number has no blanks.
-/

set_option autoImplicit false
set_option relaxedAutoImplicit false

namespace ClassMap.Text

theorem digitsAfter?_append {value read : Nat} {cs ds : List Char}
    (hread : digitsAfter? value cs = some read) :
    digitsAfter? value (cs ++ ds) = digitsAfter? read ds := by
  induction cs generalizing value with
  | nil => rw [List.nil_append, ← Option.some.inj hread]
  | cons c rest ih =>
    rw [digitsAfter?] at hread
    rw [List.cons_append, digitsAfter?]
    split
    · rename_i hdigit
      rw [if_pos hdigit] at hread
      exact ih hread
    · rename_i hdigit
      rw [if_neg hdigit] at hread
      exact absurd hread (by simp)

theorem digitsAfter?_digitChar {value n : Nat} (hn : n < 10) :
    digitsAfter? value [n.digitChar] = some (value * 10 + n) := by
  have hvalue : ∀ k : Fin 10, (k.val.digitChar).isDigit = true ∧
      (k.val.digitChar).toNat - '0'.toNat = k.val := by
    decide
  obtain ⟨hdigit, hcode⟩ := hvalue ⟨n, hn⟩
  rw [digitsAfter?, if_pos hdigit, hcode, digitsAfter?]

/-- The digits of a number give the number. -/
theorem digitsAfter?_toDigits (n : Nat) : digitsAfter? 0 (Nat.toDigits 10 n) = some n := by
  induction n using Nat.strong_induction_on with
  | _ n ih =>
    rw [Nat.toDigits_eq_if (by decide)]
    split
    · rename_i hsmall
      rw [digitsAfter?_digitChar hsmall, Nat.zero_mul, Nat.zero_add]
    · rename_i hlarge
      rw [digitsAfter?_append (ih (n / 10) (by omega)),
        digitsAfter?_digitChar (Nat.mod_lt n (by decide))]
      congr 1
      omega

theorem digits?_toDigits (n : Nat) : digits? (Nat.toDigits 10 n) = some n := by
  have hread := digitsAfter?_toDigits n
  unfold digits?
  split
  · rename_i hnil
    exact absurd hnil Nat.toDigits_ne_nil
  · exact hread

theorem isDigit_of_mem_toDigits {n : Nat} {c : Char} (hc : c ∈ Nat.toDigits 10 n) :
    c.isDigit = true :=
  Nat.isDigit_of_mem_toDigits (by decide) (by decide) hc

/-- A written number that is not negative begins with a digit. -/
theorem exists_toDigits_eq_cons (n : Nat) :
    ∃ c rest, Nat.toDigits 10 n = c :: rest ∧ c.isDigit = true := by
  cases hdigits : Nat.toDigits 10 n with
  | nil => exact absurd hdigits Nat.toDigits_ne_nil
  | cons c rest => exact ⟨c, rest, rfl, isDigit_of_mem_toDigits (hdigits ▸ List.mem_cons_self)⟩

/-- A digit is neither a sign nor blank. -/
theorem plain_of_isDigit {c : Char} (hc : c.isDigit = true) :
    c ≠ '+' ∧ c ≠ '-' ∧ isBlank c = false := by
  have hrange : 48 ≤ c.toNat ∧ c.toNat ≤ 57 := by
    simpa [Char.isDigit, UInt32.le_iff_toNat_le] using hc
  have hnot : ∀ d : Char, ¬ (48 ≤ d.toNat ∧ d.toNat ≤ 57) → c ≠ d :=
    fun d hd heq ↦ hd (heq ▸ hrange)
  refine ⟨hnot '+' (by decide), hnot '-' (by decide), ?_⟩
  exact isBlank_eq_false_of_isWord
    (isWord_of_isAlphanum (by omega) (by simp [Char.isAlphanum, hc]))

theorem unsigned?_repr (n : UInt32) : unsigned? n.toNat.repr = some n := by
  obtain ⟨c, rest, hdigits, hc⟩ := exists_toDigits_eq_cons n.toNat
  have hread := digits?_toDigits n.toNat
  have hsmall : n.toNat < UInt32.size := n.toNat_lt
  rw [hdigits] at hread
  unfold unsigned?
  rw [Nat.toList_repr, hdigits]
  split
  · rename_i heq
    exact absurd (List.cons.inj heq).1 (plain_of_isDigit hc).1
  · simp [hread, hsmall]

/-- A negative number has a minus sign before its digits. -/
theorem toList_repr_negSucc (k : Nat) :
    (Int.negSucc k).repr.toList = '-' :: Nat.toDigits 10 (k + 1) := by
  rw [show (Int.negSucc k).repr = "-" ++ (k + 1).repr from rfl, String.toList_append,
    Nat.toList_repr]
  rfl

theorem signed?_repr (n : Int32) : signed? n.toInt.repr = some n := by
  have hlow : -2147483648 ≤ n.toInt := n.le_toInt
  have hhigh : n.toInt < 2147483648 := n.toInt_lt
  have hback : Int32.ofInt n.toInt = n := Int32.ofInt_toInt n
  cases hn : n.toInt with
  | ofNat k =>
    obtain ⟨c, rest, hdigits, hc⟩ := exists_toDigits_eq_cons k
    have hread := digits?_toDigits k
    have hsmall : k < 2147483648 := by
      rw [hn] at hhigh
      exact Int.ofNat_lt.mp hhigh
    rw [hdigits] at hread
    unfold signed?
    rw [show (Int.ofNat k).repr = k.repr from rfl, Nat.toList_repr, hdigits]
    split
    · rename_i heq
      exact absurd (List.cons.inj heq).1 (plain_of_isDigit hc).2.1
    · rename_i heq
      exact absurd (List.cons.inj heq).1 (plain_of_isDigit hc).1
    · rw [hn] at hback
      simpa [hread, signed?.positive, hsmall] using hback
  | negSucc k =>
    have hread := digits?_toDigits (k + 1)
    have hsmall : k + 1 ≤ 2147483648 := by omega
    unfold signed?
    rw [toList_repr_negSucc]
    rw [hn] at hback
    simp only [hread, Option.bind_eq_bind, Option.bind_some, if_pos hsmall, Option.some.injEq]
    exact hback

theorem isValue_ofList_of_plain {cs : List Char} (hne : cs ≠ [])
    (hcs : ∀ c ∈ cs, isBlank c = false) : IsValue (String.ofList cs) := by
  refine ⟨trimmed_ofList_of_endsPlain ⟨fun c hc ↦ ?_, fun c hc ↦ ?_⟩, by simpa using hne⟩
  · exact hcs c (List.mem_of_mem_head? hc)
  · exact hcs c (List.mem_of_mem_getLast? hc)

theorem isBlank_eq_false_of_mem_toDigits {n : Nat} {c : Char} (hc : c ∈ Nat.toDigits 10 n) :
    isBlank c = false :=
  (plain_of_isDigit (isDigit_of_mem_toDigits hc)).2.2

theorem isValue_repr (n : UInt32) : IsValue n.toNat.repr := by
  rw [Nat.repr_eq_ofList_toDigits]
  exact isValue_ofList_of_plain Nat.toDigits_ne_nil fun c ↦ isBlank_eq_false_of_mem_toDigits

theorem isValue_repr_toInt (n : Int32) : IsValue n.toInt.repr := by
  cases hn : n.toInt with
  | ofNat k =>
    rw [show (Int.ofNat k).repr = k.repr from rfl, Nat.repr_eq_ofList_toDigits]
    exact isValue_ofList_of_plain Nat.toDigits_ne_nil fun c ↦ isBlank_eq_false_of_mem_toDigits
  | negSucc k =>
    have hlist : (Int.negSucc k).repr = String.ofList ('-' :: Nat.toDigits 10 (k + 1)) := by
      rw [← String.toList_inj, toList_repr_negSucc, String.toList_ofList]
    rw [hlist]
    refine isValue_ofList_of_plain (List.cons_ne_nil _ _) (List.forall_mem_cons.mpr ⟨by decide, ?_⟩)
    exact fun c ↦ isBlank_eq_false_of_mem_toDigits

end ClassMap.Text

import ClassMap.Text.CaseTable

/-!
Small and capital letters. Keywords are compared in one case of the world's letters, physical
names in one case of the Latin letters without accents only.
-/

set_option autoImplicit false
set_option relaxedAutoImplicit false

namespace ClassMap.Text

def inRanges (ranges : List (Nat × Nat)) (c : Char) : Bool :=
  ranges.any fun r ↦ r.1 ≤ c.toNat && c.toNat ≤ r.2

/-- The image of a character under a table of runs; characters outside it stay. -/
def shiftBy (runs : List CaseRun) (c : Char) : Char :=
  match runs.find? fun r ↦
      r.first ≤ c.toNat && c.toNat ≤ r.last && (c.toNat - r.first) % r.step == 0 with
  | some r => Char.ofNat ((c.toNat : Int) + r.shift).toNat
  | none => c

/-- The small form of one character, wherever it stands. -/
def lowerChar (c : Char) : List Char :=
  if c.toNat < 0x80 then [c.toLower]
  else if c.toNat == 0x130 then ['i', Char.ofNat 0x307]
  else [shiftBy lowerRuns c]

/-- The capital form of one character. -/
def upperChar (c : Char) : List Char :=
  if c.toNat < 0x80 then [c.toUpper]
  else match upperSeries.find? fun entry ↦ entry.1 == c.toNat with
    | some entry => entry.2.map Char.ofNat
    | none => [shiftBy upperRuns c]

/-- Whether the first character that is not passed over is a letter with case. -/
def meetsLetter (cs : List Char) : Bool :=
  match cs.dropWhile (inRanges caseIgnorableRanges) with
  | c :: _ => inRanges casedRanges c
  | [] => false

/-- The small form of a text whose earlier characters, last one first, are `before`: a capital
sigma that ends a word takes its final form. -/
def lowerAfter (before : List Char) : List Char → List Char
  | [] => []
  | c :: rest =>
    if c.toNat == 0x3A3 then
      let final := meetsLetter before && !meetsLetter rest
      Char.ofNat (if final then 0x3C2 else 0x3C3) :: lowerAfter (c :: before) rest
    else lowerChar c ++ lowerAfter (c :: before) rest

def lower (s : String) : String :=
  String.ofList (lowerAfter [] s.toList)

def upper (s : String) : String :=
  String.ofList (s.toList.flatMap upperChar)

/-- The text with its letters `A` to `Z` made small and nothing else changed. -/
def foldLatin (s : String) : String :=
  s.map Char.toLower

/-- Equality of physical names: the case of `A` to `Z` does not count. -/
def sameName (a b : String) : Bool :=
  foldLatin a == foldLatin b

theorem sameName_iff {a b : String} : sameName a b = true ↔ foldLatin a = foldLatin b := by
  simp [sameName]

@[simp] theorem sameName_self (a : String) : sameName a a = true := by
  simp [sameName]

theorem sameName_symm {a b : String} (h : sameName a b = true) : sameName b a = true := by
  simp only [sameName_iff] at *
  exact h.symm

theorem sameName_comm (a b : String) : sameName a b = sameName b a :=
  Bool.beq_comm

theorem sameName_trans {a b c : String} (hab : sameName a b = true)
    (hbc : sameName b c = true) : sameName a c = true := by
  simp only [sameName_iff] at *
  exact hab.trans hbc

end ClassMap.Text

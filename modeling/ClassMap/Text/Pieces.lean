import ClassMap.Text.Blank

/-!
Comma-separated texts: cutting at a separator, trimming the pieces and dropping the empty ones.
-/

set_option autoImplicit false
set_option relaxedAutoImplicit false

namespace ClassMap.Text

/-- The stretches between the separators; there is always one more of them than separators. -/
def pieces (separator : Char) : List Char → List (List Char)
  | [] => [[]]
  | c :: rest =>
    if c == separator then [] :: pieces separator rest
    else match pieces separator rest with
      | piece :: others => (c :: piece) :: others
      | [] => [[c]]

/-- The entries of a comma-separated option value. -/
def entries (s : String) : List String :=
  (((pieces ',' s.toList).map trimBoth).filter (!·.isEmpty)).map String.ofList

/-- The text before and after the first occurrence of the separator. -/
def cut? (separator : Char) : List Char → Option (List Char × List Char)
  | [] => none
  | c :: rest =>
    if c == separator then some ([], rest)
    else (cut? separator rest).map fun (before, after) ↦ (c :: before, after)

theorem length_pieces (separator : Char) (cs : List Char) :
    (pieces separator cs).length = cs.count separator + 1 := by
  induction cs with
  | nil => rfl
  | cons c rest ih =>
    simp only [pieces]
    split
    · rename_i h
      simp_all
    · rename_i h
      split <;> simp_all

end ClassMap.Text

import ClassMap.Text.WordTable

/-!
Word characters: what a type name may be made of besides dots and dollar signs.
-/

set_option autoImplicit false
set_option relaxedAutoImplicit false

namespace ClassMap.Text

def isWord (c : Char) : Bool :=
  if c.toNat < 0x80 then c.isAlphanum || c == '_'
  else wordRanges.any fun r ↦ r.1 ≤ c.toNat && c.toNat ≤ r.2

theorem isWord_of_isAlphanum {c : Char} (hc : c.toNat < 0x80) (h : c.isAlphanum = true) :
    isWord c = true := by
  simp [isWord, hc, h]

end ClassMap.Text

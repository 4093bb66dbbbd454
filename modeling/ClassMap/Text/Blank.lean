/-!
Blank characters and trimming. The blanks are the world's white space, so a no-break space or an
ideographic space at either end of a name is dropped, while a zero-width space is kept.
-/

set_option autoImplicit false
set_option relaxedAutoImplicit false

namespace ClassMap.Text

/-- White space of every script: controls, the separators and the fixed-width spaces. -/
def isBlank (c : Char) : Bool :=
  let n := c.toNat
  (9 ≤ n && n ≤ 13) || n == 0x20 || n == 0x85 || n == 0xA0 || n == 0x1680 ||
    (0x2000 ≤ n && n ≤ 0x200A) || n == 0x2028 || n == 0x2029 || n == 0x202F || n == 0x205F ||
    n == 0x3000

def trimStart (cs : List Char) : List Char :=
  cs.dropWhile isBlank

def trimEnd (cs : List Char) : List Char :=
  (cs.reverse.dropWhile isBlank).reverse

def trimBoth (cs : List Char) : List Char :=
  trimEnd (trimStart cs)

def trim (s : String) : String :=
  String.ofList (trimBoth s.toList)

/-- The trimmed text, unless nothing is left of it. -/
def trimmed? (s : String) : Option String :=
  if (trim s).isEmpty then none else some (trim s)

@[simp] theorem trimStart_nil : trimStart [] = [] := rfl

@[simp] theorem trimBoth_nil : trimBoth [] = [] := rfl

@[simp] theorem toList_trim (s : String) : (trim s).toList = trimBoth s.toList := by
  simp [trim]

end ClassMap.Text

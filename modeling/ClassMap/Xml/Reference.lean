import ClassMap.Xml.Character

/-!
Character references and line ends. A character that is written as a reference stands for itself;
literal line ends and, in attribute values, literal tabs are evened out.
-/

set_option autoImplicit false
set_option relaxedAutoImplicit false

namespace ClassMap.Xml

def entities : List (List Char × Char) :=
  [(['q', 'u', 'o', 't'], '"'), (['a', 'm', 'p'], '&'), (['a', 'p', 'o', 's'], '\''),
    (['l', 't'], '<'), (['g', 't'], '>')]

def hexValue? (c : Char) : Option Nat :=
  if c.isDigit then some (c.toNat - '0'.toNat)
  else if 'a' ≤ c && c ≤ 'f' then some (c.toNat - 'a'.toNat + 10)
  else if 'A' ≤ c && c ≤ 'F' then some (c.toNat - 'A'.toNat + 10)
  else none

def decimalValue? (c : Char) : Option Nat :=
  if c.isDigit then some (c.toNat - '0'.toNat) else none

/-- A 32-bit number made of digits. -/
def number? (base : Nat) (value? : Char → Option Nat) (digits : List Char) : Option Nat :=
  if digits.isEmpty then none
  else do
    let n ← digits.foldlM (fun n c ↦ (value? c).map (n * base + ·)) 0
    if n < UInt32.size then some n else none

/-- The character of a code point; one that is no character is replaced. -/
def codePoint? (n : Nat) : Option Char :=
  let c := if n.isValidChar then Char.ofNat n else Char.ofNat 0xFFFD
  if isAllowed c then some c else none

/-- The character that a reference stands for, read after its ampersand. -/
def reference? : List Char → Option (Char × List Char)
  | '#' :: 'x' :: cs => numbered 16 hexValue? cs
  | '#' :: cs => numbered 10 decimalValue? cs
  | cs => entities.findSome? fun (name, c) ↦ (after? (name ++ [';']) cs).map fun rest ↦ (c, rest)
where
  numbered (base : Nat) (value? : Char → Option Nat) (cs : List Char) :
      Option (Char × List Char) := do
    let n ← number? base value? (cs.takeWhile fun c ↦ (value? c).isSome)
    let c ← codePoint? n
    match cs.dropWhile fun c ↦ (value? c).isSome with
    | ';' :: rest => some (c, rest)
    | _ => none

/-- A character of a text, and whether it was written as a reference. -/
structure Written where
  char : Char
  referenced : Bool
deriving DecidableEq, Repr

/-- The characters of a text with its references resolved, at most `steps` of them. -/
def resolveReferences : Nat → List Char → Option (List Written)
  | 0, cs => if cs.isEmpty then some [] else none
  | _ + 1, [] => some []
  | steps + 1, '&' :: cs => do
    let (c, rest) ← reference? cs
    return ⟨c, true⟩ :: (← resolveReferences steps rest)
  | steps + 1, c :: cs => do return ⟨c, false⟩ :: (← resolveReferences steps cs)

def written? (cs : List Char) : Option (List Written) :=
  resolveReferences cs.length cs

/-- In an attribute value every literal line end or tab becomes one space. -/
def evenAttribute : List Written → List Char
  | [] => []
  | w :: rest =>
    if w.referenced then w.char :: evenAttribute rest
    else if w.char == '\r' && rest.head? == some ⟨'\n', false⟩ then evenAttribute rest
    else if w.char == '\r' || w.char == '\n' || w.char == '\t' then ' ' :: evenAttribute rest
    else w.char :: evenAttribute rest

/-- Adds a literal character to a text, last character first: a carriage return before it becomes
a line feed, which a line feed after it does not repeat. -/
def pushLiteral (out : List Char) (c : Char) (isLast : Bool) : List Char :=
  match out with
  | '\r' :: before =>
    if isLast && c == '\r' then '\n' :: '\n' :: before
    else if c != '\n' then c :: '\n' :: before
    else '\n' :: before
  | _ => if isLast && c == '\r' then '\n' :: out else c :: out

/-- The characters of a text with its line ends made line feeds. A reference is taken as it is,
and so is the one character after it. -/
def evenText (afterReference : Bool) (out : List Char) : List Written → List Char
  | [] => out.reverse
  | w :: rest =>
    if w.referenced then evenText true (w.char :: out) rest
    else if afterReference then evenText false (w.char :: out) rest
    else evenText false (pushLiteral out w.char rest.isEmpty) rest

def attributeValue? (cs : List Char) : Option String :=
  (written? cs).map fun ws ↦ String.ofList (evenAttribute ws)

def textValue? (cs : List Char) : Option String :=
  (written? cs).map fun ws ↦ String.ofList (evenText false [] ws)

/-- The text of a section in which nothing is a reference. -/
def literalValue (cs : List Char) : String :=
  String.ofList (evenText false [] (cs.map fun c ↦ ⟨c, false⟩))

end ClassMap.Xml

/-!
Bytes as text. A text has one encoding as bytes; bytes that encode no text can still be shown, with
a replacement for each stretch that could have been the beginning of a character.
-/

set_option autoImplicit false
set_option relaxedAutoImplicit false

namespace ClassMap

abbrev Bytes := List UInt8

namespace Text

def encode (s : String) : Bytes :=
  s.toList.flatMap String.utf8EncodeChar

/-- How many bytes follow a first byte, and the range that the next of them is in. -/
def sequenceOf? (first : UInt8) : Option (Nat × UInt8 × UInt8) :=
  if first < 0x80 then some (0, 0, 0)
  else if first < 0xC2 then none
  else if first < 0xE0 then some (1, 0x80, 0xBF)
  else if first == 0xE0 then some (2, 0xA0, 0xBF)
  else if first == 0xED then some (2, 0x80, 0x9F)
  else if first < 0xF0 then some (2, 0x80, 0xBF)
  else if first == 0xF0 then some (3, 0x90, 0xBF)
  else if first < 0xF4 then some (3, 0x80, 0xBF)
  else if first == 0xF4 then some (3, 0x80, 0x8F)
  else none

/-- The value with so many more bytes taken in, if they are there, and the bytes not used. -/
def followed : Nat → UInt8 → UInt8 → Nat → Bytes → Option Nat × Bytes
  | 0, _, _, value, rest => (some value, rest)
  | _ + 1, _, _, _, [] => (none, [])
  | count + 1, low, high, value, b :: rest =>
    if low ≤ b && b ≤ high then followed count 0x80 0xBF (value * 64 + b.toNat % 64) rest
    else (none, b :: rest)

/-- The bits of the value that a first byte holds. -/
def leadingBits (first : UInt8) (count : Nat) : Nat :=
  if count = 0 then first.toNat else first.toNat % (64 >>> count)

/-- The character at the start of some bytes, or nothing where they encode none. -/
def nextChar (first : UInt8) (rest : Bytes) : Option Char × Bytes :=
  match sequenceOf? first with
  | none => (none, rest)
  | some (count, low, high) =>
    let (value, rest) := followed count low high (leadingBits first count) rest
    (value.map Char.ofNat, rest)

/-- The characters of some bytes, at most `steps` of them. -/
def decodeWithin : Nat → Bytes → List (Option Char)
  | 0, _ => []
  | _ + 1, [] => []
  | steps + 1, first :: rest =>
    let (c, rest) := nextChar first rest
    c :: decodeWithin steps rest

/-- Every step takes a byte, so there are no more steps than bytes. -/
def decodeAll (bytes : Bytes) : List (Option Char) :=
  decodeWithin bytes.length bytes

/-- The text that some bytes encode, if they encode one. -/
def decode? (bytes : Bytes) : Option String :=
  ((decodeAll bytes).mapM id).map String.ofList

def decodeLossy (bytes : Bytes) : String :=
  String.ofList ((decodeAll bytes).map fun c ↦ c.getD (Char.ofNat 0xFFFD))

end Text

end ClassMap

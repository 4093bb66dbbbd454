import ClassMap.Text.Utf8

/-!
Files whose encoding is not stated. Bytes that are no UTF-8 are taken for a Western European
single-byte text, unless a byte order mark says what they are.
-/

set_option autoImplicit false
set_option relaxedAutoImplicit false

namespace ClassMap.Text

/-- The characters of the bytes from 0x80 to 0x9F in Windows code page 1252. -/
def westernHigh : List Nat := [
  0x20AC, 0x81, 0x201A, 0x192, 0x201E, 0x2026, 0x2020, 0x2021, 0x2C6, 0x2030, 0x160, 0x2039,
  0x152, 0x8D, 0x17D, 0x8F, 0x90, 0x2018, 0x2019, 0x201C, 0x201D, 0x2022, 0x2013, 0x2014, 0x2DC,
  0x2122, 0x161, 0x203A, 0x153, 0x9D, 0x17E, 0x178]

def westernChar (b : UInt8) : Char :=
  if 0x80 ≤ b && b < 0xA0 then Char.ofNat (westernHigh.getD (b.toNat - 0x80) 0xFFFD)
  else Char.ofNat b.toNat

def decodeWestern (bytes : Bytes) : String :=
  String.ofList (bytes.map westernChar)

/-- Pairs of bytes as numbers; a byte without a partner makes none. -/
def units? (bigEndian : Bool) : Bytes → Option (List Nat)
  | [] => some []
  | [_] => none
  | a :: b :: rest =>
    (units? bigEndian rest).map fun others ↦
      (if bigEndian then a.toNat * 256 + b.toNat else b.toNat * 256 + a.toNat) :: others

/-- The characters of UTF-16 units; a surrogate without its partner makes none. -/
def surrogates? : List Nat → Option (List Char)
  | [] => some []
  | [u] => if 0xD800 ≤ u && u < 0xE000 then none else some [Char.ofNat u]
  | u :: v :: rest =>
    if 0xD800 ≤ u && u < 0xDC00 then
      if 0xDC00 ≤ v && v < 0xE000 then
        (surrogates? rest).map (Char.ofNat (0x10000 + (u - 0xD800) * 1024 + (v - 0xDC00)) :: ·)
      else none
    else if 0xDC00 ≤ u && u < 0xE000 then none
    else (surrogates? (v :: rest)).map (Char.ofNat u :: ·)

def decodeUtf16? (bigEndian : Bool) (bytes : Bytes) : Option String := do
  return String.ofList (← surrogates? (← units? bigEndian bytes))

/-- The text of a file that need not be UTF-8, if it has one. -/
def decodeFile? (bytes : Bytes) : Option String :=
  match decode? bytes with
  | some s => some s
  | none =>
    match bytes with
    | 0xEF :: 0xBB :: 0xBF :: _ => none
    | 0xFF :: 0xFE :: rest => decodeUtf16? false rest
    | 0xFE :: 0xFF :: rest => decodeUtf16? true rest
    | _ => some (decodeWestern bytes)

end ClassMap.Text

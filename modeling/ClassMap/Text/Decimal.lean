/-!
Decimal numbers in option values: an optional sign and at least one of the digits `0` to `9`,
with any number of leading zeros, within the range of a 32-bit number.
-/

set_option autoImplicit false
set_option relaxedAutoImplicit false

namespace ClassMap.Text

/-- The value of the digits after `value` has been read. -/
def digitsAfter? (value : Nat) : List Char → Option Nat
  | [] => some value
  | c :: rest =>
    if c.isDigit then digitsAfter? (value * 10 + (c.toNat - '0'.toNat)) rest else none

def digits? : List Char → Option Nat
  | [] => none
  | cs => digitsAfter? 0 cs

/-- A number from 0 to 4294967295; it may carry a plus sign, and a minus sign never. -/
def unsigned? (s : String) : Option UInt32 := do
  let value ← match s.toList with
    | '+' :: rest => digits? rest
    | cs => digits? cs
  if value < UInt32.size then some (UInt32.ofNat value) else none

/-- A number from -2147483648 to 2147483647. -/
def signed? (s : String) : Option Int32 :=
  match s.toList with
  | '-' :: rest => do
    let value ← digits? rest
    if value ≤ 2147483648 then some (Int32.ofInt (-value)) else none
  | '+' :: rest => positive (digits? rest)
  | cs => positive (digits? cs)
where
  positive (value : Option Nat) : Option Int32 := do
    let value ← value
    if value < 2147483648 then some (Int32.ofInt value) else none

end ClassMap.Text

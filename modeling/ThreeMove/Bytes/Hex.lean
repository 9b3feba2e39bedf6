/-
# Byte strings in hexadecimal

Two lower-case digits for each byte, the high one first.
-/

import ThreeMove.Bytes

namespace ThreeMove
namespace Bytes

/-- The digit of a number below 16. -/
def hexDigit (n : Nat) : Char := if n < 10 then Char.ofNat (48 + n) else Char.ofNat (87 + n)

/-- The number of a lower-case digit. -/
def hexValue? (c : Char) : Option Nat :=
  if '0' ≤ c ∧ c ≤ '9' then some (c.toNat - 48)
  else if 'a' ≤ c ∧ c ≤ 'f' then some (c.toNat - 87)
  else none

/-- The digits of a byte string. -/
def toHexChars (data : Bytes) : List Char :=
  data.flatMap fun b => [hexDigit (b.toNat / 16), hexDigit (b.toNat % 16)]

/-- The byte string of digits in pairs. -/
def ofHexChars? : List Char → Option Bytes
  | [] => some []
  | high :: low :: rest => do
    let high ← hexValue? high
    let low ← hexValue? low
    let others ← ofHexChars? rest
    return UInt8.ofNat (16 * high + low) :: others
  | [_] => none

/-- A byte string in hexadecimal. -/
def toHex (data : Bytes) : String := String.ofList data.toHexChars

/-- The byte string of a text in hexadecimal. -/
def ofHex? (text : String) : Option Bytes := ofHexChars? text.toList

end Bytes
end ThreeMove

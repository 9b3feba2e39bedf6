/-
# Writing JSON

The compact form: no blanks, and strings with as few escapes as JSON allows.
-/

import ThreeMove.Bytes.Hex

namespace ThreeMove
namespace Json

/-- A character inside a string: quotes, backslashes and control characters are
escaped, by a letter where there is one. -/
def escape (c : Char) : List Char :=
  if c = '"' then ['\\', '"']
  else if c = '\\' then ['\\', '\\']
  else if c = '\n' then ['\\', 'n']
  else if c = '\r' then ['\\', 'r']
  else if c = '\t' then ['\\', 't']
  else if c = '\x08' then ['\\', 'b']
  else if c = '\x0c' then ['\\', 'f']
  else if c.toNat < 0x20 then
    ['\\', 'u', '0', '0', Bytes.hexDigit (c.toNat / 16), Bytes.hexDigit (c.toNat % 16)]
  else [c]

/-- A text as a JSON string. -/
def writeString (text : String) : List Char := '"' :: text.toList.flatMap escape ++ ['"']

/-- A natural number in decimal. -/
def writeNatural (n : Nat) : List Char := Nat.toDigits 10 n

/-- Parts between brackets, separated by commas. -/
def writeBracketed (opening closing : Char) (parts : List (List Char)) : List Char :=
  opening :: (List.intercalate [','] parts ++ [closing])

end Json
end ThreeMove

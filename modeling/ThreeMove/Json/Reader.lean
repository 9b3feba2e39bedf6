/-
# Reading JSON

A strict reader: no comments, no trailing commas, no leading zeros, nothing but
blanks after the value.  Reading goes character by character over the text;
`readValue` is given a bound on the number of nested and successive values,
which `ofText?` takes from the length of the text, since every value has a
character of its own.
-/

import ThreeMove.Json.Basic

namespace ThreeMove
namespace Json

/-- The blanks of JSON: space, line feed, tabulator and carriage return. -/
def isBlank (c : Char) : Bool := c == ' ' || c == '\n' || c == '\t' || c == '\r'

/-- The text from the first character that is not blank. -/
def skipBlanks (cs : List Char) : List Char := cs.dropWhile isBlank

/-- The value of a hexadecimal digit. -/
def hexDigit? (c : Char) : Option Nat :=
  if '0' ≤ c ∧ c ≤ '9' then some (c.toNat - 48)
  else if 'a' ≤ c ∧ c ≤ 'f' then some (c.toNat - 87)
  else if 'A' ≤ c ∧ c ≤ 'F' then some (c.toNat - 55)
  else none

/-- The code that four hexadecimal digits spell. -/
def hexCode? (a b c d : Char) : Option Nat := do
  let a ← hexDigit? a
  let b ← hexDigit? b
  let c ← hexDigit? c
  let d ← hexDigit? d
  return ((a * 16 + b) * 16 + c) * 16 + d

/-- The character that a one-letter escape stands for. -/
def shortEscape? (c : Char) : Option Char :=
  match c with
  | '"' => some '"'
  | '\\' => some '\\'
  | '/' => some '/'
  | 'b' => some '\x08'
  | 'f' => some '\x0c'
  | 'n' => some '\n'
  | 'r' => some '\r'
  | 't' => some '\t'
  | _ => none

/-- The codes of a string up to its closing quote, and what follows it.  Control
characters must be escaped. -/
def readCodes : List Char → Option (List Nat × List Char)
  | [] => none
  | '"' :: rest => some ([], rest)
  | '\\' :: 'u' :: a :: b :: c :: d :: rest => do
    let code ← hexCode? a b c d
    let (codes, rest) ← readCodes rest
    return (code :: codes, rest)
  | '\\' :: c :: rest => do
    let c ← shortEscape? c
    let (codes, rest) ← readCodes rest
    return (c.toNat :: codes, rest)
  | c :: rest =>
    if c.toNat < 0x20 then none
    else do
      let (codes, rest) ← readCodes rest
      return (c.toNat :: codes, rest)

/-- The characters that codes stand for: a leading surrogate counts together
with the trailing surrogate behind it, and neither may stand alone. -/
def charsOfCodes : List Nat → Option (List Char)
  | [] => some []
  | code :: rest =>
    if 0xd800 ≤ code ∧ code < 0xdc00 then
      match rest with
      | low :: rest =>
        if 0xdc00 ≤ low ∧ low < 0xe000 then
          (Char.ofNat (0x10000 + (code - 0xd800) * 0x400 + (low - 0xdc00)) :: ·) <$>
            charsOfCodes rest
        else none
      | [] => none
    else if 0xdc00 ≤ code ∧ code < 0xe000 then none
    else (Char.ofNat code :: ·) <$> charsOfCodes rest

/-- Reads a string from behind its opening quote. -/
def readString (cs : List Char) : Option (Option String × List Char) := do
  let (codes, rest) ← readCodes cs
  return (String.ofList <$> charsOfCodes codes, rest)

/-- The number that decimal digits spell. -/
def valueOfDigits (digits : List Char) : Nat :=
  digits.foldl (fun n c => 10 * n + (c.toNat - 48)) 0

/-- Skips one digit or more. -/
def skipDigits? (cs : List Char) : Option (List Char) :=
  match cs with
  | c :: rest => if c.isDigit then some (rest.dropWhile Char.isDigit) else none
  | [] => none

/-- Skips the fraction of a number, if there is one. -/
def skipFraction? (cs : List Char) : Option (List Char) :=
  match cs with
  | '.' :: rest => skipDigits? rest
  | _ => some cs

/-- Skips the exponent of a number, if there is one. -/
def skipExponent? (cs : List Char) : Option (List Char) :=
  match cs with
  | c :: rest =>
    if c == 'e' || c == 'E' then
      match rest with
      | s :: digits => if s == '+' || s == '-' then skipDigits? digits else skipDigits? rest
      | [] => none
    else some cs
  | [] => some cs

/-- Whether a fraction or an exponent comes next. -/
def goesOn (cs : List Char) : Bool :=
  match cs with
  | c :: _ => c == '.' || c == 'e' || c == 'E'
  | [] => false

/-- Reads a number without its sign, which is a plain natural number where
neither fraction nor exponent follows. -/
def readMagnitude (cs : List Char) : Option (Json × List Char) := do
  let digits := cs.takeWhile Char.isDigit
  let rest := cs.dropWhile Char.isDigit
  guard (!digits.isEmpty && (digits.length == 1 || digits.head? != some '0'))
  if goesOn rest then
    let rest ← skipFraction? rest
    let rest ← skipExponent? rest
    return (.otherNumber, rest)
  else return (.natural (valueOfDigits digits), rest)

/-- Reads a word or a number. -/
def readScalar (cs : List Char) : Option (Json × List Char) :=
  match cs with
  | 'n' :: 'u' :: 'l' :: 'l' :: rest => some (.null, rest)
  | 't' :: 'r' :: 'u' :: 'e' :: rest => some (.boolean true, rest)
  | 'f' :: 'a' :: 'l' :: 's' :: 'e' :: rest => some (.boolean false, rest)
  | '-' :: rest => do
    let (_, rest) ← readMagnitude rest
    return (.otherNumber, rest)
  | _ => readMagnitude cs

mutual

/-- Reads a value behind blanks, with at most `bound` steps down or along the
tree. -/
def readValue : (bound : Nat) → List Char → Option (Json × List Char)
  | 0, _ => none
  | bound + 1, cs =>
    match skipBlanks cs with
    | '[' :: rest =>
      match skipBlanks rest with
      | ']' :: rest => some (.array [], rest)
      | rest => do
        let (items, rest) ← readItems bound rest
        return (.array items, rest)
    | '{' :: rest =>
      match skipBlanks rest with
      | '}' :: rest => some (.object [], rest)
      | rest => do
        let (members, rest) ← readMembers bound rest
        return (.object members, rest)
    | '"' :: rest => do
      let (value, rest) ← readString rest
      return (.string value, rest)
    | rest => readScalar rest

/-- Reads the items of an array up to its closing bracket. -/
def readItems : (bound : Nat) → List Char → Option (List Json × List Char)
  | 0, _ => none
  | bound + 1, cs => do
    let (item, rest) ← readValue bound cs
    match skipBlanks rest with
    | ',' :: rest =>
      let (items, rest) ← readItems bound rest
      return (item :: items, rest)
    | ']' :: rest => return ([item], rest)
    | _ => none

/-- Reads the members of an object up to its closing brace. -/
def readMembers : (bound : Nat) → List Char → Option (List (Option String × Json) × List Char)
  | 0, _ => none
  | bound + 1, cs =>
    match skipBlanks cs with
    | '"' :: rest => do
      let (key, rest) ← readString rest
      match skipBlanks rest with
      | ':' :: rest =>
        let (value, rest) ← readValue bound rest
        match skipBlanks rest with
        | ',' :: rest =>
          let (members, rest) ← readMembers bound rest
          return ((key, value) :: members, rest)
        | '}' :: rest => return ([(key, value)], rest)
        | _ => none
      | _ => none
    | _ => none

end

/-- Reads a text that is one value between blanks. -/
def ofChars? (cs : List Char) : Option Json := do
  let (value, rest) ← readValue (2 * cs.length + 2) cs
  if skipBlanks rest = [] then return value else none

/-- Reads a text that is one value between blanks. -/
def ofText? (text : String) : Option Json := ofChars? text.toList

end Json
end ThreeMove

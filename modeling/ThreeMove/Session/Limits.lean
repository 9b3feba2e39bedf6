/-
# Limits on a local execution

How many messages an execution may take, with a JSON form: an object whose
member `max_messages` may be missing, or an array of at most that one number.
Other members of the object are passed over.
-/

import ThreeMove.Json.Reader
import ThreeMove.Json.Writer

namespace ThreeMove

/-- Limits on a local execution. Source: `RuntimeConfig`. -/
structure Limits where
  /-- The number of messages, in both directions, after which it is abandoned. -/
  maxMessages : Nat
  deriving DecidableEq, Repr

namespace Limits

/-- The limits where nothing is said. Source: `RuntimeConfig::default`. -/
def standard : Limits := ⟨64⟩

instance : Inhabited Limits := ⟨standard⟩

/-- The name of the member that holds the number of messages. -/
def memberName : String := "max_messages"

/-- A number of messages fits into 64 bits. -/
def countOfJson? : Json → Option Nat
  | .natural n => if n < UInt64.size then some n else none
  | _ => none

/-- Collects the limits from the members of an object, which must all be named by
texts; `found` is the number read so far, and there may be one only. -/
def ofMembers? : (found : Option Nat) → List (Option String × Json) → Option Limits
  | found, [] => some ⟨found.getD standard.maxMessages⟩
  | _, (none, _) :: _ => none
  | found, (some name, value) :: rest =>
    if name = memberName then
      match found with
      | some _ => none
      | none => do
        let count ← countOfJson? value
        ofMembers? (some count) rest
    else ofMembers? found rest

/-- The limits that a JSON value stands for. -/
def ofJson? : Json → Option Limits
  | .object members => ofMembers? none members
  | .array [] => some standard
  | .array [value] => Limits.mk <$> countOfJson? value
  | _ => none

/-- The limits that a JSON text stands for. -/
def ofJsonText? (text : String) : Option Limits := Json.ofText? text >>= ofJson?

/-- The JSON text of limits. -/
def toJsonText (limits : Limits) : String :=
  String.ofList <| Json.writeBracketed '\x7b' '\x7d'
    [Json.writeString memberName ++ ':' :: Json.writeNatural limits.maxMessages]

end Limits
end ThreeMove

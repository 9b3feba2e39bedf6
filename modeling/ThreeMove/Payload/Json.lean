/-
# Payloads as JSON

A payload is written as an object with one member that tells its kind: `Bytes`
with the list of byte values, `List` with the items, or `Map` with the entries
in order of their names.  Reading takes no other member, no byte value beyond
255 and no nesting of more than 127 arrays and objects; of two entries with one
name the later counts.
-/

import ThreeMove.Json.Reader
import ThreeMove.Json.Writer
import ThreeMove.Payload

namespace ThreeMove
namespace Payload

mutual

/-- A payload as JSON text. -/
def write : Payload → List Char
  | .bytes data =>
    tagged "Bytes" (Json.writeBracketed '[' ']' (data.map fun b => Json.writeNatural b.toNat))
  | .list items => tagged "List" (Json.writeBracketed '[' ']' (writeItems items))
  | .map entries => tagged "Map" (Json.writeBracketed '\x7b' '\x7d' (writeEntries entries))
where
  /-- An object with a single member. -/
  tagged (tag : String) (value : List Char) : List Char :=
    Json.writeBracketed '\x7b' '\x7d' [Json.writeString tag ++ ':' :: value]

/-- Each item as JSON text. -/
def writeItems : List Payload → List (List Char)
  | [] => []
  | item :: rest => item.write :: writeItems rest

/-- Each entry as a member in JSON text. -/
def writeEntries : List (String × Payload) → List (List Char)
  | [] => []
  | (name, value) :: rest => (Json.writeString name ++ ':' :: value.write) :: writeEntries rest

end

/-- The JSON text of a payload. -/
def toJsonText (payload : Payload) : String := String.ofList payload.write

/-- A JSON number that is a byte. -/
def byteOfJson? : Json → Option UInt8
  | .natural n => if n < 256 then some (UInt8.ofNat n) else none
  | _ => none

mutual

/-- The payload that a JSON value stands for. -/
def ofJson? : Json → Option Payload
  | .object [(some tag, .array items)] =>
    if tag = "Bytes" then .bytes <$> items.mapM byteOfJson?
    else if tag = "List" then .list <$> itemsOfJson? items
    else none
  | .object [(some tag, .object members)] =>
    if tag = "Map" then (fun entries => .map (Table.ofList entries)) <$> entriesOfJson? members
    else none
  | _ => none

/-- The payloads that JSON values stand for. -/
def itemsOfJson? : List Json → Option (List Payload)
  | [] => some []
  | item :: rest => do
    let payload ← ofJson? item
    let payloads ← itemsOfJson? rest
    return payload :: payloads

/-- The named payloads that JSON members stand for. -/
def entriesOfJson? : List (Option String × Json) → Option (List (String × Payload))
  | [] => some []
  | (name, value) :: rest => do
    let name ← name
    let payload ← ofJson? value
    let entries ← entriesOfJson? rest
    return (name, payload) :: entries

end

/-- The payload that a JSON text stands for. -/
def ofJsonText? (text : String) : Option Payload := do
  let value ← Json.ofText? text
  if value.depth ≤ 127 then ofJson? value else none

end Payload
end ThreeMove

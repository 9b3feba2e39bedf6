/-
# JSON texts as trees

What a JSON text says, as far as this library asks.  Of numbers, only those
written as plain natural numbers are kept.  A string that spells a lone
surrogate is no text, and is kept as `none`; members keep the order in which
they are written, repetitions included.
-/

namespace ThreeMove

/-- A JSON value. -/
inductive Json where
  | null
  | boolean (value : Bool)
  /-- A number without sign, fraction and exponent. -/
  | natural (value : Nat)
  /-- A number written in any other way. -/
  | otherNumber
  | string (value : Option String)
  | array (items : List Json)
  | object (members : List (Option String × Json))

namespace Json

mutual

/-- How deep arrays and objects are nested. -/
def depth : Json → Nat
  | .array items => depthOfItems items + 1
  | .object members => depthOfMembers members + 1
  | _ => 0

/-- The depth of the deepest item. -/
def depthOfItems : List Json → Nat
  | [] => 0
  | item :: rest => max item.depth (depthOfItems rest)

/-- The depth of the deepest member. -/
def depthOfMembers : List (Option String × Json) → Nat
  | [] => 0
  | (_, value) :: rest => max value.depth (depthOfMembers rest)

end

end Json
end ThreeMove

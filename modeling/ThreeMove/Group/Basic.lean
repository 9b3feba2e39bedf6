/-
# Groups of prime order

What the library needs of a group: addition, multiples, an order, equality, and
an encoding of each element as a byte string of fixed length.  The laws of a
group are not part of `PrimeGroup`; statements that need them ask for them.
-/

import ThreeMove.Challenge

namespace ThreeMove

/-- A group of prime order, written additively, with an encoding. Source: `PrimeGroup`. -/
class PrimeGroup (G : Type) extends Zero G, Add G, Sub G, SMul Nat G where
  /-- The number of elements, hence of scalars. -/
  order : Nat
  two_le_order : 2 ≤ order
  /-- The number of bytes of an encoded element. Source: `group_elt_serialized_len`. -/
  elementLength : Nat
  /-- Source: `to_bytes`. -/
  encode : G → Bytes
  /-- Source: `from_bytes`. -/
  decode : Bytes → Option G
  decEq : DecidableEq G

namespace PrimeGroup

variable (G : Type) [PrimeGroup G]

instance : DecidableEq G := decEq

/-- The scalars of the group, as a challenge space. Source: `ScalarChallengeSpace`. -/
def scalars : ChallengeSpace := ⟨.field, order G, two_le_order⟩

/-- The number of bytes of an encoded scalar. Source: `scalar_serialized_len`. -/
def scalarLength : Nat := (scalars G).encodedLength

end PrimeGroup
end ThreeMove

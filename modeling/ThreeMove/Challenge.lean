/-
# Challenge spaces

A challenge is a number, and a challenge space is the group of numbers modulo
some `n ≥ 2`.  There are two families: the residues modulo a number of one's
own choosing, and the scalar field of a group of prime order.  They differ in
how they name themselves, in how they draw a random element, and in the way from
a reduced number to an element, which in a field leads over its digits;
arithmetic, encoding and hashing are the same.

A challenge handed in from outside need not be reduced.  `add` and `sub` reduce
their result, `encode` writes an over-long number in full, and `decode` reads
reduced numbers only.
-/

import ThreeMove.Error
import ThreeMove.Hash.Duplex
import ThreeMove.Arith.Power

namespace ThreeMove

/-- The two families of challenge spaces. Source: `ZnChallengeSpace`, `ScalarChallengeSpace`. -/
inductive ChallengeFamily where
  /-- The residue classes of an explicit modulus. -/
  | residues
  /-- The scalars of a group of prime order. -/
  | field
  deriving DecidableEq, Repr

/-- The numbers modulo `modulus`, as challenges of one family.
Source: `ChallengeSpace`, `SubtractiveChallengeSpace`. -/
structure ChallengeSpace where
  family : ChallengeFamily
  modulus : Nat
  two_le : 2 ≤ modulus
  deriving DecidableEq

namespace ChallengeSpace

variable (space : ChallengeSpace)

/-- The residue classes modulo `n`, which must be at least 2. Source: `ZnChallengeSpace::new`. -/
def residues (n : Nat) : Except Error ChallengeSpace :=
  if h : 2 ≤ n then .ok ⟨.residues, n, h⟩
  else .error (.invalidParameters "challenge space modulus must be at least 2")

/-- A challenge space is not empty. -/
theorem modulus_pos : 0 < space.modulus := Nat.lt_of_lt_of_le (by decide) space.two_le

/-- The number of bytes of an encoded challenge. Source: `challenge_len`. -/
def encodedLength : Nat := (bitLength space.modulus + 7) / 8

/-- The name of the family and the modulus, in bytes. Source: `descriptor`. -/
def descriptor : Bytes :=
  match space.family with
  | .residues => Bytes.ofText "zn:" ++ Bytes.minimal space.modulus
  | .field => Bytes.ofText "prime-field:" ++ Bytes.minimal space.modulus

/-- The sum of two challenges. Source: `add`. -/
def add (a b : Nat) : Nat := (a + b) % space.modulus

/-- The difference of two challenges. Source: `sub`. -/
def sub (a b : Nat) : Nat :=
  (a % space.modulus + space.modulus - b % space.modulus) % space.modulus

/-- What is left of the challenge `c` once `shares` are taken away.
Source: `remaining_challenge`. -/
def remaining (c : Nat) (shares : List Nat) : Nat :=
  space.sub c (shares.foldl space.add 0)

/-- A sum is reduced. -/
theorem add_lt (a b : Nat) : space.add a b < space.modulus := Nat.mod_lt _ space.modulus_pos

/-- A difference is reduced. -/
theorem sub_lt (a b : Nat) : space.sub a b < space.modulus := Nat.mod_lt _ space.modulus_pos

/-- What is left of a challenge is reduced. -/
theorem remaining_lt (c : Nat) (shares : List Nat) : space.remaining c shares < space.modulus :=
  space.sub_lt _ _

/-- Big-endian, at `encodedLength` bytes or as many as the number needs.
Source: `serialize_challenge`. -/
def encode (c : Nat) : Bytes := Bytes.padded space.encodedLength c

/-- What an undecodable challenge of the space is called. -/
def encodingName : String :=
  match space.family with
  | .residues => "Z_n challenge"
  | .field => "scalar challenge"

/-- Reads `encodedLength` bytes that spell a reduced number. Source: `restore_challenge`. -/
def decode (data : Bytes) : Except Error Nat :=
  if data.length = space.encodedLength ∧ Bytes.beValue data < space.modulus then
    .ok (Bytes.beValue data)
  else .error (.invalidEncoding space.encodingName)

/-- Reads little-endian digits, filled up with zeros to `encodedLength` bytes, that
spell a reduced number. Source: `scalar_from_reduced`. -/
def ofDigits? (digits : Bytes) : Option Nat :=
  let filled := digits ++ Bytes.zeros (space.encodedLength - digits.length)
  if digits.length ≤ space.encodedLength ∧ Bytes.leValue filled < space.modulus then
    some (Bytes.leValue filled)
  else none

/-- The challenge congruent to the big-endian value of the bytes.  In a field the
reduced value is read from its digits, and would be zero if they could not be read.
Source: `map_into_challenge_space`. -/
def ofBytes (data : Bytes) : Nat :=
  let reduced := Bytes.beValue data % space.modulus
  match space.family with
  | .residues => reduced
  | .field => (space.ofDigits? (Bytes.minimal reduced).reverse).getD 0

/-- The challenge of a byte string is reduced, in both families. -/
theorem ofBytes_lt (data : Bytes) : space.ofBytes data < space.modulus := by
  unfold ofBytes ofDigits?
  cases space.family with
  | residues => exact Nat.mod_lt _ space.modulus_pos
  | field =>
    dsimp only
    split
    · rename_i h
      exact h.2
    · exact space.modulus_pos

/-- The initialisation value under which data are hashed into a space.
Source: `HASH_INTO_DOMAIN`. -/
def hashDomain : Bytes := Bytes.ofText "sigma-compose/hash-into-challenge-space/v1"

/-- What is hashed: the descriptor of the space and the data, each behind its
length in eight bytes. -/
def hashInput (data : Bytes) : Bytes :=
  Bytes.be 8 space.descriptor.length ++ space.descriptor ++ Bytes.be 8 data.length ++ data

/-- Hashes data into the space.  Sixteen bytes more than a challenge needs are
drawn before reduction, which leaves the result close to uniform.
Source: `hash_into_challenge_space`, `REDUCTION_SLACK`. -/
def hash (data : Bytes) : Nat :=
  space.ofBytes
    (((Duplex.new hashDomain).absorb (space.hashInput data)).squeeze (space.encodedLength + 16)).1

/-- Hashing gives a reduced challenge. -/
theorem hash_lt (data : Bytes) : space.hash data < space.modulus := space.ofBytes_lt _

end ChallengeSpace
end ThreeMove

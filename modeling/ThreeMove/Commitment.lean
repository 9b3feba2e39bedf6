/-
# Hash commitments

To commit to a message is to publish the hash of the message and of 32 random
bytes, the opening; the opening is shown later.  A domain separates the
commitments of different uses.
-/

import ThreeMove.Random.Sampler

namespace ThreeMove

/-- A commitment scheme, by the domain it hashes under. Source: `HashCommitmentScheme`. -/
structure HashCommitment where
  domain : Bytes
  deriving DecidableEq, Repr

namespace HashCommitment

/-- The scheme of the default domain. Source: `HashCommitmentScheme::default`. -/
def standard : HashCommitment := ⟨Bytes.ofText "sigma-compose/hash-commitment"⟩

instance : Inhabited HashCommitment := ⟨standard⟩

/-- The number of bytes of a commitment, and of an opening. Source: `HASH_COMMITMENT_LEN`. -/
def length : Nat := 32

/-- The string that is hashed: domain and message, each behind its length in
eight bytes, and the opening. -/
def preimage (scheme : HashCommitment) (message opening : Bytes) : Bytes :=
  Bytes.be 8 scheme.domain.length ++ scheme.domain ++
    Bytes.be 8 message.length ++ message ++ opening

/-- The commitment to a message under a given opening. Source: `compute`. -/
def digest (scheme : HashCommitment) (message opening : Bytes) : Bytes :=
  sha3_256 (scheme.preimage message opening)

/-- Commits to a message under a fresh opening: the commitment and the opening. Source: `commit`. -/
def commit (scheme : HashCommitment) (message : Bytes) : Sampler (Bytes × Bytes) := do
  let opening ← Sampler.drawBytes length
  return (scheme.digest message opening, opening)

/-- Whether the opening shows that the commitment is to the message. Source: `verify`. -/
def verify (scheme : HashCommitment) (commitment message opening : Bytes) : Bool :=
  scheme.digest message opening == commitment

/-- Reads a commitment. Source: `restore_commitment`. -/
def decodeCommitment (data : Bytes) : Except Error Bytes :=
  if data.length = length then .ok data else .error (.invalidEncoding "hash commitment")

/-- Reads an opening. Source: `restore_open_value`. -/
def decodeOpening (data : Bytes) : Except Error Bytes :=
  if data.length = length then .ok data else .error (.invalidEncoding "hash commitment opening")

end HashCommitment
end ThreeMove

/-
# Non-interactive proofs

The Fiat–Shamir transformation: the challenge is a hash of everything the
verifier would have seen before choosing it, and of additional data to which the
proof is bound.  A proof is an announcement and a response; its challenge is
computed again by whoever checks it.
-/

import ThreeMove.Protocol.Basic

namespace ThreeMove

/-- Non-interactive proofs by a protocol within a session. Source: `FiatShamirProofSystem`. -/
structure Noninteractive (G : Type) where
  session : Bytes
  protocol : Protocol G

/-- A non-interactive proof. Source: `FiatShamirProof`. -/
structure Proof (G : Type) where
  announcement : Announcement G
  response : Response G

namespace Noninteractive

variable {G : Type} (system : Noninteractive G)

/-- What is hashed into the challenge: the identifier, the session, the label,
the announcement and the additional data, each in a frame. -/
def hashInput (announcement data : Bytes) : Bytes :=
  frameAll [system.protocol.identifier, system.session, system.protocol.label, announcement, data]

/-- The challenge for an announcement and additional data. Source: `derive_challenge`. -/
def challenge (announcement : Announcement G) (data : Bytes) : Except Abort Nat := do
  let encoded ← system.protocol.encodeAnnouncement announcement
  return system.protocol.space.hash (system.hashInput encoded data)

/-- Proves the statement, bound to additional data. Source: `create_proof`. -/
def prove (witness : Witness) (data : Bytes) : Sampler (Proof G) := do
  let (announcement, secret) ← system.protocol.announce witness
  let challenge ← Sampler.ofExcept (Failure.ofAborted (system.challenge announcement data))
  let response ← Sampler.ofExcept (Failure.ofRefused (system.protocol.respond secret challenge))
  return ⟨announcement, response⟩

/-- Whether a proof is accepted for the additional data. Source: `check_proof`. -/
def check (proof : Proof G) (data : Bytes) : Except Abort Bool := do
  let challenge ← system.challenge proof.announcement data
  system.protocol.check proof.announcement challenge proof.response

/-- Announcement and response, each in a frame. Source: `serialize_proof`. -/
def encode (proof : Proof G) : Except Abort Bytes := do
  let announcement ← system.protocol.encodeAnnouncement proof.announcement
  let response ← system.protocol.encodeResponse proof.response
  return frameAll [announcement, response]

/-- Reads a proof. Source: `restore_proof`. -/
def decode (data : Bytes) : Except Error (Proof G) := do
  let (announcement, cursor) ←
    FrameCursor.decode ⟨data⟩ "proof announcement" system.protocol.decodeAnnouncement
  let (response, cursor) ← cursor.decode "proof response" system.protocol.decodeResponse
  cursor.finish "proof"
  return ⟨announcement, response⟩

/-- Whether an encoded proof is accepted; one that cannot be read is not.
Source: `check_serialized_proof`. -/
def checkEncoded (bytes data : Bytes) : Except Abort Bool :=
  match system.decode bytes with
  | .ok proof => system.check proof data
  | .error _ => .ok false

end Noninteractive
end ThreeMove

/-
# Sealed announcements

Damgård's technique: the prover announces a commitment to the announcement of
another protocol, and opens it with the response.  The verifier checks the
opening before the inner transcript.
-/

import ThreeMove.Commitment
import ThreeMove.Protocol.Basic

namespace ThreeMove
namespace Sealed

variable {G : Type}

/-- The protocol `inner` with its announcement sealed by `scheme`. Source: `DamgardTechnique`. -/
def protocol (scheme : HashCommitment) (inner : Protocol G) : Protocol G where
  space := inner.space
  identifier := frameAll [Bytes.ofText "sigma-compose/damgard", inner.identifier]
  label := inner.label
  announce witness := do
    let (announcement, secret) ← inner.announce witness
    let message ← Sampler.ofExcept (Failure.ofAborted (inner.encodeAnnouncement announcement))
    let (commitment, randomness) ← scheme.commit message
    return (.commitment commitment, .sealed secret announcement randomness)
  respond
    | .sealed secret announcement randomness, c => do
      let response ← inner.respond secret c
      return .opening response announcement randomness
    | _, _ => .error .invalidInstanceWitnessPair
  check
    | .commitment commitment, c, .opening response announcement randomness => do
      let message ← inner.encodeAnnouncement announcement
      if scheme.verify commitment message randomness then inner.check announcement c response
      else return false
    | _, _, _ => .ok false
  simulate c := do
    let (announcement, response) ← inner.simulate c
    let message ← Sampler.ofExcept (Failure.ofAborted (inner.encodeAnnouncement announcement))
    let (commitment, randomness) ← scheme.commit message
    return (.commitment commitment, .opening response announcement randomness)
  encodeAnnouncement
    | .commitment commitment => .ok commitment
    | _ => shapeMismatch .announcement
  encodeResponse
    | .opening response announcement randomness => do
      let responseBytes ← inner.encodeResponse response
      let announcementBytes ← inner.encodeAnnouncement announcement
      return frameAll [responseBytes, announcementBytes, randomness]
    | _ => shapeMismatch .response
  decodeAnnouncement data := .commitment <$> HashCommitment.decodeCommitment data
  decodeResponse data := do
    let (response, cursor) ← FrameCursor.decode ⟨data⟩ "Damgard response" inner.decodeResponse
    let (announcement, cursor) ← cursor.decode "Damgard response" inner.decodeAnnouncement
    let (randomness, cursor) ← cursor.decode "Damgard response" HashCommitment.decodeOpening
    cursor.finish "Damgard response"
    return .opening response announcement randomness

end Sealed
end ThreeMove

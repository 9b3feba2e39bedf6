/-
# Proving one of two statements

The prover knows a witness of one branch.  It simulates the other for a
challenge of its own choosing, and answers the branch it knows with what is left
of the verifier's challenge.  The response shows the challenge of the left
branch, and the verifier computes the right one.
-/

import ThreeMove.Protocol.Basic

namespace ThreeMove
namespace Disjunction

variable {G : Type}

/-- The secret part of a simulated branch: its challenge and its response.
Source: `generate_announcement`. -/
def simulateFresh (branch : Protocol G) : Sampler (Announcement G × Secret G) := do
  let challenge ← Sampler.drawElement branch.space
  let (announcement, response) ← branch.simulate challenge
  return (announcement, .simulated challenge response)

/-- The protocol for one of two statements, whose challenge spaces agree. Source: `OrProof`. -/
def protocol (left right : Protocol G) : Protocol G :=
  { space := left.space
    identifier := Protocol.gateIdentifier 2 [left.identifier, right.identifier]
    label := frameAll [left.label, right.label]
    announce := fun
      | .left witness => do
        let (rightAnnouncement, rightSecret) ← simulateFresh right
        let (leftAnnouncement, leftSecret) ← left.announce witness
        return (.any [leftAnnouncement, rightAnnouncement], .any [leftSecret, rightSecret])
      | .right witness => do
        let (leftAnnouncement, leftSecret) ← simulateFresh left
        let (rightAnnouncement, rightSecret) ← right.announce witness
        return (.any [leftAnnouncement, rightAnnouncement], .any [leftSecret, rightSecret])
      | _ => Sampler.refuse .invalidInstanceWitnessPair
    respond := fun
      | .any [.simulated leftChallenge leftResponse, secret], c => do
        let rightResponse ← right.respond secret (left.space.sub c leftChallenge)
        return .any [leftChallenge] [leftResponse, rightResponse]
      | .any [secret, .simulated rightChallenge rightResponse], c => do
        let leftChallenge := left.space.sub c rightChallenge
        let leftResponse ← left.respond secret leftChallenge
        return .any [leftChallenge] [leftResponse, rightResponse]
      | _, _ => .error .invalidInstanceWitnessPair
    check := fun
      | .any [leftAnnouncement, rightAnnouncement], c,
          .any [leftChallenge] [leftResponse, rightResponse] => do
        if ← left.check leftAnnouncement leftChallenge leftResponse then
          right.check rightAnnouncement (left.space.sub c leftChallenge) rightResponse
        else return false
      | _, _, _ => .ok false
    simulate := fun c => do
      let leftChallenge ← Sampler.drawElement left.space
      let (leftAnnouncement, leftResponse) ← left.simulate leftChallenge
      let (rightAnnouncement, rightResponse) ← right.simulate (left.space.sub c leftChallenge)
      return (.any [leftAnnouncement, rightAnnouncement],
        .any [leftChallenge] [leftResponse, rightResponse])
    encodeAnnouncement := fun
      | .any [leftAnnouncement, rightAnnouncement] => do
        let leftBytes ← left.encodeAnnouncement leftAnnouncement
        let rightBytes ← right.encodeAnnouncement rightAnnouncement
        return frameAll [leftBytes, rightBytes]
      | _ => shapeMismatch .announcement
    encodeResponse := fun
      | .any [leftChallenge] [leftResponse, rightResponse] => do
        let leftBytes ← left.encodeResponse leftResponse
        let rightBytes ← right.encodeResponse rightResponse
        return frameAll [left.space.encode leftChallenge, leftBytes, rightBytes]
      | _ => shapeMismatch .response
    decodeAnnouncement := fun data => do
      let (leftAnnouncement, cursor) ←
        FrameCursor.decode ⟨data⟩ "OR announcement" left.decodeAnnouncement
      let (rightAnnouncement, cursor) ← cursor.decode "OR announcement" right.decodeAnnouncement
      cursor.finish "OR announcement"
      return .any [leftAnnouncement, rightAnnouncement]
    decodeResponse := fun data => do
      let (leftChallenge, cursor) ← FrameCursor.decode ⟨data⟩ "OR response" left.space.decode
      let (leftResponse, cursor) ← cursor.decode "OR response" left.decodeResponse
      let (rightResponse, cursor) ← cursor.decode "OR response" right.decodeResponse
      cursor.finish "OR response"
      return .any [leftChallenge] [leftResponse, rightResponse] }

end Disjunction
end ThreeMove

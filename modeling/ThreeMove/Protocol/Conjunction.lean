/-
# Proving several statements together

The prover knows a witness of every branch.  Branches announce in order, and one
challenge is answered by all of them.
-/

import ThreeMove.Protocol.Basic

namespace ThreeMove
namespace Conjunction

variable {G : Type}

/-- Encodes the message of each branch in a frame.  Messages beyond the last
branch, and branches beyond the last message, are left out.
Source: `serialize_announcement`, `serialize_response`. -/
def encodeParts {M : Type} (encode : Protocol G → M → Except Abort Bytes)
    (branches : List (Protocol G)) (parts : List M) : Except Abort Bytes :=
  frameAll <$> (branches.zip parts).mapM fun (branch, part) => encode branch part

/-- The protocol for all of `first :: rest`, whose challenge spaces agree. Source: `AndProof`. -/
def protocol (first : Protocol G) (rest : List (Protocol G)) : Protocol G :=
  let branches := first :: rest
  { space := first.space
    identifier := Protocol.gateIdentifier 1 (branches.map (·.identifier))
    label := frameAll (branches.map (·.label))
    announce := fun
      | .all witnesses =>
        if witnesses.length = branches.length then do
          let parts ← (branches.zip witnesses).mapM fun (branch, witness) =>
            branch.announce witness
          return (.all (parts.map (·.1)), .all (parts.map (·.2)))
        else Sampler.refuse .invalidInstanceWitnessPair
      | _ => Sampler.refuse .invalidInstanceWitnessPair
    respond := fun
      | .all secrets, c =>
        if secrets.length = branches.length then
          Response.all <$> (branches.zip secrets).mapM fun (branch, secret) =>
            branch.respond secret c
        else .error .invalidInstanceWitnessPair
      | _, _ => .error .invalidInstanceWitnessPair
    check := fun
      | .all announcements, c, .all responses =>
        if announcements.length = branches.length ∧ responses.length = branches.length then
          ((branches.zip announcements).zip responses).allM fun ((branch, a), r) =>
            branch.check a c r
        else .ok false
      | _, _, _ => .ok false
    simulate := fun c => do
      let parts ← branches.mapM fun branch => branch.simulate c
      return (.all (parts.map (·.1)), .all (parts.map (·.2)))
    encodeAnnouncement := fun
      | .all announcements => encodeParts (·.encodeAnnouncement) branches announcements
      | _ => shapeMismatch .announcement
    encodeResponse := fun
      | .all responses => encodeParts (·.encodeResponse) branches responses
      | _ => shapeMismatch .response
    decodeAnnouncement := fun data =>
      .all <$> decodeFrames "AND announcement" (branches.map (·.decodeAnnouncement)) data
    decodeResponse := fun data =>
      .all <$> decodeFrames "AND response" (branches.map (·.decodeResponse)) data }

end Conjunction
end ThreeMove

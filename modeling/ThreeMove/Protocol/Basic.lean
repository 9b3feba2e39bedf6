/-
# Three-move protocols

A protocol convinces a verifier of a statement in three moves: the prover
announces, the verifier challenges, the prover responds.  `Protocol` gathers
what the two parties compute, the simulator that produces transcripts without a
witness, the encodings of the messages, and the two byte strings that name the
kind of statement and the statement itself.
-/

import ThreeMove.Frame
import ThreeMove.Protocol.Message
import ThreeMove.Random.Sampler

namespace ThreeMove

/-- A three-move protocol for one statement. Source: `SigmaProtocol`, `SigmaProtocolSimulator`. -/
structure Protocol (G : Type) where
  /-- Where challenges are taken from. Source: `challenge_space`. -/
  space : ChallengeSpace
  /-- Names the kind of statement. Source: `protocol_identifier`. -/
  identifier : Bytes
  /-- Names the statement among those of its kind. Source: `instance_label`. -/
  label : Bytes
  /-- The first move, given a witness. Source: `generate_announcement`. -/
  announce : Witness → Sampler (Announcement G × Secret G)
  /-- The third move, given a challenge. Source: `generate_response`. -/
  respond : Secret G → Nat → Except Error (Response G)
  /-- Whether the verifier accepts a transcript. Source: `check_transcript`. -/
  check : Announcement G → Nat → Response G → Except Abort Bool
  /-- An announcement and a response that fit a challenge, without a witness.
  Source: `simulate_transcript`. -/
  simulate : Nat → Sampler (Announcement G × Response G)
  /-- Source: `serialize_announcement`. -/
  encodeAnnouncement : Announcement G → Except Abort Bytes
  /-- Source: `serialize_response`. -/
  encodeResponse : Response G → Except Abort Bytes
  /-- Source: `restore_announcement`. -/
  decodeAnnouncement : Bytes → Except Error (Announcement G)
  /-- Source: `restore_response`. -/
  decodeResponse : Bytes → Except Error (Response G)

/-- A message that does not have the shape of the statement has no encoding.
Source: `shape_mismatch`. -/
def shapeMismatch {α : Type} (kind : MessageKind) : Except Abort α :=
  .error (.shapeMismatch kind)

/-- The three messages of one execution. Source: `SigmaProtocolTranscript`. -/
structure Transcript (G : Type) where
  announcement : Announcement G
  challenge : Nat
  response : Response G

namespace Protocol

variable {G : Type}

/-- Whether the verifier accepts. Source: `SigmaProtocolTranscript::verify`. -/
def accepts (p : Protocol G) (t : Transcript G) : Except Abort Bool :=
  p.check t.announcement t.challenge t.response

/-- Both parties' moves, with an honestly drawn challenge. Source: `run_honestly`. -/
def execute (p : Protocol G) (witness : Witness) : Sampler (Transcript G) := do
  let (announcement, secret) ← p.announce witness
  let challenge ← Sampler.drawElement p.space
  let response ← Sampler.ofExcept (Failure.ofRefused (p.respond secret challenge))
  return ⟨announcement, challenge, response⟩

/-- The identifier of a compound: the hash of 32 copies of its tag and of the
identifiers of its parts, each behind its length in eight bytes. Source: `composite_identifier`. -/
def gateIdentifier (tag : UInt8) (parts : List Bytes) : Bytes :=
  sha3_256 (List.replicate 32 tag ++
    parts.flatMap fun part => Bytes.be 8 part.length ++ part)

end Protocol
end ThreeMove

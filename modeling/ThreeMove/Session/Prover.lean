/-
# The prover as a party

Without being asked, the prover announces; to the first message after that it
responds, and is done.  A message before the announcement is refused and changes
nothing; any other failure ends the prover.
-/

import ThreeMove.Protocol.Basic
import ThreeMove.Session.Interactive

namespace ThreeMove

/-- Where a prover stands. Source: `ProverState`. -/
inductive ProverStage (G : Type) where
  | waiting
  | announced (secret : Secret G)
  | responded

/-- A prover of one statement, with its witness and its randomness.
Source: `SigmaProverInstance`. -/
structure Prover (G : Type) where
  protocol : Protocol G
  witness : Witness
  stream : ByteStream
  stage : ProverStage G

namespace Prover

variable {G : Type}

/-- A prover that has not announced. -/
def new (protocol : Protocol G) (witness : Witness) (stream : ByteStream) : Prover G :=
  ⟨protocol, witness, stream, .waiting⟩

/-- The encoded announcement, and the prover that waits for a challenge. -/
def announce (prover : Prover G) : Except Failure Payload × Prover G :=
  match (prover.protocol.announce prover.witness).run prover.stream with
  | (.ok (announcement, secret), stream) =>
    (.bytes <$> Failure.ofAborted (prover.protocol.encodeAnnouncement announcement),
      { prover with stream := stream, stage := .announced secret })
  | (.error cause, stream) => (.error cause, { prover with stream := stream, stage := .responded })

/-- The encoded response to an encoded challenge. -/
def response (prover : Prover G) (secret : Secret G) (message : Payload) :
    Except Failure Payload := do
  let data ← Failure.ofRefused message.toBytes
  let challenge ← Failure.ofRefused (prover.protocol.space.decode data)
  let response ← Failure.ofRefused (prover.protocol.respond secret challenge)
  let encoded ← Failure.ofAborted (prover.protocol.encodeResponse response)
  return .bytes encoded

/-- Takes a message and gives one. Source: `next_message`. -/
def step (prover : Prover G) (incoming : Option Payload) :
    Except Failure (Option Payload) × Prover G :=
  match prover.stage, incoming with
  | .waiting, none =>
    let (announcement, prover) := prover.announce
    (some <$> announcement, prover)
  | .waiting, some _ => (.error (.error (.unexpectedMessage "prover INIT")), prover)
  | .announced _, none => (.ok none, prover)
  | .announced secret, some message =>
    (some <$> prover.response secret message, { prover with stage := .responded })
  | .responded, _ => (.error (.error .protocolTerminated), prover)

/-- Whether the prover is done. Source: `has_terminated`. -/
def terminated (prover : Prover G) : Bool :=
  match prover.stage with
  | .responded => true
  | _ => false

end Prover
end ThreeMove

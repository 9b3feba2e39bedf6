/-
# The verifier as a party

The verifier answers the announcement with a random challenge, and the response
with a verdict.  An announcement that cannot be read is rejected without a
challenge, and a response that cannot be read is rejected; neither is an error.
No message, or one that is not bytes, changes nothing.
-/

import ThreeMove.Protocol.Basic
import ThreeMove.Session.Interactive

namespace ThreeMove

/-- Where a verifier stands. Source: `VerifierState`. -/
inductive VerifierStage (G : Type) where
  | waiting
  | challenged (announcement : Announcement G) (challenge : Nat)
  | finished (accepting : Bool)

/-- A verifier of one statement, with its randomness. Source: `SigmaVerifierInstance`. -/
structure Verifier (G : Type) where
  protocol : Protocol G
  stream : ByteStream
  stage : VerifierStage G

namespace Verifier

variable {G : Type}

/-- A verifier that has received nothing. -/
def new (protocol : Protocol G) (stream : ByteStream) : Verifier G :=
  ⟨protocol, stream, .waiting⟩

/-- The challenge that waits for its response. Source: `SigmaVerifierInstance::challenge`. -/
def challenge? (verifier : Verifier G) : Option Nat :=
  match verifier.stage with
  | .challenged _ challenge => some challenge
  | _ => none

/-- The verdict, once there is one. Source: `is_accepting`. -/
def verdict (verifier : Verifier G) : Option Bool :=
  match verifier.stage with
  | .finished accepting => some accepting
  | _ => none

/-- The verifier with its verdict. -/
def finish (verifier : Verifier G) (accepting : Bool) : Verifier G :=
  { verifier with stage := .finished accepting }

/-- Takes an encoded announcement and gives an encoded challenge. -/
def challenge (verifier : Verifier G) (data : Bytes) :
    Except Failure (Option Payload) × Verifier G :=
  match verifier.protocol.decodeAnnouncement data with
  | .error _ => (.ok none, verifier.finish false)
  | .ok announcement =>
    match (Sampler.drawElement verifier.protocol.space).run verifier.stream with
    | (.ok challenge, stream) =>
      (.ok (some (.bytes (verifier.protocol.space.encode challenge))),
        { verifier with stream := stream, stage := .challenged announcement challenge })
    | (.error cause, stream) => (.error cause, { verifier.finish false with stream := stream })

/-- Whether an encoded response answers a challenge. -/
def judge (verifier : Verifier G) (announcement : Announcement G) (challenge : Nat)
    (data : Bytes) : Except Abort Bool :=
  match verifier.protocol.decodeResponse data with
  | .error _ => .ok false
  | .ok response => verifier.protocol.check announcement challenge response

/-- Takes an encoded response and comes to a verdict. -/
def conclude (verifier : Verifier G) (announcement : Announcement G) (challenge : Nat)
    (data : Bytes) : Except Failure (Option Payload) × Verifier G :=
  match verifier.judge announcement challenge data with
  | .ok accepting => (.ok none, verifier.finish accepting)
  | .error cause => (.error (.abort cause), verifier.finish false)

/-- Takes the bytes of a message. -/
def receive (verifier : Verifier G) (data : Bytes) :
    Except Failure (Option Payload) × Verifier G :=
  match verifier.stage with
  | .waiting => verifier.challenge data
  | .challenged announcement challenge => verifier.conclude announcement challenge data
  | .finished _ => (.error (.error .protocolTerminated), verifier)

/-- Takes a message and gives one. Source: `next_message`. -/
def step (verifier : Verifier G) (incoming : Option Payload) :
    Except Failure (Option Payload) × Verifier G :=
  if verifier.verdict.isSome then (.error (.error .protocolTerminated), verifier)
  else match incoming with
    | none => (.ok none, verifier)
    | some message =>
      match message.toBytes with
      | .error cause => (.error (.error cause), verifier)
      | .ok data => verifier.receive data

end Verifier
end ThreeMove

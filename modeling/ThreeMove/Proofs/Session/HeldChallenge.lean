/-
# The challenge that a verifier holds

A verifier sends one message in its life if any, and that is its challenge.  `Sent` tells what it
can have sent by the stage it is at, which every call keeps to (`Sent.step`): nothing while it
waits, and the challenge it holds once it has asked.  The verdict leaves both open, for the
challenge is dropped with it.  So the challenge can be asked for from the call that sends it to
the verdict (`challenge_until_verdict`) and not beyond (`challenge_lost`).
-/

import ThreeMove.Proofs.Challenge.Encoding
import ThreeMove.Proofs.Session.Course
import ThreeMove.Proofs.Statement.Accepted
import ThreeMove.Session.Verifier

namespace ThreeMove
namespace Verifier

variable {G : Type} {p : Protocol G} {verifier : Verifier G} {sent : List Payload}

/-- What a verifier has sent by the stage it is at. -/
inductive Sent (p : Protocol G) : Verifier G → List Payload → Prop where
  | waiting {stream : ByteStream} : Sent p ⟨p, stream, .waiting⟩ []
  | asked {stream : ByteStream} {a : Announcement G} {c : Nat} :
      Sent p ⟨p, stream, .challenged a c⟩ [.bytes (p.space.encode c)]
  | dismissed {stream : ByteStream} {accepting : Bool} : Sent p ⟨p, stream, .finished accepting⟩ []
  | judged {stream : ByteStream} {c : Nat} {accepting : Bool} :
      Sent p ⟨p, stream, .finished accepting⟩ [.bytes (p.space.encode c)]

/-- Taking the bytes of a message keeps to it. -/
theorem Sent.receive (h : Sent p verifier sent) (data : Bytes) :
    Sent p (verifier.receive data).2
      (sent ++ (Course.message? (verifier.receive data).1).toList) := by
  cases h with
  | @waiting stream =>
    simp only [Verifier.receive, challenge]
    split
    · exact .dismissed
    · split
      · exact .asked
      · exact .dismissed
  | @asked stream a c =>
    simp only [Verifier.receive, conclude]
    split
    · exact .judged
    · exact .judged
  | dismissed => exact .dismissed
  | judged => exact .judged

/-- Every call keeps to it, whatever the input. -/
theorem Sent.step (h : Sent p verifier sent) (input : Option Payload) :
    Sent p (verifier.step input).2
      (sent ++ (Course.message? (verifier.step input).1).toList) := by
  have hsilent : Sent p verifier (sent ++ []) := (List.append_nil sent).symm ▸ h
  unfold Verifier.step
  split
  · exact hsilent
  · split
    · exact hsilent
    · split
      · exact hsilent
      · exact h.receive _

/-- After any inputs a verifier has sent what belongs to its stage. -/
theorem sent_after (p : Protocol G) (source : ByteStream) (inputs : List (Option Payload)) :
    Sent p (Course.after step (.new p source) inputs)
      (Course.sent step (.new p source) inputs) := by
  induction inputs using List.reverseRecOn with
  | nil => exact .waiting
  | append_singleton inputs input ih =>
    rw [Course.after_concat, Course.sent, Course.collect_concat]
    exact ih.step input

/-- A verifier sends one message at most. -/
theorem Sent.length_le_one (h : Sent p verifier sent) : sent.length ≤ 1 := by
  cases h with
  | waiting => exact Nat.zero_le 1
  | asked => exact Nat.le_refl 1
  | dismissed => exact Nat.zero_le 1
  | judged => exact Nat.le_refl 1

/-- A verifier that has sent its challenge sends no more. -/
theorem Sent.quiet {challenge : Payload} (h : Sent p verifier [challenge])
    (later : List (Option Payload)) : Course.sent Verifier.step verifier later = [] := by
  induction later generalizing verifier with
  | nil => rfl
  | cons input later ih =>
    have hstep := h.step input
    generalize hmessage : (Course.message? (verifier.step input).1).toList = message at hstep
    have hnone : message = [] :=
      List.length_eq_zero_iff.1 (Nat.le_zero.1 (Nat.le_of_succ_le_succ hstep.length_le_one))
    rw [hnone, List.append_nil] at hstep
    rw [Course.sent, Course.collect, hmessage, hnone, List.nil_append]
    exact ih hstep

/-- **A verifier holds the challenge that it has sent until its verdict.**  Whatever it is handed,
it sends no message but one challenge.  It holds no challenge before that is sent; from then on,
through all calls that bring no verdict, it holds just the challenge whose encoding was sent; and
with the verdict it holds none. -/
theorem challenge_until_verdict (p : Protocol G) (source : ByteStream)
    (inputs : List (Option Payload)) :
    let verifier := Course.after step (.new p source) inputs
    let sent := Course.sent step (.new p source) inputs
    (sent = [] ∨ (∃ c, sent = [.bytes (p.space.encode c)]) ∧
      ∀ later, Course.sent step verifier later = []) ∧
    ∀ c, verifier.challenge? = some c ↔
      sent = [.bytes (p.space.encode c)] ∧ verifier.verdict = none := by
  intro verifier sent
  have hsent : Sent p verifier sent := sent_after p source inputs
  clear_value verifier sent
  constructor
  · cases hsent with
    | waiting => exact .inl rfl
    | asked => exact .inr ⟨⟨_, rfl⟩, Sent.asked.quiet⟩
    | dismissed => exact .inl rfl
    | @judged stream c accepting =>
      have hjudged : Sent p ⟨p, stream, .finished accepting⟩ [.bytes (p.space.encode c)] := .judged
      exact .inr ⟨⟨c, rfl⟩, hjudged.quiet⟩
  · intro c
    cases hsent with
    | waiting => exact ⟨nofun, fun h => nomatch h.1⟩
    | @asked stream a held =>
      constructor
      · intro h
        obtain rfl := Option.some.inj h
        exact ⟨rfl, rfl⟩
      · rintro ⟨h, -⟩
        have hencode := Payload.bytes.inj (List.cons.inj h).1
        exact congrArg some (p.space.encode_injective hencode)
    | dismissed => exact ⟨nofun, fun h => nomatch h.2⟩
    | judged => exact ⟨nofun, fun h => nomatch h.2⟩

/-- The verifier of `six` sends the challenge 7, and with the verdict on the response it no longer
holds it. -/
theorem challenge_lost :
    let start : Verifier Ristretto :=
      .new (Statement.modP Statement.six).protocol (.ofTape [0, 0, 0, 0x70] 0)
    let inputs := [some (.bytes [1]), some (.bytes [0])]
    Course.sent step start inputs = [.bytes (start.protocol.space.encode 7)] ∧
      (Course.after step start inputs).verdict.isSome ∧
      (Course.after step start inputs).challenge? ≠ some 7 := by
  decide +kernel

end Verifier
end ThreeMove

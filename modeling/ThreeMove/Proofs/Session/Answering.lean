/-
# One announcement, one response

A prover may be handed anything, in any order: nothing, bytes that are a challenge, bytes
that are not, or another payload.  What one call asks of the protocol is an `Inquiry`, of
which a call is the resolution (`Prover.step_eq_resolve`), so that a call asks for one
announcement or one response at most, and `Prover.requests` lists what a run of calls asks
for.

`Prover.Stands` tells where a prover is after some inputs, and is kept by every call
(`Prover.Stands.step`).  What is sent over a whole run is nothing, the announcement, or the
announcement and the response to the first message after it (`Accepted.answers_once`).
-/

import ThreeMove.Proofs.Session.Course
import ThreeMove.Proofs.Statement.Shapes
import ThreeMove.Session.Prover
import Mathlib.Data.List.TakeWhile

namespace ThreeMove

/-- Reads the challenge that a message holds. -/
def ChallengeSpace.read (space : ChallengeSpace) (message : Payload) : Except Error Nat := do
  space.decode (← message.toBytes)

namespace Prover

variable {G : Type}

/-! ### What a call asks of the protocol -/

/-- Something that only the protocol can make. -/
inductive Request (G : Type) where
  | announcement
  | response (secret : Secret G) (challenge : Nat)

/-- What a call comes to: an answer, or one request and what becomes of its outcome.  An
answer says where the prover stands afterwards. -/
inductive Inquiry (G : Type) where
  | answer (reply : Except Failure (Option Payload)) (stage : ProverStage G)
  | announce (next : Except Failure (Announcement G × Secret G) →
      Except Failure (Option Payload) × ProverStage G)
  | respond (secret : Secret G) (challenge : Nat)
      (next : Except Error (Response G) → Except Failure (Option Payload) × ProverStage G)

/-- What is requested, if anything is. -/
def Inquiry.request? : Inquiry G → Option (Request G)
  | .answer _ _ => none
  | .announce _ => some .announcement
  | .respond secret challenge _ => some (.response secret challenge)

/-- Has the request met by a protocol, a witness and the bytes that are left. -/
def Inquiry.resolve (p : Protocol G) (witness : Witness) (source : ByteStream) :
    Inquiry G → Except Failure (Option Payload) × Prover G
  | .answer reply stage => (reply, ⟨p, witness, source, stage⟩)
  | .announce next =>
    let (outcome, stream) := (p.announce witness).run source
    ((next outcome).1, ⟨p, witness, stream, (next outcome).2⟩)
  | .respond secret challenge next =>
    let outcome := p.respond secret challenge
    ((next outcome).1, ⟨p, witness, source, (next outcome).2⟩)

/-- What a call comes to where the prover stands.  The encodings and the reading of the
challenge are at hand; an announcement and a response have to be requested. -/
def Inquiry.of (space : ChallengeSpace)
    (encodeAnnouncement : Announcement G → Except Abort Bytes)
    (encodeResponse : Response G → Except Abort Bytes) :
    ProverStage G → Option Payload → Inquiry G
  | .waiting, none => .announce fun
    | .ok (a, secret) =>
      (some <$> .bytes <$> Failure.ofAborted (encodeAnnouncement a), .announced secret)
    | .error cause => (.error cause, .responded)
  | .waiting, some _ => .answer (.error (.error (.unexpectedMessage "prover INIT"))) .waiting
  | .announced secret, none => .answer (.ok none) (.announced secret)
  | .announced secret, some message =>
    match space.read message with
    | .error cause => .answer (.error (.error cause)) .responded
    | .ok c => .respond secret c fun
      | .ok r => (some <$> .bytes <$> Failure.ofAborted (encodeResponse r), .responded)
      | .error cause => (.error (.error cause), .responded)
  | .responded, _ => .answer (.error (.error .protocolTerminated)) .responded

/-- What a call of the prover comes to. -/
def inquiry (prover : Prover G) (input : Option Payload) : Inquiry G :=
  .of prover.protocol.space prover.protocol.encodeAnnouncement prover.protocol.encodeResponse
    prover.stage input

/-- What is requested in reply to some inputs. -/
def requests : Prover G → List (Option Payload) → List (Request G) :=
  Course.collect step fun prover input => (prover.inquiry input).request?.toList

/-- A challenge is read and answered, and the response encoded; the first step that fails says
so. -/
theorem response_eq (prover : Prover G) (secret : Secret G) (message : Payload) :
    prover.response secret message =
      match prover.protocol.space.read message with
      | .error cause => .error (.error cause)
      | .ok c =>
        match prover.protocol.respond secret c with
        | .error cause => .error (.error cause)
        | .ok r => .bytes <$> Failure.ofAborted (prover.protocol.encodeResponse r) := by
  cases message with
  | bytes data =>
    rw [show prover.protocol.space.read (.bytes data) = prover.protocol.space.decode data from rfl]
    change (Failure.ofRefused (prover.protocol.space.decode data) >>= _) = _
    cases prover.protocol.space.decode data with
    | error cause => rfl
    | ok c =>
      dsimp only
      change (Failure.ofRefused (prover.protocol.respond secret c) >>= _) = _
      cases prover.protocol.respond secret c with
      | error cause => rfl
      | ok r => rfl
  | list items => rfl
  | map entries => rfl

/-- A call does what its inquiry says. -/
theorem step_eq_resolve (prover : Prover G) (input : Option Payload) :
    prover.step input =
      (prover.inquiry input).resolve prover.protocol prover.witness prover.stream := by
  obtain ⟨p, witness, source, stage⟩ := prover
  cases stage with
  | waiting =>
    cases input with
    | none =>
      simp only [step, announce, inquiry, Inquiry.of, Inquiry.resolve]
      split
      · rename_i hrun
        rw [hrun]
      · rename_i hrun
        rw [hrun]
        rfl
    | some message => rfl
  | announced secret =>
    cases input with
    | none => rfl
    | some message =>
      simp only [step, response_eq, inquiry, Inquiry.of]
      cases p.space.read message with
      | error cause => rfl
      | ok c =>
        simp only [Inquiry.resolve]
        cases p.respond secret c with
        | error cause => rfl
        | ok r => rfl
  | responded => rfl

/-! ### Where a prover stands -/

/-- The first message after the call in which the prover announces. -/
def challengeIn (inputs : List (Option Payload)) : Option Payload :=
  (inputs.dropWhile Option.isSome).findSome? id

/-- Nothing is left of inputs that all hold a message. -/
theorem dropWhile_eq_nil {inputs : List (Option Payload)} (h : none ∉ inputs) :
    inputs.dropWhile Option.isSome = [] := by
  rw [List.dropWhile_eq_nil_iff]
  exact fun input hinput => Option.isSome_iff_ne_none.2 fun hnone => h (hnone ▸ hinput)

/-- Where the prover has announced, the next message is the first unless there was one. -/
theorem challengeIn_concat {inputs : List (Option Payload)} (h : none ∈ inputs)
    (input : Option Payload) : challengeIn (inputs ++ [input]) = (challengeIn inputs).or input := by
  have hne : (inputs.dropWhile Option.isSome).isEmpty = false := by
    rw [List.isEmpty_eq_false_iff, Ne, List.dropWhile_eq_nil_iff]
    exact fun hall => nomatch hall none h
  rw [challengeIn, List.dropWhile_append, hne, if_neg Bool.false_ne_true, List.findSome?_append]
  cases input with
  | none => rfl
  | some message => rfl

/-- The input that asks for the announcement is followed by no challenge yet. -/
theorem challengeIn_concat_none {inputs : List (Option Payload)} (h : none ∉ inputs) :
    challengeIn (inputs ++ [none]) = none := by
  rw [challengeIn, List.dropWhile_append, dropWhile_eq_nil h]
  rfl

/-- A challenge follows an input that asks for the announcement. -/
theorem mem_of_challengeIn {inputs : List (Option Payload)} {message : Payload}
    (h : challengeIn inputs = some message) : none ∈ inputs := by
  by_contra hnot
  rw [challengeIn, dropWhile_eq_nil hnot] at h
  exact nomatch h

/-- The first message stays the first. -/
theorem challengeIn_concat_of_some {inputs : List (Option Payload)} {message : Payload}
    (h : challengeIn inputs = some message) (input : Option Payload) :
    challengeIn (inputs ++ [input]) = some message := by
  rw [challengeIn_concat (mem_of_challengeIn h), h, Option.some_or]

end Prover

/-- From these bytes the prover draws an announcement with this secret, and sends it so. -/
def Protocol.Announces {G : Type} (p : Protocol G) (witness : Witness)
    (source stream : ByteStream) (secret : Secret G) (data : Bytes) : Prop :=
  ∃ a, (p.announce witness).run source = (.ok (a, secret), stream) ∧
    p.encodeAnnouncement a = .ok data

namespace Prover

variable {G : Type} {p : Protocol G} {witness : Witness} {source : ByteStream}

/-- Where a prover stands after some inputs, what it has sent, and what it has requested. -/
inductive Stands (p : Protocol G) (witness : Witness) (source : ByteStream)
    (inputs : List (Option Payload)) : Prover G → List Payload → List (Request G) → Prop where
  | waiting (h : none ∉ inputs) : Stands p witness source inputs (.new p witness source) [] []
  | failed {cause : Failure} {stream : ByteStream} (h : none ∈ inputs)
      (hrun : (p.announce witness).run source = (.error cause, stream)) :
      Stands p witness source inputs ⟨p, witness, stream, .responded⟩ [] [.announcement]
  | announced {stream : ByteStream} {secret : Secret G} {data : Bytes} (h : none ∈ inputs)
      (hannounces : p.Announces witness source stream secret data)
      (hfirst : challengeIn inputs = none) :
      Stands p witness source inputs ⟨p, witness, stream, .announced secret⟩ [.bytes data]
        [.announcement]
  | unread {stream : ByteStream} {secret : Secret G} {data : Bytes} {message : Payload}
      {cause : Error} (hannounces : p.Announces witness source stream secret data)
      (hfirst : challengeIn inputs = some message) (hread : p.space.read message = .error cause) :
      Stands p witness source inputs ⟨p, witness, stream, .responded⟩ [.bytes data] [.announcement]
  | refused {stream : ByteStream} {secret : Secret G} {data : Bytes} {message : Payload} {c : Nat}
      (hannounces : p.Announces witness source stream secret data)
      (hfirst : challengeIn inputs = some message) (hread : p.space.read message = .ok c) :
      Stands p witness source inputs ⟨p, witness, stream, .responded⟩ [.bytes data]
        [.announcement, .response secret c]
  | answered {stream : ByteStream} {secret : Secret G} {data answer : Bytes} {message : Payload}
      {c : Nat} {r : Response G} (hannounces : p.Announces witness source stream secret data)
      (hfirst : challengeIn inputs = some message) (hread : p.space.read message = .ok c)
      (hr : p.respond secret c = .ok r) (hencode : p.encodeResponse r = .ok answer) :
      Stands p witness source inputs ⟨p, witness, stream, .responded⟩
        [.bytes data, .bytes answer] [.announcement, .response secret c]

/-- A prover that has responded has come to its end. -/
theorem ended_responded (stream : ByteStream) :
    Course.Ended step (⟨p, witness, stream, .responded⟩ : Prover G) := fun _ => rfl

/-- The announcement of a statement can always be sent, so it fails before it is made. -/
theorem step_new_of_error
    (hencodes : ∀ {a secret stream}, (p.announce witness).run source = (.ok (a, secret), stream) →
      ∃ data, p.encodeAnnouncement a = .ok data) {cause : Failure}
    (h : ((Prover.new p witness source).step none).1 = .error cause) :
    ∃ stream, ((Prover.new p witness source).step none).2 = ⟨p, witness, stream, .responded⟩ := by
  simp only [step, announce, new] at h ⊢
  cases hrun : (p.announce witness).run source with
  | mk outcome stream =>
    cases outcome with
    | error cause => exact ⟨stream, rfl⟩
    | ok drawn =>
      obtain ⟨data, hencode⟩ := hencodes hrun
      simp only [hrun, hencode] at h
      exact nomatch h

section Step

variable {inputs : List (Option Payload)} {prover : Prover G} {sent : List Payload}
  {requests : List (Request G)}

/-- Every call keeps to it, whatever the input. -/
theorem Stands.step
    (hencodes : ∀ {a secret stream}, (p.announce witness).run source = (.ok (a, secret), stream) →
      ∃ data, p.encodeAnnouncement a = .ok data)
    (h : Stands p witness source inputs prover sent requests) (input : Option Payload) :
    Stands p witness source (inputs ++ [input]) (prover.step input).2
      (sent ++ (Course.message? (prover.step input).1).toList)
      (requests ++ (prover.inquiry input).request?.toList) := by
  rw [step_eq_resolve]
  cases h with
  | waiting h =>
    cases input with
    | none =>
      have hnow : none ∈ inputs ++ [none] := List.mem_append_right _ (List.mem_singleton_self _)
      simp only [inquiry, new, Inquiry.of, Inquiry.resolve]
      cases hrun : (p.announce witness).run source with
      | mk outcome stream =>
        cases outcome with
        | error cause => exact .failed hnow hrun
        | ok drawn =>
          obtain ⟨a, secret⟩ := drawn
          obtain ⟨data, hencode⟩ := hencodes hrun
          simp only [hencode]
          exact .announced hnow ⟨a, hrun, hencode⟩ (challengeIn_concat_none h)
    | some message =>
      refine .waiting fun hnone => ?_
      rcases List.mem_append.1 hnone with hnone | hnone
      · exact h hnone
      · exact nomatch List.mem_singleton.1 hnone
  | failed h hrun => exact .failed (List.mem_append_left _ h) hrun
  | @announced stream secret data h hannounces hfirst =>
    cases input with
    | none =>
      refine .announced (List.mem_append_left _ h) hannounces ?_
      rw [challengeIn_concat h, hfirst, Option.none_or]
    | some message =>
      have hfirst : challengeIn (inputs ++ [some message]) = some message := by
        rw [challengeIn_concat h, hfirst, Option.none_or]
      simp only [inquiry, Inquiry.of]
      cases hread : p.space.read message with
      | error cause => exact .unread hannounces hfirst hread
      | ok c =>
        simp only [Inquiry.resolve]
        cases hr : p.respond secret c with
        | error cause => exact .refused hannounces hfirst hread
        | ok r =>
          dsimp only
          cases hencode : p.encodeResponse r with
          | error cause => exact .refused hannounces hfirst hread
          | ok answer => exact .answered hannounces hfirst hread hr hencode
  | unread hannounces hfirst hread =>
    exact .unread hannounces (challengeIn_concat_of_some hfirst input) hread
  | refused hannounces hfirst hread =>
    exact .refused hannounces (challengeIn_concat_of_some hfirst input) hread
  | answered hannounces hfirst hread hr hencode =>
    exact .answered hannounces (challengeIn_concat_of_some hfirst input) hread hr hencode

end Step

/-- A prover of a statement is somewhere among these after whatever it was handed. -/
theorem stands
    (hencodes : ∀ {a secret stream}, (p.announce witness).run source = (.ok (a, secret), stream) →
      ∃ data, p.encodeAnnouncement a = .ok data) (inputs : List (Option Payload)) :
    Stands p witness source inputs (Course.after step (.new p witness source) inputs)
      (Course.sent step (.new p witness source) inputs)
      (requests (.new p witness source) inputs) := by
  induction inputs using List.reverseRecOn with
  | nil => exact .waiting List.not_mem_nil
  | append_singleton inputs input ih =>
    rw [Course.after_concat, Course.sent, Course.collect_concat, requests, Course.collect_concat]
    exact ih.step hencodes input

end Prover

namespace Statement

variable {G : Type} [PrimeGroup G] {s : Statement G}

open Prover in
/-- **A prover answers at most one challenge for its announcement.**  Whatever a prover is
handed, what it sends over the whole run is nothing, its announcement, or its announcement and
the response to the first message after it.  No more is requested of the protocol: one
announcement, and one response for the secret of that announcement and the challenge in that
message; a call is nothing but the resolution of its inquiry.  Messages before the announcement
are errors and change nothing, and so do calls without a message between announcement and
challenge.  Once a message has come to an announced prover, or an announcement has failed, all
calls are told that the prover has terminated. -/
theorem Accepted.answers_once (h : s.Accepted) (witness : Witness) (source : ByteStream)
    (inputs : List (Option Payload)) :
    let start := Prover.new s.protocol witness source
    let prover := Course.after step start inputs
    let sent := Course.sent step start inputs
    (sent = [] ∨ ∃ secret stream data, s.protocol.Announces witness source stream secret data ∧
      (sent = [.bytes data] ∨ ∃ message c r answer, challengeIn inputs = some message ∧
        s.protocol.space.read message = .ok c ∧ s.protocol.respond secret c = .ok r ∧
        s.protocol.encodeResponse r = .ok answer ∧ sent = [.bytes data, .bytes answer])) ∧
    (start.requests inputs = [] ∨ start.requests inputs = [.announcement] ∨
      ∃ secret stream data message c, s.protocol.Announces witness source stream secret data ∧
        challengeIn inputs = some message ∧ s.protocol.space.read message = .ok c ∧
        start.requests inputs = [.announcement, .response secret c]) ∧
    (∀ input, prover.step input =
      (prover.inquiry input).resolve prover.protocol prover.witness prover.stream) ∧
    (none ∉ inputs → prover = start ∧ ∀ message,
      prover.step (some message) = (.error (.error (.unexpectedMessage "prover INIT")), prover)) ∧
    (∀ secret, prover.stage = .announced secret →
      (∃ data, s.protocol.Announces witness source prover.stream secret data) ∧
        prover.step none = (.ok none, prover)) ∧
    ∀ input, ((∃ secret, prover.stage = .announced secret) ∧ input ≠ none ∨
        prover.stage = .waiting ∧ input = none ∧ ∃ cause, (prover.step input).1 = .error cause) →
      ∀ later, Course.replies step (prover.step input).2 later =
        later.map fun _ => .error (.error .protocolTerminated) := by
  intro start prover sent
  have hstands : Stands s.protocol witness source inputs prover sent (start.requests inputs) :=
    stands h.announced_encodes inputs
  generalize start.requests inputs = requests at hstands ⊢
  clear_value prover sent
  refine ⟨?sent, ?requested, prover.step_eq_resolve, ?early, ?idle, ?ended⟩
  case sent =>
    cases hstands with
    | waiting h => exact .inl rfl
    | failed h hrun => exact .inl rfl
    | announced h hannounces hfirst => exact .inr ⟨_, _, _, hannounces, .inl rfl⟩
    | unread hannounces hfirst hread => exact .inr ⟨_, _, _, hannounces, .inl rfl⟩
    | refused hannounces hfirst hread => exact .inr ⟨_, _, _, hannounces, .inl rfl⟩
    | answered hannounces hfirst hread hr hencode =>
      exact .inr ⟨_, _, _, hannounces, .inr ⟨_, _, _, _, hfirst, hread, hr, hencode, rfl⟩⟩
  case requested =>
    cases hstands with
    | waiting h => exact .inl rfl
    | failed h hrun => exact .inr (.inl rfl)
    | announced h hannounces hfirst => exact .inr (.inl rfl)
    | unread hannounces hfirst hread => exact .inr (.inl rfl)
    | refused hannounces hfirst hread =>
      exact .inr (.inr ⟨_, _, _, _, _, hannounces, hfirst, hread, rfl⟩)
    | answered hannounces hfirst hread hr hencode =>
      exact .inr (.inr ⟨_, _, _, _, _, hannounces, hfirst, hread, rfl⟩)
  case early =>
    intro hnone
    cases hstands with
    | waiting h => exact ⟨rfl, fun message => rfl⟩
    | failed h hrun => exact absurd h hnone
    | announced h hannounces hfirst => exact absurd h hnone
    | unread hannounces hfirst hread => exact absurd (mem_of_challengeIn hfirst) hnone
    | refused hannounces hfirst hread => exact absurd (mem_of_challengeIn hfirst) hnone
    | answered hannounces hfirst hread => exact absurd (mem_of_challengeIn hfirst) hnone
  case idle =>
    intro secret hstage
    cases hstands with
    | announced h hannounces hfirst =>
      obtain rfl := ProverStage.announced.inj hstage
      exact ⟨⟨_, hannounces⟩, rfl⟩
    | _ => exact nomatch hstage
  case ended =>
    rintro input (⟨⟨secret, hstage⟩, hinput⟩ | ⟨hstage, rfl, cause, hcause⟩) later
    · obtain ⟨message, rfl⟩ := Option.ne_none_iff_exists'.1 hinput
      cases hstands with
      | @announced stream => exact (ended_responded stream).replies_eq later
      | _ => exact nomatch hstage
    · cases hstands with
      | waiting h' =>
        obtain ⟨stream, hnext⟩ := step_new_of_error h.announced_encodes hcause
        exact hnext ▸ (ended_responded stream).replies_eq later
      | _ => exact nomatch hstage

/-- The hypothesis is satisfiable, and both messages are sent: an early message, an idle call
after the announcement, a challenge, and a second one. -/
theorem answers_once_sixOrSeven :
    ∃ secret data answer, Course.sent Prover.step
        (.new sixOrSeven.protocol (.named [("seven", .scalar 7)]) (.ofTape (List.replicate 12 0) 0))
        [some .emptyMap, none, none, some (.bytes [3]), some (.bytes [4])] =
          [.bytes data, .bytes answer] ∧
      Prover.requests
        (.new sixOrSeven.protocol (.named [("seven", .scalar 7)]) (.ofTape (List.replicate 12 0) 0))
        [some .emptyMap, none, none, some (.bytes [3]), some (.bytes [4])] =
          [.announcement, .response secret 3] := by
  have hboth : (Course.sent Prover.step
      (.new sixOrSeven.protocol (.named [("seven", .scalar 7)]) (.ofTape (List.replicate 12 0) 0))
      [some .emptyMap, none, none, some (.bytes [3]), some (.bytes [4])]).length = 2 := rfl
  have hasked : (Prover.requests
      (.new sixOrSeven.protocol (.named [("seven", .scalar 7)]) (.ofTape (List.replicate 12 0) 0))
      [some .emptyMap, none, none, some (.bytes [3]), some (.bytes [4])]).length = 2 := rfl
  obtain ⟨hsent, hrequests, -⟩ := Accepted.answers_once accepted_sixOrSeven
    (.named [("seven", .scalar 7)]) (.ofTape (List.replicate 12 0) 0)
    [some .emptyMap, none, none, some (.bytes [3]), some (.bytes [4])]
  obtain hnil | ⟨_, _, data, -, hone | ⟨_, _, _, answer, -, -, -, -, hsent⟩⟩ := hsent
  · exact nomatch hboth.symm.trans (congrArg List.length hnil)
  · exact nomatch hboth.symm.trans (congrArg List.length hone)
  obtain hnil | hone | ⟨secret, _, _, message, c, -, hfirst, hread, hrequests⟩ := hrequests
  · exact nomatch hasked.symm.trans (congrArg List.length hnil)
  · exact nomatch hasked.symm.trans (congrArg List.length hone)
  obtain rfl : .bytes [3] = message := Option.some.inj hfirst
  obtain rfl : 3 = c := Except.ok.inj hread
  exact ⟨secret, data, answer, hsent, hrequests⟩

end Statement
end ThreeMove

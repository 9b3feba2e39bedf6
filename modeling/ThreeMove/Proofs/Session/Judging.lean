/-
# The verdict is the transcript's

A verifier hears bytes and nothing else: to be handed nothing, or another payload, leaves it
as it is.  The first bytes are an announcement or not, the second a response or not, and
`Verifier.Stands` tells from the bytes heard so far where the verifier is, which every call
keeps to (`Verifier.Stands.step`).  So the verdict is `true` exactly where the first two are
read as an announcement and a response that are accepted with the one challenge drawn in
between, and it never changes (`Accepted.verdict_iff_valid`).
-/

import ThreeMove.Proofs.Session.Answering
import ThreeMove.Proofs.Session.Exchange

namespace ThreeMove
namespace Verifier

variable {G : Type}

/-! ### What a verifier hears -/

/-- The bytes of an input that is bytes. -/
def dataOf : Option Payload → Option Bytes
  | some (.bytes data) => some data
  | _ => none

/-- Data come in a message of bytes. -/
theorem dataOf_eq_some {input : Option Payload} {data : Bytes} (h : dataOf input = some data) :
    input = some (.bytes data) := by
  unfold dataOf at h
  split at h
  · exact congrArg (some ∘ Payload.bytes) (Option.some.inj h)
  · exact nomatch h

/-- The bytes among some inputs. -/
def heard (inputs : List (Option Payload)) : List Bytes := inputs.filterMap dataOf

/-- An input without data leaves what was heard. -/
theorem heard_concat_of_none {inputs : List (Option Payload)} {input : Option Payload}
    (h : dataOf input = none) : heard (inputs ++ [input]) = heard inputs := by
  rw [heard, List.filterMap_append, List.filterMap_cons_none h, List.filterMap_nil,
    List.append_nil, ← heard]

/-- Data that come last are heard last. -/
theorem heard_concat_bytes (inputs : List (Option Payload)) (data : Bytes) :
    heard (inputs ++ [some (.bytes data)]) = heard inputs ++ [data] :=
  List.filterMap_append

variable {p : Protocol G} {verifier : Verifier G}

/-- A verifier without a verdict receives the data of a message. -/
theorem step_bytes (h : verifier.verdict = none) (data : Bytes) :
    verifier.step (some (.bytes data)) = verifier.receive data := by
  rw [step, h]
  rfl

/-- A message that is not bytes is refused and changes nothing. -/
theorem step_other (h : verifier.verdict = none) {message : Payload}
    (hmessage : dataOf (some message) = none) :
    verifier.step (some message) =
      (.error (.error (.unexpectedRepresentation "bytes")), verifier) := by
  rw [step, h]
  cases message with
  | bytes data => exact absurd hmessage (Option.some_ne_none data)
  | list items => rfl
  | map entries => rfl

/-- With a verdict, nothing more is heard. -/
theorem ended_of_verdict {accepting : Bool} (h : verifier.verdict = some accepting) :
    Course.Ended step verifier := by
  intro input
  unfold step
  rw [h]
  rfl

end Verifier

/-- The bytes are a response that is accepted for the announcement and the challenge. -/
def Protocol.ConvincedBy {G : Type} (p : Protocol G) (a : Announcement G) (c : Nat) (data : Bytes) :
    Prop :=
  ∃ r, p.decodeResponse data = .ok r ∧ p.check a c r = .ok true

/-- The bytes are an announcement, to which the challenge is drawn. -/
structure Protocol.Asks {G : Type} (p : Protocol G) (source stream : ByteStream) (data : Bytes)
    (a : Announcement G) (c : Nat) : Prop where
  reads : p.decodeAnnouncement data = .ok a
  draws : (Sampler.drawElement p.space).run source = (.ok c, stream)

/-- Data are asked about in one way. -/
theorem Protocol.Asks.unique {G : Type} {p : Protocol G} {source stream stream' : ByteStream}
    {data : Bytes} {a a' : Announcement G} {c c' : Nat} (h : p.Asks source stream data a c)
    (h' : p.Asks source stream' data a' c') : stream = stream' ∧ a = a' ∧ c = c' := by
  have hdraws := h.draws.symm.trans h'.draws
  obtain ⟨hc, hstream⟩ := Prod.mk.inj hdraws
  exact ⟨hstream, Except.ok.inj (h.reads.symm.trans h'.reads), Except.ok.inj hc⟩

namespace Verifier

variable {G : Type} {p : Protocol G} {source stream : ByteStream}

/-- First bytes that are not an announcement bring the verdict. -/
theorem step_first_unread {data : Bytes} (h : ∀ a, p.decodeAnnouncement data ≠ .ok a) :
    (Verifier.new p source).step (some (.bytes data)) =
      (.ok none, ⟨p, source, .finished false⟩) := by
  rw [step_bytes rfl]
  simp only [receive, new, challenge]
  cases ha : p.decodeAnnouncement data with
  | error cause => rfl
  | ok a => exact absurd ha (h a)

/-- So does a draw that fails. -/
theorem step_first_undrawn {data : Bytes} {a : Announcement G} {cause : Failure}
    (ha : p.decodeAnnouncement data = .ok a)
    (hdraw : (Sampler.drawElement p.space).run source = (.error cause, stream)) :
    (Verifier.new p source).step (some (.bytes data)) =
      (.error cause, ⟨p, stream, .finished false⟩) := by
  rw [step_bytes rfl]
  simp only [receive, new, challenge, ha, hdraw]
  rfl

/-- The second bytes are judged. -/
theorem step_second
    (hjudges : ∀ {data r}, p.decodeResponse data = .ok r → ∀ a c, ∃ verdict,
      p.check a c r = .ok verdict) (a : Announcement G) (c : Nat) (data : Bytes) :
    ∃ accepting, step ⟨p, stream, .challenged a c⟩ (some (.bytes data)) =
        (.ok none, ⟨p, stream, .finished accepting⟩) ∧
      (accepting = true ↔ p.ConvincedBy a c data) := by
  cases hr : p.decodeResponse data with
  | error cause =>
    refine ⟨false, ?_, nofun, fun ⟨r, hr', _⟩ => nomatch hr.symm.trans hr'⟩
    rw [step_bytes rfl]
    simp only [receive, conclude, judge, hr]
    rfl
  | ok r =>
    obtain ⟨accepting, hcheck⟩ := hjudges hr a c
    refine ⟨accepting, step_response hr hcheck, fun h => ⟨r, hr, h ▸ hcheck⟩, ?_⟩
    rintro ⟨r', hr', hcheck'⟩
    obtain rfl : r = r' := Except.ok.inj (hr.symm.trans hr')
    exact Except.ok.inj (hcheck.symm.trans hcheck')

/-! ### Where a verifier stands -/

/-- Where a verifier stands after the bytes it has heard. -/
inductive Stands (p : Protocol G) (source : ByteStream) : List Bytes → Verifier G → Prop where
  | silent : Stands p source [] (.new p source)
  | unread {first : Bytes} {later : List Bytes}
      (hread : ∀ a, p.decodeAnnouncement first ≠ .ok a) :
      Stands p source (first :: later) ⟨p, source, .finished false⟩
  | undrawn {first : Bytes} {later : List Bytes} {cause : Failure} {stream : ByteStream}
      (hdraw : (Sampler.drawElement p.space).run source = (.error cause, stream)) :
      Stands p source (first :: later) ⟨p, stream, .finished false⟩
  | asked {first : Bytes} {a : Announcement G} {c : Nat} {stream : ByteStream}
      (h : p.Asks source stream first a c) :
      Stands p source [first] ⟨p, stream, .challenged a c⟩
  | judged {first second : Bytes} {later : List Bytes} {a : Announcement G} {c : Nat}
      {stream : ByteStream} {accepting : Bool} (h : p.Asks source stream first a c)
      (hverdict : accepting = true ↔ p.ConvincedBy a c second) :
      Stands p source (first :: second :: later) ⟨p, stream, .finished accepting⟩

/-- A verifier whose first bytes brought a challenge waits for the response, or has judged it. -/
theorem Stands.of_asks {first : Bytes} {rest : List Bytes} {verifier : Verifier G}
    {a : Announcement G} {c : Nat} (h : Stands p source (first :: rest) verifier)
    (hasks : p.Asks source stream first a c) :
    (rest = [] ∧ verifier = ⟨p, stream, .challenged a c⟩) ∨
      ∃ second later accepting, rest = second :: later ∧
        verifier = ⟨p, stream, .finished accepting⟩ ∧
        (accepting = true ↔ p.ConvincedBy a c second) := by
  cases h with
  | unread hread => exact absurd hasks.reads (hread a)
  | undrawn hdraw => exact nomatch hdraw.symm.trans hasks.draws
  | asked hasks' =>
    obtain ⟨rfl, rfl, rfl⟩ := hasks.unique hasks'
    exact .inl ⟨rfl, rfl⟩
  | judged hasks' haccepting =>
    obtain ⟨rfl, rfl, rfl⟩ := hasks.unique hasks'
    exact .inr ⟨_, _, _, rfl, rfl, haccepting⟩

/-- Every call keeps to it, whatever the input. -/
theorem Stands.step
    (hjudges : ∀ {data r}, p.decodeResponse data = .ok r → ∀ a c, ∃ verdict,
      p.check a c r = .ok verdict) {inputs : List (Option Payload)} {verifier : Verifier G}
    (h : Stands p source (heard inputs) verifier) (input : Option Payload) :
    Stands p source (heard (inputs ++ [input])) (verifier.step input).2 := by
  cases hinput : dataOf input with
  | none =>
    rw [heard_concat_of_none hinput]
    cases hverdict : verifier.verdict with
    | some accepting =>
      rw [ended_of_verdict hverdict]
      exact h
    | none =>
      cases input with
      | none =>
        rw [step_none hverdict]
        exact h
      | some message =>
        rw [step_other hverdict hinput]
        exact h
  | some data =>
    obtain rfl := dataOf_eq_some hinput
    rw [heard_concat_bytes]
    generalize heard inputs = received at h ⊢
    cases h with
    | silent =>
      cases ha : p.decodeAnnouncement data with
      | error cause =>
        have hread : ∀ a, p.decodeAnnouncement data ≠ .ok a :=
          fun a ha' => nomatch ha.symm.trans ha'
        rw [step_first_unread hread]
        exact .unread hread
      | ok a =>
        cases hdraw : (Sampler.drawElement p.space).run source with
        | mk outcome stream =>
          cases outcome with
          | error cause =>
            rw [step_first_undrawn ha hdraw]
            exact .undrawn hdraw
          | ok c =>
            rw [step_announcement ha hdraw]
            exact .asked ⟨ha, hdraw⟩
    | unread hread => exact .unread hread
    | undrawn hdraw => exact .undrawn hdraw
    | @asked first a c stream h =>
      obtain ⟨accepting, hstep, hverdict⟩ := step_second hjudges a c data
      rw [hstep]
      exact .judged h hverdict
    | judged h hverdict => exact .judged h hverdict

/-- A verifier of a statement is somewhere among these after whatever it was handed. -/
theorem stands
    (hjudges : ∀ {data r}, p.decodeResponse data = .ok r → ∀ a c, ∃ verdict,
      p.check a c r = .ok verdict) (inputs : List (Option Payload)) :
    Stands p source (heard inputs) (Course.after step (.new p source) inputs) := by
  induction inputs using List.reverseRecOn with
  | nil => exact .silent
  | append_singleton inputs input ih =>
    rw [Course.after_concat]
    exact ih.step hjudges input

end Verifier

namespace Statement

variable {G : Type} [PrimeGroup G] {s : Statement G}

open Verifier in
/-- **The verdict of a verifier is that on the transcript.**  Whatever a verifier is handed,
calls without bytes change nothing before the verdict.  The first bytes, if they are an
announcement, are answered with the one challenge that is drawn, and else bring the verdict
`false` without an error; the second bring the verdict, which is `true` exactly where they are a
response that is accepted.  There is no verdict before that.  From then on it stays, and all calls
are told that the verifier has terminated. -/
theorem Accepted.verdict_iff_valid (h : s.Accepted) (source : ByteStream)
    (inputs : List (Option Payload)) :
    let verifier := Course.after step (.new s.protocol source) inputs
    (verifier.verdict = none → verifier.step none = (.ok none, verifier) ∧
      ∀ message, dataOf (some message) = none → verifier.step (some message) =
        (.error (.error (.unexpectedRepresentation "bytes")), verifier)) ∧
    (heard inputs = [] → verifier = .new s.protocol source ∧ ∀ first,
      ((∀ a, s.protocol.decodeAnnouncement first ≠ .ok a) →
        verifier.step (some (.bytes first)) = (.ok none, ⟨s.protocol, source, .finished false⟩)) ∧
      ∀ a, s.protocol.decodeAnnouncement first = .ok a →
        (Sampler.drawElement s.protocol.space).Answered source →
        ∃ stream c, s.protocol.Asks source stream first a c ∧
          verifier.step (some (.bytes first)) =
            (.ok (some (.bytes (s.protocol.space.encode c))),
              ⟨s.protocol, stream, .challenged a c⟩)) ∧
    (∀ first stream a c, heard inputs = [first] → s.protocol.Asks source stream first a c →
      verifier = ⟨s.protocol, stream, .challenged a c⟩ ∧ ∀ second, ∃ accepting,
        verifier.step (some (.bytes second)) =
            (.ok none, ⟨s.protocol, stream, .finished accepting⟩) ∧
          (accepting = true ↔ s.protocol.ConvincedBy a c second)) ∧
    (verifier.verdict = none ↔ heard inputs = [] ∨ ∃ first stream a c,
      heard inputs = [first] ∧ s.protocol.Asks source stream first a c) ∧
    (verifier.verdict = some true ↔ ∃ first second later stream a c,
      heard inputs = first :: second :: later ∧ s.protocol.Asks source stream first a c ∧
        s.protocol.ConvincedBy a c second) ∧
    (∀ accepting, verifier.verdict = some accepting → ∀ later,
      Course.after step verifier later = verifier ∧ Course.replies step verifier later =
        later.map fun _ => .error (.error .protocolTerminated)) := by
  intro verifier
  have hstands : Stands s.protocol source (heard inputs) verifier := stands h.judges inputs
  generalize heard inputs = received at hstands ⊢
  clear_value verifier
  refine ⟨?quiet, ?first, ?second, ?undecided, ?accepts, ?final⟩
  case quiet => exact fun hverdict => ⟨step_none hverdict, fun _ => step_other hverdict⟩
  case first =>
    rintro rfl
    cases hstands
    refine ⟨rfl, fun first => ⟨step_first_unread, fun a ha hanswered => ?_⟩⟩
    obtain ⟨c, stream, hdraw, -⟩ := (Sampler.always_drawElement _).run hanswered
    exact ⟨stream, c, ⟨ha, hdraw⟩, step_announcement ha hdraw⟩
  case second =>
    rintro first stream a c rfl hasks
    obtain ⟨-, rfl⟩ | ⟨_, _, _, hrest, -⟩ := hstands.of_asks hasks
    · exact ⟨rfl, step_second h.judges a c⟩
    · exact nomatch hrest
  case undecided =>
    constructor
    · intro hverdict
      cases hstands with
      | silent => exact .inl rfl
      | asked hasks => exact .inr ⟨_, _, _, _, rfl, hasks⟩
      | _ => exact nomatch hverdict
    · rintro (rfl | ⟨first, stream, a, c, rfl, hasks⟩)
      · cases hstands
        rfl
      · obtain ⟨-, rfl⟩ | ⟨_, _, _, hrest, -⟩ := hstands.of_asks hasks
        · rfl
        · exact nomatch hrest
  case accepts =>
    constructor
    · intro hverdict
      cases hstands with
      | judged hasks haccepting =>
        obtain rfl := Option.some.inj hverdict
        exact ⟨_, _, _, _, _, _, rfl, hasks, haccepting.1 rfl⟩
      | _ => exact nomatch hverdict
    · rintro ⟨first, second, later, stream, a, c, rfl, hasks, hconvinced⟩
      obtain ⟨hrest, -⟩ | ⟨_, _, _, hrest, rfl, haccepting⟩ := hstands.of_asks hasks
      · exact nomatch hrest
      · obtain ⟨rfl, -⟩ := List.cons.inj hrest
        exact congrArg some (haccepting.2 hconvinced)
  case final =>
    intro accepting hverdict later
    have hended := ended_of_verdict hverdict
    exact ⟨hended.after_eq later, hended.replies_eq later⟩

/-- The hypothesis is satisfiable, and a response that is accepted is found between inputs that
change nothing. -/
theorem verdict_iff_valid_sixOrSeven :
    (Course.after Verifier.step (.new sixOrSeven.protocol (.ofTape (List.replicate 4 0) 0))
      [none, some .emptyMap, some (.bytes [0, 0, 0, 1, 1, 0, 0, 0, 1, 1]), none,
        some (.bytes [0, 0, 0, 1, 0, 0, 0, 0, 1, 0, 0, 0, 0, 1, 0]), none]).verdict =
      some true := by
  obtain ⟨-, -, -, -, haccepts, -⟩ := Accepted.verdict_iff_valid accepted_sixOrSeven
    (.ofTape (List.replicate 4 0) 0)
    [none, some .emptyMap, some (.bytes [0, 0, 0, 1, 1, 0, 0, 0, 1, 1]), none,
      some (.bytes [0, 0, 0, 1, 0, 0, 0, 0, 1, 0, 0, 0, 0, 1, 0]), none]
  exact haccepts.2 ⟨_, _, _, _, _, _, rfl, ⟨rfl, rfl⟩, _, rfl, rfl⟩

end Statement
end ThreeMove

/-
# A prover and a verifier run against each other

The prover announces, the verifier asks, the prover responds, and the verifier comes to a
verdict: each of the four steps takes its party from one stage to the next
(`Prover.step_announce`, `Verifier.step_announcement`, `Prover.step_challenge`,
`Verifier.step_response`), and a verifier that is not told anything waits
(`Verifier.step_none`).  A run of the two goes through these stages and no others, and
if it is the verifier who moves first, it goes through them one turn later
(`Protocol.Transmits.exchange`).

With a witness the four messages are read by the other side, so that the run ends after
four turns, or five, and the verifier accepts (`Accepted.run_convinces`).
-/

import ThreeMove.Proofs.Session.Arrival
import ThreeMove.Proofs.Statement.Noninteractive
import ThreeMove.Proofs.Statement.Width
import ThreeMove.Session.Role

namespace ThreeMove

variable {G ε : Type}

/-! ### The steps of the two parties -/

section Steps

variable {p : Protocol G} {a : Announcement G} {secret : Secret G} {r : Response G} {c : Nat}
  {witness : Witness} {source stream : ByteStream} {aBytes rBytes : Bytes}

/-- A prover that is asked first announces. -/
theorem Prover.step_announce (hrun : (p.announce witness).run source = (.ok (a, secret), stream))
    (hencode : p.encodeAnnouncement a = .ok aBytes) :
    (Prover.new p witness source).step none =
      (.ok (some (.bytes aBytes)), ⟨p, witness, stream, .announced secret⟩) := by
  simp only [step, announce, new, hrun, hencode]
  rfl

/-- A prover that has announced responds to a reduced challenge. -/
theorem Prover.step_challenge (hc : c < p.space.modulus) (hr : p.respond secret c = .ok r)
    (hencode : p.encodeResponse r = .ok rBytes) :
    Prover.step ⟨p, witness, stream, .announced secret⟩ (some (.bytes (p.space.encode c))) =
      (.ok (some (.bytes rBytes)), ⟨p, witness, stream, .responded⟩) := by
  have hread : p.space.decode (p.space.encode c) = .ok c := p.space.decode_eq_ok.2 ⟨hc, rfl⟩
  have hresponse : Prover.response ⟨p, witness, stream, .announced secret⟩ secret
      (.bytes (p.space.encode c)) = .ok (.bytes rBytes) := by
    refine bind_eq_ok.2 ⟨_, rfl, ?_⟩
    refine bind_eq_ok.2 ⟨c, congrArg Failure.ofRefused hread, ?_⟩
    refine bind_eq_ok.2 ⟨r, congrArg Failure.ofRefused hr, ?_⟩
    exact bind_eq_ok.2 ⟨rBytes, congrArg Failure.ofAborted hencode, rfl⟩
  simp only [step, hresponse]
  rfl

/-- A verifier answers an announcement with a challenge that it draws. -/
theorem Verifier.step_announcement (ha : p.decodeAnnouncement aBytes = .ok a)
    (hdraw : (Sampler.drawElement p.space).run source = (.ok c, stream)) :
    (Verifier.new p source).step (some (.bytes aBytes)) =
      (.ok (some (.bytes (p.space.encode c))), ⟨p, stream, .challenged a c⟩) := by
  simp only [step, verdict, new, Payload.toBytes, receive, challenge, ha, hdraw]
  rfl

/-- A verifier that has sent the challenge comes to the verdict on a response. -/
theorem Verifier.step_response (hr : p.decodeResponse rBytes = .ok r) {accepting : Bool}
    (hcheck : p.check a c r = .ok accepting) :
    Verifier.step ⟨p, stream, .challenged a c⟩ (some (.bytes rBytes)) =
      (.ok none, ⟨p, stream, .finished accepting⟩) := by
  simp only [step, verdict, Payload.toBytes, receive, conclude, judge, hr, hcheck]
  rfl

/-- A verifier without a verdict that is handed nothing stays as it is. -/
theorem Verifier.step_none {v : Verifier G} (h : v.verdict = none) :
    v.step none = (.ok none, v) := by
  rw [step, h]
  rfl

end Steps

/-! ### Turns of an execution -/

namespace Execution

variable {ι κ : Type} [Interactive ι ε] [Interactive κ ε]

/-- Turns after turns are turns. -/
theorem Reaches.trans {x y z : Execution ι κ} (h : Reaches ε x y) (h' : Reaches ε y z) :
    Reaches ε x z := by
  induction h with
  | refl x => exact h'
  | turn hrunning hturn _ ih => exact .turn hrunning hturn (ih h')

/-- The execution seen from the other party's side. -/
def swap (x : Execution ι κ) : Execution κ ι :=
  ⟨x.second, x.first, !x.firstMoves, x.message, x.steps⟩

/-- Exchanging the parties does not change whether both have come to their end. -/
theorem finished_swap (x : Execution ι κ) : x.swap.finished ε = x.finished ε :=
  Bool.and_comm ..

/-- A turn may be taken before or after the parties are exchanged. -/
theorem advance_swap (x : Execution ι κ) :
    x.swap.advance ε = ((x.advance ε).1, (x.advance ε).2.1, (x.advance ε).2.2.swap) := by
  have hsettle : ∀ reply notes (y : Execution ι κ), advance.settle ε reply notes y.swap =
      ((advance.settle ε reply notes y).1, (advance.settle ε reply notes y).2.1,
        (advance.settle ε reply notes y).2.2.swap) := by
    intro reply notes y
    cases reply <;> rfl
  obtain ⟨first, second, firstMoves, message, steps⟩ := x
  cases firstMoves with
  | true => exact hsettle _ _ ⟨_, second, true, message, steps⟩
  | false => exact hsettle _ _ ⟨first, _, false, message, steps⟩

/-- Turns may be taken before or after the parties are exchanged. -/
theorem Reaches.swap {x y : Execution ι κ} (h : Reaches ε x y) : Reaches ε x.swap y.swap := by
  induction h with
  | refl x => exact .refl x.swap
  | turn hrunning hturn _ ih =>
    refine .turn ((finished_swap _).trans hrunning) ?_ ?_
    · rw [advance_swap, hturn]
    · rw [advance_swap]
      exact ih

/-- The first party takes its turn. -/
theorem reaches_first {party next : ι} {other : κ} {message reply : Option Payload} {steps : Nat}
    (hlive : Interactive.terminated ε party = false)
    (hstep : (Interactive.step party message : Step ι ε) = .silent (.ok reply) next) :
    Reaches ε ⟨party, other, true, message, steps⟩ ⟨next, other, false, reply, steps + 1⟩ := by
  have hadvance : advance ε ⟨party, other, true, message, steps⟩ =
      (.ok (), [], ⟨next, other, false, reply, steps + 1⟩) := by
    rw [advance, if_pos rfl, turn, hlive, if_neg Bool.false_ne_true, hstep]
    rfl
  refine .turn ?_ ?_ ?_
  · rw [finished, hlive, Bool.false_and]
  · rw [hadvance]
  · rw [hadvance]
    exact .refl _

/-- The second party takes its turn. -/
theorem reaches_second {party : ι} {other next : κ} {message reply : Option Payload} {steps : Nat}
    (hlive : Interactive.terminated ε other = false)
    (hstep : (Interactive.step other message : Step κ ε) = .silent (.ok reply) next) :
    Reaches ε ⟨party, other, false, message, steps⟩ ⟨party, next, true, reply, steps + 1⟩ :=
  (reaches_first hlive hstep).swap

/-- A run ends where the execution reaches the end of both parties. -/
theorem exists_run_eq {first : ι} {second : κ} {x : Execution ι κ}
    (h : Reaches ε (.new first second) x) (hfinished : x.finished ε = true) {limits : Limits}
    (hsteps : x.steps ≤ limits.maxMessages) :
    ∃ notes, run ε first second limits = (.ok x.steps, notes, x) := by
  obtain ⟨rest, -, hresult, hfinal⟩ := exists_runWithin_eq limits.maxMessages limits.maxMessages h
    (Nat.le_add_left_of_le hsteps)
  rw [runWithin_of_finished hfinished] at hresult hfinal
  exact ⟨(run ε first second limits).2.1, Prod.ext hresult (Prod.ext rfl hfinal)⟩

end Execution

/-! ### The run -/

/-- The announcement is read from its encoding, and every challenge has a response that is
read from its encoding and is accepted. -/
structure Protocol.Transmits (p : Protocol G) (a : Announcement G) (secret : Secret G)
    (aBytes : Bytes) : Prop where
  encodes : p.encodeAnnouncement a = .ok aBytes
  decodes : p.decodeAnnouncement aBytes = .ok a
  answers : ∀ c, ∃ r rBytes, p.respond secret c = .ok r ∧ p.encodeResponse r = .ok rBytes ∧
    p.decodeResponse rBytes = .ok r ∧ p.check a c r = .ok true

open Execution in
/-- From when the prover may announce, the run takes four turns, and the verifier
accepts. -/
theorem Protocol.Transmits.exchange {p : Protocol G} {a : Announcement G} {secret : Secret G}
    {aBytes : Bytes} (h : p.Transmits a secret aBytes) (ε : Type) {witness : Witness}
    {source source' stream stream' : ByteStream} {c : Nat}
    (hannounce : (p.announce witness).run source = (.ok (a, secret), stream))
    (hdraw : (Sampler.drawElement p.space).run source' = (.ok c, stream'))
    (hc : c < p.space.modulus) (steps : Nat) :
    Reaches ε ⟨Prover.new p witness source, Verifier.new p source', true, none, steps⟩
      ⟨Prover.mk p witness stream .responded, Verifier.mk p stream' (.finished true), true, none,
        steps + 4⟩ := by
  obtain ⟨r, rBytes, hrespond, hencode, hdecode, hcheck⟩ := h.answers c
  have hfirst : Reaches ε _ ⟨Prover.mk p witness stream (.announced secret), Verifier.new p source',
      false, some (.bytes aBytes), steps + 1⟩ :=
    reaches_first rfl (congrArg Step.ofPair (Prover.step_announce hannounce h.encodes))
  have hsecond : Reaches ε _ ⟨Prover.mk p witness stream (.announced secret),
      Verifier.mk p stream' (.challenged a c), true, some (.bytes (p.space.encode c)), steps + 2⟩ :=
    reaches_second rfl (congrArg Step.ofPair (Verifier.step_announcement h.decodes hdraw))
  have hthird : Reaches ε _ ⟨Prover.mk p witness stream .responded,
      Verifier.mk p stream' (.challenged a c), false, some (.bytes rBytes), steps + 3⟩ :=
    reaches_first rfl (congrArg Step.ofPair (Prover.step_challenge hc hrespond hencode))
  have hfourth : Reaches ε _ ⟨Prover.mk p witness stream .responded,
      Verifier.mk p stream' (.finished true), true, none, steps + 4⟩ :=
    reaches_second rfl (congrArg Step.ofPair (Verifier.step_response hdecode hcheck))
  exact ((hfirst.trans hsecond).trans hthird).trans hfourth

namespace Statement

variable [PrimeGroup G] {s : Statement G}

/-- Whatever a prover with a witness draws, its messages pass the wire. -/
theorem Accepted.transmits_always (h : s.Accepted)
    (laws : s.space.family = .field → PrimeGroup.Laws G)
    (exact : s.space.family = .field → PrimeGroup.ExactEncoding G) {witness : Witness}
    (hknows : s.Knows witness) (haSmall : s.announcementLength < 2 ^ 32)
    (hrSmall : s.responseLength < 2 ^ 32) :
    (s.protocol.announce witness).Always fun m =>
      ∃ aBytes, s.protocol.Transmits m.1 m.2 aBytes := by
  have hsimulated := fun c => (h.simulates laws c).and (h.simulate_reduced laws c)
  have encoding := fun hfield => (exact hfield).injectiveEncoding
  refine ((h.hides laws hknows).always hsimulated).imp fun (a, secret) hanswers => ?_
  obtain ⟨_, -, ⟨hcheck, -⟩, -⟩ := hanswers 0
  have ha := (h.matches_of_check hcheck).announcement
  obtain ⟨aBytes, hencode, hrestored⟩ := h.restoresAnnouncement exact a ha
  have hlength := (h.fixedAnnouncement encoding).length_eq ha hencode
  refine ⟨aBytes, hencode, hrestored (hlength ▸ haSmall), fun c => ?_⟩
  obtain ⟨r, hrespond, ⟨hcheck, -⟩, hreduced⟩ := hanswers c
  have hr := (h.matches_of_check hcheck).response hreduced
  obtain ⟨rBytes, hencode, hrestored⟩ := h.restoresResponse exact r hr
  have hlength := (h.fixedResponse encoding).length_eq hr hencode
  exact ⟨r, rBytes, hrespond, hencode, hrestored (hlength ▸ hrSmall), hcheck⟩

/-- **A prover with a witness convinces a verifier over the wire.**  On all streams that
answer the draws of the two parties, a run of the prover against the verifier succeeds in
four turns, and one of the verifier against the prover in five.  Both parties have come to
their end then, and the verifier accepts.  The messages of the statement must fit a
frame. -/
theorem Accepted.run_convinces (h : s.Accepted)
    (laws : s.space.family = .field → PrimeGroup.Laws G)
    (exact : s.space.family = .field → PrimeGroup.ExactEncoding G)
    (haSmall : s.announcementLength < 2 ^ 32) (hrSmall : s.responseLength < 2 ^ 32)
    {witness : Witness} (hknows : s.Knows witness) {source source' : ByteStream}
    (hsource : (s.protocol.announce witness).Answered source)
    (hsource' : (Sampler.drawElement s.space).Answered source') (ε : Type) (limits : Limits) :
    (4 ≤ limits.maxMessages → ∃ notes x,
      Execution.run ε (Prover.new s.protocol witness source) (Verifier.new s.protocol source')
          limits = (.ok 4, notes, x) ∧
        Interactive.terminated ε x.first = true ∧ Interactive.terminated ε x.second = true ∧
        Interactive.verdict ε x.second = some true) ∧
    (5 ≤ limits.maxMessages → ∃ notes x,
      Execution.run ε (Verifier.new s.protocol source') (Prover.new s.protocol witness source)
          limits = (.ok 5, notes, x) ∧
        Interactive.terminated ε x.first = true ∧ Interactive.terminated ε x.second = true ∧
        Interactive.verdict ε x.first = some true) := by
  obtain ⟨⟨a, secret⟩, stream, hannounce, aBytes, htransmits⟩ :=
    (h.transmits_always laws exact hknows haSmall hrSmall).run hsource
  rw [← s.space_protocol] at hsource'
  obtain ⟨c, stream', hdraw, hc⟩ := (Sampler.always_drawElement s.protocol.space).run hsource'
  constructor
  · intro hlimit
    have hreaches := htransmits.exchange ε hannounce hdraw hc 0
    obtain ⟨notes, hrun⟩ := Execution.exists_run_eq hreaches rfl hlimit
    exact ⟨notes, _, hrun, rfl, rfl, rfl⟩
  · intro hlimit
    -- The verifier's first turn changes nothing but whose turn it is.
    have hidle : Execution.Reaches ε
        (.new (Verifier.new s.protocol source') (Prover.new s.protocol witness source))
        ⟨Verifier.new s.protocol source', Prover.new s.protocol witness source, false, none, 1⟩ :=
      Execution.reaches_first rfl (congrArg Step.ofPair (Verifier.step_none rfl))
    have hreaches := hidle.trans (htransmits.exchange ε hannounce hdraw hc 1).swap
    obtain ⟨notes, hrun⟩ := Execution.exists_run_eq hreaches rfl hlimit
    exact ⟨notes, _, hrun, rfl, rfl, rfl⟩

/-- The hypotheses are satisfiable: over residues the prover moves first, and over scalars
the verifier, within as many turns as the run takes. -/
theorem run_convinces_sixOrSeven_twoOrThree :
    (∃ notes x, Execution.run Unit
      (Prover.new sixOrSeven.protocol (.named [("seven", .scalar 7)])
        (.ofTape (List.replicate 12 0) 0))
      (Verifier.new sixOrSeven.protocol (.ofTape (List.replicate 4 0) 0)) ⟨4⟩ =
        (.ok 4, notes, x) ∧ Interactive.verdict Unit x.second = some true) ∧
    ∃ notes x, Execution.run Unit (Verifier.new twoOrThree.protocol (.ofTape [] 1))
      (Prover.new twoOrThree.protocol (.left (.scalar 2)) (.ofTape [] 0)) ⟨5⟩ =
        (.ok 5, notes, x) ∧ Interactive.verdict Unit x.first = some true := by
  constructor
  · have hsource : (sixOrSeven.protocol.announce (.named [("seven", .scalar 7)])).Answered
        (.ofTape (List.replicate 12 0) 0) := ⟨_, _, rfl, _, _, rfl, _, _, rfl, trivial⟩
    have hsource' : (Sampler.drawElement sixOrSeven.space).Answered
        (.ofTape (List.replicate 4 0) 0) := ⟨_, _, rfl, trivial⟩
    obtain ⟨notes, x, hrun, -, -, hverdict⟩ := (Accepted.run_convinces accepted_sixOrSeven nofun
      nofun (by decide) (by decide) knows_sixOrSeven hsource hsource' Unit ⟨4⟩).1 (Nat.le_refl 4)
    exact ⟨notes, x, hrun, hverdict⟩
  · have hsource : (twoOrThree.protocol.announce (.left (.scalar 2))).Answered (.ofTape [] 0) :=
      ⟨_, _, rfl, _, _, rfl, _, _, rfl, trivial⟩
    have hsource' : (Sampler.drawElement twoOrThree.space).Answered (.ofTape [] 1) :=
      ⟨_, _, rfl, trivial⟩
    obtain ⟨notes, x, hrun, -, -, hverdict⟩ := (Accepted.run_convinces accepted_twoOrThree
      (fun _ => Cyclic.laws) (fun _ => Cyclic.exactEncoding) (by decide) (by decide)
      knows_twoOrThree hsource hsource' Unit ⟨5⟩).2 (Nat.le_refl 5)
    exact ⟨notes, x, hrun, hverdict⟩

end Statement
end ThreeMove

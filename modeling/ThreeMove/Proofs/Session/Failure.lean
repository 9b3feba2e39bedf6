/-
# Failed hosts that have come to their end

A host that has failed has not come to its end as a rule: something is still running, or
its logic has not asked to terminate.  An argument is no longer among what is running when
it is found to be rejected, though.  So if the logic has asked to terminate before, and
nothing is left but the argument, the host has failed and has come to its end
(`Party.failed_and_terminated_iff`); there is no other way to both, and `hasty` is a script
that goes it (`Party.hasty_failed_and_terminated`).
-/

import ThreeMove.Proofs.Session.Rejection
import ThreeMove.Proofs.Session.Trailing

namespace ThreeMove
namespace Party

variable {A L ε : Type} [Interactive A ε]

/-- Every sub-protocol has come to its end, the last as an argument that is rejected and
the others not. -/
def LastRejected (ε : Type) [Interactive A ε] (running : List (String × Hosted (Party A L))) :
    Prop :=
  ∃ completed name hosted, running = completed ++ [(name, hosted)] ∧
    (∀ entry ∈ completed, entry.2.party.terminated ε = true ∧ ¬ Rejects ε entry.2) ∧
    Rejects ε hosted

/-- Retiring fails with nothing left running exactly if the last of the sub-protocols is
rejected. -/
theorem retire_lastRejected_iff (running : List (String × Hosted (Party A L)))
    (completed : Table (Option Bool)) :
    ((retire ε running completed).2.1 = [] ∧ ∃ cause,
      (retire ε running completed).1 = .error cause) ↔ LastRejected ε running := by
  refine retire_induction (motive := fun running _ out =>
    (out.2.1 = [] ∧ ∃ cause, out.1 = .error cause) ↔ LastRejected ε running)
    ?nil ?rejects ?completes ?runs running completed
  case nil =>
    refine fun _ => ⟨fun ⟨_, _, h⟩ => (nomatch h), fun ⟨completed, _, _, h, _⟩ => ?_⟩
    exact absurd h.symm (List.append_ne_nil_of_right_ne_nil completed nofun)
  case rejects =>
    intro name hosted running _ hrejects
    constructor
    · rintro ⟨rfl, -⟩
      exact ⟨[], name, hosted, rfl, List.forall_mem_nil _, hrejects⟩
    · rintro ⟨completed, name', hosted', heq, hcompleted, -⟩
      cases completed with
      | nil => exact ⟨(List.cons.inj heq).2, _, rfl⟩
      | cons entry completed =>
        obtain rfl := (List.cons.inj heq).1
        exact absurd hrejects (hcompleted _ List.mem_cons_self).2
  case completes =>
    intro name hosted running _ out hterminated hnot ih
    rw [ih]
    constructor
    · rintro ⟨completed, name', hosted', rfl, hcompleted, hrejects⟩
      exact ⟨(name, hosted) :: completed, name', hosted', rfl,
        List.forall_mem_cons.2 ⟨⟨hterminated, hnot⟩, hcompleted⟩, hrejects⟩
    · rintro ⟨completed, name', hosted', heq, hcompleted, hrejects⟩
      cases completed with
      | nil =>
        obtain rfl := (Prod.mk.inj (List.cons.inj heq).1).2
        exact absurd hrejects hnot
      | cons entry completed =>
        exact ⟨completed, name', hosted', (List.cons.inj heq).2,
          (List.forall_mem_cons.1 hcompleted).2, hrejects⟩
  case runs =>
    intro name hosted running _ hruns _
    refine ⟨fun ⟨h, _⟩ => (nomatch h), ?_⟩
    rintro ⟨completed, name', hosted', heq, hcompleted, hrejects⟩
    have hterminated : hosted.party.terminated ε = true := by
      cases completed with
      | nil =>
        obtain rfl := (Prod.mk.inj (List.cons.inj heq).1).2
        exact hrejects.terminated
      | cons entry completed =>
        obtain rfl := (List.cons.inj heq).1
        exact (hcompleted _ List.mem_cons_self).1
    exact absurd hterminated (Bool.eq_false_iff.1 hruns)

/-- The host has failed, and has come to its end. -/
def Contradicts (ε : Type) [Interactive A ε] (party : Party A L) : Prop :=
  party.hasFailed = true ∧ party.terminated ε = true

/-- A party that has not failed contradicts nothing. -/
theorem not_contradicts_of_hasFailed {party : Party A L} (h : party.hasFailed = false) :
    ¬ Contradicts ε party :=
  fun ⟨hfailed, _⟩ => absurd (h.symm.trans hfailed) nofun

/-- A party that has not come to its end contradicts nothing. -/
theorem not_contradicts_of_terminated {party : Party A L} (h : party.terminated ε = false) :
    ¬ Contradicts ε party :=
  fun ⟨_, hterminated⟩ => absurd (h.symm.trans hterminated) nofun

/-- A host that has something left to do has not come to its end where it fails. -/
theorem not_contradicts_afterFailure {state : Host L} {running : List (String × Hosted (Party A L))}
    (cause : Failure) (h : (Party.host state running).terminated ε = false) :
    ¬ Contradicts ε (afterFailure cause (.host state running)) := by
  refine not_contradicts_of_terminated ?_
  cases cause with
  | error error => exact h
  | abort abort => exact h

/-- Once the sub-protocols have been called, a host that has something left to do has failed
and come to its end only where the last of them is rejected. -/
theorem settle_contradicts {state : Host L} {dispatch : Dispatch (Party A L) ε}
    (hfailed : state.failed = false)
    (hlive : (Party.host state dispatch.running).terminated ε = false) :
    EitherWay
      (fun taken : Step (Party A L) ε => Contradicts ε taken.next ↔
        state.terminateRequested = true ∧ (∃ replies, dispatch.replies = .ok replies) ∧
          LastRejected ε dispatch.running)
      (fun ready => ready.host.failed = false ∧ ready.host.terminateRequested = false ∧
        state.terminateRequested = false) (settle state dispatch) := by
  have hretired := retire_lastRejected_iff (ε := ε) dispatch.running state.completed
  rw [settle]
  cases hreplies : dispatch.replies with
  | error cause =>
    refine .error ⟨fun h => absurd h (not_contradicts_afterFailure cause hlive), ?_⟩
    rintro ⟨-, ⟨_, h⟩, -⟩
    cases h
  | ok replies =>
    dsimp only
    cases hretire : retire ε dispatch.running state.completed with
    | mk result rest =>
      obtain ⟨kept, completed⟩ := rest
      rw [hretire] at hretired
      cases result with
      | error cause =>
        refine .error ?_
        constructor
        · rintro ⟨-, hterminated⟩
          obtain ⟨hrequested, hkept⟩ := Bool.and_eq_true_iff.1 hterminated
          exact ⟨hrequested, ⟨replies, rfl⟩, hretired.1 ⟨List.isEmpty_iff.1 hkept, cause, rfl⟩⟩
        · rintro ⟨hrequested, -, hlast⟩
          refine ⟨rfl, Bool.and_eq_true_iff.2 ⟨hrequested, List.isEmpty_iff.2 ?_⟩⟩
          exact (hretired.2 hlast).1
      | ok done =>
        have hnot : ¬ LastRejected ε dispatch.running := fun h => by
          obtain ⟨-, cause, hcause⟩ := hretired.2 h
          cases hcause
        dsimp only
        cases hrequested : state.terminateRequested with
        | true =>
          refine .error ⟨fun h => absurd h (not_contradicts_of_hasFailed hfailed), ?_⟩
          rintro ⟨-, -, hlast⟩
          exact absurd hlast hnot
        | false => exact .ok ⟨hfailed, rfl, rfl⟩

variable [HostLogic L A ε]

/-- The logic has asked to terminate, and all that is left to the host comes to its end in
the call, the last of it as an argument that is rejected. -/
structure LosesLast (ε : Type) [Interactive A ε] [HostLogic L A ε] (state : Host L)
    (running : List (String × Hosted (Party A L))) (incoming : Option Payload) : Prop where
  requested : state.terminateRequested = true
  called : ∃ parts state' replies, Enters state running incoming parts state' ∧
    (stepEach running parts : Dispatch (Party A L) ε).replies = .ok replies ∧
    LastRejected ε (stepEach running parts : Dispatch (Party A L) ε).running

/-- The part of the logic does not leave a host that has failed and come to its end. -/
theorem Ready.not_contradicts_finish {ready : Ready A L ε} (hfailed : ready.host.failed = false)
    (hrequested : ready.host.terminateRequested = false) : ¬ Contradicts ε ready.finish.next := by
  rw [Ready.finish_eq]
  split
  · rename_i cause _
    refine not_contradicts_afterFailure cause ?_
    rw [terminated, show ready.asked.terminateRequested = false from hrequested, Bool.false_and]
  · exact not_contradicts_of_hasFailed hfailed

section

variable {state state' : Host L} {running : List (String × Hosted (Party A L))}
  {incoming : Option Payload} {parts : Table Payload}

omit [Interactive A ε] [HostLogic L A ε] in
/-- Taking in a message changes neither whether the host has failed nor what its logic has
asked for. -/
theorem Enters.host_eq (h : Enters state running incoming parts state') :
    state'.failed = state.failed ∧ state'.terminateRequested = state.terminateRequested := by
  obtain ⟨entries, inbox, -, -, -, -, rfl⟩ := Host.intake_eq_ok.1 h.intake
  exact ⟨rfl, rfl⟩

/-- The last sub-protocol is lost where the logic has asked to terminate and the calls end with a
rejected argument. -/
theorem Enters.losesLast_iff (h : Enters state running incoming parts state') :
    LosesLast ε state running incoming ↔ state'.terminateRequested = true ∧
      (∃ replies, (stepEach running parts : Dispatch (Party A L) ε).replies = .ok replies) ∧
      LastRejected ε (stepEach running parts : Dispatch (Party A L) ε).running := by
  rw [h.host_eq.2]
  constructor
  · rintro ⟨hrequested, parts', state'', replies, h', hreplies, hlast⟩
    obtain ⟨⟨⟩, rfl⟩ := Prod.mk.inj (h.intake.symm.trans h'.intake)
    exact ⟨hrequested, ⟨replies, hreplies⟩, hlast⟩
  · rintro ⟨hrequested, ⟨replies, hreplies⟩, hlast⟩
    exact ⟨hrequested, parts, state', replies, h, hreplies, hlast⟩

/-- A host whose sub-protocols have been called still has something left to do. -/
theorem Enters.terminated_called (h : Enters state running incoming parts state') :
    (Party.host state' (stepEach running parts : Dispatch (Party A L) ε).running).terminated ε =
      false := by
  have hempty := congrArg List.isEmpty (roster_stepEach (ε := ε) running parts)
  rw [roster, roster, List.isEmpty_map, List.isEmpty_map] at hempty
  rw [terminated, hempty, h.host_eq.2]
  exact (Bool.or_eq_false_iff.1 h.live).2

end

/-- A call leaves a host that has failed and come to its end if it was so before, or if the
last of its sub-protocols is rejected in the call. -/
theorem step_contradicts_iff (state : Host L) (running : List (String × Hosted (Party A L)))
    (incoming : Option Payload) :
    Contradicts ε (step (.host state running) incoming : Step (Party A L) ε).next ↔
      Contradicts ε (.host state running) ∨ LosesLast ε state running incoming := by
  cases hover : isOver state running with
  | true =>
    have hnot : ¬ LosesLast ε state running incoming := by
      rintro ⟨-, _, _, _, henters, -⟩
      cases henters.live.symm.trans hover
    rw [step_host, prepare, if_pos hover, or_iff_left hnot]
    rfl
  | false =>
    obtain ⟨hfailed, hlive⟩ := Bool.or_eq_false_iff.1 hover
    have hbefore : ¬ Contradicts ε (Party.host state running) :=
      not_contradicts_of_hasFailed hfailed
    rw [or_iff_right hbefore]
    cases hidles : state.idles incoming with
    | true =>
      rw [step_host, prepare, if_neg (Bool.eq_false_iff.1 hover), if_pos hidles]
      refine ⟨fun h => absurd h hbefore, ?_⟩
      rintro ⟨-, _, _, _, henters, -⟩
      cases henters.awake.symm.trans hidles
    | false =>
      rcases hintake : Host.intake { state with started := true } (running.map Prod.fst)
        incoming with ⟨verdict, taken⟩
      cases verdict with
      | error cause =>
        rw [step_of_intake_eq_error hover hidles hintake]
        obtain ⟨inbox, rfl⟩ := Host.exists_inbox hintake
        refine ⟨fun h => absurd h (not_contradicts_of_terminated hlive), ?_⟩
        rintro ⟨-, _, _, _, henters, -⟩
        cases hintake.symm.trans henters.intake
      | ok parts =>
        have henters : Enters state running incoming parts taken := ⟨hover, hidles, hintake⟩
        have hsettle := settle_contradicts (henters.host_eq.1.trans hfailed)
          (henters.terminated_called (ε := ε))
        rw [henters.losesLast_iff, step_host, henters.prepare]
        split
        · rename_i step hready
          exact hsettle.of_error hready
        · rename_i ready hready
          obtain ⟨hfailed', hrequested', hrequested⟩ := hsettle.of_ok hready
          refine ⟨fun h => absurd h (Ready.not_contradicts_finish hfailed' hrequested'), ?_⟩
          exact fun h => absurd (hrequested.symm.trans h.1) Bool.false_ne_true

/-- What has failed and come to its end after some messages did so with one of them. -/
theorem after_contradicts_iff (state : Host L) (running : List (String × Hosted (Party A L)))
    (messages : List (Option Payload)) :
    Contradicts ε ((Party.host state running).after ε messages) ↔
      Contradicts ε (.host state running) ∨
        ∃ earlier incoming later state' running', messages = earlier ++ incoming :: later ∧
          (Party.host state running).after ε earlier = .host state' running' ∧
          LosesLast ε state' running' incoming := by
  induction messages generalizing state running with
  | nil =>
    refine ⟨.inl, fun h => h.resolve_right ?_⟩
    rintro ⟨earlier, incoming, later, _, _, h, -⟩
    exact nomatch (List.append_eq_nil_iff.1 h.symm).2
  | cons incoming messages ih =>
    obtain ⟨state', running', hnext, -⟩ := step_moves (ε := ε) state running incoming
    have hstep := step_contradicts_iff (ε := ε) state running incoming
    rw [hnext] at hstep
    rw [after_cons, hnext, ih, hstep, or_assoc]
    refine or_congr_right ⟨?_, ?_⟩
    · rintro (hlast | ⟨earlier, incoming', later, state'', running'', rfl, hearlier, hlast⟩)
      · exact ⟨[], incoming, messages, state, running, rfl, rfl, hlast⟩
      · refine ⟨incoming :: earlier, incoming', later, state'', running'', rfl, ?_, hlast⟩
        rw [after_cons, hnext]
        exact hearlier
    · rintro ⟨earlier, incoming', later, state'', running'', heq, hearlier, hlast⟩
      cases earlier with
      | nil =>
        obtain ⟨rfl, rfl⟩ := List.cons.inj heq
        obtain ⟨rfl, rfl⟩ := Party.host.inj hearlier
        exact .inl hlast
      | cons first earlier =>
        obtain ⟨rfl, rfl⟩ := List.cons.inj heq
        rw [after_cons, hnext] at hearlier
        exact .inr ⟨earlier, incoming', later, state'', running'', rfl, hearlier, hlast⟩

/-- Whatever its logic is and whatever it is called on, a host has failed and has come to
its end exactly if there was a call in which all that was left to it came to its end, the
last as an argument that is rejected, and its logic had asked to terminate before. -/
theorem failed_and_terminated_iff (logic : L) (sendsFirst : Bool)
    (messages : List (Option Payload)) :
    (((ofLogic logic sendsFirst : Party A L).after ε messages).hasFailed = true ∧
      ((ofLogic logic sendsFirst : Party A L).after ε messages).terminated ε = true) ↔
    ∃ earlier incoming later state running, messages = earlier ++ incoming :: later ∧
      (ofLogic logic sendsFirst : Party A L).after ε earlier = .host state running ∧
      LosesLast ε state running incoming := by
  have hafter := after_contradicts_iff (ε := ε) (A := A) (Host.new logic sendsFirst) [] messages
  exact hafter.trans (or_iff_right (not_contradicts_of_hasFailed rfl))

/-- A script that asks for a proof of the discrete logarithm of `six`, and to terminate, in
the same round. -/
def hasty : Script Ristretto where
  name := "asking"
  rounds := [(0, [.perform false
    (.start "proof" true (.ok (.verifier (.modP Statement.six) ⟨fun _ => 0, 0, 1⟩))), stopping])]
  otherwise := []

/-- A response that cannot be read fails the host of `hasty`, which has come to its end
then. -/
theorem hasty_failed_and_terminated :
    let asked : Party (Role Ristretto) (Script Ristretto) := (ofLogic hasty true).after
      (ScriptEvent Ristretto) [none, some (.map [("proof", .bytes [1])])]
    let answered : Step (Party (Role Ristretto) (Script Ristretto)) (ScriptEvent Ristretto) :=
      step asked (some (.map [("proof", .bytes [])]))
    answered.reply = .error (.error (.argumentRejected "proof")) ∧
      answered.next.hasFailed = true ∧
      answered.next.terminated (ScriptEvent Ristretto) = true :=
  ⟨by decide +kernel, by decide +kernel, by decide +kernel⟩

end Party
end ThreeMove

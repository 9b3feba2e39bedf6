/-
# The turns of two parties, and the rounds of two hosts

What an execution does to any two parties is put together in `Execution.Driven`.  Between two
hosts the turns are the rounds: the host whose turn number `k` is goes through round number `k` in
it, unless it has come to its end and passes (`Execution.Lockstep.inRound`).
-/

import ThreeMove.Proofs.Session.Driving
import ThreeMove.Proofs.Session.Lifetime
import ThreeMove.Proofs.Session.Lockstep

namespace ThreeMove
namespace Execution

section

variable {ι κ ε : Type} [Interactive ι ε] [Interactive κ ε]

/-! ### Any two parties -/

/-- How an execution of two parties goes, within limits. -/
structure Driven (ε : Type) [Interactive ι ε] [Interactive κ ε] (first : ι) (second : κ)
    (limits : Limits) : Prop where
  /-- The calls are the turns of parties that have not come to their end. -/
  calls : run Turn (⟨first⟩ : Watched ε true ι) (⟨second⟩ : Watched ε false κ) limits =
    ((run ε first second limits).1,
      (turnsWithin ε limits.maxMessages (.new first second)).filter (·.live),
      (run ε first second limits).2.2.watch ε)
  bounded : (turnsWithin ε limits.maxMessages (.new first second)).length ≤ limits.maxMessages
  /-- The first turn is the first party's, which is handed nothing. -/
  starts : ∀ t ∈ (turnsWithin ε limits.maxMessages (.new first second)).head?,
    t.byFirst = true ∧ t.incoming = none
  follows : (turnsWithin ε limits.maxMessages (.new first second)).IsChain Turn.Follows
  /-- A party that has come to its end gives nothing, and may be handed nothing. -/
  passes : ∀ t ∈ turnsWithin ε limits.maxMessages (.new first second), t.live = false →
    t.outcome = if isEmptyMessage t.incoming then .ok none
      else .error (.error (.unexpectedMessage "terminated"))
  /-- Turn number `k` is taken at the point after `k` turns. -/
  points : ∀ k t, (turnsWithin ε limits.maxMessages (.new first second))[k]? = some t ↔
    k < limits.maxMessages ∧ ∃ y, Reaches ε (.new first second) y ∧ y.steps = k ∧
      y.finished ε = false ∧ y.turnOf ε = t
  /-- The result is that of the point where the execution ends. -/
  ends : ∀ result, (run ε first second limits).1 = result ↔ ∃ y, Reaches ε (.new first second) y ∧
    Ends ε limits.maxMessages limits.maxMessages y result
  /-- A run that succeeds takes turns until both parties have come to their end, and no more. -/
  succeeds : ∀ n, (run ε first second limits).1 = .ok n → n ≤ limits.maxMessages ∧
    n = (turnsWithin ε limits.maxMessages (.new first second)).length ∧
    (run ε first second limits).2.2.finished ε = true ∧
    ∀ y, Reaches ε (.new first second) y →
      y.steps ≤ n ∧ (y.finished ε = true ↔ y.steps = n)
  /-- It is said that there is no turn left, other than by a party, just where all have been taken
  and the parties have not come to their end. -/
  limit : ∀ m, ((run ε first second limits).1 = .error (.error (.roundLimitExceeded m)) ∧
      ∀ t ∈ turnsWithin ε limits.maxMessages (.new first second), t.live = true →
        ∃ message, t.outcome = .ok message) ↔
    m = limits.maxMessages ∧ ∃ y, Reaches ε (.new first second) y ∧
      y.steps = limits.maxMessages ∧ y.finished ε = false

section

variable {first : ι} {second : κ} {limits : Limits}

/-- Turn number `k` is taken at the point after `k` turns. -/
theorem getElem?_turnsWithin_new {maxMessages k : Nat} {t : Turn} :
    (turnsWithin ε maxMessages (.new first second))[k]? = some t ↔
      k < maxMessages ∧ ∃ y, Reaches ε (.new first second) y ∧ y.steps = k ∧
        y.finished ε = false ∧ y.turnOf ε = t := by
  rw [getElem?_turnsWithin]
  simp only [new, Nat.zero_add]

/-- Every turn is taken at some point. -/
theorem exists_turnOf_eq {maxMessages : Nat} {t : Turn}
    (h : t ∈ turnsWithin ε maxMessages (.new first second)) :
    ∃ y, Reaches ε (.new first second) y ∧ y.steps < maxMessages ∧ y.turnOf ε = t := by
  obtain ⟨k, hk⟩ := List.mem_iff_getElem?.1 h
  obtain ⟨hlt, y, hreaches, rfl, -, hturn⟩ := getElem?_turnsWithin_new.1 hk
  exact ⟨y, hreaches, hlt, hturn⟩

/-- The result of a run is that of the point where it ends. -/
theorem run_eq_iff {result : Except Failure Nat} :
    (run ε first second limits).1 = result ↔ ∃ y, Reaches ε (.new first second) y ∧
      Ends ε limits.maxMessages limits.maxMessages y result := by
  rw [run, runWithin_eq_iff]
  simp only [new, Nat.zero_add]

/-- In a turn that is passed the party was only asked whether it may be handed the message. -/
theorem outcome_of_mem_turnsWithin {maxMessages : Nat} {t : Turn}
    (h : t ∈ turnsWithin ε maxMessages (.new first second)) (hlive : t.live = false) :
    t.outcome = if isEmptyMessage t.incoming then .ok none
      else .error (.error (.unexpectedMessage "terminated")) := by
  obtain ⟨y, -, -, rfl⟩ := exists_turnOf_eq h
  exact outcome_of_receiverEnded ((Bool.not_eq_false' _).mp hlive)

/-- A run that succeeds is at its end where both parties are. -/
theorem finished_of_run_eq_ok {n : Nat} (h : (run ε first second limits).1 = .ok n) :
    n ≤ limits.maxMessages ∧ n = (turnsWithin ε limits.maxMessages (.new first second)).length ∧
      (run ε first second limits).2.2.finished ε = true ∧
      ∀ y, Reaches ε (.new first second) y → y.steps ≤ n ∧ (y.finished ε = true ↔ y.steps = n) := by
  obtain ⟨y, hreaches, hend⟩ := run_eq_iff.1 h
  cases hend with
  | finished hfinished hsteps =>
    have hlength := eq_length_turnsWithin h
    rw [show (new first second).steps = 0 from rfl, Nat.zero_add] at hlength
    obtain ⟨rest, -, -, hfinal⟩ := exists_runWithin_eq limits.maxMessages limits.maxMessages
      hreaches (Nat.le_add_left_of_le hsteps)
    refine ⟨hsteps, hlength, ?_, fun z hz => ?_⟩
    · rw [run, hfinal, runWithin_of_finished hfinished]
      exact hfinished
    · have hbefore := hreaches.before_finished hz hfinished
      refine ⟨hbefore.steps_le, fun hz => ?_, fun hsteps => ?_⟩
      · rw [hbefore.eq_of_finished hz]
      · rwa [← hbefore.eq_of_steps_le hsteps.ge]

/-- Where no party that was called has failed, a run that fails does so because there is no turn
left. -/
theorem exists_running_of_run_eq_error {m : Nat}
    (h : (run ε first second limits).1 = .error (.error (.roundLimitExceeded m)))
    (hcalls : ∀ t ∈ turnsWithin ε limits.maxMessages (.new first second), t.live = true →
      ∃ message, t.outcome = .ok message) :
    m = limits.maxMessages ∧ ∃ y, Reaches ε (.new first second) y ∧
      y.steps = limits.maxMessages ∧ y.finished ε = false := by
  obtain ⟨y, hreaches, hend⟩ := run_eq_iff.1 h
  cases hend with
  | limit hrunning hsteps => exact ⟨rfl, y, hreaches, hsteps, hrunning⟩
  | fails hrunning hsteps houtcome =>
    -- No call has failed, and a turn that is passed fails with another error.
    have hmem : y.turnOf ε ∈ turnsWithin ε limits.maxMessages (.new first second) :=
      List.mem_of_getElem?
        (getElem?_turnsWithin_new.2 ⟨hsteps, y, hreaches, rfl, hrunning, rfl⟩)
    cases hlive : (y.turnOf ε).live with
    | true =>
      obtain ⟨message, hok⟩ := hcalls _ hmem hlive
      cases hok.symm.trans houtcome
    | false =>
      have hpass := (outcome_of_mem_turnsWithin hmem hlive).symm.trans houtcome
      split at hpass <;> cases hpass

/-- Where all turns have been taken and the parties have not come to their end, no turn has failed
and it is said that there is none left. -/
theorem run_eq_error_of_running {y : Execution ι κ} (hreaches : Reaches ε (.new first second) y)
    (hsteps : y.steps = limits.maxMessages) (hrunning : y.finished ε = false) :
    (run ε first second limits).1 = .error (.error (.roundLimitExceeded limits.maxMessages)) ∧
      ∀ t ∈ turnsWithin ε limits.maxMessages (.new first second), t.live = true →
        ∃ message, t.outcome = .ok message := by
  refine ⟨run_eq_iff.2 ⟨y, hreaches, .limit hrunning hsteps⟩, fun t ht _ => ?_⟩
  obtain ⟨z, hz, hlt, rfl⟩ := exists_turnOf_eq ht
  rw [← hsteps] at hlt
  exact (hz.of_steps_le hreaches hlt.le).outcome_eq_ok hlt

end

/-- An execution of any two parties goes as it should. -/
theorem driven (first : ι) (second : κ) (limits : Limits) : Driven ε first second limits where
  calls := runWithin_watch _ _ (.new first second)
  bounded := length_turnsWithin _ _
  starts t ht := by
    rw [head?_turnsWithin _ _ t ht]
    exact ⟨rfl, rfl⟩
  follows := follows_turnsWithin _ _
  passes _ := outcome_of_mem_turnsWithin
  points _ _ := getElem?_turnsWithin_new
  ends _ := run_eq_iff
  succeeds _ := finished_of_run_eq_ok
  limit m := by
    constructor
    · rintro ⟨herror, hcalls⟩
      exact exists_running_of_run_eq_error herror hcalls
    · rintro ⟨rfl, y, hreaches, hsteps, hrunning⟩
      exact run_eq_error_of_running hreaches hsteps hrunning

end

end Execution

/-! ### Two hosts -/

namespace Party

variable {A L B M ε : Type} [Interactive A ε] [HostLogic L A ε]

/-- A call in which the host goes through round number `k`. -/
structure Processes (ε : Type) [Interactive A ε] [HostLogic L A ε] (k : Nat) (state : Host L)
    (running : List (String × Hosted (Party A L))) (incoming : Option Payload) : Prop where
  live : isOver state running = false
  awake : state.idles incoming = false
  round : state.round = k
  /-- If the logic is asked, it is for this round. -/
  asked : ∀ ready : Ready A L ε, prepare state running incoming = .ok ready →
    ready.program = HostLogic.act ready.host.logic k
  /-- If the call does not fail, the round is gone through. -/
  completes : ∀ message,
    (step (.host state running) incoming : Step (Party A L) ε).reply = .ok message →
      ∃ entries state' running', message = some (.map entries) ∧
        (step (.host state running) incoming : Step (Party A L) ε).next = .host state' running' ∧
        Completes ε state running incoming entries state' running' ∧ state'.round = k + 2

/-- The host whose turn it is goes through the round with the number of the turn. -/
theorem Paired.processes {t : Nat} {state : Host L} {running : List (String × Hosted (Party A L))}
    {message : Option Payload} {waiting : Host M} {others : List (String × Hosted (Party B M))}
    (h : Paired t state running message waiting others) (hlive : isOver state running = false) :
    Processes ε t state running message where
  live := hlive
  awake := h.awake
  round := h.mover_round hlive
  asked ready hprepare := by
    have hsettled := prepare_settled (ε := ε) h.mover.distinct message
    rw [hprepare] at hsettled
    cases hsettled with
    | asks _ _ _ hcarries => rw [Ready.program, hcarries.round, h.mover_round hlive]
  completes reply hreply := by
    obtain ⟨hidles, -, -⟩ | ⟨entries, state', running', rfl, hnext, hround⟩ := step_eq_ok hreply
    · cases hidles.symm.trans h.awake
    · refine ⟨entries, state', running', rfl, hnext, hround, ?_⟩
      rw [hround.started_round.2, h.mover_round hlive]

end Party

namespace Execution

open Party

variable {A L B M : Type}

/-- The party whose turn it is, a host, goes through the round with the number of the turn. -/
inductive InRound (ε : Type) [Interactive A ε] [HostLogic L A ε] [Interactive B ε]
    [HostLogic M B ε] : Execution (Party A L) (Party B M) → Prop where
  | first {k : Nat} {state : Host L} {running : List (String × Hosted (Party A L))}
      {second : Party B M} {message : Option Payload}
      (h : Processes ε k state running message) :
      InRound ε ⟨.host state running, second, true, message, k⟩
  | second {k : Nat} {first : Party A L} {state : Host M}
      {running : List (String × Hosted (Party B M))} {message : Option Payload}
      (h : Processes ε k state running message) :
      InRound ε ⟨first, .host state running, false, message, k⟩

/-- Between two hosts that move in turn, the one whose turn it is goes through the round of the
turn's number. -/
theorem Lockstep.inRound {ε : Type} [Interactive A ε] [HostLogic L A ε] [Interactive B ε]
    [HostLogic M B ε] {x : Execution (Party A L) (Party B M)} (h : Lockstep x)
    (hlive : x.receiverEnded ε = false) : InRound ε x := by
  cases h with
  | first hpaired =>
    have hover := (hpaired.mover.terminated_eq (ε := ε)).symm.trans hlive
    exact .first (hpaired.processes hover)
  | second hpaired =>
    have hover := (hpaired.mover.terminated_eq (ε := ε)).symm.trans hlive
    exact .second (hpaired.processes hover)

/-- **An execution drives its parties as it should.**  It takes no more turns than it may, the
parties' by turns and the first party's first, each on what the one before gave; it calls the
parties that have not come to their end, and the others pass.  It succeeds at the first point at
which both parties have come to their end, with the number of turns taken; it says that there is
no turn left just where all have been taken without a failure and this point has not come; and it
fails otherwise as the turn does that fails.

Between two hosts of which the first moves first, turn number `k`, unless it is passed, is round
number `k`. -/
theorem run_driven (ε : Type) :
    (∀ {ι κ : Type} [Interactive ι ε] [Interactive κ ε] (first : ι) (second : κ)
      (limits : Limits), Driven ε first second limits) ∧
    ∀ {A L B M : Type} [Interactive A ε] [HostLogic L A ε] [Interactive B ε] [HostLogic M B ε]
      (logic : L) (logic' : M) (x : Execution (Party A L) (Party B M)),
      Reaches ε (.new (ofLogic logic true) (ofLogic logic' false)) x →
        x.receiverEnded ε = false → InRound ε x :=
  ⟨driven, fun logic logic' _ hreaches => (hreaches.lockstep (.new logic logic')).inRound⟩

/-- Of the scripts of which the one leaves and the other sends something in parting, the second
goes through its round in turn number 1. -/
theorem run_driven_parting :
    let start : Execution (Party (Role Ristretto) (Script Ristretto))
        (Party (Role Ristretto) (Script Ristretto)) :=
      .new (ofLogic leaving true) (ofLogic parting false)
    ∃ x, Reaches (ScriptEvent Ristretto) start x ∧ x.steps = 1 ∧
      x.receiverEnded (ScriptEvent Ristretto) = false ∧ InRound (ScriptEvent Ristretto) x := by
  intro start
  have hreaches : Reaches (ScriptEvent Ristretto) start _ :=
    .turn (by decide +kernel) (by decide +kernel) (.refl _)
  have hlive : (start.advance (ScriptEvent Ristretto)).2.2.receiverEnded
      (ScriptEvent Ristretto) = false := by
    decide +kernel
  refine ⟨_, hreaches, ?_, hlive, ?_⟩
  · decide +kernel
  · exact (run_driven (ScriptEvent Ristretto)).2 leaving parting _ hreaches hlive

end Execution
end ThreeMove

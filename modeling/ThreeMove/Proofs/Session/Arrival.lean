/-
# Messages under way arrive, but for the last

A message with something in it that is under way at some point of an execution is handed
to the other party in the next turn, if the execution goes on to succeed and does not end
at that point (`Execution.arrives_iff`).  A message for a party that has come to its end
is unexpected, unless its sender came to its end in the turn that gave it: whether both
have is asked before the message is looked at, and the execution succeeds with the message
still under way (`Execution.parting_lost`).
-/

import ThreeMove.Proofs.Session.Mailbox

namespace ThreeMove
namespace Execution

variable {ι κ ε : Type} [Interactive ι ε] [Interactive κ ε]

/-- Whether the party whose turn it is, which the message under way is for, has come to
its end. -/
def receiverEnded (ε : Type) [Interactive ι ε] [Interactive κ ε] (x : Execution ι κ) : Bool :=
  if x.firstMoves then Interactive.terminated ε x.first else Interactive.terminated ε x.second

/-- Whether the party that gave the message under way has come to its end. -/
def senderEnded (ε : Type) [Interactive ι ε] [Interactive κ ε] (x : Execution ι κ) : Bool :=
  if x.firstMoves then Interactive.terminated ε x.second else Interactive.terminated ε x.first

/-- The party whose turn it is takes the message under way. -/
inductive Handed (ε : Type) [Interactive ι ε] [Interactive κ ε] (x : Execution ι κ) : Prop where
  | first {reply : Option Payload} (hmoves : x.firstMoves = true)
      (hlive : Interactive.terminated ε x.first = false)
      (h : (Interactive.step x.first x.message : Step ι ε).reply = .ok reply)
  | second {reply : Option Payload} (hmoves : x.firstMoves = false)
      (hlive : Interactive.terminated ε x.second = false)
      (h : (Interactive.step x.second x.message : Step κ ε).reply = .ok reply)

/-- An execution has come to its end where both parties have. -/
theorem finished_eq (x : Execution ι κ) :
    x.finished ε = (x.receiverEnded ε && x.senderEnded ε) := by
  rw [finished, receiverEnded, senderEnded]
  split
  · rfl
  · exact Bool.and_comm _ _

/-! ### One turn -/

/-- A turn that succeeds passes on to the party that did not move. -/
theorem advance_eq_ok {x : Execution ι κ} (h : (x.advance ε).1 = .ok ()) :
    (x.advance ε).2.2.receiverEnded ε = x.senderEnded ε ∧
      (x.advance ε).2.2.steps = x.steps + 1 := by
  have hsettle : ∀ {reply notes} {y : Execution ι κ}, (advance.settle ε reply notes y).1 = .ok () →
      (advance.settle ε reply notes y).2.2.receiverEnded ε = y.senderEnded ε ∧
        (advance.settle ε reply notes y).2.2.steps = y.steps + 1 := by
    intro reply notes y h
    cases reply with
    | error cause => exact nomatch h
    | ok message =>
      refine ⟨?_, rfl⟩
      rw [advance.settle, receiverEnded, senderEnded]
      cases y.firstMoves <;> rfl
  rw [advance] at h ⊢
  split at h
  · rename_i hmoves
    rw [if_pos hmoves]
    obtain ⟨hended, hsteps⟩ := hsettle h
    refine ⟨hended.trans ?_, hsteps⟩
    rw [senderEnded, senderEnded, if_pos hmoves, if_pos hmoves]
  · rename_i hmoves
    rw [if_neg hmoves]
    obtain ⟨hended, hsteps⟩ := hsettle h
    refine ⟨hended.trans ?_, hsteps⟩
    rw [senderEnded, senderEnded, if_neg hmoves, if_neg hmoves]

/-- A party that has not come to its end takes its turn by taking the message. -/
theorem handed_of_advance {x : Execution ι κ} (hlive : x.receiverEnded ε = false)
    (h : (x.advance ε).1 = .ok ()) : Handed ε x := by
  obtain ⟨cause, -, hcause, -⟩ | ⟨-, houtcome, -⟩ := advance_cases (ε := ε) x
  · exact nomatch hcause.symm.trans h
  rw [receiverEnded] at hlive
  rw [outcome] at houtcome
  split at houtcome
  · rename_i hmoves
    rw [if_pos hmoves] at hlive
    rw [turn, hlive, if_neg Bool.false_ne_true] at houtcome
    exact .first hmoves hlive houtcome
  · rename_i hmoves
    rw [if_neg hmoves] at hlive
    rw [turn, hlive, if_neg Bool.false_ne_true] at houtcome
    exact .second (Bool.eq_false_iff.2 hmoves) hlive houtcome

/-- A party that takes a message has not come to its end. -/
theorem Handed.receiverEnded_eq {x : Execution ι κ} (h : Handed ε x) :
    x.receiverEnded ε = false := by
  cases h with
  | first hmoves hlive h => rwa [receiverEnded, if_pos hmoves]
  | second hmoves hlive h => rwa [receiverEnded, hmoves, if_neg Bool.false_ne_true]

/-- A party that has come to its end passes, unless it is handed something. -/
theorem outcome_of_receiverEnded {x : Execution ι κ} (h : x.receiverEnded ε = true) :
    x.outcome ε = if isEmptyMessage x.message then .ok none
      else .error (.error (.unexpectedMessage "terminated")) := by
  rw [receiverEnded] at h
  rw [outcome]
  split at h
  · rename_i hmoves
    rw [if_pos hmoves, turn, if_pos h]
    split <;> rfl
  · rename_i hmoves
    rw [if_neg hmoves, turn, if_pos h]
    split <;> rfl

/-- A message for a party that has come to its end fails the turn. -/
theorem advance_of_receiverEnded {x : Execution ι κ} (hended : x.receiverEnded ε = true)
    (hmessage : isEmptyMessage x.message = false) :
    (x.advance ε).1 = .error (.error (.unexpectedMessage "terminated")) := by
  have houtcome := outcome_of_receiverEnded hended
  rw [hmessage, if_neg Bool.false_ne_true] at houtcome
  obtain ⟨cause, hcause, hadvance, -⟩ | ⟨-, hok, -⟩ := advance_cases (ε := ε) x
  · rw [hadvance, Except.error.inj (hcause.symm.trans houtcome)]
  · exact nomatch hok.symm.trans houtcome

/-! ### The run through a point -/

/-- A point is the start, or follows a point by a turn. -/
theorem Reaches.eq_or_exists {x y : Execution ι κ} (h : Reaches ε x y) :
    y = x ∨ ∃ w, Reaches ε x w ∧ w.finished ε = false ∧ (w.advance ε).1 = .ok () ∧
      (w.advance ε).2.2 = y := by
  induction h with
  | refl x => exact .inl rfl
  | @turn x y hrunning hturn hrest ih =>
    right
    obtain rfl | ⟨w, hw, hlast⟩ := ih
    · exact ⟨x, .refl x, hrunning, hturn, rfl⟩
    · exact ⟨w, .turn hrunning hturn hw, hlast⟩

/-- The number of turns only grows. -/
theorem Reaches.steps_le {x y : Execution ι κ} (h : Reaches ε x y) : x.steps ≤ y.steps := by
  induction h with
  | refl x => exact Nat.le_refl _
  | turn hrunning hturn hrest ih =>
    rw [(advance_eq_ok hturn).2] at ih
    exact (Nat.le_succ _).trans ih

/-- A run comes to every point that the execution reaches within its turns. -/
theorem exists_runWithin_eq (limit budget : Nat) {x y : Execution ι κ} (h : Reaches ε x y)
    (hsteps : y.steps ≤ x.steps + budget) : ∃ rest, rest + y.steps = x.steps + budget ∧
      (runWithin ε limit budget x).1 = (runWithin ε limit rest y).1 ∧
      (runWithin ε limit budget x).2.2 = (runWithin ε limit rest y).2.2 := by
  induction h generalizing budget with
  | refl x => exact ⟨budget, Nat.add_comm _ _, rfl, rfl⟩
  | @turn x y hrunning hturn hrest ih =>
    have hnext := (advance_eq_ok hturn).2
    have hle := hrest.steps_le
    cases budget with
    | zero => omega
    | succ budget =>
      obtain ⟨rest, hrest, hresult, hfinal⟩ := ih budget (by omega)
      rw [runWithin_of_ok hrunning hturn]
      exact ⟨rest, by omega, hresult, hfinal⟩

/-- Where a run that goes on succeeds, the party whose turn it is takes what it is handed. -/
theorem handed_of_runWithin_eq_ok {limit budget steps : Nat} {x : Execution ι κ}
    (hok : (runWithin ε limit budget x).1 = .ok steps) (hrunning : x.finished ε = false)
    (hmessage : isEmptyMessage x.message = false) : Handed ε x := by
  cases budget with
  | zero =>
    rw [runWithin_zero hrunning] at hok
    cases hok
  | succ budget =>
    cases hturn : (x.advance ε).1 with
    | error cause =>
      rw [runWithin_of_error hrunning hturn] at hok
      cases hok
    | ok done =>
      refine handed_of_advance (Bool.eq_false_iff.2 fun hended => ?_) hturn
      cases hturn.symm.trans (advance_of_receiverEnded hended hmessage)

/-- A run fails for a message to a party that has come to its end, while the other goes on, unless
there is no turn left. -/
theorem runWithin_of_receiverEnded {limit budget : Nat} {x : Execution ι κ}
    (hreceiver : x.receiverEnded ε = true) (hsender : x.senderEnded ε = false)
    (hmessage : isEmptyMessage x.message = false) :
    (runWithin ε limit budget x).1 = .error (.error
      (if 0 < budget then .unexpectedMessage "terminated" else .roundLimitExceeded limit)) := by
  have hrunning : x.finished ε = false := by rw [finished_eq, hsender, Bool.and_false]
  cases budget with
  | zero => rw [runWithin_zero hrunning, if_neg (Nat.lt_irrefl 0)]
  | succ budget =>
    rw [runWithin_of_error hrunning (advance_of_receiverEnded hreceiver hmessage),
      if_pos (Nat.succ_pos budget)]

/-- What becomes of a message with something in it at some point of an execution.  In a run
that succeeds it is handed to the other party unless both have come to their end.  If it
is for a party that has come to its end, the run fails for it, or has no turn left, unless
its sender has come to its end too: that is in the turn that gave it, and the run succeeds. -/
theorem arrives_iff (first : ι) (second : κ) (limits : Limits) (x : Execution ι κ)
    (hreaches : Reaches ε (.new first second) x) (hsteps : x.steps ≤ limits.maxMessages)
    (hmessage : isEmptyMessage x.message = false) :
    ((∃ steps, (run ε first second limits).1 = .ok steps) →
      (Handed ε x ↔ x.finished ε = false)) ∧
    (x.receiverEnded ε = true → x.senderEnded ε = false →
      (run ε first second limits).1 = .error (.error
        (if x.steps < limits.maxMessages then .unexpectedMessage "terminated"
        else .roundLimitExceeded limits.maxMessages))) ∧
    (x.receiverEnded ε = true → x.senderEnded ε = true →
      (run ε first second limits).1 = .ok x.steps ∧ (run ε first second limits).2.2 = x ∧
      ∃ w, Reaches ε (.new first second) w ∧ w.receiverEnded ε = false ∧
        (w.advance ε).1 = .ok () ∧ (w.advance ε).2.2 = x) := by
  obtain ⟨rest, hrest, hresult, hfinal⟩ := exists_runWithin_eq limits.maxMessages
    limits.maxMessages hreaches (Nat.le_add_left_of_le hsteps)
  rw [show (Execution.new first second).steps = 0 from rfl, Nat.zero_add] at hrest
  rw [run, hresult, hfinal]
  refine ⟨?handed, ?refused, ?lost⟩
  case handed =>
    rintro ⟨steps, hok⟩
    constructor
    · intro hhanded
      rw [finished_eq, hhanded.receiverEnded_eq, Bool.false_and]
    · exact fun hrunning => handed_of_runWithin_eq_ok hok hrunning hmessage
  case refused =>
    intro hreceiver hsender
    have hleft : 0 < rest ↔ x.steps < limits.maxMessages := by omega
    rw [runWithin_of_receiverEnded hreceiver hsender hmessage]
    simp only [hleft]
  case lost =>
    intro hreceiver hsender
    have hfinished : x.finished ε = true := by rw [finished_eq, hreceiver, hsender]; rfl
    rw [runWithin_of_finished hfinished]
    refine ⟨rfl, rfl, ?_⟩
    obtain rfl | ⟨w, hw, hrunning, hturn, rfl⟩ := hreaches.eq_or_exists
    · cases hmessage
    · refine ⟨w, hw, ?_, hturn, rfl⟩
      rw [finished_eq, ← (advance_eq_ok hturn).1, hreceiver, Bool.and_true] at hrunning
      exact hrunning

/-- A script that does nothing but terminate in its first round. -/
def leaving : Script Ristretto where
  name := "first"
  rounds := [(0, [Party.stopping])]
  otherwise := []

/-- A script that sends a value and terminates in the same round. -/
def parting : Script Ristretto where
  name := "second"
  rounds := [(1, [sending "x" [1], Party.stopping])]
  otherwise := []

/-- The hypotheses are satisfiable: both parties have come to their end, with a value under
way. -/
theorem arrives_iff_parting :
    let start : Execution (Party (Role Ristretto) (Script Ristretto))
        (Party (Role Ristretto) (Script Ristretto)) :=
      .new (.ofLogic leaving true) (.ofLogic parting false)
    ∃ x, Reaches (ScriptEvent Ristretto) start x ∧ x.steps ≤ Limits.standard.maxMessages ∧
      isEmptyMessage x.message = false ∧
      (run (ScriptEvent Ristretto) start.first start.second .standard).1 = .ok x.steps ∧
      ¬ Handed (ScriptEvent Ristretto) x := by
  intro start
  have hreaches : Reaches (ScriptEvent Ristretto) start _ :=
    .turn (by decide +kernel) (by decide +kernel)
      (.turn (by decide +kernel) (by decide +kernel) (.refl _))
  obtain ⟨hhanded, -, hlost⟩ := arrives_iff start.first start.second .standard _ hreaches
    (by decide +kernel) (by decide +kernel)
  obtain ⟨hrun, -, -⟩ := hlost (by decide +kernel) (by decide +kernel)
  refine ⟨_, hreaches, by decide +kernel, by decide +kernel, hrun, fun h => ?_⟩
  exact Bool.false_ne_true (((hhanded ⟨_, hrun⟩).1 h).symm.trans (by decide +kernel))

/-- An execution that succeeds loses a value: it is under way to a party that came to its
end before, and is never handed to it. -/
theorem parting_lost :
    let first : Party (Role Ristretto) (Script Ristretto) := .ofLogic leaving true
    let second : Party (Role Ristretto) (Script Ristretto) := .ofLogic parting false
    let ended := run (ScriptEvent Ristretto) first second .standard
    ended.1 = .ok 2 ∧ Reaches (ScriptEvent Ristretto) (.new first second) ended.2.2 ∧
      (∃ message, ended.2.2.message = some message ∧ ¬ message.ContentFree) ∧
      ended.2.2.receiverEnded (ScriptEvent Ristretto) = true ∧
      ¬ Handed (ScriptEvent Ristretto) ended.2.2 := by
  intro first second ended
  have hended : ended.2.2.receiverEnded (ScriptEvent Ristretto) = true := by decide +kernel
  have hreaches : Reaches (ScriptEvent Ristretto) (.new first second) ended.2.2 :=
    .turn (by decide +kernel) (by decide +kernel)
      (.turn (by decide +kernel) (by decide +kernel) (.refl _))
  refine ⟨by decide +kernel, hreaches, ?_, hended, ?_⟩
  · refine ⟨.map [(Host.mailboxKey, .map [("x", .bytes [1])])], by decide +kernel, fun h => ?_⟩
    cases h with
    | map h =>
      cases h _ List.mem_cons_self with
      | map h => cases h _ List.mem_cons_self
  · intro h
    exact Bool.false_ne_true (h.receiverEnded_eq.symm.trans hended)

end Execution
end ThreeMove

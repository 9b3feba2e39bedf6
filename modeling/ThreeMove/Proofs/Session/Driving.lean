/-
# How a local execution drives two parties

An execution calls the party whose turn it is, unless that party has come to its end, and then
the other.  `Execution.turnsWithin` lists the turns it takes, and `Execution.Watched` makes a note
of every call of a party, so that what the execution does to its parties can be seen: the calls
are the turns of parties that had not come to their end (`Execution.runWithin_watch`).  Turn number
`k` is taken at the point after `k` turns (`Execution.getElem?_turnsWithin`), and is handed what the
one before gave (`Execution.follows_turnsWithin`).

An execution has one of three ends (`Execution.Ends`).  Which one is told by the first point at
which both parties have come to their end, or a turn fails, or none is left
(`Execution.runWithin_eq_iff`).
-/

import ThreeMove.Proofs.Session.Arrival
import Mathlib.Data.List.Chain

namespace ThreeMove
namespace Execution

/-- One turn: whose it is, whether that party has still to come to its end, what it is handed and
what it gives. -/
structure Turn where
  byFirst : Bool
  live : Bool
  incoming : Option Payload
  outcome : Except Failure (Option Payload)

/-- The next turn is the other party's, and is handed what the last one gave. -/
def Turn.Follows (t t' : Turn) : Prop := t'.byFirst = !t.byFirst ∧ t.outcome = .ok t'.incoming

variable {ι κ ε : Type} [Interactive ι ε] [Interactive κ ε]

/-! ### Turns -/

/-- The turn that is to be taken. -/
def turnOf (ε : Type) [Interactive ι ε] [Interactive κ ε] (x : Execution ι κ) : Turn :=
  ⟨x.firstMoves, !x.receiverEnded ε, x.message, x.outcome ε⟩

/-- The turns of an execution that may take so many. -/
def turnsWithin (ε : Type) [Interactive ι ε] [Interactive κ ε] : Nat → Execution ι κ → List Turn
  | 0, _ => []
  | budget + 1, x =>
    if x.finished ε then []
    else x.turnOf ε :: match (x.advance ε).1 with
      | .error _ => []
      | .ok () => turnsWithin ε budget (x.advance ε).2.2

section

variable {x : Execution ι κ}

/-- No turn is taken where both parties have come to their end. -/
theorem turnsWithin_of_finished (h : x.finished ε = true) (budget : Nat) :
    turnsWithin ε budget x = [] := by
  cases budget with
  | zero => rfl
  | succ budget => rw [turnsWithin, if_pos h]

/-- A turn that fails is the last. -/
theorem turnsWithin_of_error (h : x.finished ε = false) {cause : Failure}
    (hturn : (x.advance ε).1 = .error cause) (budget : Nat) :
    turnsWithin ε (budget + 1) x = [x.turnOf ε] := by
  rw [turnsWithin, h, if_neg Bool.false_ne_true, hturn]

/-- After a turn that does not fail come the turns from there. -/
theorem turnsWithin_of_ok (h : x.finished ε = false) (hturn : (x.advance ε).1 = .ok ())
    (budget : Nat) : turnsWithin ε (budget + 1) x =
      x.turnOf ε :: turnsWithin ε budget (x.advance ε).2.2 := by
  rw [turnsWithin, h, if_neg Bool.false_ne_true, hturn]

end

/-- No more turns are taken than may be. -/
theorem length_turnsWithin (budget : Nat) (x : Execution ι κ) :
    (turnsWithin ε budget x).length ≤ budget := by
  induction budget generalizing x with
  | zero => exact Nat.le_refl 0
  | succ budget ih =>
    rw [turnsWithin]
    split
    · exact Nat.zero_le _
    · rw [List.length_cons]
      split
      · exact Nat.succ_le_succ (Nat.zero_le _)
      · exact Nat.succ_le_succ (ih _)

/-- The first turn is the next that is to be taken. -/
theorem head?_turnsWithin (budget : Nat) (x : Execution ι κ) :
    ∀ t ∈ (turnsWithin ε budget x).head?, t = x.turnOf ε := by
  intro t ht
  cases budget with
  | zero => exact nomatch ht
  | succ budget =>
    rw [turnsWithin] at ht
    split at ht
    · exact nomatch ht
    · exact (Option.some.inj ht).symm

/-- Turn follows turn. -/
theorem follows_turnsWithin (budget : Nat) (x : Execution ι κ) :
    (turnsWithin ε budget x).IsChain Turn.Follows := by
  induction budget generalizing x with
  | zero => exact .nil
  | succ budget ih =>
    cases hfinished : x.finished ε with
    | true =>
      rw [turnsWithin_of_finished hfinished]
      exact .nil
    | false =>
      obtain ⟨cause, -, hturn, -⟩ | ⟨hturn, houtcome, hmoves⟩ := advance_cases (ε := ε) x
      · rw [turnsWithin_of_error hfinished hturn]
        exact .singleton _
      · rw [turnsWithin_of_ok hfinished hturn]
        refine List.isChain_cons.2 ⟨fun t ht => ?_, ih _⟩
        rw [head?_turnsWithin budget _ t ht]
        exact ⟨hmoves, houtcome⟩

/-! ### Points and turns -/

/-- Nothing follows where both parties have come to their end. -/
theorem Reaches.eq_of_finished {x y : Execution ι κ} (h : Reaches ε x y)
    (hfinished : x.finished ε = true) : y = x := by
  cases h with
  | refl => rfl
  | turn hrunning => exact nomatch hrunning.symm.trans hfinished

/-- What follows comes after more turns. -/
theorem Reaches.eq_of_steps_le {x y : Execution ι κ} (h : Reaches ε x y)
    (hsteps : y.steps ≤ x.steps) : y = x := by
  cases h with
  | refl => rfl
  | turn hrunning hturn hrest =>
    have hle := hrest.steps_le
    rw [(advance_eq_ok hturn).2] at hle
    omega

/-- An execution takes one course: a point that comes after more turns comes later. -/
theorem Reaches.of_steps_le {x y z : Execution ι κ} (h : Reaches ε x y) (h' : Reaches ε x z)
    (hsteps : y.steps ≤ z.steps) : Reaches ε y z := by
  induction h with
  | refl x => exact h'
  | turn hrunning hturn hrest ih =>
    cases h' with
    | refl =>
      have hle := hrest.steps_le
      rw [(advance_eq_ok hturn).2] at hle
      omega
    | turn _ _ hrest' => exact ih hrest' hsteps

/-- The point where both parties have come to their end comes last. -/
theorem Reaches.before_finished {x y z : Execution ι κ} (h : Reaches ε x y) (h' : Reaches ε x z)
    (hfinished : y.finished ε = true) : Reaches ε z y := by
  obtain hle | hle := Nat.le_total z.steps y.steps
  · exact h'.of_steps_le h hle
  · rw [(h.of_steps_le h' hle).eq_of_finished hfinished]
    exact .refl y

/-- A turn from which the execution goes on does not fail. -/
theorem Reaches.outcome_eq_ok {x y : Execution ι κ} (h : Reaches ε x y)
    (hsteps : x.steps < y.steps) : ∃ message, x.outcome ε = .ok message := by
  cases h with
  | refl => exact absurd hsteps (Nat.lt_irrefl _)
  | turn hrunning hturn hrest =>
    obtain ⟨cause, -, hcause, -⟩ | ⟨-, houtcome, -⟩ := advance_cases (ε := ε) x
    · exact nomatch hcause.symm.trans hturn
    · exact ⟨_, houtcome⟩

/-- Turn number `k` is the one that is to be taken after `k` turns. -/
theorem getElem?_turnsWithin {budget k : Nat} {x : Execution ι κ} {t : Turn} :
    (turnsWithin ε budget x)[k]? = some t ↔ k < budget ∧
      ∃ y, Reaches ε x y ∧ y.steps = x.steps + k ∧ y.finished ε = false ∧ y.turnOf ε = t := by
  induction budget generalizing k x with
  | zero => exact ⟨nofun, fun ⟨hk, _⟩ => absurd hk (Nat.not_lt_zero k)⟩
  | succ budget ih =>
    cases hfinished : x.finished ε with
    | true =>
      rw [turnsWithin_of_finished hfinished]
      refine ⟨nofun, fun ⟨_, y, hreaches, _, hrunning, _⟩ => ?_⟩
      rw [hreaches.eq_of_finished hfinished] at hrunning
      exact nomatch hrunning.symm.trans hfinished
    | false =>
      cases k with
      | zero =>
        rw [turnsWithin, hfinished, if_neg Bool.false_ne_true, List.getElem?_cons_zero,
          Option.some_inj]
        constructor
        · exact fun h => ⟨Nat.succ_pos _, x, .refl x, rfl, hfinished, h⟩
        · rintro ⟨-, y, hreaches, hsteps, -, rfl⟩
          rw [hreaches.eq_of_steps_le hsteps.le]
      | succ k =>
        cases hturn : (x.advance ε).1 with
        | error cause =>
          rw [turnsWithin_of_error hfinished hturn, List.getElem?_cons_succ]
          refine ⟨nofun, fun ⟨_, y, hreaches, hsteps, _⟩ => ?_⟩
          cases hreaches with
          | refl => omega
          | turn _ hturn' _ => exact nomatch hturn.symm.trans hturn'
        | ok done =>
          rw [turnsWithin_of_ok hfinished hturn, List.getElem?_cons_succ, ih,
            (advance_eq_ok hturn).2, Nat.succ_lt_succ_iff]
          refine and_congr_right fun _ => exists_congr fun y => ?_
          rw [Nat.add_assoc, Nat.add_comm 1 k]
          refine and_congr_left fun ⟨hsteps, _⟩ => ⟨.turn hfinished hturn, fun hreaches => ?_⟩
          cases hreaches with
          | refl => omega
          | turn _ _ hrest => exact hrest

/-! ### Watching the calls -/

/-- A party of which every call is noted. -/
structure Watched (ε : Type) (byFirst : Bool) (ι : Type) where
  party : ι

instance {byFirst : Bool} : Interactive (Watched ε byFirst ι) Turn where
  step watched incoming :=
    let taken : Step ι ε := Interactive.step watched.party incoming
    ⟨taken.reply, [⟨byFirst, !Interactive.terminated ε watched.party, incoming, taken.reply⟩],
      ⟨taken.next⟩⟩
  terminated watched := Interactive.terminated ε watched.party
  verdict watched := Interactive.verdict ε watched.party

/-- The execution with both parties watched. -/
def watch (ε : Type) (x : Execution ι κ) : Execution (Watched ε true ι) (Watched ε false κ) :=
  ⟨⟨x.first⟩, ⟨x.second⟩, x.firstMoves, x.message, x.steps⟩

omit [Interactive κ ε] in
/-- The turn of a party that is watched: a call is noted, passing is not. -/
theorem turn_watched (byFirst : Bool) (party : ι) (message : Option Payload) :
    (turn Turn (⟨party⟩ : Watched ε byFirst ι) message : Step (Watched ε byFirst ι) Turn) =
      ⟨(turn ε party message : Step ι ε).reply,
        List.filter (·.live) [⟨byFirst, !Interactive.terminated ε party, message,
          (turn ε party message : Step ι ε).reply⟩],
        ⟨(turn ε party message : Step ι ε).next⟩⟩ := by
  have hterminated : Interactive.terminated Turn (⟨party⟩ : Watched ε byFirst ι) =
      Interactive.terminated ε party := rfl
  rw [turn, turn, hterminated]
  cases hover : Interactive.terminated ε party with
  | true =>
    simp only [if_true]
    split <;> rfl
  | false =>
    have hstep : (Interactive.step (⟨party⟩ : Watched ε byFirst ι) message :
        Step (Watched ε byFirst ι) Turn) = ⟨(Interactive.step party message : Step ι ε).reply,
          [⟨byFirst, !Interactive.terminated ε party, message,
            (Interactive.step party message : Step ι ε).reply⟩],
          ⟨(Interactive.step party message : Step ι ε).next⟩⟩ := rfl
    simp only [Bool.false_eq_true, if_false, hstep, hover]
    rfl

/-- Watching changes nothing about a turn, and what is noted is the turn, if it is a call. -/
theorem advance_watch (x : Execution ι κ) :
    (x.watch ε).advance Turn =
      ((x.advance ε).1, [x.turnOf ε].filter (·.live), (x.advance ε).2.2.watch ε) := by
  have hsettle : ∀ (reply : Except Failure (Option Payload)) (notes : List Turn) (others : List ε)
      (y : Execution ι κ), advance.settle Turn reply notes (y.watch ε) =
        ((advance.settle ε reply others y).1, notes,
          (advance.settle ε reply others y).2.2.watch ε) := by
    intro reply notes others y
    cases reply <;> rfl
  obtain ⟨first, second, firstMoves, message, steps⟩ := x
  cases firstMoves with
  | true =>
    simp only [advance, watch, if_true, turn_watched, turnOf, receiverEnded, outcome]
    exact hsettle _ _ _ ⟨_, second, true, message, steps⟩
  | false =>
    simp only [advance, watch, Bool.false_eq_true, if_false, turn_watched, turnOf, receiverEnded,
      outcome]
    exact hsettle _ _ _ ⟨first, _, false, message, steps⟩

/-- **What an execution does to its parties.**  It calls them in the turns of those that have not
come to their end, and in no other. -/
theorem runWithin_watch (limit budget : Nat) (x : Execution ι κ) :
    runWithin Turn limit budget (x.watch ε) =
      ((runWithin ε limit budget x).1, (turnsWithin ε budget x).filter (·.live),
        (runWithin ε limit budget x).2.2.watch ε) := by
  have hwatched : ∀ y : Execution ι κ, (y.watch ε).finished Turn = y.finished ε := fun _ => rfl
  induction budget generalizing x with
  | zero =>
    simp only [runWithin, hwatched]
    split <;> rfl
  | succ budget ih =>
    have hadvance := advance_watch (ε := ε) x
    cases hfinished : x.finished ε with
    | true =>
      rw [runWithin_of_finished hfinished, turnsWithin_of_finished hfinished,
        runWithin_of_finished ((hwatched x).trans hfinished)]
      rfl
    | false =>
      have hrunning := (hwatched x).trans hfinished
      cases hturn : (x.advance ε).1 with
      | error cause =>
        rw [runWithin_of_error hfinished hturn, turnsWithin_of_error hfinished hturn,
          runWithin_of_error hrunning ((congrArg Prod.fst hadvance).trans hturn), hadvance]
      | ok done =>
        rw [runWithin_of_ok hfinished hturn, turnsWithin_of_ok hfinished hturn,
          runWithin_of_ok hrunning ((congrArg Prod.fst hadvance).trans hturn), hadvance, ih,
          ← List.filter_append]
        rfl

/-! ### How an execution ends -/

/-- What an execution comes to at the point `y`, if it may take `most` turns in all: both parties
have come to their end, or there is no turn left, or the next turn fails. -/
inductive Ends (ε : Type) [Interactive ι ε] [Interactive κ ε] (limit most : Nat)
    (y : Execution ι κ) : Except Failure Nat → Prop where
  | finished (hfinished : y.finished ε = true) (hsteps : y.steps ≤ most) :
      Ends ε limit most y (.ok y.steps)
  | limit (hrunning : y.finished ε = false) (hsteps : y.steps = most) :
      Ends ε limit most y (.error (.error (.roundLimitExceeded limit)))
  | fails {cause : Failure} (hrunning : y.finished ε = false) (hsteps : y.steps < most)
      (houtcome : y.outcome ε = .error cause) : Ends ε limit most y (.error cause)

/-- An execution ends after no more turns than it may take. -/
theorem Ends.steps_le {limit most : Nat} {y : Execution ι κ} {result : Except Failure Nat}
    (h : Ends ε limit most y result) : y.steps ≤ most := by
  cases h with
  | finished _ hsteps => exact hsteps
  | limit _ hsteps => exact hsteps.le
  | fails _ hsteps _ => exact hsteps.le

/-- The run stops at a point where the execution ends. -/
theorem Ends.runWithin_eq {limit rest : Nat} {y : Execution ι κ} {result : Except Failure Nat}
    (h : Ends ε limit (y.steps + rest) y result) :
    (runWithin ε limit rest y).1 = result ∧ (runWithin ε limit rest y).2.2.steps = y.steps := by
  cases h with
  | finished hfinished _ =>
    rw [runWithin_of_finished hfinished]
    exact ⟨rfl, rfl⟩
  | limit hrunning hsteps =>
    obtain rfl : rest = 0 := by omega
    rw [runWithin_zero hrunning]
    exact ⟨rfl, rfl⟩
  | fails hrunning hsteps houtcome =>
    cases rest with
    | zero => omega
    | succ rest =>
      obtain ⟨cause', hcause, hturn, hsteps⟩ | ⟨-, hok, -⟩ := advance_cases (ε := ε) y
      · obtain rfl : cause' = _ := Except.error.inj (hcause.symm.trans houtcome)
        rw [runWithin_of_error hrunning hturn]
        exact ⟨rfl, hsteps⟩
      · cases houtcome.symm.trans hok

/-- Every run comes to a point where the execution ends. -/
theorem exists_ends (limit budget : Nat) (x : Execution ι κ) :
    ∃ y result, Reaches ε x y ∧ Ends ε limit (x.steps + budget) y result := by
  induction budget generalizing x with
  | zero =>
    cases hfinished : x.finished ε with
    | true => exact ⟨x, _, .refl x, .finished hfinished (Nat.le_add_right _ _)⟩
    | false => exact ⟨x, _, .refl x, .limit hfinished rfl⟩
  | succ budget ih =>
    cases hfinished : x.finished ε with
    | true => exact ⟨x, _, .refl x, .finished hfinished (Nat.le_add_right _ _)⟩
    | false =>
      obtain ⟨cause, houtcome, -⟩ | ⟨hturn, -⟩ := advance_cases (ε := ε) x
      · exact ⟨x, _, .refl x, .fails hfinished (by omega) houtcome⟩
      · obtain ⟨y, result, hreaches, hends⟩ := ih (x.advance ε).2.2
        rw [(advance_eq_ok hturn).2, Nat.add_assoc, Nat.add_comm 1 budget] at hends
        exact ⟨y, result, .turn hfinished hturn hreaches, hends⟩

/-- A run has the result of the point where the execution ends, and of no other. -/
theorem runWithin_eq_iff {limit budget : Nat} {x : Execution ι κ} {result : Except Failure Nat} :
    (runWithin ε limit budget x).1 = result ↔
      ∃ y, Reaches ε x y ∧ Ends ε limit (x.steps + budget) y result := by
  have hends : ∀ {y : Execution ι κ} {result}, Reaches ε x y →
      Ends ε limit (x.steps + budget) y result → (runWithin ε limit budget x).1 = result := by
    intro y result hreaches h
    obtain ⟨rest, hrest, hresult, -⟩ := exists_runWithin_eq limit budget hreaches h.steps_le
    rw [← hrest, Nat.add_comm] at h
    exact hresult.trans h.runWithin_eq.1
  constructor
  · rintro rfl
    obtain ⟨y, result, hreaches, h⟩ := exists_ends (ε := ε) limit budget x
    exact ⟨y, hreaches, hends hreaches h ▸ h⟩
  · rintro ⟨y, hreaches, h⟩
    exact hends hreaches h

/-- A run that succeeds gives the number of its turns. -/
theorem eq_length_turnsWithin {limit budget n : Nat} {x : Execution ι κ}
    (h : (runWithin ε limit budget x).1 = .ok n) :
    n = x.steps + (turnsWithin ε budget x).length := by
  induction budget generalizing x with
  | zero =>
    cases hfinished : x.finished ε with
    | true =>
      rw [runWithin_of_finished hfinished] at h
      exact (Except.ok.inj h).symm
    | false =>
      rw [runWithin_zero hfinished] at h
      cases h
  | succ budget ih =>
    cases hfinished : x.finished ε with
    | true =>
      rw [runWithin_of_finished hfinished] at h
      rw [turnsWithin_of_finished hfinished]
      exact (Except.ok.inj h).symm
    | false =>
      cases hturn : (x.advance ε).1 with
      | error cause =>
        rw [runWithin_of_error hfinished hturn] at h
        cases h
      | ok done =>
        rw [runWithin_of_ok hfinished hturn] at h
        rw [ih h, (advance_eq_ok hturn).2, turnsWithin_of_ok hfinished hturn, List.length_cons,
          Nat.add_assoc, Nat.add_comm 1]

end Execution
end ThreeMove

/-
# The turns of a local execution

An execution passes from one turn to the next (`Execution.Reaches`): the party whose turn
it is gives something, which the other is handed next, or fails the turn
(`Execution.advance_cases`).  It ends in an error only where it has taken all the turns it
may, or where the party whose turn it is fails (`Execution.exists_of_runWithin_eq_error`):
that party has come to its end and is handed something, or it takes the message and gives
the error itself (`Execution.turn_eq_error`).
-/

import ThreeMove.Session.Execution

namespace ThreeMove
namespace Execution

variable {ι κ ε : Type} [Interactive ι ε]

/-- Whose turn it is has come to its end and is handed a message, or has failed. -/
theorem turn_eq_error {party : ι} {message : Option Payload} {cause : Failure}
    (h : (turn ε party message : Step ι ε).reply = .error cause) :
    (Interactive.terminated ε party = true ∧ isEmptyMessage message = false ∧
      cause = .error (.unexpectedMessage "terminated")) ∨
    Interactive.terminated ε party = false ∧
      (Interactive.step party message : Step ι ε).reply = .error cause := by
  rw [turn] at h
  split at h
  · rename_i hterminated
    split at h
    · exact nomatch h
    · rename_i hmessage
      exact .inl ⟨hterminated, Bool.eq_false_iff.2 hmessage, (Except.error.inj h).symm⟩
  · rename_i hterminated
    exact .inr ⟨Bool.eq_false_iff.2 hterminated, h⟩

variable [Interactive κ ε]

/-- The execution comes to `y` by turns that do not fail. -/
inductive Reaches (ε : Type) [Interactive ι ε] [Interactive κ ε] :
    (x y : Execution ι κ) → Prop where
  | refl (x : Execution ι κ) : Reaches ε x x
  | turn {x y : Execution ι κ} (hrunning : x.finished ε = false)
      (hturn : (x.advance ε).1 = .ok ()) (h : Reaches ε (x.advance ε).2.2 y) : Reaches ε x y

/-- What the party whose turn it is gives. -/
def outcome (ε : Type) [Interactive ι ε] [Interactive κ ε] (x : Execution ι κ) :
    Except Failure (Option Payload) :=
  if x.firstMoves then (turn ε x.first x.message : Step ι ε).reply
  else (turn ε x.second x.message : Step κ ε).reply

/-- A turn fails as its party does; otherwise it is the other party's turn, with what was given. -/
theorem advance_cases (x : Execution ι κ) :
    (∃ cause, x.outcome ε = .error cause ∧ (x.advance ε).1 = .error cause ∧
      (x.advance ε).2.2.steps = x.steps) ∨
    (x.advance ε).1 = .ok () ∧ x.outcome ε = .ok (x.advance ε).2.2.message ∧
      (x.advance ε).2.2.firstMoves = !x.firstMoves := by
  have hsettle : ∀ (reply : Except Failure (Option Payload)) (notes : List ε) (y : Execution ι κ),
      (∃ cause, reply = .error cause ∧ (advance.settle ε reply notes y).1 = .error cause ∧
        (advance.settle ε reply notes y).2.2.steps = y.steps) ∨
      (advance.settle ε reply notes y).1 = .ok () ∧
        reply = .ok (advance.settle ε reply notes y).2.2.message ∧
        (advance.settle ε reply notes y).2.2.firstMoves = !y.firstMoves := by
    intro reply notes y
    cases reply with
    | error cause => exact .inl ⟨cause, rfl, rfl, rfl⟩
    | ok message => exact .inr ⟨rfl, rfl, rfl⟩
  rw [outcome, advance]
  split
  · exact hsettle _ _ _
  · exact hsettle _ _ _

/-- A turn fails as the party does whose turn it is. -/
theorem advance_eq_error {x : Execution ι κ} {cause : Failure}
    (h : (x.advance ε).1 = .error cause) :
    (x.firstMoves = true ∧ (turn ε x.first x.message : Step ι ε).reply = .error cause) ∨
      x.firstMoves = false ∧ (turn ε x.second x.message : Step κ ε).reply = .error cause := by
  obtain ⟨cause', houtcome, hcause, -⟩ | ⟨hok, -⟩ := advance_cases (ε := ε) x
  · obtain rfl : cause' = cause := Except.error.inj (hcause.symm.trans h)
    rw [outcome] at houtcome
    split at houtcome
    · rename_i hfirst
      exact .inl ⟨hfirst, houtcome⟩
    · rename_i hfirst
      exact .inr ⟨Bool.eq_false_iff.2 hfirst, houtcome⟩
  · exact nomatch hok.symm.trans h

/-! ### What a run does next -/

section

variable {x : Execution ι κ}

/-- A run is over where both parties have come to their end. -/
theorem runWithin_of_finished (h : x.finished ε = true) (limit budget : Nat) :
    runWithin ε limit budget x = (.ok x.steps, [], x) := by
  cases budget <;> rw [runWithin, if_pos h]

/-- A run that would go on says so where there is no turn left. -/
theorem runWithin_zero (h : x.finished ε = false) (limit : Nat) :
    runWithin ε limit 0 x = (.error (.error (.roundLimitExceeded limit)), [], x) := by
  rw [runWithin, h, if_neg Bool.false_ne_true]

/-- A run that goes on fails as its next turn does. -/
theorem runWithin_of_error (h : x.finished ε = false) {cause : Failure}
    (hturn : (x.advance ε).1 = .error cause) (limit budget : Nat) :
    runWithin ε limit (budget + 1) x = (.error cause, (x.advance ε).2) := by
  rw [runWithin, h, if_neg Bool.false_ne_true]
  generalize x.advance ε = taken at hturn ⊢
  obtain ⟨result, notes, y⟩ := taken
  obtain rfl : result = .error cause := hturn
  rfl

/-- After a turn that does not fail, a run is the run from there, with a turn less. -/
theorem runWithin_of_ok (h : x.finished ε = false) (hturn : (x.advance ε).1 = .ok ())
    (limit budget : Nat) : runWithin ε limit (budget + 1) x =
      ((runWithin ε limit budget (x.advance ε).2.2).1,
        (x.advance ε).2.1 ++ (runWithin ε limit budget (x.advance ε).2.2).2.1,
        (runWithin ε limit budget (x.advance ε).2.2).2.2) := by
  rw [runWithin, h, if_neg Bool.false_ne_true]
  generalize x.advance ε = taken at hturn ⊢
  obtain ⟨result, notes, y⟩ := taken
  obtain rfl : result = .ok () := hturn
  rfl

/-- An execution that fails has taken all its turns, or comes to a turn that fails. -/
theorem exists_of_runWithin_eq_error {limit budget : Nat} {cause : Failure}
    (h : (runWithin ε limit budget x).1 = .error cause) :
    cause = .error (.roundLimitExceeded limit) ∨
      ∃ y, Reaches ε x y ∧ y.finished ε = false ∧ (y.advance ε).1 = .error cause := by
  induction budget generalizing x with
  | zero =>
    cases hfinished : x.finished ε with
    | true =>
      rw [runWithin_of_finished hfinished] at h
      cases h
    | false =>
      rw [runWithin_zero hfinished] at h
      exact .inl (Except.error.inj h).symm
  | succ budget ih =>
    cases hfinished : x.finished ε with
    | true =>
      rw [runWithin_of_finished hfinished] at h
      cases h
    | false =>
      cases hturn : (x.advance ε).1 with
      | error cause' =>
        rw [runWithin_of_error hfinished hturn] at h
        obtain rfl := Except.error.inj h
        exact .inr ⟨x, .refl x, hfinished, hturn⟩
      | ok done =>
        rw [runWithin_of_ok hfinished hturn] at h
        exact (ih h).imp_right fun ⟨y, hreaches, hy⟩ => ⟨y, .turn hfinished hturn hreaches, hy⟩

end

end Execution
end ThreeMove

/-
# Running two parties against each other

The parties move in turn, each on the message the other has just given, until
both have come to their end.  A party that already has takes its turn by passing,
and may only be handed an empty message.
-/

import ThreeMove.Session.Interactive
import ThreeMove.Session.Limits

namespace ThreeMove

/-- Two parties in the middle of an execution. -/
structure Execution (ι κ : Type) where
  first : ι
  second : κ
  /-- Whether it is the first party's turn. -/
  firstMoves : Bool
  /-- The message under way to the party whose turn it is. -/
  message : Option Payload
  /-- The number of turns taken. -/
  steps : Nat

namespace Execution

variable {ι κ ε : Type} [Interactive ι ε] [Interactive κ ε]

/-- Two parties before the first turn, which is the first party's. -/
def new (first : ι) (second : κ) : Execution ι κ := ⟨first, second, true, none, 0⟩

/-- Whether there is nothing in a message, or no message. Source: `is_empty_message`. -/
def isEmptyMessage (message : Option Payload) : Bool := message.all Payload.isEmptyMap

/-- What a party makes of its turn: a party that has come to its end passes. -/
def turn (ε : Type) [Interactive ι ε] (party : ι) (message : Option Payload) : Step ι ε :=
  if Interactive.terminated ε party then
    if isEmptyMessage message then .silent (.ok none) party
    else .refuse (.unexpectedMessage "terminated") party
  else Interactive.step party message

/-- Whether both parties have come to their end. -/
def finished (ε : Type) [Interactive ι ε] [Interactive κ ε] (x : Execution ι κ) : Bool :=
  Interactive.terminated ε x.first && Interactive.terminated ε x.second

/-- One turn: a failure or nothing, the notes left, and what follows. -/
def advance (ε : Type) [Interactive ι ε] [Interactive κ ε] (x : Execution ι κ) :
    Except Failure Unit × List ε × Execution ι κ :=
  if x.firstMoves then
    let taken : Step ι ε := turn ε x.first x.message
    settle taken.reply taken.notes { x with first := taken.next }
  else
    let taken : Step κ ε := turn ε x.second x.message
    settle taken.reply taken.notes { x with second := taken.next }
where
  /-- Passes the turn on with the message given, unless there was a failure. -/
  settle (reply : Except Failure (Option Payload)) (notes : List ε) (x : Execution ι κ) :
      Except Failure Unit × List ε × Execution ι κ :=
    match reply with
    | .error cause => (.error cause, notes, x)
    | .ok message =>
      (.ok (), notes,
        { x with firstMoves := !x.firstMoves, message := message, steps := x.steps + 1 })

/-- Takes turns until both parties have come to their end, at most `budget` of
them; `limit` is the number that the error names. -/
def runWithin (ε : Type) [Interactive ι ε] [Interactive κ ε] (limit : Nat) :
    (budget : Nat) → Execution ι κ → Except Failure Nat × List ε × Execution ι κ
  | 0, x =>
    if x.finished ε then (.ok x.steps, [], x)
    else (.error (.error (.roundLimitExceeded limit)), [], x)
  | budget + 1, x =>
    if x.finished ε then (.ok x.steps, [], x)
    else
      match x.advance ε with
      | (.error cause, notes, x) => (.error cause, notes, x)
      | (.ok (), notes, x) =>
        let (result, others, x) := runWithin ε limit budget x
        (result, notes ++ others, x)

/-- Runs two parties within limits: the number of turns it took, the notes left,
and the parties as they are afterwards. Source: `execute_locally`. -/
def run (ε : Type) [Interactive ι ε] [Interactive κ ε] (first : ι) (second : κ)
    (limits : Limits) : Except Failure Nat × List ε × Execution ι κ :=
  runWithin ε limits.maxMessages limits.maxMessages (new first second)

end Execution
end ThreeMove

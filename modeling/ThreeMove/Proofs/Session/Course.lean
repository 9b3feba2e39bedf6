/-
# A party that takes its inputs one by one

`Course.after` is the party after some inputs, and `Course.collect` gathers, call by call,
what each call is noted for: its reply, the message it sends, or anything else that can be
told from the party and the input.  Both follow a further input (`Course.after_concat`,
`Course.collect_concat`), which is how what every call keeps is found to hold of whole runs.
A party that has `Ended` answers all calls alike.
-/

import ThreeMove.Payload
import Mathlib.Data.List.Induction

namespace ThreeMove
namespace Course

variable {σ ν : Type} (step : σ → Option Payload → Except Failure (Option Payload) × σ)

/-- The party after some inputs. -/
def after (party : σ) (inputs : List (Option Payload)) : σ :=
  inputs.foldl (fun party input => (step party input).2) party

/-- What is noted of the calls with some inputs. -/
def collect (note : σ → Option Payload → List ν) : σ → List (Option Payload) → List ν
  | _, [] => []
  | party, input :: later => note party input ++ collect note (step party input).2 later

/-- The reply to each of some inputs. -/
def replies : σ → List (Option Payload) → List (Except Failure (Option Payload)) :=
  collect step fun party input => [(step party input).1]

/-- The message that a reply holds. -/
def message? : Except Failure (Option Payload) → Option Payload
  | .ok reply => reply
  | .error _ => none

/-- The messages that are sent in reply to some inputs. -/
def sent : σ → List (Option Payload) → List Payload :=
  collect step fun party input => (message? (step party input).1).toList

/-- Whatever the party is handed, it answers that it has terminated and stays as it is. -/
def Ended (party : σ) : Prop :=
  ∀ input, step party input = (.error (.error .protocolTerminated), party)

variable {step} {party : σ} {input : Option Payload}

/-- The last input is taken after the others. -/
theorem after_concat (inputs : List (Option Payload)) :
    after step party (inputs ++ [input]) = (step (after step party inputs) input).2 :=
  List.foldl_append

/-- What is noted of the last input is noted after the others. -/
theorem collect_concat {note : σ → Option Payload → List ν} (inputs : List (Option Payload)) :
    collect step note party (inputs ++ [input]) =
      collect step note party inputs ++ note (after step party inputs) input := by
  induction inputs generalizing party with
  | nil => exact List.append_nil _
  | cons first rest ih =>
    rw [List.cons_append, collect, ih, collect, List.append_assoc]
    rfl

/-- Inputs change nothing about a party that has come to its end. -/
theorem Ended.after_eq (h : Ended step party) (later : List (Option Payload)) :
    after step party later = party := by
  induction later with
  | nil => rfl
  | cons input later ih =>
    rw [after, List.foldl_cons, h input]
    exact ih

/-- A party that has come to its end says so on every input. -/
theorem Ended.replies_eq (h : Ended step party) (later : List (Option Payload)) :
    replies step party later = later.map fun _ => .error (.error .protocolTerminated) := by
  induction later with
  | nil => rfl
  | cons input later ih =>
    rw [replies, collect, h input, ← replies, ih]
    rfl

end Course
end ThreeMove

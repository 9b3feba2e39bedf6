/-
# Parties of an interactive protocol

A party takes the other side's latest message, if there is one, and gives its
next message, if there is one.  Every call gives a party in its next state, also
when it fails.  A party may leave notes for an observer, which have no influence
on the run.
-/

import ThreeMove.Payload

namespace ThreeMove

/-- What one call of a party comes to. -/
structure Step (ι ε : Type) where
  /-- The next message, no message, or the reason there is none. -/
  reply : Except Failure (Option Payload)
  /-- What an observer gets to see. -/
  notes : List ε
  /-- The party afterwards. -/
  next : ι

namespace Step

variable {ι κ ε : Type}

/-- A reply and the party afterwards, as a step without notes. -/
def ofPair (pair : Except Failure (Option Payload) × ι) : Step ι ε := ⟨pair.1, [], pair.2⟩

/-- A step without notes. -/
def silent (reply : Except Failure (Option Payload)) (next : ι) : Step ι ε := ⟨reply, [], next⟩

/-- A step that fails without notes. -/
def refuse (cause : Error) (next : ι) : Step ι ε := silent (.error (.error cause)) next

/-- The same step of a party seen as another. -/
def map (f : ι → κ) (step : Step ι ε) : Step κ ε := ⟨step.reply, step.notes, f step.next⟩

end Step

/-- A party of type `ι` that leaves notes of type `ε`. Source: `ProtocolInstance`. -/
class Interactive (ι ε : Type) where
  /-- Takes a message and gives one. Source: `next_message`. -/
  step : ι → Option Payload → Step ι ε
  /-- Whether the party has come to its end. Source: `has_terminated`. -/
  terminated : ι → Bool
  /-- The verdict of a party that reaches one. Source: `is_accepting`. -/
  verdict : ι → Option Bool

end ThreeMove

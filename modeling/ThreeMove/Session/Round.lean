/-
# What the logic of a party does in a round

In each round the logic of a party exchanges values with the other side through
a mailbox, starts sub-protocols under names, and looks at what has become of
them.  `RoundProgram` is what it asks for, one request after another, each
followed by what it does with the answer; `RoundProgram.run` answers the
requests on a `RoundState`.  Because logic can only ask, the rules of the
mailbox and of names hold whatever the logic is.
-/

import ThreeMove.Session.Interactive

namespace ThreeMove

/-- A sub-protocol hosted by a party.  The verdict of an argument matters: unless
it accepts, the host fails. Source: `SubProtocol`. -/
structure Hosted (P : Type) where
  party : P
  argument : Bool

/-- The requests of a round, ending in an `α`.  Sub-protocols are of type `P`,
notes of type `ε`. Source: `RoundLogic`, `do_round`. -/
inductive RoundProgram (P ε α : Type) where
  | done (value : α)
  | send (id : String) (value : Payload) (next : Except Error Unit → RoundProgram P ε α)
  | receive (id : String) (next : Except Error Payload → RoundProgram P ε α)
  | hasReceived (id : String) (next : Bool → RoundProgram P ε α)
  | start (name : String) (hosted : Hosted P) (next : Except Error Unit → RoundProgram P ε α)
  | isRunning (name : String) (next : Bool → RoundProgram P ε α)
  | hasCompleted (name : String) (next : Bool → RoundProgram P ε α)
  | verdictOf (name : String) (next : Option Bool → RoundProgram P ε α)
  | terminate (next : RoundProgram P ε α)
  | note (event : ε) (next : RoundProgram P ε α)

namespace RoundProgram

variable {P ε α β : Type}

/-- Goes on with the result. -/
def bind : RoundProgram P ε α → (α → RoundProgram P ε β) → RoundProgram P ε β
  | .done value, f => f value
  | .send id value next, f => .send id value fun r => (next r).bind f
  | .receive id next, f => .receive id fun r => (next r).bind f
  | .hasReceived id next, f => .hasReceived id fun r => (next r).bind f
  | .start name hosted next, f => .start name hosted fun r => (next r).bind f
  | .isRunning name next, f => .isRunning name fun r => (next r).bind f
  | .hasCompleted name next, f => .hasCompleted name fun r => (next r).bind f
  | .verdictOf name next, f => .verdictOf name fun r => (next r).bind f
  | .terminate next, f => .terminate (next.bind f)
  | .note event next, f => .note event (next.bind f)

instance : Monad (RoundProgram P ε) where
  pure := .done
  bind := RoundProgram.bind

end RoundProgram

/-- The state that the requests of a round are answered on. Source: `RoundContext`. -/
structure RoundState (P : Type) where
  /-- The names of the sub-protocols that were running when the round began. -/
  running : List String
  /-- The verdicts of the sub-protocols that have completed. -/
  completed : Table (Option Bool)
  /-- Values from the other side that have not been received. -/
  inbox : Table Payload
  /-- Values for the other side. -/
  outbox : Table Payload
  /-- The sub-protocols started in this round, in order. -/
  started : List (String × Hosted P)
  /-- Whether the logic has asked to terminate. -/
  terminating : Bool

namespace RoundState

variable {P : Type} (context : RoundState P)

/-- Names that are empty or begin with two underscores are not for the logic.
Source: `check_identifier`. -/
def checkName (id : String) : Except Error Unit :=
  if id.isEmpty || "__".isPrefixOf id then .error (.reservedIdentifier id) else .ok ()

/-- Queues a value; each name can be used once in a round. Source: `send`. -/
def send (id : String) (value : Payload) : Except Error (RoundState P) := do
  checkName id
  if context.outbox.has id then .error (.mailboxCollision id)
  else return { context with outbox := context.outbox.insert id value }

/-- Takes a value out of the inbox. Source: `receive`. -/
def receive (id : String) : Except Error (Payload × RoundState P) :=
  match context.inbox.find? id with
  | some value => .ok (value, { context with inbox := context.inbox.erase id })
  | none => .error (.mailboxEmpty id)

/-- Whether a sub-protocol of that name is running, or started in this round.
Source: `is_running`. -/
def isRunning (name : String) : Bool :=
  context.running.contains name || context.started.any (·.1 == name)

/-- Starts a sub-protocol under a name never used before. Source: `start`. -/
def start (name : String) (hosted : Hosted P) : Except Error (RoundState P) := do
  checkName name
  if context.isRunning name || context.completed.has name then
    .error (.duplicateSubProtocol name)
  else return { context with started := context.started ++ [(name, hosted)] }

/-- The verdict of a completed sub-protocol that has one. Source: `accepted`. -/
def verdictOf (name : String) : Option Bool := (context.completed.find? name).join

end RoundState

namespace RoundProgram

variable {P ε α : Type}

/-- Answers the requests in order, with the notes left on the way.  A refused
request changes nothing. -/
def run : RoundProgram P ε α → RoundState P → α × List ε × RoundState P
  | .done value, context => (value, [], context)
  | .send id value next, context =>
    match context.send id value with
    | .ok context => (next (.ok ())).run context
    | .error cause => (next (.error cause)).run context
  | .receive id next, context =>
    match context.receive id with
    | .ok (value, context) => (next (.ok value)).run context
    | .error cause => (next (.error cause)).run context
  | .hasReceived id next, context => (next (context.inbox.has id)).run context
  | .start name hosted next, context =>
    match context.start name hosted with
    | .ok context => (next (.ok ())).run context
    | .error cause => (next (.error cause)).run context
  | .isRunning name next, context => (next (context.isRunning name)).run context
  | .hasCompleted name next, context => (next (context.completed.has name)).run context
  | .verdictOf name next, context => (next (context.verdictOf name)).run context
  | .terminate next, context => next.run { context with terminating := true }
  | .note event next, context =>
    let (value, notes, context) := next.run context
    (value, event :: notes, context)

end RoundProgram
end ThreeMove

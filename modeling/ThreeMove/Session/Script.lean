/-
# Scripted logic

Logic for a host that is written down as a list of actions for each round.  Every
action leaves an event that records what it yields or why it was refused.  A
refused action ends the round with its error, unless it is marked as tolerant;
one that aborts ends the round whatever its mark, and leaves no event.  Branches
run or skip a list of commands by the outcome of a test that leaves no event.
-/

import ThreeMove.Session.Party
import ThreeMove.Session.Role
import ThreeMove.Statement

namespace ThreeMove

/-- What a received value must be. -/
inductive PayloadForm where
  | any
  | bytes
  | list
  | map
  deriving DecidableEq, Repr

mutual

/-- One action on the mailbox or on sub-protocols. -/
inductive ScriptAction (G : Type) [PrimeGroup G] where
  | send (id : String) (value : Payload)
  | receive (id : String) (form : PayloadForm)
  | hasReceived (id : String)
  /-- Receives bytes and sends them on, with more behind them. -/
  | echo (source target : String) (suffix : Bytes)
  /-- Starts a member under a name, or fails where the member cannot be built. -/
  | start (name : String) (argument : Bool) (member : Except Failure (Member G))
  | isRunning (name : String)
  | hasCompleted (name : String)
  | verdictOf (name : String)
  | terminate
  | fail (cause : Error)

/-- An action to perform, or a branch. -/
inductive ScriptCommand (G : Type) [PrimeGroup G] where
  | perform (tolerant : Bool) (action : ScriptAction G)
  /-- Runs the body where the test yields true, or, unless `expected`, where it
  does not. -/
  | branch (test : ScriptAction G) (expected : Bool) (body : List (ScriptCommand G))

/-- A party that a script can start. -/
inductive Member (G : Type) [PrimeGroup G] where
  | prover (statement : Statement G) (witness : Witness) (stream : ByteStream)
  | verifier (statement : Statement G) (stream : ByteStream)
  | scripted (name : String) (sendsFirst : Bool) (rounds : List (Nat × List (ScriptCommand G)))
      (otherwise : List (ScriptCommand G))

end

/-- A script: the commands of single rounds, and those of all other rounds. -/
structure Script (G : Type) [PrimeGroup G] where
  name : String
  rounds : List (Nat × List (ScriptCommand G))
  otherwise : List (ScriptCommand G)

/-- The party that a member is. -/
def Member.party {G : Type} [PrimeGroup G] : Member G → Party (Role G) (Script G)
  | .prover statement witness stream =>
    .atom (.prover (Prover.new statement.protocol witness stream))
  | .verifier statement stream => .atom (.verifier (Verifier.new statement.protocol stream))
  | .scripted name sendsFirst rounds otherwise => .ofLogic ⟨name, rounds, otherwise⟩ sendsFirst

/-- What an action yields. -/
inductive ScriptValue where
  | nothing
  | payload (value : Payload)
  | bytes (data : Bytes)
  | count (n : Nat)
  | names (names : List String)
  | flag (value : Bool)
  | verdict (value : Option Bool)

/-- Whether a value counts as true in a test. -/
def ScriptValue.isTrue : ScriptValue → Bool
  | .flag value => value
  | .verdict value => value == some true
  | _ => false

/-- The record of one action. -/
structure ScriptEvent (G : Type) [PrimeGroup G] where
  /-- The name of the script. -/
  script : String
  round : Nat
  tolerant : Bool
  action : ScriptAction G
  /-- What the action yields, or why it was refused. -/
  outcome : Except Error ScriptValue

namespace Script

variable {G : Type} [PrimeGroup G]

/-- The requests of a scripted round. -/
abbrev Requests (G : Type) [PrimeGroup G] :=
  RoundProgram (Party (Role G) (Script G)) (ScriptEvent G)

/-- A value in the form asked for. -/
def inForm (value : Payload) : PayloadForm → Except Error ScriptValue
  | .any => .ok (.payload value)
  | .bytes => .bytes <$> value.toBytes
  | .list => (fun items => .count items.length) <$> value.toItems
  | .map => (fun entries => .names (Table.keys entries)) <$> value.toEntries

/-- The outcome of a request that yields nothing. -/
def outcomeOf : Except Error Unit → Except Failure ScriptValue
  | .ok () => .ok .nothing
  | .error cause => .error (.error cause)

/-- Performs an action. -/
def perform : ScriptAction G → Requests G (Except Failure ScriptValue)
  | .send id value => .send id value fun r => .done (outcomeOf r)
  | .receive id form => .receive id fun r =>
    .done (Failure.ofRefused (r >>= fun value => inForm value form))
  | .hasReceived id => .hasReceived id fun r => .done (.ok (.flag r))
  | .echo source target suffix => .receive source fun r =>
    match r >>= Payload.toBytes with
    | .error cause => .done (.error (.error cause))
    | .ok data => .send target (.bytes (data ++ suffix)) fun r => .done (outcomeOf r)
  | .start name argument member =>
    match member with
    | .error cause => .done (.error cause)
    | .ok member => .start name ⟨member.party, argument⟩ fun r => .done (outcomeOf r)
  | .isRunning name => .isRunning name fun r => .done (.ok (.flag r))
  | .hasCompleted name => .hasCompleted name fun r => .done (.ok (.flag r))
  | .verdictOf name => .verdictOf name fun r => .done (.ok (.verdict r))
  | .terminate => .terminate (.done (.ok .nothing))
  | .fail cause => .done (.error (.error cause))

mutual

/-- Carries out one command of a round. -/
def carryOut (script : String) (round : Nat) :
    ScriptCommand G → Requests G (Except Failure Unit)
  | .perform tolerant action => do
    match ← perform action with
    | .ok value => .note ⟨script, round, tolerant, action, .ok value⟩ <| .done (.ok ())
    | .error (.error cause) =>
      .note ⟨script, round, tolerant, action, .error cause⟩ <| .done <|
        if tolerant then .ok () else .error (.error cause)
    | .error (.abort cause) => return .error (.abort cause)
  | .branch test expected body => do
    match ← perform test with
    | .error cause => return .error cause
    | .ok value =>
      if value.isTrue == expected then carryOutAll script round body else return .ok ()

/-- Carries out commands in order, up to the first failure. -/
def carryOutAll (script : String) (round : Nat) :
    List (ScriptCommand G) → Requests G (Except Failure Unit)
  | [] => return .ok ()
  | command :: rest => do
    match ← carryOut script round command with
    | .ok () => carryOutAll script round rest
    | .error cause => return .error cause

end

/-- The commands of a round. -/
def commands (script : Script G) (round : Nat) : List (ScriptCommand G) :=
  (script.rounds.lookup round).getD script.otherwise

instance : HostLogic (Script G) (Role G) (ScriptEvent G) where
  act script round := do
    let result ← carryOutAll script.name round (script.commands round)
    return (result, script)

end Script
end ThreeMove

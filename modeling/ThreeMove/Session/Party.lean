/-
# Hosts and their sub-protocols

A party is an elementary one, or a host that runs logic of its own round by
round and any number of sub-protocols under names, which may be hosts again.
One call of a host processes one round:

1. the values from the other side go into the inbox, and the parts of the
   message addressed to sub-protocols are checked (`Host.intake`);
2. every running sub-protocol takes its part of the message, in order of the
   names (`Party.stepEach`);
3. sub-protocols that have come to their end are retired, and a rejected
   argument fails the host (`Party.retire`);
4. the logic runs, unless it has asked to terminate (`Party.runLogic`);
5. the answers of the sub-protocols and the values sent make up the message.

A host that has failed, or that has nothing left to run, accepts no messages.
A round fails a host only by a refusal.  An abort cuts the round short and leaves
everything as it is at that point, so that the next call runs the same round
again.
-/

import ThreeMove.Session.Round

namespace ThreeMove

/-- What a host keeps besides its sub-protocols, given its logic. Source: `BaseProtocolInstance`. -/
structure Host (L : Type) where
  logic : L
  /-- Whether this side makes the first move of all. -/
  sendsFirst : Bool
  /-- Whether a round has begun. -/
  started : Bool
  /-- The round that the next call processes. -/
  round : Nat
  /-- The verdicts of the sub-protocols that have completed. -/
  completed : Table (Option Bool)
  /-- Values from the other side that have not been received. -/
  inbox : Table Payload
  /-- Whether the logic has asked to terminate. -/
  terminateRequested : Bool
  /-- Whether a round has been refused. -/
  failed : Bool

namespace Host

variable {L : Type}

/-- A host before its first round; the side that moves first has the even
rounds. Source: `BaseProtocolInstance::new`. -/
def new (logic : L) (sendsFirst : Bool) : Host L where
  logic := logic
  sendsFirst := sendsFirst
  started := false
  round := if sendsFirst then 0 else 1
  completed := []
  inbox := []
  terminateRequested := false
  failed := false

/-- The name under which values travel between the mailboxes. Source: `HIGH_LEVEL_KEY`. -/
def mailboxKey : String := "__high_level"

/-- Whether a call only waits: the side that does not move first does nothing
before its first message. -/
def idles (host : Host L) (incoming : Option Payload) : Bool :=
  !host.started && !host.sendsFirst && incoming.isNone

/-- The entries of a message; no message has none. -/
def entriesOf (incoming : Option Payload) : Except Error (Table Payload) :=
  match incoming with
  | some message => message.toEntries
  | none => .ok []

/-- Puts values into the inbox up to the first under a name whose value is unread: what comes
before it is in the inbox all the same. -/
def deliver (inbox : Table Payload) : List (String × Payload) → Except Error Unit × Table Payload
  | [] => (.ok (), inbox)
  | (id, value) :: rest =>
    if inbox.has id then (.error (.mailboxCollision id), inbox)
    else deliver (inbox.insert id value) rest

variable (host : Host L)

/-- Puts the values among the entries of a message into the inbox. -/
def received (entries : Table Payload) : Except Error Unit × Table Payload :=
  match Table.find? entries mailboxKey with
  | some values =>
    match values.toEntries with
    | .ok values => deliver host.inbox values
    | .error cause => (.error cause, host.inbox)
  | none => (.ok (), host.inbox)

/-- Whether an entry is for a sub-protocol that has completed, and empty. -/
def isTrailing (entry : String × Payload) : Bool :=
  host.completed.has entry.1 && entry.2.isEmptyMap

/-- The parts of a message for sub-protocols.  An empty table for one that has completed is passed
over. -/
def addressed (entries : Table Payload) : Table Payload :=
  (Table.erase entries mailboxKey).filter fun entry => !host.isTrailing entry

/-- Lets the parts through if all are for sub-protocols that are `running`. -/
def letIn (running : List String) (parts : Table Payload) : Except Error (Table Payload) :=
  match List.find? (fun entry : String × Payload => !running.contains entry.1) parts with
  | some (name, _) =>
    if host.completed.has name then .error (.unexpectedMessage "completed sub-protocol")
    else .error (.unknownSubProtocol name)
  | none => .ok parts

/-- Takes the values of a message into the inbox and gives the parts addressed to
sub-protocols, or the first thing that is wrong.  Values put into the inbox are not taken out again
when something else is wrong. Source: `advance`. -/
def intake (running : List String) (incoming : Option Payload) :
    Except Error (Table Payload) × Host L :=
  match entriesOf incoming with
  | .error cause => (.error cause, host)
  | .ok entries =>
    let (verdict, inbox) := host.received entries
    (verdict >>= fun () => host.letIn running (host.addressed entries),
      { host with inbox := inbox })

end Host

/-- An elementary party, or a host with the sub-protocols it is running. -/
inductive Party (A L : Type) where
  | atom (party : A)
  | host (host : Host L) (running : List (String × Hosted (Party A L)))

/-- Logic of type `L` for hosts over elementary parties of type `A`: what it does
in a round, and what has become of it afterwards. -/
class HostLogic (L A ε : Type) where
  act : L → (round : Nat) → RoundProgram (Party A L) ε (Except Failure Unit × L)

/-- What stepping the sub-protocols of a host comes to. -/
structure Dispatch (P ε : Type) where
  /-- The answers by name, or the first failure. -/
  replies : Except Failure (Table Payload)
  notes : List ε
  /-- The sub-protocols afterwards; those behind a failure were not stepped. -/
  running : List (String × Hosted P)

namespace Party

variable {A L ε : Type}

/-- A host before its first round. -/
def ofLogic (logic : L) (sendsFirst : Bool) : Party A L := .host (Host.new logic sendsFirst) []

variable [Interactive A ε] [HostLogic L A ε]

/-- Whether a party has come to its end; a host has when its logic has asked to
terminate and no sub-protocol is running. Source: `has_terminated`. -/
def terminated (ε : Type) [Interactive A ε] : Party A L → Bool
  | .atom party => Interactive.terminated ε party
  | .host state running => state.terminateRequested && running.isEmpty

/-- The verdict of a party that reaches one; hosts do not. Source: `is_accepting`. -/
def verdict (ε : Type) [Interactive A ε] : Party A L → Option Bool
  | .atom party => Interactive.verdict ε party
  | .host _ _ => none

/-- Takes the sub-protocols that have come to their end out of those running and
records their verdicts, in order, up to an argument that does not accept. Source: `advance`. -/
def retire (ε : Type) [Interactive A ε] :
    List (String × Hosted (Party A L)) → Table (Option Bool) →
      Except Error Unit × List (String × Hosted (Party A L)) × Table (Option Bool)
  | [], completed => (.ok (), [], completed)
  | (name, hosted) :: rest, completed =>
    if hosted.party.terminated ε then
      let verdict := hosted.party.verdict ε
      if hosted.argument && verdict != some true then
        (.error (.argumentRejected name), rest, completed)
      else retire ε rest (completed.insert name verdict)
    else
      let (result, running, completed) := retire ε rest completed
      (result, (name, hosted) :: running, completed)

/-- Runs the logic on its round: the result, the notes, and host, sub-protocols
and outbox afterwards.  When it fails, what it started and sent is dropped. Source: `advance`. -/
def runLogic (host : Host L) (running : List (String × Hosted (Party A L))) :
    Except Failure (Table Payload) × List ε × Party A L :=
  let context : RoundState (Party A L) :=
    { running := running.map Prod.fst
      completed := host.completed
      inbox := host.inbox
      outbox := []
      started := []
      terminating := false }
  let ((result, logic), notes, context) := (HostLogic.act host.logic host.round).run context
  let host := { host with logic := logic, inbox := context.inbox }
  match result with
  | .error cause => (.error cause, notes, .host host running)
  | .ok () =>
    let running := context.started.foldl
      (fun running (name, hosted) => Table.insert name hosted running) running
    (.ok context.outbox, notes,
      .host { host with terminateRequested := context.terminating } running)

/-- The host after a round that came to nothing: a refusal is final, an abort is
not. -/
def afterFailure : Failure → Party A L → Party A L
  | .error _, .host state running => .host { state with failed := true } running
  | _, party => party

/-- The message of a round, and the host ready for the next. -/
def finishRound (replies outbox : Table Payload) (notes : List ε) :
    Party A L → Step (Party A L) ε
  | .atom party => ⟨.ok none, notes, .atom party⟩
  | .host state running =>
    let message := if outbox.isEmpty then replies
      else Table.insert Host.mailboxKey (.map outbox) replies
    ⟨.ok (some (.map message)), notes, .host { state with round := state.round + 2 } running⟩

/-- Goes on from the answers of the sub-protocols to the end of the round. -/
def conclude (host : Host L) (dispatch : Dispatch (Party A L) ε) : Step (Party A L) ε :=
  match dispatch.replies with
  | .error cause =>
    ⟨.error cause, dispatch.notes, afterFailure cause (.host host dispatch.running)⟩
  | .ok replies =>
    let (result, running, completed) := retire ε dispatch.running host.completed
    let host := { host with completed := completed }
    match result with
    | .error cause =>
      ⟨.error (.error cause), dispatch.notes, afterFailure cause (.host host running)⟩
    | .ok () =>
      if host.terminateRequested then
        finishRound replies [] dispatch.notes (.host host running)
      else
        match (runLogic host running : Except Failure (Table Payload) × List ε × Party A L) with
        | (.error cause, notes, party) =>
          ⟨.error cause, dispatch.notes ++ notes, afterFailure cause party⟩
        | (.ok outbox, notes, party) =>
          finishRound replies outbox (dispatch.notes ++ notes) party

mutual

/-- Takes a message and gives one; for a host, that is one round.
Source: `next_message`, `advance`. -/
def step : Party A L → Option Payload → Step (Party A L) ε
  | .atom party, incoming => (Interactive.step party incoming).map .atom
  | .host state running, incoming =>
    if state.failed || (state.terminateRequested && running.isEmpty) then
      .refuse .protocolTerminated (.host state running)
    else if state.idles incoming then .silent (.ok none) (.host state running)
    else
      let state := { state with started := true }
      match state.intake (running.map Prod.fst) incoming with
      | (.error cause, state) => .refuse cause (afterFailure cause (.host state running))
      | (.ok parts, state) => conclude state (stepEach running parts)

/-- Steps sub-protocols in order, each on the part of the message that bears its
name, up to the first failure. -/
def stepEach :
    List (String × Hosted (Party A L)) → Table Payload → Dispatch (Party A L) ε
  | [], _ => ⟨.ok [], [], []⟩
  | (name, ⟨party, argument⟩) :: rest, parts =>
    let taken := step party (parts.find? name)
    let stepped := (name, ⟨taken.next, argument⟩)
    match taken.reply with
    | .error cause => ⟨.error cause, taken.notes, stepped :: rest⟩
    | .ok reply =>
      let others := stepEach rest parts
      { replies := others.replies.map fun replies =>
          match reply with
          | some payload => (name, payload) :: replies
          | none => replies
        notes := taken.notes ++ others.notes
        running := stepped :: others.running }

end

instance : Interactive (Party A L) ε where
  step := step
  terminated := terminated ε
  verdict := verdict ε

end Party
end ThreeMove

/-
# The mailbox delivers every value once and in order

At every point of an execution of two hosts, what the logic of one side has sent under a
name is what the logic of the other has received under it, in the same order and each value
in a later round than it was sent, then the value that is unread, if any, and the value
under way in a message, if any (`Execution.conveyed_of_reaches`).  The journal of the
execution says what was sent and received; a turn adds what its round deals
(`Execution.Delivers.turns`).  A value that comes under a name whose value is unread ends
the execution in a collision.
-/

import ThreeMove.Proofs.Session.Dealings
import ThreeMove.Proofs.Session.Trailing
import Mathlib.Data.Bool.Basic
import Mathlib.Data.Nat.Basic
import Mathlib.Order.Basic

namespace ThreeMove

/-- The values that a party has not received. -/
def Party.inbox {A L : Type} : Party A L → Table Payload
  | .atom _ => []
  | .host state _ => state.inbox

namespace Execution

open Party

/-- What the logic of one side, the first or the other, has dealt in one of its rounds. -/
structure Record where
  byFirst : Bool
  round : Nat
  dealing : Dealing

/-- The values that one side has sent, or received, under a name, with the rounds. -/
def Record.listed (byFirst sends : Bool) (id : String) (records : List Record) :
    List (Nat × Payload) :=
  (records.filter fun record => record.byFirst == byFirst && record.dealing.sends == sends &&
    record.dealing.id == id).map fun record => (record.round, record.dealing.value)

/-- Of the values that one side has `sent` under a name, the other has `received` the first
ones, each in a later round; one more may be unread and one under way. -/
structure Conveyed (sent received : List (Nat × Payload)) (unread underWay : Option Payload) :
    Prop where
  values : sent.map Prod.snd = received.map Prod.snd ++ unread.toList ++ underWay.toList
  later : ∀ (i : Nat) (before after : Nat × Payload), sent[i]? = some before →
    received[i]? = some after → before.1 < after.1

section

variable {sent received : List (Nat × Payload)} {unread unread' underWay : Option Payload}
  {t : Nat} {values : List Payload}

/-- No more is received than was sent. -/
theorem Conveyed.length_le (h : Conveyed sent received unread underWay) :
    received.length ≤ sent.length := by
  have hlength := congrArg List.length h.values
  simp only [List.length_append, List.length_map] at hlength
  omega

/-- What is sent is under way, where nothing was. -/
theorem Conveyed.send (h : Conveyed sent received unread none)
    (hvalues : underWay.toList = values) :
    Conveyed (sent ++ values.map (Prod.mk t)) received unread underWay := by
  constructor
  · have hsent := h.values
    rw [Option.toList_none, List.append_nil] at hsent
    simp [hsent, hvalues, Function.comp_def]
  · intro i before after hbefore hafter
    have hlt : i < received.length := (List.getElem?_eq_some_iff.1 hafter).1
    rw [List.getElem?_append_left (hlt.trans_le h.length_le)] at hbefore
    exact h.later i before after hbefore hafter

/-- What is received was unread or under way, and what was under way arrives. -/
theorem Conveyed.receive (h : Conveyed sent received unread underWay)
    (hpast : ∀ before ∈ sent, before.1 < t)
    (hvalues : unread.toList ++ underWay.toList = values ++ unread'.toList) :
    Conveyed sent (received ++ values.map (Prod.mk t)) unread' none := by
  constructor
  · rw [h.values, List.append_assoc, hvalues]
    simp [Function.comp_def]
  · intro i before after hbefore hafter
    by_cases hlt : i < received.length
    · rw [List.getElem?_append_left hlt] at hafter
      exact h.later i before after hbefore hafter
    · rw [List.getElem?_append_right (Nat.le_of_not_lt hlt)] at hafter
      obtain ⟨value, -, rfl⟩ := List.mem_map.1 (List.mem_of_getElem? hafter)
      exact hpast before (List.mem_of_getElem? hbefore)

end

/-! ### Records -/

section

variable {side : Bool} {t : Nat} {id : String} {records : List Record} {dealings : List Dealing}
  {unread unread' underWay : Option Payload}

/-- What one side deals in its round comes to the records of that side. -/
theorem Record.listed_append (side sends : Bool) (id : String) (records : List Record) (t : Nat)
    (dealings : List Dealing) :
    listed side sends id (records ++ dealings.map (Record.mk side t)) =
      listed side sends id records ++ (Dealing.values sends id dealings).map (Prod.mk t) := by
  rw [listed, listed, Dealing.values, List.filter_append, List.map_append, List.filter_map,
    List.map_map, List.map_map]
  simp [Function.comp_def]

/-- Records of one side list nothing new of the other. -/
theorem Record.listed_append_of_ne {other : Bool} (h : side ≠ other) (sends : Bool) (id : String)
    (records : List Record) (t : Nat) (dealings : List Dealing) :
    listed other sends id (records ++ dealings.map (Record.mk side t)) =
      listed other sends id records := by
  rw [listed, listed, List.filter_append, List.filter_map]
  simp [Function.comp_def, h]

/-- What is listed comes from earlier rounds. -/
theorem Record.lt_of_mem_listed {side sends : Bool}
    (h : ∀ record ∈ records, record.round < t) :
    ∀ before ∈ listed side sends id records, before.1 < t := by
  intro before hbefore
  obtain ⟨record, hrecord, rfl⟩ := List.mem_map.1 hbefore
  exact h record (List.mem_of_mem_filter hrecord)

/-- What a side sends in its round is under way after it. -/
theorem Conveyed.send_records
    (h : Conveyed (Record.listed side true id records) (Record.listed (!side) false id records)
      unread none)
    (hvalues : underWay.toList = Dealing.values true id dealings) :
    Conveyed (Record.listed side true id (records ++ dealings.map (Record.mk side t)))
      (Record.listed (!side) false id (records ++ dealings.map (Record.mk side t)))
      unread underWay := by
  rw [Record.listed_append, Record.listed_append_of_ne (Bool.not_ne_self side).symm]
  exact h.send hvalues

/-- What a side receives in its round was unread or under way before it. -/
theorem Conveyed.receive_records
    (h : Conveyed (Record.listed side true id records) (Record.listed (!side) false id records)
      unread underWay)
    (hpast : ∀ record ∈ records, record.round < t)
    (hvalues : unread.toList ++ underWay.toList =
      Dealing.values false id dealings ++ unread'.toList) :
    Conveyed (Record.listed side true id (records ++ dealings.map (Record.mk (!side) t)))
      (Record.listed (!side) false id (records ++ dealings.map (Record.mk (!side) t)))
      unread' none := by
  rw [Record.listed_append, Record.listed_append_of_ne (Bool.not_ne_self side)]
  exact h.receive (Record.lt_of_mem_listed hpast) hvalues

/-- After a round all records are of rounds up to it. -/
theorem Record.lt_succ_of_mem_append (h : ∀ record ∈ records, record.round < t) :
    ∀ record ∈ records ++ dealings.map (Record.mk side t), record.round < t + 1 := by
  intro record hrecord
  rcases List.mem_append.1 hrecord with hrecord | hrecord
  · exact (h record hrecord).trans (Nat.lt_succ_self t)
  · obtain ⟨dealing, -, rfl⟩ := List.mem_map.1 hrecord
    exact Nat.lt_succ_self t

end

/-! ### Executions -/

variable {A L B M : Type}

/-- The value under a name that the first side, or the other, has sent and that is unread. -/
def unread (x : Execution (Party A L) (Party B M)) (fromFirst : Bool) (id : String) :
    Option Payload :=
  if fromFirst then x.second.inbox.find? id else x.first.inbox.find? id

/-- The value under a name that is under way from the first side, or from the other. -/
def underWay (x : Execution (Party A L) (Party B M)) (fromFirst : Bool) (id : String) :
    Option Payload :=
  if x.firstMoves = fromFirst then none else valueIn x.message id

variable {ε : Type} [Interactive A ε] [HostLogic L A ε] [Interactive B ε] [HostLogic M B ε]

/-- Whether the party whose turn it is has come to its end. -/
def ended (ε : Type) [Interactive A ε] [Interactive B ε]
    (x : Execution (Party A L) (Party B M)) : Bool :=
  if x.firstMoves then x.first.terminated ε else x.second.terminated ε

/-- What is dealt in the next turn. -/
def records (ε : Type) [Interactive A ε] [HostLogic L A ε] [Interactive B ε] [HostLogic M B ε]
    (x : Execution (Party A L) (Party B M)) : List Record :=
  if x.firstMoves then (x.first.dealings ε x.message).map (Record.mk true x.first.round)
  else (x.second.dealings ε x.message).map (Record.mk false x.second.round)

/-- What is dealt in the next `n` turns, if none of them fails. -/
def journal (ε : Type) [Interactive A ε] [HostLogic L A ε] [Interactive B ε] [HostLogic M B ε] :
    (n : Nat) → Execution (Party A L) (Party B M) → List Record
  | 0, _ => []
  | n + 1, x => x.records ε ++ journal ε n (x.advance ε).2.2

/-- What the records say has come to the other side, or is on the way. -/
structure Delivers (records : List Record) (x : Execution (Party A L) (Party B M)) : Prop where
  lockstep : Lockstep x
  packed : WellPacked x.message
  past : ∀ record ∈ records, record.round < x.steps
  conveyed : ∀ fromFirst id, Conveyed (Record.listed fromFirst true id records)
    (Record.listed (!fromFirst) false id records) (x.unread fromFirst id) (x.underWay fromFirst id)

/-- Two new hosts have sent and received nothing. -/
theorem Delivers.new (first : L) (second : M) : Delivers []
    (.new (ofLogic first true) (ofLogic second false) : Execution (Party A L) (Party B M)) := by
  refine ⟨.new first second, nofun, nofun, fun fromFirst id => ?_⟩
  cases fromFirst with
  | true => exact ⟨rfl, nofun⟩
  | false => exact ⟨rfl, nofun⟩

omit [Interactive B ε] [HostLogic M B ε] in
/-- A host that has come to its end deals nothing, and the rounds of the others count the
turns. -/
theorem map_dealings_eq {t : Nat} {state state' : Host L}
    {running running' : List (String × Hosted (Party A L))} {incoming message : Option Payload}
    {waiting : Host M} {others : List (String × Hosted (Party B M))}
    (hpaired : Paired t state running incoming waiting others)
    (hturned : Turned ε state running incoming message state' running') (byFirst : Bool) :
    (dealings ε (.host state running) incoming).map (Record.mk byFirst state.round) =
      (dealings ε (.host state running) incoming).map (Record.mk byFirst t) := by
  cases hturned with
  | passes hover =>
    rw [dealings, prepare, if_pos hover]
    rfl
  | round hlive => rw [hpaired.mover_round hlive]

/-- A turn adds to the records what its round deals. -/
theorem Delivers.turns {records : List Record} {x y : Execution (Party A L) (Party B M)}
    (h : Delivers records x) (hturns : Turns ε x y) : Delivers (records ++ x.records ε) y := by
  have hlockstep := hturns.lockstep
  obtain ⟨-, -, hpast, hconveyed⟩ := h
  cases hturns with
  | first hpaired hturned =>
    rw [Execution.records, if_pos rfl, Party.round, map_dealings_eq hpaired hturned true]
    refine ⟨hlockstep, hturned.wellPacked hpaired.mover, Record.lt_succ_of_mem_append hpast, ?_⟩
    intro fromFirst id
    obtain ⟨hreceived, hsent⟩ := hturned.accounts hpaired.mover id
    cases fromFirst with
    | true => exact (hconveyed true id).send_records hsent
    | false => exact (hconveyed false id).receive_records hpast hreceived
  | second hpaired hturned =>
    rw [Execution.records, if_neg Bool.false_ne_true, Party.round,
      map_dealings_eq hpaired hturned false]
    refine ⟨hlockstep, hturned.wellPacked hpaired.mover, Record.lt_succ_of_mem_append hpast, ?_⟩
    intro fromFirst id
    obtain ⟨hreceived, hsent⟩ := hturned.accounts hpaired.mover id
    cases fromFirst with
    | true => exact (hconveyed true id).receive_records hpast hreceived
    | false => exact (hconveyed false id).send_records hsent

/-- The journal of an execution that has come to `y` delivers. -/
theorem Delivers.reaches {records : List Record} {x y : Execution (Party A L) (Party B M)}
    (h : Delivers records x) (hreaches : Reaches ε x y) :
    ∃ n, y.steps = x.steps + n ∧ Delivers (records ++ journal ε n x) y := by
  induction hreaches generalizing records with
  | refl x => exact ⟨0, rfl, by rwa [journal, List.append_nil]⟩
  | turn hrunning hturn hrest ih =>
    have hturns := h.lockstep.turns hturn
    obtain ⟨n, hsteps, hdelivers⟩ := ih (h.turns hturns)
    refine ⟨n + 1, ?_, ?_⟩
    · rw [hsteps, hturns.steps_eq, Nat.add_right_comm, Nat.add_assoc]
    · rw [journal, ← List.append_assoc]
      exact hdelivers

omit [Interactive B ε] [HostLogic M B ε] in
/-- The turn of a host that refuses the message is refused. -/
theorem turn_of_refuse {state : Host L} {running : List (String × Hosted (Party A L))}
    {incoming : Option Payload} {cause : Error} {next : Party A L}
    (hterminated : (Party.host state running).terminated ε = false)
    (h : (step (.host state running) incoming : Step (Party A L) ε) = .refuse cause next) :
    (turn ε (.host state running) incoming : Step (Party A L) ε) = .refuse cause next := by
  have hinteractive : Interactive.terminated ε (Party.host state running) = false := hterminated
  rw [turn, hinteractive, if_neg Bool.false_ne_true]
  exact h

/-- A second value under a name whose value is unread ends the execution, and replaces
nothing: a name has the value it had, or had none and has the one that was under way. -/
theorem Delivers.exists_collision {records : List Record} {x : Execution (Party A L) (Party B M)}
    (h : Delivers records x) (hended : x.ended ε = false) {id : String}
    (hunread : (x.unread (!x.firstMoves) id).isSome = true)
    (hvalue : (x.underWay (!x.firstMoves) id).isSome = true) :
    ∃ other, (x.unread (!x.firstMoves) other).isSome = true ∧
      (x.underWay (!x.firstMoves) other).isSome = true ∧
      (x.advance ε).1 = .error (.error (.mailboxCollision other)) ∧
      ∀ name, (x.advance ε).2.2.unread (!x.firstMoves) name = x.unread (!x.firstMoves) name ∨
        x.unread (!x.firstMoves) name = none ∧
          (x.advance ε).2.2.unread (!x.firstMoves) name = x.underWay (!x.firstMoves) name := by
  obtain ⟨hlockstep, hpacked, -, -⟩ := h
  cases hlockstep with
  | @first t state running message state' running' hpaired =>
    have hlive := (Orderly.terminated_eq (ε := ε) hpaired.mover).symm.trans hended
    obtain ⟨other, inbox, hother, hcarried, hstep, hkept⟩ :=
      Party.exists_collision (ε := ε) hlive hpacked hunread hvalue
    rw [advance, if_pos rfl]
    dsimp only
    rw [turn_of_refuse hended hstep]
    exact ⟨other, hother, hcarried, rfl, hkept⟩
  | @second t state running message state' running' hpaired =>
    have hlive := (Orderly.terminated_eq (ε := ε) hpaired.mover).symm.trans hended
    obtain ⟨other, inbox, hother, hcarried, hstep, hkept⟩ :=
      Party.exists_collision (ε := ε) hlive hpacked hunread hvalue
    rw [advance, if_neg Bool.false_ne_true]
    dsimp only
    rw [turn_of_refuse hended hstep]
    exact ⟨other, hother, hcarried, rfl, hkept⟩

/-- **The mailbox delivers.**  At every point of an execution, what one side has sent under a
name is what the other has received in later rounds, then what is unread, then what is
under way.  A second value under a name whose value is unread fails the side it comes
to, for a collision, and is not put in place of the first: every name has the value it had, or
had none and has got the one that was under way before the collision was met. -/
theorem conveyed_of_reaches (first : L) (second : M) (x : Execution (Party A L) (Party B M))
    (hreaches : Reaches ε (.new (ofLogic first true) (ofLogic second false)) x) :
    let records := journal ε x.steps
      (.new (ofLogic first true) (ofLogic second false) : Execution (Party A L) (Party B M))
    (∀ fromFirst id, Conveyed (Record.listed fromFirst true id records)
      (Record.listed (!fromFirst) false id records) (x.unread fromFirst id)
      (x.underWay fromFirst id)) ∧
    ∀ id, x.ended ε = false → (x.unread (!x.firstMoves) id).isSome = true →
      (x.underWay (!x.firstMoves) id).isSome = true →
      ∃ other, (x.unread (!x.firstMoves) other).isSome = true ∧
        (x.underWay (!x.firstMoves) other).isSome = true ∧
        (x.advance ε).1 = .error (.error (.mailboxCollision other)) ∧
        ∀ name, (x.advance ε).2.2.unread (!x.firstMoves) name = x.unread (!x.firstMoves) name ∨
          x.unread (!x.firstMoves) name = none ∧
            (x.advance ε).2.2.unread (!x.firstMoves) name = x.underWay (!x.firstMoves) name := by
  obtain ⟨n, hsteps, hdelivers⟩ := (Delivers.new first second).reaches hreaches
  obtain rfl : x.steps = n := hsteps.trans (Nat.zero_add n)
  exact ⟨hdelivers.conveyed, fun id hended hunread hvalue =>
    hdelivers.exists_collision hended hunread hvalue⟩

/-- Sends bytes under a name. -/
def sending (id : String) (data : Bytes) : ScriptCommand Ristretto :=
  .perform false (.send id (.bytes data))

/-- A script that sends three values under two names. -/
def talking : Script Ristretto where
  name := "talking"
  rounds := [(0, [sending "a" [1], sending "b" [2]]), (2, [sending "b" [3]])]
  otherwise := []

/-- A script that receives a value under one of them. -/
def listening : Script Ristretto where
  name := "listening"
  rounds := [(1, [.perform false (.receive "a" .bytes)])]
  otherwise := []

/-- The hypotheses are satisfiable: of three values one has been received, one is unread,
and one is under way, whose delivery is a collision. -/
theorem conveyed_of_reaches_talking :
    let start : Execution (Party (Role Ristretto) (Script Ristretto))
        (Party (Role Ristretto) (Script Ristretto)) :=
      .new (ofLogic talking true) (ofLogic listening false)
    ∃ x, Reaches (ScriptEvent Ristretto) start x ∧
      (let records := journal (ScriptEvent Ristretto) x.steps start
       Record.listed true true "a" records = [(0, .bytes [1])] ∧
        Record.listed false false "a" records = [(1, .bytes [1])] ∧
        Record.listed true true "b" records = [(0, .bytes [2]), (2, .bytes [3])] ∧
        Conveyed (Record.listed true true "b" records) (Record.listed false false "b" records)
          (x.unread true "b") (x.underWay true "b")) ∧
      x.unread true "b" = some (.bytes [2]) ∧ x.underWay true "b" = some (.bytes [3]) ∧
      ∃ other, (x.advance (ScriptEvent Ristretto)).1 =
        .error (.error (.mailboxCollision other)) := by
  intro start
  have hreaches : Reaches (ScriptEvent Ristretto) start _ :=
    .turn (by decide +kernel) (by decide +kernel)
      (.turn (by decide +kernel) (by decide +kernel)
        (.turn (by decide +kernel) (by decide +kernel) (.refl _)))
  obtain ⟨hconveyed, hcollides⟩ := conveyed_of_reaches talking listening _ hreaches
  obtain ⟨other, -, -, hcollision, -⟩ :=
    hcollides "b" (by decide +kernel) (by decide +kernel) (by decide +kernel)
  refine ⟨_, hreaches, ⟨?_, ?_, ?_, hconveyed true "b"⟩, ?_, ?_, other, hcollision⟩
  all_goals decide +kernel

end Execution
end ThreeMove

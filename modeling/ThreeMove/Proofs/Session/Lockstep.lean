/-
# Two hosts in turn

In an execution of two hosts the one whose turn it is passes, having come to its end, or
goes through a round (`Party.turn_eq_ok`); it never only waits, since the side that does not
move first is handed the message of the other's first round.  The rounds of the two sides
count the turns (`Party.Paired`), from the first turn on (`Execution.Reaches.lockstep`).
-/

import ThreeMove.Proofs.Session.Rounds
import ThreeMove.Proofs.Session.Turns

namespace ThreeMove

namespace Party

variable {A L ε : Type}

/-- The round that the next call of a party processes. -/
def round : Party A L → Nat
  | .atom _ => 0
  | .host state _ => state.round

variable [Interactive A ε] [HostLogic L A ε]

/-- The turn of a host that does not fail: it passes, or goes through a round. -/
inductive Turned (ε : Type) [Interactive A ε] [HostLogic L A ε] (state : Host L)
    (running : List (String × Hosted (Party A L))) (incoming : Option Payload) :
    (message : Option Payload) → (state' : Host L) →
      (running' : List (String × Hosted (Party A L))) → Prop where
  | passes (hover : isOver state running = true)
      (hempty : Execution.isEmptyMessage incoming = true) :
      Turned ε state running incoming none state running
  | round {entries : Table Payload} {state' : Host L}
      {running' : List (String × Hosted (Party A L))} (hlive : isOver state running = false)
      (hround : Completes ε state running incoming entries state' running') :
      Turned ε state running incoming (some (.map entries)) state' running'

variable {state state' : Host L} {running running' : List (String × Hosted (Party A L))}
  {incoming message : Option Payload}

omit [HostLogic L A ε] in
/-- A host that goes on in order has come to its end just where it is over. -/
theorem Orderly.terminated_eq (h : Orderly state running) :
    (Party.host state running).terminated ε = isOver state running := by
  rw [terminated, isOver, h.live, Bool.false_or]

/-- A host that does not only wait passes its turn, or goes through a round. -/
theorem turn_eq_ok (horderly : Orderly state running) (hawake : state.idles incoming = false)
    (h : (Execution.turn ε (.host state running) incoming : Step (Party A L) ε).reply =
      .ok message) : ∃ state' running',
      (Execution.turn ε (.host state running) incoming : Step (Party A L) ε).next =
        .host state' running' ∧ Turned ε state running incoming message state' running' := by
  have hterminated : Interactive.terminated ε (Party.host state running) = isOver state running :=
    horderly.terminated_eq
  rw [Execution.turn, hterminated] at h ⊢
  cases hover : isOver state running with
  | true =>
    rw [hover, if_pos rfl] at h
    rw [if_pos rfl]
    split at h
    · rename_i hempty
      rw [if_pos hempty]
      obtain rfl := Except.ok.inj h
      exact ⟨state, running, rfl, .passes hover hempty⟩
    · cases h
  | false =>
    rw [hover, if_neg Bool.false_ne_true] at h
    rw [if_neg Bool.false_ne_true]
    rcases step_eq_ok h with ⟨hidles, -, -⟩ | ⟨entries, state', running', rfl, hnext, hround⟩
    · cases hidles.symm.trans hawake
    · exact ⟨state', running', hnext, .round hover hround⟩

section

variable {B M : Type}

/-- It is turn number `t`, that of the host `state` with `running`; the next is that of
`state'` with `running'`. -/
structure Paired (t : Nat) (state : Host L) (running : List (String × Hosted (Party A L)))
    (message : Option Payload) (state' : Host M)
    (running' : List (String × Hosted (Party B M))) : Prop where
  mover : Orderly state running
  waiter : Orderly state' running'
  awake : state.idles message = false
  /-- A host that has come to its end sends nothing that could wake the other. -/
  wakes : isOver state running = true → state'.idles none = false
  mover_round : isOver state running = false → state.round = t
  waiter_round : isOver state' running' = false → state'.round = t + 1

/-- Two new hosts, of which the first moves first, are paired before the first turn. -/
theorem Paired.new (first : L) (second : M) :
    Paired 0 (Host.new first true) ([] : List (String × Hosted (Party A L))) none
      (Host.new second false) ([] : List (String × Hosted (Party B M))) :=
  ⟨.new first true, .new second false, rfl, nofun, fun _ => rfl, fun _ => rfl⟩

/-- A host that has started does not idle. -/
theorem idles_of_started (h : state.started = true) (incoming : Option Payload) :
    state.idles incoming = false := by
  rw [Host.idles, h]
  rfl

/-- After a turn the sides change places. -/
theorem Paired.turned {t : Nat} {waiting : Host M} {others : List (String × Hosted (Party B M))}
    (h : Paired t state running incoming waiting others)
    (hturned : Turned ε state running incoming message state' running') :
    Paired (t + 1) waiting others message state' running' := by
  cases hturned with
  | passes hover hempty =>
    have hstarted : state.started = true := by
      rw [isOver, h.mover.live, Bool.false_or, Bool.and_eq_true] at hover
      exact h.mover.started hover.1
    exact ⟨h.waiter, h.mover, h.wakes hover, fun _ => idles_of_started hstarted none,
      h.waiter_round, fun hlive => absurd (hlive.symm.trans hover) Bool.false_ne_true⟩
  | round hlive hround =>
    obtain ⟨hstarted, hcount⟩ := hround.started_round
    refine ⟨h.waiter, h.mover.completes hround, Bool.and_false _,
      fun _ => idles_of_started hstarted none, h.waiter_round, fun _ => ?_⟩
    rw [hcount, h.mover_round hlive]

end

end Party

namespace Execution

open Party

variable {A L B M ε : Type} [Interactive A ε] [HostLogic L A ε] [Interactive B ε] [HostLogic M B ε]

/-- The two sides are hosts that move in turn. -/
inductive Lockstep : Execution (Party A L) (Party B M) → Prop where
  | first {t : Nat} {state : Host L} {running : List (String × Hosted (Party A L))}
      {message : Option Payload} {state' : Host M} {running' : List (String × Hosted (Party B M))}
      (h : Paired t state running message state' running') :
      Lockstep ⟨.host state running, .host state' running', true, message, t⟩
  | second {t : Nat} {state : Host L} {running : List (String × Hosted (Party A L))}
      {message : Option Payload} {state' : Host M} {running' : List (String × Hosted (Party B M))}
      (h : Paired t state' running' message state running) :
      Lockstep ⟨.host state running, .host state' running', false, message, t⟩

/-- A turn of one side that does not fail leads from `x` to `y`. -/
inductive Turns (ε : Type) [Interactive A ε] [HostLogic L A ε] [Interactive B ε]
    [HostLogic M B ε] : (x y : Execution (Party A L) (Party B M)) → Prop where
  | first {t : Nat} {state state' : Host L} {running running' : List (String × Hosted (Party A L))}
      {incoming message : Option Payload} {waiting : Host M}
      {others : List (String × Hosted (Party B M))}
      (hpaired : Paired t state running incoming waiting others)
      (hturned : Turned ε state running incoming message state' running') :
      Turns ε ⟨.host state running, .host waiting others, true, incoming, t⟩
        ⟨.host state' running', .host waiting others, false, message, t + 1⟩
  | second {t : Nat} {state state' : Host M} {running running' : List (String × Hosted (Party B M))}
      {incoming message : Option Payload} {waiting : Host L}
      {others : List (String × Hosted (Party A L))}
      (hpaired : Paired t state running incoming waiting others)
      (hturned : Turned ε state running incoming message state' running') :
      Turns ε ⟨.host waiting others, .host state running, false, incoming, t⟩
        ⟨.host waiting others, .host state' running', true, message, t + 1⟩

variable {x y : Execution (Party A L) (Party B M)}

/-- Two new hosts, of which the first moves first, move in turn. -/
theorem Lockstep.new (first : L) (second : M) :
    Lockstep (.new (ofLogic first true) (ofLogic second false) :
      Execution (Party A L) (Party B M)) :=
  .first (.new first second)

/-- After a turn the hosts still move in turn. -/
theorem Turns.lockstep (h : Turns ε x y) : Lockstep y := by
  cases h with
  | first hpaired hturned => exact .second (hpaired.turned hturned)
  | second hpaired hturned => exact .first (hpaired.turned hturned)

/-- A turn counts as one. -/
theorem Turns.steps_eq (h : Turns ε x y) : y.steps = x.steps + 1 := by
  cases h with
  | first => rfl
  | second => rfl

/-- A turn that does not fail is one of a side. -/
theorem Lockstep.turns (h : Lockstep x) (hturn : (x.advance ε).1 = .ok ()) :
    Turns ε x (x.advance ε).2.2 := by
  cases h with
  | @first t state running message state' running' hpaired =>
    rw [advance, if_pos rfl] at hturn ⊢
    dsimp only at hturn ⊢
    cases hreply : (turn ε (.host state running) message : Step (Party A L) ε).reply with
    | error cause =>
      rw [hreply] at hturn
      cases hturn
    | ok reply =>
      obtain ⟨_, _, hnext, hturned⟩ := turn_eq_ok hpaired.mover hpaired.awake hreply
      rw [hnext]
      exact .first hpaired hturned
  | @second t state running message state' running' hpaired =>
    rw [advance, if_neg Bool.false_ne_true] at hturn ⊢
    dsimp only at hturn ⊢
    cases hreply : (turn ε (.host state' running') message : Step (Party B M) ε).reply with
    | error cause =>
      rw [hreply] at hturn
      cases hturn
    | ok reply =>
      obtain ⟨_, _, hnext, hturned⟩ := turn_eq_ok hpaired.mover hpaired.awake hreply
      rw [hnext]
      exact .second hpaired hturned

/-- Two hosts keep in step as long as no turn fails. -/
theorem Reaches.lockstep (hreaches : Reaches ε x y) (h : Lockstep x) : Lockstep y := by
  induction hreaches with
  | refl x => exact h
  | turn _ hturn _ ih => exact ih (h.turns hturn).lockstep

end Execution
end ThreeMove

/-
# Sub-protocols of the same name talk to each other

In an execution of two hosts a sub-protocol that is called is called on what its namesake
on the other side has answered in the turn just before, and on nothing if that gave no
answer or was not called (`Party.Relays`).  So each answer reaches the sub-protocol of its
name in the very next round, and only there.  An answer for which there is no such
sub-protocol fails the receiver, except an empty table for one that has completed, which
could as well be missing.  A sub-protocol that is started is called for the first time in
the next round of its side, which is two rounds later.
-/

import ThreeMove.Proofs.Session.Lockstep
import ThreeMove.Proofs.Session.Trailing

namespace ThreeMove
namespace Party

variable {A L ε : Type}

/-- The sub-protocols of a party. -/
def running : Party A L → List (String × Hosted (Party A L))
  | .atom _ => []
  | .host _ running => running

/-- The verdicts of the sub-protocols that have completed. -/
def completed : Party A L → Table (Option Bool)
  | .atom _ => []
  | .host state _ => state.completed

variable [Interactive A ε] [HostLogic L A ε]

/-- The answer of the sub-protocol `name` in a call of the party: none, if it gives none or
is not called. -/
inductive Answers (ε : Type) [Interactive A ε] [HostLogic L A ε] (party : Party A L)
    (incoming : Option Payload) (name : String) : (reply : Option Payload) → Prop where
  | called {hosted : Hosted (Party A L)} {part reply : Option Payload}
      (hcall : SubCall ε party incoming name hosted part)
      (hreply : (step hosted.party part : Step (Party A L) ε).reply = .ok reply) :
      Answers ε party incoming name reply
  | uncalled (hnot : ∀ hosted part, ¬SubCall ε party incoming name hosted part) :
      Answers ε party incoming name none

/-- In a call of the party its logic starts the sub-protocol. -/
inductive Starts (ε : Type) [Interactive A ε] [HostLogic L A ε] :
    Party A L → Option Payload → String → Hosted (Party A L) → Prop where
  | intro {state : Host L} {running : List (String × Hosted (Party A L))}
      {incoming : Option Payload} {ready : Ready A L ε} {name : String}
      {hosted : Hosted (Party A L)} (hprepare : prepare state running incoming = .ok ready)
      (hok : ready.answer.1.1 = .ok ()) (hmem : (name, hosted) ∈ ready.answer.2.2.started) :
      Starts ε (.host state running) incoming name hosted

section

variable {state state' : Host L} {running running' : List (String × Hosted (Party A L))}
  {incoming message : Option Payload} {parts : Table Payload} {name : String}
  {hosted : Hosted (Party A L)}

/-! ### Answers and parts -/

/-- The part on which a sub-protocol is called is what stands under its name. -/
theorem Orderly.find?_parts (h : Orderly state running)
    (henters : Enters state running incoming parts state')
    (hname : name ∈ running.map Prod.fst) : parts.find? name = partOf incoming name := by
  obtain ⟨entries, inbox, hentries, -, -, rfl, -⟩ := Host.intake_eq_ok.1 henters.intake
  rw [partOf_of_entriesOf hentries, Host.addressed, Table.find?_filter ?_,
    Table.find?_erase_of_ne (h.ne_mailboxKey hname)]
  intro value
  rw [Host.isTrailing, h.not_completed hname]
  rfl

/-- A sub-protocol that is called runs and gets its part of the message. -/
theorem SubCall.part_eq (h : Orderly state running)
    (hcall : SubCall ε (.host state running) incoming name hosted message) :
    (name, hosted) ∈ running ∧ message = partOf incoming name := by
  obtain ⟨hmem, parts, entered, henters, rfl⟩ := hcall.exists_enters
  exact ⟨hmem, h.find?_parts henters (List.mem_map_of_mem hmem)⟩

/-- A name stands for one call. -/
theorem SubCall.unique (h : Orderly state running) {hosted' : Hosted (Party A L)}
    {part part' : Option Payload}
    (hcall : SubCall ε (.host state running) incoming name hosted part)
    (hcall' : SubCall ε (.host state running) incoming name hosted' part') :
    hosted' = hosted ∧ part' = part := by
  obtain ⟨hmem, rfl⟩ := hcall.part_eq h
  obtain ⟨hmem', rfl⟩ := hcall'.part_eq h
  exact ⟨(Prod.mk.inj (List.inj_on_of_nodup_map h.nodup hmem' hmem rfl)).2, rfl⟩

/-- A name that is not called gives no answer. -/
theorem answers_iff_of_uncalled {party : Party A L} {reply : Option Payload}
    (hnot : ∀ hosted part, ¬SubCall ε party incoming name hosted part) :
    Answers ε party incoming name reply ↔ reply = none := by
  constructor
  · rintro (hcall | _)
    · exact absurd hcall (hnot _ _)
    · rfl
  · rintro rfl
    exact .uncalled hnot

/-- What a host sends under a name is what its sub-protocol of the name answers. -/
theorem Turned.answers_iff (h : Orderly state running)
    (hturned : Turned ε state running incoming message state' running')
    (hname : name ≠ Host.mailboxKey) (reply : Option Payload) :
    Answers ε (.host state running) incoming name reply ↔ reply = partOf message name := by
  cases hturned with
  | passes hover =>
    have hnot : ∀ hosted part, ¬SubCall ε (.host state running) incoming name hosted part := by
      intro hosted part hcall
      obtain ⟨-, _, _, henters, -⟩ := hcall.exists_enters
      exact nomatch henters.live.symm.trans hover
    exact answers_iff_of_uncalled hnot
  | round hlive hround =>
    obtain ⟨hserves, hacts⟩ := hround
    rename_i parts ready logic context
    obtain ⟨hsublist, hreplies⟩ := stepEach_eq_ok h.nodup hserves.replies
    have hpart : partOf (some (.map (outgoing ready.replies context.outbox))) name =
        ready.replies.find? name := find?_outgoing _ _ hname
    rw [hpart]
    by_cases hmem : name ∈ running.map Prod.fst
    · obtain ⟨⟨_, hosted⟩, hentry, rfl⟩ := List.mem_map.1 hmem
      have hcall := SubCall.of_mem hserves.enters hserves.replies hentry
      constructor
      · rintro (⟨hcall', hreply⟩ | hnot)
        · obtain ⟨rfl, rfl⟩ := hcall.unique h hcall'
          exact Except.ok.inj (hreply.symm.trans (hreplies _ hentry))
        · exact absurd hcall (hnot _ _)
      · rintro rfl
        exact .called hcall (hreplies _ hentry)
    · have hnot : ∀ hosted part, ¬SubCall ε (.host state running) incoming name hosted part :=
        fun hosted part hcall => hmem (List.mem_map_of_mem (hcall.part_eq h).1)
      have hnone : ready.replies.find? name = none :=
        Table.find?_eq_none fun hname => hmem (hsublist.subset hname)
      rw [hnone]
      exact answers_iff_of_uncalled hnot

/-- No sub-protocol answers under the name of the mailbox. -/
theorem Orderly.mailbox_unanswered (h : Orderly state running) {reply : Option Payload}
    (hanswers : Answers ε (.host state running) incoming Host.mailboxKey reply) : reply = none := by
  cases hanswers with
  | called hcall _ => exact absurd rfl (h.ne_mailboxKey (List.mem_map_of_mem (hcall.part_eq h).1))
  | uncalled _ => rfl

/-- An answer stands in the message, once. -/
theorem Turned.of_answers (h : Orderly state running)
    (hturned : Turned ε state running incoming message state' running') {payload : Payload}
    (hanswers : Answers ε (.host state running) incoming name (some payload)) :
    name ≠ Host.mailboxKey ∧ ∃ entries, message = some (.map entries) ∧
      (name, payload) ∈ entries ∧ ∀ entry ∈ entries, entry.1 = name → entry.2 = payload := by
  have hname : name ≠ Host.mailboxKey := by
    rintro rfl
    exact nomatch h.mailbox_unanswered hanswers
  refine ⟨hname, ?_⟩
  have hpart := (hturned.answers_iff h hname _).1 hanswers
  cases hturned with
  | passes => exact nomatch hpart
  | round hlive hround =>
    obtain ⟨hserves, hacts⟩ := hround
    rename_i parts ready logic context
    obtain ⟨hsublist, -⟩ := stepEach_eq_ok h.nodup hserves.replies
    have hnodup := nodup_outgoing context.outbox (hsublist.nodup h.nodup)
      (h.mailboxKey_not_mem hserves)
    refine ⟨_, rfl, Table.mem_of_find?_eq_some hpart.symm, fun entry hentry heq => ?_⟩
    subst heq
    have hfind := Table.find?_eq_some_of_mem hnodup hentry
    exact Option.some.inj (hfind.symm.trans hpart.symm)

/-! ### Answers for nobody -/

/-- What is for a sub-protocol that is not running fails a host, unless it is an empty
table and the sub-protocol has completed. -/
theorem exists_refuse_of_mem {entries : Table Payload} {payload : Payload}
    (hlive : isOver state running = false) (hmem : (name, payload) ∈ entries)
    (hname : name ≠ Host.mailboxKey) (hnot : name ∉ running.map Prod.fst)
    (hpayload : state.completed.has name = true → payload ≠ .emptyMap) :
    ∃ cause, (step (.host state running) (some (.map entries)) : Step (Party A L) ε).reply =
      .error (.error cause) := by
  rcases hintake : Host.intake { state with started := true } (running.map Prod.fst)
      (some (.map entries)) with ⟨verdict, taken⟩
  cases verdict with
  | ok parts =>
    obtain ⟨entries', inbox, hentries, -, hall, -, -⟩ := Host.intake_eq_ok.1 hintake
    obtain rfl := Except.ok.inj hentries
    exact absurd (hall _ (Host.mem_addressed.2 ⟨hmem, hname, hpayload⟩)) hnot
  | error cause =>
    have hawake : state.idles (some (.map entries)) = false := Bool.and_false _
    rw [step_of_intake_eq_error hlive hawake hintake]
    exact ⟨cause, rfl⟩

/-- Empty tables for a sub-protocol that has completed could as well be missing. -/
theorem step_erase {entries : Table Payload} (hname : name ≠ Host.mailboxKey)
    (hcompleted : state.completed.has name = true)
    (hempty : ∀ entry ∈ entries, entry.1 = name → entry.2 = .emptyMap) :
    (step (.host state running) (some (.map (Table.erase entries name))) : Step (Party A L) ε) =
      step (.host state running) (some (.map entries)) := by
  have hdrop : state.dropTrailing (Table.erase entries name) = state.dropTrailing entries := by
    rw [Host.dropTrailing, Host.dropTrailing, Table.erase, List.filter_filter]
    refine List.filter_congr fun entry hentry => ?_
    by_cases heq : entry.1 = name
    · subst heq
      have htrailing : state.isTrailing entry = true := by
        rw [Host.isTrailing, hcompleted, hempty entry hentry rfl]
        rfl
      simp [htrailing, hname]
    · simp [heq]
  rw [← step_dropTrailing, hdrop, step_dropTrailing]

/-! ### From one round to the next -/

/-- A name that is taken stays taken. -/
theorem Serves.taken {ready : Ready A L ε} (hserves : Serves state running incoming parts ready)
    (hname : name ∈ running.map Prod.fst) :
    name ∈ ready.running.map Prod.fst ∨ ready.host.completed.has name = true := by
  have hcalled : Taken name (roster (stepEach running parts : Dispatch (Party A L) ε).running)
      state.completed := by
    rw [Taken, roster_stepEach, fst_roster]
    exact .inl hname
  have hretired := hcalled.retire (congrArg Prod.fst hserves.retire)
  rw [hserves.retire, Taken, fst_roster] at hretired
  exact hretired

/-- In a round each sub-protocol is called, and goes on as the call leaves it or has
completed. -/
theorem Turned.called (h : Orderly state running)
    (hturned : Turned ε state running incoming message state' running')
    (hlive : isOver state running = false) (hmem : (name, hosted) ∈ running) :
    ∃ part, SubCall ε (.host state running) incoming name hosted part ∧
      ((afterCall ε hosted part).party.terminated ε = false →
        (name, afterCall ε hosted part) ∈ running') ∧
      ((afterCall ε hosted part).party.terminated ε = true →
        state'.completed.has name = true) := by
  cases hturned with
  | passes hover => exact nomatch hlive.symm.trans hover
  | round _ hround =>
    obtain ⟨hserves, hacts⟩ := hround
    refine ⟨_, .of_mem hserves.enters hserves.replies hmem, fun hruns => ?_, fun hends => ?_⟩
    · have hkept := hserves.mem_running.2 ⟨hruns, hosted, hmem, rfl⟩
      exact (mem_startAll hacts.new.1).2 (.inr hkept)
    · refine (hserves.taken (List.mem_map_of_mem hmem)).resolve_left fun hkept => ?_
      obtain ⟨⟨_, hosted'⟩, hentry, rfl⟩ := List.mem_map.1 hkept
      obtain ⟨hruns, before, hbefore, rfl⟩ := hserves.mem_running.1 hentry
      obtain rfl := (Prod.mk.inj (List.inj_on_of_nodup_map h.nodup hbefore hmem rfl)).2
      exact nomatch hruns.symm.trans hends

/-- What is started has not been called, and is there for the next round. -/
theorem Turned.started (hturned : Turned ε state running incoming message state' running')
    (hstarts : Starts ε (.host state running) incoming name hosted) :
    isOver state running = false ∧ name ∉ running.map Prod.fst ∧
      (name, hosted) ∈ running' ∧ state'.started = true ∧ state'.round = state.round + 2 := by
  cases hstarts with
  | intro hprepare hok hstarted =>
    cases hturned with
    | passes hover =>
      rw [prepare, if_pos hover] at hprepare
      cases hprepare
    | round hlive hround =>
      obtain ⟨hbegun, hcount⟩ := hround.started_round
      obtain ⟨hserves, hacts⟩ := hround
      have hnew := hacts.new.1
      rw [hserves.prepare] at hprepare
      cases hacts with
      | rests hresting =>
        rw [hserves.terminateRequested] at hresting
        rw [hresting, if_pos rfl] at hprepare
        cases hprepare
      | asks hasked _ =>
        rw [hserves.terminateRequested] at hasked
        rw [hasked, if_neg Bool.false_ne_true] at hprepare
        obtain rfl := Except.ok.inj hprepare
        have hname := List.mem_map_of_mem (f := Prod.fst) hstarted
        refine ⟨hlive, fun hmem => ?_, (mem_startAll hnew).2 (.inl hstarted), hbegun, hcount⟩
        rcases hserves.taken hmem with hkept | hcompleted
        · exact hnew.not_running name hname hkept
        · cases (hnew.not_completed name hname).symm.trans hcompleted

end

section

variable {B M : Type} [Interactive B ε] [HostLogic M B ε]

/-- In turn number `t` the sender is called on `earlier` and goes on as `sender'`; next the
receiver is called on the `message`. -/
structure Relays (ε : Type) [Interactive A ε] [HostLogic L A ε] [Interactive B ε] [HostLogic M B ε]
    (t : Nat) (sender : Party A L) (earlier : Option Payload) (sender' : Party A L)
    (receiver : Party B M) (message : Option Payload) : Prop where
  /-- The rounds of the two sides count the turns. -/
  sender_round : sender.terminated ε = false → sender.round = t
  receiver_round : receiver.terminated ε = false → receiver.round = t + 1
  /-- No two sub-protocols have one name. -/
  distinct : (receiver.running.map Prod.fst).Nodup
  /-- A sub-protocol that is called is called on the answer of its namesake. -/
  input : ∀ name hosted part, SubCall ε receiver message name hosted part →
    ∀ reply, Answers ε sender earlier name reply ↔ reply = part
  /-- No answer comes under the name for the values of the mailbox. -/
  mailbox : ∀ reply, Answers ε sender earlier Host.mailboxKey reply → reply = none
  /-- Unless the turn fails, each sub-protocol is called, and goes on as the call leaves it
  or has completed. -/
  called : receiver.terminated ε = false → ∀ taken : Step (Party B M) ε,
    Execution.turn ε receiver message = taken → (∃ reply, taken.reply = .ok reply) →
    ∀ name hosted, (name, hosted) ∈ receiver.running →
      ∃ part, SubCall ε receiver message name hosted part ∧
        ((afterCall ε hosted part).party.terminated ε = false →
          (name, afterCall ε hosted part) ∈ taken.next.running) ∧
        ((afterCall ε hosted part).party.terminated ε = true →
          taken.next.completed.has name = true)
  /-- An answer for a sub-protocol that is not running fails the receiver, … -/
  refused : ∀ name payload, Answers ε sender earlier name (some payload) →
    receiver.terminated ε = false → name ∉ receiver.running.map Prod.fst →
    (receiver.completed.has name = true → payload ≠ .emptyMap) →
    ∃ cause, (step receiver message : Step (Party B M) ε).reply = .error cause
  /-- … but an empty table for one that has completed could as well be missing. -/
  dropped : ∀ name, Answers ε sender earlier name (some .emptyMap) →
    receiver.completed.has name = true → ∃ entries, message = some (.map entries) ∧
      (step receiver (some (.map (Table.erase entries name))) : Step (Party B M) ε) =
        step receiver message
  /-- What is started in the round is called for the first time in the next round of its
  side. -/
  started : ∀ name hosted, Starts ε sender earlier name hosted →
    (∀ hosted' part, ¬SubCall ε sender earlier name hosted' part) ∧ sender.round = t ∧
      (name, hosted) ∈ sender'.running ∧ sender'.round = t + 2 ∧ ∀ later reply,
        (Execution.turn ε sender' later : Step (Party A L) ε).reply = .ok reply →
        ∃ part, SubCall ε sender' later name hosted part

variable {state state' : Host L} {running running' : List (String × Hosted (Party A L))}
  {incoming message : Option Payload}

/-- A turn of one of two paired hosts relays its answers to the other. -/
theorem Relays.of_turned {t : Nat} {waiting : Host M} {others : List (String × Hosted (Party B M))}
    (hpaired : Paired t state running incoming waiting others)
    (hturned : Turned ε state running incoming message state' running') :
    Relays ε t (.host state running) incoming (.host state' running') (.host waiting others)
      message := by
  have hnext := hpaired.turned hturned
  have hover : (Party.host waiting others).terminated ε = isOver waiting others :=
    hpaired.waiter.terminated_eq
  constructor
  case sender_round =>
    rw [hpaired.mover.terminated_eq]
    exact hpaired.mover_round
  case receiver_round =>
    rw [hover]
    exact hpaired.waiter_round
  case distinct => exact hpaired.waiter.nodup
  case input =>
    intro name hosted part hcall reply
    obtain ⟨hmem, rfl⟩ := hcall.part_eq hpaired.waiter
    exact hturned.answers_iff hpaired.mover
      (hpaired.waiter.ne_mailboxKey (List.mem_map_of_mem hmem)) reply
  case mailbox => exact fun reply => hpaired.mover.mailbox_unanswered
  case called =>
    rintro hlive _ rfl ⟨reply, hreply⟩ name hosted hmem
    rw [hover] at hlive
    obtain ⟨_, _, heq, hturned'⟩ := turn_eq_ok hpaired.waiter hnext.awake hreply
    rw [heq]
    exact hturned'.called hpaired.waiter hlive hmem
  case refused =>
    intro name payload hanswers hlive hnot hpayload
    rw [hover] at hlive
    obtain ⟨hname, entries, rfl, hmem, -⟩ := hturned.of_answers hpaired.mover hanswers
    obtain ⟨cause, hcause⟩ := exists_refuse_of_mem (ε := ε) hlive hmem hname hnot hpayload
    exact ⟨_, hcause⟩
  case dropped =>
    intro name hanswers hcompleted
    obtain ⟨hname, entries, rfl, -, hall⟩ := hturned.of_answers hpaired.mover hanswers
    exact ⟨entries, rfl, step_erase hname hcompleted hall⟩
  case started =>
    intro name hosted hstarts
    obtain ⟨hlive, hnot, hmem, hbegun, hcount⟩ := hturned.started hstarts
    have hround : state.round = t := hpaired.mover_round hlive
    refine ⟨fun hosted' part hcall => hnot ?_, hround, hmem, hround ▸ hcount, ?_⟩
    · exact List.mem_map_of_mem (hcall.part_eq hpaired.mover).1
    · intro later reply hreply
      obtain ⟨_, _, -, hturned'⟩ :=
        turn_eq_ok hnext.waiter (idles_of_started hbegun later) hreply
      obtain ⟨part, hcall, -⟩ :=
        hturned'.called hnext.waiter (hnext.waiter.isOver_eq_false hmem) hmem
      exact ⟨part, hcall⟩

end

end Party

namespace Execution

open Party

variable {A L B M ε : Type} [Interactive A ε] [HostLogic L A ε] [Interactive B ε] [HostLogic M B ε]

/-- Sub-protocols are relayed: nothing is called in the first turn of all, and whenever a
turn does not fail, what the sub-protocols of the one side have answered is what those of
the same names on the other side are called on in the turn after it. -/
theorem relays_of_reaches (first : L) (second : M) :
    (∀ name hosted part, ¬SubCall ε (ofLogic first true : Party A L) none name hosted part) ∧
    ∀ x y : Execution (Party A L) (Party B M),
      Reaches ε (.new (ofLogic first true) (ofLogic second false)) x → x.finished ε = false →
      (x.advance ε).1 = .ok () → (x.advance ε).2.2 = y →
      y.firstMoves = !x.firstMoves ∧
      (x.firstMoves = true → Relays ε x.steps x.first x.message y.first y.second y.message) ∧
      (x.firstMoves = false → Relays ε x.steps x.second x.message y.second y.first y.message) := by
  constructor
  · intro name hosted part hcall
    exact absurd hcall.exists_enters.1 List.not_mem_nil
  · rintro x _ hreaches - hturn rfl
    have hturns := (hreaches.lockstep (.new first second)).turns hturn
    generalize (x.advance ε).2.2 = y at hturns
    cases hturns with
    | first hpaired hturned => exact ⟨rfl, fun _ => .of_turned hpaired hturned, nofun⟩
    | second hpaired hturned => exact ⟨rfl, nofun, fun _ => .of_turned hpaired hturned⟩

/-- The hypotheses are satisfiable: each side starts a sub-protocol in its first round, and
in the turn after the two the first answers the empty table, on which the second is called. -/
theorem relays_of_reaches_parents :
    ∃ x y : Execution (Party (Role Ristretto) (Script Ristretto))
        (Party (Role Ristretto) (Script Ristretto)),
      Reaches (ScriptEvent Ristretto)
        (.new (parent true "inner" (idler true) 4) (parent false "inner" (idler false) 5)) x ∧
      x.firstMoves = true ∧ partOf y.message "inner" = some .emptyMap ∧
      y.second.running.map Prod.fst = ["inner"] ∧
      Relays (ScriptEvent Ristretto) x.steps x.first x.message y.first y.second y.message := by
  have hreaches : Reaches (ScriptEvent Ristretto)
      (.new (parent true "inner" (idler true) 4) (parent false "inner" (idler false) 5)) _ :=
    .turn (by decide +kernel) (by decide +kernel)
      (.turn (by decide +kernel) (by decide +kernel) (.refl _))
  obtain ⟨-, hrelays⟩ := relays_of_reaches (A := Role Ristretto) (B := Role Ristretto)
    (ε := ScriptEvent Ristretto)
    (⟨"parent", [(0, [starting "inner" (idler true)]), (4, [stopping])], []⟩ : Script Ristretto)
    (⟨"parent", [(1, [starting "inner" (idler false)]), (5, [stopping])], []⟩ : Script Ristretto)
  obtain ⟨-, hfirst, -⟩ := hrelays _ _ hreaches (by decide +kernel) (by decide +kernel) rfl
  refine ⟨_, _, hreaches, ?_, ?_, ?_, hfirst ?_⟩
  all_goals decide +kernel

end Execution
end ThreeMove

/-
# Rounds that succeed

A call of a host that succeeds is a call in which it only waits, or a round
(`Party.step_eq_ok`).  In a round every sub-protocol is called once, on the part of the
message under its name (`Party.SubCall.of_mem`); those not at their end run on as the call
leaves them; the logic does its part, where it has not asked to terminate; and the message
is made up of the answers and of what the logic sent (`Party.Completes`).  The names of
sub-protocols are those that logic may give them, each stands for one, and no round that
succeeds changes this (`Party.Orderly.completes`).
-/

import ThreeMove.Proofs.Session.Roster

namespace ThreeMove

namespace RoundState

variable {P : Type} {context context' : RoundState P}

/-- What is started has a name that may be given. -/
theorem checkName_of_start {name : String} {hosted : Hosted P}
    (h : context.start name hosted = .ok context') : checkName name = .ok () := by
  obtain ⟨_, hname, -⟩ := bind_eq_ok.1 h
  exact hname

/-- The key of the mailbox is no name that may be given. -/
theorem checkName_mailboxKey :
    checkName Host.mailboxKey = .error (.reservedIdentifier Host.mailboxKey) :=
  if_pos (by decide +kernel)

/-- Sub-protocols are started under names that are for the logic. -/
theorem checkName_of_mem_started {ε α : Type} (program : RoundProgram P ε α)
    (hstarted : context.started = []) :
    ∀ name ∈ (program.run context).2.2.started.map Prod.fst, checkName name = .ok () := by
  refine RoundProgram.run_keeps (Q := fun later : RoundState P =>
    ∀ name ∈ later.started.map Prod.fst, checkName name = .ok ()) ?_ ?_ ?_ ?_ program ?_
  · intro before after id value h hsend
    obtain rfl := send_eq_ok hsend
    exact h
  · intro before after id value h hreceive
    obtain rfl := receive_eq_ok hreceive
    exact h
  · intro before after name hosted h hstart
    have hname := checkName_of_start hstart
    obtain ⟨-, -, rfl⟩ := start_eq_ok hstart
    rw [List.map_append, List.map_singleton, List.forall_mem_append, List.forall_mem_singleton]
    exact ⟨h, hname⟩
  · exact fun h => h
  · rw [hstarted]
    exact fun _ h => absurd h List.not_mem_nil

end RoundState

namespace Party

/-- What stands in a message under a name. -/
def partOf (message : Option Payload) (name : String) : Option Payload :=
  match message with
  | some (.map entries) => Table.find? entries name
  | _ => none

/-- The part of a message under a name is the entry there. -/
theorem partOf_of_entriesOf {incoming : Option Payload} {entries : Table Payload}
    (h : Host.entriesOf incoming = .ok entries) (name : String) :
    partOf incoming name = entries.find? name := by
  cases incoming with
  | none =>
    obtain rfl := Except.ok.inj h
    rfl
  | some message =>
    cases message with
    | map entries' =>
      obtain rfl := Except.ok.inj h
      rfl
    | _ => exact nomatch h

/-- A message with a part is a map with an entry. -/
theorem exists_of_partOf_eq_some {message : Option Payload} {name : String} {part : Payload}
    (h : partOf message name = some part) :
    ∃ entries, message = some (.map entries) ∧ Table.find? entries name = some part := by
  unfold partOf at h
  split at h
  · rename_i entries
    exact ⟨entries, rfl, h⟩
  · exact nomatch h

variable {A L ε : Type} [Interactive A ε]

/-- Where none is rejected, those that are not at their end run on. -/
theorem retire_eq_ok {running kept : List (String × Hosted (Party A L))}
    {completed completed' : Table (Option Bool)}
    (h : retire ε running completed = (.ok (), kept, completed')) :
    kept = running.filter fun entry => !entry.2.party.terminated ε := by
  have hkept : (retire ε running completed).1 = .ok () → (retire ε running completed).2.1 =
      running.filter fun entry => !entry.2.party.terminated ε := by
    refine retire_induction (motive := fun (running : List (String × Hosted (Party A L))) _ out =>
      out.1 = .ok () → out.2.1 = running.filter fun entry => !entry.2.party.terminated ε)
      ?nil ?rejects ?completes ?runs running completed
    case nil => exact fun _ _ => rfl
    case rejects => exact fun _ _ _ _ _ h => nomatch h
    case completes =>
      intro name hosted running completed out hterminated _ ih hok
      rw [List.filter_cons_of_neg (by simp [hterminated])]
      exact ih hok
    case runs =>
      intro name hosted running completed hterminated ih hok
      rw [List.filter_cons_of_pos (by simp [hterminated])]
      exact congrArg _ (ih hok)
  rw [h] at hkept
  exact hkept rfl

variable [HostLogic L A ε]

/-! ### The sub-protocols of a round -/

section

variable {running before after : List (String × Hosted (Party A L))} {parts replies : Table Payload}

/-- What each sub-protocol answers stands under its name, and nothing else does. -/
theorem stepEach_eq_ok (hnodup : (running.map Prod.fst).Nodup)
    (h : (stepEach running parts : Dispatch (Party A L) ε).replies = .ok replies) :
    (replies.map Prod.fst).Sublist (running.map Prod.fst) ∧
      ∀ entry ∈ running, (step entry.2.party (parts.find? entry.1) : Step (Party A L) ε).reply =
        .ok (replies.find? entry.1) := by
  induction running generalizing replies with
  | nil =>
    obtain rfl := Except.ok.inj h
    exact ⟨.refl _, fun _ hmem => absurd hmem List.not_mem_nil⟩
  | cons entry rest ih =>
    obtain ⟨name, hosted⟩ := entry
    obtain ⟨hname, hnodup⟩ := List.nodup_cons.1 hnodup
    obtain ⟨reply, others, hreply, hothers, rfl⟩ := stepEach_cons_eq_ok.1 h
    obtain ⟨hsublist, hrest⟩ := ih hnodup hothers
    cases reply with
    | none =>
      have hnone : Table.find? others name = none :=
        Table.find?_eq_none fun hmem => hname (hsublist.subset hmem)
      exact ⟨hsublist.cons _, List.forall_mem_cons.2 ⟨hreply.trans (congrArg _ hnone.symm), hrest⟩⟩
    | some payload =>
      refine ⟨hsublist.cons_cons _, List.forall_mem_cons.2 ⟨?_, fun entry hentry => ?_⟩⟩
      · exact hreply.trans (congrArg _ (Table.find?_cons_self _ _ _).symm)
      · have hmem : entry.1 ∈ rest.map Prod.fst := List.mem_map_of_mem hentry
        have hne : entry.1 ≠ name := fun heq => hname (heq ▸ hmem)
        exact (hrest entry hentry).trans (congrArg _ (Table.find?_cons_of_ne hne _ _).symm)

/-- After calls that do not fail, each sub-protocol is as it is after its call. -/
theorem running_of_stepEach_eq_ok
    (h : (stepEach running parts : Dispatch (Party A L) ε).replies = .ok replies) :
    (stepEach running parts : Dispatch (Party A L) ε).running =
      running.map fun entry => (entry.1, afterCall ε entry.2 (parts.find? entry.1)) := by
  induction running generalizing replies with
  | nil => rfl
  | cons entry rest ih =>
    obtain ⟨name, hosted⟩ := entry
    obtain ⟨reply, others, hreply, hothers, -⟩ := stepEach_cons_eq_ok.1 h
    obtain ⟨notes, heq⟩ := stepEach_cons_of_ok rest hreply
    rw [heq]
    exact congrArg _ (ih hothers)

/-- Where all calls succeed, the first ones do. -/
theorem exists_replies_of_append
    (h : (stepEach (before ++ after) parts : Dispatch (Party A L) ε).replies = .ok replies) :
    ∃ replies', (stepEach before parts : Dispatch (Party A L) ε).replies = .ok replies' := by
  induction before generalizing replies with
  | nil => exact ⟨[], rfl⟩
  | cons entry before ih =>
    obtain ⟨name, hosted⟩ := entry
    obtain ⟨reply, others, hreply, hothers, -⟩ := stepEach_cons_eq_ok.1 h
    obtain ⟨replies', hreplies'⟩ := ih hothers
    exact ⟨_, stepEach_cons_eq_ok.2 ⟨reply, replies', hreply, hreplies', rfl⟩⟩

/-- Where no sub-protocol fails, each is called. -/
theorem SubCall.of_mem {state state' : Host L} {incoming : Option Payload}
    (henters : Enters state running incoming parts state')
    (hreplies : (stepEach running parts : Dispatch (Party A L) ε).replies = .ok replies)
    {name : String} {hosted : Hosted (Party A L)} (hmem : (name, hosted) ∈ running) :
    SubCall ε (.host state running) incoming name hosted (parts.find? name) := by
  obtain ⟨before, after, rfl⟩ := List.append_of_mem hmem
  obtain ⟨replies', hbefore⟩ := exists_replies_of_append hreplies
  exact .intro henters hbefore

/-- A sub-protocol that is called runs and gets its part, after the host has taken the message
in. -/
theorem SubCall.exists_enters {state : Host L} {incoming part : Option Payload} {name : String}
    {hosted : Hosted (Party A L)} (h : SubCall ε (.host state running) incoming name hosted part) :
    (name, hosted) ∈ running ∧ ∃ parts state', Enters state running incoming parts state' ∧
      part = parts.find? name := by
  cases h with
  | intro henters _ =>
    exact ⟨List.mem_append_right _ List.mem_cons_self, _, _, henters, rfl⟩

end

/-! ### The part of the logic -/

/-- What a round sends: the answers of the sub-protocols, and the values of the logic if
there are any. -/
def outgoing (replies outbox : Table Payload) : Table Payload :=
  if outbox.isEmpty then replies else Table.insert Host.mailboxKey (.map outbox) replies

/-- Under another name than the mailbox's, a reply holds what the sub-protocol replied. -/
theorem find?_outgoing (replies outbox : Table Payload) {name : String}
    (hname : name ≠ Host.mailboxKey) :
    (outgoing replies outbox).find? name = replies.find? name := by
  rw [outgoing]
  split
  · rfl
  · exact Table.find?_insert_of_ne _ _ hname

/-- No name stands twice in a reply. -/
theorem nodup_outgoing {replies : Table Payload} (outbox : Table Payload)
    (hnodup : (replies.map Prod.fst).Nodup) (hkey : Host.mailboxKey ∉ replies.map Prod.fst) :
    ((outgoing replies outbox).map Prod.fst).Nodup := by
  rw [outgoing]
  split
  · exact hnodup
  · exact ((Table.insert_perm hkey).map Prod.fst).nodup_iff.2 (List.nodup_cons.2 ⟨hkey, hnodup⟩)

/-- The logic does its part, if it has not asked to terminate: `logic` is left of it, and
`context` of what it was shown. -/
inductive Ready.Acts (ready : Ready A L ε) : (logic : L) → (context : RoundState (Party A L)) → Prop
  where
  | rests (hresting : ready.host.terminateRequested = true) :
      Acts ready ready.host.logic { ready.context with terminating := true }
  | asks (hasked : ready.host.terminateRequested = false) (hok : ready.answer.1.1 = .ok ()) :
      Acts ready ready.answer.1.2 ready.answer.2.2

/-- The host at the end of the round. -/
def Ready.ended (ready : Ready A L ε) (logic : L) (context : RoundState (Party A L)) : Host L :=
  { ready.host with
    logic := logic, inbox := context.inbox, terminateRequested := context.terminating,
    round := ready.host.round + 2 }

omit [Interactive A ε] in
/-- The logic starts sub-protocols under new names that are for it. -/
theorem Ready.Acts.new {ready : Ready A L ε} {logic : L} {context : RoundState (Party A L)}
    (h : ready.Acts logic context) :
    New context.started ready.running ready.host.completed ∧
      ∀ name ∈ context.started.map Prod.fst, RoundState.checkName name = .ok () := by
  cases h with
  | rests => exact ⟨new_nil, fun _ hmem => absurd hmem List.not_mem_nil⟩
  | asks =>
    exact ⟨ready.new_started, RoundState.checkName_of_mem_started ready.program rfl⟩

/-! ### Rounds -/

/-- The host takes the message in and calls its sub-protocols, no argument is rejected, and
the host is `ready` for the rest of the round. -/
structure Serves (state : Host L) (running : List (String × Hosted (Party A L)))
    (incoming : Option Payload) (parts : Table Payload) (ready : Ready A L ε) : Prop where
  enters : Enters state running incoming parts
    { state with started := true, inbox := ready.host.inbox }
  replies : (stepEach running parts : Dispatch (Party A L) ε).replies = .ok ready.replies
  retire : retire ε (stepEach running parts : Dispatch (Party A L) ε).running state.completed =
    (.ok (), ready.running, ready.host.completed)
  host : ready.host = { state with
    started := true, inbox := ready.host.inbox, completed := ready.host.completed }
  notes : ready.notes = (stepEach running parts : Dispatch (Party A L) ε).notes

/-- The host goes through a round: it sends the message, and goes on as `state'` with
`running'`. -/
inductive Completes (ε : Type) [Interactive A ε] [HostLogic L A ε] (state : Host L)
    (running : List (String × Hosted (Party A L))) (incoming : Option Payload) :
    (message : Table Payload) → (state' : Host L) →
      (running' : List (String × Hosted (Party A L))) → Prop where
  | intro {parts : Table Payload} {ready : Ready A L ε} {logic : L}
      {context : RoundState (Party A L)} (hserves : Serves state running incoming parts ready)
      (hacts : ready.Acts logic context) :
      Completes ε state running incoming (outgoing ready.replies context.outbox)
        (ready.ended logic context) (startAll context.started ready.running)

section

variable {state state' : Host L} {running running' : List (String × Hosted (Party A L))}
  {incoming message : Option Payload} {entries parts : Table Payload} {ready : Ready A L ε}

/-- Preparing the round does not ask to terminate. -/
theorem Serves.terminateRequested (h : Serves state running incoming parts ready) :
    ready.host.terminateRequested = state.terminateRequested := by
  rw [h.host]

/-- Those run on that are not at their end, each as its call leaves it. -/
theorem Serves.mem_running (h : Serves state running incoming parts ready) {name : String}
    {hosted' : Hosted (Party A L)} : (name, hosted') ∈ ready.running ↔
      hosted'.party.terminated ε = false ∧
        ∃ hosted, (name, hosted) ∈ running ∧ afterCall ε hosted (parts.find? name) = hosted' := by
  rw [retire_eq_ok h.retire, running_of_stepEach_eq_ok h.replies, List.mem_filter, List.mem_map,
    and_comm, Bool.not_eq_true']
  refine and_congr_right fun _ => ⟨?_, ?_⟩
  · rintro ⟨⟨_, hosted⟩, hmem, heq⟩
    obtain ⟨rfl, rfl⟩ := Prod.mk.inj heq
    exact ⟨hosted, hmem, rfl⟩
  · rintro ⟨hosted, hmem, rfl⟩
    exact ⟨(name, hosted), hmem, rfl⟩

/-- Where the logic has not asked to terminate, it is asked; where it has, the answers of
the sub-protocols end the round. -/
theorem Serves.prepare (h : Serves state running incoming parts ready) :
    (Party.prepare state running incoming : Except (Step (Party A L) ε) (Ready A L ε)) =
      if state.terminateRequested then
        .error (finishRound ready.replies [] ready.notes (.host ready.host ready.running))
      else .ok ready := by
  obtain ⟨henters, hreplies, hretire, hhost, hnotes⟩ := h
  rw [henters.prepare, settle, hreplies]
  dsimp only
  rw [hretire]
  dsimp only
  rw [← hhost, ← hnotes]

/-- What is left of a round once the sub-protocols have answered. -/
theorem Serves.step_eq_ok (h : Serves state running incoming parts ready)
    (hok : (step (.host state running) incoming : Step (Party A L) ε).reply = .ok message) :
    ∃ logic context, ready.Acts logic context ∧
      message = some (.map (outgoing ready.replies context.outbox)) ∧
      (step (.host state running) incoming : Step (Party A L) ε).next =
        .host (ready.ended logic context) (startAll context.started ready.running) := by
  rw [step_host, h.prepare] at hok ⊢
  cases hasked : state.terminateRequested with
  | true =>
    rw [hasked] at hok
    have hresting : ready.host.terminateRequested = true := h.terminateRequested.trans hasked
    refine ⟨_, _, .rests hresting, (Except.ok.inj hok).symm, ?_⟩
    simp [finishRound, Ready.ended, Ready.context, startAll, hresting]
  | false =>
    rw [hasked] at hok
    rw [if_neg Bool.false_ne_true] at hok ⊢
    dsimp only at hok ⊢
    rw [Ready.finish_eq] at hok ⊢
    split at hok
    · cases hok
    · rename_i hanswer
      exact ⟨_, _, .asks (h.terminateRequested.trans hasked) hanswer, (Except.ok.inj hok).symm, rfl⟩

/-- A host that has gone through a round has started, and its next round is two further. -/
theorem Completes.started_round (h : Completes ε state running incoming entries state' running') :
    state'.started = true ∧ state'.round = state.round + 2 := by
  cases h with
  | intro hserves _ =>
    rw [Ready.ended, hserves.host]
    exact ⟨rfl, rfl⟩

/-- A call that goes well is one in which the host only waits, or a round. -/
theorem step_eq_ok (h : (step (.host state running) incoming : Step (Party A L) ε).reply =
      .ok message) :
    (state.idles incoming = true ∧ message = none ∧
      (step (.host state running) incoming : Step (Party A L) ε).next = .host state running) ∨
    ∃ entries state' running', message = some (.map entries) ∧
      (step (.host state running) incoming : Step (Party A L) ε).next = .host state' running' ∧
      Completes ε state running incoming entries state' running' := by
  have hstep := h
  rw [step] at hstep
  split at hstep
  · cases hstep
  rename_i hlive
  split at hstep
  · rename_i hidles
    have hwaits : (step (.host state running) incoming : Step (Party A L) ε) =
        .silent (.ok none) (.host state running) := by
      rw [step, if_neg hlive, if_pos hidles]
    rw [hwaits]
    exact .inl ⟨hidles, (Except.ok.inj hstep).symm, rfl⟩
  rename_i hawake
  dsimp only at hstep
  split at hstep
  · cases hstep
  rename_i parts entered hintake
  have henters : Enters state running incoming parts entered :=
    ⟨Bool.eq_false_iff.2 hlive, Bool.eq_false_iff.2 hawake, hintake⟩
  obtain ⟨entries, inbox, -, -, -, -, rfl⟩ := Host.intake_eq_ok.1 hintake
  rw [conclude] at hstep
  split at hstep
  · cases hstep
  rename_i replies hreplies
  rcases hretire : retire ε (stepEach running parts : Dispatch (Party A L) ε).running
      state.completed with ⟨result, kept, completed⟩
  cases result with
  | error cause =>
    rw [hretire] at hstep
    cases hstep
  | ok done =>
    have hserves : Serves state running incoming parts
        (⟨{ state with started := true, inbox := inbox, completed := completed }, kept, replies,
          (stepEach running parts : Dispatch (Party A L) ε).notes⟩ : Ready A L ε) :=
      ⟨henters, hreplies, hretire, rfl, rfl⟩
    obtain ⟨logic, context, hacts, rfl, hnext⟩ := hserves.step_eq_ok h
    exact .inr ⟨_, _, _, rfl, hnext, .intro hserves hacts⟩

/-! ### From round to round -/

/-- The sub-protocols of a host have names of their own, which logic may give, and the host
goes on. -/
structure Orderly (state : Host L) (running : List (String × Hosted (Party A L))) : Prop where
  distinct : Distinct (roster running) state.completed
  allowed : ∀ name ∈ running.map Prod.fst, RoundState.checkName name = .ok ()
  live : state.failed = false
  started : state.terminateRequested = true → state.started = true

/-- The sub-protocols of a host have different names. -/
theorem Orderly.nodup (h : Orderly state running) : (running.map Prod.fst).Nodup := by
  rw [← fst_roster]
  exact h.distinct.nodup

/-- No verdict is recorded under the name of what is running. -/
theorem Orderly.not_completed (h : Orderly state running) {name : String}
    (hname : name ∈ running.map Prod.fst) : state.completed.has name = false := by
  rw [← fst_roster] at hname
  exact h.distinct.fresh name hname

/-- No sub-protocol has the name of the mailbox. -/
theorem Orderly.ne_mailboxKey (h : Orderly state running) {name : String}
    (hname : name ∈ running.map Prod.fst) : name ≠ Host.mailboxKey := by
  rintro rfl
  exact nomatch (h.allowed _ hname).symm.trans RoundState.checkName_mailboxKey

/-- No sub-protocol answers under the name for the values of the mailbox. -/
theorem Orderly.mailboxKey_not_mem (h : Orderly state running)
    (hserves : Serves state running incoming parts ready) :
    Host.mailboxKey ∉ ready.replies.map Prod.fst := fun hmem =>
  h.ne_mailboxKey ((stepEach_eq_ok h.nodup hserves.replies).1.subset hmem) rfl

/-- A host with a sub-protocol that is running takes messages. -/
theorem Orderly.isOver_eq_false (h : Orderly state running) {entry : String × Hosted (Party A L)}
    (hmem : entry ∈ running) : isOver state running = false := by
  cases running with
  | nil => exact absurd hmem List.not_mem_nil
  | cons _ _ => rw [isOver, h.live, List.isEmpty_cons, Bool.and_false, Bool.false_or]

/-- A new host is orderly. -/
theorem Orderly.new (logic : L) (sendsFirst : Bool) :
    Orderly (Host.new logic sendsFirst) ([] : List (String × Hosted (Party A L))) :=
  ⟨⟨List.nodup_nil, fun _ h => absurd h List.not_mem_nil⟩, fun _ h => absurd h List.not_mem_nil,
    rfl, nofun⟩

/-- A host stays orderly through a round. -/
theorem Orderly.completes (h : Orderly state running)
    (hround : Completes ε state running incoming entries state' running') :
    Orderly state' running' := by
  have hstarted := hround.started_round.1
  cases hround with
  | intro hserves hacts =>
    rename_i parts ready logic context
    obtain ⟨hnew, hallowed⟩ := hacts.new
    have hkept : Distinct (roster ready.running) ready.host.completed := by
      have hcalled : Distinct (roster (stepEach running parts : Dispatch (Party A L) ε).running)
          state.completed := by
        rw [roster_stepEach]
        exact h.distinct
      have hretired := hcalled.retire (ε := ε)
      rw [hserves.retire] at hretired
      exact hretired
    refine ⟨hkept.startAll hnew, fun name hname => ?_, ?_, fun _ => hstarted⟩
    · obtain ⟨⟨other, hosted⟩, hmem, rfl⟩ := List.mem_map.1 hname
      rcases (mem_startAll hnew).1 hmem with hstarted | hkept
      · exact hallowed _ (List.mem_map_of_mem hstarted)
      · obtain ⟨-, before, hbefore, -⟩ := hserves.mem_running.1 hkept
        have hother : other ∈ running.map Prod.fst := List.mem_map_of_mem hbefore
        exact h.allowed other hother
    · rw [Ready.ended, hserves.host]
      exact h.live

end

end Party
end ThreeMove

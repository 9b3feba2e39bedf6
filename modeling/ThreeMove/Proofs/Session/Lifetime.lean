/-
# What holds of a host as long as it lives

Names move between what the logic starts, what is running and what has completed, while the
messages that are dispatched by them come from the other side.  A call either settles
everything without the logic, or leaves the host ready for it (`Party.prepare_settled`); in
both cases names are lost only where the host fails, and new ones come from the logic alone.
`Party.Sound` says what follows for the names, the rounds and the messages sent so far, and
every call keeps to it (`Party.Sound.step`).

So no name is given twice, no request to terminate is withdrawn, and the round tells the
number of messages (`Party.host_sound`).
-/

import ThreeMove.Proofs.Session.Course
import ThreeMove.Proofs.Session.Rounds

namespace ThreeMove

/-- A name for the logic is not empty and does not begin with two underscores. -/
theorem RoundState.of_checkName_eq_ok {name : String} (h : checkName name = .ok ()) :
    name ≠ "" ∧ "__".isPrefixOf name = false := by
  rw [checkName] at h
  split at h
  · exact nomatch h
  · rename_i hname
    rw [Bool.or_eq_true, not_or, Bool.not_eq_true, Bool.not_eq_true] at hname
    refine ⟨?_, hname.2⟩
    rintro rfl
    exact nomatch hname.1

namespace Party

variable {A L ε : Type}

/-! ### A call that does not come to the logic -/

/-- Up to the logic, a host stays what it is, its names are those it had, and unless it has
failed they all are. -/
structure Carries (state : Host L) (running : List (String × Hosted (Party A L)))
    (state' : Host L) (running' : List (String × Hosted (Party A L))) : Prop where
  sendsFirst : state'.sendsFirst = state.sendsFirst
  round : state'.round = state.round
  requested : state'.terminateRequested = state.terminateRequested
  failed : state.failed = true → state'.failed = true
  distinct : Distinct (roster running') state'.completed
  old : ∀ name, Taken name (roster running') state'.completed →
    Taken name (roster running) state.completed
  kept : state'.failed = false → ∀ name, Taken name (roster running) state.completed →
    Taken name (roster running') state'.completed

variable [Interactive A ε]

/-- What a call comes to before the logic is asked: nothing is sent; or the answers of the
sub-protocols are, as the logic has asked to terminate; or the logic has its part. -/
inductive Settled (state : Host L) (running : List (String × Hosted (Party A L))) :
    Except (Step (Party A L) ε) (Ready A L ε) → Prop where
  | silent {taken : Step (Party A L) ε} {state' : Host L}
      {running' : List (String × Hosted (Party A L))} (hnext : taken.next = .host state' running')
      (hreply : Course.message? taken.reply = none) (h : Carries state running state' running') :
      Settled state running (.error taken)
  | finishes {replies : Table Payload} {notes : List ε} {state' : Host L}
      {running' : List (String × Hosted (Party A L))}
      (hkeys : ∀ name ∈ replies.map Prod.fst, name ∈ running.map Prod.fst)
      (h : Carries state running state' running') :
      Settled state running (.error (finishRound replies [] notes (.host state' running')))
  | asks {ready : Ready A L ε}
      (hkeys : ∀ name ∈ ready.replies.map Prod.fst, name ∈ running.map Prod.fst)
      (hasked : state.terminateRequested = false) (hlive : ready.host.failed = false)
      (h : Carries state running ready.host ready.running) : Settled state running (.ok ready)

section

variable {state : Host L} {running called : List (String × Hosted (Party A L))}

omit [Interactive A ε] in
/-- Where no sub-protocol is retired, all names stay. -/
theorem Carries.of_roster (h : Distinct (roster running) state.completed)
    (hroster : roster called = roster running) (started failed : Bool) (inbox : Table Payload)
    (hfailed : state.failed = true → failed = true) :
    Carries state running { state with started := started, inbox := inbox, failed := failed }
      called where
  sendsFirst := rfl
  round := rfl
  requested := rfl
  failed := hfailed
  distinct := hroster ▸ h
  old _ htaken := hroster ▸ htaken
  kept _ _ htaken := hroster.symm ▸ htaken

/-- Names that are retired stay taken, unless an argument is rejected. -/
theorem Carries.of_retire (h : Distinct (roster running) state.completed)
    (hroster : roster called = roster running) {result : Except Error Unit}
    {kept : List (String × Hosted (Party A L))} {completed : Table (Option Bool)}
    (hretire : retire ε called state.completed = (result, kept, completed))
    (started failed : Bool) (inbox : Table Payload)
    (hfailed : state.failed = true → failed = true) (hok : failed = false → result = .ok ()) :
    Carries state running { state with
      started := started, inbox := inbox, completed := completed, failed := failed } kept where
  sendsFirst := rfl
  round := rfl
  requested := rfl
  failed := hfailed
  distinct := by
    have hretired := Distinct.retire (ε := ε) (hroster ▸ h)
    rw [hretire] at hretired
    exact hretired
  old name htaken := by
    obtain ⟨hsublist, hcompleted⟩ := retire_names (ε := ε) called state.completed
    rw [hretire] at hsublist hcompleted
    rw [← hroster]
    rcases htaken with hname | hname
    · exact .inl ((hsublist.map Prod.fst).subset hname)
    · exact hcompleted name hname
  kept hlive name htaken := by
    have hcalled : Taken name (roster called) state.completed := hroster ▸ htaken
    have hretired := hcalled.retire (ε := ε) ((congrArg Prod.fst hretire).trans (hok hlive))
    rw [hretire] at hretired
    exact hretired

variable [HostLogic L A ε]

/-- What a call comes to before the logic is asked, whatever the message is. -/
theorem prepare_settled (h : Distinct (roster running) state.completed)
    (incoming : Option Payload) :
    Settled state running
      (prepare state running incoming : Except (Step (Party A L) ε) (Ready A L ε)) := by
  have hnodup : (running.map Prod.fst).Nodup := fst_roster running ▸ h.nodup
  rw [prepare]
  split
  · exact .silent rfl rfl (.of_roster h rfl state.started state.failed state.inbox id)
  rename_i hover
  rw [isOver, Bool.or_eq_true, not_or, Bool.not_eq_true] at hover
  split
  · exact .silent rfl rfl (.of_roster h rfl state.started state.failed state.inbox id)
  split
  · rename_i cause state' hintake
    obtain ⟨inbox, rfl⟩ := Host.exists_inbox hintake
    exact .silent rfl rfl (.of_roster h rfl true true inbox fun _ => rfl)
  · rename_i parts state' hintake
    obtain ⟨entries, inbox, -, -, -, -, rfl⟩ := Host.intake_eq_ok.1 hintake
    have hroster := roster_stepEach (ε := ε) running parts
    rw [settle]
    split
    · rename_i cause hreplies
      cases cause with
      | error error => exact .silent rfl rfl (.of_roster h hroster true true inbox fun _ => rfl)
      | abort abort => exact .silent rfl rfl (.of_roster h hroster true state.failed inbox id)
    · rename_i replies hreplies
      have hkeys : ∀ name ∈ replies.map Prod.fst, name ∈ running.map Prod.fst :=
        (stepEach_eq_ok hnodup hreplies).1.subset
      split
      · rename_i cause kept completed hretire
        exact .silent rfl rfl (.of_retire h hroster hretire true true inbox (fun _ => rfl)
          fun hlive => absurd hlive.symm Bool.false_ne_true)
      · rename_i kept completed hretire
        have hcarries := Carries.of_retire h hroster hretire true state.failed inbox id fun _ => rfl
        split
        · exact .finishes hkeys hcarries
        · rename_i hasked
          exact .asks hkeys (Bool.eq_false_iff.2 hasked) hover.1 hcarries

/-! ### The part of the logic -/

/-- What the logic has made of its part: nothing, where it broke off. -/
def Ready.acted (ready : Ready A L ε) : Option (RoundState (Party A L)) :=
  match ready.answer.1.1 with
  | .error (.abort _) => none
  | _ => some ready.answer.2.2

variable (ε) in
/-- What the logic has made of its part of a call, if it had one. -/
def acted : Party A L → Option Payload → Option (RoundState (Party A L))
  | .atom _, _ => none
  | .host state running, incoming =>
    match (prepare state running incoming : Except (Step (Party A L) ε) (Ready A L ε)) with
    | .error _ => none
    | .ok ready => ready.acted

/-- What the logic has made of its part is what its requests have left, answered on what it was
shown. -/
theorem exists_ready_of_acted {incoming : Option Payload} {context : RoundState (Party A L)}
    (h : acted ε (.host state running) incoming = some context) :
    ∃ ready : Ready A L ε, prepare state running incoming = .ok ready ∧
      context = (RoundProgram.run (ε := ε) (HostLogic.act ready.host.logic ready.host.round)
        ready.context).2.2 := by
  rw [acted] at h
  split at h
  · exact nomatch h
  · rename_i ready hprepare
    rw [Ready.acted] at h
    refine ⟨ready, hprepare, ?_⟩
    split at h
    · exact nomatch h
    · exact (Option.some.inj h).symm

/-- The names that the logic was given for sub-protocols. -/
def namesGiven (context : Option (RoundState (Party A L))) : List String :=
  context.elim [] fun context => context.started.map Prod.fst

variable (ε) in
/-- A call without the notes. -/
def call (party : Party A L) (incoming : Option Payload) :
    Except Failure (Option Payload) × Party A L :=
  let taken : Step (Party A L) ε := step party incoming
  (taken.reply, taken.next)

variable (ε) in
/-- The names that the logic is given for sub-protocols over some calls. -/
def namesOver : Party A L → List (Option Payload) → List String :=
  Course.collect (call ε) fun party incoming => namesGiven (acted ε party incoming)

/-- What holds of a host after some calls, in which its logic was given names and messages
were sent. -/
structure Sound (first : Bool) (names : List String) (messages : List Payload)
    (state : Host L) (running : List (String × Hosted (Party A L))) : Prop where
  distinct : Distinct (roster running) state.completed
  nodup : names.Nodup
  allowed : ∀ name ∈ names, RoundState.checkName name = .ok ()
  given : ∀ name, Taken name (roster running) state.completed → name ∈ names
  kept : state.failed = false → ∀ name ∈ names, Taken name (roster running) state.completed
  sendsFirst : state.sendsFirst = first
  round : state.round = (if first then 0 else 1) + 2 * messages.length

variable {first : Bool} {names : List String} {messages : List Payload} {state' : Host L}
  {running' : List (String × Hosted (Party A L))}

omit [Interactive A ε] [HostLogic L A ε] in
/-- It goes as far as the call does without the logic. -/
theorem Sound.carries (h : Sound first names messages state running)
    (hcarries : Carries state running state' running') :
    Sound first names messages state' running' where
  distinct := hcarries.distinct
  nodup := h.nodup
  allowed := h.allowed
  given name htaken := h.given name (hcarries.old name htaken)
  kept hlive name hname := by
    have hlived : state.failed = false := Bool.eq_false_iff.2 fun hfailed =>
      absurd (hlive.symm.trans (hcarries.failed hfailed)) Bool.false_ne_true
    exact hcarries.kept hlive name (h.kept hlived name hname)
  sendsFirst := hcarries.sendsFirst.trans h.sendsFirst
  round := hcarries.round.trans h.round

omit [Interactive A ε] [HostLogic L A ε] in
/-- New names are given to no one else. -/
theorem Sound.nodup_append (h : Sound first names messages state running)
    (hlive : state.failed = false) {started : List (String × Hosted (Party A L))}
    (hnew : New started running state.completed) :
    (names ++ started.map Prod.fst).Nodup := by
  refine List.nodup_append.2 ⟨h.nodup, hnew.nodup, ?_⟩
  rintro name hname _ hstarted rfl
  rcases h.kept hlive name hname with hrunning | hcompleted
  · exact hnew.not_running name hstarted (fst_roster running ▸ hrunning)
  · exact absurd ((hnew.not_completed name hstarted).symm.trans hcompleted) nofun

omit [Interactive A ε] [HostLogic L A ε] in
/-- What is started takes its names, and no others. -/
theorem New.taken_startAll_iff {started : List (String × Hosted (Party A L))}
    {completed : Table (Option Bool)} (hnew : New started running completed) {name : String} :
    Taken name (roster (startAll started running)) completed ↔
      name ∈ started.map Prod.fst ∨ Taken name (roster running) completed := by
  have hperm := (hnew.roster_perm.map Prod.fst).mem_iff (a := name)
  rw [List.map_append, List.mem_append, fst_roster started] at hperm
  rw [Taken, hperm, or_assoc, ← Taken]

omit [Interactive A ε] in
/-- The logic is given new names for sub-protocols, which run from then on unless it fails. -/
theorem Sound.finish {ready : Ready A L ε}
    (h : Sound first names messages ready.host ready.running) (hlive : ready.host.failed = false) :
    ∃ state' running', ready.finish.next = .host state' running' ∧
      Sound first (names ++ namesGiven ready.acted)
        (messages ++ (Course.message? ready.finish.reply).toList) state' running' := by
  have hnew := ready.new_started
  have hnodup := h.nodup_append hlive hnew
  have hallowed : ∀ name ∈ names ++ ready.answer.2.2.started.map Prod.fst,
      RoundState.checkName name = .ok () := List.forall_mem_append.2
    ⟨h.allowed, RoundState.checkName_of_mem_started ready.program rfl⟩
  rw [Ready.finish_eq, Ready.acted]
  generalize ready.answer.1.1 = result
  match result with
  | .error (.abort cause) =>
    refine ⟨_, _, rfl, ?_⟩
    dsimp only [Course.message?, Option.toList, namesGiven, Option.elim]
    rw [List.append_nil, List.append_nil]
    exact ⟨h.distinct, h.nodup, h.allowed, h.given, h.kept, h.sendsFirst, h.round⟩
  | .error (.error cause) =>
    refine ⟨_, _, rfl, h.distinct, hnodup, hallowed, fun name htaken => ?_, nofun, h.sendsFirst, ?_⟩
    · exact List.mem_append_left _ (h.given name htaken)
    · dsimp only [Course.message?, Option.toList]
      rw [List.append_nil]
      exact h.round
  | .ok () =>
    refine ⟨_, _, rfl, h.distinct.startAll hnew, hnodup, hallowed, fun name htaken => ?_,
      fun _ name hname => ?_, h.sendsFirst, ?_⟩
    · refine List.mem_append.2 ((hnew.taken_startAll_iff.1 htaken).symm.imp_left ?_)
      exact h.given name
    · refine hnew.taken_startAll_iff.2 ((List.mem_append.1 hname).symm.imp_right ?_)
      exact h.kept hlive name
    · dsimp only [finishRound, Course.message?, Option.toList, Ready.asked]
      rw [h.round, List.length_append, List.length_singleton]
      omega

/-- Every call keeps to it, whatever the logic and the message are. -/
theorem Sound.step (h : Sound first names messages state running)
    (incoming : Option Payload) : ∃ state' running',
      (call ε (.host state running) incoming).2 = .host state' running' ∧
        Sound first (names ++ namesGiven (acted ε (.host state running) incoming))
          (messages ++ (Course.message? (call ε (.host state running) incoming).1).toList)
          state' running' := by
  have hsettled := prepare_settled (ε := ε) h.distinct incoming
  rw [call, step_host, acted]
  generalize hprepare : (prepare state running incoming :
    Except (Step (Party A L) ε) (Ready A L ε)) = prepared at hsettled ⊢
  cases hsettled with
  | @silent taken state' running' hnext hreply hcarries =>
    refine ⟨state', running', hnext, ?_⟩
    dsimp only [namesGiven, Option.elim]
    rw [hreply, Option.toList, List.append_nil, List.append_nil]
    exact h.carries hcarries
  | @finishes replies notes state' running' hkeys hcarries =>
    have hsound := h.carries hcarries
    refine ⟨_, _, rfl, ?_⟩
    dsimp only [namesGiven, Option.elim, finishRound, Course.message?, Option.toList]
    rw [List.append_nil]
    refine ⟨hsound.distinct, hsound.nodup, hsound.allowed, hsound.given, hsound.kept,
      hsound.sendsFirst, ?_⟩
    change state'.round + 2 = _
    rw [hsound.round, List.length_append, List.length_singleton]
    omega
  | asks hkeys hasked hlive hcarries => exact (h.carries hcarries).finish hlive

omit [Interactive A ε] [HostLogic L A ε] in
/-- A new host is sound: no name has been given and nothing sent. -/
theorem Sound.new (logic : L) (first : Bool) :
    Sound first [] [] (Host.new logic first) ([] : List (String × Hosted (Party A L))) where
  distinct := ⟨List.nodup_nil, fun _ h => absurd h List.not_mem_nil⟩
  nodup := List.nodup_nil
  allowed _ h := absurd h List.not_mem_nil
  given _ h := h.elim (fun h => absurd h List.not_mem_nil) nofun
  kept _ _ h := absurd h List.not_mem_nil
  sendsFirst := rfl
  round := rfl

/-- It holds of a host after any messages. -/
theorem sound_after (ε : Type) [Interactive A ε] [HostLogic L A ε] (logic : L) (first : Bool)
    (inputs : List (Option Payload)) : ∃ state running,
      Course.after (call ε) (ofLogic logic first : Party A L) inputs = .host state running ∧
        Sound first (namesOver ε (ofLogic logic first : Party A L) inputs)
          (Course.sent (call ε) (ofLogic logic first : Party A L) inputs) state running := by
  induction inputs using List.reverseRecOn with
  | nil => exact ⟨_, [], rfl, .new logic first⟩
  | append_singleton inputs input ih =>
    obtain ⟨state, running, hafter, hsound⟩ := ih
    rw [Course.after_concat, namesOver, Course.collect_concat, ← namesOver, Course.sent,
      Course.collect_concat, hafter]
    exact hsound.step input

/-! ### After the part of the logic is over -/

/-- The logic is not asked any more, and this stays so. -/
theorem rests_call (hdistinct : Distinct (roster running) state.completed)
    (hrests : state.failed = true ∨ state.terminateRequested = true) (incoming : Option Payload) :
    consulted ε (.host state running) incoming = none ∧ ∃ state' running',
      (call ε (.host state running) incoming).2 = .host state' running' ∧
        Distinct (roster running') state'.completed ∧
        (state.failed = true → state'.failed = true) ∧
        (state.terminateRequested = true → state'.terminateRequested = true) := by
  have hsettled := prepare_settled (ε := ε) hdistinct incoming
  rw [call, step_host, consulted]
  generalize (prepare state running incoming :
    Except (Step (Party A L) ε) (Ready A L ε)) = prepared at hsettled ⊢
  cases hsettled with
  | silent hnext hreply hcarries =>
    exact ⟨rfl, _, _, hnext, hcarries.distinct, hcarries.failed, hcarries.requested.trans⟩
  | finishes hkeys hcarries =>
    exact ⟨rfl, _, _, rfl, hcarries.distinct, hcarries.failed, hcarries.requested.trans⟩
  | asks hkeys hasked hlive hcarries =>
    rcases hrests with hfailed | hrequested
    · exact absurd (hlive.symm.trans (hcarries.failed hfailed)) Bool.false_ne_true
    · exact absurd (hasked.symm.trans hrequested) Bool.false_ne_true

/-- A host that has failed or asked to terminate never asks its logic again. -/
theorem rests_after (hdistinct : Distinct (roster running) state.completed)
    (hrests : state.failed = true ∨ state.terminateRequested = true)
    (later : List (Option Payload)) : ∃ state' running',
      Course.after (call ε) (.host state running) later = .host state' running' ∧
        (state.terminateRequested = true → state'.terminateRequested = true) ∧
        ∀ next, consulted ε (.host state' running') next = none := by
  induction later generalizing state running with
  | nil => exact ⟨state, running, rfl, id, fun next => (rests_call hdistinct hrests next).1⟩
  | cons incoming later ih =>
    obtain ⟨-, state', running', hnext, hdistinct', hfailed, hrequested⟩ :=
      rests_call (ε := ε) hdistinct hrests incoming
    obtain ⟨state'', running'', hafter, hrequested', hunasked⟩ :=
      ih hdistinct' (hrests.imp hfailed hrequested)
    refine ⟨state'', running'', ?_, hrequested' ∘ hrequested, hunasked⟩
    rw [Course.after, List.foldl_cons, hnext]
    exact hafter

/-- Logic that has asked to terminate, and has come to the end of its part, is not asked
again. -/
theorem rests_of_acted (hdistinct : Distinct (roster running) state.completed)
    {incoming : Option Payload} {context : RoundState (Party A L)}
    (hacted : acted ε (.host state running) incoming = some context)
    (hterminating : context.terminating = true) : ∃ state' running',
      (call ε (.host state running) incoming).2 = .host state' running' ∧
        Distinct (roster running') state'.completed ∧
        (state'.failed = true ∨ state'.terminateRequested = true) := by
  have hsettled := prepare_settled (ε := ε) hdistinct incoming
  rw [acted] at hacted
  rw [call, step_host]
  generalize (prepare state running incoming :
    Except (Step (Party A L) ε) (Ready A L ε)) = prepared at hsettled hacted ⊢
  cases hsettled with
  | silent => exact nomatch hacted
  | finishes => exact nomatch hacted
  | @asks ready hkeys hasked hlive hcarries =>
    have hnew := ready.new_started
    dsimp only at hacted ⊢
    rw [Ready.acted] at hacted
    rw [Ready.finish_eq]
    generalize ready.answer.1.1 = result at hacted ⊢
    match result with
    | .error (.abort cause) => exact nomatch hacted
    | .error (.error cause) => exact ⟨_, _, rfl, hcarries.distinct, .inl rfl⟩
    | .ok () =>
      obtain rfl := Option.some.inj hacted
      exact ⟨_, _, rfl, hcarries.distinct.startAll hnew, .inr hterminating⟩

omit [Interactive A ε] [HostLogic L A ε] in
/-- A reply is addressed to the mailbox or comes from a sub-protocol. -/
theorem mem_outgoing {replies outbox : Table Payload} {name : String}
    (h : name ∈ (outgoing replies outbox).map Prod.fst) :
    name = Host.mailboxKey ∨ name ∈ replies.map Prod.fst := by
  rw [outgoing] at h
  split at h
  · exact .inr h
  · rw [← Table.has_iff_mem, Table.has_insert, Table.has_iff_mem] at h
    exact h

/-- What a call sends is a table of the answers of sub-protocols, under their names, and of
the values of the logic. -/
theorem keys_of_call (hdistinct : Distinct (roster running) state.completed)
    {incoming : Option Payload} {message : Payload}
    (h : (call ε (.host state running) incoming).1 = .ok (some message)) :
    ∃ entries, message = .map entries ∧ ∀ name ∈ entries.map Prod.fst,
      name = Host.mailboxKey ∨ name ∈ running.map Prod.fst := by
  have hsettled := prepare_settled (ε := ε) hdistinct incoming
  rw [call, step_host] at h
  generalize (prepare state running incoming :
    Except (Step (Party A L) ε) (Ready A L ε)) = prepared at hsettled h
  cases hsettled with
  | silent hnext hreply =>
    dsimp only at h
    rw [h] at hreply
    exact nomatch hreply
  | finishes hkeys =>
    obtain rfl := Option.some.inj (Except.ok.inj h)
    exact ⟨_, rfl, fun name hname => .inr (hkeys name hname)⟩
  | @asks ready hkeys hasked hlive hcarries =>
    dsimp only at h
    rw [Ready.finish_eq] at h
    split at h
    · exact nomatch h
    · obtain rfl := Option.some.inj (Except.ok.inj h)
      refine ⟨outgoing ready.replies ready.answer.2.2.outbox, rfl, fun name hname => ?_⟩
      exact (mem_outgoing hname).imp_right (hkeys name)

/-- A host that has failed or come to its end answers all calls alike. -/
theorem ended_of_isOver (h : isOver state running = true) :
    Course.Ended (call ε) (.host state running : Party A L) := by
  intro incoming
  have hprepare : (prepare state running incoming : Except (Step (Party A L) ε) (Ready A L ε)) =
      .error (.refuse .protocolTerminated (.host state running)) := by
    rw [prepare, if_pos h]
  rw [call, step_host, hprepare]
  rfl

variable (ε) in
/-- The side that does not move first waits for a message. -/
theorem call_none (logic : L) : call ε (ofLogic logic false : Party A L) none =
    (.ok none, ofLogic logic false) := by
  rw [call, ofLogic, step_host]
  rfl

variable (ε) in
/-- A host that does not move first waits for a message. -/
theorem after_of_forall_none (logic : L) {inputs : List (Option Payload)}
    (h : ∀ input ∈ inputs, input = none) :
    Course.after (call ε) (ofLogic logic false : Party A L) inputs = ofLogic logic false := by
  induction inputs with
  | nil => rfl
  | cons input inputs ih =>
    obtain ⟨rfl, hrest⟩ := List.forall_mem_cons.1 h
    rw [Course.after, List.foldl_cons, call_none]
    exact ih hrest

end

/-- **Names, rounds and messages of a host over its life.**  Whatever its logic is and
whatever it was sent, no sub-protocol runs and has completed at once, and all their names
are allowed ones that the logic has given, each once.  A call is settled without the logic,
or by one run of what the logic asks for in its round, and what the logic has made of its
part is what this run leaves.  Logic that asks to terminate is not asked again, and the
request stays.  The round has grown by two with every message sent, and a message is a table
under the names that were running and the key of the mailbox.  The side that does not move
first stays as it is while it is sent nothing, and a host that has failed or come to its end
refuses every call and stays as it is. -/
theorem host_sound (ε : Type) [Interactive A ε] [HostLogic L A ε] (logic : L) (first : Bool)
    (inputs : List (Option Payload)) :
    let start : Party A L := ofLogic logic first
    ∃ state running, Course.after (call ε) start inputs = .host state running ∧
      (∀ name ∈ running.map Prod.fst, state.completed.has name = false) ∧
      (∀ name, name ∈ running.map Prod.fst ∨ state.completed.has name = true →
        name ≠ "" ∧ "__".isPrefixOf name = false ∧ name ∈ namesOver ε start inputs) ∧
      (namesOver ε start inputs).Nodup ∧
      (∀ incoming, Consults ε state running incoming) ∧
      (∀ incoming context, acted ε (.host state running) incoming = some context →
        ∃ ready : Ready A L ε, prepare state running incoming = .ok ready ∧
          context = (RoundProgram.run (ε := ε) (HostLogic.act ready.host.logic ready.host.round)
            ready.context).2.2) ∧
      (∀ incoming context, acted ε (.host state running) incoming = some context →
        context.terminating = true → ∀ later next, consulted ε (Course.after (call ε)
          (call ε (.host state running) incoming).2 later) next = none) ∧
      (state.terminateRequested = true → ∀ later, ∃ state' running',
        Course.after (call ε) (.host state running) later = .host state' running' ∧
          state'.terminateRequested = true ∧
          ∀ next, consulted ε (.host state' running') next = none) ∧
      state.round % 2 = (if first then 0 else 1) ∧
      state.round = (if first then 0 else 1) + 2 * (Course.sent (call ε) start inputs).length ∧
      (∀ incoming message, (call ε (.host state running) incoming).1 = .ok (some message) →
        ∃ entries, message = .map entries ∧ ∀ name ∈ entries.map Prod.fst,
          name = Host.mailboxKey ∨ name ∈ running.map Prod.fst) ∧
      (first = false → (∀ input ∈ inputs, input = none) → .host state running = start ∧
        call ε (.host state running) none = (.ok none, .host state running)) ∧
      (state.failed = true ∨ Party.terminated ε (.host state running : Party A L) = true →
        ∀ incoming, call ε (.host state running) incoming =
          (.error (.error .protocolTerminated), .host state running)) := by
  intro start
  obtain ⟨state, running, hafter, hsound⟩ :=
    sound_after (A := A) ε logic first inputs
  have hdistinct := hsound.distinct
  refine ⟨state, running, hafter, ?fresh, ?allowed, hsound.nodup, consults state running,
    fun _ _ => exists_ready_of_acted, ?asks, ?requested, ?parity, hsound.round,
    fun _ _ => keys_of_call hdistinct, ?idle, ?refuses⟩
  case fresh =>
    rw [← fst_roster]
    exact hdistinct.fresh
  case allowed =>
    rw [← fst_roster]
    intro name htaken
    have hname := hsound.given name htaken
    obtain ⟨hne, hprefix⟩ := RoundState.of_checkName_eq_ok (hsound.allowed name hname)
    exact ⟨hne, hprefix, hname⟩
  case asks =>
    intro incoming context hacted hterminating later next
    obtain ⟨state', running', hnext, hdistinct', hrests⟩ :=
      rests_of_acted hdistinct hacted hterminating
    obtain ⟨state'', running'', hafter', -, hunasked⟩ :=
      rests_after (ε := ε) hdistinct' hrests later
    rw [hnext, hafter']
    exact hunasked next
  case requested =>
    intro hrequested later
    obtain ⟨state', running', hafter', hstays, hunasked⟩ :=
      rests_after (ε := ε) hdistinct (.inr hrequested) later
    exact ⟨state', running', hafter', hstays hrequested, hunasked⟩
  case parity =>
    have hround := hsound.round
    cases first with
    | true =>
      rw [if_pos rfl] at hround ⊢
      omega
    | false =>
      rw [if_neg Bool.false_ne_true] at hround ⊢
      omega
  case idle =>
    rintro rfl hnone
    have hstart := hafter.symm.trans (after_of_forall_none ε logic hnone)
    rw [hstart]
    exact ⟨rfl, call_none ε logic⟩
  case refuses =>
    intro hover
    exact ended_of_isOver (ε := ε) (Bool.or_eq_true_iff.2 hover)

end Party
end ThreeMove

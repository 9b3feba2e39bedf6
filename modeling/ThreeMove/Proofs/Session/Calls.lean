/-
# What one call of a host comes to

Everything that a host does in a call before it asks its logic is `Party.prepare`:
either the call is over by then, with a step in which the logic has no part, or the
host is `Ready` and the logic runs (`Party.step_host`).  On the way the host calls
its sub-protocols (`Party.SubCall`), which may be hosts again, so that one call is
made within another (`Party.Within`).  Where a sub-protocol fails, the host fails
for the same cause (`Party.SubCall.fails`).
-/

import ThreeMove.Proofs.Result
import ThreeMove.Session.Party

namespace ThreeMove
namespace Party

variable {A L ε : Type}

/-- A property that passes from the sub-protocols of a host to the host holds of
every party that has it where it is elementary. -/
theorem induction {P : Party A L → Prop} (atom : ∀ party, P (.atom party))
    (host : ∀ host running, (∀ entry ∈ running, P entry.2.party) → P (.host host running)) :
    ∀ party, P party := by
  intro party
  refine Party.rec (motive_1 := P) (motive_2 := fun running => ∀ entry ∈ running, P entry.2.party)
    (motive_3 := fun entry => P entry.2.party) (motive_4 := fun hosted => P hosted.party)
    atom host ?nil ?cons ?entry ?hosted party
  case nil => exact fun _ h => absurd h List.not_mem_nil
  case cons => exact fun entry rest hentry hrest => List.forall_mem_cons.2 ⟨hentry, hrest⟩
  case entry => exact fun _ _ h => h
  case hosted => exact fun _ _ h => h

/-- A host with all of a round behind it but the part of its logic. -/
structure Ready (A L ε : Type) where
  host : Host L
  running : List (String × Hosted (Party A L))
  /-- The answers of the sub-protocols. -/
  replies : Table Payload
  notes : List ε

/-- What the logic is shown. -/
def Ready.context (ready : Ready A L ε) : RoundState (Party A L) where
  running := ready.running.map Prod.fst
  completed := ready.host.completed
  inbox := ready.host.inbox
  outbox := []
  started := []
  terminating := false

/-- Whether a host accepts no messages any more. -/
def isOver (host : Host L) (running : List (String × Hosted (Party A L))) : Bool :=
  host.failed || (host.terminateRequested && running.isEmpty)

section

variable [HostLogic L A ε]

/-- Lets the logic do its part, and ends the round. -/
def Ready.finish (ready : Ready A L ε) : Step (Party A L) ε :=
  match (runLogic ready.host ready.running :
    Except Failure (Table Payload) × List ε × Party A L) with
  | (.error cause, notes, party) =>
    ⟨.error cause, ready.notes ++ notes, afterFailure cause party⟩
  | (.ok outbox, notes, party) => finishRound ready.replies outbox (ready.notes ++ notes) party

/-- What the logic asks for. -/
def Ready.program (ready : Ready A L ε) : RoundProgram (Party A L) ε (Except Failure Unit × L) :=
  HostLogic.act ready.host.logic ready.host.round

/-- The result of the logic, and the logic afterwards, with the notes and the context at
the end of its round. -/
def Ready.answer (ready : Ready A L ε) :
    (Except Failure Unit × L) × List ε × RoundState (Party A L) :=
  ready.program.run ready.context

/-- The host once its logic has been asked. -/
def Ready.asked (ready : Ready A L ε) : Host L :=
  { ready.host with logic := ready.answer.1.2, inbox := ready.answer.2.2.inbox }

/-- The sub-protocols running once more are started. -/
def startAll (started running : List (String × Hosted (Party A L))) :
    List (String × Hosted (Party A L)) :=
  started.foldl (fun running (name, hosted) => Table.insert name hosted running) running

/-- The part of the logic is its requests, answered on what it is shown. -/
theorem Ready.finish_eq (ready : Ready A L ε) : ready.finish =
    match ready.answer.1.1 with
    | .error cause => ⟨.error cause, ready.notes ++ ready.answer.2.1,
        afterFailure cause (.host ready.asked ready.running)⟩
    | .ok () => finishRound ready.replies ready.answer.2.2.outbox (ready.notes ++ ready.answer.2.1)
        (.host { ready.asked with terminateRequested := ready.answer.2.2.terminating }
          (startAll ready.answer.2.2.started ready.running)) := by
  have hanswer : ready.answer = (HostLogic.act ready.host.logic ready.host.round :
      RoundProgram (Party A L) ε (Except Failure Unit × L)).run ready.context := rfl
  rw [finish, runLogic, asked]
  dsimp only
  rw [← Ready.context, ← hanswer]
  obtain ⟨⟨result, logic⟩, notes, context⟩ := ready.answer
  cases result <;> rfl

end

variable [Interactive A ε]

/-- Goes on from the answers of the sub-protocols to the part of the logic, or to the
end of the call where there is none. -/
def settle (host : Host L) (dispatch : Dispatch (Party A L) ε) :
    Except (Step (Party A L) ε) (Ready A L ε) :=
  match dispatch.replies with
  | .error cause =>
    .error ⟨.error cause, dispatch.notes, afterFailure cause (.host host dispatch.running)⟩
  | .ok replies =>
    match retire ε dispatch.running host.completed with
    | (.error cause, running, completed) =>
      .error ⟨.error (.error cause), dispatch.notes,
        afterFailure (.error cause) (.host { host with completed := completed } running)⟩
    | (.ok (), running, completed) =>
      if host.terminateRequested then
        .error (finishRound replies [] dispatch.notes
          (.host { host with completed := completed } running))
      else .ok ⟨{ host with completed := completed }, running, replies, dispatch.notes⟩

/-- A failure among the replies is passed on and fails the host. -/
theorem settle_of_replies_eq_error {state : Host L} {dispatch : Dispatch (Party A L) ε}
    {cause : Failure} (h : dispatch.replies = .error cause) : settle state dispatch =
      .error ⟨.error cause, dispatch.notes, afterFailure cause (.host state dispatch.running)⟩ := by
  rw [settle, h]

variable [HostLogic L A ε]

/-- All that a host does in a call before its logic is asked: the step, where the
logic has no part in it, or the host that is ready for its logic. -/
def prepare (host : Host L) (running : List (String × Hosted (Party A L)))
    (incoming : Option Payload) : Except (Step (Party A L) ε) (Ready A L ε) :=
  if isOver host running then .error (.refuse .protocolTerminated (.host host running))
  else if host.idles incoming then .error (.silent (.ok none) (.host host running))
  else
    match Host.intake { host with started := true } (running.map Prod.fst) incoming with
    | (.error cause, host) => .error (.refuse cause (.host { host with failed := true } running))
    | (.ok parts, host) => settle host (stepEach running parts)

/-- A round is concluded by settling it and, if that does not fail, by asking the logic. -/
theorem conclude_eq (state : Host L) (dispatch : Dispatch (Party A L) ε) :
    conclude state dispatch = match settle state dispatch with
      | .error taken => taken
      | .ok ready => ready.finish := by
  rw [conclude, settle]
  cases dispatch.replies with
  | error cause => rfl
  | ok replies =>
    obtain ⟨result, running, completed⟩ := retire ε dispatch.running state.completed
    cases result with
    | error cause => rfl
    | ok _ =>
      dsimp only
      split
      · rfl
      · rfl

/-- A call of a host is what it prepares, and the logic's part where this is due. -/
theorem step_host (state : Host L) (running : List (String × Hosted (Party A L)))
    (incoming : Option Payload) :
    step (.host state running) incoming =
      match (prepare state running incoming : Except (Step (Party A L) ε) (Ready A L ε)) with
      | .error taken => taken
      | .ok ready => ready.finish := by
  rw [step, prepare, isOver]
  split
  · rfl
  split
  · rfl
  dsimp only
  obtain ⟨verdict, taken⟩ :=
    Host.intake { state with started := true } (running.map Prod.fst) incoming
  cases verdict with
  | error cause => rfl
  | ok parts => exact conclude_eq taken (stepEach running parts)

/-- What the logic of a host is shown in a call, if it is asked at all. -/
def consulted (ε : Type) [Interactive A ε] [HostLogic L A ε] :
    Party A L → Option Payload → Option (RoundState (Party A L))
  | .atom _, _ => none
  | .host state running, incoming =>
    match (prepare state running incoming : Except (Step (Party A L) ε) (Ready A L ε)) with
    | .error _ => none
    | .ok ready => some ready.context

/-- The logic is shown the context of the round that is prepared. -/
theorem consulted_eq_some {state : Host L} {running : List (String × Hosted (Party A L))}
    {incoming : Option Payload} {context : RoundState (Party A L)} :
    consulted ε (.host state running) incoming = some context ↔
      ∃ ready : Ready A L ε, prepare state running incoming = .ok ready ∧
        ready.context = context := by
  rw [consulted]
  split
  · rename_i hprepare
    rw [hprepare]
    exact ⟨nofun, fun ⟨_, h, _⟩ => nomatch h⟩
  · rename_i ready hprepare
    rw [hprepare]
    exact ⟨fun h => ⟨ready, rfl, Option.some.inj h⟩,
      fun ⟨_, h, hcontext⟩ => congrArg some (Except.ok.inj h ▸ hcontext)⟩

/-- The logic is not asked exactly where preparing the round is the whole call. -/
theorem consulted_eq_none {state : Host L} {running : List (String × Hosted (Party A L))}
    {incoming : Option Payload} : consulted ε (.host state running) incoming = none ↔
      prepare state running incoming =
        .error (step (.host state running) incoming : Step (Party A L) ε) := by
  rw [consulted, step_host]
  split
  · rename_i taken hprepare
    rw [hprepare]
    exact ⟨fun _ => rfl, fun _ => rfl⟩
  · rename_i ready hprepare
    rw [hprepare]
    exact ⟨nofun, nofun⟩

/-- How a call of a host comes to its logic: not at all, and then the call is what is settled
before; or by one run of what the logic asks for in its round, answered on what it is shown, from
which the call is finished. -/
structure Consults (ε : Type) [Interactive A ε] [HostLogic L A ε] (state : Host L)
    (running : List (String × Hosted (Party A L))) (incoming : Option Payload) : Prop where
  unasked : consulted ε (.host state running) incoming = none →
    prepare state running incoming =
      .error (step (.host state running) incoming : Step (Party A L) ε)
  asked (context : RoundState (Party A L)) :
    consulted ε (.host state running) incoming = some context →
      ∃ ready : Ready A L ε, prepare state running incoming = .ok ready ∧
        ready.context = context ∧
        ready.answer = RoundProgram.run (HostLogic.act ready.host.logic ready.host.round) context ∧
        step (.host state running) incoming = ready.finish

/-- Every call of every host does. -/
theorem consults (state : Host L) (running : List (String × Hosted (Party A L)))
    (incoming : Option Payload) : Consults ε state running incoming where
  unasked := consulted_eq_none.1
  asked context hconsulted := by
    obtain ⟨ready, hprepare, rfl⟩ := consulted_eq_some.1 hconsulted
    exact ⟨ready, hprepare, rfl, rfl, by rw [step_host, hprepare]⟩

/-! ### Calls of sub-protocols -/

/-- The host takes the message in and calls its sub-protocols on `parts`. -/
structure Enters (state : Host L) (running : List (String × Hosted (Party A L)))
    (incoming : Option Payload) (parts : Table Payload) (state' : Host L) : Prop where
  live : isOver state running = false
  awake : state.idles incoming = false
  intake : Host.intake { state with started := true } (running.map Prod.fst) incoming =
    (.ok parts, state')

/-- Once the host has taken the message in, what is left is to settle its calls. -/
theorem Enters.prepare {state state' : Host L} {running : List (String × Hosted (Party A L))}
    {incoming : Option Payload} {parts : Table Payload}
    (h : Enters state running incoming parts state') :
    (Party.prepare state running incoming : Except (Step (Party A L) ε) (Ready A L ε)) =
      settle state' (stepEach running parts) := by
  rw [Party.prepare, if_neg (Bool.eq_false_iff.1 h.live), if_neg (Bool.eq_false_iff.1 h.awake),
    h.intake]

/-- A call of the party calls the sub-protocol `hosted` named `name` on the part of
the message that bears the name: those before it have answered. -/
inductive SubCall (ε : Type) [Interactive A ε] [HostLogic L A ε] :
    Party A L → Option Payload → String → Hosted (Party A L) → Option Payload → Prop where
  | intro {state state' : Host L} {before after : List (String × Hosted (Party A L))}
      {name : String} {hosted : Hosted (Party A L)} {incoming : Option Payload}
      {parts replies : Table Payload}
      (enters : Enters state (before ++ (name, hosted) :: after) incoming parts state')
      (hbefore : (stepEach before parts : Dispatch (Party A L) ε).replies = .ok replies) :
      SubCall ε (.host state (before ++ (name, hosted) :: after)) incoming name hosted
        (parts.find? name)

/-- The first sub-protocol is called on whatever the host takes in. -/
theorem SubCall.first {state state' : Host L} {after : List (String × Hosted (Party A L))}
    {name : String} {hosted : Hosted (Party A L)} {incoming : Option Payload}
    {parts : Table Payload}
    (enters : Enters state ((name, hosted) :: after) incoming parts state') :
    SubCall ε (.host state ((name, hosted) :: after)) incoming name hosted (parts.find? name) := by
  have henters : Enters state ([] ++ (name, hosted) :: after) incoming parts state' := enters
  exact .intro henters rfl

/-- The call of `inner` on its message is made in the course of that of `outer`, or is
that call itself. -/
inductive Within (ε : Type) [Interactive A ε] [HostLogic L A ε] (inner : Party A L)
    (message : Option Payload) : (outer : Party A L) → Option Payload → Prop where
  | self : Within ε inner message inner message
  | sub {outer : Party A L} {incoming : Option Payload} {name : String}
      {hosted : Hosted (Party A L)} {part : Option Payload}
      (hcall : SubCall ε outer incoming name hosted part)
      (h : Within ε inner message hosted.party part) : Within ε inner message outer incoming

/-- A sub-protocol after a call. -/
def afterCall (ε : Type) [Interactive A ε] [HostLogic L A ε] (hosted : Hosted (Party A L))
    (part : Option Payload) : Hosted (Party A L) :=
  ⟨(step hosted.party part : Step (Party A L) ε).next, hosted.argument⟩

section

variable {before after running : List (String × Hosted (Party A L))} {name : String}
  {hosted : Hosted (Party A L)} {parts replies : Table Payload} {cause : Failure}

/-- Where the first sub-protocol fails, the others are not called. -/
theorem stepEach_cons_of_error (running : List (String × Hosted (Party A L)))
    (h : (step hosted.party (parts.find? name) : Step (Party A L) ε).reply = .error cause) :
    ∃ notes, (stepEach ((name, hosted) :: running) parts : Dispatch (Party A L) ε) =
      ⟨.error cause, notes, (name, afterCall ε hosted (parts.find? name)) :: running⟩ := by
  obtain ⟨party, argument⟩ := hosted
  rw [stepEach]
  dsimp only at h ⊢
  rw [h]
  exact ⟨_, rfl⟩

/-- Where the first sub-protocol does not fail, its reply comes before those of the others. -/
theorem stepEach_cons_of_ok (running : List (String × Hosted (Party A L))) {reply : Option Payload}
    (h : (step hosted.party (parts.find? name) : Step (Party A L) ε).reply = .ok reply) :
    ∃ notes, (stepEach ((name, hosted) :: running) parts : Dispatch (Party A L) ε) =
      ⟨(reply.toList.map (Prod.mk name) ++ ·) <$>
          (stepEach running parts : Dispatch (Party A L) ε).replies, notes,
        (name, afterCall ε hosted (parts.find? name)) ::
          (stepEach running parts : Dispatch (Party A L) ε).running⟩ := by
  obtain ⟨party, argument⟩ := hosted
  rw [stepEach]
  dsimp only at h ⊢
  rw [h]
  cases reply with
  | none => exact ⟨_, rfl⟩
  | some payload => exact ⟨_, rfl⟩

/-- The calls go well where the first does and the others do. -/
theorem stepEach_cons_eq_ok :
    (stepEach ((name, hosted) :: running) parts : Dispatch (Party A L) ε).replies = .ok replies ↔
      ∃ reply others,
        (step hosted.party (parts.find? name) : Step (Party A L) ε).reply = .ok reply ∧
        (stepEach running parts : Dispatch (Party A L) ε).replies = .ok others ∧
        reply.toList.map (Prod.mk name) ++ others = replies := by
  cases hreply : (step hosted.party (parts.find? name) : Step (Party A L) ε).reply with
  | error cause =>
    obtain ⟨notes, heq⟩ := stepEach_cons_of_error running hreply
    rw [heq]
    exact ⟨nofun, fun ⟨_, _, h, _⟩ => nomatch h⟩
  | ok reply =>
    obtain ⟨notes, heq⟩ := stepEach_cons_of_ok running hreply
    rw [heq, map_eq_ok]
    constructor
    · rintro ⟨others, hothers, h⟩
      exact ⟨reply, others, rfl, hothers, h⟩
    · rintro ⟨_, others, ⟨⟩, hothers, h⟩
      exact ⟨others, hothers, h⟩

/-- A sub-protocol whose turn comes is called, and what fails it fails the host. -/
theorem stepEach_append
    (hbefore : (stepEach before parts : Dispatch (Party A L) ε).replies = .ok replies) :
    (name, afterCall ε hosted (parts.find? name)) ∈
        (stepEach (before ++ (name, hosted) :: after) parts : Dispatch (Party A L) ε).running ∧
      ∀ cause, (step hosted.party (parts.find? name) : Step (Party A L) ε).reply = .error cause →
        (stepEach (before ++ (name, hosted) :: after) parts : Dispatch (Party A L) ε).replies =
          .error cause := by
  -- Those before it answer one by one, until its turn comes.
  induction before generalizing replies with
  | nil =>
    rw [List.nil_append]
    cases hreply : (step hosted.party (parts.find? name) : Step (Party A L) ε).reply with
    | error cause =>
      obtain ⟨notes, heq⟩ := stepEach_cons_of_error after hreply
      rw [heq]
      exact ⟨List.mem_cons_self, fun cause' h => congrArg Except.error (Except.error.inj h)⟩
    | ok reply =>
      obtain ⟨notes, heq⟩ := stepEach_cons_of_ok after hreply
      rw [heq]
      exact ⟨List.mem_cons_self, nofun⟩
  | cons other before ih =>
    obtain ⟨otherName, other⟩ := other
    obtain ⟨reply, others, hreply, hothers, -⟩ := stepEach_cons_eq_ok.1 hbefore
    obtain ⟨hmem, hfails⟩ := ih hothers
    obtain ⟨notes, heq⟩ := stepEach_cons_of_ok (before ++ (name, hosted) :: after) hreply
    rw [List.cons_append, heq]
    exact ⟨List.mem_cons_of_mem _ hmem, fun cause h => map_eq_error.2 (hfails cause h)⟩

/-- Where calling the sub-protocols fails, one of them has failed, after those before
it had answered. -/
theorem exists_of_stepEach_eq_error
    (h : (stepEach running parts : Dispatch (Party A L) ε).replies = .error cause) :
    ∃ before name hosted after replies, running = before ++ (name, hosted) :: after ∧
      (stepEach before parts : Dispatch (Party A L) ε).replies = .ok replies ∧
      (step hosted.party (parts.find? name) : Step (Party A L) ε).reply = .error cause := by
  induction running with
  | nil => exact nomatch h
  | cons entry rest ih =>
    obtain ⟨name, hosted⟩ := entry
    cases hreply : (step hosted.party (parts.find? name) : Step (Party A L) ε).reply with
    | error cause' =>
      obtain ⟨notes, heq⟩ := stepEach_cons_of_error rest hreply
      rw [heq] at h
      obtain rfl := Except.error.inj h
      exact ⟨[], name, hosted, rest, [], rfl, rfl, hreply⟩
    | ok reply =>
      obtain ⟨notes, heq⟩ := stepEach_cons_of_ok rest hreply
      rw [heq] at h
      obtain ⟨before, name', hosted', after, replies, rfl, hbefore, hcause⟩ := ih (map_eq_error.1 h)
      exact ⟨(name, hosted) :: before, name', hosted', after, _, rfl,
        stepEach_cons_eq_ok.2 ⟨reply, replies, hreply, hbefore, rfl⟩, hcause⟩

end

/-! ### Calls that fail -/

/-- Whether a host has failed. -/
def hasFailed : Party A L → Bool
  | .atom _ => false
  | .host state _ => state.failed

/-- The call fails for the cause without asking the logic, and if the cause is a
refusal, for good. -/
structure Fails (ε : Type) [Interactive A ε] [HostLogic L A ε] (party : Party A L)
    (incoming : Option Payload) (cause : Failure) : Prop where
  reply : (step party incoming : Step (Party A L) ε).reply = .error cause
  unasked : consulted ε party incoming = none
  final : ∀ error, cause = .error error →
    (step party incoming : Step (Party A L) ε).next.hasFailed = true

/-- A host has failed after a failure that is an error. -/
theorem hasFailed_afterFailure {cause : Failure} {error : Error} (h : cause = .error error)
    (state : Host L) (running : List (String × Hosted (Party A L))) :
    (afterFailure cause (.host state running)).hasFailed = true := by
  subst h
  rfl

/-- What is settled before the logic is asked is the call. -/
theorem Fails.of_prepare {state : Host L} {running : List (String × Hosted (Party A L))}
    {incoming : Option Payload} {cause : Failure} {notes : List ε} {state' : Host L}
    {running' : List (String × Hosted (Party A L))}
    (h : prepare state running incoming =
      .error ⟨.error cause, notes, afterFailure cause (.host state' running')⟩) :
    Fails ε (.host state running) incoming cause := by
  refine ⟨?_, ?_, fun error hcause => ?_⟩
  · rw [step_host, h]
  · rw [consulted, h]
  · rw [step_host, h]
    exact hasFailed_afterFailure hcause state' running'

/-- A message that cannot be taken in is refused; what has been put into the inbox stays there. -/
theorem step_of_intake_eq_error {cause : Error} {taken : Host L}
    (hlive : isOver state running = false)
    (hawake : state.idles incoming = false)
    (h : Host.intake { state with started := true } (running.map Prod.fst) incoming =
      (.error cause, taken)) :
    (step (.host state running) incoming : Step (Party A L) ε) =
      .refuse cause (.host { taken with failed := true } running) := by
  have hprepare : (prepare state running incoming : Except (Step (Party A L) ε) (Ready A L ε)) =
      .error (.refuse cause (.host { taken with failed := true } running)) := by
    rw [prepare, if_neg (Bool.eq_false_iff.1 hlive), if_neg (Bool.eq_false_iff.1 hawake), h]
  rw [step_host, hprepare]

/-- A host whose sub-protocol fails in a call fails for the same cause. -/
theorem SubCall.fails {party : Party A L} {incoming part : Option Payload} {name : String}
    {hosted : Hosted (Party A L)} {cause : Failure}
    (hcall : SubCall ε party incoming name hosted part)
    (h : (step hosted.party part : Step (Party A L) ε).reply = .error cause) :
    Fails ε party incoming cause := by
  obtain ⟨henters, hbefore⟩ := hcall
  exact .of_prepare (henters.prepare.trans
    (settle_of_replies_eq_error ((stepEach_append hbefore).2 cause h)))

/-- The calls around one that fails fail for the same cause. -/
theorem Within.fails {inner outer : Party A L} {message incoming : Option Payload}
    {cause : Failure} (hwithin : Within ε inner message outer incoming)
    (h : Fails ε inner message cause) : Fails ε outer incoming cause := by
  induction hwithin with
  | self => exact h
  | sub hcall _ ih => exact hcall.fails ih.reply

/-- A host that has failed refuses every message and stays as it is. -/
theorem step_of_hasFailed {party : Party A L} (h : party.hasFailed = true)
    (incoming : Option Payload) :
    step party incoming = (.refuse .protocolTerminated party : Step (Party A L) ε) ∧
      consulted ε party incoming = none := by
  cases party with
  | atom party => exact nomatch h
  | host state running =>
    have hover : isOver state running = true := Bool.or_eq_true_iff.2 (.inl h)
    have hprepare : (prepare state running incoming : Except (Step (Party A L) ε) (Ready A L ε)) =
        .error (.refuse .protocolTerminated (.host state running)) := by
      rw [prepare, if_pos hover]
    exact ⟨by rw [step_host, hprepare], by rw [consulted, hprepare]⟩

/-- The party after the messages, one call for each. -/
def after (ε : Type) [Interactive A ε] [HostLogic L A ε] (party : Party A L)
    (messages : List (Option Payload)) : Party A L :=
  messages.foldl (fun party incoming => (step party incoming : Step (Party A L) ε).next) party

/-- The first message is handed over first. -/
theorem after_cons {party : Party A L} {incoming : Option Payload}
    {messages : List (Option Payload)} : party.after ε (incoming :: messages) =
      (step party incoming : Step (Party A L) ε).next.after ε messages :=
  rfl

/-- Messages change nothing about a party that has failed. -/
theorem after_of_hasFailed {party : Party A L} (h : party.hasFailed = true)
    (messages : List (Option Payload)) : party.after ε messages = party := by
  induction messages with
  | nil => rfl
  | cons incoming messages ih =>
    rw [after_cons, (step_of_hasFailed h incoming).1]
    exact ih

end Party
end ThreeMove

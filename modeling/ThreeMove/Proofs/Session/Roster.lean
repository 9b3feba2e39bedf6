/-
# The names of sub-protocols

A name stands for one sub-protocol as long as its host lives: it is taken while
the sub-protocol is running, and stays taken when it has completed
(`Party.Distinct`).  What is recorded of an argument is that it accepts, so whoever
looks finds no other verdict under its name (`Party.Keeps`).  Both hold on in every
call, whatever the logic, the sub-protocols and the messages are
(`Party.step_moves`, `Party.after_keeps`).
-/

import ThreeMove.Proofs.Session.Calls
import ThreeMove.Proofs.Session.Intake
import ThreeMove.Proofs.Session.Round

namespace ThreeMove
namespace Party

variable {A L ε : Type}

/-- The running sub-protocols by name, and whether they are arguments. -/
def roster (running : List (String × Hosted (Party A L))) : List (String × Bool) :=
  running.map fun entry => (entry.1, entry.2.argument)

/-- The roster has the names of what is running. -/
theorem fst_roster (running : List (String × Hosted (Party A L))) :
    (roster running).map Prod.fst = running.map Prod.fst := by
  rw [roster, List.map_map]
  rfl

/-- No name stands for two sub-protocols. -/
structure Distinct (roster : List (String × Bool)) (completed : Table (Option Bool)) : Prop where
  nodup : (roster.map Prod.fst).Nodup
  fresh : ∀ name ∈ roster.map Prod.fst, completed.has name = false

/-- The name stands for an argument, and no verdict is recorded under it but that it
accepts. -/
structure Keeps (name : String) (roster : List (String × Bool))
    (completed : Table (Option Bool)) : Prop where
  argument : ∀ flag, (name, flag) ∈ roster → flag = true
  accepted : ∀ verdict, completed.find? name = some verdict → verdict = some true

/-- The name is taken. -/
def Taken (name : String) (roster : List (String × Bool)) (completed : Table (Option Bool)) :
    Prop :=
  name ∈ roster.map Prod.fst ∨ completed.has name = true

/-! ### Starting sub-protocols -/

section

variable {kept started : List (String × Hosted (Party A L))} {completed : Table (Option Bool)}
  {name : String}

/-- The names of what is started are in no use and never were. -/
structure New (started kept : List (String × Hosted (Party A L)))
    (completed : Table (Option Bool)) : Prop where
  nodup : (started.map Prod.fst).Nodup
  not_running : ∀ name ∈ started.map Prod.fst, name ∉ kept.map Prod.fst
  not_completed : ∀ name ∈ started.map Prod.fst, completed.has name = false

/-- Nothing is always new. -/
theorem new_nil : New [] kept completed :=
  ⟨List.nodup_nil, fun _ h => absurd h List.not_mem_nil, fun _ h => absurd h List.not_mem_nil⟩

/-- When new sub-protocols are started, those run that were started or kept. -/
theorem mem_startAll (h : New started kept completed) {entry : String × Hosted (Party A L)} :
    entry ∈ startAll started kept ↔ entry ∈ started ∨ entry ∈ kept := by
  rw [← List.mem_append]
  exact (Table.foldl_insert_perm h.nodup h.not_running).mem_iff

/-- The roster grows by what is started, up to order. -/
theorem New.roster_perm (h : New started kept completed) :
    (roster (startAll started kept)).Perm (roster started ++ roster kept) := by
  rw [roster, roster, roster, ← List.map_append]
  exact (Table.foldl_insert_perm h.nodup h.not_running).map _

/-- Names stay different when new sub-protocols are started. -/
theorem Distinct.startAll (h : Distinct (roster kept) completed)
    (hnew : New started kept completed) :
    Distinct (roster (startAll started kept)) completed := by
  have hperm := hnew.roster_perm.map Prod.fst
  rw [List.map_append, fst_roster started] at hperm
  constructor
  · refine hperm.nodup_iff.2 (List.nodup_append.2 ⟨hnew.nodup, h.nodup, ?_⟩)
    rintro name hname _ hkept rfl
    exact hnew.not_running name hname (fst_roster kept ▸ hkept)
  · intro name hname
    obtain hname | hname := List.mem_append.1 (hperm.mem_iff.1 hname)
    · exact hnew.not_completed name hname
    · exact h.fresh name hname

/-- A name that is taken stays so when new sub-protocols are started. -/
theorem Taken.startAll (h : Taken name (roster kept) completed)
    (hnew : New started kept completed) :
    Taken name (roster (startAll started kept)) completed := by
  refine h.imp_left fun hmem => ((hnew.roster_perm.map Prod.fst).mem_iff).2 ?_
  rw [List.map_append]
  exact List.mem_append_right _ hmem

/-- A taken name is not given to a sub-protocol that is started. -/
theorem Keeps.startAll (h : Keeps name (roster kept) completed)
    (htaken : Taken name (roster kept) completed) (hnew : New started kept completed) :
    Keeps name (roster (startAll started kept)) completed := by
  refine ⟨fun flag hflag => ?_, h.accepted⟩
  obtain hstarted | hkept := List.mem_append.1 (hnew.roster_perm.mem_iff.1 hflag)
  · have hname : name ∈ started.map Prod.fst := by
      rw [← fst_roster]
      exact List.mem_map_of_mem hstarted
    obtain hmem | hcompleted := htaken
    · exact absurd (fst_roster kept ▸ hmem) (hnew.not_running name hname)
    · exact absurd ((hnew.not_completed name hname).symm.trans hcompleted) nofun
  · exact h.argument flag hkept

/-- A failure changes neither what is running nor what has completed. -/
theorem exists_afterFailure (cause : Failure) (state : Host L)
    (running : List (String × Hosted (Party A L))) : ∃ state',
      afterFailure cause (.host state running) = .host state' running ∧
        state'.completed = state.completed := by
  cases cause with
  | error error => exact ⟨_, rfl, rfl⟩
  | abort abort => exact ⟨_, rfl, rfl⟩

/-- The logic of a host that is ready starts sub-protocols under new names only. -/
theorem Ready.new_started [HostLogic L A ε] (ready : Ready A L ε) :
    New ready.answer.2.2.started ready.running ready.host.completed := by
  have hcontext : ready.context.Fresh :=
    ⟨List.nodup_nil, fun _ h => absurd h List.not_mem_nil, fun _ h => absurd h List.not_mem_nil⟩
  obtain ⟨hrunning, hcompleted, hfresh⟩ := RoundProgram.run_fresh ready.program hcontext
  refine ⟨hfresh.nodup, fun name hname => ?_, fun name hname => ?_⟩
  · have hnot := hfresh.not_running name hname
    rw [hrunning] at hnot
    exact hnot
  · have hnone := hfresh.not_completed name hname
    rw [hcompleted] at hnone
    exact hnone

/-- Finishing a round starts new sub-protocols and changes nothing about the others. -/
theorem Ready.exists_finish [HostLogic L A ε] (ready : Ready A L ε) : ∃ state started,
    ready.finish.next = .host state (startAll started ready.running) ∧
      state.completed = ready.host.completed ∧
      New started ready.running ready.host.completed := by
  rw [Ready.finish_eq]
  split
  · rename_i cause _
    obtain ⟨state, hstate, heq⟩ := exists_afterFailure cause ready.asked ready.running
    exact ⟨state, [], hstate, heq, new_nil⟩
  · exact ⟨_, ready.answer.2.2.started, rfl, rfl, ready.new_started⟩

end

variable [Interactive A ε]

/-- The sub-protocol has come to its end as an argument that does not accept. -/
structure Rejects (ε : Type) [Interactive A ε] (hosted : Hosted (Party A L)) : Prop where
  argument : hosted.argument = true
  terminated : hosted.party.terminated ε = true
  verdict : hosted.party.verdict ε ≠ some true

/-! ### Retiring sub-protocols -/

section

variable {running running' : List (String × Hosted (Party A L))}
  {completed completed' : Table (Option Bool)} {name : String} {hosted : Hosted (Party A L)}
  {result : Except Error Unit}

/-- A sub-protocol that has not come to its end is kept. -/
theorem retire_cons_of_running (h : hosted.party.terminated ε = false) :
    retire ε ((name, hosted) :: running) completed =
      ((retire ε running completed).1, (name, hosted) :: (retire ε running completed).2.1,
        (retire ε running completed).2.2) := by
  rw [retire, if_neg (Bool.eq_false_iff.1 h)]

/-- An argument that rejects stops the retirement, and is not kept. -/
theorem retire_cons_of_rejects (h : Rejects ε hosted) :
    retire ε ((name, hosted) :: running) completed =
      (.error (.argumentRejected name), running, completed) := by
  rw [retire, if_pos h.terminated]
  dsimp only
  rw [if_pos]
  rw [Bool.and_eq_true, bne_iff_ne]
  exact ⟨h.argument, h.verdict⟩

/-- A sub-protocol that has come to its end is recorded with its verdict. -/
theorem retire_cons_of_completes (h : hosted.party.terminated ε = true) (hnot : ¬Rejects ε hosted) :
    retire ε ((name, hosted) :: running) completed =
      retire ε running (completed.insert name (hosted.party.verdict ε)) := by
  rw [retire, if_pos h]
  dsimp only
  rw [if_neg]
  rw [Bool.and_eq_true, bne_iff_ne]
  exact fun hrejects => hnot ⟨hrejects.1, h, hrejects.2⟩

/-- Sub-protocols are retired one by one: each is rejected, completes, or goes on
running. -/
theorem retire_induction
    {motive : List (String × Hosted (Party A L)) → Table (Option Bool) →
      Except Error Unit × List (String × Hosted (Party A L)) × Table (Option Bool) → Prop}
    (nil : ∀ completed, motive [] completed (.ok (), [], completed))
    (rejects : ∀ name hosted running completed, Rejects ε hosted →
      motive ((name, hosted) :: running) completed
        (.error (.argumentRejected name), running, completed))
    (completes : ∀ name hosted running completed out, hosted.party.terminated ε = true →
      ¬Rejects ε hosted → motive running (completed.insert name (hosted.party.verdict ε)) out →
      motive ((name, hosted) :: running) completed out)
    (runs : ∀ name hosted running completed, hosted.party.terminated ε = false →
      motive running completed (retire ε running completed) →
      motive ((name, hosted) :: running) completed ((retire ε running completed).1,
        (name, hosted) :: (retire ε running completed).2.1, (retire ε running completed).2.2))
    (running : List (String × Hosted (Party A L))) (completed : Table (Option Bool)) :
    motive running completed (retire ε running completed) := by
  induction running generalizing completed with
  | nil => exact nil completed
  | cons entry rest ih =>
    obtain ⟨name, hosted⟩ := entry
    by_cases hrejects : Rejects ε hosted
    · rw [retire_cons_of_rejects hrejects]
      exact rejects name hosted rest completed hrejects
    · cases hterminated : hosted.party.terminated ε with
      | true =>
        rw [retire_cons_of_completes hterminated hrejects]
        exact completes name hosted rest completed _ hterminated hrejects (ih _)
      | false =>
        rw [retire_cons_of_running hterminated]
        exact runs name hosted rest completed hterminated (ih _)

/-- Where an argument that does not accept has come to its end, one is rejected. -/
theorem retire_of_rejects (completed : Table (Option Bool)) {entry : String × Hosted (Party A L)}
    (hmem : entry ∈ running) (h : Rejects ε entry.2) : ∃ name, (retire ε running completed).1 =
      .error (.argumentRejected name) := by
  revert hmem
  refine retire_induction (motive := fun running _ out => entry ∈ running →
    ∃ name, out.1 = .error (.argumentRejected name)) ?nil ?rejects ?completes ?runs
    running completed
  case nil => exact fun _ hmem => absurd hmem List.not_mem_nil
  case rejects => exact fun name _ _ _ _ _ => ⟨name, rfl⟩
  case completes =>
    intro name hosted running completed out _ hnot ih hmem
    obtain rfl | hmem := List.mem_cons.1 hmem
    · exact absurd h hnot
    · exact ih hmem
  case runs =>
    intro name hosted running completed hruns ih hmem
    obtain rfl | hmem := List.mem_cons.1 hmem
    · exact absurd h.terminated (Bool.eq_false_iff.1 hruns)
    · exact ih hmem

/-- Retiring fails only for an argument that is rejected. -/
theorem retire_eq_error {cause : Error} (h : (retire ε running completed).1 = .error cause) :
    ∃ name hosted, (name, hosted) ∈ running ∧ Rejects ε hosted ∧
      cause = .argumentRejected name := by
  revert h
  refine retire_induction (motive := fun running _ out => out.1 = .error cause →
    ∃ name hosted, (name, hosted) ∈ running ∧ Rejects ε hosted ∧
      cause = .argumentRejected name) ?nil ?rejects ?completes ?runs running completed
  case nil => exact fun _ h => nomatch h
  case rejects =>
    intro name hosted running completed hrejects h
    exact ⟨name, hosted, List.mem_cons_self, hrejects, (Except.error.inj h).symm⟩
  case completes =>
    intro _ _ running completed out _ _ ih h
    obtain ⟨name, hosted, hmem, hrest⟩ := ih h
    exact ⟨name, hosted, List.mem_cons_of_mem _ hmem, hrest⟩
  case runs =>
    intro _ _ running completed _ ih h
    obtain ⟨name, hosted, hmem, hrest⟩ := ih h
    exact ⟨name, hosted, List.mem_cons_of_mem _ hmem, hrest⟩

/-- The names of the sub-protocols that run on or have completed were there before. -/
theorem retire_names (running : List (String × Hosted (Party A L)))
    (completed : Table (Option Bool)) :
    (roster (retire ε running completed).2.1).Sublist (roster running) ∧
      ∀ name, (retire ε running completed).2.2.has name = true →
        Taken name (roster running) completed := by
  refine retire_induction (motive := fun running completed out =>
    (roster out.2.1).Sublist (roster running) ∧ ∀ name, out.2.2.has name = true →
      Taken name (roster running) completed) ?nil ?rejects ?completes ?runs running completed
  case nil => exact fun _ => ⟨.refl _, fun _ h => .inr h⟩
  case rejects => exact fun _ _ _ _ _ => ⟨.cons _ (.refl _), fun _ h => .inr h⟩
  case completes =>
    rintro name hosted running completed out - - ⟨hsublist, hhas⟩
    refine ⟨hsublist.cons _, fun other h => ?_⟩
    obtain hmem | hother := hhas other h
    · exact .inl (List.mem_cons_of_mem _ hmem)
    · obtain rfl | hother := Table.has_insert.1 hother
      · exact .inl List.mem_cons_self
      · exact .inr hother
  case runs =>
    rintro name hosted running completed - ⟨hsublist, hhas⟩
    refine ⟨hsublist.cons_cons _, fun other h => (hhas other h).imp_left ?_⟩
    exact List.mem_cons_of_mem _

/-- Names stay different when sub-protocols are retired. -/
theorem Distinct.retire (h : Distinct (roster running) completed) :
    Distinct (roster (retire ε running completed).2.1) (retire ε running completed).2.2 := by
  revert h
  refine retire_induction (motive := fun running completed out =>
    Distinct (roster running) completed → Distinct (roster out.2.1) out.2.2)
    ?nil ?rejects ?completes ?runs running completed
  case nil => exact fun _ h => h
  case rejects =>
    exact fun _ _ _ _ _ h => ⟨(List.nodup_cons.1 h.nodup).2, (List.forall_mem_cons.1 h.fresh).2⟩
  case completes =>
    rintro name hosted running completed out - - ih ⟨hnodup, hfresh⟩
    obtain ⟨hname, hnodup⟩ := List.nodup_cons.1 hnodup
    refine ih ⟨hnodup, fun other hother => ?_⟩
    rw [Bool.eq_false_iff, Ne, Table.has_insert, not_or, Bool.not_eq_true]
    exact ⟨fun heq => hname (heq ▸ hother), (List.forall_mem_cons.1 hfresh).2 other hother⟩
  case runs =>
    rintro name hosted running completed - ih ⟨hnodup, hfresh⟩
    obtain ⟨hname, hnodup⟩ := List.nodup_cons.1 hnodup
    obtain ⟨hnone, hfresh⟩ := List.forall_mem_cons.1 hfresh
    obtain ⟨hsublist, hhas⟩ := retire_names (ε := ε) running completed
    obtain ⟨hnodup', hfresh'⟩ := ih ⟨hnodup, hfresh⟩
    refine ⟨List.nodup_cons.2 ⟨?_, hnodup'⟩, List.forall_mem_cons.2 ⟨?_, hfresh'⟩⟩
    · exact fun hmem => hname ((hsublist.map Prod.fst).subset hmem)
    · refine Bool.eq_false_iff.2 fun hcompleted => ?_
      obtain hmem | hcompleted := hhas name hcompleted
      · exact hname hmem
      · exact absurd (hnone.symm.trans hcompleted) nofun

/-- The name of an argument is kept when sub-protocols are retired. -/
theorem Keeps.retire {argument : String} (h : Keeps argument (roster running) completed) :
    Keeps argument (roster (retire ε running completed).2.1)
      (retire ε running completed).2.2 := by
  revert h
  refine retire_induction (motive := fun running completed out =>
    Keeps argument (roster running) completed → Keeps argument (roster out.2.1) out.2.2)
    ?nil ?rejects ?completes ?runs running completed
  case nil => exact fun _ h => h
  case rejects =>
    exact fun _ _ _ _ _ h =>
      ⟨fun flag hflag => h.argument flag (List.mem_cons_of_mem _ hflag), h.accepted⟩
  case completes =>
    rintro name hosted running completed out hterminated hnot ih ⟨hargument, haccepted⟩
    refine ih ⟨fun flag hflag => hargument flag (List.mem_cons_of_mem _ hflag), ?_⟩
    intro verdict hverdict
    by_cases hname : argument = name
    · -- Had the verdict been another, the argument would have been rejected.
      subst hname
      rw [Table.find?_insert_self] at hverdict
      obtain rfl := Option.some.inj hverdict
      by_contra hne
      exact hnot ⟨hargument _ List.mem_cons_self, hterminated, hne⟩
    · rw [Table.find?_insert_of_ne _ _ hname] at hverdict
      exact haccepted verdict hverdict
  case runs =>
    rintro name hosted running completed - ih ⟨hargument, haccepted⟩
    obtain ⟨hargument', haccepted'⟩ :=
      ih ⟨fun flag hflag => hargument flag (List.mem_cons_of_mem _ hflag), haccepted⟩
    refine ⟨fun flag hflag => ?_, haccepted'⟩
    obtain heq | hflag := List.mem_cons.1 hflag
    · exact hargument flag (heq ▸ List.mem_cons_self)
    · exact hargument' flag hflag

/-- A name that is taken stays so when sub-protocols are retired and none is rejected. -/
theorem Taken.retire (hok : (retire ε running completed).1 = .ok ())
    (h : Taken name (roster running) completed) :
    Taken name (roster (retire ε running completed).2.1) (retire ε running completed).2.2 := by
  revert hok h
  refine retire_induction (motive := fun running completed out => out.1 = .ok () →
    Taken name (roster running) completed → Taken name (roster out.2.1) out.2.2)
    ?nil ?rejects ?completes ?runs running completed
  case nil => exact fun _ _ h => h
  case rejects => exact fun _ _ _ _ _ h => nomatch h
  case completes =>
    rintro other hosted running completed out - - ih hok h
    refine ih hok ?_
    obtain hmem | hcompleted := h
    · obtain rfl | hmem := List.mem_cons.1 hmem
      · exact .inr (Table.has_insert.2 (.inl rfl))
      · exact .inl hmem
    · exact .inr (Table.has_insert.2 (.inr hcompleted))
  case runs =>
    rintro other hosted running completed - ih hok h
    obtain hmem | hcompleted := h
    · obtain heq | hmem := List.mem_cons.1 hmem
      · exact .inl (heq ▸ List.mem_cons_self)
      · exact (ih hok (.inl hmem)).imp_left (List.mem_cons_of_mem _)
    · exact (ih hok (.inr hcompleted)).imp_left (List.mem_cons_of_mem _)

end

/-! ### One call -/

/-- What a call can do to the sub-protocols of a host. -/
inductive Moves (ε : Type) [Interactive A ε] (state : Host L)
    (running : List (String × Hosted (Party A L))) :
    Host L → List (String × Hosted (Party A L)) → Prop where
  /-- They are not called. -/
  | still {state' : Host L} (hcompleted : state'.completed = state.completed)
      (hfailed : state.failed = true → state'.failed = true) : Moves ε state running state' running
  /-- They are called, and one of them fails. -/
  | cut {state' : Host L} {running' : List (String × Hosted (Party A L))}
      (hlive : state.failed = false) (hroster : roster running' = roster running)
      (hcompleted : state'.completed = state.completed) : Moves ε state running state' running'
  /-- They are called, and an argument is rejected. -/
  | rejected {called running' : List (String × Hosted (Party A L))} {state' : Host L}
      {cause : Error} (hroster : roster called = roster running)
      (hretire : retire ε called state.completed = (.error cause, running', state'.completed))
      (hfailed : state'.failed = true) : Moves ε state running state' running'
  /-- They are called, those at their end are retired, and others are started. -/
  | round {called kept started : List (String × Hosted (Party A L))} {state' : Host L}
      (hlive : state.failed = false) (hroster : roster called = roster running)
      (hretire : retire ε called state.completed = (.ok (), kept, state'.completed))
      (hnew : New started kept state'.completed) :
      Moves ε state running state' (startAll started kept)

/-- Where the sub-protocols have been called, they move on with those that are retired,
and the logic is asked where none is rejected. -/
theorem settle_moves {before : Host L} (state : Host L) (dispatch : Dispatch (Party A L) ε)
    {running : List (String × Hosted (Party A L))} (hlive : before.failed = false)
    (hcompleted : state.completed = before.completed)
    (hroster : roster dispatch.running = roster running) :
    EitherWay
      (fun taken : Step (Party A L) ε => ∃ state' running', taken.next = .host state' running' ∧
        Moves ε before running state' running')
      (fun ready => retire ε dispatch.running before.completed =
        (.ok (), ready.running, ready.host.completed)) (settle state dispatch) := by
  rw [settle, hcompleted]
  cases dispatch.replies with
  | error cause =>
    obtain ⟨state', hnext, hsame⟩ := exists_afterFailure cause state dispatch.running
    exact .error ⟨state', dispatch.running, hnext, .cut hlive hroster (hsame.trans hcompleted)⟩
  | ok replies =>
    dsimp only
    cases hretire : retire ε dispatch.running before.completed with
    | mk result rest =>
      obtain ⟨kept, completed⟩ := rest
      cases result with
      | error cause => exact .error ⟨_, kept, rfl, .rejected hroster hretire rfl⟩
      | ok done =>
        dsimp only
        cases state.terminateRequested with
        | true => exact .error ⟨_, kept, rfl, .round hlive hroster hretire new_nil⟩
        | false => exact .ok rfl

variable [HostLogic L A ε]

/-- Calling sub-protocols leaves the roster as it is. -/
theorem roster_stepEach (running : List (String × Hosted (Party A L))) (parts : Table Payload) :
    roster (stepEach running parts : Dispatch (Party A L) ε).running = roster running := by
  induction running with
  | nil => rfl
  | cons entry rest ih =>
    obtain ⟨name, hosted⟩ := entry
    cases hreply : (step hosted.party (parts.find? name) : Step (Party A L) ε).reply with
    | error cause =>
      obtain ⟨notes, heq⟩ := stepEach_cons_of_error rest hreply
      rw [heq]
      rfl
    | ok reply =>
      obtain ⟨notes, heq⟩ := stepEach_cons_of_ok rest hreply
      rw [heq]
      exact congrArg (List.cons (name, hosted.argument)) ih

/-- The logic of a host is asked once the sub-protocols have been called and those at
their end retired. -/
theorem prepare_moves (state : Host L) (running : List (String × Hosted (Party A L)))
    (incoming : Option Payload) :
    EitherWay
      (fun taken : Step (Party A L) ε => ∃ state' running', taken.next = .host state' running' ∧
        Moves ε state running state' running')
      (fun ready : Ready A L ε => state.failed = false ∧ ∃ called,
        roster called = roster running ∧
          retire ε called state.completed = (.ok (), ready.running, ready.host.completed))
      (prepare state running incoming) := by
  rw [prepare]
  split
  · exact .error ⟨_, _, rfl, .still rfl id⟩
  rename_i hover
  split
  · exact .error ⟨_, _, rfl, .still rfl id⟩
  split
  · rename_i cause state' hintake
    obtain ⟨inbox, rfl⟩ := Host.exists_inbox hintake
    exact .error ⟨_, _, rfl, .still rfl fun _ => rfl⟩
  · rename_i parts state' hintake
    obtain ⟨entries, inbox, -, -, -, -, rfl⟩ := Host.intake_eq_ok.1 hintake
    rw [isOver, Bool.or_eq_true, not_or, Bool.not_eq_true] at hover
    have hroster := roster_stepEach (ε := ε) running parts
    have hmoves := settle_moves { state with started := true, inbox := inbox }
      (stepEach running parts : Dispatch (Party A L) ε) hover.1 rfl hroster
    exact hmoves.imp_ok fun ready hretire => ⟨hover.1, _, hroster, hretire⟩

/-- A call of a host moves its sub-protocols on. -/
theorem step_moves (state : Host L) (running : List (String × Hosted (Party A L)))
    (incoming : Option Payload) : ∃ state' running',
      (step (.host state running) incoming : Step (Party A L) ε).next = .host state' running' ∧
        Moves ε state running state' running' := by
  have hmoves := prepare_moves (ε := ε) state running incoming
  rw [step_host]
  split
  · rename_i taken hprepare
    exact hmoves.of_error hprepare
  · rename_i ready hprepare
    obtain ⟨hlive, called, hroster, hretire⟩ := hmoves.of_ok hprepare
    obtain ⟨state', started, hnext, hcompleted, hnew⟩ := ready.exists_finish
    refine ⟨state', _, hnext, .round hlive hroster (hretire.trans ?_) (hcompleted ▸ hnew)⟩
    rw [hcompleted]

/-! ### From call to call -/

section

variable {state state' : Host L} {running running' : List (String × Hosted (Party A L))}
  {name : String}

/-- The name is that of an argument, running or completed, unless the host has failed. -/
structure Argues (name : String) (state : Host L)
    (running : List (String × Hosted (Party A L))) : Prop where
  distinct : Distinct (roster running) state.completed
  keeps : Keeps name (roster running) state.completed
  taken : state.failed = false → Taken name (roster running) state.completed

omit [HostLogic L A ε] in
/-- Names stay different in a call. -/
theorem Distinct.moves (h : Distinct (roster running) state.completed)
    (hmoves : Moves ε state running state' running') :
    Distinct (roster running') state'.completed := by
  cases hmoves with
  | still hcompleted => exact hcompleted ▸ h
  | cut hlive hroster hcompleted => exact hroster ▸ hcompleted ▸ h
  | rejected hroster hretire =>
    have hretired := Distinct.retire (ε := ε) (hroster ▸ h)
    rw [hretire] at hretired
    exact hretired
  | round hlive hroster hretire hnew =>
    have hretired := Distinct.retire (ε := ε) (hroster ▸ h)
    rw [hretire] at hretired
    exact hretired.startAll hnew

omit [HostLogic L A ε] in
/-- The name of an argument stays one in a call. -/
theorem Argues.moves (h : Argues name state running)
    (hmoves : Moves ε state running state' running') : Argues name state' running' := by
  have hdistinct := h.distinct.moves hmoves
  cases hmoves with
  | still hcompleted hfailed =>
    refine ⟨hdistinct, hcompleted ▸ h.keeps, fun hlive' => hcompleted ▸ h.taken ?_⟩
    exact Bool.eq_false_iff.2 fun h => absurd (hfailed h) (Bool.eq_false_iff.1 hlive')
  | cut hlive hroster hcompleted =>
    exact ⟨hdistinct, hroster ▸ hcompleted ▸ h.keeps, fun _ => hroster ▸ hcompleted ▸ h.taken hlive⟩
  | rejected hroster hretire hfailed =>
    have hkeeps := Keeps.retire (ε := ε) (hroster ▸ h.keeps)
    rw [hretire] at hkeeps
    exact ⟨hdistinct, hkeeps, fun hlive' => absurd (hfailed.symm.trans hlive') nofun⟩
  | round hlive hroster hretire hnew =>
    have hkeeps := Keeps.retire (ε := ε) (hroster ▸ h.keeps)
    have htaken := Taken.retire (ε := ε) (congrArg Prod.fst hretire) (hroster ▸ h.taken hlive)
    rw [hretire] at hkeeps htaken
    exact ⟨hdistinct, hkeeps.startAll htaken hnew, fun _ => htaken.startAll hnew⟩

/-- What every move keeps holds after any messages. -/
theorem after_keeps {P : Host L → List (String × Hosted (Party A L)) → Prop}
    (hmoves : ∀ {state running state' running'}, Moves ε state running state' running' →
      P state running → P state' running')
    (h : P state running) (messages : List (Option Payload)) : ∃ state' running',
      (Party.host state running).after ε messages = .host state' running' ∧ P state' running' := by
  induction messages generalizing state running with
  | nil => exact ⟨state, running, rfl, h⟩
  | cons incoming messages ih =>
    obtain ⟨state', running', hnext, hmoved⟩ := step_moves (ε := ε) state running incoming
    rw [after_cons, hnext]
    exact ih (hmoves hmoved h)

end

end Party
end ThreeMove

/-
# What holds after a round, whatever the logic

Logic can only ask, so a property that every granted request keeps holds at the
end of a round if it did at the beginning (`RoundProgram.run_keeps`).  The names
that were running or had completed when the round began stay what they are, and
sub-protocols are started under new names only (`RoundProgram.run_fresh`).
-/

import ThreeMove.Session.Round
import ThreeMove.Proofs.Result

namespace ThreeMove

variable {P ε α : Type}

namespace RoundState

variable {context context' : RoundState P}

/-- A value that is sent is put into the outbox. -/
theorem send_eq_ok {id : String} {value : Payload} (h : context.send id value = .ok context') :
    context' = { context with outbox := context.outbox.insert id value } := by
  obtain ⟨-, -, h⟩ := bind_eq_ok.1 h
  split at h
  · exact nomatch h
  · exact (Except.ok.inj h).symm

/-- A value that is received is taken out of the inbox. -/
theorem receive_eq_ok {id : String} {value : Payload}
    (h : context.receive id = .ok (value, context')) :
    context' = { context with inbox := context.inbox.erase id } := by
  rw [receive] at h
  split at h
  · exact (Prod.mk.inj (Except.ok.inj h)).2.symm
  · exact nomatch h

/-- A sub-protocol is started only under a name that is not in use and never was. -/
theorem start_eq_ok {name : String} {hosted : Hosted P}
    (h : context.start name hosted = .ok context') :
    context.isRunning name = false ∧ context.completed.has name = false ∧
      context' = { context with started := context.started ++ [(name, hosted)] } := by
  obtain ⟨-, -, h⟩ := bind_eq_ok.1 h
  split at h
  · exact nomatch h
  · rename_i hname
    rw [Bool.not_eq_true, Bool.or_eq_false_iff] at hname
    exact ⟨hname.1, hname.2, (Except.ok.inj h).symm⟩

/-- A name is not running if it neither was nor is started in the round. -/
theorem isRunning_eq_false {name : String} : context.isRunning name = false ↔
    name ∉ context.running ∧ name ∉ context.started.map Prod.fst := by
  simp only [isRunning, Bool.or_eq_false_iff, List.contains_eq_mem, decide_eq_false_iff_not,
    List.any_eq_false, beq_iff_eq, List.mem_map, not_exists, not_and]

/-- The sub-protocols started in the round have names of their own, which none that
is running or has completed bears. -/
structure Fresh (context : RoundState P) : Prop where
  nodup : (context.started.map Prod.fst).Nodup
  not_running : ∀ name ∈ context.started.map Prod.fst, name ∉ context.running
  not_completed : ∀ name ∈ context.started.map Prod.fst, context.completed.has name = false

/-- What is started in the round keeps names of its own. -/
theorem Fresh.start (h : context.Fresh) {name : String} {hosted : Hosted P}
    (hstart : context.start name hosted = .ok context') : context'.Fresh := by
  obtain ⟨hrunning, hcompleted, rfl⟩ := start_eq_ok hstart
  rw [isRunning_eq_false] at hrunning
  constructor
  · rw [List.map_append, List.map_singleton]
    refine List.nodup_append.2 ⟨h.nodup, List.pairwise_singleton _ _, ?_⟩
    rintro other hother _ hname rfl
    obtain rfl := List.mem_singleton.1 hname
    exact hrunning.2 hother
  · rw [List.map_append, List.map_singleton, List.forall_mem_append, List.forall_mem_singleton]
    exact ⟨h.not_running, hrunning.1⟩
  · rw [List.map_append, List.map_singleton, List.forall_mem_append, List.forall_mem_singleton]
    exact ⟨h.not_completed, hcompleted⟩

end RoundState

namespace RoundProgram

/-- What every granted request keeps, a round keeps. -/
theorem run_keeps {Q : RoundState P → Prop}
    (send : ∀ {context context' id value}, Q context → context.send id value = .ok context' →
      Q context')
    (receive : ∀ {context context' id value}, Q context →
      context.receive id = .ok (value, context') → Q context')
    (start : ∀ {context context' name hosted}, Q context →
      context.start name hosted = .ok context' → Q context')
    (terminate : ∀ {context}, Q context → Q { context with terminating := true })
    (program : RoundProgram P ε α) {context : RoundState P} (h : Q context) :
    Q (program.run context).2.2 := by
  induction program generalizing context with
  | done value => exact h
  | send id value next ih =>
    rw [run]
    split
    · rename_i hsend
      exact ih _ (send h hsend)
    · exact ih _ h
  | receive id next ih =>
    rw [run]
    split
    · rename_i hreceive
      exact ih _ (receive h hreceive)
    · exact ih _ h
  | start name hosted next ih =>
    rw [run]
    split
    · rename_i hstart
      exact ih _ (start h hstart)
    · exact ih _ h
  | hasReceived id next ih => exact ih _ h
  | isRunning name next ih => exact ih _ h
  | hasCompleted name next ih => exact ih _ h
  | verdictOf name next ih => exact ih _ h
  | terminate next ih => exact ih (terminate h)
  | note event next ih => exact ih h

/-- Names in use stay, and what is started has new ones. -/
theorem run_fresh (program : RoundProgram P ε α) {context : RoundState P} (h : context.Fresh) :
    (program.run context).2.2.running = context.running ∧
      (program.run context).2.2.completed = context.completed ∧
      (program.run context).2.2.Fresh := by
  refine run_keeps (Q := fun later => later.running = context.running ∧
    later.completed = context.completed ∧ later.Fresh) ?_ ?_ ?_ ?_ program ⟨rfl, rfl, h⟩
  · rintro before after id value ⟨hrunning, hcompleted, hfresh⟩ hsend
    obtain rfl := RoundState.send_eq_ok hsend
    exact ⟨hrunning, hcompleted, hfresh.nodup, hfresh.not_running, hfresh.not_completed⟩
  · rintro before after id value ⟨hrunning, hcompleted, hfresh⟩ hreceive
    obtain rfl := RoundState.receive_eq_ok hreceive
    exact ⟨hrunning, hcompleted, hfresh.nodup, hfresh.not_running, hfresh.not_completed⟩
  · rintro before after name hosted ⟨hrunning, hcompleted, hfresh⟩ hstart
    have hafter := hfresh.start hstart
    obtain ⟨-, -, rfl⟩ := RoundState.start_eq_ok hstart
    exact ⟨hrunning, hcompleted, hafter⟩
  · rintro before ⟨hrunning, hcompleted, hfresh⟩
    exact ⟨hrunning, hcompleted, hfresh.nodup, hfresh.not_running, hfresh.not_completed⟩

end RoundProgram
end ThreeMove

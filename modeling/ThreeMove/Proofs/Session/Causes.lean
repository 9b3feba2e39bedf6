/-
# Where a failure comes from

A call that fails has failed somewhere: it is a call of an elementary party that fails,
or of a host that is over, cannot take the message in, rejects an argument or has
failing logic, and the call of that party is made in the course of the one that fails
(`Party.exists_raises`).
-/

import ThreeMove.Proofs.Session.Roster

namespace ThreeMove
namespace Party

variable {A L ε : Type}

/-- Finishing a round does not fail. -/
theorem finishRound_ne_error {replies outbox : Table Payload} {notes : List ε}
    {state : Host L} {running : List (String × Hosted (Party A L))} {cause : Failure} :
    (finishRound replies outbox notes (.host state running)).reply ≠ .error cause :=
  nofun

/-- What the logic is asked for in a round is all that can still fail. -/
theorem Ready.finish_eq_error [HostLogic L A ε] {ready : Ready A L ε} {cause : Failure}
    (h : ready.finish.reply = .error cause) :
    ready.answer.1.1 = .error cause := by
  rw [Ready.finish_eq] at h
  split at h
  · rename_i hanswer
    exact hanswer.trans (congrArg Except.error (Except.error.inj h))
  · exact absurd h finishRound_ne_error

variable [Interactive A ε]

/-- The party itself gives the failure, not one of its sub-protocols. -/
inductive Raises (ε : Type) [Interactive A ε] [HostLogic L A ε] :
    Failure → Party A L → Option Payload → Prop where
  | atom {cause : Failure} {party : A} {incoming : Option Payload}
      (h : (Interactive.step party incoming : Step A ε).reply = .error cause) :
      Raises ε cause (.atom party) incoming
  /-- The host accepts no messages any more. -/
  | over {state : Host L} {running : List (String × Hosted (Party A L))}
      {incoming : Option Payload} (h : isOver state running = true) :
      Raises ε (.error .protocolTerminated) (.host state running) incoming
  /-- The message cannot be taken in. -/
  | intake {cause : Error} {state : Host L} {running : List (String × Hosted (Party A L))}
      {incoming : Option Payload} (hlive : isOver state running = false)
      (h : (Host.intake { state with started := true } (running.map Prod.fst) incoming).1 =
        .error cause) :
      Raises ε (.error cause) (.host state running) incoming
  /-- A sub-protocol that is called comes to its end as an argument that does not accept. -/
  | rejected {name : String} {hosted : Hosted (Party A L)} {state state' : Host L}
      {running : List (String × Hosted (Party A L))} {incoming : Option Payload}
      {parts : Table Payload} (henters : Enters state running incoming parts state')
      (hmem : (name, hosted) ∈ (stepEach running parts : Dispatch (Party A L) ε).running)
      (h : Rejects ε hosted) :
      Raises ε (.error (.argumentRejected name)) (.host state running) incoming
  /-- The logic of the host fails. -/
  | logic {cause : Failure} {state : Host L} {running : List (String × Hosted (Party A L))}
      {incoming : Option Payload} {ready : Ready A L ε}
      (hready : prepare state running incoming = .ok ready)
      (h : ready.answer.1.1 = .error cause) : Raises ε cause (.host state running) incoming

variable {state : Host L} {running : List (String × Hosted (Party A L))}
  {incoming : Option Payload} {cause : Failure}

/-- Where the sub-protocols have been called, a host that does not get to its logic fails
with one of them, or for an argument that is rejected. -/
theorem settle_eq_error {dispatch : Dispatch (Party A L) ε} {taken : Step (Party A L) ε}
    (hsettle : settle state dispatch = .error taken) (h : taken.reply = .error cause) :
    dispatch.replies = .error cause ∨ ∃ name hosted, (name, hosted) ∈ dispatch.running ∧
      Rejects ε hosted ∧ cause = .error (.argumentRejected name) := by
  rw [settle] at hsettle
  split at hsettle
  · rename_i cause' hreplies
    obtain rfl := Except.error.inj hsettle
    obtain rfl := Except.error.inj h
    exact .inl hreplies
  · split at hsettle
    · rename_i hretire
      obtain rfl := Except.error.inj hsettle
      obtain rfl := Except.error.inj h
      obtain ⟨name, hosted, hmem, hrejects, rfl⟩ := retire_eq_error (congrArg Prod.fst hretire)
      exact .inr ⟨name, hosted, hmem, hrejects, rfl⟩
    · split at hsettle
      · obtain rfl := Except.error.inj hsettle
        exact absurd h finishRound_ne_error
      · cases hsettle

variable [HostLogic L A ε]

/-- A host that does not get to its logic fails itself, or with a sub-protocol that it
calls. -/
theorem prepare_eq_error {taken : Step (Party A L) ε}
    (hprepare : prepare state running incoming = .error taken) (h : taken.reply = .error cause) :
    Raises ε cause (.host state running) incoming ∨ ∃ name hosted part,
      (name, hosted) ∈ running ∧ SubCall ε (.host state running) incoming name hosted part ∧
      (step hosted.party part : Step (Party A L) ε).reply = .error cause := by
  rw [prepare] at hprepare
  split at hprepare
  · rename_i hover
    obtain rfl := Except.error.inj hprepare
    obtain rfl := Except.error.inj h
    exact .inl (.over hover)
  rename_i hlive
  split at hprepare
  · obtain rfl := Except.error.inj hprepare
    cases h
  rename_i hawake
  split at hprepare
  · rename_i hintake
    obtain rfl := Except.error.inj hprepare
    obtain rfl := Except.error.inj h
    exact .inl (.intake (Bool.eq_false_iff.2 hlive) (congrArg Prod.fst hintake))
  · rename_i parts state' hintake
    have henters : Enters state running incoming parts state' :=
      ⟨Bool.eq_false_iff.2 hlive, Bool.eq_false_iff.2 hawake, hintake⟩
    obtain hreplies | ⟨name, hosted, hmem, hrejects, rfl⟩ := settle_eq_error hprepare h
    · obtain ⟨before, name, hosted, after, replies, rfl, hbefore, hcause⟩ :=
        exists_of_stepEach_eq_error hreplies
      exact .inr ⟨name, hosted, _, List.mem_append_right _ List.mem_cons_self,
        .intro henters hbefore, hcause⟩
    · exact .inl (.rejected henters hmem hrejects)

/-- A call that fails has its cause in a call that is made in its course. -/
theorem exists_raises {party : Party A L}
    (h : (step party incoming : Step (Party A L) ε).reply = .error cause) :
    ∃ inner message, Within ε inner message party incoming ∧ Raises ε cause inner message := by
  induction party using Party.induction generalizing incoming with
  | atom party => exact ⟨_, _, .self, .atom h⟩
  | host state running ih =>
    rw [step_host] at h
    split at h
    · rename_i taken hprepare
      obtain hraises | ⟨name, hosted, part, hmem, hcall, hreply⟩ := prepare_eq_error hprepare h
      · exact ⟨_, _, .self, hraises⟩
      · obtain ⟨inner, message, hwithin, hraises⟩ := ih _ hmem hreply
        exact ⟨inner, message, .sub hcall hwithin, hraises⟩
    · rename_i ready hprepare
      exact ⟨_, _, .self, .logic hprepare (Ready.finish_eq_error h)⟩

end Party
end ThreeMove

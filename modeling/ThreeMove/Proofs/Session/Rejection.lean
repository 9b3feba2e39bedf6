/-
# A rejected argument is fatal

An argument that comes to its end without accepting ends the call that it takes part
in, and every call around that one, before any logic is asked
(`Party.SubCall.fails_of_rejects`).  A refusal is for good: a host that has failed
neither answers nor asks its logic again (`Party.Fails.ends`).  So whatever logic
sees of an argument that has completed, it has accepted (`Party.Argues.consulted`).
-/

import ThreeMove.Proofs.Session.Roster
import ThreeMove.Proofs.Statement.Accepted
import ThreeMove.Session.Script

namespace ThreeMove
namespace Party

variable {A L ε : Type} [Interactive A ε]

/-- Where sub-protocols could be called, one that is to be retired may still fail the
host. -/
theorem settle_of_retire_eq_error {state : Host L} {dispatch : Dispatch (Party A L) ε}
    {replies : Table Payload} {cause : Error} (hreplies : dispatch.replies = .ok replies)
    (h : (retire ε dispatch.running state.completed).1 = .error cause) :
    ∃ state' running', settle state dispatch = .error ⟨.error (.error cause), dispatch.notes,
      afterFailure (.error cause) (.host state' running')⟩ := by
  rw [settle, hreplies]
  dsimp only
  cases hretire : retire ε dispatch.running state.completed with
  | mk result rest =>
    rw [hretire] at h
    obtain rfl : result = .error cause := h
    exact ⟨_, _, rfl⟩

variable [HostLogic L A ε]

/-- The party has failed for good: no call gives a message, asks the logic or changes
anything any more. -/
structure Halted (ε : Type) [Interactive A ε] [HostLogic L A ε] (party : Party A L) : Prop where
  failed : party.hasFailed = true
  refuses : ∀ message, step party message = (.refuse .protocolTerminated party : Step (Party A L) ε)
  unasked : ∀ message, consulted ε party message = none
  stays : ∀ later, party.after ε later = party

/-- The call fails for the cause without asking the logic, in a step that is settled before the
logic could have a part in it; if the cause is a refusal, the party has failed for good. -/
structure Ends (ε : Type) [Interactive A ε] [HostLogic L A ε] (party : Party A L)
    (incoming : Option Payload) (cause : Failure) : Prop where
  reply : (step party incoming : Step (Party A L) ε).reply = .error cause
  unasked : consulted ε party incoming = none
  settled : ∀ state running, party = .host state running →
    prepare state running incoming = .error (step party incoming : Step (Party A L) ε)
  halted : ∀ error, cause = .error error →
    Halted ε (step party incoming : Step (Party A L) ε).next

/-- A failure ends the party. -/
theorem Fails.ends {party : Party A L} {incoming : Option Payload} {cause : Failure}
    (h : Fails ε party incoming cause) : Ends ε party incoming cause := by
  refine ⟨h.reply, h.unasked, ?_, fun error hcause => ?_⟩
  · rintro state running rfl
    exact consulted_eq_none.1 h.unasked
  have hfailed := h.final error hcause
  exact ⟨hfailed, fun message => (step_of_hasFailed hfailed message).1,
    fun message => (step_of_hasFailed hfailed message).2, after_of_hasFailed hfailed⟩

/-- A host fails in a call of an argument that comes to its end without accepting: for
an argument that is rejected, unless a sub-protocol fails first. -/
theorem SubCall.fails_of_rejects {party : Party A L} {incoming part : Option Payload}
    {name : String} {hosted : Hosted (Party A L)}
    (hcall : SubCall ε party incoming name hosted part)
    (h : Rejects ε (afterCall ε hosted part)) : ∃ cause, Fails ε party incoming cause ∧
      ((∃ other, cause = .error (.argumentRejected other)) ∨
        ∃ other hosted' part', SubCall ε party incoming other hosted' part' ∧
          (step hosted'.party part' : Step (Party A L) ε).reply = .error cause) := by
  obtain ⟨henters, hbefore⟩ := hcall
  rename_i state state' before after parts replies
  cases hreplies : (stepEach (before ++ (name, hosted) :: after) parts :
      Dispatch (Party A L) ε).replies with
  | error cause =>
    obtain ⟨before', other, hosted', after', replies', heq, hbefore', hcause⟩ :=
      exists_of_stepEach_eq_error hreplies
    have hother : SubCall ε (.host state (before ++ (name, hosted) :: after)) incoming other
        hosted' (parts.find? other) := by
      rw [heq] at henters ⊢
      exact .intro henters hbefore'
    exact ⟨cause, hother.fails hcause, .inr ⟨other, hosted', _, hother, hcause⟩⟩
  | ok replies' =>
    obtain ⟨other, hretire⟩ := retire_of_rejects state'.completed
      (stepEach_append hbefore).1 h
    obtain ⟨state'', running', hsettle⟩ := settle_of_retire_eq_error hreplies hretire
    exact ⟨_, .of_prepare (henters.prepare.trans hsettle), .inl ⟨other, rfl⟩⟩

section

variable {state : Host L} {running : List (String × Hosted (Party A L))} {name : String}

/-- No name stands for two sub-protocols, whatever a host has been called on. -/
theorem exists_after_ofLogic (logic : L) (sendsFirst : Bool) (messages : List (Option Payload)) :
    ∃ state running, (ofLogic logic sendsFirst : Party A L).after ε messages =
      .host state running ∧ Distinct (roster running) state.completed := by
  have hnew : Distinct (roster ([] : List (String × Hosted (Party A L))))
      (Host.new logic sendsFirst).completed :=
    ⟨List.nodup_nil, fun _ h => absurd h List.not_mem_nil⟩
  exact after_keeps (P := fun state running => Distinct (roster running) state.completed)
    (fun hmoves h => h.moves hmoves) hnew messages

omit [Interactive A ε] [HostLogic L A ε] in
/-- A name stands for an argument if an argument runs under it. -/
theorem Argues.of_mem {hosted : Hosted (Party A L)}
    (hdistinct : Distinct (roster running) state.completed) (hmem : (name, hosted) ∈ running)
    (h : hosted.argument = true) : Argues name state running := by
  have hentry : (name, true) ∈ roster running := h ▸ List.mem_map_of_mem hmem
  have hname : name ∈ (roster running).map Prod.fst := List.mem_map_of_mem hentry
  refine ⟨hdistinct, ⟨fun flag hflag => ?_, fun verdict hverdict => ?_⟩, fun _ => .inl hname⟩
  · exact (Prod.mk.inj (List.inj_on_of_nodup_map hdistinct.nodup hflag hentry rfl)).2
  · have hhas := hdistinct.fresh name hname
    rw [Table.has_eq_isSome_find?, hverdict] at hhas
    exact nomatch hhas

/-- Logic that looks at an argument that has completed sees that it accepts. -/
theorem Argues.consulted {incoming : Option Payload} {context : RoundState (Party A L)}
    (h : Argues name state running)
    (hconsulted : consulted ε (.host state running) incoming = some context)
    (verdict : Option Bool) (hverdict : context.completed.find? name = some verdict) :
    verdict = some true := by
  obtain ⟨ready, hprepare, rfl⟩ := consulted_eq_some.1 hconsulted
  obtain ⟨-, called, hroster, hretire⟩ := (prepare_moves state running incoming).of_ok hprepare
  have hkeeps := Keeps.retire (ε := ε) (hroster ▸ h.keeps)
  rw [hretire] at hkeeps
  exact hkeeps.accepted verdict hverdict

end

/-- The end of an argument that does not accept is fatal: the call in which it comes and
every call around that one ask no logic and fail, for an argument that is rejected or as a
sub-protocol does that is called beside it; and unless that is an abort, no call after it
gives a message or asks the logic.  What logic sees of an argument that has completed is
that it accepts. -/
theorem rejection_fatal :
    (∀ (party : Party A L) (incoming : Option Payload) (name : String)
        (hosted : Hosted (Party A L)) (part : Option Payload),
      SubCall ε party incoming name hosted part → Rejects ε (afterCall ε hosted part) →
      ∃ cause, ((∃ other, cause = .error (.argumentRejected other)) ∨
          ∃ other hosted' part', SubCall ε party incoming other hosted' part' ∧
            (step hosted'.party part' : Step (Party A L) ε).reply = .error cause) ∧
        ∀ outer message, Within ε party incoming outer message → Ends ε outer message cause) ∧
    ∀ (logic : L) (sendsFirst : Bool) (earlier : List (Option Payload)) (state : Host L)
        (running : List (String × Hosted (Party A L))) (name : String)
        (hosted : Hosted (Party A L)),
      (ofLogic logic sendsFirst : Party A L).after ε earlier = .host state running →
      (name, hosted) ∈ running → hosted.argument = true → ∀ later, ∃ state' running',
        (Party.host state running).after ε later = .host state' running' ∧
        (∀ verdict, state'.completed.find? name = some verdict → verdict = some true) ∧
        ∀ message context, consulted ε (.host state' running') message = some context →
          ∀ verdict, context.completed.find? name = some verdict → verdict = some true := by
  constructor
  · intro party incoming name hosted part hcall hrejects
    obtain ⟨cause, hfails, hcause⟩ := hcall.fails_of_rejects hrejects
    exact ⟨cause, hcause, fun outer message hwithin => (hwithin.fails hfails).ends⟩
  · intro logic sendsFirst earlier state running name hosted hearlier hmem hargument later
    obtain ⟨_, _, hstate, hdistinct⟩ :=
      exists_after_ofLogic (A := A) (ε := ε) logic sendsFirst earlier
    obtain ⟨rfl, rfl⟩ := Party.host.inj (hearlier.symm.trans hstate)
    have hargues : Argues name state running := .of_mem hdistinct hmem hargument
    obtain ⟨state', running', hlater, hargues⟩ :=
      after_keeps (ε := ε) (P := Argues name) (fun hmoves h => h.moves hmoves) hargues later
    exact ⟨state', running', hlater, hargues.keeps.accepted, fun _ _ => hargues.consulted⟩

/-- A script that asks for a proof of the discrete logarithm of `six`. -/
def asking : Script Ristretto where
  name := "asking"
  rounds := [(0, [.perform false
    (.start "proof" true (.ok (.verifier (.modP Statement.six) ⟨fun _ => 0, 0, 1⟩)))])]
  otherwise := []

/-- The verifier that `asking` starts, at a stage. -/
def judge (stage : VerifierStage Ristretto) : Party (Role Ristretto) (Script Ristretto) :=
  .atom (.verifier { Verifier.new (Statement.modP Statement.six).protocol ⟨fun _ => 0, 0, 1⟩ with
    stage := stage })

/-- A host of `asking` in its first rounds. -/
def asked (round : Nat) (stage : VerifierStage Ristretto) :
    Party (Role Ristretto) (Script Ristretto) :=
  .host { Host.new asking true with started := true, round := round }
    [("proof", ⟨judge stage, true⟩)]

/-- Whether a host has recorded a verdict under the name. -/
def records {A L : Type} (name : String) : Party A L → Bool
  | .atom _ => false
  | .host state _ => state.completed.has name

/-- The hypotheses are satisfiable: a response that cannot be read is fatal two hosts
deep, and for one that is right it is recorded that the argument accepts. -/
theorem rejection_fatal_asking :
    (∃ cause, Ends (ScriptEvent Ristretto)
      (.host { Host.new asking true with started := true, round := 2 }
        [("inner", ⟨asked 4 (.challenged (.residue 1) 0), false⟩)])
      (some (.map [("inner", .map [("proof", .bytes [])])])) cause) ∧
    ∃ state running, (asked 2 .waiting).after (ScriptEvent Ristretto)
        [some (.map [("proof", .bytes [1])]), some (.map [("proof", .bytes [0])])] =
          .host state running ∧
      state.completed.find? "proof" = some (some true) := by
  obtain ⟨hfatal, hkeeps⟩ :=
    rejection_fatal (A := Role Ristretto) (L := Script Ristretto) (ε := ScriptEvent Ristretto)
  constructor
  · have houter : Enters { Host.new asking true with started := true, round := 2 }
        [("inner", ⟨asked 4 (.challenged (.residue 1) 0), false⟩)]
        (some (.map [("inner", .map [("proof", .bytes [])])]))
        [("inner", .map [("proof", .bytes [])])]
        { Host.new asking true with started := true, round := 2 } :=
      ⟨rfl, rfl, rfl⟩
    have hinner : Enters { Host.new asking true with started := true, round := 4 }
        [("proof", ⟨judge (.challenged (.residue 1) 0), true⟩)]
        (some (.map [("proof", .bytes [])])) [("proof", .bytes [])]
        { Host.new asking true with started := true, round := 4 } :=
      ⟨rfl, rfl, rfl⟩
    have hverdict : ((afterCall (ScriptEvent Ristretto)
        ⟨judge (.challenged (.residue 1) 0), true⟩ (some (.bytes []))).party.verdict
          (ScriptEvent Ristretto)) = some false := by decide +kernel
    have hrejects : Rejects (ScriptEvent Ristretto) (afterCall (ScriptEvent Ristretto)
        ⟨judge (.challenged (.residue 1) 0), true⟩ (some (.bytes []))) :=
      ⟨rfl, by decide +kernel, by rw [hverdict]; decide⟩
    obtain ⟨cause, -, hends⟩ := hfatal _ _ _ _ _ (.first hinner) hrejects
    exact ⟨cause, hends _ _ (.sub (.first houter) .self)⟩
  · have hstarted : (ofLogic asking true : Party (Role Ristretto) (Script Ristretto)).after
        (ScriptEvent Ristretto) [none] = asked 2 .waiting := by with_unfolding_all rfl
    obtain ⟨state, running, hlater, haccepted, -⟩ := hkeeps asking true [none] _ _ "proof" _
      hstarted List.mem_cons_self rfl
        [some (.map [("proof", .bytes [1])]), some (.map [("proof", .bytes [0])])]
    refine ⟨state, running, hlater, ?_⟩
    have hrecords : state.completed.has "proof" = true :=
      (congrArg (records "proof") hlater).symm.trans (by decide +kernel)
    rw [Table.has_eq_isSome_find?] at hrecords
    obtain ⟨verdict, hverdict⟩ := Option.isSome_iff_exists.1 hrecords
    rw [hverdict, haccepted verdict hverdict]

end Party
end ThreeMove

/-
# Trailing replies

The copy of a sub-protocol on the other side may still answer when the one on this side
has completed, and the other side when this one has come to its end.  Such an answer is
harmless exactly if it is the empty table (`Party.harmless_iff_empty`): as a part of a
message that could as well be missing, and no message is called unexpected for it in any
execution.  What is empty at a greater depth is refused, so that parents of
sub-protocols that are hosts again may fail for no more than that
(`Party.empty_at_depth_unexpected`).
-/

import ThreeMove.Proofs.Session.Causes
import ThreeMove.Proofs.Session.Turns
import ThreeMove.Group.Ristretto
import ThreeMove.Session.Script

namespace ThreeMove

/-- There is nothing in the payload but tables. -/
inductive Payload.ContentFree : Payload → Prop where
  | map {entries : List (String × Payload)} (h : ∀ entry ∈ entries, ContentFree entry.2) :
      ContentFree (.map entries)

namespace Party

variable {A L ε : Type}

/-- The host takes messages, has room for the values among the entries, and has heard of
everyone that the others are for. -/
structure Admits (state : Host L) (running : List (String × Hosted (Party A L)))
    (entries : Table Payload) : Prop where
  live : isOver state running = false
  received : (state.received entries).1 = .ok ()
  known : ∀ entry ∈ entries, entry.1 = Host.mailboxKey ∨ entry.1 ∈ running.map Prod.fst ∨
    state.completed.has entry.1 = true

variable [Interactive A ε] [HostLogic L A ε]

/-- Empty tables for sub-protocols that have completed could as well be missing. -/
theorem step_dropTrailing (state : Host L) (running : List (String × Hosted (Party A L)))
    (entries : Table Payload) :
    (step (.host state running) (some (.map (state.dropTrailing entries))) :
        Step (Party A L) ε) = step (.host state running) (some (.map entries)) := by
  have hintake := Host.intake_dropTrailing { state with started := true }
    (running.map Prod.fst) entries
  have hprepare : (prepare state running (some (.map (state.dropTrailing entries))) :
      Except (Step (Party A L) ε) (Ready A L ε)) = prepare state running (some (.map entries)) := by
    rw [prepare, prepare, ← hintake]
    rfl
  rw [step_host, step_host, hprepare]

/-- Anything else for a sub-protocol that has completed fails the host. -/
theorem Admits.fails {state : Host L} {running : List (String × Hosted (Party A L))}
    {entries : Table Payload} (h : Admits state running entries) {entry : String × Payload}
    (hmem : entry ∈ entries) (hname : entry.1 ≠ Host.mailboxKey)
    (hnot : entry.1 ∉ running.map Prod.fst) (hpayload : entry.2 ≠ .emptyMap) :
    Fails ε (.host state running) (some (.map entries))
      (.error (.unexpectedMessage "completed sub-protocol")) := by
  obtain ⟨taken, hintake⟩ : ∃ taken, Host.intake { state with started := true }
      (running.map Prod.fst) (some (.map entries)) =
        (.error (.unexpectedMessage "completed sub-protocol"), taken) :=
    ⟨_, Prod.ext (Host.intake_eq_unexpectedMessage_of_mem h.received h.known hmem hname hnot
      hpayload) rfl⟩
  have hidles : state.idles (some (.map entries)) = false := Bool.and_false _
  have hprepare : (prepare state running (some (.map entries)) :
      Except (Step (Party A L) ε) (Ready A L ε)) =
        .error ⟨.error (.error (.unexpectedMessage "completed sub-protocol")), [],
          afterFailure (.error (.unexpectedMessage "completed sub-protocol"))
            (.host taken running)⟩ := by
    rw [prepare, if_neg (Bool.eq_false_iff.1 h.live), if_neg (Bool.eq_false_iff.1 hidles), hintake]
    rfl
  exact .of_prepare hprepare

/-- A party says that a message is unexpected. -/
inductive Complains (ε : Type) [Interactive A ε] [HostLogic L A ε] (text : String) :
    Party A L → Option Payload → Prop where
  /-- There is something in it, other than an empty table, for a sub-protocol that has
  completed. -/
  | completed {state : Host L} {running : List (String × Hosted (Party A L))}
      {entries : Table Payload} {name : String} {payload : Payload}
      (htext : text = "completed sub-protocol") (hmem : (name, payload) ∈ entries)
      (hname : name ≠ Host.mailboxKey) (hnot : name ∉ running.map Prod.fst)
      (hcompleted : state.completed.has name = true) (hpayload : payload ≠ .emptyMap) :
      Complains ε text (.host state running) (some (.map entries))
  /-- The logic of the host says so. -/
  | logic {state : Host L} {running : List (String × Hosted (Party A L))}
      {incoming : Option Payload} {ready : Ready A L ε}
      (hready : prepare state running incoming = .ok ready)
      (h : ready.answer.1.1 = .error (.error (.unexpectedMessage text))) :
      Complains ε text (.host state running) incoming
  /-- An elementary party says so. -/
  | atom {party : A} {incoming : Option Payload}
      (h : (Interactive.step party incoming : Step A ε).reply =
        .error (.error (.unexpectedMessage text))) :
      Complains ε text (.atom party) incoming

/-- A party that itself says a message is unexpected complains. -/
theorem Raises.complains {text : String} {party : Party A L} {incoming : Option Payload}
    (h : Raises ε (.error (.unexpectedMessage text)) party incoming) :
    Complains ε text party incoming := by
  cases h with
  | atom h => exact .atom h
  | intake hlive h =>
    obtain ⟨rfl, entries, name, payload, rfl, hmem, hname, hnot, hcompleted, hpayload⟩ :=
      Host.intake_eq_unexpectedMessage h
    exact .completed rfl hmem hname hnot hcompleted hpayload
  | logic hready h => exact .logic hready h

/-- What a party is handed in an execution is unexpected: the party has come to its end,
or says so itself, or one that it calls does. -/
inductive Unexpected (ε : Type) [Interactive A ε] [HostLogic L A ε] (text : String)
    (party : Party A L) : Option Payload → Prop where
  | terminated {payload : Payload} (htext : text = "terminated")
      (hparty : party.terminated ε = true) (hpayload : payload ≠ .emptyMap) :
      Unexpected ε text party (some payload)
  | within {message : Option Payload} {inner : Party A L} {incoming : Option Payload}
      (hwithin : Within ε inner incoming party message) (h : Complains ε text inner incoming) :
      Unexpected ε text party message

/-- What is said to be unexpected in a turn is unexpected to the party. -/
theorem Unexpected.of_turn {text : String} {party : Party A L} {message : Option Payload}
    (h : (Execution.turn ε party message : Step (Party A L) ε).reply =
      .error (.error (.unexpectedMessage text))) : Unexpected ε text party message := by
  obtain ⟨hparty, hmessage, hcause⟩ | ⟨-, hstep⟩ := Execution.turn_eq_error h
  · obtain rfl := Error.unexpectedMessage.inj (Failure.error.inj hcause)
    cases message with
    | none => exact nomatch hmessage
    | some payload =>
      refine .terminated rfl hparty ?_
      rintro rfl
      exact nomatch hmessage
  · obtain ⟨inner, incoming, hwithin, hraises⟩ := exists_raises hstep
    exact .within hwithin hraises.complains

/-- What is handed to a party that has come to its end fails the turn unless it is the
empty table. -/
theorem turn_of_terminated {party : Party A L} (h : party.terminated ε = true) (payload : Payload) :
    (Execution.turn ε party (some payload) : Step (Party A L) ε) =
      if payload = .emptyMap then .silent (.ok none) party
      else .refuse (.unexpectedMessage "terminated") party := by
  have hterminated : Interactive.terminated ε party = true := h
  rw [Execution.turn, if_pos hterminated]
  by_cases hpayload : payload = .emptyMap
  · subst hpayload
    rfl
  · have hmessage : Execution.isEmptyMessage (some payload) = false :=
      Payload.isEmptyMap_eq_false.2 hpayload
    rw [if_neg hpayload, if_neg (Bool.eq_false_iff.1 hmessage)]

/-- What is left to say to a sub-protocol that has completed, or to a party that has come
to its end, is harmless exactly if it is the empty table.  In a message the empty table
could as well be missing, and anything else fails the host; a party that has come to its
end is handed the empty table without harm, and nothing else.  And in an execution no
message is called unexpected but by logic, by an elementary party, or for something
that is not the empty table. -/
theorem harmless_iff_empty {B M : Type} [Interactive B ε] [HostLogic M B ε] :
    (∀ (state : Host L) (running : List (String × Hosted (Party A L))) (entries : Table Payload),
      (step (.host state running) (some (.map (state.dropTrailing entries))) :
        Step (Party A L) ε) = step (.host state running) (some (.map entries))) ∧
    (∀ (state : Host L) (running : List (String × Hosted (Party A L))) (entries : Table Payload),
      Admits state running entries →
      (∃ entry ∈ entries, entry.1 ≠ Host.mailboxKey ∧ entry.1 ∉ running.map Prod.fst ∧
        entry.2 ≠ .emptyMap) →
      Fails ε (.host state running) (some (.map entries))
        (.error (.unexpectedMessage "completed sub-protocol"))) ∧
    (∀ (party : Party A L) (payload : Payload), party.terminated ε = true →
      (Execution.turn ε party (some payload) : Step (Party A L) ε) =
        if payload = .emptyMap then .silent (.ok none) party
        else .refuse (.unexpectedMessage "terminated") party) ∧
    ∀ (first : Party A L) (second : Party B M) (limits : Limits) (text : String),
      (Execution.run ε first second limits).1 = .error (.error (.unexpectedMessage text)) →
      ∃ x, Execution.Reaches ε (.new first second) x ∧
        (x.advance ε).1 = .error (.error (.unexpectedMessage text)) ∧
        ((x.firstMoves = true ∧ Unexpected ε text x.first x.message) ∨
          x.firstMoves = false ∧ Unexpected ε text x.second x.message) := by
  refine ⟨step_dropTrailing, ?_, fun party payload h => turn_of_terminated h payload, ?_⟩
  · rintro state running entries hadmits ⟨entry, hmem, hname, hnot, hpayload⟩
    exact hadmits.fails hmem hname hnot hpayload
  · intro first second limits text h
    obtain hlimit | ⟨x, hreaches, -, hturn⟩ := Execution.exists_of_runWithin_eq_error h
    · exact nomatch hlimit
    · exact ⟨x, hreaches, hturn, (Execution.advance_eq_error hturn).imp
        (And.imp_right Unexpected.of_turn) (And.imp_right Unexpected.of_turn)⟩

/-- Starts a sub-protocol. -/
def starting (name : String) (member : Member Ristretto) : ScriptCommand Ristretto :=
  .perform false (.start name false (.ok member))

/-- Asks to terminate. -/
def stopping : ScriptCommand Ristretto := .perform false .terminate

/-- A sub-protocol that does nothing but terminate in its first round. -/
def idler (sendsFirst : Bool) : Member Ristretto :=
  .scripted "idler" sendsFirst [(if sendsFirst then 0 else 1, [stopping])] []

/-- A sub-protocol that runs another, and terminates with it. -/
def wrapper (sendsFirst : Bool) : Member Ristretto :=
  .scripted "wrapper" sendsFirst
    [(if sendsFirst then 0 else 1, [starting "inner" (idler sendsFirst), stopping])] []

/-- A host that starts a sub-protocol in its first round and asks to terminate later. -/
def parent (sendsFirst : Bool) (name : String) (member : Member Ristretto) (stop : Nat) :
    Party (Role Ristretto) (Script Ristretto) :=
  .ofLogic ⟨"parent", [(if sendsFirst then 0 else 1, [starting name member]),
    (stop, [stopping])], []⟩ sendsFirst

/-- The hypotheses are satisfiable: a reply for a sub-protocol that has completed fails its
parent, and one to a party that has come to its end an execution. -/
theorem harmless_iff_empty_parents :
    Fails (ScriptEvent Ristretto)
      (.host { Host.new ⟨"parent", [], []⟩ true with completed := [("outer", none)] } [] :
        Party (Role Ristretto) (Script Ristretto))
      (some (.map [("outer", .map [("inner", .emptyMap)])]))
      (.error (.unexpectedMessage "completed sub-protocol")) ∧
    ∃ x, Execution.Reaches (ScriptEvent Ristretto)
        (.new (parent true "inner" (idler true) 2) (parent false "inner" (idler false) 5)) x ∧
      (x.advance (ScriptEvent Ristretto)).1 = .error (.error (.unexpectedMessage "terminated")) ∧
      ((x.firstMoves = true ∧ Unexpected (ScriptEvent Ristretto) "terminated" x.first x.message) ∨
        x.firstMoves = false ∧
          Unexpected (ScriptEvent Ristretto) "terminated" x.second x.message) := by
  obtain ⟨-, hhost, -, hrun⟩ := harmless_iff_empty (A := Role Ristretto) (L := Script Ristretto)
    (ε := ScriptEvent Ristretto) (B := Role Ristretto) (M := Script Ristretto)
  refine ⟨hhost _ _ _ ?_ ⟨_, List.mem_cons_self, by decide +kernel, List.not_mem_nil, nofun⟩, ?_⟩
  · exact ⟨rfl, by decide +kernel, List.forall_mem_singleton.2 (.inr (.inr (by decide +kernel)))⟩
  · exact hrun _ _ .standard "terminated" (by decide +kernel)

/-- All that is left to say is an empty table in a table, or in two; it fails a party that
has come to its end, and a parent that could go on. -/
theorem empty_at_depth_unexpected :
    let ended := Execution.run (ScriptEvent Ristretto) (parent true "inner" (idler true) 2)
      (parent false "inner" (idler false) 5) .standard
    let ongoing := Execution.run (ScriptEvent Ristretto) (parent true "outer" (wrapper true) 6)
      (parent false "outer" (wrapper false) 7) .standard
    (ended.1 = .error (.error (.unexpectedMessage "terminated")) ∧
      ended.2.2.first.terminated (ScriptEvent Ristretto) = true ∧
      ∃ message, ended.2.2.message = some message ∧ message.ContentFree) ∧
    ongoing.1 = .error (.error (.unexpectedMessage "completed sub-protocol")) ∧
      ongoing.2.2.first.terminated (ScriptEvent Ristretto) = false ∧
      ∃ message, ongoing.2.2.message = some message ∧ message.ContentFree := by
  have hinner : (Payload.map [("inner", .emptyMap)]).ContentFree :=
    .map (List.forall_mem_singleton.2 (.map (List.forall_mem_nil _)))
  have houter : (Payload.map [("outer", .map [("inner", .emptyMap)])]).ContentFree :=
    .map (List.forall_mem_singleton.2 hinner)
  refine ⟨⟨?_, ?_, _, ?_, hinner⟩, ?_, ?_, _, ?_, houter⟩
  all_goals decide +kernel

end Party
end ThreeMove

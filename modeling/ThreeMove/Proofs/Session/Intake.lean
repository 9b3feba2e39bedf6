/-
# Taking a message in

A host reads the entries of a message, takes the values among them into its inbox,
passes over what is for nobody, and keeps the parts for its sub-protocols, all of
which must be running (`Host.intake_eq_ok`).  Passed over is an empty table under
the name of a sub-protocol that has completed, and nothing else: such entries could
as well be missing (`Host.intake_dropTrailing`), and any other entry under such a
name is refused (`Host.intake_eq_unexpectedMessage`).
-/

import ThreeMove.Proofs.Result
import ThreeMove.Proofs.Table
import ThreeMove.Session.Party

namespace ThreeMove

/-- All payloads but one are not the empty map. -/
theorem Payload.isEmptyMap_eq_false {payload : Payload} :
    payload.isEmptyMap = false ↔ payload ≠ .emptyMap := by
  refine ⟨?_, fun h => ?_⟩
  · rintro h rfl
    exact nomatch h
  · cases payload with
    | map entries =>
      cases entries with
      | nil => exact absurd rfl h
      | cons entry rest => rfl
    | _ => rfl

namespace Host

variable {L : Type} {host host' : Host L} {running : List String} {incoming : Option Payload}
  {entries parts parts' : Table Payload}

/-- The parts pass if all are for sub-protocols that are running, and then as they are. -/
theorem letIn_eq_ok : host.letIn running parts = .ok parts' ↔
    (∀ part ∈ parts, part.1 ∈ running) ∧ parts' = parts := by
  have hall : List.find? (fun part : String × Payload => !running.contains part.1) parts = none ↔
      ∀ part ∈ parts, part.1 ∈ running := by
    simp only [List.find?_eq_none, Bool.not_eq_true', Bool.not_eq_false, List.contains_iff_mem]
  rw [letIn, ← hall]
  split
  · rename_i hfind
    rw [hfind]
    refine ⟨fun h => ?_, nofun⟩
    split at h
    · exact nomatch h
    · exact nomatch h
  · rename_i hfind
    rw [hfind, Except.ok.injEq, and_iff_right rfl]
    exact eq_comm

/-- Of entries that can be read, the values are put into the inbox before the parts are looked
at. -/
theorem intake_of_entries (running : List String) (h : entriesOf incoming = .ok entries) :
    host.intake running incoming =
      ((host.received entries).1 >>= fun () => host.letIn running (host.addressed entries),
        { host with inbox := (host.received entries).2 }) := by
  rw [intake, h]

/-- The entries of a table can be read. -/
theorem intake_map (host : Host L) (running : List String) (entries : Table Payload) :
    host.intake running (some (.map entries)) =
      ((host.received entries).1 >>= fun () => host.letIn running (host.addressed entries),
        { host with inbox := (host.received entries).2 }) :=
  intake_of_entries running rfl

/-- Whatever comes of it, taking a message in changes nothing but the inbox. -/
theorem exists_inbox {verdict : Except Error (Table Payload)}
    (h : host.intake running incoming = (verdict, host')) :
    ∃ inbox, host' = { host with inbox := inbox } := by
  rw [intake] at h
  cases hentries : entriesOf incoming with
  | error cause =>
    rw [hentries] at h
    exact ⟨host.inbox, (congrArg Prod.snd h).symm⟩
  | ok entries =>
    rw [hentries] at h
    exact ⟨_, (congrArg Prod.snd h).symm⟩

/-- A message is taken in if all that is not passed over is for running sub-protocols;
then nothing changes but the inbox. -/
theorem intake_eq_ok : host.intake running incoming = (.ok parts, host') ↔
    ∃ entries inbox, entriesOf incoming = .ok entries ∧ host.received entries = (.ok (), inbox) ∧
      (∀ part ∈ host.addressed entries, part.1 ∈ running) ∧ parts = host.addressed entries ∧
      host' = { host with inbox := inbox } := by
  constructor
  · intro h
    cases hentries : entriesOf incoming with
    | error cause =>
      rw [intake, hentries] at h
      exact nomatch congrArg Prod.fst h
    | ok entries =>
      rw [intake_of_entries running hentries] at h
      obtain ⟨hverdict, hhost⟩ := Prod.mk.inj h
      obtain ⟨_, hreceived, hletIn⟩ := bind_eq_ok.1 hverdict
      obtain ⟨hall, hparts⟩ := letIn_eq_ok.1 hletIn
      exact ⟨entries, _, rfl, Prod.ext hreceived rfl, hall, hparts, hhost.symm⟩
  · rintro ⟨entries, inbox, hentries, hreceived, hall, rfl, rfl⟩
    rw [intake_of_entries running hentries, hreceived]
    exact congrArg (·, { host with inbox := inbox }) (letIn_eq_ok.2 ⟨hall, rfl⟩)

/-- The entries without those that are passed over. -/
def dropTrailing (host : Host L) (entries : Table Payload) : Table Payload :=
  List.filter (fun entry => entry.1 == mailboxKey || !host.isTrailing entry) entries

variable (host running entries) in
/-- Entries that are passed over could as well be missing. -/
theorem intake_dropTrailing : host.intake running (some (.map (host.dropTrailing entries))) =
    host.intake running (some (.map entries)) := by
  have hmailbox : Table.find? (host.dropTrailing entries) mailboxKey =
      Table.find? entries mailboxKey :=
    Table.find?_filter (fun _ => Bool.or_eq_true_iff.2 (.inl (beq_self_eq_true _))) entries
  have haddressed : host.addressed (host.dropTrailing entries) = host.addressed entries := by
    rw [addressed, addressed, Table.erase, Table.erase, dropTrailing, List.filter_filter,
      List.filter_filter, List.filter_filter]
    refine List.filter_congr fun entry _ => ?_
    cases entry.1 == mailboxKey <;> cases host.isTrailing entry <;> simp
  have hreceived : host.received (host.dropTrailing entries) = host.received entries := by
    rw [received, received, hmailbox]
  rw [intake_map, intake_map, hreceived, haddressed]

/-- Nothing but a collision keeps values out of the inbox. -/
theorem deliver_eq_error {inbox : Table Payload} {values : List (String × Payload)} {cause : Error}
    (h : (deliver inbox values).1 = .error cause) : ∃ id, cause = .mailboxCollision id := by
  induction values generalizing inbox with
  | nil => exact nomatch h
  | cons value rest ih =>
    rw [deliver] at h
    split at h
    · exact ⟨value.1, (Except.error.inj h).symm⟩
    · exact ih h

/-- A payload that is not taken for a table has the wrong representation. -/
theorem toEntries_eq_error {payload : Payload} {cause : Error}
    (h : payload.toEntries = .error cause) : cause = .unexpectedRepresentation "map" := by
  cases payload with
  | map entries => exact nomatch h
  | _ => exact (Except.error.inj h).symm

/-- A message with an entry is a map. -/
theorem entriesOf_eq_ok {entry : String × Payload} (h : entriesOf incoming = .ok entries)
    (hentry : entry ∈ entries) : incoming = some (.map entries) := by
  cases incoming with
  | none =>
    obtain rfl := Except.ok.inj h
    exact absurd hentry List.not_mem_nil
  | some message =>
    cases message with
    | map entries' =>
      obtain rfl : entries' = entries := Except.ok.inj h
      rfl
    | _ => exact nomatch h

/-- Values that cannot be put into the inbox are not called unexpected. -/
theorem received_ne_unexpectedMessage {text : String} :
    (host.received entries).1 ≠ .error (.unexpectedMessage text) := by
  intro h
  rw [received] at h
  split at h
  · split at h
    · obtain ⟨id, hid⟩ := deliver_eq_error h
      exact nomatch hid
    · rename_i hvalues
      exact nomatch (toEntries_eq_error hvalues).symm.trans (Except.error.inj h)
  · exact nomatch h

/-- Entries are addressed to sub-protocols but for the mailbox and the empty replies to completed
ones. -/
theorem mem_addressed {entry : String × Payload} : entry ∈ host.addressed entries ↔
    entry ∈ entries ∧ entry.1 ≠ mailboxKey ∧
      (host.completed.has entry.1 = true → entry.2 ≠ .emptyMap) := by
  rw [addressed, Table.erase, List.mem_filter, List.mem_filter, bne_iff_ne, and_assoc, isTrailing,
    Bool.not_eq_true', Bool.and_eq_false_imp, Payload.isEmptyMap_eq_false]

/-- A part that does not pass is for a sub-protocol that is not running. -/
theorem letIn_eq_error {cause : Error} (h : host.letIn running parts = .error cause) :
    ∃ part ∈ parts, part.1 ∉ running ∧ cause = if host.completed.has part.1 then
      .unexpectedMessage "completed sub-protocol" else .unknownSubProtocol part.1 := by
  rw [letIn] at h
  split at h
  · rename_i name payload hfind
    have hnot : name ∉ running := by
      simpa only [Bool.not_eq_true', List.contains_eq_mem, decide_eq_false_iff_not] using
        List.find?_some hfind
    refine ⟨(name, payload), List.mem_of_find?_eq_some hfind, hnot, ?_⟩
    split at h
    · rename_i hcompleted
      rw [if_pos hcompleted]
      exact (Except.error.inj h).symm
    · rename_i hcompleted
      rw [if_neg hcompleted]
      exact (Except.error.inj h).symm
  · exact nomatch h

/-- A message is called unexpected only for an entry, other than an empty table, under
the name of a sub-protocol that has completed. -/
theorem intake_eq_unexpectedMessage {text : String}
    (h : (host.intake running incoming).1 = .error (.unexpectedMessage text)) :
    text = "completed sub-protocol" ∧ ∃ entries name payload, incoming = some (.map entries) ∧
      (name, payload) ∈ entries ∧ name ≠ mailboxKey ∧ name ∉ running ∧
      host.completed.has name = true ∧ payload ≠ .emptyMap := by
  cases hentries : entriesOf incoming with
  | error cause =>
    rw [intake, hentries] at h
    obtain rfl := Except.error.inj h
    cases incoming with
    | none => exact nomatch hentries
    | some message => exact nomatch toEntries_eq_error hentries
  | ok entries =>
  rw [intake_of_entries running hentries] at h
  obtain hinbox | ⟨_, -, hletIn⟩ := bind_eq_error.1 h
  · exact absurd hinbox received_ne_unexpectedMessage
  obtain ⟨⟨name, payload⟩, hmem, hnot, hcause⟩ := letIn_eq_error hletIn
  obtain ⟨hentry, hname, hpayload⟩ := mem_addressed.1 hmem
  split at hcause
  · rename_i hcompleted
    exact ⟨Error.unexpectedMessage.inj hcause, entries, name, payload,
      entriesOf_eq_ok hentries hentry, hentry, hname, hnot, hcompleted, hpayload hcompleted⟩
  · exact nomatch hcause

/-- A message for sub-protocols that run or have completed is called unexpected where one
that has completed is sent anything but an empty table. -/
theorem intake_eq_unexpectedMessage_of_mem (hreceived : (host.received entries).1 = .ok ())
    (hknown : ∀ entry ∈ entries, entry.1 = mailboxKey ∨ entry.1 ∈ running ∨
      host.completed.has entry.1 = true)
    {entry : String × Payload} (hmem : entry ∈ entries) (hname : entry.1 ≠ mailboxKey)
    (hnot : entry.1 ∉ running) (hpayload : entry.2 ≠ .emptyMap) :
    (host.intake running (some (.map entries))).1 =
      .error (.unexpectedMessage "completed sub-protocol") := by
  rw [intake_map, hreceived]
  change host.letIn running (host.addressed entries) = _
  cases hletIn : host.letIn running (host.addressed entries) with
  | ok taken =>
    have hin := (letIn_eq_ok.1 hletIn).1 entry (mem_addressed.2 ⟨hmem, hname, fun _ => hpayload⟩)
    exact absurd hin hnot
  | error cause =>
    obtain ⟨part, hpart, hout, rfl⟩ := letIn_eq_error hletIn
    obtain ⟨hentry, hmailbox, -⟩ := mem_addressed.1 hpart
    rw [if_pos (((hknown part hentry).resolve_left hmailbox).resolve_left hout)]

end Host
end ThreeMove

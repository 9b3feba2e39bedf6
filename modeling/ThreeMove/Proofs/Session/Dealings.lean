/-
# What a round deals with the other side

The values that logic sends in a round and those that it receives, in order, are the
requests to the mailbox that are granted (`RoundProgram.dealings`).  A round accounts for
every value (`Party.Turned.accounts`): what was unread and what comes in is received or
stays unread, and what goes out is what was sent, under each name at most one.  A value
that comes in under a name whose value is unread fails the host, and replaces nothing
(`Party.exists_collision`).
-/

import ThreeMove.Proofs.Session.Lockstep

namespace ThreeMove

/-- A request of logic that is granted, to send a value or to receive one. -/
structure Dealing where
  sends : Bool
  id : String
  value : Payload

/-- The values sent, or received, under a name. -/
def Dealing.values (sends : Bool) (id : String) (dealings : List Dealing) : List Payload :=
  (dealings.filter fun dealing => dealing.sends == sends && dealing.id == id).map Dealing.value

/-- The values of dealings in a row are those of each part in order. -/
theorem Dealing.values_append (sends : Bool) (id : String) (dealings others : List Dealing) :
    Dealing.values sends id (dealings ++ others) =
      Dealing.values sends id dealings ++ Dealing.values sends id others := by
  rw [values, values, values, List.filter_append, List.map_append]

/-- The value of a dealing counts if direction and name are right. -/
theorem Dealing.values_cons (sends : Bool) (id : String) (dealing : Dealing)
    (dealings : List Dealing) : Dealing.values sends id (dealing :: dealings) =
      if dealing.sends = sends ∧ dealing.id = id then
        dealing.value :: Dealing.values sends id dealings
      else Dealing.values sends id dealings := by
  simp only [values, List.filter_cons, Bool.and_eq_true, beq_iff_eq]
  split
  · rfl
  · rfl

namespace RoundProgram

variable {P ε α : Type}

/-- What is dealt when the requests are answered in order. -/
def dealings : RoundProgram P ε α → RoundState P → List Dealing
  | .done _, _ => []
  | .send id value next, context =>
    match context.send id value with
    | .ok context => ⟨true, id, value⟩ :: (next (.ok ())).dealings context
    | .error cause => (next (.error cause)).dealings context
  | .receive id next, context =>
    match context.receive id with
    | .ok (value, context) => ⟨false, id, value⟩ :: (next (.ok value)).dealings context
    | .error cause => (next (.error cause)).dealings context
  | .hasReceived id next, context => (next (context.inbox.has id)).dealings context
  | .start name hosted next, context =>
    match context.start name hosted with
    | .ok context => (next (.ok ())).dealings context
    | .error cause => (next (.error cause)).dealings context
  | .isRunning name next, context => (next (context.isRunning name)).dealings context
  | .hasCompleted name next, context => (next (context.completed.has name)).dealings context
  | .verdictOf name next, context => (next (context.verdictOf name)).dealings context
  | .terminate next, context => next.dealings { context with terminating := true }
  | .note _ next, context => next.dealings context

end RoundProgram

namespace RoundState

variable {P : Type} {context context' : RoundState P}

/-- Nothing is sent under a name twice. -/
theorem not_has_of_send {id : String} {value : Payload} (h : context.send id value = .ok context') :
    context.outbox.has id = false := by
  obtain ⟨-, -, h⟩ := bind_eq_ok.1 h
  split at h
  · exact nomatch h
  · rename_i hnot
    exact Bool.eq_false_iff.2 hnot

/-- What is received was in the inbox. -/
theorem find?_of_receive {id : String} {value : Payload}
    (h : context.receive id = .ok (value, context')) : context.inbox.find? id = some value := by
  rw [receive] at h
  split at h
  · rename_i hfind
    rw [hfind, (Prod.mk.inj (Except.ok.inj h)).1]
  · cases h

end RoundState

namespace RoundProgram

variable {P ε α : Type}

/-- What every granted request keeps of the dealings so far and the state, a round keeps. -/
theorem run_dealings {Q : List Dealing → RoundState P → Prop}
    (send : ∀ {past context context' id value}, Q past context →
      context.send id value = .ok context' → Q (past ++ [⟨true, id, value⟩]) context')
    (receive : ∀ {past context context' id value}, Q past context →
      context.receive id = .ok (value, context') → Q (past ++ [⟨false, id, value⟩]) context')
    (start : ∀ {past context context' name hosted}, Q past context →
      context.start name hosted = .ok context' → Q past context')
    (terminate : ∀ {past context}, Q past context → Q past { context with terminating := true })
    (program : RoundProgram P ε α) {context : RoundState P} (h : Q [] context) :
    Q (program.dealings context) (program.run context).2.2 := by
  -- The dealings come one by one, so the rest of a round sees those before it as past.
  suffices hpast : ∀ past context, Q past context →
      Q (past ++ program.dealings context) (program.run context).2.2 from hpast [] context h
  clear h
  intro past context h
  induction program generalizing past context with
  | done value =>
    rw [dealings, List.append_nil]
    exact h
  | send id value next ih =>
    cases hsend : context.send id value with
    | error cause =>
      simp only [run, dealings, hsend]
      exact ih _ _ _ h
    | ok context' =>
      have hrest := ih (.ok ()) _ _ (send h hsend)
      rw [List.append_assoc] at hrest
      simp only [run, dealings, hsend]
      exact hrest
  | receive id next ih =>
    cases hreceive : context.receive id with
    | error cause =>
      simp only [run, dealings, hreceive]
      exact ih _ _ _ h
    | ok taken =>
      obtain ⟨value, context'⟩ := taken
      have hrest := ih (.ok value) _ _ (receive h hreceive)
      rw [List.append_assoc] at hrest
      simp only [run, dealings, hreceive]
      exact hrest
  | start name hosted next ih =>
    cases hstart : context.start name hosted with
    | error cause =>
      simp only [run, dealings, hstart]
      exact ih _ _ _ h
    | ok context' =>
      simp only [run, dealings, hstart]
      exact ih _ _ _ (start h hstart)
  | hasReceived id next ih => exact ih _ _ _ h
  | isRunning name next ih => exact ih _ _ _ h
  | hasCompleted name next ih => exact ih _ _ _ h
  | verdictOf name next ih => exact ih _ _ _ h
  | terminate next ih => exact ih _ _ (terminate h)
  | note event next ih => exact ih _ _ h

/-- What logic sends in a round stands in the outbox. -/
theorem outbox_run (program : RoundProgram P ε α) {context : RoundState P}
    (hempty : context.outbox = []) (id : String) :
    ((program.run context).2.2.outbox.find? id).toList =
      Dealing.values true id (program.dealings context) := by
  refine run_dealings (Q := fun past later =>
    (later.outbox.find? id).toList = Dealing.values true id past) ?_ ?_ ?_ (fun h => h) program ?_
  · intro past before after other value h hsend
    have hnot := RoundState.not_has_of_send hsend
    obtain rfl := RoundState.send_eq_ok hsend
    rw [Dealing.values_append, ← h, Dealing.values_cons]
    by_cases hother : other = id
    · subst hother
      rw [Table.find?_eq_none (Table.has_eq_false_iff.1 hnot), Table.find?_insert_self,
        if_pos ⟨rfl, rfl⟩]
      rfl
    · rw [Table.find?_insert_of_ne _ _ (Ne.symm hother), if_neg fun h => hother h.2]
      exact (List.append_nil _).symm
  · intro past before after other value h hreceive
    obtain rfl := RoundState.receive_eq_ok hreceive
    rw [Dealing.values_append, ← h, Dealing.values_cons, if_neg fun h => nomatch h.1]
    exact (List.append_nil _).symm
  · intro past before after name hosted h hstart
    obtain ⟨-, -, rfl⟩ := RoundState.start_eq_ok hstart
    exact h
  · rw [hempty]
    rfl

/-- What was in the inbox is received in the round, or stays there. -/
theorem inbox_run (program : RoundProgram P ε α) (context : RoundState P) (id : String) :
    (context.inbox.find? id).toList = Dealing.values false id (program.dealings context) ++
      ((program.run context).2.2.inbox.find? id).toList := by
  refine run_dealings (Q := fun past later => (context.inbox.find? id).toList =
    Dealing.values false id past ++ (later.inbox.find? id).toList) ?_ ?_ ?_ (fun h => h) program rfl
  · intro past before after other value h hsend
    obtain rfl := RoundState.send_eq_ok hsend
    rw [Dealing.values_append, Dealing.values_cons, if_neg fun h => nomatch h.1]
    exact h.trans (congrArg (· ++ _) (List.append_nil _).symm)
  · intro past before after other value h hreceive
    have hfind := RoundState.find?_of_receive hreceive
    obtain rfl := RoundState.receive_eq_ok hreceive
    rw [Dealing.values_append, Dealing.values_cons, h]
    by_cases hother : other = id
    · subst hother
      rw [hfind, Table.find?_erase_self, if_pos ⟨rfl, rfl⟩, List.append_assoc]
      rfl
    · rw [Table.find?_erase_of_ne (Ne.symm hother), if_neg fun h => hother h.2]
      exact congrArg (· ++ _) (List.append_nil _).symm
  · intro past before after name hosted h hstart
    obtain ⟨-, -, rfl⟩ := RoundState.start_eq_ok hstart
    exact h

/-- The names in the outbox are different. -/
theorem nodup_outbox_run (program : RoundProgram P ε α) {context : RoundState P}
    (hempty : context.outbox = []) :
    ((program.run context).2.2.outbox.map Prod.fst).Nodup := by
  refine run_keeps (Q := fun later : RoundState P => (later.outbox.map Prod.fst).Nodup)
    ?_ ?_ ?_ (fun h => h) program ?_
  · intro before after id value h hsend
    have hnot := Table.has_eq_false_iff.1 (RoundState.not_has_of_send hsend)
    obtain rfl := RoundState.send_eq_ok hsend
    exact ((Table.insert_perm hnot).map Prod.fst).nodup_iff.2 (List.nodup_cons.2 ⟨hnot, h⟩)
  · intro before after id value h hreceive
    obtain rfl := RoundState.receive_eq_ok hreceive
    exact h
  · intro before after name hosted h hstart
    obtain ⟨-, -, rfl⟩ := RoundState.start_eq_ok hstart
    exact h
  · rw [hempty]
    exact List.nodup_nil

end RoundProgram

namespace Host

variable {L : Type} {host : Host L} {inbox inbox' entries : Table Payload}
  {values : List (String × Payload)}

/-- What is delivered is in the inbox beside what was there. -/
theorem find?_of_deliver (h : deliver inbox values = (.ok (), inbox')) (id : String) :
    (inbox'.find? id).toList = (inbox.find? id).toList ++ (Table.find? values id).toList := by
  induction values generalizing inbox with
  | nil =>
    obtain rfl := congrArg Prod.snd h
    exact (List.append_nil _).symm
  | cons entry rest ih =>
    obtain ⟨name, value⟩ := entry
    rw [deliver] at h
    split at h
    · cases h
    rename_i hfree
    have hnone := Table.find?_eq_none (Table.has_eq_false_iff.1 (Bool.eq_false_iff.2 hfree))
    have hrest := ih h
    by_cases hname : id = name
    · subst hname
      rw [Table.find?_insert_self] at hrest
      -- Had the rest another value for the name, it would have collided with this one.
      have hsingle : Table.find? rest id = none := by
        have hlength := congrArg List.length hrest
        have hle : (inbox'.find? id).toList.length ≤ 1 := Option.length_toList_le
        rw [List.length_append, Option.toList_some, List.length_singleton] at hlength
        exact Option.toList_eq_nil_iff.1 (List.length_eq_zero_iff.1 (by omega))
      rw [hrest, hsingle, hnone, Table.find?_cons_self]
      rfl
    · rw [hrest, Table.find?_insert_of_ne _ _ hname, Table.find?_cons_of_ne hname]

/-- Whatever comes of a delivery, a name has the value it had; only one that had none may have been
given the value that was to be delivered under it. -/
theorem find?_deliver (inbox : Table Payload) (values : List (String × Payload)) (id : String) :
    (deliver inbox values).2.find? id = inbox.find? id ∨
      inbox.find? id = none ∧ (deliver inbox values).2.find? id = Table.find? values id := by
  induction values generalizing inbox with
  | nil => exact .inl rfl
  | cons entry rest ih =>
    obtain ⟨name, value⟩ := entry
    rw [deliver]
    split
    · exact .inl rfl
    rename_i hfree
    have hrest := ih (inbox.insert name value)
    by_cases hname : id = name
    · subst hname
      rw [Table.find?_insert_self] at hrest
      obtain hkept | ⟨hnone, -⟩ := hrest
      · exact .inr ⟨Table.find?_eq_none (Table.has_eq_false_iff.1 (Bool.eq_false_iff.2 hfree)),
          hkept.trans (Table.find?_cons_self ..).symm⟩
      · cases hnone
    · rw [Table.find?_insert_of_ne _ _ hname] at hrest
      rw [Table.find?_cons_of_ne hname]
      exact hrest

/-- A value under a name that is not free is not delivered. -/
theorem deliver_eq_collision (hnodup : (values.map Prod.fst).Nodup) {id : String}
    (hid : id ∈ values.map Prod.fst) (hunread : inbox.has id = true) :
    ∃ other, inbox.has other = true ∧ other ∈ values.map Prod.fst ∧
      (deliver inbox values).1 = .error (.mailboxCollision other) := by
  induction values generalizing inbox with
  | nil => exact absurd hid List.not_mem_nil
  | cons entry rest ih =>
    obtain ⟨name, value⟩ := entry
    obtain ⟨hname, hnodup⟩ := List.nodup_cons.1 hnodup
    rw [deliver]
    cases hfree : inbox.has name with
    | true => exact ⟨name, hfree, List.mem_cons_self, rfl⟩
    | false =>
      rcases List.mem_cons.1 hid with rfl | hid
      · cases hfree.symm.trans hunread
      obtain ⟨other, hother, hmem, heq⟩ := ih hnodup hid (Table.has_insert.2 (.inr hunread))
      rcases Table.has_insert.1 hother with rfl | hother
      · exact absurd hmem hname
      · exact ⟨other, hother, List.mem_cons_of_mem _ hmem, heq⟩

end Host

namespace Party

variable {A L ε : Type}

/-- The value for the mailbox that a message carries under a name. -/
def valueIn (message : Option Payload) (id : String) : Option Payload :=
  partOf (partOf message Host.mailboxKey) id

/-- A message has a table of values for the mailbox, without a name that stands twice, or
none. -/
def WellPacked (message : Option Payload) : Prop :=
  ∀ values, partOf message Host.mailboxKey = some values →
    ∃ entries, values = .map entries ∧ (entries.map Prod.fst).Nodup

/-- After the mailbox of a message is put into the inbox, a value is there if one was or if one
came. -/
theorem find?_of_received {host : Host L} {inbox entries : Table Payload}
    (h : host.received entries = (.ok (), inbox)) (id : String) : (inbox.find? id).toList =
      (host.inbox.find? id).toList ++ (partOf (entries.find? Host.mailboxKey) id).toList := by
  rw [Host.received] at h
  split at h
  · rename_i values hvalues
    rw [hvalues]
    cases values with
    | map values => exact Host.find?_of_deliver h id
    | _ => cases congrArg Prod.fst h
  · rename_i hnone
    obtain rfl := congrArg Prod.snd h
    rw [hnone]
    exact (List.append_nil _).symm

/-- The mailbox of a reply holds the outbox. -/
theorem valueIn_outgoing {replies : Table Payload} (hkey : Host.mailboxKey ∉ replies.map Prod.fst)
    (outbox : Table Payload) (id : String) :
    valueIn (some (.map (outgoing replies outbox))) id = outbox.find? id := by
  rw [valueIn, partOf, outgoing]
  split
  · rename_i hempty
    rw [Table.find?_eq_none hkey, List.isEmpty_iff.1 hempty]
    rfl
  · rw [Table.find?_insert_self]
    rfl

variable [Interactive A ε] [HostLogic L A ε]

/-- What the logic of a party deals in a call, if it is asked. -/
def dealings (ε : Type) [Interactive A ε] [HostLogic L A ε] :
    Party A L → Option Payload → List Dealing
  | .atom _, _ => []
  | .host state running, incoming =>
    match (prepare state running incoming : Except (Step (Party A L) ε) (Ready A L ε)) with
    | .error _ => []
    | .ok ready => ready.program.dealings ready.context

section

variable {state state' : Host L} {running running' : List (String × Hosted (Party A L))}
  {incoming message : Option Payload} {parts : Table Payload} {ready : Ready A L ε} {logic : L}
  {context : RoundState (Party A L)}

/-- The part of the logic in a round accounts for what is in the inbox and the outbox. -/
theorem Serves.accounts (hserves : Serves state running incoming parts ready)
    (hacts : ready.Acts logic context) (id : String) :
    (ready.host.inbox.find? id).toList =
        Dealing.values false id (dealings ε (.host state running) incoming) ++
          (context.inbox.find? id).toList ∧
      (context.outbox.find? id).toList =
        Dealing.values true id (dealings ε (.host state running) incoming) := by
  rw [dealings, hserves.prepare]
  cases hacts with
  | rests hresting =>
    rw [hserves.terminateRequested] at hresting
    rw [if_pos hresting]
    exact ⟨rfl, rfl⟩
  | asks hasked hok =>
    rw [hserves.terminateRequested] at hasked
    rw [if_neg (Bool.eq_false_iff.1 hasked)]
    exact ⟨ready.program.inbox_run ready.context id, ready.program.outbox_run rfl id⟩

omit [Interactive A ε] in
/-- No name stands twice in the outbox. -/
theorem Ready.Acts.nodup_outbox (hacts : ready.Acts logic context) :
    (context.outbox.map Prod.fst).Nodup := by
  cases hacts with
  | rests => exact List.nodup_nil
  | asks => exact ready.program.nodup_outbox_run rfl

/-- When the round is prepared, a value is in the inbox if one was or if one came. -/
theorem Serves.received (hserves : Serves state running incoming parts ready) (id : String) :
    (ready.host.inbox.find? id).toList =
      (state.inbox.find? id).toList ++ (valueIn incoming id).toList := by
  obtain ⟨entries, inbox, hentries, hreceived, -, -, heq⟩ :=
    Host.intake_eq_ok.1 hserves.enters.intake
  rw [show ready.host.inbox = inbox from congrArg Host.inbox heq, valueIn,
    partOf_of_entriesOf hentries]
  exact find?_of_received hreceived id

/-- An empty message holds no values. -/
theorem valueIn_of_isEmptyMessage (h : Execution.isEmptyMessage incoming = true) (id : String) :
    valueIn incoming id = none := by
  cases incoming with
  | none => rfl
  | some payload =>
    cases payload with
    | map entries =>
      cases entries with
      | nil => rfl
      | cons _ _ => exact nomatch h
    | _ => exact nomatch h

/-- A turn accounts for every value: what was unread and what comes in is received or
stays unread, and what goes out is what was sent. -/
theorem Turned.accounts (h : Orderly state running)
    (hturned : Turned ε state running incoming message state' running') (id : String) :
    (state.inbox.find? id).toList ++ (valueIn incoming id).toList =
        Dealing.values false id (dealings ε (.host state running) incoming) ++
          (state'.inbox.find? id).toList ∧
      (valueIn message id).toList =
        Dealing.values true id (dealings ε (.host state running) incoming) := by
  cases hturned with
  | passes hover hempty =>
    rw [valueIn_of_isEmptyMessage hempty, dealings, prepare, if_pos hover]
    exact ⟨List.append_nil _, rfl⟩
  | round hlive hround =>
    obtain ⟨hserves, hacts⟩ := hround
    have hkey := h.mailboxKey_not_mem hserves
    obtain ⟨hinbox, houtbox⟩ := hserves.accounts hacts id
    rw [valueIn_outgoing hkey, ← hserves.received]
    exact ⟨hinbox, houtbox⟩

/-- The reply of a turn is well packed. -/
theorem Turned.wellPacked (h : Orderly state running)
    (hturned : Turned ε state running incoming message state' running') : WellPacked message := by
  cases hturned with
  | passes =>
    intro values hvalues
    cases hvalues
  | round hlive hround =>
    obtain ⟨hserves, hacts⟩ := hround
    have hkey := h.mailboxKey_not_mem hserves
    intro values hvalues
    rw [partOf, outgoing] at hvalues
    split at hvalues
    · rw [Table.find?_eq_none hkey] at hvalues
      cases hvalues
    · rw [Table.find?_insert_self] at hvalues
      exact ⟨_, (Option.some.inj hvalues).symm, hacts.nodup_outbox⟩

/-- A second value under a name fails the host.  Values of the message under other names may have
been put into the inbox by then; a name that had a value still has it. -/
theorem exists_collision (hlive : isOver state running = false) (hpacked : WellPacked incoming)
    {id : String} (hunread : (state.inbox.find? id).isSome = true)
    (hvalue : (valueIn incoming id).isSome = true) :
    ∃ other inbox, (state.inbox.find? other).isSome = true ∧
      (valueIn incoming other).isSome = true ∧
      (step (.host state running) incoming : Step (Party A L) ε) =
        .refuse (.mailboxCollision other)
          (.host { state with started := true, inbox := inbox, failed := true } running) ∧
      ∀ name, inbox.find? name = state.inbox.find? name ∨
        state.inbox.find? name = none ∧ inbox.find? name = valueIn incoming name := by
  cases hpart : partOf incoming Host.mailboxKey with
  | none =>
    rw [valueIn, hpart] at hvalue
    exact nomatch hvalue
  | some values =>
    obtain ⟨values, rfl, hnodup⟩ := hpacked _ hpart
    obtain ⟨entries, rfl, hentries⟩ := exists_of_partOf_eq_some hpart
    have hvalues : ∀ name, valueIn (some (.map entries)) name = Table.find? values name := by
      intro name
      rw [valueIn, hpart]
      rfl
    simp only [hvalues, ← Table.has_eq_isSome_find?] at hvalue hunread ⊢
    obtain ⟨other, hother, hmem, hdeliver⟩ :=
      Host.deliver_eq_collision hnodup (Table.has_iff_mem.1 hvalue) hunread
    have hreceived : ({ state with started := true } : Host L).received entries =
        Host.deliver state.inbox values := by
      rw [Host.received, hentries]
      rfl
    have hintake : Host.intake { state with started := true } (running.map Prod.fst)
        (some (.map entries)) = (.error (.mailboxCollision other),
          { state with started := true, inbox := (Host.deliver state.inbox values).2 }) := by
      rw [Host.intake_map, hreceived, hdeliver]
      rfl
    have hawake : state.idles (some (.map entries)) = false := Bool.and_false _
    exact ⟨other, _, hother, Table.has_iff_mem.2 hmem,
      step_of_intake_eq_error hlive hawake hintake, Host.find?_deliver state.inbox values⟩

end

end Party
end ThreeMove

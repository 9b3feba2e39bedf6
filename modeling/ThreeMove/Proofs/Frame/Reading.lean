/-
# A cursor asked for one frame after another

A cursor that is asked for a frame either takes off one that stands in front of it, or stays where
it is because none does (`FrameCursor.ask_cases`).  So whatever a row of calls returns stood there
in frames, with what is left behind them (`FrameCursor.rest_eq_frameAll_append`).  A row of calls
that all succeed has read just the frames of what it returned
(`FrameCursor.askEach_eq_map_ok`), and so byte strings and their frames determine each other
(`FrameCursor.framing_bijective`).
-/

import ThreeMove.Proofs.Frame

namespace ThreeMove
namespace FrameCursor

/-- Takes one frame off a cursor that is changed in place.  A failure does not undo what was changed
before it. -/
def take (what : String) : ExceptT Error (StateM FrameCursor) Bytes := do
  let cursor ← get
  if cursor.rest.length < 4 then
    throw (.invalidEncoding what)
  let size := Bytes.beValue (cursor.rest.take 4)
  let body := cursor.rest.drop 4
  if body.length < size then
    throw (.invalidEncoding what)
  set (⟨body.drop size⟩ : FrameCursor)
  return body.take size

/-- The answer of a cursor that is asked for a frame called `what`, and the cursor after it. -/
def ask (cursor : FrameCursor) (what : String) : Except Error Bytes × FrameCursor :=
  (take what).run.run cursor

/-- Asks for one frame after another, whatever the answers are. -/
def askEach : List String → FrameCursor → List (Except Error Bytes) × FrameCursor
  | [], cursor => ([], cursor)
  | what :: whats, cursor =>
    let (answer, cursor) := cursor.ask what
    let (answers, cursor) := askEach whats cursor
    (answer :: answers, cursor)

/-- The byte strings among the answers. -/
def returned (answers : List (Except Error Bytes)) : List Bytes :=
  answers.filterMap Except.toOption

/-- No frame stands in front of the cursor. -/
def Stuck (cursor : FrameCursor) : Prop :=
  ∀ data rest : Bytes, data.length < 2 ^ 32 → cursor.rest ≠ frame data ++ rest

/-! ### One call -/

variable {cursor rest : FrameCursor} {what : String}

/-- Asking for a frame fails in one way only. -/
theorem next_eq_error {cause : Error} (h : cursor.next what = .error cause) :
    cause = .invalidEncoding what := by
  unfold next at h
  split at h
  · exact (Except.error.inj h).symm
  · dsimp only at h
    split at h
    · exact (Except.error.inj h).symm
    · exact nomatch h

/-- Changing the cursor in place does what `next` does, and nothing where `next` fails. -/
theorem ask_eq (cursor : FrameCursor) (what : String) :
    cursor.ask what =
      match cursor.next what with
      | .ok (data, rest) => (.ok data, rest)
      | .error cause => (.error cause, cursor) := by
  unfold ask take next
  -- the cursor that is read in place is the one that is asked
  change (if cursor.rest.length < 4 then _ else _ :
    ExceptT Error (StateM FrameCursor) Bytes).run.run cursor = _
  split
  · rfl
  · dsimp only
    split
    · rfl
    · rfl

/-- A frame in front is taken off; without one the cursor stays. -/
theorem ask_cases (cursor : FrameCursor) (what : String) :
    (∃ data rest, cursor.ask what = (.ok data, rest) ∧ data.length < 2 ^ 32 ∧
      cursor.rest = frame data ++ rest.rest) ∨
    cursor.ask what = (.error (.invalidEncoding what), cursor) ∧ cursor.Stuck := by
  cases hnext : cursor.next what with
  | ok value =>
    obtain ⟨data, rest⟩ := value
    exact .inl ⟨data, rest, by rw [ask_eq, hnext], next_eq_ok.1 hnext⟩
  | error cause =>
    obtain rfl := next_eq_error hnext
    refine .inr ⟨by rw [ask_eq, hnext], fun data rest hsize hrest => ?_⟩
    have hok : cursor.next what = .ok (data, ⟨rest⟩) := next_eq_ok.2 ⟨hsize, hrest⟩
    exact nomatch hnext.symm.trans hok

/-- A cursor gives a frame exactly where one stands in front, and is then behind it. -/
theorem ask_eq_ok {data : Bytes} :
    cursor.ask what = (.ok data, rest) ↔
      data.length < 2 ^ 32 ∧ cursor.rest = frame data ++ rest.rest := by
  constructor
  · intro h
    obtain ⟨_, _, hask, hframe⟩ | ⟨hask, -⟩ := cursor.ask_cases what
    · obtain ⟨⟨⟩, rfl⟩ := Prod.mk.inj (hask.symm.trans h)
      exact hframe
    · exact nomatch hask.symm.trans h
  · intro h
    rw [ask_eq, next_eq_ok.2 h]

/-- A call fails just where no frame stands in front, and then changes nothing. -/
theorem ask_eq_error {cause : Error} :
    (cursor.ask what).1 = .error cause ↔ cause = .invalidEncoding what ∧ cursor.Stuck := by
  obtain ⟨data, rest, hask, hsize, hrest⟩ | ⟨hask, hstuck⟩ := cursor.ask_cases what
  · rw [hask]
    exact ⟨nofun, fun h => absurd hrest (h.2 data rest.rest hsize)⟩
  · rw [hask, Except.error.injEq, and_iff_left hstuck]
    exact eq_comm

/-- No frame stands before the end. -/
theorem stuck_nil : Stuck ⟨[]⟩ := by
  intro data rest _ h
  have hlength := congrArg List.length h
  rw [List.length_append, length_frame, List.length_nil] at hlength
  omega

/-! ### A row of calls -/

/-- The first frame is asked for first, and the others of what that leaves. -/
theorem askEach_cons (what : String) (whats : List String) (cursor : FrameCursor) :
    askEach (what :: whats) cursor =
      ((cursor.ask what).1 :: (askEach whats (cursor.ask what).2).1,
        (askEach whats (cursor.ask what).2).2) :=
  rfl

/-- There is an answer to each name. -/
theorem length_askEach (whats : List String) (cursor : FrameCursor) :
    (askEach whats cursor).1.length = whats.length := by
  induction whats generalizing cursor with
  | nil => rfl
  | cons what whats ih => exact congrArg Nat.succ (ih _)

/-- What is returned stood in frames before what is left; calls that fail take nothing. -/
theorem rest_eq_frameAll_append (whats : List String) (cursor : FrameCursor) :
    cursor.rest =
      frameAll (returned (askEach whats cursor).1) ++ (askEach whats cursor).2.rest := by
  induction whats generalizing cursor with
  | nil => rfl
  | cons what whats ih =>
    rw [askEach_cons]
    obtain ⟨data, rest, hask, -, hrest⟩ | ⟨hask, -⟩ := cursor.ask_cases what
    · rw [hask, hrest, ih rest]
      exact (List.append_assoc ..).symm
    · rw [hask]
      exact ih cursor

/-- Frames take four bytes each besides what is in them. -/
theorem length_frameAll_eq (parts : List Bytes) :
    (frameAll parts).length = 4 * parts.length + (parts.map List.length).sum := by
  induction parts with
  | nil => rfl
  | cons part parts ih =>
    rw [frameAll_cons, List.length_append, length_frame, ih, List.length_cons, List.map_cons,
      List.sum_cons]
    omega

/-- All calls succeed just where as many frames stand in front. -/
theorem askEach_eq_map_ok {whats : List String} {parts : List Bytes} :
    askEach whats cursor = (parts.map .ok, rest) ↔
      whats.length = parts.length ∧ (∀ part ∈ parts, part.length < 2 ^ 32) ∧
        cursor.rest = frameAll parts ++ rest.rest := by
  induction whats generalizing cursor parts with
  | nil =>
    constructor
    · intro h
      obtain ⟨hnone, rfl⟩ := Prod.mk.inj h
      obtain rfl := List.map_eq_nil_iff.1 hnone.symm
      exact ⟨rfl, List.forall_mem_nil _, rfl⟩
    · rintro ⟨hcount, -, hcursor⟩
      obtain rfl := List.length_eq_zero_iff.1 hcount.symm
      obtain ⟨bytes⟩ := cursor
      obtain rfl : bytes = rest.rest := hcursor
      rfl
  | cons what whats ih =>
    constructor
    · intro h
      rw [askEach_cons] at h
      obtain ⟨hanswers, hrest⟩ := Prod.mk.inj h
      obtain ⟨part, parts, rfl, hpart, hparts⟩ := List.map_eq_cons_iff.1 hanswers.symm
      obtain ⟨hsize, hcursor⟩ := ask_eq_ok.1 (Prod.ext hpart.symm rfl)
      obtain ⟨hcount, hsizes, hnext⟩ := ih.1 (Prod.ext hparts.symm hrest)
      refine ⟨congrArg Nat.succ hcount, List.forall_mem_cons.2 ⟨hsize, hsizes⟩, ?_⟩
      rw [hcursor, hnext, frameAll_cons, List.append_assoc]
    · rintro ⟨hcount, hsizes, hcursor⟩
      obtain ⟨part, parts, rfl⟩ := List.exists_cons_of_length_eq_add_one hcount.symm
      rw [List.forall_mem_cons] at hsizes
      rw [frameAll_cons, List.append_assoc] at hcursor
      have hfirst : cursor.ask what = (.ok part, ⟨frameAll parts ++ rest.rest⟩) :=
        ask_eq_ok.2 ⟨hsizes.1, hcursor⟩
      have hothers : askEach whats ⟨frameAll parts ++ rest.rest⟩ = (parts.map .ok, rest) :=
        ih.2 ⟨Nat.succ.inj hcount, hsizes.2, rfl⟩
      rw [askEach_cons, hfirst, hothers, List.map_cons]

/-- **Byte strings and their frames determine each other.**  Take byte strings below four
gigabytes.  Their frames are read back in order, one by each call; then nothing is left, and there
is no further frame.  Conversely, a byte string of which calls return `parts` and leave nothing
is the frames of `parts`, as many as there were calls; so frames tell what was framed, also where
the numbers differ.  A call fails just where no frame stands in front of the cursor, which then
stays where it is.  Whatever the answers to a row of calls are, what is returned stood in frames
before what is left: each call that succeeds takes four bytes and what it returns, any other
nothing.  A call on a cursor that is changed in place is `next`, with the cursor that `next`
gives, or the same one where it fails. -/
theorem framing_bijective :
    (∀ (parts : List Bytes) (whats : List String), (∀ part ∈ parts, part.length < 2 ^ 32) →
      whats.length = parts.length →
        askEach whats ⟨frameAll parts⟩ = (parts.map .ok, ⟨[]⟩) ∧
        ∀ what, finish ⟨[]⟩ what = .ok () ∧
          ask ⟨[]⟩ what = (.error (.invalidEncoding what), ⟨[]⟩)) ∧
    (∀ (data : Bytes) (whats : List String) (parts : List Bytes) (rest : FrameCursor)
      (what : String), askEach whats ⟨data⟩ = (parts.map .ok, rest) → rest.finish what = .ok () →
        data = frameAll parts ∧ parts.length = whats.length ∧
          ∀ part ∈ parts, part.length < 2 ^ 32) ∧
    (∀ parts others : List Bytes, (∀ part ∈ parts, part.length < 2 ^ 32) →
      (∀ other ∈ others, other.length < 2 ^ 32) →
        (frameAll parts = frameAll others ↔ parts = others)) ∧
    (∀ (cursor : FrameCursor) (what : String) (cause : Error),
      ((cursor.ask what).1 = .error cause ↔ cause = .invalidEncoding what ∧ cursor.Stuck) ∧
        ((cursor.ask what).1 = .error cause → (cursor.ask what).2 = cursor)) ∧
    (∀ (whats : List String) (cursor : FrameCursor),
      let (answers, rest) := askEach whats cursor
      answers.length = whats.length ∧
        cursor.rest = frameAll (returned answers) ++ rest.rest ∧
        cursor.rest.length =
          4 * (returned answers).length + ((returned answers).map List.length).sum +
            rest.rest.length) ∧
    ∀ (cursor : FrameCursor) (what : String), cursor.ask what =
      match cursor.next what with
      | .ok (data, rest) => (.ok data, rest)
      | .error cause => (.error cause, cursor) := by
  refine ⟨?reads, ?written, ?injective, ?fails, ?consumes, ask_eq⟩
  case reads =>
    intro parts whats hsizes hcount
    refine ⟨askEach_eq_map_ok.2 ⟨hcount, hsizes, (List.append_nil _).symm⟩, fun what => ⟨rfl, ?_⟩⟩
    exact Prod.ext (ask_eq_error.2 ⟨rfl, stuck_nil⟩) rfl
  case written =>
    intro data whats parts rest what hread hfinish
    obtain ⟨hcount, hsizes, hdata⟩ := askEach_eq_map_ok.1 hread
    rw [finish_eq_ok.1 hfinish, List.append_nil] at hdata
    exact ⟨hdata, hcount.symm, hsizes⟩
  case injective =>
    exact fun parts others hparts hothers => ⟨frameAll_inj hparts hothers, congrArg frameAll⟩
  case fails =>
    intro cursor what cause
    refine ⟨ask_eq_error, fun h => ?_⟩
    obtain ⟨data, rest, hask, -⟩ | ⟨hask, -⟩ := cursor.ask_cases what
    · rw [hask] at h
      exact nomatch h
    · rw [hask]
  case consumes =>
    intro whats cursor
    have hrest := rest_eq_frameAll_append whats cursor
    refine ⟨length_askEach whats cursor, hrest, ?_⟩
    rw [← length_frameAll_eq, ← List.length_append, ← hrest]

/-- The hypotheses are satisfiable: of three byte strings, of which one is empty and one reads like
a frame itself, the frames are read back, and they are not those of two. -/
theorem framing_bijective_three :
    askEach ["a", "b", "c"] ⟨frameAll [[7], [], [0, 0, 0, 1, 7]]⟩ =
        ([.ok [7], .ok [], .ok [0, 0, 0, 1, 7]], ⟨[]⟩) ∧
      [0, 0, 0, 1, 7, 0, 0, 0, 0, 0, 0, 0, 5, 0, 0, 0, 1, 7] =
        frameAll [[7], [], [0, 0, 0, 1, 7]] ∧
      frameAll [[7], [], [0, 0, 0, 1, 7]] ≠ frameAll [[7], [0, 0, 0, 1, 7]] ∧
      (ask ⟨[0, 0, 0, 2, 7]⟩ "a").2 = ⟨[0, 0, 0, 2, 7]⟩ := by
  obtain ⟨hreads, hwritten, hinjective, hfails, -⟩ := framing_bijective
  have hsizes : ∀ part ∈ ([[7], [], [0, 0, 0, 1, 7]] : List Bytes), part.length < 2 ^ 32 := by
    decide
  refine ⟨(hreads _ ["a", "b", "c"] hsizes rfl).1, ?_, ?_, ?_⟩
  · exact (hwritten _ ["a", "b", "c"] [[7], [], [0, 0, 0, 1, 7]] ⟨[]⟩ "d" (by decide +kernel) rfl).1
  · exact (hinjective _ _ hsizes (by decide)).not.2 (by decide)
  · exact (hfails ⟨[0, 0, 0, 2, 7]⟩ "a" (.invalidEncoding "a")).2 rfl

end FrameCursor
end ThreeMove

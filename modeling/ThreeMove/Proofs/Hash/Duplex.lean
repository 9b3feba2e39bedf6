/-
# A duplex object is the hash of its history

What a duplex object answers depends on its history alone: the value it was opened with,
and all it has taken in and given out since, as one string (`Duplex.History`).  A history
is an object of its own kind, which hashes from the start on every `squeeze`; calls on it
and on the duplex object give the same outputs (`Duplex.runEach_call_duplex`).

Several objects are called in turn, and cloned.  Each sees the calls addressed to it and
no others (`Duplex.seen_runEach`), so a clone shares with its original the history up to
the cloning and nothing after it.

The string that is hashed tells the value opened with from what came after
(`Duplex.openingBlock_append_eq_iff`): the length in front says where the value ends, and
with it how many zero bytes follow.
-/

import ThreeMove.Proofs.Bytes
import ThreeMove.Proofs.Hash.Blocks

namespace ThreeMove

/-! ### Steps one after another -/

section Steps

variable {σ τ ι ο : Type}

/-- The outputs of steps one after another, and the state after them. -/
def runEach (step : σ → ι → List ο × σ) (s : σ) : List ι → List ο × σ
  | [] => ([], s)
  | i :: rest =>
    let first := step s i
    let others := runEach step first.2 rest
    (first.1 ++ others.1, others.2)

variable {step : σ → ι → List ο × σ} {step' : τ → ι → List ο × τ}

/-- One input takes one step. -/
theorem runEach_singleton (s : σ) (i : ι) : runEach step s [i] = step s i := by
  rw [runEach, runEach, List.append_nil]

/-- A run on inputs one behind the other is a run on the first and then one on the second. -/
theorem runEach_append (s : σ) (first second : List ι) :
    runEach step s (first ++ second) =
      ((runEach step s first).1 ++ (runEach step (runEach step s first).2 second).1,
        (runEach step (runEach step s first).2 second).2) := by
  induction first generalizing s with
  | nil => rfl
  | cons i rest ih => rw [List.cons_append, runEach, ih]; simp only [runEach, List.append_assoc]

/-- States that go through each step alike go through all steps alike. -/
theorem runEach_map {f : σ → τ} (h : ∀ s i, step' (f s) i = Prod.map id f (step s i)) (s : σ)
    (is : List ι) : runEach step' (f s) is = Prod.map id f (runEach step s is) := by
  induction is generalizing s with
  | nil => rfl
  | cons i rest ih =>
    rw [runEach, h, Prod.map_snd, ih]
    rfl

end Steps

/-- Objects that take input and give output in any order. -/
class DuplexInterface (σ : Type) where
  absorb : σ → Bytes → σ
  squeeze : σ → Nat → Bytes × σ

namespace Duplex

/-- A call on an object. -/
inductive Call where
  | absorb (input : Bytes)
  | squeeze (count : Nat)

/-- A call on the object at place `i`, or the cloning of that object to a new last place. -/
inductive Event where
  | call (i : Nat) (c : Call)
  | clone (i : Nat)

/-- The call that an event is for the object at place `i`. -/
def Event.callAt? (i : Nat) : Event → Option Call
  | .call j c => if j = i then some c else none
  | .clone _ => none

section Calls

variable {σ : Type} [DuplexInterface σ]

/-- The outputs of a call, none or one, and the object after it. -/
def call (object : σ) : Call → List Bytes × σ
  | .absorb input => ([], DuplexInterface.absorb object input)
  | .squeeze count =>
    ([(DuplexInterface.squeeze object count).1], (DuplexInterface.squeeze object count).2)

/-- The outputs of an event, each with the place of the object that gave it, and the
objects after it.  Where no object stands at the place, nothing happens. -/
def event (objects : List σ) : Event → List (Nat × Bytes) × List σ
  | .call i c =>
    match objects[i]? with
    | some object => ((call object c).1.map (i, ·), objects.set i (call object c).2)
    | none => ([], objects)
  | .clone i => ([], objects ++ objects[i]?.toList)

/-- What is seen at place `i`: the outputs given there, and the object that stands there. -/
def seen (i : Nat) (result : List (Nat × Bytes) × List σ) : List Bytes × Option σ :=
  ((result.1.filter (·.1 = i)).map (·.2), result.2[i]?)

/-! ### Each object by itself -/

/-- What an event does at a place is the call it is for the object there, if it is one. -/
theorem seen_event {objects : List σ} {i : Nat} {object : σ} (e : Event)
    (h : objects[i]? = some object) :
    seen i (event objects e) = Prod.map id some (runEach call object (e.callAt? i).toList) := by
  obtain ⟨hi, -⟩ := List.getElem?_eq_some_iff.1 h
  cases e with
  | clone j =>
    rw [seen, event, List.getElem?_append_left hi, h]
    rfl
  | call j c =>
    rw [event, Event.callAt?]
    by_cases hj : j = i
    case pos =>
      subst hj
      have houtputs : (((call object c).1.map (j, ·)).filter (·.1 = j)).map (·.2) =
          (call object c).1 := by
        rw [List.filter_map, List.map_map]
        simp [Function.comp_def]
      rw [if_pos rfl, Option.toList, runEach_singleton, h, seen, houtputs,
        List.getElem?_set_self hi]
      rfl
    case neg =>
      rw [if_neg hj]
      cases hobject : objects[j]? with
      | none => rw [seen, h]; rfl
      | some other =>
        have houtputs : (((call other c).1.map (j, ·)).filter (·.1 = i)).map (·.2) = [] := by
          simp [hj]
        rw [seen, houtputs, List.getElem?_set_ne hj, h]
        rfl

/-- What is seen at a place after any events is what the calls addressed to it do to the
object that stands there, whatever is called and cloned elsewhere in between. -/
theorem seen_runEach {objects : List σ} {i : Nat} {object : σ} (events : List Event)
    (h : objects[i]? = some object) :
    seen i (runEach event objects events) =
      Prod.map id some (runEach call object (events.filterMap (·.callAt? i))) := by
  induction events generalizing objects object with
  | nil => rw [seen, runEach, h]; rfl
  | cons e rest ih =>
    have hfirst := seen_event e h
    have hplace : (event objects e).2[i]? = some (runEach call object (e.callAt? i).toList).2 :=
      congrArg Prod.snd hfirst
    have hcalls : (e :: rest).filterMap (·.callAt? i) =
        (e.callAt? i).toList ++ rest.filterMap (·.callAt? i) := by
      rw [List.filterMap_cons]
      cases e.callAt? i <;> rfl
    have hsplit : seen i (runEach event objects (e :: rest)) =
        ((seen i (event objects e)).1 ++ (seen i (runEach event (event objects e).2 rest)).1,
          (seen i (runEach event (event objects e).2 rest)).2) := by
      simp only [seen, runEach, List.filter_append, List.map_append]
    rw [hsplit, hfirst, ih hplace, hcalls, runEach_append]
    rfl

end Calls

instance : DuplexInterface Duplex := ⟨absorb, squeeze⟩

/-! ### Histories -/

/-- What an object was opened with, and all it took in and gave out since. -/
structure History where
  iv : Bytes
  data : Bytes

namespace History

/-- The history of an object just opened. -/
def new (iv : Bytes) : History := ⟨iv, []⟩

def absorb (h : History) (input : Bytes) : History := { h with data := h.data ++ input }

/-- The first `count` bytes of SHAKE128 of the whole history, and the history that they are
part of. -/
def squeeze (h : History) (count : Nat) : Bytes × History :=
  let output := Keccak.hash shakeRate 0x1f (openingBlock h.iv ++ h.data) count
  (output, h.absorb output)

instance : DuplexInterface History := ⟨absorb, squeeze⟩

/-- The duplex object with this history. -/
def duplex (h : History) : Duplex := (Duplex.new h.iv).absorb h.data

/-- Absorbing into the history is absorbing into its duplex. -/
theorem duplex_absorb (h : History) (input : Bytes) :
    (h.absorb input).duplex = h.duplex.absorb input :=
  absorb_append (Duplex.new h.iv) h.data input

/-- Squeezing from the history is squeezing from its duplex. -/
theorem duplex_squeeze (h : History) (count : Nat) :
    h.duplex.squeeze count = Prod.map id duplex (h.squeeze count) := by
  have houtput : (h.duplex.squeeze count).1 = (h.squeeze count).1 := by
    rw [duplex, squeeze_absorb_new, shake128_eq_hash, squeeze]
  calc h.duplex.squeeze count
      = ((h.duplex.squeeze count).1, h.duplex.absorb (h.duplex.squeeze count).1) := rfl
    _ = ((h.squeeze count).1, (h.absorb (h.squeeze count).1).duplex) := by
        rw [houtput, duplex_absorb]

end History

/-- One call on a duplex object is that call on its history. -/
theorem call_duplex (h : History) (c : Call) :
    call h.duplex c = Prod.map id History.duplex (call h c) := by
  cases c with
  | absorb input => exact congrArg (Prod.mk []) (h.duplex_absorb input).symm
  | squeeze count =>
    have hsqueeze : DuplexInterface.squeeze h.duplex count =
        Prod.map id History.duplex (DuplexInterface.squeeze h count) := h.duplex_squeeze count
    rw [call, hsqueeze]
    rfl

/-- Calls on a duplex object give the outputs that they give on its history. -/
theorem runEach_call_duplex (h : History) (calls : List Call) :
    runEach call h.duplex calls = Prod.map id History.duplex (runEach call h calls) :=
  runEach_map call_duplex h calls

/-- Inputs one after another are their concatenation. -/
theorem runEach_map_absorb (d : Duplex) (inputs : List Bytes) :
    runEach call d (inputs.map .absorb) = ([], d.absorb inputs.flatten) := by
  induction inputs generalizing d with
  | nil => rfl
  | cons input rest ih =>
    rw [List.flatten_cons, absorb_append, List.map_cons, runEach]
    exact ih (d.absorb input)

/-! ### The string that is hashed -/

/-- Two hashed strings are equal only where both the values opened with and the rest are. -/
theorem openingBlock_append_eq_iff {iv iv' data data' : Bytes} (h : iv.length < 2 ^ 32)
    (h' : iv'.length < 2 ^ 32) :
    openingBlock iv ++ data = openingBlock iv' ++ data' ↔ iv = iv' ∧ data = data' := by
  constructor
  case mpr =>
    rintro ⟨rfl, rfl⟩
    rfl
  case mp =>
    intro heq
    simp only [openingBlock, List.append_assoc (_ ++ _)] at heq
    obtain ⟨rfl, hrest⟩ := Bytes.be_length_append_inj h h' heq
    exact ⟨rfl, List.append_cancel_left hrest⟩

/-- **A duplex object is the hash of its history, and the history is unambiguous.**
Whatever it is opened with and whatever calls follow, each `squeeze` gives SHAKE128 of the
opening block and of all that was absorbed and squeezed before, and the object after the
calls is the one with that history.  How an input is cut makes no difference, wherever it
stands among the calls.  After a cloning the clone, its original and every other object go
on each by the calls addressed to it alone, the clone from the history of its original.
And the hashed strings of two histories are equal where the histories are and nowhere
else, whether or not the length and the value opened with fill their blocks. -/
theorem hashes_history :
    (∀ (iv : Bytes) (calls : List Call),
      runEach call (new iv) calls =
        Prod.map id History.duplex (runEach call (History.new iv) calls)) ∧
    (∀ (d : Duplex) (before after : List Call) (inputs inputs' : List Bytes),
      inputs.flatten = inputs'.flatten →
        runEach call d (before ++ inputs.map .absorb ++ after) =
          runEach call d (before ++ inputs'.map .absorb ++ after)) ∧
    (∀ (histories : List History) (i : Nat) (h : History) (events : List Event),
      histories[i]? = some h → ∀ (k : Nat) (h' : History), (histories ++ [h])[k]? = some h' →
        seen k (runEach event (histories.map History.duplex) (.clone i :: events)) =
          Prod.map id (fun after => some after.duplex)
            (runEach call h' (events.filterMap (·.callAt? k)))) ∧
    (∀ iv iv' data data' : Bytes, iv.length < 2 ^ 32 → iv'.length < 2 ^ 32 →
      (openingBlock iv ++ data = openingBlock iv' ++ data' ↔ iv = iv' ∧ data = data')) := by
  refine ⟨?history, ?cut, ?clone, ?unambiguous⟩
  case history =>
    intro iv calls
    exact runEach_call_duplex (History.new iv) calls
  case cut =>
    intro d before after inputs inputs' hflatten
    rw [runEach_append, runEach_append d (before ++ _), runEach_append d before,
      runEach_append d before, runEach_map_absorb, runEach_map_absorb, hflatten]
  case clone =>
    intro histories i h events hi k h' hk
    have hclone : event (histories.map History.duplex) (.clone i) =
        ([], (histories ++ [h]).map History.duplex) := by
      rw [event, List.getElem?_map, hi, List.map_append]
      rfl
    have hplace : ((histories ++ [h]).map History.duplex)[k]? = some h'.duplex := by
      rw [List.getElem?_map, hk]
      rfl
    rw [runEach, hclone, List.nil_append, Prod.mk.eta, seen_runEach events hplace,
      runEach_call_duplex]
    rfl
  case unambiguous =>
    intro iv iv' data data' h h'
    exact openingBlock_append_eq_iff h h'

/-- The hypotheses are satisfiable: behind its length, a value of 164 zero bytes fills one
block and is followed by a block of zeros, and one of 163 zero bytes with a block of zeros
absorbed is hashed as a string of the same 336 bytes but for the fourth. -/
theorem hashes_history_zeros :
    runEach call (new (Bytes.zeros 164)) [.absorb [1], .squeeze 2] =
      Prod.map id History.duplex
        (runEach call (History.new (Bytes.zeros 164)) [.absorb [1], .squeeze 2]) ∧
    runEach call (new (Bytes.zeros 164)) [.absorb [1], .absorb [2, 3], .squeeze 2] =
      runEach call (new (Bytes.zeros 164)) [.absorb [1, 2], .absorb [], .absorb [3], .squeeze 2] ∧
    seen 1 (runEach event [(History.new (Bytes.zeros 164)).duplex]
        [.clone 0, .call 0 (.absorb [1]), .call 1 (.squeeze 2)]) =
      Prod.map id (fun after => some after.duplex)
        (runEach call (History.new (Bytes.zeros 164)) [.squeeze 2]) ∧
    openingBlock (Bytes.zeros 164) ++ [] ≠ openingBlock (Bytes.zeros 163) ++ Bytes.zeros 168 := by
  refine ⟨?history, ?cut, ?clone, ?unambiguous⟩
  case history => exact hashes_history.1 _ _
  case cut =>
    exact hashes_history.2.1 (new (Bytes.zeros 164)) [] [.squeeze 2] [[1], [2, 3]] [[1, 2], [], [3]]
      (by decide)
  case clone =>
    exact hashes_history.2.2.1 [History.new (Bytes.zeros 164)] 0 _
      [.call 0 (.absorb [1]), .call 1 (.squeeze 2)] rfl 1 _ rfl
  case unambiguous =>
    intro heq
    have hsize : (Bytes.zeros 164).length < 2 ^ 32 := by rw [Bytes.length_zeros]; decide
    have hsize' : (Bytes.zeros 163).length < 2 ^ 32 := by rw [Bytes.length_zeros]; decide
    have hlength := congrArg List.length ((hashes_history.2.2.2 _ _ _ _ hsize hsize').1 heq).1
    rw [Bytes.length_zeros, Bytes.length_zeros] at hlength
    exact absurd hlength (by decide)

end Duplex
end ThreeMove

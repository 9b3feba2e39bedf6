/-
# Random computations

A `Sampler` is a computation that asks for random values: an element of a
challenge space, or a number of bytes.  It says what is drawn and in which
order, not where the bytes come from; `Sampler.run` answers the requests from a
stream.  A computation that fails has still consumed what it drew before.
-/

import ThreeMove.Challenge
import ThreeMove.Random.Stream

namespace ThreeMove

/-- A computation of an `α` from random draws. Source: `RngCore`, `CryptoRng`. -/
inductive Sampler (α : Type) where
  | done (value : α)
  | fail (cause : Failure)
  | element (space : ChallengeSpace) (next : Nat → Sampler α)
  | bytes (count : Nat) (next : Bytes → Sampler α)

namespace Sampler

variable {α β γ : Type}

/-- Goes on with the result. -/
def bind : Sampler α → (α → Sampler β) → Sampler β
  | .done value, f => f value
  | .fail cause, _ => .fail cause
  | .element space next, f => .element space fun c => (next c).bind f
  | .bytes count next, f => .bytes count fun b => (next b).bind f

instance : Monad Sampler where
  pure := .done
  bind := Sampler.bind

/-- A uniform element of a challenge space. Source: `generate_random_challenge`. -/
def drawElement (space : ChallengeSpace) : Sampler Nat := .element space .done

/-- Uniform bytes. Source: `fill_bytes`. -/
def drawBytes (count : Nat) : Sampler Bytes := .bytes count .done

/-- A computation without draws. -/
def ofExcept : Except Failure α → Sampler α
  | .ok value => .done value
  | .error cause => .fail cause

/-- Refuses. -/
def refuse (cause : Error) : Sampler α := .fail (.error cause)

/-- To go on with nothing but the result changes nothing. -/
theorem bind_done (x : Sampler α) : x.bind .done = x := by
  induction x with
  | done => rfl
  | fail => rfl
  | element space next ih => simp [bind, ih]
  | bytes count next ih => simp [bind, ih]

/-- It does not matter how a chain of computations is bracketed. -/
theorem bind_assoc (x : Sampler α) (f : α → Sampler β) (g : β → Sampler γ) :
    (x.bind f).bind g = x.bind fun a => (f a).bind g := by
  induction x with
  | done => rfl
  | fail => rfl
  | element space next ih => simp [bind, ih]
  | bytes count next ih => simp [bind, ih]

instance : LawfulMonad Sampler :=
  LawfulMonad.mk' Sampler (fun x => bind_done x) (fun _ _ => rfl) (fun x f g => bind_assoc x f g)

/-- Draws an element of a space from a stream: a residue by rejection, a scalar
by reducing 64 bytes. -/
def elementFrom (space : ChallengeSpace) (s : ByteStream) : Option Nat × ByteStream :=
  match space.family with
  | .residues => s.below space.modulus
  | .field =>
    let (value, s) := s.wide space.modulus
    (some value, s)

/-- Answers every request from a stream.  The stream is left where the last
request left it, also when the computation fails. -/
def run : Sampler α → ByteStream → Except Failure α × ByteStream
  | .done value, s => (.ok value, s)
  | .fail cause, s => (.error cause, s)
  | .element space next, s =>
    match elementFrom space s with
    | (some value, s) => (next value).run s
    | (none, s) => (.error (.abort .randomnessExhausted), s)
  | .bytes count next, s =>
    let (data, s) := s.take count
    (next data).run s

/-- A computation goes on with the stream where the first part has left it, and stops where that
fails. -/
theorem run_bind (x : Sampler α) (f : α → Sampler β) (s : ByteStream) :
    (x >>= f).run s =
      match x.run s with
      | (.ok value, s) => (f value).run s
      | (.error cause, s) => (.error cause, s) := by
  change (x.bind f).run s = _
  induction x generalizing s with
  | done value => rfl
  | fail cause => rfl
  | element space next ih =>
    simp only [bind, run]
    split <;> simp [ih]
  | bytes count next ih => simp only [bind, run, ih]

end Sampler
end ThreeMove

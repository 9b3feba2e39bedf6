/-
# Answering every draw

A `Sampler` asks for values one after another.  A `Tape` of it is one way of
answering all of them, each within its range, and `outcome` is what the
computation comes to on a tape.  Draws are uniform, so a tape has the chance
`chance`: the product of one over the size of the range, over its draws.
`Always` says that whatever is drawn, the computation returns a value with a
given property; it goes through `bind` one part at a time (`Always.bind`).
-/

import ThreeMove.Random.Sampler
import Mathlib.Data.ENNReal.Inv
import Mathlib.Data.Vector.Basic

namespace ThreeMove
namespace Sampler

open scoped ENNReal

variable {α β γ : Type}

/-- The ways of answering all draws of a computation, each within its range. -/
def Tape : Sampler α → Type
  | .done _ => Unit
  | .fail _ => Unit
  | .element space next => (c : Fin space.modulus) × (next c).Tape
  | .bytes count next => (data : List.Vector UInt8 count) × (next data.toList).Tape

/-- What a computation comes to when its draws are answered by a tape. -/
def outcome : (x : Sampler α) → x.Tape → Except Failure α
  | .done value, _ => .ok value
  | .fail cause, _ => .error cause
  | .element _ next, ⟨c, tape⟩ => (next c).outcome tape
  | .bytes _ next, ⟨data, tape⟩ => (next data.toList).outcome tape

/-- The chance of a tape when every draw is uniform over its range. -/
noncomputable def chance : (x : Sampler α) → x.Tape → ℝ≥0∞
  | .done _, _ => 1
  | .fail _, _ => 1
  | .element space next, ⟨c, tape⟩ => (space.modulus : ℝ≥0∞)⁻¹ * (next c).chance tape
  | .bytes count next, ⟨data, tape⟩ => (256 ^ count : ℝ≥0∞)⁻¹ * (next data.toList).chance tape

/-- Goes on with `f` after a first part that came to a value or failed. -/
def after (f : α → Sampler β) : Except Failure α → Sampler β
  | .ok value => f value
  | .error cause => .fail cause

/-- Whatever is drawn, the computation returns a value with the property `Q`. -/
def Always (Q : α → Prop) (x : Sampler α) : Prop :=
  ∀ tape : x.Tape, ∃ value, x.outcome tape = .ok value ∧ Q value

/-- There are draws for every computation. -/
theorem nonempty_tape (x : Sampler α) : Nonempty x.Tape := by
  induction x with
  | done value => exact ⟨()⟩
  | fail cause => exact ⟨()⟩
  | element space next ih => exact (ih 0).map fun tape => ⟨⟨0, space.modulus_pos⟩, tape⟩
  | bytes count next ih =>
    exact (ih (List.Vector.replicate count 0).toList).map fun tape =>
      ⟨List.Vector.replicate count 0, tape⟩

/-- A computation that returns a value with `Q` whatever is drawn returns one. -/
theorem Always.exists_value {Q : α → Prop} {x : Sampler α} (h : x.Always Q) : ∃ value, Q value := by
  obtain ⟨tape⟩ := x.nonempty_tape
  obtain ⟨value, -, hvalue⟩ := h tape
  exact ⟨value, hvalue⟩

/-! ### A computation that settles something first -/

/-- The draws of `x` are an index `i`, settled with chance `w i`, and then the
draws of `g i`, which decide the outcome. -/
def Splits {I : Type} (w : I → ℝ≥0∞) (g : I → Sampler α) (x : Sampler α) : Prop :=
  ∃ e : x.Tape ≃ (i : I) × (g i).Tape, ∀ tape,
    x.outcome tape = (g (e tape).1).outcome (e tape).2 ∧
      x.chance tape = w (e tape).1 * (g (e tape).1).chance (e tape).2

/-- A draw of an element settles the element, each with the same chance. -/
theorem splits_element (space : ChallengeSpace) (next : Nat → Sampler α) :
    Splits (fun _ => (space.modulus : ℝ≥0∞)⁻¹) (fun c : Fin space.modulus => next c)
      (.element space next) :=
  ⟨Equiv.refl _, fun _ => ⟨rfl, rfl⟩⟩

/-- A draw of bytes settles the bytes, each with the same chance. -/
theorem splits_bytes (count : Nat) (next : Bytes → Sampler α) :
    Splits (fun _ => (256 ^ count : ℝ≥0∞)⁻¹)
      (fun data : List.Vector UInt8 count => next data.toList) (.bytes count next) :=
  ⟨Equiv.refl _, fun _ => ⟨rfl, rfl⟩⟩

/-- Settling `i` and then, within `g i`, an index `j` settles the pair. -/
theorem Splits.trans {I : Type} {J : I → Type} {w : I → ℝ≥0∞} {g : I → Sampler α} {x : Sampler α}
    {v : (i : I) → J i → ℝ≥0∞} {h : (i : I) → J i → Sampler α} (hx : Splits w g x)
    (hg : ∀ i, Splits (v i) (h i) (g i)) :
    Splits (fun p : (i : I) × J i => w p.1 * v p.1 p.2) (fun p => h p.1 p.2) x := by
  obtain ⟨e, he⟩ := hx
  choose d hd using hg
  refine ⟨e.trans ((Equiv.sigmaCongrRight d).trans (Equiv.sigmaAssoc _).symm), fun tape => ?_⟩
  obtain ⟨houtcome, hchance⟩ := he tape
  obtain ⟨houtcome', hchance'⟩ := hd _ (e tape).2
  refine ⟨houtcome.trans houtcome', ?_⟩
  rw [hchance, hchance', ← mul_assoc]
  rfl

/-- A sequence settles the tape of its first part. -/
theorem splits_bind (x : Sampler α) (f : α → Sampler β) :
    Splits x.chance (fun tape => after f (x.outcome tape)) (x >>= f) := by
  change Splits _ _ (x.bind f)
  induction x with
  | done value =>
    exact ⟨(Equiv.uniqueSigma fun _ : Unit => (f value).Tape).symm,
      fun _ => ⟨rfl, (one_mul _).symm⟩⟩
  | fail cause =>
    exact ⟨(Equiv.uniqueSigma fun _ : Unit => Unit).symm, fun _ => ⟨rfl, (one_mul _).symm⟩⟩
  | element space next ih =>
    exact (splits_element space fun c => (next c).bind f).trans fun c => ih c
  | bytes count next ih =>
    exact (splits_bytes count fun data => (next data).bind f).trans fun data => ih data.toList

/-! ### What always holds -/

/-- What is returned at once has the property if it is given. -/
theorem always_pure {Q : α → Prop} {a : α} (h : Q a) : Always Q (pure a) :=
  fun _ => ⟨a, rfl, h⟩

/-- A step without draws that succeeds always does. -/
theorem always_ofExcept {Q : α → Prop} {x : Except Failure α} {a : α} (hx : x = .ok a) (h : Q a) :
    Always Q (ofExcept x) := by
  subst hx
  exact always_pure h

/-- What holds however the first index is settled always holds. -/
theorem Splits.always {I : Type} {w : I → ℝ≥0∞} {g : I → Sampler α} {x : Sampler α}
    {Q : α → Prop} (hx : Splits w g x) (hg : ∀ i, (g i).Always Q) : x.Always Q := by
  obtain ⟨e, he⟩ := hx
  intro tape
  obtain ⟨a, ha, hQ⟩ := hg _ (e tape).2
  exact ⟨a, (he tape).1.trans ha, hQ⟩

/-- What always holds of a sequence is found part by part. -/
theorem Always.bind {P : α → Prop} {Q : β → Prop} {x : Sampler α} {f : α → Sampler β}
    (hx : x.Always P) (hf : ∀ a, P a → (f a).Always Q) : Always Q (x >>= f) := by
  refine (splits_bind x f).always fun tape => ?_
  obtain ⟨a, ha, hP⟩ := hx tape
  simp only [ha]
  exact hf a hP

/-- A property of what is always returned may be weakened. -/
theorem Always.imp {P Q : α → Prop} {x : Sampler α} (hPQ : ∀ a, P a → Q a) (hP : x.Always P) :
    x.Always Q := by
  intro tape
  obtain ⟨a, ha, hPa⟩ := hP tape
  exact ⟨a, ha, hPQ a hPa⟩

/-- Two things that always hold do so together. -/
theorem Always.and {P Q : α → Prop} {x : Sampler α} (hP : x.Always P) (hQ : x.Always Q) :
    x.Always fun a => P a ∧ Q a := by
  intro tape
  obtain ⟨a, ha, hPa⟩ := hP tape
  obtain ⟨a', ha', hQa⟩ := hQ tape
  obtain rfl : a = a' := Except.ok.inj (ha.symm.trans ha')
  exact ⟨a, ha, hPa, hQa⟩

/-- What always holds of each step of a walk holds of all its values in order. -/
theorem always_mapM {P : α → β → Prop} {f : α → Sampler β} {as : List α}
    (h : ∀ a ∈ as, (f a).Always (P a)) : Always (List.Forall₂ P as) (as.mapM f) := by
  induction as with
  | nil => exact always_pure .nil
  | cons a rest ih =>
    rw [List.forall_mem_cons] at h
    rw [List.mapM_cons]
    refine h.1.bind fun b hb => (ih h.2).bind fun bs hbs => always_pure ?_
    exact .cons hb hbs

/-- An element drawn lies in the space. -/
theorem always_drawElement (space : ChallengeSpace) :
    Always (· < space.modulus) (drawElement space) := fun ⟨c, _⟩ => ⟨c, rfl, c.isLt⟩

/-- As many bytes are drawn as are asked for. -/
theorem always_drawBytes (count : Nat) : Always (·.length = count) (drawBytes count) :=
  fun ⟨data, _⟩ => ⟨data.toList, rfl, data.2⟩

end Sampler
end ThreeMove

/-
# The law of a random computation

`law` is the distribution of the outcome when every draw is uniform over its
range, and it is the sum of the chances of the tapes (`law_apply`).  Computations
whose tapes are paired with equal chances and equal outcomes have one law
(`Matched.law_eq`).
-/

import ThreeMove.Proofs.Random.Coupling
import Mathlib.Probability.Distributions.Uniform
import Mathlib.Data.Fintype.BigOperators

namespace ThreeMove
namespace Sampler

open scoped ENNReal

variable {α : Type}

instance (space : ChallengeSpace) : NeZero space.modulus := ⟨space.modulus_pos.ne'⟩

instance : Fintype UInt8 :=
  Fintype.ofEquiv (Fin 256) ⟨UInt8.ofFin, UInt8.toFin, fun _ => rfl, fun _ => rfl⟩

instance (count : Nat) : Nonempty (List.Vector UInt8 count) := ⟨List.Vector.replicate count 0⟩

/-- There are 256 bytes. -/
theorem card_uint8 : Fintype.card UInt8 = 256 := by
  rw [Fintype.ofEquiv_card, Fintype.card_fin]

/-- The distribution of the outcome, every draw being uniform over its range. -/
noncomputable def law : Sampler α → PMF (Except Failure α)
  | .done value => PMF.pure (.ok value)
  | .fail cause => PMF.pure (.error cause)
  | .element space next => (PMF.uniformOfFintype (Fin space.modulus)).bind fun c => (next c).law
  | .bytes count next =>
    (PMF.uniformOfFintype (List.Vector UInt8 count)).bind fun data => (next data.toList).law

open Classical in
/-- The chances of the tapes that lead to `result`, taken together. -/
noncomputable def mass (x : Sampler α) (result : Except Failure α) : ℝ≥0∞ :=
  tsum fun tape : x.Tape => if x.outcome tape = result then x.chance tape else 0

/-- The mass of a result is the weighted sum of its masses after each first draw. -/
theorem Splits.mass_eq {I : Type} {w : I → ℝ≥0∞} {g : I → Sampler α} {x : Sampler α}
    (hx : Splits w g x) (result : Except Failure α) :
    x.mass result = tsum fun i => w i * (g i).mass result := by
  classical
  obtain ⟨e, he⟩ := hx
  calc x.mass result
      = tsum fun p : (i : I) × (g i).Tape =>
          if (g p.1).outcome p.2 = result then w p.1 * (g p.1).chance p.2 else 0 := by
        rw [mass, ← e.tsum_eq]
        exact tsum_congr fun tape => by rw [(he tape).1, (he tape).2]
    _ = tsum fun i => tsum fun tape : (g i).Tape =>
          if (g i).outcome tape = result then w i * (g i).chance tape else 0 :=
        ENNReal.tsum_sigma fun i tape =>
          if (g i).outcome tape = result then w i * (g i).chance tape else 0
    _ = tsum fun i => w i * (g i).mass result := by
        refine tsum_congr fun i => ?_
        rw [mass, ← ENNReal.tsum_mul_left]
        exact tsum_congr fun tape => (mul_ite_zero ..).symm

/-- Without draws there is one tape, and it decides. -/
theorem mass_ofExcept (found result : Except Failure α) :
    (ofExcept found).mass result = PMF.pure found result := by
  classical
  have hmass : (ofExcept found).mass result = if found = result then 1 else 0 := by
    cases found with
    | ok value =>
      change tsum (fun _ : Unit => if .ok value = result then (1 : ℝ≥0∞) else 0) = _
      rw [tsum_eq_single () fun _ h => absurd rfl h]
    | error cause =>
      change tsum (fun _ : Unit => if .error cause = result then (1 : ℝ≥0∞) else 0) = _
      rw [tsum_eq_single () fun _ h => absurd rfl h]
  rw [hmass]
  split
  · next h => rw [← h, PMF.pure_apply_self]
  · next h => rw [PMF.pure_apply_of_ne _ _ (Ne.symm h)]

/-- An outcome is as likely as the tapes that lead to it. -/
theorem law_apply (x : Sampler α) (result : Except Failure α) : x.law result = x.mass result := by
  induction x with
  | done value => exact (mass_ofExcept (.ok value) result).symm
  | fail cause => exact (mass_ofExcept (.error cause) result).symm
  | element space next ih =>
    rw [law, PMF.bind_apply, (splits_element space next).mass_eq]
    refine tsum_congr fun c => ?_
    rw [PMF.uniformOfFintype_apply, Fintype.card_fin, ih]
  | bytes count next ih =>
    rw [law, PMF.bind_apply, (splits_bytes count next).mass_eq]
    refine tsum_congr fun data => ?_
    rw [PMF.uniformOfFintype_apply, card_vector, card_uint8, ih]
    norm_cast

/-- Matching computations have one law. -/
theorem Matched.law_eq {x y : Sampler α} (h : Matched Eq x y) : x.law = y.law := by
  classical
  obtain ⟨e, he⟩ := h
  refine PMF.ext fun result => ?_
  rw [law_apply, law_apply, mass, mass, ← e.tsum_eq]
  exact tsum_congr fun tape => by rw [(he tape).1, (he tape).2]

end Sampler
end ThreeMove

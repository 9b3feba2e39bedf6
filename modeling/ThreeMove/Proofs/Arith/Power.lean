/-
# What `powMod` computes

Squaring and multiplying along the binary digits of the exponent gives the power
(`powMod_eq`).
-/

import ThreeMove.Arith.Power
import Mathlib.Algebra.Group.Nat.Defs

namespace ThreeMove

/-- A number fits its bits. -/
theorem lt_two_pow_bitLength (n : Nat) : n < 2 ^ bitLength n := by
  unfold bitLength
  split
  · subst n; decide
  · exact Nat.lt_log2_self

/-- The loop multiplies the accumulator by the power that is left. -/
theorem powMod.go_eq (n digits b e acc : Nat) (he : e < 2 ^ digits) (hacc : acc % n = acc) :
    powMod.go n digits b e acc = acc * b ^ e % n := by
  induction digits generalizing b e acc with
  | zero =>
    obtain rfl : e = 0 := by simpa using he
    simp [powMod.go, hacc]
  | succ digits ih =>
    have hhalf : e / 2 < 2 ^ digits := by
      rw [Nat.pow_succ] at he
      omega
    have hsquare : (b * b % n) ^ (e / 2) % n = b ^ (2 * (e / 2)) % n := by
      rw [← Nat.pow_mod, Nat.pow_mul, Nat.pow_two]
    rw [powMod.go, ih _ _ _ hhalf (by split <;> simp [hacc])]
    rcases Nat.mod_two_eq_zero_or_one e with h | h
    · have hpow : 2 * (e / 2) = e := by omega
      rw [if_neg (by omega), Nat.mul_mod, hsquare, ← Nat.mul_mod, hpow]
    · have hpow : b * b ^ (2 * (e / 2)) = b ^ e := by
        rw [← Nat.pow_succ']
        congr 1
        omega
      rw [if_pos h, Nat.mul_mod, hsquare, ← Nat.mul_mod, Nat.mul_mod, Nat.mod_mod, ← Nat.mul_mod,
        Nat.mul_assoc, hpow]

/-- Squaring and multiplying computes the power modulo `n`. -/
theorem powMod_eq (b e n : Nat) : powMod b e n = b ^ e % n := by
  rw [powMod, powMod.go_eq _ _ _ _ _ (lt_two_pow_bitLength e) (Nat.mod_mod 1 n), Nat.mul_mod,
    Nat.mod_mod, ← Nat.pow_mod, ← Nat.mul_mod, Nat.one_mul]

end ThreeMove

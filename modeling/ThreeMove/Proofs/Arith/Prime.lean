/-
# Certificates of primality

Lucas's test in terms of `powMod`: a number `p` is prime when some `a` has the
order `p - 1` modulo `p`, which is read off the prime factors of `p - 1`.  The
factors are certified in the same way, down to numbers that trial division
settles.
-/

import ThreeMove.Proofs.Arith.Power
import Mathlib.NumberTheory.LucasPrimality

namespace ThreeMove

/-- A power is one modulo `p` exactly where the computed power is one. -/
theorem pow_eq_one_iff_powMod {p a e : Nat} (hp : 1 < p) :
    (a : ZMod p) ^ e = 1 ↔ powMod a e p = 1 := by
  rw [← Nat.cast_pow, ← Nat.cast_one, ZMod.natCast_eq_natCast_iff', Nat.mod_eq_of_lt hp,
    powMod_eq]

/-- A number passes Lucas's test for `a` only if it is prime. -/
theorem prime_of_powMod {p : Nat} (a : Nat) (factors : List Nat)
    (hprime : ∀ q ∈ factors, q.Prime)
    (htest : 1 < p ∧ factors.prod = p - 1 ∧ powMod a (p - 1) p = 1 ∧
      ∀ q ∈ factors, powMod a ((p - 1) / q) p ≠ 1) : p.Prime := by
  obtain ⟨hp, hprod, hone, hne⟩ := htest
  refine lucas_primality p a ((pow_eq_one_iff_powMod hp).2 hone) fun q hq hdvd h => ?_
  rw [← hprod] at hdvd
  obtain ⟨r, hr, hqr⟩ := (hq.prime.dvd_prod_iff).1 hdvd
  obtain rfl : q = r := (Nat.prime_dvd_prime_iff_eq hq (hprime r hr)).1 hqr
  exact hne q hr ((pow_eq_one_iff_powMod hp).1 h)

end ThreeMove

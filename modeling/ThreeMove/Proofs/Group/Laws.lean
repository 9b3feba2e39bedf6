/-
# The laws of a group of prime order

`PrimeGroup` has operations only.  `PrimeGroup.Laws` is what a statement about
discrete logarithms may ask of them: a commutative group, written additively, of
prime order, on which numbers act linearly.  The multiples of an element depend
on the number up to the order (`smul_congr`), and differences of challenges act
as differences (`sub_smul`).
-/

import ThreeMove.Group.Basic
import ThreeMove.Proofs.Challenge.Shares

namespace ThreeMove
namespace PrimeGroup

/-- A commutative group of prime order on which numbers act linearly. -/
structure Laws (G : Type) [PrimeGroup G] : Prop where
  prime : (order G).Prime
  add_assoc : ∀ a b c : G, a + b + c = a + (b + c)
  add_comm : ∀ a b : G, a + b = b + a
  add_zero : ∀ a : G, a + 0 = a
  sub_add_cancel : ∀ a b : G, a - b + b = a
  one_smul : ∀ a : G, 1 • a = a
  add_smul : ∀ (m n : Nat) (a : G), (m + n) • a = m • a + n • a
  mul_smul : ∀ (m n : Nat) (a : G), (m * n) • a = m • n • a
  smul_add : ∀ (m : Nat) (a b : G), m • (a + b) = m • a + m • b
  order_smul : ∀ a : G, order G • a = 0

namespace Laws

variable {G : Type} [PrimeGroup G] (laws : Laws G)

include laws

/-- Zero in front may be left out. -/
theorem zero_add (a : G) : 0 + a = a := by rw [laws.add_comm, laws.add_zero]

/-- What is added on the right may be cancelled. -/
theorem add_right_cancel {a b c : G} (h : a + c = b + c) : a = b := by
  have hinverse : c + (0 - c) = 0 := by rw [laws.add_comm, laws.sub_add_cancel]
  calc a = a + (c + (0 - c)) := by rw [hinverse, laws.add_zero]
    _ = b + (c + (0 - c)) := by rw [← laws.add_assoc, h, laws.add_assoc]
    _ = b := by rw [hinverse, laws.add_zero]

/-- A difference is what makes up the sum. -/
theorem eq_sub_iff {a b c : G} : a = b - c ↔ a + c = b :=
  ⟨fun h => h ▸ laws.sub_add_cancel b c,
    fun h => laws.add_right_cancel (h.trans (laws.sub_add_cancel b c).symm)⟩

/-- Every multiple of zero is zero. -/
theorem smul_zero (m : Nat) : m • (0 : G) = 0 := by
  refine laws.add_right_cancel (c := m • (0 : G)) ?_
  rw [← laws.smul_add, laws.add_zero, laws.zero_add]

/-- Scalars count modulo the order. -/
theorem mod_smul (m : Nat) (a : G) : (m % order G) • a = m • a := by
  have hmultiple : (order G * (m / order G)) • a = 0 := by
    rw [Nat.mul_comm, laws.mul_smul, laws.order_smul, laws.smul_zero]
  calc (m % order G) • a = (m % order G + order G * (m / order G)) • a := by
        rw [laws.add_smul, hmultiple, laws.add_zero]
    _ = m • a := by rw [Nat.mod_add_div]

/-- The zeroth multiple is zero. -/
theorem zero_smul (a : G) : 0 • a = 0 := by
  rw [← Nat.mod_self (order G), laws.mod_smul, laws.order_smul]

/-- Multiples depend on the number up to the order. -/
theorem smul_congr {m n : Nat} (h : m ≡ n [MOD order G]) (a : G) : m • a = n • a := by
  rw [← laws.mod_smul m, h, laws.mod_smul]

/-- Only multiples of the order annihilate an element that is not neutral. -/
theorem eq_zero_of_smul {m : Nat} {a : G} (h : m • a = 0) (hm : ¬ m ≡ 0 [MOD order G]) : a = 0 :=
  calc a = 1 • a := (laws.one_smul a).symm
    _ = (powMod m (order G - 2) (order G) * m) • a :=
        (laws.smul_congr (ChallengeSpace.powMod_inverse laws.prime hm) a).symm
    _ = 0 := by rw [laws.mul_smul, h, laws.smul_zero]

/-- Numbers whose difference annihilates an element that is not neutral agree up to the order. -/
theorem modEq_of_sub_smul {m n : Nat} {a : G} (ha : a ≠ 0) (h : (scalars G).sub m n • a = 0) :
    m ≡ n [MOD order G] := by
  by_contra hne
  exact ha (laws.eq_zero_of_smul h ((scalars G).sub_not_modEq_zero hne))

/-- A difference of challenges acts as the difference of the multiples. -/
theorem sub_smul (m n : Nat) (a : G) : (scalars G).sub m n • a = m • a - n • a := by
  rw [laws.eq_sub_iff, ← laws.add_smul]
  exact laws.smul_congr ((scalars G).sub_add_modEq m n) a

/-- Multiples of an element that is not neutral tell numbers apart, up to the order. -/
theorem modEq_of_smul_eq {m n : Nat} {a : G} (ha : a ≠ 0) (h : m • a = n • a) :
    m ≡ n [MOD order G] := by
  refine laws.modEq_of_sub_smul ha ?_
  rw [laws.sub_smul, h, eq_comm, laws.eq_sub_iff, laws.zero_add]

/-- What two elements have in common drops out of their difference. -/
theorem add_sub_add_left (t a b : G) : t + a - (t + b) = a - b := by
  symm
  rw [laws.eq_sub_iff, laws.add_comm t b, ← laws.add_assoc, laws.sub_add_cancel, laws.add_comm]

end Laws
end PrimeGroup
end ThreeMove

/-
# The residues modulo a prime as a group of prime order

Up to the way its elements are written, a group of prime order `n` is `Cyclic n`,
the residues modulo `n` under addition, so the laws of such a group can be had
(`Cyclic.laws`).  Ristretto255 has a prime number of elements
(`Ristretto.prime_groupOrder`), by a chain of Lucas tests.
-/

import ThreeMove.Group.Ristretto
import ThreeMove.Proofs.Arith.Prime
import ThreeMove.Proofs.Group.Laws
import Mathlib.Tactic.NormNum.Prime

namespace ThreeMove

/-- A residue modulo `n`. -/
@[ext]
structure Cyclic (n : Nat) where
  value : ZMod n
  deriving DecidableEq

namespace Cyclic

variable {n : Nat}

/-- The number of bytes of an encoded residue. -/
def byteLength (n : Nat) : Nat := (bitLength n + 7) / 8

/-- The residue that the bytes spell, if they spell a reduced one. -/
def read (n : Nat) (data : Bytes) : Option (Cyclic n) :=
  if data.length = byteLength n ∧ Bytes.leValue data < n then some ⟨Bytes.leValue data⟩ else none

instance [hn : Fact n.Prime] : PrimeGroup (Cyclic n) where
  zero := ⟨0⟩
  add a b := ⟨a.value + b.value⟩
  sub a b := ⟨a.value - b.value⟩
  smul k a := ⟨k * a.value⟩
  order := n
  two_le_order := hn.out.two_le
  elementLength := byteLength n
  encode a := Bytes.le (byteLength n) a.value.val
  decode := read n
  decEq := inferInstance

variable [hn : Fact n.Prime]

/-- The value of a sum is the sum of the values. -/
theorem value_add (a b : Cyclic n) : (a + b).value = a.value + b.value := rfl

/-- The value of a multiple is the multiple of the value. -/
theorem value_smul (k : Nat) (a : Cyclic n) : (k • a).value = k * a.value := rfl

/-- The integers modulo `n` are a group with its multiples. -/
theorem laws : PrimeGroup.Laws (Cyclic n) where
  prime := hn.out
  add_assoc a b c := congrArg mk (add_assoc a.value b.value c.value)
  add_comm a b := congrArg mk (add_comm a.value b.value)
  add_zero a := congrArg mk (add_zero a.value)
  sub_add_cancel a b := congrArg mk (sub_add_cancel a.value b.value)
  one_smul a := Cyclic.ext (by rw [value_smul, Nat.cast_one, one_mul])
  add_smul k l a := Cyclic.ext (by
    rw [value_add, value_smul, value_smul, value_smul, Nat.cast_add, add_mul])
  mul_smul k l a := Cyclic.ext (by
    rw [value_smul, value_smul, value_smul, Nat.cast_mul, mul_assoc])
  smul_add k a b := congrArg mk (mul_add (k : ZMod n) a.value b.value)
  order_smul a := Cyclic.ext ((congrArg (· * a.value) (ZMod.natCast_self n)).trans (zero_mul _))

end Cyclic

/-- The number of elements of ristretto255 is prime. -/
theorem Ristretto.prime_groupOrder : groupOrder.Prime := by
  have h₁ : Nat.Prime 292386187 := by
    refine prime_of_powMod 2 [2, 3, 3, 3, 3, 307, 5879] ?_ (by decide +kernel)
    simp only [List.forall_mem_cons]
    exact ⟨by norm_num, by norm_num, by norm_num, by norm_num, by norm_num, by norm_num,
      by norm_num, List.forall_mem_nil _⟩
  have h₂ : Nat.Prime 213441916511 := by
    refine prime_of_powMod 13 [2, 5, 73, 292386187] ?_ (by decide +kernel)
    simp only [List.forall_mem_cons]
    exact ⟨by norm_num, by norm_num, by norm_num, h₁, List.forall_mem_nil _⟩
  have h₃ : Nat.Prime 1257559732178653 := by
    refine prime_of_powMod 2 [2, 2, 3, 7, 23, 531581, 1224481] ?_ (by decide +kernel)
    simp only [List.forall_mem_cons]
    exact ⟨by norm_num, by norm_num, by norm_num, by norm_num, by norm_num, by norm_num,
      by norm_num, List.forall_mem_nil _⟩
  have h₄ : Nat.Prime 4434155615661930479 := by
    refine prime_of_powMod 17 [2, 41, 43, 1257559732178653] ?_ (by decide +kernel)
    simp only [List.forall_mem_cons]
    exact ⟨by norm_num, by norm_num, by norm_num, h₃, List.forall_mem_nil _⟩
  have h₅ : Nat.Prime 172054593956031949258510691 := by
    refine prime_of_powMod 2 [2, 5, 1361, 2851, 4434155615661930479] ?_ (by decide +kernel)
    simp only [List.forall_mem_cons]
    exact ⟨by norm_num, by norm_num, by norm_num, by norm_num, h₄, List.forall_mem_nil _⟩
  have h₆ : Nat.Prime 19757330305831588566944191468367130476339 := by
    refine prime_of_powMod 2 [2, 269, 213441916511,
      172054593956031949258510691] ?_ (by decide +kernel)
    simp only [List.forall_mem_cons]
    exact ⟨by norm_num, by norm_num, h₂, h₅, List.forall_mem_nil _⟩
  have h₇ : Nat.Prime 276602624281642239937218680557139826668747 := by
    refine prime_of_powMod 2 [2, 7,
      19757330305831588566944191468367130476339] ?_ (by decide +kernel)
    simp only [List.forall_mem_cons]
    exact ⟨by norm_num, by norm_num, h₆, List.forall_mem_nil _⟩
  have h₈ : Nat.Prime 58964693 := by
    refine prime_of_powMod 2 [2, 2, 14741173] ?_ (by decide +kernel)
    simp only [List.forall_mem_cons]
    exact ⟨by norm_num, by norm_num, by norm_num, List.forall_mem_nil _⟩
  have h₉ : Nat.Prime 3044861653679985063343 := by
    refine prime_of_powMod 5 [2, 3, 11, 30703, 82163, 132667, 137849] ?_ (by decide +kernel)
    simp only [List.forall_mem_cons]
    exact ⟨by norm_num, by norm_num, by norm_num, by norm_num, by norm_num, by norm_num,
      by norm_num, List.forall_mem_nil _⟩
  have h₁₀ : Nat.Prime 198211423230930754013084525763697 := by
    refine prime_of_powMod 5 [2, 2, 2, 2, 3, 23, 58964693,
      3044861653679985063343] ?_ (by decide +kernel)
    simp only [List.forall_mem_cons]
    exact ⟨by norm_num, by norm_num, by norm_num, by norm_num, by norm_num, by norm_num, h₈, h₉,
      List.forall_mem_nil _⟩
  refine prime_of_powMod 2 [2, 2, 3, 11, 198211423230930754013084525763697,
    276602624281642239937218680557139826668747] ?_ (by decide +kernel)
  simp only [List.forall_mem_cons]
  exact ⟨by norm_num, by norm_num, by norm_num, by norm_num, h₁₀, h₇, List.forall_mem_nil _⟩

instance : Fact Ristretto.groupOrder.Prime := ⟨Ristretto.prime_groupOrder⟩

end ThreeMove

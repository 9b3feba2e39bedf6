/-
# Numbers at a fixed width

What is read of the digits of a number is the number as far as they go
(`Bytes.leValue_le`, `Bytes.beValue_be`).  Where a number fits, it is written at just
the width asked for, and a byte string is what is written for its own value at its own
length.  So writing and reading at one width undo each other (`Bytes.padded_eq_iff`).

Byte strings written one after another can be told apart where each stands behind its
length (`Bytes.flatMap_be_length_inj`), and where all have one length
(`Bytes.map_eq_of_flatMap_eq`).
-/

import ThreeMove.Proofs.Arith.Power
import ThreeMove.Bytes
import Mathlib.Algebra.Order.Ring.Nat
import Mathlib.Data.Nat.SuccPred

namespace ThreeMove
namespace Bytes

/-- Reading what was written in `k` bytes gives the number modulo `256 ^ k`. -/
theorem leValue_le (k n : Nat) : leValue (le k n) = n % 256 ^ k := by
  induction k generalizing n with
  | zero => simp [le, leValue, Nat.mod_one]
  | succ k ih =>
    rw [le, leValue, ih, UInt8.toNat_ofNat', Nat.pow_succ 256, Nat.mul_comm (256 ^ k), Nat.mod_mul]

/-- Reading what was written in `k` big-endian bytes gives the number modulo `256 ^ k`. -/
theorem beValue_be (k n : Nat) : beValue (be k n) = n % 256 ^ k := by
  simp [beValue, be, leValue_le]

/-- What is read is below the power of 256 with the number of bytes. -/
theorem leValue_lt (b : Bytes) : leValue b < 256 ^ b.length := by
  induction b with
  | nil => simp [leValue]
  | cons x rest ih =>
    have := x.toNat_lt
    simp only [leValue, List.length_cons, Nat.pow_succ]
    omega

/-- What is read of big-endian bytes is below the power of 256 with their number. -/
theorem beValue_lt (b : Bytes) : beValue b < 256 ^ b.length := by
  have := leValue_lt b.reverse
  rwa [List.length_reverse] at this

/-- High digits that are zero count for nothing. -/
theorem leValue_append_zeros (b : Bytes) (k : Nat) : leValue (b ++ zeros k) = leValue b := by
  induction b with
  | nil =>
    induction k with
    | zero => rfl
    | succ k ih =>
      have hstep : leValue (zeros (k + 1)) = 0 + 256 * leValue (zeros k) := rfl
      rw [List.nil_append] at ih ⊢
      rw [hstep, ih]
      rfl
  | cons x rest ih => rw [List.cons_append, leValue, leValue, ih]

/-- A number fits its width. -/
theorem lt_pow_width (n : Nat) : n < 256 ^ width n := by
  unfold width
  split
  · subst n; decide
  · calc n < 2 ^ (n.log2 + 1) := Nat.lt_log2_self
      _ ≤ 2 ^ (8 * (n.log2 / 8 + 1)) := Nat.pow_le_pow_right (by decide) (by omega)
      _ = 256 ^ (n.log2 / 8 + 1) := by rw [Nat.pow_mul]

/-- A padded number is read back, however many bytes it takes. -/
theorem beValue_padded (k n : Nat) : beValue (padded k n) = n := by
  rw [padded, beValue_be, Nat.mod_eq_of_lt]
  exact Nat.lt_of_lt_of_le (lt_pow_width n)
    (Nat.pow_le_pow_right (by decide) (Nat.le_max_right _ _))

/-- Padding tells numbers apart. -/
theorem padded_injective (k : Nat) : Function.Injective (padded k) := by
  intro m n h
  have hvalue := congrArg beValue h
  rwa [beValue_padded, beValue_padded] at hvalue

/-- A number below `256 ^ k` has at most `k` digits. -/
theorem width_le {k n : Nat} (h : n < 256 ^ k) : width n ≤ k := by
  unfold width
  split
  · exact Nat.zero_le k
  · rename_i hn
    have hlog : n.log2 < 8 * k := by
      rw [Nat.log2_lt hn, Nat.pow_mul]
      exact h
    omega

/-- A number that fits is padded to exactly `k` bytes. -/
theorem padded_eq_be {k n : Nat} (h : n < 256 ^ k) : padded k n = be k n := by
  rw [padded, Nat.max_eq_left (width_le h)]

/-- A number that fits takes `k` bytes when padded. -/
theorem length_padded {k n : Nat} (h : n < 256 ^ k) : (padded k n).length = k := by
  rw [padded_eq_be h, length_be]

/-- The least width is one byte at least, and else that of a number which fits. -/
theorem length_minimal_le {k n : Nat} (hk : 0 < k) (h : n < 256 ^ k) :
    (minimal n).length ≤ k := by
  rw [minimal, padded, length_be]
  exact Nat.max_le.2 ⟨hk, width_le h⟩

/-- The bytes written for a number that fits are those of the width that spell it. -/
theorem padded_eq_iff {k n : Nat} {data : Bytes} (h : n < 256 ^ k) :
    padded k n = data ↔ data.length = k ∧ beValue data = n := by
  constructor
  · rintro rfl
    exact ⟨length_padded h, beValue_padded k n⟩
  · rintro ⟨rfl, rfl⟩
    rw [padded_eq_be h, be_beValue]

/-- A number fits into the bytes that its binary digits take. -/
theorem lt_pow_bitLength (n : Nat) : n < 256 ^ ((bitLength n + 7) / 8) :=
  calc n < 2 ^ bitLength n := lt_two_pow_bitLength n
    _ ≤ 2 ^ (8 * ((bitLength n + 7) / 8)) := Nat.pow_le_pow_right (by decide) (by omega)
    _ = 256 ^ ((bitLength n + 7) / 8) := by rw [Nat.pow_mul]

/-- A number below another fits into the bytes that the other's binary digits take. -/
theorem lt_pow_of_lt {m n : Nat} (h : m < n) : m < 256 ^ ((bitLength n + 7) / 8) :=
  h.trans (lt_pow_bitLength n)

/-! ### Byte strings behind their lengths -/

/-- Texts are told apart by their bytes. -/
theorem ofText_injective : Function.Injective ofText := by
  intro s t h
  have hdata : s.toByteArray.data = t.toByteArray.data := Array.toList_inj.1 h
  exact String.toByteArray_inj.1 (ByteArray.ext hdata)

/-- What stands behind its length ends where the length says. -/
theorem be_length_append_inj {k : Nat} {x y u v : Bytes} (hx : x.length < 256 ^ k)
    (hy : y.length < 256 ^ k) (h : be k x.length ++ x ++ u = be k y.length ++ y ++ v) :
    x = y ∧ u = v := by
  rw [List.append_assoc, List.append_assoc] at h
  obtain ⟨hcount, h⟩ := List.append_inj h (by rw [length_be, length_be])
  have hlength : x.length = y.length := by
    have hvalue := congrArg beValue hcount
    rwa [beValue_be, beValue_be, Nat.mod_eq_of_lt hx, Nat.mod_eq_of_lt hy] at hvalue
  exact List.append_inj h hlength

/-- Byte strings one after another, each behind its length, can be told apart. -/
theorem flatMap_be_length_inj {k : Nat} (hk : k ≠ 0) {xs ys : List Bytes}
    (hxs : ∀ x ∈ xs, x.length < 256 ^ k) (hys : ∀ y ∈ ys, y.length < 256 ^ k)
    (h : (xs.flatMap fun x => be k x.length ++ x) = ys.flatMap fun y => be k y.length ++ y) :
    xs = ys := by
  have hne : ∀ (x u : Bytes), be k x.length ++ x ++ u ≠ [] := by
    intro x u hnil
    have hlength := congrArg List.length hnil
    rw [List.length_append, List.length_append, length_be, List.length_nil] at hlength
    omega
  induction xs generalizing ys with
  | nil =>
    cases ys with
    | nil => rfl
    | cons y ys =>
      rw [List.flatMap_cons] at h
      exact absurd h.symm (hne y _)
  | cons x xs ih =>
    cases ys with
    | nil =>
      rw [List.flatMap_cons] at h
      exact absurd h (hne x _)
    | cons y ys =>
      rw [List.forall_mem_cons] at hxs hys
      rw [List.flatMap_cons, List.flatMap_cons] at h
      obtain ⟨rfl, hrest⟩ := be_length_append_inj hxs.1 hys.1 h
      rw [ih hxs.2 hys.2 hrest]

/-! ### Pieces of one length -/

/-- Pieces of one length take this length each. -/
theorem length_flatMap {α : Type} {k : Nat} {f : α → Bytes} {xs : List α}
    (h : ∀ x ∈ xs, (f x).length = k) : (xs.flatMap f).length = xs.length * k := by
  induction xs with
  | nil => exact (Nat.zero_mul k).symm
  | cons x xs ih =>
    rw [List.forall_mem_cons] at h
    rw [List.flatMap_cons, List.length_append, h.1, ih h.2, List.length_cons, Nat.succ_mul,
      Nat.add_comm]

/-- As many pieces of one length, one after another, can be told apart. -/
theorem map_eq_of_flatMap_eq {α : Type} {k : Nat} {f : α → Bytes} {xs ys : List α}
    (hxs : ∀ x ∈ xs, (f x).length = k) (hys : ∀ y ∈ ys, (f y).length = k)
    (hlength : xs.length = ys.length) (h : xs.flatMap f = ys.flatMap f) : xs.map f = ys.map f := by
  induction xs generalizing ys with
  | nil =>
    obtain rfl := List.length_eq_zero_iff.1 hlength.symm
    rfl
  | cons x xs ih =>
    obtain ⟨y, ys, rfl⟩ := List.exists_cons_of_length_eq_add_one hlength.symm
    rw [List.forall_mem_cons] at hxs hys
    rw [List.flatMap_cons, List.flatMap_cons] at h
    obtain ⟨hfirst, hrest⟩ := List.append_inj h (hxs.1.trans hys.1.symm)
    rw [List.map_cons, List.map_cons, hfirst, ih hxs.2 hys.2 (Nat.succ.inj hlength) hrest]

end Bytes
end ThreeMove

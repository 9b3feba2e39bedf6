/-
# Byte strings and the integers they spell

Every message of the library is a list of bytes.  Integers travel either at a
fixed width (`be`, most significant byte first) or at the least width that
holds them (`minimal`), and are read back by `beValue`.  The little-endian
forms `le` and `leValue` serve random draws and hash lanes; the big-endian ones
are their reversals, so each law is proved once.
-/

namespace ThreeMove

/-- A byte string. -/
abbrev Bytes := List UInt8

namespace Bytes

/-- The `k` lowest base-256 digits of `n`, least significant first. -/
def le : Nat → Nat → Bytes
  | 0, _ => []
  | k + 1, n => UInt8.ofNat n :: le k (n / 256)

/-- The number whose base-256 digits, least significant first, are the bytes.
Source: `from_bytes_le`. -/
def leValue : Bytes → Nat
  | [] => 0
  | b :: rest => b.toNat + 256 * leValue rest

/-- The `k` lowest base-256 digits of `n`, most significant first. -/
def be (k n : Nat) : Bytes := (le k n).reverse

/-- The number whose base-256 digits, most significant first, are the bytes.
Source: `from_bytes_be`. -/
def beValue (b : Bytes) : Nat := leValue b.reverse

/-- Little-endian digits take the width asked for. -/
@[simp] theorem length_le (k n : Nat) : (le k n).length = k := by
  induction k generalizing n with
  | zero => rfl
  | succ k ih => simp [le, ih]

/-- Big-endian digits take the width asked for. -/
@[simp] theorem length_be (k n : Nat) : (be k n).length = k := by simp [be]

/-- A byte string is the little-endian digits of its value, at its own length. -/
theorem le_leValue (b : Bytes) : le b.length (leValue b) = b := by
  induction b with
  | nil => rfl
  | cons x rest ih =>
    have hx := x.toNat_lt
    have hdiv : (x.toNat + 256 * leValue rest) / 256 = leValue rest := by omega
    have hlow : UInt8.ofNat (x.toNat + 256 * leValue rest) = x := by
      apply UInt8.toNat_inj.mp
      rw [UInt8.toNat_ofNat']
      omega
    simp [le, leValue, hdiv, hlow, ih]

/-- A byte string is the big-endian digits of its value, at its own length. -/
theorem be_beValue (b : Bytes) : be b.length (beValue b) = b := by
  have := le_leValue b.reverse
  rw [List.length_reverse] at this
  simp [be, beValue, this]

/-- The number of base-256 digits of `n`; zero has none. -/
def width (n : Nat) : Nat := if n = 0 then 0 else n.log2 / 8 + 1

/-- Big-endian at width `k`, or at the width of `n` where `k` digits do not
hold it: nothing is cut off. Source: `encode_fixed`. -/
def padded (k n : Nat) : Bytes := be (max k (width n)) n

/-- Big-endian without leading zeros; zero is one zero byte. Source: `to_bytes_be`. -/
def minimal (n : Nat) : Bytes := padded 1 n

/-- The UTF-8 bytes of a text. -/
def ofText (s : String) : Bytes := s.toUTF8.data.toList

/-- A run of `k` zero bytes. -/
def zeros (k : Nat) : Bytes := List.replicate k 0

/-- A run of zeros has the length asked for. -/
@[simp] theorem length_zeros (k : Nat) : (zeros k).length = k := List.length_replicate

end Bytes
end ThreeMove

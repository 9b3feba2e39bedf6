/-
# The permutation Keccak-f[1600]

The state is a 5 by 5 grid of 64-bit lanes, lane `(x, y)` at index `x + 5 y`.
Each of the 24 rounds mixes the columns (`theta`), rotates the lanes and moves
them around the grid (`rhoPi`), combines each row non-linearly (`chi`), and
breaks the symmetry of the grid with a round constant in lane `(0, 0)`.
-/

namespace ThreeMove
namespace Keccak

/-- The 25 lanes of the state. -/
abbrev Lanes := Vector UInt64 25

/-- The lane at column `x` and row `y`, both taken modulo 5. -/
def lane (a : Lanes) (x y : Nat) : UInt64 :=
  a.get ⟨x % 5 + 5 * (y % 5), by omega⟩

/-- The grid whose lane at column `x` and row `y` is `f x y`. -/
def ofGrid (f : Nat → Nat → UInt64) : Lanes :=
  Vector.ofFn fun i => f (i.val % 5) (i.val / 5)

/-- Rotation towards the most significant bit. -/
def rotate (w : UInt64) (k : UInt64) : UInt64 := (w <<< k) ||| (w >>> (64 - k))

/-- How far `rhoPi` rotates each lane. -/
def rotations : Lanes := #v[
  0, 1, 62, 28, 27,
  36, 44, 6, 55, 20,
  3, 10, 43, 25, 39,
  41, 45, 15, 21, 8,
  18, 2, 61, 56, 14]

/-- Adds to each lane the parities of the column before it and of the rotated
column after it. -/
def theta (a : Lanes) : Lanes :=
  let parity : Vector UInt64 5 := Vector.ofFn fun x =>
    lane a x 0 ^^^ lane a x 1 ^^^ lane a x 2 ^^^ lane a x 3 ^^^ lane a x 4
  let column (row : Vector UInt64 5) (x : Nat) : UInt64 := row.get ⟨x % 5, by omega⟩
  let mix : Vector UInt64 5 := Vector.ofFn fun x =>
    column parity (x.val + 4) ^^^ rotate (column parity (x.val + 1)) 1
  ofGrid fun x y => lane a x y ^^^ column mix x

/-- Rotates each lane by its own amount and moves lane `(x, y)` to
`(y, 2 x + 3 y)`. -/
def rhoPi (a : Lanes) : Lanes :=
  ofGrid fun x y => rotate (lane a (x + 3 * y) x) (lane rotations (x + 3 * y) x)

/-- Adds to each lane the product of the complement of the next lane of its row
with the one after that. -/
def chi (a : Lanes) : Lanes :=
  ofGrid fun x y => lane a x y ^^^ (~~~ lane a (x + 1) y &&& lane a (x + 2) y)

/-- The constants of the 24 rounds. -/
def roundConstants : List UInt64 := [
  0x0000000000000001, 0x0000000000008082, 0x800000000000808a, 0x8000000080008000,
  0x000000000000808b, 0x0000000080000001, 0x8000000080008081, 0x8000000000008009,
  0x000000000000008a, 0x0000000000000088, 0x0000000080008009, 0x000000008000000a,
  0x000000008000808b, 0x800000000000008b, 0x8000000000008089, 0x8000000000008003,
  0x8000000000008002, 0x8000000000000080, 0x000000000000800a, 0x800000008000000a,
  0x8000000080008081, 0x8000000000008080, 0x0000000080000001, 0x8000000080008008]

/-- One round with its constant. -/
def round (a : Lanes) (constant : UInt64) : Lanes :=
  let a := chi (rhoPi (theta a))
  a.set 0 (a[0] ^^^ constant)

/-- All 24 rounds. -/
def permute (a : Lanes) : Lanes := roundConstants.foldl round a

end Keccak
end ThreeMove

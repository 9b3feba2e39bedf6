/-
# The curve edwards25519

Points of `-x² + y² = 1 + d x² y²` over the field of `2^255 - 19` elements, in
extended coordinates `(X : Y : Z : T)` with `x = X / Z`, `y = Y / Z` and
`x y = T / Z`.  The addition law is complete: it has no exceptional cases, and
adding a point to itself doubles it.
-/

import ThreeMove.Arith.Power

namespace ThreeMove
namespace Edwards

/-- The prime `2^255 - 19`. -/
def fieldPrime : Nat :=
  57896044618658097711785492504343953926634992332820282019728792003956564819949

instance : @NeZero Nat Zero.ofOfNat0 fieldPrime := ⟨by decide⟩

/-- The field of the curve. -/
abbrev Coord := Fin fieldPrime

/-- The power `x ^ e` in the field. -/
def power (x : Coord) (e : Nat) : Coord := Fin.ofNat fieldPrime (powMod x.val e fieldPrime)

/-- The coefficient `d = -121665 / 121666` of the curve. -/
def coefficient : Coord :=
  37095705934669439343138083508754565189542113879843219016388785533085940283555

/-- A square root of `-1`. -/
def rootOfMinusOne : Coord :=
  19681161376707505956807079304988542015446066515923890162744021073123829784752

/-- An element is negative where its least representative is odd. -/
def isNegative (x : Coord) : Bool := x.val % 2 == 1

/-- Whichever of `x` and `-x` is not negative. -/
def magnitude (x : Coord) : Coord := if isNegative x then -x else x

/-- The non-negative square root of `1 / v` where `v` is a square, with `true`;
otherwise, or where `v = 0`, that of `i / v`, with `false`. -/
def inverseRoot (v : Coord) : Bool × Coord :=
  let v3 := v * v * v
  let v7 := v3 * v3 * v
  let r := v3 * power v7 ((fieldPrime - 5) / 8)
  let check := v * (r * r)
  if check = 1 then (true, magnitude r)
  else if check = -1 then (true, magnitude (rootOfMinusOne * r))
  else if check = -rootOfMinusOne then (false, magnitude (rootOfMinusOne * r))
  else (false, magnitude r)

/-- A point in extended coordinates. -/
structure Point where
  x : Coord
  y : Coord
  z : Coord
  t : Coord
  deriving DecidableEq

namespace Point

/-- The neutral point. -/
def neutral : Point := ⟨0, 1, 1, 0⟩

/-- The sum of two points. -/
def add (p q : Point) : Point :=
  let a := (p.y - p.x) * (q.y - q.x)
  let b := (p.y + p.x) * (q.y + q.x)
  let c := p.t * (coefficient + coefficient) * q.t
  let d := (p.z + p.z) * q.z
  let e := b - a
  let f := d - c
  let g := d + c
  let h := b + a
  ⟨e * f, g * h, f * g, e * h⟩

/-- The inverse of a point. -/
def neg (p : Point) : Point := ⟨-p.x, p.y, p.z, -p.t⟩

/-- `acc + k p` for a number `k` of at most `digits` binary digits. -/
def multiple.go : (digits k : Nat) → (p acc : Point) → Point
  | 0, _, _, acc => acc
  | digits + 1, k, p, acc =>
    go digits (k / 2) (p.add p) (if k % 2 = 1 then acc.add p else acc)

/-- The multiple `k p`. -/
def multiple (k : Nat) (p : Point) : Point := multiple.go (bitLength k) k p neutral

end Point
end Edwards
end ThreeMove

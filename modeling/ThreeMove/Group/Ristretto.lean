/-
# The group ristretto255

Ristretto turns the points of edwards25519 into a group of prime order by
declaring some points equal, and gives each class one field element as its code
(RFC 9496).  An element is held as that code, so equality is equality of codes;
`expand` gives a point of its class and `contract` the code of a point's class.
-/

import ThreeMove.Group.Basic
import ThreeMove.Group.Edwards

namespace ThreeMove

open Edwards

/-- A point of the class that a code stands for; codes are non-negative, and not
every field element is one. -/
def Ristretto.expand (s : Coord) : Option Point :=
  let ss := s * s
  let u1 := 1 - ss
  let u2 := 1 + ss
  let v := -(coefficient * (u1 * u1)) - u2 * u2
  let (isSquare, root) := inverseRoot (v * (u2 * u2))
  let denX := root * u2
  let denY := root * denX * v
  let x := magnitude ((s + s) * denX)
  let y := u1 * denY
  let t := x * y
  if isNegative s || !isSquare || isNegative t || y == 0 then none else some ⟨x, y, 1, t⟩

/-- An inverse square root of `-1 - d`. -/
def Ristretto.inverseRootOfTwist : Coord :=
  54469307008909316920995813868745141605393597292927456921205312896311721017578

/-- The code of a point's class. -/
def Ristretto.contract (p : Point) : Coord :=
  let u1 := (p.z + p.y) * (p.z - p.y)
  let u2 := p.x * p.y
  let root := (inverseRoot (u1 * (u2 * u2))).2
  let den1 := root * u1
  let den2 := root * u2
  let zInv := den1 * den2 * p.t
  let rotated := isNegative (p.t * zInv)
  let x := if rotated then p.y * rootOfMinusOne else p.x
  let y := if rotated then p.x * rootOfMinusOne else p.y
  let denInv := if rotated then den1 * inverseRootOfTwist else den2
  let y := if isNegative (x * zInv) then -y else y
  magnitude (denInv * (p.z - y))

/-- An element of ristretto255. Source: `RistrettoPoint`. -/
structure Ristretto where
  code : Coord
  valid : (Ristretto.expand code).isSome
  deriving DecidableEq

namespace Ristretto

/-- The element with a given code, if it is one. -/
def ofCode? (s : Coord) : Option Ristretto :=
  if h : (expand s).isSome then some ⟨s, h⟩ else none

/-- The neutral element. -/
def neutral : Ristretto := ⟨0, by decide +kernel⟩

/-- A point of the class of an element. -/
def point (a : Ristretto) : Point := (expand a.code).get a.valid

/-- The class of a point. -/
def ofPoint (p : Point) : Ristretto := (ofCode? (contract p)).getD neutral

/-- The number of elements, `2^252 + 27742317777372353535851937790883648493`. -/
def groupOrder : Nat :=
  7237005577332262213973186563042994240857116359379907606001950938285454250989

/-- The code as 32 little-endian bytes. -/
def encode (a : Ristretto) : Bytes := Bytes.le 32 a.code.val

/-- Reads 32 little-endian bytes that spell a code, reduced modulo the field
prime. -/
def decode (data : Bytes) : Option Ristretto :=
  if h : data.length = 32 ∧ Bytes.leValue data < fieldPrime then
    ofCode? ⟨Bytes.leValue data, h.2⟩
  else none

instance : PrimeGroup Ristretto where
  zero := neutral
  add a b := ofPoint (a.point.add b.point)
  sub a b := ofPoint (a.point.add b.point.neg)
  smul k a := ofPoint (a.point.multiple k)
  order := groupOrder
  two_le_order := by decide
  elementLength := 32
  encode := encode
  decode := decode
  decEq := inferInstance

/-- The code of the standard generator. -/
def generatorCode : Coord :=
  53453403443306840533278073560698739391446669128918427283046925944918568268514

/-- The standard generator. -/
def generator : Ristretto := ⟨generatorCode, by decide +kernel⟩

end Ristretto
end ThreeMove

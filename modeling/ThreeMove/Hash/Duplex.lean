/-
# A duplex hash

A duplex object is opened with an initialisation value and then takes input and
gives output in any order.  Output depends on everything taken in and given out
before: what `squeeze` returns is absorbed again, so that a second `squeeze`
differs from the first.
-/

import ThreeMove.Hash.Sponge

namespace ThreeMove

/-- An open duplex object. Source: `ShakeDuplexSponge`. -/
structure Duplex where
  state : Sponge shakeRate

namespace Duplex

/-- The first input of a duplex object: the length of `iv` in four big-endian
bytes, `iv`, and one to `shakeRate` zero bytes that complete a block. -/
def openingBlock (iv : Bytes) : Bytes :=
  let head := Bytes.be 4 iv.length ++ iv
  head ++ Bytes.zeros (shakeRate - head.length % shakeRate)

/-- Opens a duplex object. Source: `ShakeDuplexSponge::new`. -/
def new (iv : Bytes) : Duplex := ⟨(Sponge.empty).absorb (openingBlock iv)⟩

/-- Takes input. Source: `absorb`. -/
def absorb (d : Duplex) (input : Bytes) : Duplex := ⟨d.state.absorb input⟩

/-- Gives `count` bytes of output and takes them in again. Source: `squeeze`. -/
def squeeze (d : Duplex) (count : Nat) : Bytes × Duplex :=
  let output := d.state.output 0x1f count
  (output, d.absorb output)

/-- It does not matter how input is cut. -/
theorem absorb_append (d : Duplex) (a b : Bytes) :
    d.absorb (a ++ b) = (d.absorb a).absorb b := by
  simp [absorb, Sponge.absorb_append]

/-- What a duplex object gives out is SHAKE128 of what it has taken in. -/
theorem squeeze_absorb_new (iv input : Bytes) (count : Nat) :
    (((new iv).absorb input).squeeze count).1 = shake128 (openingBlock iv ++ input) count := by
  simp [squeeze, absorb, new, shake128, Sponge.absorb_append]

end Duplex
end ThreeMove

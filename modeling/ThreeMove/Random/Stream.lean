/-
# Streams of random bytes

A stream is an endless sequence of bytes and a position in it; whatever is drawn
is read from the position onwards, without gaps.  Uniform numbers below a bound
are drawn by rejection: propose a number of as many bits as the bound has, and
try again while it is too large.  A stream gives up after `patience` refused
proposals, a limit that `ofTape` sets far beyond what any tape can cause.
-/

import ThreeMove.Bytes
import ThreeMove.Arith.Power

namespace ThreeMove

/-- An endless byte sequence, read up to `position`. -/
structure ByteStream where
  byte : Nat → UInt8
  position : Nat
  patience : Nat

namespace ByteStream

/-- Reads `count` bytes. -/
def take (s : ByteStream) (count : Nat) : Bytes × ByteStream :=
  ((List.range count).map fun i => s.byte (s.position + i),
    { s with position := s.position + count })

/-- As many bytes are read as asked for. -/
@[simp] theorem length_take_fst (s : ByteStream) (count : Nat) :
    (s.take count).1.length = count := by simp [take]

/-- The number of 32-bit words that hold a number below `bound`. -/
def wordsFor (bound : Nat) : Nat := (bitLength bound + 31) / 32

/-- Cuts a number of `words` words down to `bits` bits by shifting its last word
to the right; the lower words stay as they are. -/
def trimTop (words bits value : Nat) : Nat :=
  let unit := 1 <<< (32 * (words - 1))
  let shift := (32 - bits % 32) % 32
  value % unit + ((value / unit) >>> shift) * unit

/-- Proposes a number of as many bits as `bound`: whole little-endian words, the
last of them trimmed. -/
def propose (s : ByteStream) (bound : Nat) : Nat × ByteStream :=
  let words := wordsFor bound
  let (data, s) := s.take (4 * words)
  (trimTop words (bitLength bound) (Bytes.leValue data), s)

/-- The first of `tries` proposals that is below `bound`. -/
def belowWithin (bound : Nat) : Nat → ByteStream → Option Nat × ByteStream
  | 0, s => (none, s)
  | tries + 1, s =>
    let (value, s) := s.propose bound
    if value < bound then (some value, s) else belowWithin bound tries s

/-- A uniform number below `bound`. Source: `gen_biguint_below`. -/
def below (s : ByteStream) (bound : Nat) : Option Nat × ByteStream :=
  belowWithin bound s.patience s

/-- A number modulo `modulus`, reduced from 64 little-endian bytes. Source: `Scalar::random`. -/
def wide (s : ByteStream) (modulus : Nat) : Nat × ByteStream :=
  let (data, s) := s.take 64
  (Bytes.leValue data % modulus, s)

/-- What is drawn below a bound is below it. -/
theorem belowWithin_lt {bound tries value : Nat} {s t : ByteStream}
    (h : belowWithin bound tries s = (some value, t)) : value < bound := by
  induction tries generalizing s with
  | zero => simp [belowWithin] at h
  | succ tries ih =>
    simp only [belowWithin] at h
    split at h
    · simp only [Prod.mk.injEq, Option.some.injEq] at h
      omega
    · exact ih h

/-- The increment of the SplitMix64 counter. -/
def splitMixStep : UInt64 := 0x9E3779B97F4A7C15

/-- SplitMix64 scrambles its counter into an output word. -/
def splitMix (counter : UInt64) : UInt64 :=
  let z := (counter ^^^ (counter >>> 30)) * 0xBF58476D1CE4E5B9
  let z := (z ^^^ (z >>> 27)) * 0x94D049BB133111EB
  z ^^^ (z >>> 31)

/-- Byte `i` of the SplitMix64 sequence of `seed`, words little-endian. -/
def splitMixByte (seed : UInt64) (i : Nat) : UInt8 :=
  (splitMix (seed + (i / 8 + 1).toUInt64 * splitMixStep) >>> (8 * (i % 8)).toUInt64).toUInt8

/-- The bytes of `tape`, then the SplitMix64 sequence of `seed`. -/
def ofTape (tape : Bytes) (seed : UInt64) : ByteStream :=
  let cells := tape.toArray
  { byte := fun i =>
      if h : i < cells.size then cells[i] else splitMixByte seed (i - cells.size)
    position := 0
    patience := cells.size + 4096 }

end ByteStream
end ThreeMove

/-
# Sponges over Keccak-f[1600], SHA3-256 and SHAKE128

A sponge of rate `r` takes bytes one at a time into the first `r` bytes of the
state and permutes whenever they are full.  To answer, a copy is closed with
the padding of FIPS 202 (a suffix that tells the functions apart, then a last
bit at the end of the block) and `r` bytes are read per permutation.

Because bytes enter one at a time, absorbing two strings is absorbing their
concatenation (`absorb_append`), however the input is cut.
-/

import ThreeMove.Bytes
import ThreeMove.Hash.Keccak

namespace ThreeMove

/-- A sponge that has taken `filled` bytes of its current block. -/
structure Sponge (rate : Nat) where
  lanes : Keccak.Lanes
  filled : Nat

namespace Sponge

variable {rate : Nat}

/-- Adds a byte to the state at byte position `i`; there are 200 positions. -/
def xorByte (lanes : Keccak.Lanes) (i : Nat) (b : UInt8) : Keccak.Lanes :=
  if h : i / 8 < 25 then
    lanes.set (i / 8) (lanes[i / 8] ^^^ (b.toUInt64 <<< (8 * (i % 8)).toUInt64))
  else lanes

/-- The byte of the state at byte position `i`. -/
def byteAt (lanes : Keccak.Lanes) (i : Nat) : UInt8 :=
  if h : i / 8 < 25 then (lanes[i / 8] >>> (8 * (i % 8)).toUInt64).toUInt8 else 0

/-- The sponge that has taken nothing. -/
def empty : Sponge rate := ⟨Vector.replicate 25 0, 0⟩

/-- Takes one byte, and permutes where it completes a block. -/
def absorbByte (s : Sponge rate) (b : UInt8) : Sponge rate :=
  let lanes := xorByte s.lanes s.filled b
  if s.filled + 1 = rate then ⟨Keccak.permute lanes, 0⟩ else ⟨lanes, s.filled + 1⟩

/-- Takes a string, byte by byte. -/
def absorb (s : Sponge rate) (input : Bytes) : Sponge rate := input.foldl absorbByte s

/-- It does not matter how input is cut. -/
theorem absorb_append (s : Sponge rate) (a b : Bytes) :
    s.absorb (a ++ b) = (s.absorb a).absorb b := List.foldl_append

/-- An empty string changes nothing. -/
@[simp] theorem absorb_nil (s : Sponge rate) : s.absorb [] = s := rfl

/-- The state after padding: `suffix` behind the input, the closing bit in the
last byte of the block. -/
def close (s : Sponge rate) (suffix : UInt8) : Keccak.Lanes :=
  Keccak.permute (xorByte (xorByte s.lanes s.filled suffix) (rate - 1) 0x80)

/-- The first `blocks` blocks of output of a closed state. -/
def readBlocks (rate : Nat) : Nat → Keccak.Lanes → Bytes
  | 0, _ => []
  | blocks + 1, lanes =>
    (List.range rate).map (byteAt lanes) ++ readBlocks rate blocks (Keccak.permute lanes)

/-- The first `count` bytes of output, the sponge itself staying open. -/
def output (s : Sponge rate) (suffix : UInt8) (count : Nat) : Bytes :=
  (readBlocks rate ((count + rate - 1) / rate) (s.close suffix)).take count

/-- Blocks of output are full. -/
theorem length_readBlocks (blocks : Nat) (lanes : Keccak.Lanes) :
    (readBlocks rate blocks lanes).length = blocks * rate := by
  induction blocks generalizing lanes with
  | zero => simp [readBlocks]
  | succ k ih => simp [readBlocks, ih, Nat.succ_mul, Nat.add_comm]

/-- Output is as long as asked for. -/
theorem length_output (s : Sponge rate) (suffix : UInt8) (count : Nat) (h : 0 < rate) :
    (s.output suffix count).length = count := by
  rw [output, List.length_take, length_readBlocks]
  have hdiv := Nat.div_add_mod (count + rate - 1) rate
  have hmod := Nat.mod_lt (count + rate - 1) h
  rw [Nat.mul_comm rate] at hdiv
  exact Nat.min_eq_left (by omega)

end Sponge

/-- The bytes that SHAKE128 and the duplex construction take per block. Source: `RATE`. -/
abbrev shakeRate : Nat := 168

/-- SHA3-256: 32 bytes at rate 136. Source: `Sha3_256`. -/
def sha3_256 (message : Bytes) : Bytes :=
  ((Sponge.empty : Sponge 136).absorb message).output 0x06 32

/-- SHAKE128: any number of bytes at rate 168. Source: `Shake128`. -/
def shake128 (message : Bytes) (count : Nat) : Bytes :=
  ((Sponge.empty : Sponge shakeRate).absorb message).output 0x1f count

/-- A hash takes 32 bytes. -/
theorem length_sha3_256 (message : Bytes) : (sha3_256 message).length = 32 :=
  Sponge.length_output _ _ _ (by decide)

end ThreeMove

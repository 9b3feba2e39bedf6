/-
# The sponge block by block

A sponge as FIPS 202 states it hashes a message it has in full (`Keccak.hash`).  The
message is padded to whole blocks, each block is added to the state and the state
permuted, and after the last block `rate` bytes are read off per permutation: a stream of
which any number of first bytes is the answer.

The sponge of `ThreeMove.Hash.Sponge` knows no message.  It takes bytes one at a time,
permutes as they fill a block, and adds the padding to a copy of a block half filled.
`Sponge.output_absorb_empty` is that it answers the same.
-/

import ThreeMove.Group.Codec
import ThreeMove.Hash.Duplex
import Mathlib.Data.LawfulXor.Basic
import Mathlib.Data.UInt

namespace ThreeMove

namespace Keccak

/-- What completes a block that has room for `room` bytes: the suffix, the closing bit in
the last byte, and zero bytes between.  In a room of one byte the two meet. -/
def padding (suffix : UInt8) (room : Nat) : Bytes :=
  if room = 1 then [suffix ^^^ 0x80] else suffix :: Bytes.zeros (room - 2) ++ [0x80]

/-- The message in whole blocks; where it fills its last block a block is added. -/
def pad (rate : Nat) (suffix : UInt8) (message : Bytes) : Bytes :=
  message ++ padding suffix (rate - message.length % rate)

/-- Adds a string to the state, from byte position `i` on. -/
def xorBytes (lanes : Lanes) (i : Nat) : Bytes → Lanes
  | [] => lanes
  | b :: rest => xorBytes (Sponge.xorByte lanes i b) (i + 1) rest

/-- The state after one more block. -/
def absorbBlock (lanes : Lanes) (block : Bytes) : Lanes := permute (xorBytes lanes 0 block)

/-- The state after all blocks of a padded message, from the state of zeros. -/
def absorbBlocks (rate : Nat) (padded : Bytes) : Lanes :=
  (chunks rate (padded.length / rate) padded).foldl absorbBlock (Vector.replicate 25 0)

/-- Byte `j` of what is read off a state at `rate` bytes per permutation. -/
def streamByte (rate : Nat) (lanes : Lanes) (j : Nat) : UInt8 :=
  Sponge.byteAt (permute^[j / rate] lanes) (j % rate)

/-- The first `count` bytes of the hash of a message. -/
def hash (rate : Nat) (suffix : UInt8) (message : Bytes) (count : Nat) : Bytes :=
  (List.range count).map (streamByte rate (absorbBlocks rate (pad rate suffix message)))

/-- The padding fills the room there is. -/
theorem length_padding {suffix : UInt8} {room : Nat} (h : 0 < room) :
    (padding suffix room).length = room := by
  unfold padding
  split
  · rename_i hroom
    rw [hroom, List.length_singleton]
  · simp only [List.length_cons, List.length_append, Bytes.length_zeros, List.length_nil]
    omega

/-! ### Adding strings to the state -/

/-- A zero byte changes nothing. -/
theorem xorByte_zero (lanes : Lanes) (i : Nat) : Sponge.xorByte lanes i 0 = lanes := by
  unfold Sponge.xorByte
  split
  · simp
  · rfl

/-- Two bytes at one place count as their exclusive or. -/
theorem xorByte_xorByte (lanes : Lanes) (i : Nat) (a b : UInt8) :
    Sponge.xorByte (Sponge.xorByte lanes i a) i b = Sponge.xorByte lanes i (a ^^^ b) := by
  unfold Sponge.xorByte
  split
  · simp [UInt64.xor_assoc, UInt64.shiftLeft_xor]
  · rfl

/-- Bytes one behind the other are added in order. -/
theorem xorBytes_append (lanes : Lanes) (i : Nat) (a b : Bytes) :
    xorBytes lanes i (a ++ b) = xorBytes (xorBytes lanes i a) (i + a.length) b := by
  induction a generalizing lanes i with
  | nil => rfl
  | cons x rest ih =>
    rw [List.cons_append, xorBytes, ih, xorBytes, List.length_cons, Nat.add_right_comm,
      Nat.add_assoc]

/-- Zero bytes change nothing, whichever bytes of the state they meet. -/
theorem xorBytes_zeros (lanes : Lanes) (i k : Nat) : xorBytes lanes i (Bytes.zeros k) = lanes := by
  induction k generalizing i with
  | zero => rfl
  | succ k ih => rw [Bytes.zeros, List.replicate_succ, xorBytes, xorByte_zero]; exact ih (i + 1)

/-- Adding the padding is adding its first and its last byte. -/
theorem xorBytes_padding (lanes : Lanes) (suffix : UInt8) {rate filled : Nat}
    (h : filled < rate) :
    xorBytes lanes filled (padding suffix (rate - filled)) =
      Sponge.xorByte (Sponge.xorByte lanes filled suffix) (rate - 1) 0x80 := by
  unfold padding
  split
  case isTrue hroom =>
    have hlast : rate - 1 = filled := by omega
    rw [hlast, xorByte_xorByte]
    rfl
  case isFalse hroom =>
    have hlast : filled + 1 + (Bytes.zeros (rate - filled - 2)).length = rate - 1 := by
      rw [Bytes.length_zeros]
      omega
    rw [List.cons_append, xorBytes, xorBytes_append, xorBytes_zeros, hlast]
    rfl

end Keccak

namespace Sponge

variable {rate : Nat}

/-! ### Taking bytes one at a time -/

/-- Bytes that leave room in the block are added to the state, and that is all. -/
theorem absorb_of_lt (s : Sponge rate) (input : Bytes) (h : s.filled + input.length < rate) :
    s.absorb input =
      ⟨Keccak.xorBytes s.lanes s.filled input, s.filled + input.length⟩ := by
  induction input generalizing s with
  | nil => rfl
  | cons b rest ih =>
    rw [List.length_cons] at h
    have hroom : s.filled + 1 ≠ rate := by omega
    have hstep : s.absorbByte b = ⟨xorByte s.lanes s.filled b, s.filled + 1⟩ := if_neg hroom
    rw [absorb, List.foldl_cons, ← absorb, hstep, ih _ (by simp only; omega)]
    simp only [Keccak.xorBytes, List.length_cons, Nat.add_assoc, Nat.add_comm 1]

/-- The bytes that fill the block are added to the state, and the state is permuted. -/
theorem absorb_of_eq (s : Sponge rate) (input : Bytes) (hroom : s.filled < rate)
    (h : s.filled + input.length = rate) :
    s.absorb input = ⟨Keccak.permute (Keccak.xorBytes s.lanes s.filled input), 0⟩ := by
  obtain ⟨rest, b, rfl⟩ : ∃ rest b, input = rest ++ [b] := by
    refine ⟨input.dropLast, input.getLast ?_, (List.dropLast_append_getLast _).symm⟩
    rintro rfl
    exact absurd h (Nat.ne_of_lt hroom)
  rw [List.length_append, List.length_singleton] at h
  have hlast : s.filled + rest.length + 1 = rate := by omega
  rw [absorb_append, absorb_of_lt s rest (by omega), Keccak.xorBytes_append]
  exact if_pos hlast

/-- A string of whole blocks, taken at the start of a block. -/
theorem absorb_blocks (lanes : Keccak.Lanes) (blocks : Nat) (input : Bytes) (hrate : 0 < rate)
    (h : input.length = blocks * rate) :
    (⟨lanes, 0⟩ : Sponge rate).absorb input =
      ⟨(chunks rate blocks input).foldl Keccak.absorbBlock lanes, 0⟩ := by
  induction blocks generalizing lanes input with
  | zero =>
    obtain rfl := List.length_eq_zero_iff.1 (h.trans (Nat.zero_mul rate))
    rfl
  | succ blocks ih =>
    have hlength : input.length = blocks * rate + rate := by rw [h, Nat.succ_mul]
    have hfirst : 0 + (input.take rate).length = rate := by
      rw [List.length_take, Nat.zero_add]
      omega
    have hrest : (input.drop rate).length = blocks * rate := by
      rw [List.length_drop]
      omega
    have hblock : (⟨lanes, 0⟩ : Sponge rate).absorb (input.take rate) =
        ⟨Keccak.absorbBlock lanes (input.take rate), 0⟩ := absorb_of_eq _ _ hrate hfirst
    calc (⟨lanes, 0⟩ : Sponge rate).absorb input
        = ((⟨lanes, 0⟩ : Sponge rate).absorb (input.take rate)).absorb (input.drop rate) := by
          rw [← absorb_append, List.take_append_drop]
      _ = ⟨(chunks rate blocks (input.drop rate)).foldl Keccak.absorbBlock
            (Keccak.absorbBlock lanes (input.take rate)), 0⟩ := by rw [hblock, ih _ _ hrest]
      _ = ⟨(chunks rate (blocks + 1) input).foldl Keccak.absorbBlock lanes, 0⟩ := by
          rw [chunks, List.foldl_cons]

/-- How far the block is filled follows from how much was taken. -/
theorem filled_absorb (s : Sponge rate) (input : Bytes) (hroom : s.filled < rate) :
    (s.absorb input).filled = (s.filled + input.length) % rate := by
  induction input generalizing s with
  | nil => exact (Nat.mod_eq_of_lt hroom).symm
  | cons b rest ih =>
    rw [absorb, List.foldl_cons, ← absorb, List.length_cons]
    by_cases hfull : s.filled + 1 = rate
    case pos =>
      have hstep : (s.absorbByte b).filled = 0 := by rw [absorbByte, if_pos hfull]
      rw [ih _ (by omega), hstep, ← Nat.add_mod_left rate]
      congr 1
      omega
    case neg =>
      have hstep : (s.absorbByte b).filled = s.filled + 1 := by rw [absorbByte, if_neg hfull]
      rw [ih _ (by omega), hstep]
      congr 1
      omega

/-! ### Answering -/

/-- Closing a sponge is taking the padding that its block has room for. -/
theorem close_eq (s : Sponge rate) (suffix : UInt8) (hroom : s.filled < rate) :
    s.close suffix = (s.absorb (Keccak.padding suffix (rate - s.filled))).lanes := by
  have hfull : s.filled + (Keccak.padding suffix (rate - s.filled)).length = rate := by
    rw [Keccak.length_padding (Nat.sub_pos_of_lt hroom)]
    omega
  rw [absorb_of_eq s _ hroom hfull, Keccak.xorBytes_padding _ _ hroom, close]

/-- The state of a closed sponge is the one after all blocks of the padded message. -/
theorem close_absorb_empty (suffix : UInt8) (message : Bytes) (hrate : 0 < rate) :
    ((empty : Sponge rate).absorb message).close suffix =
      Keccak.absorbBlocks rate (Keccak.pad rate suffix message) := by
  have hfilled : ((empty : Sponge rate).absorb message).filled = message.length % rate := by
    rw [filled_absorb _ _ hrate, empty, Nat.zero_add]
  have hroom : message.length % rate < rate := Nat.mod_lt _ hrate
  have hlength : (Keccak.pad rate suffix message).length = (message.length / rate + 1) * rate := by
    rw [Keccak.pad, List.length_append, Keccak.length_padding (Nat.sub_pos_of_lt hroom),
      Nat.succ_mul]
    have := Nat.div_add_mod' message.length rate
    omega
  rw [close_eq _ _ (by rwa [hfilled]), hfilled, ← absorb_append, ← Keccak.pad, empty,
    absorb_blocks _ _ _ hrate hlength, Keccak.absorbBlocks, hlength, Nat.mul_div_cancel _ hrate]

/-- The blocks that are read are as many first bytes of the stream. -/
theorem readBlocks_eq_map (blocks : Nat) (lanes : Keccak.Lanes) (hrate : 0 < rate) :
    readBlocks rate blocks lanes =
      (List.range (blocks * rate)).map (Keccak.streamByte rate lanes) := by
  induction blocks generalizing lanes with
  | zero => rw [Nat.zero_mul]; rfl
  | succ blocks ih =>
    have hfirst : ∀ j ∈ List.range rate, byteAt lanes j = Keccak.streamByte rate lanes j := by
      intro j hj
      rw [List.mem_range] at hj
      rw [Keccak.streamByte, Nat.div_eq_of_lt hj, Nat.mod_eq_of_lt hj]
      rfl
    have hnext : ∀ j, Keccak.streamByte rate (Keccak.permute lanes) j =
        Keccak.streamByte rate lanes (rate + j) := by
      intro j
      rw [Keccak.streamByte, Keccak.streamByte, Nat.add_div_left _ hrate, Nat.add_mod_left,
        Function.iterate_succ_apply]
    rw [readBlocks, ih, Nat.succ_mul, Nat.add_comm, List.range_add, List.map_append,
      List.map_map, List.map_congr_left hfirst]
    congr 1
    exact List.map_congr_left fun j _ => hnext j

/-- **Taking bytes one at a time computes the hash of the message.** -/
theorem output_absorb_empty (suffix : UInt8) (message : Bytes) (count : Nat) (hrate : 0 < rate) :
    ((empty : Sponge rate).absorb message).output suffix count =
      Keccak.hash rate suffix message count := by
  have hcount : count ≤ (count + rate - 1) / rate * rate := by
    have hdiv := Nat.div_add_mod' (count + rate - 1) rate
    have hmod := Nat.mod_lt (count + rate - 1) hrate
    omega
  rw [output, close_absorb_empty _ _ hrate, readBlocks_eq_map _ _ hrate, ← List.map_take,
    List.take_range, Nat.min_eq_left hcount, Keccak.hash]

end Sponge

/-- SHAKE128 of a message, block by block. -/
theorem shake128_eq_hash (message : Bytes) (count : Nat) :
    shake128 message count = Keccak.hash shakeRate 0x1f message count :=
  Sponge.output_absorb_empty 0x1f message count (by decide)

end ThreeMove

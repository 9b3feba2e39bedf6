/-
# Challenges, written and read

A challenge space reads just the encodings of its reduced challenges
(`ChallengeSpace.decode_eq_ok`); a number that is not reduced has an encoding that the
space does not read.  Mapping a byte string into the space reduces the number that it
spells, in either family (`ChallengeSpace.ofBytes_eq`), so on what can be read it agrees
with reading (`ChallengeSpace.encodings_fit`).
-/

import ThreeMove.Challenge
import ThreeMove.Proofs.Bytes
import ThreeMove.Proofs.Codec
import Mathlib.Data.Nat.ModEq

namespace ThreeMove
namespace ChallengeSpace

variable (space : ChallengeSpace)

/-- A challenge fits its encoded length. -/
theorem lt_pow_encodedLength {c : Nat} (h : c < space.modulus) : c < 256 ^ space.encodedLength :=
  Bytes.lt_pow_of_lt h

/-- The encoding tells numbers apart. -/
theorem encode_injective : Function.Injective space.encode := Bytes.padded_injective _

/-- A challenge is read just from its encoding, and only if it is reduced. -/
theorem decode_eq_ok {data : Bytes} {c : Nat} :
    space.decode data = .ok c ↔ c < space.modulus ∧ space.encode c = data := by
  unfold decode
  constructor
  · intro h
    split at h
    · rename_i hdata
      obtain rfl := Except.ok.inj h
      exact ⟨hdata.2, (Bytes.padded_eq_iff (space.lt_pow_encodedLength hdata.2)).2 ⟨hdata.1, rfl⟩⟩
    · exact nomatch h
  · rintro ⟨hc, hdata⟩
    obtain ⟨hlength, rfl⟩ := (Bytes.padded_eq_iff (space.lt_pow_encodedLength hc)).1 hdata
    exact if_pos ⟨hlength, hc⟩

/-- Bytes that are accepted as a challenge are its encoding. -/
theorem canonical : Codec.Canonical (fun c => .ok (space.encode c)) space.decode :=
  fun _ _ h => congrArg Except.ok (space.decode_eq_ok.1 h).2

/-- A challenge in range is read from its encoding. -/
theorem restores {c : Nat} (h : c < space.modulus) :
    Codec.Restores (fun c => .ok (space.encode c)) space.decode c :=
  ⟨space.encode c, rfl, fun _ => space.decode_eq_ok.2 ⟨h, rfl⟩⟩

/-! ### Bytes mapped into the space -/

/-- A challenge takes at least one byte. -/
theorem encodedLength_pos : 0 < space.encodedLength := by
  have hfits := Bytes.lt_pow_bitLength space.modulus
  have htwo := space.two_le
  refine Nat.pos_of_ne_zero fun hzero => ?_
  rw [← encodedLength, hzero] at hfits
  omega

/-- A reduced number is read from its own digits. -/
theorem ofDigits?_reverse_minimal {r : Nat} (h : r < space.modulus) :
    space.ofDigits? (Bytes.minimal r).reverse = some r := by
  have hlength : (Bytes.minimal r).reverse.length ≤ space.encodedLength := by
    rw [List.length_reverse]
    exact Bytes.length_minimal_le space.encodedLength_pos (space.lt_pow_encodedLength h)
  have hvalue : Bytes.leValue (Bytes.minimal r).reverse = r := Bytes.beValue_padded 1 r
  unfold ofDigits?
  dsimp only
  rw [Bytes.leValue_append_zeros, hvalue, if_pos ⟨hlength, h⟩]

/-- In either family a byte string is mapped to the reduced value. -/
theorem ofBytes_eq (data : Bytes) : space.ofBytes data = Bytes.beValue data % space.modulus := by
  unfold ofBytes
  dsimp only
  rw [space.ofDigits?_reverse_minimal (Nat.mod_lt _ space.modulus_pos)]
  cases space.family with
  | residues => rfl
  | field => rfl

/-- What is read of a byte string is the number that it spells. -/
theorem decode_eq_ok_iff {data : Bytes} {c : Nat} :
    space.decode data = .ok c ↔
      (data.length = space.encodedLength ∧ Bytes.beValue data < space.modulus) ∧
        Bytes.beValue data = c := by
  unfold decode
  split
  · rename_i h
    rw [Except.ok.injEq, and_iff_right h]
  · rename_i h
    exact ⟨nofun, fun hdata => absurd hdata.1 h⟩

/-- All other byte strings are refused alike. -/
theorem decode_eq_error {data : Bytes}
    (h : ¬(data.length = space.encodedLength ∧ Bytes.beValue data < space.modulus)) :
    space.decode data = .error (.invalidEncoding space.encodingName) :=
  if_neg h

/-- **Encoding, reading and mapping of challenges fit together.**  Just the byte strings of the
width of the space that spell a reduced number are read; such a string is the encoding of the
challenge that is read, and is mapped to it.  So a reduced challenge is got back from its
encoding, and the encoding of any other number is refused.  Every byte string is mapped to the
challenge congruent to the number that it spells, whose digits can always be read; strings of
one length that spell reduced numbers are mapped to different challenges.  What data are hashed
to is reduced. -/
theorem encodings_fit :
    (∀ data, (∃ c, space.decode data = .ok c) ↔
      data.length = space.encodedLength ∧ Bytes.beValue data < space.modulus) ∧
    (∀ data c, space.decode data = .ok c → space.encode c = data ∧ space.ofBytes data = c) ∧
    (∀ c < space.modulus, space.decode (space.encode c) = .ok c) ∧
    (∀ c, space.modulus ≤ c →
      space.decode (space.encode c) = .error (.invalidEncoding space.encodingName)) ∧
    (∀ data, space.ofBytes data < space.modulus ∧
      space.ofBytes data ≡ Bytes.beValue data [MOD space.modulus] ∧
      space.ofDigits? (Bytes.minimal (Bytes.beValue data % space.modulus)).reverse =
        some (space.ofBytes data)) ∧
    (∀ data other, data.length = other.length → Bytes.beValue data < space.modulus →
      Bytes.beValue other < space.modulus → space.ofBytes data = space.ofBytes other →
      data = other) ∧
    ∀ data, space.hash data < space.modulus := by
  refine ⟨?reads, ?agrees, ?restores, ?refuses, ?maps, ?injective, space.hash_lt⟩
  case reads =>
    intro data
    constructor
    · rintro ⟨c, hc⟩
      exact (space.decode_eq_ok_iff.1 hc).1
    · exact fun h => ⟨_, space.decode_eq_ok_iff.2 ⟨h, rfl⟩⟩
  case agrees =>
    intro data c hc
    obtain ⟨⟨-, hreduced⟩, hvalue⟩ := space.decode_eq_ok_iff.1 hc
    refine ⟨(space.decode_eq_ok.1 hc).2, ?_⟩
    rw [ofBytes_eq, Nat.mod_eq_of_lt hreduced, hvalue]
  case restores =>
    exact fun c hc => space.decode_eq_ok.2 ⟨hc, rfl⟩
  case refuses =>
    intro c hc
    refine space.decode_eq_error fun h => ?_
    have hvalue : Bytes.beValue (space.encode c) = c := Bytes.beValue_padded _ c
    rw [hvalue] at h
    exact absurd h.2 (Nat.not_lt_of_le hc)
  case maps =>
    intro data
    refine ⟨space.ofBytes_lt data, ?_, ?_⟩
    · rw [ofBytes_eq]
      exact Nat.mod_modEq _ _
    · rw [space.ofDigits?_reverse_minimal (Nat.mod_lt _ space.modulus_pos), ofBytes_eq]
  case injective =>
    intro data other hlength hdata hother h
    rw [ofBytes_eq, ofBytes_eq, Nat.mod_eq_of_lt hdata, Nat.mod_eq_of_lt hother] at h
    rw [← Bytes.be_beValue data, ← Bytes.be_beValue other, hlength, h]

/-- The hypotheses are satisfiable: in the field of 257 elements, whose challenges take two
bytes, 256 is read from its encoding and 257 is not. -/
theorem encodings_fit_257 :
    let space : ChallengeSpace := ⟨.field, 257, by decide⟩
    space.decode [1, 0] = .ok 256 ∧ space.encode 256 = [1, 0] ∧ space.ofBytes [1, 0] = 256 ∧
      space.decode (space.encode 256) = .ok 256 ∧
      space.decode (space.encode 257) = .error (.invalidEncoding "scalar challenge") ∧
      space.ofBytes [1, 0] ≠ space.ofBytes [0, 1] := by
  intro space
  obtain ⟨-, hagrees, hrestores, hrefuses, -, hinjective, -⟩ := space.encodings_fit
  have hread : space.decode [1, 0] = .ok 256 :=
    space.decode_eq_ok_iff.2 ⟨⟨by decide +kernel, by decide +kernel⟩, by decide +kernel⟩
  have hdiffer : space.ofBytes [1, 0] ≠ space.ofBytes [0, 1] := fun h =>
    absurd (hinjective [1, 0] [0, 1] rfl (by decide) (by decide) h) (by decide)
  obtain ⟨hencoded, hmapped⟩ := hagrees [1, 0] 256 hread
  exact ⟨hread, hencoded, hmapped, hrestores 256 (by decide), hrefuses 257 (by decide), hdiffer⟩

end ChallengeSpace
end ThreeMove

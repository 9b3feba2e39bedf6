/-
# Lists of elements and of scalars, written and read

Pieces of one length need no separators: a list that is read is the one whose
pieces, one after another, are the byte string (`decodeChunks_eq_some_iff`).  For
scalars this is arithmetic (`decodeScalars_eq_some_iff`).  For elements it is
asked of the group, in `PrimeGroup.ExactEncoding`: encodings have one length, and
a byte string decodes to an element just if it is the element's encoding.
Ristretto255 is such a group (`Ristretto.exactEncoding`), and so are the residues
modulo a prime.
-/

import ThreeMove.Group.Codec
import ThreeMove.Proofs.Challenge.Encoding
import ThreeMove.Proofs.Group.Cyclic

namespace ThreeMove

open Edwards

section

variable {α : Type} {size count : Nat} {decoder : Bytes → Option α} {data : Bytes} {xs : List α}

/-- One more piece is read in front of the others. -/
theorem decodeChunks_succ : decodeChunks size decoder data (count + 1) = some xs ↔
    ∃ piece tail, piece.length = size ∧ data = piece ++ tail ∧ ∃ x rest,
      decoder piece = some x ∧ decodeChunks size decoder tail count = some rest ∧
        xs = x :: rest := by
  constructor
  · intro h
    unfold decodeChunks at h
    split at h
    · rename_i hlength
      have hsize : size ≤ data.length := by
        rw [hlength]
        exact Nat.le_mul_of_pos_right size (Nat.succ_pos count)
      rw [chunks, List.mapM_cons] at h
      simp only [Option.bind_eq_bind, Option.bind_eq_some_iff] at h
      obtain ⟨x, hx, rest, hrest, hxs⟩ := h
      refine ⟨data.take size, data.drop size, List.length_take_of_le hsize,
        (List.take_append_drop size data).symm, x, rest, hx, ?_, (Option.some.inj hxs).symm⟩
      have htail : (data.drop size).length = size * count := by
        rw [List.length_drop, hlength, Nat.mul_succ, Nat.add_sub_cancel]
      rw [decodeChunks, if_pos htail, hrest]
    · exact nomatch h
  · rintro ⟨piece, tail, rfl, rfl, x, rest, hx, hrest, rfl⟩
    unfold decodeChunks at hrest
    split at hrest
    · rename_i htail
      have hlength : (piece ++ tail).length = piece.length * (count + 1) := by
        rw [List.length_append, htail, Nat.mul_succ, Nat.add_comm]
      rw [decodeChunks, if_pos hlength, chunks, List.take_left, List.drop_left, List.mapM_cons, hx,
        hrest]
      rfl
    · exact nomatch hrest

/-- A list is read just from its pieces written one after another. -/
theorem decodeChunks_eq_some_iff (encode : α → Bytes) (P : α → Prop)
    (hlength : ∀ x, P x → (encode x).length = size)
    (hdecoder : ∀ piece x, piece.length = size →
      (decoder piece = some x ↔ P x ∧ encode x = piece)) :
    decodeChunks size decoder data count = some xs ↔
      xs.length = count ∧ (∀ x ∈ xs, P x) ∧ xs.flatMap encode = data := by
  induction count generalizing data xs with
  | zero =>
    unfold decodeChunks
    constructor
    · intro h
      split at h
      · rename_i hdata
        obtain rfl : [] = xs := Option.some.inj h
        exact ⟨rfl, fun _ hmem => absurd hmem List.not_mem_nil,
          (List.length_eq_zero_iff.1 hdata).symm⟩
      · exact nomatch h
    · rintro ⟨hnone, -, rfl⟩
      obtain rfl := List.length_eq_zero_iff.1 hnone
      rfl
  | succ count ih =>
    rw [decodeChunks_succ]
    constructor
    · rintro ⟨piece, tail, hpiece, rfl, x, rest, hx, hrest, rfl⟩
      obtain ⟨hP, rfl⟩ := (hdecoder piece x hpiece).1 hx
      obtain ⟨hcount, hrestP, rfl⟩ := ih.1 hrest
      exact ⟨congrArg Nat.succ hcount, List.forall_mem_cons.2 ⟨hP, hrestP⟩, List.flatMap_cons⟩
    · rintro ⟨hcount, hP, rfl⟩
      cases xs with
      | nil => exact nomatch hcount
      | cons x rest =>
        rw [List.forall_mem_cons] at hP
        have hpiece : (encode x).length = size := hlength x hP.1
        refine ⟨encode x, rest.flatMap encode, hpiece, List.flatMap_cons, x, rest, ?_, ?_, rfl⟩
        · exact (hdecoder _ x hpiece).2 ⟨hP.1, rfl⟩
        · exact ih.2 ⟨Nat.succ.inj hcount, hP.2, rfl⟩

end

namespace PrimeGroup

variable (G : Type) [PrimeGroup G]

/-- Encodings have one length, and decoding is the exact inverse of encoding. -/
structure ExactEncoding : Prop where
  length_encode : ∀ a : G, (encode a).length = elementLength G
  decode_eq_some_iff : ∀ {data : Bytes} {a : G}, decode data = some a ↔ encode a = data

variable {G}

/-- A list of elements takes the length of an element each. -/
theorem length_encodeElements (hlength : ∀ a : G, (encode a).length = elementLength G)
    (elements : List G) : (encodeElements elements).length = elements.length * elementLength G :=
  Bytes.length_flatMap fun a _ => hlength a

/-- An exact encoding tells elements apart. -/
theorem ExactEncoding.encode_injective (exact : ExactEncoding G) :
    Function.Injective (encode (G := G)) := by
  intro a b h
  have ha := exact.decode_eq_some_iff.2 h
  have hb := exact.decode_eq_some_iff.2 (Eq.refl (encode b))
  exact Option.some.inj (ha.symm.trans hb)

/-- Encodings have one length, and differ where the elements do. -/
structure InjectiveEncoding (G : Type) [PrimeGroup G] : Prop where
  length_encode : ∀ a : G, (encode a).length = elementLength G
  injective : Function.Injective (encode (G := G))

/-- An exact encoding is injective, also on lists. -/
theorem ExactEncoding.injectiveEncoding (exact : ExactEncoding G) : InjectiveEncoding G :=
  ⟨exact.length_encode, exact.encode_injective⟩

/-- Elements are read just from their encodings. -/
theorem decodeElements_eq_some_iff (exact : ExactEncoding G) {data : Bytes} {count : Nat}
    {elements : List G} :
    decodeElements data count = some elements ↔
      elements.length = count ∧ encodeElements elements = data := by
  refine (decodeChunks_eq_some_iff encode (fun _ => True)
    (fun a _ => exact.length_encode a) fun piece a _ => ?_).trans ?_
  · rw [exact.decode_eq_some_iff, true_and]
  · exact and_congr_right fun _ => and_iff_right fun _ _ => trivial

variable (G)

/-- Scalars are read just from their encodings, and only if they are reduced. -/
theorem decodeScalars_eq_some_iff {data : Bytes} {count : Nat} {rs : List Nat} :
    decodeScalars G data count = some rs ↔
      rs.length = count ∧ (∀ r ∈ rs, r < order G) ∧ encodeScalars G rs = data := by
  have hfits : ∀ {r}, r < order G → r < 256 ^ scalarLength G := (scalars G).lt_pow_encodedLength
  refine decodeChunks_eq_some_iff _ _ (fun r hr => Bytes.length_padded (hfits hr))
    fun piece r hpiece => ?_
  unfold decodeScalar
  constructor
  · intro h
    split at h
    · rename_i hlt
      obtain rfl := Option.some.inj h
      exact ⟨hlt, (Bytes.padded_eq_iff (hfits hlt)).2 ⟨hpiece, rfl⟩⟩
    · exact nomatch h
  · rintro ⟨hr, heq⟩
    obtain ⟨-, rfl⟩ := (Bytes.padded_eq_iff (hfits hr)).1 heq
    exact if_pos hr

end PrimeGroup

/-- A code fits 32 bytes, and 32 bytes that spell a code are its encoding. -/
theorem Ristretto.exactEncoding : PrimeGroup.ExactEncoding Ristretto where
  length_encode a := Bytes.length_le 32 a.code.val
  decode_eq_some_iff := by
    intro data a
    change decode data = some a ↔ encode a = data
    have hcode : a.code.val < 256 ^ 32 :=
      a.code.isLt.trans (by decide)
    unfold decode encode ofCode?
    constructor
    · intro h
      split at h
      · rename_i hdata
        split at h
        · obtain rfl := Option.some.inj h
          have hbytes := Bytes.le_leValue data
          rwa [hdata.1] at hbytes
        · exact nomatch h
      · exact nomatch h
    · rintro rfl
      have hvalue : Bytes.leValue (Bytes.le 32 a.code.val) = a.code.val := by
        rw [Bytes.leValue_le, Nat.mod_eq_of_lt hcode]
      have hlt : Bytes.leValue (Bytes.le 32 a.code.val) < fieldPrime := by
        rw [hvalue]
        exact a.code.isLt
      have hsame : (⟨_, hlt⟩ : Coord) = a.code := Fin.ext hvalue
      rw [dif_pos ⟨Bytes.length_le 32 _, hlt⟩, hsame, dif_pos a.valid]

/-- A residue fits the bytes that the modulus takes. -/
theorem Cyclic.exactEncoding {n : Nat} [hn : Fact n.Prime] :
    PrimeGroup.ExactEncoding (Cyclic n) where
  length_encode a := Bytes.length_le (byteLength n) a.value.val
  decode_eq_some_iff := by
    intro data a
    change read n data = some a ↔ Bytes.le (byteLength n) a.value.val = data
    have hvalue : a.value.val < n := a.value.val_lt
    unfold read
    constructor
    · intro h
      split at h
      · rename_i hdata
        obtain rfl := Option.some.inj h
        rw [ZMod.val_natCast, Nat.mod_eq_of_lt hdata.2, ← hdata.1, Bytes.le_leValue]
      · exact nomatch h
    · rintro rfl
      have hfits : a.value.val < 256 ^ byteLength n := Bytes.lt_pow_of_lt hvalue
      rw [Bytes.leValue_le, Nat.mod_eq_of_lt hfits, if_pos ⟨Bytes.length_le _ _, hvalue⟩,
        ZMod.natCast_zmod_val]

end ThreeMove

/-
# Encodings of one length

A promise of an encoder alone: messages in range are written at one length, which is
known beforehand, and written differently where they differ (`Codec.Fixed`).  It passes
from the parts of a message to a run of frames however long these are: what a frame says
of its length is not needed to find its end, as the frames of two messages have the same
lengths (`frameAll_inj_of_lengths`).
-/

import ThreeMove.Proofs.Codec
import ThreeMove.Proofs.Protocol.Encoding

namespace ThreeMove

variable {M N κ : Type}

/-- The number of bytes of frames whose contents have the given lengths. -/
def framedLength (lengths : List Nat) : Nat := (lengths.map (4 + ·)).sum

/-- Frames are as long as their parts and their lengths. -/
theorem length_frameAll (parts : List Bytes) :
    (frameAll parts).length = framedLength (parts.map List.length) := by
  induction parts with
  | nil => rfl
  | cons part parts ih =>
    rw [frameAll_cons, List.length_append, length_frame, ih]
    simp only [framedLength, List.map_cons, List.sum_cons]

/-- Frames of the same lengths in the same order are told apart, however long they are. -/
theorem frameAll_inj_of_lengths {parts others : List Bytes}
    (hlengths : parts.map List.length = others.map List.length)
    (h : frameAll parts = frameAll others) : parts = others := by
  induction parts generalizing others with
  | nil => exact (List.map_eq_nil_iff.1 hlengths.symm).symm
  | cons part parts ih =>
    cases others with
    | nil => exact nomatch hlengths
    | cons other others =>
      obtain ⟨hpart, hparts⟩ := List.cons.inj hlengths
      rw [frameAll_cons, frameAll_cons] at h
      have hframe : (frame part).length = (frame other).length := by
        rw [length_frame, length_frame, hpart]
      obtain ⟨hfirst, hrest⟩ := List.append_inj h hframe
      rw [frame_injective hfirst, ih hparts hrest]

namespace Codec

/-- The encodings of messages with `P` have `n` bytes and tell the messages apart. -/
structure Fixed (encode : M → Except Abort Bytes) (n : Nat) (P : M → Prop) : Prop where
  length_eq : ∀ {m data}, P m → encode m = .ok data → data.length = n
  eq_of_encode : ∀ {m m' data}, P m → P m' → encode m = .ok data → encode m' = .ok data → m = m'

/-- The same of messages that are encoded part by part. -/
structure FixedParts (encode : M → Except Abort (List Bytes)) (lengths : List Nat)
    (P : M → Prop) : Prop where
  lengths_eq : ∀ {m parts}, P m → encode m = .ok parts → parts.map List.length = lengths
  eq_of_encode : ∀ {m m' parts}, P m → P m' → encode m = .ok parts → encode m' = .ok parts →
    m = m'

variable {n : Nat} {lengths : List Nat} {P : M → Prop} {Q : N → Prop}

/-- The messages of another kind that are written as those of a fixed length. -/
theorem Fixed.map {encode : M → Except Abort Bytes} (h : Fixed encode n P) (f : M → N)
    {encode' : N → Except Abort Bytes} (hencode : ∀ m, encode' (f m) = encode m)
    (hQ : ∀ {message}, Q message → ∃ m, P m ∧ message = f m) : Fixed encode' n Q where
  length_eq := by
    intro message data hmessage hdata
    obtain ⟨m, hm, rfl⟩ := hQ hmessage
    exact h.length_eq hm ((hencode m).symm.trans hdata)
  eq_of_encode := by
    intro message message' data hmessage hmessage' hdata hdata'
    obtain ⟨m, hm, rfl⟩ := hQ hmessage
    obtain ⟨m', hm', rfl⟩ := hQ hmessage'
    rw [hencode] at hdata hdata'
    rw [h.eq_of_encode hm hm' hdata hdata']

/-- Parts of fixed lengths make frames of a fixed length. -/
theorem FixedParts.frames {encode : M → Except Abort (List Bytes)}
    (h : FixedParts encode lengths P) :
    Fixed (fun m => frameAll <$> encode m) (framedLength lengths) P where
  length_eq := by
    intro m data hm hdata
    obtain ⟨parts, hparts, rfl⟩ := map_eq_ok.1 hdata
    rw [length_frameAll, h.lengths_eq hm hparts]
  eq_of_encode := by
    intro m m' data hm hm' hdata hdata'
    obtain ⟨parts, hparts, rfl⟩ := map_eq_ok.1 hdata
    obtain ⟨parts', hparts', hsame⟩ := map_eq_ok.1 hdata'
    have hlengths := (h.lengths_eq hm' hparts').trans (h.lengths_eq hm hparts).symm
    obtain rfl := frameAll_inj_of_lengths hlengths hsame
    exact h.eq_of_encode hm hm' hparts hparts'

/-- One part of fixed length is a row of such parts. -/
theorem FixedParts.single {encode : M → Except Abort Bytes} (h : Fixed encode n P) :
    FixedParts (fun m => (fun data => [data]) <$> encode m) [n] P where
  lengths_eq := by
    intro m parts hm hparts
    obtain ⟨data, hdata, rfl⟩ := map_eq_ok.1 hparts
    rw [List.map_singleton, h.length_eq hm hdata]
  eq_of_encode := by
    intro m m' parts hm hm' hparts hparts'
    obtain ⟨data, hdata, rfl⟩ := map_eq_ok.1 hparts
    obtain ⟨data', hdata', hsame⟩ := map_eq_ok.1 hparts'
    obtain rfl := List.singleton_inj.1 hsame
    exact h.eq_of_encode hm hm' hdata hdata'

/-- Parts in front of others. -/
theorem FixedParts.append {encode : M → Except Abort (List Bytes)}
    {encode' : N → Except Abort (List Bytes)} {lengths' : List Nat}
    (h : FixedParts encode lengths P) (h' : FixedParts encode' lengths' Q) :
    FixedParts (fun m : M × N => do
        let front ← encode m.1
        let back ← encode' m.2
        return front ++ back) (lengths ++ lengths') (fun m => P m.1 ∧ Q m.2) where
  lengths_eq := by
    rintro m parts ⟨hm, hm'⟩ hparts
    obtain ⟨front, hfront, hparts⟩ := bind_eq_ok.1 hparts
    obtain ⟨back, hback, heq⟩ := bind_eq_ok.1 hparts
    obtain rfl := Except.ok.inj heq
    rw [List.map_append, h.lengths_eq hm hfront, h'.lengths_eq hm' hback]
  eq_of_encode := by
    rintro ⟨m, ms⟩ ⟨other, others⟩ parts ⟨hm, hms⟩ ⟨hother, hothers⟩ hparts hparts'
    obtain ⟨front, hfront, hparts⟩ := bind_eq_ok.1 hparts
    obtain ⟨back, hback, heq⟩ := bind_eq_ok.1 hparts
    obtain rfl := Except.ok.inj heq
    obtain ⟨front', hfront', hparts'⟩ := bind_eq_ok.1 hparts'
    obtain ⟨back', hback', heq'⟩ := bind_eq_ok.1 hparts'
    have hcount : front'.length = front.length := by
      have hlengths := (h.lengths_eq hother hfront').trans (h.lengths_eq hm hfront).symm
      simpa using congrArg List.length hlengths
    obtain ⟨rfl, rfl⟩ := List.append_inj (Except.ok.inj heq') hcount
    obtain rfl : m = other := h.eq_of_encode hm hother hfront hfront'
    obtain rfl : ms = others := h'.eq_of_encode hms hothers hback hback'
    rfl

/-- A part for each item. -/
theorem FixedParts.each {encode : κ → M → Except Abort Bytes} {width : κ → Nat}
    {R : κ → M → Prop} {items : List κ}
    (h : ∀ item ∈ items, Fixed (encode item) (width item) (R item)) :
    FixedParts (encodeEach encode items) (items.map width) (List.Forall₂ R items) := by
  induction items with
  | nil =>
    constructor
    · rintro _ parts ⟨⟩ hparts
      obtain rfl := Except.ok.inj hparts
      rfl
    · rintro _ _ parts ⟨⟩ ⟨⟩ - -
      rfl
  | cons item items ih =>
    rw [List.forall_mem_cons] at h
    have hsplit := (FixedParts.single h.1).append (ih h.2)
    have hencode : ∀ m ms, encodeEach encode (item :: items) (m :: ms) = (do
        let front ← (fun data => [data]) <$> encode item m
        let back ← encodeEach encode items ms
        return front ++ back) := fun m ms => by
      rw [encodeEach, encodeEach, List.zip_cons_cons, List.mapM_cons, bind_map_left]
      rfl
    constructor
    · intro list parts hlist hparts
      cases hlist with
      | @cons _ m _ ms hm hms =>
        exact hsplit.lengths_eq (m := (m, ms)) ⟨hm, hms⟩ ((hencode m ms).symm.trans hparts)
    · intro list list' parts hlist hlist' hparts hparts'
      cases hlist with
      | @cons _ m _ ms hm hms =>
        cases hlist' with
        | @cons _ m' _ ms' hm' hms' =>
          have hsame : (m, ms) = (m', ms') := hsplit.eq_of_encode ⟨hm, hms⟩ ⟨hm', hms'⟩
            ((hencode m ms).symm.trans hparts) ((hencode m' ms').symm.trans hparts')
          obtain ⟨rfl, rfl⟩ := Prod.mk.inj hsame
          rfl

/-- Numbers that fit a width are written at it. -/
theorem fixed_padded {width : Nat} {P : Nat → Prop} (hfits : ∀ v, P v → v < 256 ^ width) :
    Fixed (fun v => .ok (Bytes.padded width v)) width P where
  length_eq := by
    rintro v _ hv ⟨⟩
    exact Bytes.length_padded (hfits v hv)
  eq_of_encode := by
    intro v v' data hv hv' hdata hdata'
    exact Bytes.padded_injective width (Except.ok.inj (hdata.trans hdata'.symm))

end Codec

namespace PrimeGroup

variable {G : Type} [PrimeGroup G]

/-- As many elements are written at one length. -/
theorem InjectiveEncoding.fixed (encoding : InjectiveEncoding G) (count : Nat) :
    Codec.Fixed (fun elements : List G => .ok (encodeElements elements))
      (count * elementLength G) (·.length = count) where
  length_eq := by
    rintro elements _ rfl ⟨⟩
    exact length_encodeElements encoding.length_encode elements
  eq_of_encode := by
    intro elements others data hcount hcount' hdata hdata'
    have hsame : encodeElements elements = encodeElements others :=
      Except.ok.inj (hdata.trans hdata'.symm)
    refine encoding.injective.list_map (Bytes.map_eq_of_flatMap_eq (fun a _ =>
      encoding.length_encode a) (fun a _ => encoding.length_encode a) ?_ hsame)
    exact hcount.trans hcount'.symm

/-- A scalar is written at the width of scalars. -/
theorem fixed_scalar : Codec.Fixed (fun r => .ok (encodeScalars G [r])) (scalarLength G)
    (· < order G) := by
  have hfits : ∀ r, r < order G → r < 256 ^ scalarLength G := fun _ =>
    (scalars G).lt_pow_encodedLength
  have hsingle : ∀ r, encodeScalars G [r] = Bytes.padded (scalarLength G) r := fun r =>
    List.flatMap_singleton ..
  simp only [hsingle]
  exact Codec.fixed_padded hfits

end PrimeGroup

namespace ChallengeSpace

variable (space : ChallengeSpace)

/-- Reduced challenges have encodings of one length. -/
theorem fixed_challenge : Codec.Fixed (fun c => .ok (space.encode c)) space.encodedLength
    (· < space.modulus) :=
  Codec.fixed_padded fun _ => space.lt_pow_encodedLength

/-- The shares of a gate, one for each child but the last. -/
theorem fixed_shares (count : Nat) :
    Codec.FixedParts (fun shares : List Nat => .ok (shares.map space.encode))
      (List.replicate (count - 1) space.encodedLength)
      fun shares => shares.length + 1 = count ∧ ∀ share ∈ shares, share < space.modulus where
  lengths_eq := by
    rintro shares _ ⟨rfl, hrange⟩ ⟨⟩
    rw [Nat.add_sub_cancel, List.map_map]
    refine List.eq_replicate_iff.2 ⟨List.length_map _, List.forall_mem_map.2 fun share hshare => ?_⟩
    exact space.fixed_challenge.length_eq (hrange share hshare) rfl
  eq_of_encode := by
    rintro shares shares' parts ⟨-, -⟩ ⟨-, -⟩ hparts hparts'
    exact space.encode_injective.list_map (Except.ok.inj (hparts.trans hparts'.symm))

end ChallengeSpace

/-- Commitments and openings are written as they are. -/
theorem HashCommitment.fixed_bytes :
    Codec.Fixed (fun data => .ok data) length (·.length = length) :=
  ⟨fun hlength hdata => Except.ok.inj hdata ▸ hlength,
    fun _ _ hdata hdata' => Except.ok.inj (hdata.trans hdata'.symm)⟩

end ThreeMove

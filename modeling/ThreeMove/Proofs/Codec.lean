/-
# One encoding for each message

Two promises of an encoder and a decoder.  `Codec.Canonical`: whatever decodes is
what the encoder writes for the message it decodes to, so no two byte strings
decode to one message.  `Codec.Restores m`: the message `m` has an encoding, and
this decodes to `m` unless it is too long for a frame.  Both pass from the parts
of a message to a run of frames, by induction on the parts.
-/

import ThreeMove.Proofs.Frame

namespace ThreeMove
namespace Codec

variable {M N κ : Type}

section

variable {encode : M → Except Abort Bytes} {decode : Bytes → Except Error M}

/-- Whatever decodes is the encoding of what it decodes to. -/
def Canonical (encode : M → Except Abort Bytes) (decode : Bytes → Except Error M) : Prop :=
  ∀ data m, decode data = .ok m → encode m = .ok data

/-- The message has an encoding that decodes to it, unless it takes 4 GiB. -/
def Restores (encode : M → Except Abort Bytes) (decode : Bytes → Except Error M) (m : M) : Prop :=
  ∃ data, encode m = .ok data ∧ (data.length < 2 ^ 32 → decode data = .ok m)

/-- No two byte strings decode to one message. -/
theorem Canonical.eq_of_decode (h : Canonical encode decode) {data data' : Bytes} {m : M}
    (hdata : decode data = .ok m) (hdata' : decode data' = .ok m) : data = data' :=
  Except.ok.inj ((h data m hdata).symm.trans (h data' m hdata'))

/-- Wrapping the values leaves an encoding canonical. -/
theorem Canonical.map (f : M → N) {encode' : N → Except Abort Bytes}
    (hencode : ∀ m, encode' (f m) = encode m) (h : Canonical encode decode) :
    Canonical encode' fun data => f <$> decode data := by
  intro data n hdata
  obtain ⟨m, hm, rfl⟩ := map_eq_ok.1 hdata
  rw [hencode, h data m hm]

/-- Wrapping a value leaves it restored. -/
theorem Restores.map (f : M → N) {encode' : N → Except Abort Bytes}
    (hencode : ∀ m, encode' (f m) = encode m) {m : M} (h : Restores encode decode m) :
    Restores encode' (fun data => f <$> decode data) (f m) := by
  obtain ⟨data, hdata, hrestored⟩ := h
  refine ⟨data, by rw [hencode, hdata], fun hsize => ?_⟩
  exact map_eq_ok.2 ⟨m, hrestored hsize, rfl⟩

/-- A message read from a frame is what the frame was written for. -/
theorem Canonical.of_read (h : Canonical encode decode) {what : String}
    {cursor rest : FrameCursor} {m : M} (hread : cursor.decode what decode = .ok (m, rest)) :
    ∃ data, encode m = .ok data ∧ cursor.rest = frame data ++ rest.rest := by
  obtain ⟨data, -, hrest, hdata⟩ := FrameCursor.decode_eq_ok.1 hread
  exact ⟨data, h data m hdata, hrest⟩

/-- A message written into a frame is read from it. -/
theorem Restores.exists_read {m : M} (h : Restores encode decode m) :
    ∃ data, encode m = .ok data ∧ ∀ what rest, data.length < 2 ^ 32 →
      FrameCursor.decode ⟨frame data ++ rest⟩ what decode = .ok (m, ⟨rest⟩) := by
  obtain ⟨data, hdata, hrestored⟩ := h
  refine ⟨data, hdata, fun what rest hsize => ?_⟩
  exact FrameCursor.decode_eq_ok.2 ⟨data, hsize, rfl, hrestored hsize⟩

end

section

variable {encode : κ → M → Except Abort Bytes} {decode : κ → Bytes → Except Error M}
  {items : List κ} {what : String}

/-- The encodings of messages, each by the encoder of the item in the same place. -/
def encodeEach (encode : κ → M → Except Abort Bytes) (items : List κ) (ms : List M) :
    Except Abort (List Bytes) :=
  (items.zip ms).mapM fun (item, m) => encode item m

/-- A row is encoded item by item. -/
theorem encodeEach_cons {item : κ} {m : M} {ms : List M} {data : Bytes} {parts : List Bytes}
    (hdata : encode item m = .ok data) (hparts : encodeEach encode items ms = .ok parts) :
    encodeEach encode (item :: items) (m :: ms) = .ok (data :: parts) := by
  rw [encodeEach, mapM_eq_ok] at hparts ⊢
  exact .cons hdata hparts

/-- Messages read from frames are those the frames were written for. -/
theorem of_decodeEach (h : ∀ item ∈ items, Canonical (encode item) (decode item))
    {cursor rest : FrameCursor} {ms : List M}
    (hread : FrameCursor.decodeEach what (items.map decode) cursor = .ok (ms, rest)) :
    ms.length = items.length ∧ ∃ parts, encodeEach encode items ms = .ok parts ∧
      cursor.rest = frameAll parts ++ rest.rest := by
  induction items generalizing cursor ms with
  | nil =>
    obtain ⟨rfl, rfl⟩ := Prod.mk.inj (Except.ok.inj hread)
    exact ⟨rfl, [], rfl, rfl⟩
  | cons item items ih =>
    rw [List.forall_mem_cons] at h
    obtain ⟨⟨m, next⟩, hm, hread⟩ := bind_eq_ok.1 hread
    obtain ⟨⟨others, last⟩, hothers, heq⟩ := bind_eq_ok.1 hread
    obtain ⟨rfl, rfl⟩ := Prod.mk.inj (Except.ok.inj heq)
    obtain ⟨data, hdata, hcursor⟩ := h.1.of_read hm
    obtain ⟨hlength, parts, hparts, hnext⟩ := ih h.2 hothers
    refine ⟨congrArg Nat.succ hlength, data :: parts, encodeEach_cons hdata hparts, ?_⟩
    rw [hcursor, hnext, frameAll_cons, List.append_assoc]

/-- Messages written into frames are read from them. -/
theorem exists_encodeEach {ms : List M}
    (h : List.Forall₂ (fun item m => Restores (encode item) (decode item) m) items ms) :
    ∃ parts, encodeEach encode items ms = .ok parts ∧ ∀ what rest,
      (∀ part ∈ parts, part.length < 2 ^ 32) →
        FrameCursor.decodeEach what (items.map decode) ⟨frameAll parts ++ rest⟩ =
          .ok (ms, ⟨rest⟩) := by
  induction h with
  | nil => exact ⟨[], rfl, fun _ _ _ => rfl⟩
  | cons hm _ ih =>
    obtain ⟨data, hdata, hread⟩ := hm.exists_read
    obtain ⟨parts, hparts, hreads⟩ := ih
    refine ⟨data :: parts, encodeEach_cons hdata hparts, fun what rest hsize => ?_⟩
    rw [List.forall_mem_cons] at hsize
    rw [frameAll_cons, List.append_assoc]
    refine bind_eq_ok.2 ⟨_, hread what (frameAll parts ++ rest) hsize.1, ?_⟩
    exact bind_eq_ok.2 ⟨_, hreads what rest hsize.2, rfl⟩

/-- A row of frames is canonical if the encoding of each is. -/
theorem canonical_frames (what : String)
    (h : ∀ item ∈ items, Canonical (encode item) (decode item)) :
    Canonical (fun ms => frameAll <$> encodeEach encode items ms)
      (decodeFrames what (items.map decode)) := by
  intro data ms hread
  obtain ⟨-, parts, hparts, hdata⟩ := of_decodeEach h (decodeFrames_eq_ok.1 hread)
  refine map_eq_ok.2 ⟨parts, hparts, ?_⟩
  rw [List.append_nil] at hdata
  exact hdata.symm

/-- A row of frames is restored if each value in it is. -/
theorem restores_frames (what : String) {ms : List M}
    (h : List.Forall₂ (fun item m => Restores (encode item) (decode item) m) items ms) :
    Restores (fun ms => frameAll <$> encodeEach encode items ms)
      (decodeFrames what (items.map decode)) ms := by
  obtain ⟨parts, hparts, hreads⟩ := exists_encodeEach h
  refine ⟨frameAll parts, map_eq_ok.2 ⟨parts, hparts, rfl⟩, fun hsize => ?_⟩
  rw [decodeFrames_eq_ok]
  have hread := hreads what [] fun part hpart => by
    have := length_le_of_mem_frameAll hpart
    omega
  rwa [List.append_nil] at hread

end

end Codec
end ThreeMove

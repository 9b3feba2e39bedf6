/-
# Frames that are read

A frame is taken off where one stands in front, and only there
(`FrameCursor.next_eq_ok`): what is read determines the bytes it was read from.
What is read out of frames was decoded from some bytes, so the value of every
frame is one that its decoder returns (`Decodes`).  `ReadsEach` tells which bytes a row
of decoders reads, whatever the errors are called.
-/

import ThreeMove.Frame
import ThreeMove.Proofs.Bytes
import ThreeMove.Proofs.Result

namespace ThreeMove

variable {α : Type}

/-- Some bytes decode to `value`. -/
def Decodes (decoder : Bytes → Except Error α) (value : α) : Prop :=
  ∃ data, decoder data = .ok value

/-- A framed part is shorter by four bytes or more than the frames it is among. -/
theorem length_le_of_mem_frameAll {part : Bytes} {parts : List Bytes} (h : part ∈ parts) :
    part.length + 4 ≤ (frameAll parts).length := by
  induction parts with
  | nil => exact absurd h List.not_mem_nil
  | cons first rest ih =>
    rw [frameAll_cons, List.length_append, length_frame]
    rcases List.mem_cons.1 h with rfl | hrest
    · omega
    · have := ih hrest
      omega

/-- Frames of two lists stand one behind the other. -/
@[simp] theorem frameAll_append (parts others : List Bytes) :
    frameAll (parts ++ others) = frameAll parts ++ frameAll others :=
  List.flatMap_append

/-- A frame determines what is in it. -/
theorem frame_injective : Function.Injective frame := fun _ _ h =>
  (List.append_inj h (by rw [Bytes.length_be, Bytes.length_be])).2

/-- Frames that their lengths fit are told apart. -/
theorem frameAll_inj {parts others : List Bytes} (hparts : ∀ part ∈ parts, part.length < 2 ^ 32)
    (hothers : ∀ other ∈ others, other.length < 2 ^ 32) (h : frameAll parts = frameAll others) :
    parts = others :=
  Bytes.flatMap_be_length_inj (by decide) hparts hothers h

namespace FrameCursor

/-- No decoder takes no frame. -/
theorem decodeEach_nil (what : String) (cursor : FrameCursor) :
    decodeEach what ([] : List (Bytes → Except Error α)) cursor = pure ([], cursor) := rfl

/-- The first decoder takes the first frame. -/
theorem decodeEach_cons (what : String) (decoder : Bytes → Except Error α)
    (decoders : List (Bytes → Except Error α)) (cursor : FrameCursor) :
    decodeEach what (decoder :: decoders) cursor = (do
      let (value, cursor) ← cursor.decode what decoder
      let (values, cursor) ← decodeEach what decoders cursor
      return (value :: values, cursor)) := rfl

/-- A frame that its length fits is taken off the bytes it was put in front of. -/
theorem next_frame (data rest : Bytes) (what : String) (h : data.length < 2 ^ 32) :
    next ⟨frame data ++ rest⟩ what = .ok (data, ⟨rest⟩) := by
  have hlen : ((Bytes.be 4 data.length) ++ (data ++ rest)).take 4 = Bytes.be 4 data.length := by
    rw [List.take_append_of_le_length (by simp)]
    exact List.take_of_length_le (by simp)
  have hrest : ((Bytes.be 4 data.length) ++ (data ++ rest)).drop 4 = data ++ rest := by
    rw [List.drop_append_of_le_length (by simp), List.drop_of_length_le (by simp)]
    rfl
  have hsize : Bytes.beValue (Bytes.be 4 data.length) = data.length := by
    rw [Bytes.beValue_be]
    exact Nat.mod_eq_of_lt (by simpa using h)
  have hlong : ¬ (frame data ++ rest).length < 4 := by
    rw [List.length_append, length_frame]
    omega
  have hbody : ¬ (data ++ rest).length < data.length := by
    rw [List.length_append]
    omega
  rw [next, if_neg hlong]
  simp only [frame, List.append_assoc, hlen, hrest, hsize, if_neg hbody, List.take_left',
    List.drop_left']

/-- A frame is taken off exactly where it stands in front, and what is in it fits
four bytes of length. -/
theorem next_eq_ok {cursor rest : FrameCursor} {what : String} {data : Bytes} :
    cursor.next what = .ok (data, rest) ↔
      data.length < 2 ^ 32 ∧ cursor.rest = frame data ++ rest.rest := by
  constructor
  · intro h
    unfold next at h
    split at h
    · exact nomatch h
    rename_i hheader
    dsimp only at h
    split at h
    · exact nomatch h
    rename_i hbody
    obtain ⟨rfl, rfl⟩ := Prod.mk.inj (Except.ok.inj h)
    have hfour : (cursor.rest.take 4).length = 4 := by
      rw [List.length_take]
      omega
    have hsize : ((cursor.rest.drop 4).take (Bytes.beValue (cursor.rest.take 4))).length =
        Bytes.beValue (cursor.rest.take 4) := by
      rw [List.length_take]
      omega
    refine ⟨?_, ?_⟩
    · have hlt := Bytes.beValue_lt (cursor.rest.take 4)
      rw [hfour] at hlt
      rw [hsize]
      exact hlt
    · have hlength : Bytes.be 4 (Bytes.beValue (cursor.rest.take 4)) = cursor.rest.take 4 := by
        have hbytes := Bytes.be_beValue (cursor.rest.take 4)
        rwa [hfour] at hbytes
      rw [frame, hsize, hlength, List.append_assoc, List.take_append_drop, List.take_append_drop]
  · rintro ⟨hsize, hrest⟩
    obtain ⟨bytes⟩ := cursor
    obtain rfl : bytes = frame data ++ rest.rest := hrest
    exact next_frame data rest.rest what hsize

/-- A value is read exactly where a frame in front decodes to it. -/
theorem decode_eq_ok {cursor rest : FrameCursor} {what : String}
    {decoder : Bytes → Except Error α} {value : α} :
    cursor.decode what decoder = .ok (value, rest) ↔
      ∃ data, data.length < 2 ^ 32 ∧ cursor.rest = frame data ++ rest.rest ∧
        decoder data = .ok value := by
  constructor
  · intro h
    obtain ⟨⟨data, next⟩, hnext, h⟩ := bind_eq_ok.1 h
    obtain ⟨value', hvalue, heq⟩ := bind_eq_ok.1 h
    obtain ⟨rfl, rfl⟩ := Prod.mk.inj (Except.ok.inj heq)
    obtain ⟨hsize, hrest⟩ := next_eq_ok.1 hnext
    exact ⟨data, hsize, hrest, hvalue⟩
  · rintro ⟨data, hsize, hrest, hvalue⟩
    refine bind_eq_ok.2 ⟨(data, rest), next_eq_ok.2 ⟨hsize, hrest⟩, ?_⟩
    exact bind_eq_ok.2 ⟨value, hvalue, rfl⟩

/-- A reader may finish exactly where nothing is left. -/
theorem finish_eq_ok {cursor : FrameCursor} {what : String} {u : Unit} :
    cursor.finish what = .ok u ↔ cursor.rest = [] := by
  unfold finish
  cases cursor.rest with
  | nil => exact ⟨fun _ => rfl, fun _ => rfl⟩
  | cons => exact ⟨nofun, nofun⟩

/-- The value read out of a frame was decoded from some bytes. -/
theorem decodes_of_decode {cursor rest : FrameCursor} {what : String}
    {decoder : Bytes → Except Error α} {value : α}
    (h : cursor.decode what decoder = .ok (value, rest)) : Decodes decoder value := by
  obtain ⟨⟨data, next⟩, -, hdata⟩ := bind_eq_ok.1 h
  obtain ⟨value', hvalue, heq⟩ := bind_eq_ok.1 hdata
  obtain ⟨rfl, -⟩ := Prod.mk.inj (Except.ok.inj heq)
  exact ⟨data, hvalue⟩

/-- Every value read out of a row of frames was decoded from some bytes. -/
theorem decodes_of_decodeEach {what : String} {decoders : List (Bytes → Except Error α)}
    {cursor rest : FrameCursor} {values : List α}
    (h : decodeEach what decoders cursor = .ok (values, rest)) :
    List.Forall₂ Decodes decoders values := by
  induction decoders generalizing cursor rest values with
  | nil =>
    obtain ⟨rfl, -⟩ := Prod.mk.inj (Except.ok.inj h)
    exact .nil
  | cons decoder decoders ih =>
    obtain ⟨⟨value, next⟩, hvalue, h⟩ := bind_eq_ok.1 h
    obtain ⟨⟨others, last⟩, hothers, heq⟩ := bind_eq_ok.1 h
    obtain ⟨rfl, -⟩ := Prod.mk.inj (Except.ok.inj heq)
    exact .cons (decodes_of_decode hvalue) (ih hothers)

end FrameCursor

/-- Frames are all that a byte string holds where they are read with nothing left. -/
theorem decodeFrames_eq_ok {what : String} {decoders : List (Bytes → Except Error α)}
    {data : Bytes} {values : List α} :
    decodeFrames what decoders data = .ok values ↔
      FrameCursor.decodeEach what decoders ⟨data⟩ = .ok (values, ⟨[]⟩) := by
  constructor
  · intro h
    obtain ⟨⟨values', ⟨rest⟩⟩, hvalues, h⟩ := bind_eq_ok.1 h
    obtain ⟨_, hfinish, heq⟩ := bind_eq_ok.1 h
    obtain rfl := Except.ok.inj heq
    obtain rfl : rest = [] := FrameCursor.finish_eq_ok.1 hfinish
    exact hvalues
  · intro h
    exact bind_eq_ok.2 ⟨_, h, rfl⟩

/-- One frame after another, and in each what a decoder reads; the rest of the bytes is
nothing. -/
inductive ReadsEach : List (Bytes → Except Error α) → List α → Bytes → Prop where
  | nil : ReadsEach [] [] []
  | cons {decoder : Bytes → Except Error α} {decoders : List (Bytes → Except Error α)} {value : α}
      {values : List α} {data rest : Bytes} (hsize : data.length < 2 ^ 32)
      (h : decoder data = .ok value) (hrest : ReadsEach decoders values rest) :
      ReadsEach (decoder :: decoders) (value :: values) (frame data ++ rest)

/-- Frames that are read stand in front, whatever they are called. -/
theorem FrameCursor.decodeEach_eq_ok {what : String} {decoders : List (Bytes → Except Error α)}
    {cursor rest : FrameCursor} {values : List α} :
    decodeEach what decoders cursor = .ok (values, rest) ↔
      ∃ front, ReadsEach decoders values front ∧ cursor.rest = front ++ rest.rest := by
  induction decoders generalizing cursor values with
  | nil =>
    constructor
    · intro h
      obtain ⟨rfl, rfl⟩ := Prod.mk.inj (Except.ok.inj h)
      exact ⟨[], .nil, rfl⟩
    · rintro ⟨_, ⟨⟩, hcursor⟩
      obtain ⟨bytes⟩ := cursor
      obtain rfl : bytes = rest.rest := hcursor
      rfl
  | cons decoder decoders ih =>
    constructor
    · intro h
      obtain ⟨⟨value, next⟩, hvalue, h⟩ := bind_eq_ok.1 h
      obtain ⟨⟨others, last⟩, hothers, heq⟩ := bind_eq_ok.1 h
      obtain ⟨rfl, rfl⟩ := Prod.mk.inj (Except.ok.inj heq)
      obtain ⟨data, hsize, hcursor, hdata⟩ := decode_eq_ok.1 hvalue
      obtain ⟨front, hfront, hnext⟩ := ih.1 hothers
      refine ⟨frame data ++ front, .cons hsize hdata hfront, ?_⟩
      rw [hcursor, hnext, List.append_assoc]
    · rintro ⟨_, hreads, hcursor⟩
      cases hreads with
      | @cons _ _ value others data front hsize hdata hfront =>
        rw [List.append_assoc] at hcursor
        refine bind_eq_ok.2 ⟨(value, ⟨front ++ rest.rest⟩), ?_, ?_⟩
        · exact decode_eq_ok.2 ⟨data, hsize, hcursor, hdata⟩
        · exact bind_eq_ok.2 ⟨(others, rest), ih.2 ⟨front, hfront, rfl⟩, rfl⟩

/-- A row of decoders reads what it returns, whatever it calls what it is looking for. -/
theorem decodeFrames_eq_ok_iff_readsEach {what : String}
    {decoders : List (Bytes → Except Error α)} {data : Bytes} {values : List α} :
    decodeFrames what decoders data = .ok values ↔ ReadsEach decoders values data := by
  rw [decodeFrames_eq_ok, FrameCursor.decodeEach_eq_ok]
  constructor
  · rintro ⟨front, hfront, hdata⟩
    obtain rfl : data = front := hdata.trans (List.append_nil front)
    exact hfront
  · exact fun h => ⟨data, h, (List.append_nil data).symm⟩

/-- Two rows of frames are read with nothing left where the byte string is the one row and then the
other. -/
theorem FrameCursor.decodeRows_eq_ok {β γ : Type} {what what' last : String}
    {decoders : List (Bytes → Except Error α)} {decoders' : List (Bytes → Except Error β)}
    {f : List α → List β → γ} {data : Bytes} {result : γ} :
    (do
      let (values, cursor) ← decodeEach what decoders ⟨data⟩
      let (values', cursor) ← decodeEach what' decoders' cursor
      cursor.finish last
      return f values values') = Except.ok result ↔
      ∃ front back values values', data = front ++ back ∧ ReadsEach decoders values front ∧
        ReadsEach decoders' values' back ∧ f values values' = result := by
  constructor
  · intro h
    obtain ⟨⟨values, cursor⟩, hvalues, h⟩ := bind_eq_ok.1 h
    obtain ⟨⟨values', cursor'⟩, hvalues', h⟩ := bind_eq_ok.1 h
    obtain ⟨_, hfinish, heq⟩ := bind_eq_ok.1 h
    obtain ⟨front, hfront, hdata⟩ := decodeEach_eq_ok.1 hvalues
    obtain ⟨back, hback, hcursor⟩ := decodeEach_eq_ok.1 hvalues'
    rw [finish_eq_ok.1 hfinish, List.append_nil] at hcursor
    rw [hcursor] at hdata
    exact ⟨front, back, values, values', hdata, hfront, hback, Except.ok.inj heq⟩
  · rintro ⟨front, back, values, values', rfl, hfront, hback, rfl⟩
    refine bind_eq_ok.2 ⟨(values, ⟨back⟩), ?_, bind_eq_ok.2 ⟨(values', ⟨[]⟩), ?_, rfl⟩⟩
    · exact decodeEach_eq_ok.2 ⟨front, hfront, rfl⟩
    · exact decodeEach_eq_ok.2 ⟨back, hback, (List.append_nil back).symm⟩

/-- What decoders read, others read that read the same. -/
theorem ReadsEach.imp {decoders others : List (Bytes → Except Error α)} {values : List α}
    {data : Bytes} (h : ReadsEach decoders values data)
    (himp : List.Forall₂ (fun decoder other => ∀ data value,
      decoder data = .ok value → other data = .ok value) decoders others) :
    ReadsEach others values data := by
  induction h generalizing others with
  | nil =>
    cases himp
    exact .nil
  | cons hsize hdata _ ih =>
    cases himp with
    | cons hfirst hrest => exact .cons hsize (hfirst _ _ hdata) (ih hrest)

/-- What a row of decoders reads, each decodes from some bytes. -/
theorem ReadsEach.decodes {decoders : List (Bytes → Except Error α)} {values : List α}
    {data : Bytes} (h : ReadsEach decoders values data) :
    List.Forall₂ Decodes decoders values := by
  induction h with
  | nil => exact .nil
  | cons _ hdata _ ih => exact .cons ⟨_, hdata⟩ ih

/-- Every value of frames that are read to the end was decoded from some bytes. -/
theorem decodes_of_decodeFrames {what : String} {decoders : List (Bytes → Except Error α)}
    {data : Bytes} {values : List α} (h : decodeFrames what decoders data = .ok values) :
    List.Forall₂ Decodes decoders values := by
  obtain ⟨⟨values', rest⟩, hvalues, h⟩ := bind_eq_ok.1 h
  obtain ⟨_, -, heq⟩ := bind_eq_ok.1 h
  obtain rfl := Except.ok.inj heq
  exact FrameCursor.decodes_of_decodeEach hvalues

end ThreeMove

/-
# What reading vouches for

An encoder says nothing of the parts that it leaves out, and writes an over-long
number in full; the decoder finds out.  `Codec.Vouches m p`: whoever reads the
encoding of `m` knows `p`.  For elementary messages `p` is that the numbers are in
range, for a run of frames that there is one for each item and that the parts are
in order (`Codec.vouches_frames`).  This needs that no parts are left out: frames
are counted, so parts that are missing are missed, parts that were dropped are not.
-/

import ThreeMove.Proofs.Protocol.Encoding

namespace ThreeMove
namespace Codec

variable {M N κ : Type} {m : M} {p q : Prop}

/-- The encoding of the message is read only if `p` holds, unless it takes 4 GiB. -/
def Vouches (encode : M → Except Abort Bytes) (decode : Bytes → Except Error M) (m : M)
    (p : Prop) : Prop :=
  ∀ data m', encode m = .ok data → data.length < 2 ^ 32 → decode data = .ok m' → p

section

variable {encode : M → Except Abort Bytes} {decode : Bytes → Except Error M}

/-- What is vouched for may be weakened. -/
theorem Vouches.imp (hpq : p → q) (h : Vouches encode decode m p) : Vouches encode decode m q :=
  fun data m' hdata hsize hread => hpq (h data m' hdata hsize hread)

/-- Wrapping messages leaves what is vouched for. -/
theorem Vouches.map (f : M → N) {encode' : N → Except Abort Bytes}
    (hencode : ∀ m, encode' (f m) = encode m) (h : Vouches encode decode m p) :
    Vouches encode' (fun data => f <$> decode data) (f m) p := by
  intro data n hdata hsize hread
  obtain ⟨m', hm', -⟩ := map_eq_ok.1 hread
  rw [hencode] at hdata
  exact h data m' hdata hsize hm'

end

end Codec

/-! ### Frames -/

section

variable {α : Type} {what : String}

/-- What is read next from a run of frames is the first of them. -/
theorem FrameCursor.of_decode_frame {part : Bytes} {others : List Bytes}
    {decoder : Bytes → Except Error α} {value : α} {rest : FrameCursor}
    (hsmall : part.length < 2 ^ 32)
    (h : FrameCursor.decode ⟨frameAll (part :: others)⟩ what decoder = .ok (value, rest)) :
    decoder part = .ok value ∧ rest = ⟨frameAll others⟩ := by
  rw [frameAll_cons, FrameCursor.decode, next_frame part _ what hsmall] at h
  obtain ⟨_, hnext, h⟩ := bind_eq_ok.1 h
  obtain rfl := Except.ok.inj hnext
  obtain ⟨value', hvalue, heq⟩ := bind_eq_ok.1 h
  obtain ⟨rfl, rfl⟩ := Prod.mk.inj (Except.ok.inj heq)
  exact ⟨hvalue, rfl⟩

/-- What decoders read from a run of frames are the first of them, one each. -/
theorem FrameCursor.of_decodeEach_frames {parts : List Bytes}
    {decoders : List (Bytes → Except Error α)} {values : List α} {rest : FrameCursor}
    (hsmall : ∀ part ∈ parts, part.length < 2 ^ 32)
    (h : FrameCursor.decodeEach what decoders ⟨frameAll parts⟩ = .ok (values, rest)) :
    ∃ read others, parts = read ++ others ∧ rest = ⟨frameAll others⟩ ∧
      List.Forall₂ (fun decoder part => ∃ value, decoder part = .ok value) decoders read := by
  induction decoders generalizing parts values with
  | nil =>
    obtain ⟨-, rfl⟩ := Prod.mk.inj (Except.ok.inj h)
    exact ⟨[], parts, rfl, rfl, .nil⟩
  | cons decoder decoders ih =>
    obtain ⟨⟨value, next⟩, hvalue, h⟩ := bind_eq_ok.1 h
    obtain ⟨⟨others, last⟩, hothers, heq⟩ := bind_eq_ok.1 h
    obtain ⟨-, rfl⟩ := Prod.mk.inj (Except.ok.inj heq)
    cases parts with
    | nil => exact nomatch hvalue
    | cons part parts =>
      rw [List.forall_mem_cons] at hsmall
      obtain ⟨hpart, rfl⟩ := of_decode_frame hsmall.1 hvalue
      obtain ⟨read, left, rfl, rfl, hread⟩ := ih hsmall.2 hothers
      exact ⟨part :: read, left, rfl, rfl, .cons ⟨value, hpart⟩ hread⟩

/-- Only a run of no frames is empty. -/
theorem frameAll_eq_nil {parts : List Bytes} : frameAll parts = [] ↔ parts = [] := by
  cases parts with
  | nil => exact ⟨fun _ => rfl, fun _ => rfl⟩
  | cons part parts =>
    have hlength := length_frame part
    simp only [frameAll_cons, List.append_eq_nil_iff, reduceCtorEq, iff_false, not_and]
    intro hframe
    rw [hframe, List.length_nil] at hlength
    omega

/-- Parts of small frames are small. -/
theorem small_of_frameAll {parts : List Bytes} (h : (frameAll parts).length < 2 ^ 32) :
    ∀ part ∈ parts, part.length < 2 ^ 32 := by
  intro part hpart
  have := length_le_of_mem_frameAll hpart
  omega

end

namespace Codec

variable {M κ : Type} {encode : κ → M → Except Abort Bytes} {decode : κ → Bytes → Except Error M}
  {items : List κ} {ms : List M} {parts : List Bytes} {P : κ → M → Prop}

/-- There is a frame for each item that has a message. -/
theorem length_of_encodeEach (h : encodeEach encode items ms = .ok parts) :
    parts.length = min items.length ms.length := by
  have hlength := (mapM_eq_ok.1 h).length_eq
  rw [List.length_zip] at hlength
  exact hlength.symm

/-- Where no message is left out and every item finds a frame, what reading vouches for
holds of all messages in order. -/
theorem forall₂_of_read (hcount : ms.length ≤ items.length)
    (h : ∀ pair ∈ items.zip ms, Vouches (encode pair.1) (decode pair.1) pair.2 (P pair.1 pair.2))
    (hparts : encodeEach encode items ms = .ok parts)
    (hsmall : ∀ part ∈ parts, part.length < 2 ^ 32)
    (hread : List.Forall₂ (fun decoder part => ∃ m, decoder part = .ok m) (items.map decode)
      parts) :
    List.Forall₂ P items ms := by
  rw [List.forall₂_map_left_iff] at hread
  induction hread generalizing ms with
  | nil =>
    obtain rfl := List.length_eq_zero_iff.1 (Nat.le_zero.1 hcount)
    exact .nil
  | @cons item part items parts hpart _ ih =>
    cases ms with
    | nil => exact nomatch hparts
    | cons m ms =>
      rw [encodeEach, List.zip_cons_cons, List.mapM_cons] at hparts
      obtain ⟨data, hdata, hparts⟩ := bind_eq_ok.1 hparts
      obtain ⟨others, hothers, heq⟩ := bind_eq_ok.1 hparts
      obtain ⟨rfl, rfl⟩ := List.cons.inj (Except.ok.inj heq)
      rw [List.zip_cons_cons, List.forall_mem_cons] at h
      rw [List.forall_mem_cons] at hsmall
      obtain ⟨m', hm'⟩ := hpart
      refine .cons (h.1 data m' hdata hsmall.1 hm') ?_
      exact ih (Nat.le_of_succ_le_succ hcount) h.2 hothers hsmall.2

/-- A run of frames vouches for as many messages as there are items, and for each of them. -/
theorem vouches_frames (what : String) (hcount : ms.length ≤ items.length)
    (h : ∀ pair ∈ items.zip ms, Vouches (encode pair.1) (decode pair.1) pair.2 (P pair.1 pair.2)) :
    Vouches (fun ms => frameAll <$> encodeEach encode items ms)
      (decodeFrames what (items.map decode)) ms (List.Forall₂ P items ms) := by
  intro data values hdata hsize hread
  obtain ⟨parts, hparts, rfl⟩ := map_eq_ok.1 hdata
  have hsmall := small_of_frameAll hsize
  obtain ⟨read, others, rfl, hothers, hfound⟩ :=
    FrameCursor.of_decodeEach_frames hsmall (decodeFrames_eq_ok.1 hread)
  obtain rfl : others = [] := frameAll_eq_nil.1 (FrameCursor.mk.inj hothers).symm
  rw [List.append_nil] at hparts hsmall
  exact forall₂_of_read hcount h hparts hsmall hfound

/-- Translated items encode what the translations do. -/
theorem encodeEach_map {ι : Type} (f : ι → κ) (items : List ι) (ms : List M) :
    encodeEach encode (items.map f) ms = encodeEach (fun item => encode (f item)) items ms := by
  rw [encodeEach, encodeEach, List.zip_map_left, List.mapM_map]
  rfl

variable (encode decode) in
/-- The same of items that are told by others. -/
theorem vouches_frames_map {ι : Type} (f : ι → κ) (what : String) {items : List ι}
    {P : ι → M → Prop} (hcount : ms.length ≤ items.length)
    (h : ∀ pair ∈ items.zip ms,
      Vouches (encode (f pair.1)) (decode (f pair.1)) pair.2 (P pair.1 pair.2)) :
    Vouches (fun ms => frameAll <$> encodeEach encode (items.map f) ms)
      (decodeFrames what ((items.map f).map decode)) ms (List.Forall₂ P items ms) := by
  simp only [encodeEach_map, List.map_map, Function.comp_def]
  exact vouches_frames what hcount h

end Codec

/-! ### Elementary messages -/

/-- A challenge that is read is reduced. -/
theorem ChallengeSpace.vouches (space : ChallengeSpace) (c : Nat) :
    Codec.Vouches (fun c => .ok (space.encode c)) space.decode c (c < space.modulus) := by
  intro data c' hdata _ hread
  obtain rfl := Except.ok.inj hdata
  obtain ⟨hc', hsame⟩ := space.decode_eq_ok.1 hread
  exact space.encode_injective hsame ▸ hc'

namespace ModP

variable {G : Type} (s : ModP)

/-- A residue that is read is a nonzero one. -/
theorem vouches_residue (t : Nat) :
    Codec.Vouches (s.protocol (G := G)).encodeAnnouncement s.protocol.decodeAnnouncement
      (.residue t) (0 < t ∧ t < s.p) := by
  have hresidue : Codec.Vouches (fun t => .ok (Bytes.padded s.elementLength t)) s.decodeResidue t
      (0 < t ∧ t < s.p) := by
    intro data t' hdata _ hread
    obtain rfl := Except.ok.inj hdata
    obtain ⟨hpos, hlt, hsame⟩ := s.decodeResidue_eq_ok.1 hread
    exact Bytes.padded_injective _ hsame ▸ ⟨hpos, hlt⟩
  exact hresidue.map Announcement.residue fun _ => rfl

/-- A scalar that is read is below `q`. -/
theorem vouches_scalar (r : Nat) :
    Codec.Vouches (s.protocol (G := G)).encodeResponse s.protocol.decodeResponse (.scalar r)
      (r < s.q) := by
  have hscalar : Codec.Vouches (fun r => .ok (Bytes.padded s.space.encodedLength r))
      s.decodeScalar r (r < s.q) := by
    intro data r' hdata _ hread
    obtain rfl := Except.ok.inj hdata
    obtain ⟨hlt, hsame⟩ := s.decodeScalar_eq_ok.1 hread
    exact Bytes.padded_injective _ hsame ▸ hlt
  exact hscalar.map Response.scalar fun _ => rfl

end ModP

namespace DiscreteLog

variable {G : Type} [PrimeGroup G] (s : DiscreteLog G)

/-- Elements that are read are as many as the bases. -/
theorem vouches_elements (exact : PrimeGroup.ExactEncoding G) (ts : List G) :
    Codec.Vouches s.protocol.encodeAnnouncement s.protocol.decodeAnnouncement (.elements ts)
      (ts.length = s.bases.length) := by
  have helements : Codec.Vouches (fun ts => .ok (PrimeGroup.encodeElements ts)) s.decodeElements ts
      (ts.length = s.bases.length) := by
    intro data ts' hdata _ hread
    obtain rfl := Except.ok.inj hdata
    obtain ⟨hcount, hsame⟩ := (s.decodeElements_eq_ok exact).1 hread
    have hlength := congrArg List.length hsame
    rw [PrimeGroup.length_encodeElements exact.length_encode,
      PrimeGroup.length_encodeElements exact.length_encode] at hlength
    have hpos := s.elementLength_pos exact.length_encode exact.encode_injective
    rw [← hcount]
    exact (Nat.eq_of_mul_eq_mul_right hpos hlength).symm
  exact helements.map Announcement.elements fun _ => rfl

/-- A scalar that is read is below the order. -/
theorem vouches_scalar (r : Nat) :
    Codec.Vouches s.protocol.encodeResponse s.protocol.decodeResponse (.scalar r)
      (r < PrimeGroup.order G) := by
  have hscalar : Codec.Vouches (fun r => .ok (PrimeGroup.encodeScalars G [r])) s.decodeScalar r
      (r < PrimeGroup.order G) := by
    intro data r' hdata _ hread
    obtain rfl := Except.ok.inj hdata
    obtain ⟨hlt, hsame⟩ := s.decodeScalar_eq_ok.1 hread
    simp only [PrimeGroup.encodeScalars, List.flatMap_cons, List.flatMap_nil,
      List.append_nil] at hsame
    exact Bytes.padded_injective _ hsame ▸ hlt
  exact hscalar.map Response.scalar fun _ => rfl

end DiscreteLog

/-! ### Messages of several parts -/

variable {G κ : Type}

namespace Conjunction

variable (f : κ → Protocol G) {first : κ} {rest : List κ}

/-- The announcement of a conjunction vouches for those of its branches. -/
theorem vouches_announcement {as : List (Announcement G)} {P : κ → Announcement G → Prop}
    (hcount : as.length ≤ (first :: rest).length)
    (h : ∀ pair ∈ (first :: rest).zip as, Codec.Vouches (f pair.1).encodeAnnouncement
      (f pair.1).decodeAnnouncement pair.2 (P pair.1 pair.2)) :
    Codec.Vouches (protocol (f first) (rest.map f)).encodeAnnouncement
      (protocol (f first) (rest.map f)).decodeAnnouncement (.all as)
      (List.Forall₂ P (first :: rest) as) := by
  have hframes := Codec.vouches_frames_map Protocol.encodeAnnouncement
    Protocol.decodeAnnouncement f "AND announcement" hcount h
  exact hframes.map Announcement.all fun _ => rfl

/-- The response to a conjunction vouches for those to its branches. -/
theorem vouches_response {rs : List (Response G)} {P : κ → Response G → Prop}
    (hcount : rs.length ≤ (first :: rest).length)
    (h : ∀ pair ∈ (first :: rest).zip rs, Codec.Vouches (f pair.1).encodeResponse
      (f pair.1).decodeResponse pair.2 (P pair.1 pair.2)) :
    Codec.Vouches (protocol (f first) (rest.map f)).encodeResponse
      (protocol (f first) (rest.map f)).decodeResponse (.all rs)
      (List.Forall₂ P (first :: rest) rs) := by
  have hframes := Codec.vouches_frames_map Protocol.encodeResponse
    Protocol.decodeResponse f "AND response" hcount h
  exact hframes.map Response.all fun _ => rfl

end Conjunction

namespace Disjunction

variable {left right : Protocol G} {p q : Prop}

/-- The announcement of a disjunction vouches for those of its branches. -/
theorem vouches_announcement {la ra : Announcement G}
    (hleft : Codec.Vouches left.encodeAnnouncement left.decodeAnnouncement la p)
    (hright : Codec.Vouches right.encodeAnnouncement right.decodeAnnouncement ra q) :
    Codec.Vouches (protocol left right).encodeAnnouncement (protocol left right).decodeAnnouncement
      (.any [la, ra]) (p ∧ q) := by
  intro data a hdata hsize hread
  obtain ⟨leftBytes, hleftBytes, hdata⟩ := bind_eq_ok.1 hdata
  obtain ⟨rightBytes, hrightBytes, heq⟩ := bind_eq_ok.1 hdata
  obtain rfl := Except.ok.inj heq
  have hsmall := small_of_frameAll hsize
  simp only [List.forall_mem_cons] at hsmall
  obtain ⟨hleftSmall, hrightSmall, -⟩ := hsmall
  obtain ⟨⟨_, _⟩, hfirst, hread⟩ := bind_eq_ok.1 hread
  obtain ⟨hla, rfl⟩ := FrameCursor.of_decode_frame hleftSmall hfirst
  obtain ⟨⟨_, _⟩, hsecond, -⟩ := bind_eq_ok.1 hread
  obtain ⟨hra, -⟩ := FrameCursor.of_decode_frame hrightSmall hsecond
  exact ⟨hleft _ _ hleftBytes hleftSmall hla, hright _ _ hrightBytes hrightSmall hra⟩

/-- The response to a disjunction vouches for those to its branches and for a reduced share. -/
theorem vouches_response (lc : Nat) {lr rr : Response G}
    (hleft : Codec.Vouches left.encodeResponse left.decodeResponse lr p)
    (hright : Codec.Vouches right.encodeResponse right.decodeResponse rr q) :
    Codec.Vouches (protocol left right).encodeResponse (protocol left right).decodeResponse
      (.any [lc] [lr, rr]) (lc < left.space.modulus ∧ p ∧ q) := by
  intro data r hdata hsize hread
  obtain ⟨leftBytes, hleftBytes, hdata⟩ := bind_eq_ok.1 hdata
  obtain ⟨rightBytes, hrightBytes, heq⟩ := bind_eq_ok.1 hdata
  obtain rfl := Except.ok.inj heq
  have hsmall := small_of_frameAll hsize
  simp only [List.forall_mem_cons] at hsmall
  obtain ⟨hshareSmall, hleftSmall, hrightSmall, -⟩ := hsmall
  obtain ⟨⟨_, _⟩, hfirst, hread⟩ := bind_eq_ok.1 hread
  obtain ⟨hlc, rfl⟩ := FrameCursor.of_decode_frame hshareSmall hfirst
  obtain ⟨⟨_, _⟩, hsecond, hread⟩ := bind_eq_ok.1 hread
  obtain ⟨hlr, rfl⟩ := FrameCursor.of_decode_frame hleftSmall hsecond
  obtain ⟨⟨_, _⟩, hthird, -⟩ := bind_eq_ok.1 hread
  obtain ⟨hrr, -⟩ := FrameCursor.of_decode_frame hrightSmall hthird
  exact ⟨left.space.vouches lc _ _ rfl hshareSmall hlc, hleft _ _ hleftBytes hleftSmall hlr,
    hright _ _ hrightBytes hrightSmall hrr⟩

end Disjunction

namespace FormulaProof

variable {space : ChallengeSpace} (f : κ → Gate G) {children : List κ}

/-- The announcements of a gate vouch for those of its children. -/
theorem vouches_announcements {as : List (Announcement G)} {P : κ → Announcement G → Prop}
    (hcount : as.length ≤ children.length)
    (h : ∀ pair ∈ children.zip as, Codec.Vouches (encodeAnnouncement (f pair.1))
      (decodeAnnouncement (f pair.1)) pair.2 (P pair.1 pair.2)) :
    Codec.Vouches (fun as => frameAll <$> encodeAnnouncements (children.map f) as)
      (decodeFrames "partial-knowledge announcement" (announcementDecoders (children.map f))) as
      (List.Forall₂ P children as) := by
  rw [announcementDecoders_eq, funext (encodeAnnouncements_eq (children.map f))]
  exact Codec.vouches_frames_map encodeAnnouncement decodeAnnouncement f _ hcount h

variable (space) {rs : List (Response G)} {P : κ → Response G → Prop}

/-- The response to an `all` gate vouches for those to its children. -/
theorem vouches_all_response (hcount : rs.length ≤ children.length)
    (h : ∀ pair ∈ children.zip rs, Codec.Vouches (encodeResponse space (f pair.1))
      (decodeResponse space (f pair.1)) pair.2 (P pair.1 pair.2)) :
    Codec.Vouches (encodeResponse space (.all (children.map f)))
      (decodeResponse space (.all (children.map f))) (.all rs) (List.Forall₂ P children rs) := by
  have hframes := Codec.vouches_frames_map (encodeResponse space) (decodeResponse space) f
    "AND response" hcount h
  rw [← responseDecoders_eq, ← funext (encodeResponses_eq (children.map f))] at hframes
  exact hframes.map Response.all fun _ => rfl

/-- Shares and responses share one run of frames.  As neither are more than they should be,
they can make up the number of frames only together, so no share is read as a response. -/
theorem vouches_any_response {shares : List Nat} (hshares : shares.length + 1 ≤ children.length)
    (hcount : rs.length ≤ children.length)
    (h : ∀ pair ∈ children.zip rs, Codec.Vouches (encodeResponse space (f pair.1))
      (decodeResponse space (f pair.1)) pair.2 (P pair.1 pair.2)) :
    Codec.Vouches (encodeResponse space (.any (children.map f)))
      (decodeResponse space (.any (children.map f))) (.any shares rs)
      (shares.length + 1 = children.length ∧ (∀ share ∈ shares, share < space.modulus) ∧
        List.Forall₂ P children rs) := by
  intro data r hdata hsize hread
  obtain ⟨parts, hparts, rfl⟩ := map_eq_ok.1 hdata
  rw [encodeResponses_eq, Codec.encodeEach_map] at hparts
  obtain ⟨⟨shares', _⟩, hfirst, hread⟩ := bind_eq_ok.1 hread
  obtain ⟨⟨rs', _⟩, hsecond, hread⟩ := bind_eq_ok.1 hread
  obtain ⟨_, hfinish, -⟩ := bind_eq_ok.1 hread
  have hsmall := small_of_frameAll hsize
  obtain ⟨read, others, heq, rfl, hreadShares⟩ := FrameCursor.of_decodeEach_frames hsmall hfirst
  rw [heq, List.forall_mem_append] at hsmall
  obtain ⟨read', others', rfl, rfl, hreadParts⟩ :=
    FrameCursor.of_decodeEach_frames hsmall.2 hsecond
  obtain rfl : others' = [] := frameAll_eq_nil.1 (FrameCursor.finish_eq_ok.1 hfinish)
  rw [List.append_nil] at heq hsmall
  -- The frames are as many as there are shares and responses to be read.
  have hlengthShares := hreadShares.length_eq
  have hlengthParts := hreadParts.length_eq
  have hparts' := Codec.length_of_encodeEach hparts
  have hlength := congrArg List.length heq
  rw [List.length_replicate, List.length_map] at hlengthShares
  rw [responseDecoders_eq, List.length_map, List.length_map] at hlengthParts
  rw [List.length_append, List.length_append, List.length_map] at hlength
  have hexact : shares.length + 1 = children.length := by omega
  obtain ⟨rfl, rfl⟩ := List.append_inj heq (by rw [List.length_map]; omega)
  refine ⟨hexact, ?_, ?_⟩
  · have hcopies : List.replicate ((children.map f).length - 1) space.decode =
        shares.map fun _ => space.decode := by
      rw [List.map_const', List.length_map, ← hexact, Nat.add_sub_cancel]
    rw [hcopies, List.forall₂_map_left_iff, List.forall₂_map_right_iff, List.forall₂_same]
      at hreadShares
    intro share hshare
    obtain ⟨c, hc⟩ := hreadShares share hshare
    exact space.vouches share _ c rfl (hsmall.1 _ (List.mem_map_of_mem hshare)) hc
  · rw [responseDecoders_eq, List.map_map] at hreadParts
    exact Codec.forall₂_of_read hcount h hparts hsmall.2 hreadParts

end FormulaProof

namespace Sealed

variable {scheme : HashCommitment} {inner : Protocol G} {p q : Prop}

/-- A commitment that is read has its length. -/
theorem vouches_announcement (digest : Bytes) :
    Codec.Vouches (protocol scheme inner).encodeAnnouncement
      (protocol scheme inner).decodeAnnouncement (.commitment digest)
      (digest.length = HashCommitment.length) := by
  intro data a hdata _ hread
  obtain rfl := Except.ok.inj hdata
  obtain ⟨digest', hdigest, -⟩ := map_eq_ok.1 hread
  obtain ⟨hlength, rfl⟩ := HashCommitment.decodeCommitment_eq_ok.1 hdigest
  exact hlength

/-- An opening vouches for what it opens and for its own length. -/
theorem vouches_response {r : Response G} {a : Announcement G} (opening : Bytes)
    (hr : Codec.Vouches inner.encodeResponse inner.decodeResponse r p)
    (ha : Codec.Vouches inner.encodeAnnouncement inner.decodeAnnouncement a q) :
    Codec.Vouches (protocol scheme inner).encodeResponse (protocol scheme inner).decodeResponse
      (.opening r a opening) (p ∧ q ∧ opening.length = HashCommitment.length) := by
  intro data r' hdata hsize hread
  obtain ⟨responseBytes, hresponse, hdata⟩ := bind_eq_ok.1 hdata
  obtain ⟨announcementBytes, hannouncement, heq⟩ := bind_eq_ok.1 hdata
  obtain rfl := Except.ok.inj heq
  have hsmall := small_of_frameAll hsize
  simp only [List.forall_mem_cons] at hsmall
  obtain ⟨hresponseSmall, hannouncementSmall, hopeningSmall, -⟩ := hsmall
  obtain ⟨⟨_, _⟩, hfirst, hread⟩ := bind_eq_ok.1 hread
  obtain ⟨hreadResponse, rfl⟩ := FrameCursor.of_decode_frame hresponseSmall hfirst
  obtain ⟨⟨_, _⟩, hsecond, hread⟩ := bind_eq_ok.1 hread
  obtain ⟨hreadAnnouncement, rfl⟩ := FrameCursor.of_decode_frame hannouncementSmall hsecond
  obtain ⟨⟨_, _⟩, hthird, -⟩ := bind_eq_ok.1 hread
  obtain ⟨hreadOpening, -⟩ := FrameCursor.of_decode_frame hopeningSmall hthird
  obtain ⟨hlength, rfl⟩ := HashCommitment.decodeOpening_eq_ok.1 hreadOpening
  exact ⟨hr _ _ hresponse hresponseSmall hreadResponse,
    ha _ _ hannouncement hannouncementSmall hreadAnnouncement, hlength⟩

end Sealed
end ThreeMove

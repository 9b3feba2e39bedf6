/-
# The encodings of a protocol's messages

Two more promises of a protocol, both kept by elementary protocols and passed on
by compounds: its announcements and its responses have one encoding each
(`Protocol.Canonical`), and single messages are restored from what they are
encoded to (`Protocol.RestoresAnnouncement`, `Protocol.RestoresResponse`).  For
elementary protocols a decoder reads just the encodings of the messages in range;
for compounds the parts stand in frames, whose number is given by the statement.
-/

import ThreeMove.Proofs.Group.Encoding
import ThreeMove.Proofs.Protocol.FormulaProof
import ThreeMove.Protocol.Conjunction
import ThreeMove.Protocol.DiscreteLog
import ThreeMove.Protocol.Disjunction
import ThreeMove.Protocol.ModP
import ThreeMove.Protocol.Sealed

namespace ThreeMove

variable {G : Type}

namespace Protocol

/-- Announcements have one encoding each, and so have responses. -/
structure Canonical (p : Protocol G) : Prop where
  announcement : Codec.Canonical p.encodeAnnouncement p.decodeAnnouncement
  response : Codec.Canonical p.encodeResponse p.decodeResponse

/-- The announcement is restored from its encoding. -/
def RestoresAnnouncement (p : Protocol G) (a : Announcement G) : Prop :=
  Codec.Restores p.encodeAnnouncement p.decodeAnnouncement a

/-- The response is restored from its encoding. -/
def RestoresResponse (p : Protocol G) (r : Response G) : Prop :=
  Codec.Restores p.encodeResponse p.decodeResponse r

end Protocol

/-! ### Elementary protocols -/

namespace ModP

variable (s : ModP)

/-- Bytes are read as the nonzero residue of which they are the padded encoding. -/
theorem decodeResidue_eq_ok {data : Bytes} {t : Nat} : s.decodeResidue data = .ok t ↔
    0 < t ∧ t < s.p ∧ Bytes.padded s.elementLength t = data := by
  have hfits : ∀ {t}, t < s.p → t < 256 ^ s.elementLength := Bytes.lt_pow_of_lt
  unfold decodeResidue
  constructor
  · intro h
    dsimp only at h
    split at h
    · rename_i hdata
      obtain rfl := Except.ok.inj h
      exact ⟨hdata.2.1, hdata.2.2, (Bytes.padded_eq_iff (hfits hdata.2.2)).2 ⟨hdata.1, rfl⟩⟩
    · exact nomatch h
  · rintro ⟨hpos, hlt, hdata⟩
    obtain ⟨hlength, rfl⟩ := (Bytes.padded_eq_iff (hfits hlt)).1 hdata
    exact if_pos ⟨hlength, hpos, hlt⟩

/-- A response is read as a challenge is. -/
theorem decodeScalar_eq_ok {data : Bytes} {r : Nat} : s.decodeScalar data = .ok r ↔
    r < s.q ∧ Bytes.padded s.space.encodedLength r = data := by
  refine Iff.trans ?_ s.space.decode_eq_ok
  unfold decodeScalar ChallengeSpace.decode
  dsimp only
  constructor <;> intro h <;> split at h
  · rename_i hdata
    exact (if_pos hdata).trans h
  · exact nomatch h
  · rename_i hdata
    exact (if_pos hdata).trans h
  · exact nomatch h

/-- The messages of a logarithm over residues have one encoding each. -/
theorem canonical : (s.protocol (G := G)).Canonical where
  announcement := by
    have hresidue : Codec.Canonical (fun t => .ok (Bytes.padded s.elementLength t))
        s.decodeResidue := fun _ _ h => congrArg Except.ok (s.decodeResidue_eq_ok.1 h).2.2
    exact hresidue.map Announcement.residue fun _ => rfl
  response := by
    have hscalar : Codec.Canonical (fun r => .ok (Bytes.padded s.space.encodedLength r))
        s.decodeScalar := fun _ _ h => congrArg Except.ok (s.decodeScalar_eq_ok.1 h).2
    exact hscalar.map Response.scalar fun _ => rfl

/-- A nonzero residue is restored. -/
theorem restores_residue {t : Nat} (hpos : 0 < t) (hlt : t < s.p) :
    (s.protocol (G := G)).RestoresAnnouncement (.residue t) :=
  ⟨_, rfl, fun _ => map_eq_ok.2 ⟨t, s.decodeResidue_eq_ok.2 ⟨hpos, hlt, rfl⟩, rfl⟩⟩

/-- A reduced response to a logarithm over residues is restored. -/
theorem restores_scalar {r : Nat} (h : r < s.q) :
    (s.protocol (G := G)).RestoresResponse (.scalar r) :=
  ⟨_, rfl, fun _ => map_eq_ok.2 ⟨r, s.decodeScalar_eq_ok.2 ⟨h, rfl⟩, rfl⟩⟩

end ModP

namespace DiscreteLog

variable [PrimeGroup G] (s : DiscreteLog G)

include s in
/-- A base is not zero, so elements are more than one and their encodings not empty. -/
theorem elementLength_pos
    (hlength : ∀ a : G, (PrimeGroup.encode a).length = PrimeGroup.elementLength G)
    (hencode : Function.Injective (PrimeGroup.encode (G := G))) :
    0 < PrimeGroup.elementLength G := by
  rw [Nat.pos_iff_ne_zero]
  intro hzero
  have hempty : ∀ a : G, PrimeGroup.encode a = [] := fun a =>
    List.length_eq_zero_iff.1 ((hlength a).trans hzero)
  obtain ⟨base, hbase⟩ := List.exists_mem_of_ne_nil _ s.nonempty
  exact s.ne_zero base hbase (hencode ((hempty base).trans (hempty 0).symm))

/-- Bytes are read as the elements of which they are the encodings, one for every base. -/
theorem decodeElements_eq_ok (exact : PrimeGroup.ExactEncoding G) {data : Bytes} {ts : List G} :
    s.decodeElements data = .ok ts ↔
      ts.length = s.bases.length ∧ PrimeGroup.encodeElements ts = data := by
  rw [← PrimeGroup.decodeElements_eq_some_iff exact]
  unfold decodeElements
  split
  · rename_i hread
    rw [hread]
    exact ⟨fun h => congrArg some (Except.ok.inj h),
      fun h => congrArg Except.ok (Option.some.inj h)⟩
  · rename_i hread
    rw [hread]
    exact ⟨nofun, nofun⟩

/-- Bytes are read as the reduced scalar of which they are the encoding. -/
theorem decodeScalar_eq_ok {data : Bytes} {r : Nat} : s.decodeScalar data = .ok r ↔
    r < PrimeGroup.order G ∧ PrimeGroup.encodeScalars G [r] = data := by
  have hread : PrimeGroup.decodeScalars G data 1 = some [r] ↔
      r < PrimeGroup.order G ∧ PrimeGroup.encodeScalars G [r] = data := by
    rw [PrimeGroup.decodeScalars_eq_some_iff, List.forall_mem_singleton]
    exact and_iff_right rfl
  rw [← hread]
  unfold decodeScalar
  split
  · rename_i r' hr'
    rw [hr']
    constructor
    · intro h
      rw [Except.ok.inj h]
    · intro h
      exact congrArg Except.ok (List.cons.inj (Option.some.inj h)).1
  · rename_i hnot
    exact ⟨nofun, fun h => absurd h (hnot r)⟩

/-- The messages of logarithms in a group have one encoding each. -/
theorem canonical (exact : PrimeGroup.ExactEncoding G) : s.protocol.Canonical where
  announcement := by
    have helements : Codec.Canonical (fun ts => .ok (PrimeGroup.encodeElements ts))
        s.decodeElements := fun _ _ h => congrArg Except.ok ((s.decodeElements_eq_ok exact).1 h).2
    exact helements.map Announcement.elements fun _ => rfl
  response := by
    have hscalar : Codec.Canonical (fun r => .ok (PrimeGroup.encodeScalars G [r]))
        s.decodeScalar := fun _ _ h => congrArg Except.ok (s.decodeScalar_eq_ok.1 h).2
    exact hscalar.map Response.scalar fun _ => rfl

/-- As many elements as there are bases are restored. -/
theorem restores_elements (exact : PrimeGroup.ExactEncoding G) {ts : List G}
    (h : ts.length = s.bases.length) : s.protocol.RestoresAnnouncement (.elements ts) :=
  ⟨_, rfl, fun _ => map_eq_ok.2 ⟨ts, (s.decodeElements_eq_ok exact).2 ⟨h, rfl⟩, rfl⟩⟩

/-- A reduced response to logarithms in a group is restored. -/
theorem restores_scalar {r : Nat} (h : r < PrimeGroup.order G) :
    s.protocol.RestoresResponse (.scalar r) :=
  ⟨_, rfl, fun _ => map_eq_ok.2 ⟨r, s.decodeScalar_eq_ok.2 ⟨h, rfl⟩, rfl⟩⟩

end DiscreteLog

/-! ### Conjunctions -/

namespace Conjunction

variable {first : Protocol G} {rest : List (Protocol G)}

/-- The messages of a conjunction have one encoding each if those of its branches do. -/
theorem canonical (h : ∀ branch ∈ first :: rest, branch.Canonical) :
    (protocol first rest).Canonical where
  announcement := Codec.Canonical.map Announcement.all (fun _ => rfl)
    (Codec.canonical_frames _ fun branch hbranch => (h branch hbranch).announcement)
  response := Codec.Canonical.map Response.all (fun _ => rfl)
    (Codec.canonical_frames _ fun branch hbranch => (h branch hbranch).response)

/-- Announcements of a conjunction are restored if those of its branches are. -/
theorem restores_announcement {as : List (Announcement G)}
    (h : List.Forall₂ Protocol.RestoresAnnouncement (first :: rest) as) :
    (protocol first rest).RestoresAnnouncement (.all as) :=
  Codec.Restores.map Announcement.all (fun _ => rfl) (Codec.restores_frames _ h)

/-- Responses to a conjunction are restored if those to its branches are. -/
theorem restores_response {rs : List (Response G)}
    (h : List.Forall₂ Protocol.RestoresResponse (first :: rest) rs) :
    (protocol first rest).RestoresResponse (.all rs) :=
  Codec.Restores.map Response.all (fun _ => rfl) (Codec.restores_frames _ h)

end Conjunction

/-! ### Disjunctions -/

namespace Disjunction

variable {left right : Protocol G}

/-- The messages of a disjunction have one encoding each if those of its branches do. -/
theorem canonical (hleft : left.Canonical) (hright : right.Canonical) :
    (protocol left right).Canonical where
  announcement := by
    intro data a h
    obtain ⟨⟨la, cursor⟩, hla, h⟩ := bind_eq_ok.1 h
    obtain ⟨⟨ra, cursor'⟩, hra, h⟩ := bind_eq_ok.1 h
    obtain ⟨_, hfinish, heq⟩ := bind_eq_ok.1 h
    obtain rfl := Except.ok.inj heq
    obtain ⟨leftBytes, hleftBytes, hdata⟩ := hleft.announcement.of_read hla
    obtain ⟨rightBytes, hrightBytes, hcursor⟩ := hright.announcement.of_read hra
    rw [FrameCursor.finish_eq_ok.1 hfinish] at hcursor
    refine bind_eq_ok.2 ⟨leftBytes, hleftBytes, bind_eq_ok.2 ⟨rightBytes, hrightBytes, ?_⟩⟩
    exact congrArg Except.ok (hcursor ▸ hdata).symm
  response := by
    intro data r h
    obtain ⟨⟨lc, cursor⟩, hlc, h⟩ := bind_eq_ok.1 h
    obtain ⟨⟨lr, cursor'⟩, hlr, h⟩ := bind_eq_ok.1 h
    obtain ⟨⟨rr, cursor''⟩, hrr, h⟩ := bind_eq_ok.1 h
    obtain ⟨_, hfinish, heq⟩ := bind_eq_ok.1 h
    obtain rfl := Except.ok.inj heq
    obtain ⟨_, hshare, hdata⟩ := left.space.canonical.of_read hlc
    obtain rfl := Except.ok.inj hshare
    obtain ⟨leftBytes, hleftBytes, hcursor⟩ := hleft.response.of_read hlr
    obtain ⟨rightBytes, hrightBytes, hcursor'⟩ := hright.response.of_read hrr
    rw [FrameCursor.finish_eq_ok.1 hfinish] at hcursor'
    refine bind_eq_ok.2 ⟨leftBytes, hleftBytes, bind_eq_ok.2 ⟨rightBytes, hrightBytes, ?_⟩⟩
    exact congrArg Except.ok (hcursor' ▸ hcursor ▸ hdata).symm

/-- Announcements of a disjunction are restored if those of its branches are. -/
theorem restores_announcement {la ra : Announcement G} (hleft : left.RestoresAnnouncement la)
    (hright : right.RestoresAnnouncement ra) :
    (protocol left right).RestoresAnnouncement (.any [la, ra]) := by
  obtain ⟨leftBytes, hleftBytes, hreadLeft⟩ := hleft.exists_read
  obtain ⟨rightBytes, hrightBytes, hreadRight⟩ := hright.exists_read
  refine ⟨frameAll [leftBytes, rightBytes], ?_, fun hsize => ?_⟩
  · exact bind_eq_ok.2 ⟨leftBytes, hleftBytes, bind_eq_ok.2 ⟨rightBytes, hrightBytes, rfl⟩⟩
  · simp only [frameAll_cons, frameAll_nil, List.length_append, length_frame] at hsize
    refine bind_eq_ok.2 ⟨_, hreadLeft _ (frameAll [rightBytes]) (by omega), ?_⟩
    exact bind_eq_ok.2 ⟨_, hreadRight _ [] (by omega), rfl⟩

/-- Responses to a disjunction are restored if those to its branches are and the share is
reduced. -/
theorem restores_response {lc : Nat} {lr rr : Response G} (hlc : lc < left.space.modulus)
    (hleft : left.RestoresResponse lr) (hright : right.RestoresResponse rr) :
    (protocol left right).RestoresResponse (.any [lc] [lr, rr]) := by
  obtain ⟨_, hshare, hreadShare⟩ := (left.space.restores hlc).exists_read
  obtain rfl := Except.ok.inj hshare
  obtain ⟨leftBytes, hleftBytes, hreadLeft⟩ := hleft.exists_read
  obtain ⟨rightBytes, hrightBytes, hreadRight⟩ := hright.exists_read
  refine ⟨frameAll [left.space.encode lc, leftBytes, rightBytes], ?_, fun hsize => ?_⟩
  · exact bind_eq_ok.2 ⟨leftBytes, hleftBytes, bind_eq_ok.2 ⟨rightBytes, hrightBytes, rfl⟩⟩
  · simp only [frameAll_cons, frameAll_nil, List.length_append, length_frame] at hsize
    refine bind_eq_ok.2 ⟨_, hreadShare _ (frameAll [leftBytes, rightBytes]) (by omega), ?_⟩
    refine bind_eq_ok.2 ⟨_, hreadLeft _ (frameAll [rightBytes]) (by omega), ?_⟩
    exact bind_eq_ok.2 ⟨_, hreadRight _ [] (by omega), rfl⟩

end Disjunction

/-! ### Formulas -/

namespace FormulaProof

variable {space : ChallengeSpace} {children : List (Gate G)}

/-- The announcements of the children are encoded one by one. -/
theorem encodeAnnouncements_eq (children : List (Gate G)) (as : List (Announcement G)) :
    encodeAnnouncements children as = Codec.encodeEach encodeAnnouncement children as := by
  induction children generalizing as with
  | nil => rfl
  | cons child rest ih =>
    cases as with
    | nil => rfl
    | cons a as =>
      rw [encodeAnnouncements, ih, Codec.encodeEach, Codec.encodeEach, List.zip_cons_cons,
        List.mapM_cons]

/-- The responses of the children are encoded one by one. -/
theorem encodeResponses_eq (children : List (Gate G)) (rs : List (Response G)) :
    encodeResponses space children rs = Codec.encodeEach (encodeResponse space) children rs := by
  induction children generalizing rs with
  | nil => rfl
  | cons child rest ih =>
    cases rs with
    | nil => rfl
    | cons r rs =>
      rw [encodeResponses, ih, Codec.encodeEach, Codec.encodeEach, List.zip_cons_cons,
        List.mapM_cons]

/-- A gate of announcements is canonical where its children are. -/
theorem canonical_announcements
    (h : ∀ child ∈ children,
      Codec.Canonical (encodeAnnouncement child) (decodeAnnouncement child)) :
    Codec.Canonical (fun as => frameAll <$> encodeAnnouncements children as)
      (decodeFrames "partial-knowledge announcement" (announcementDecoders children)) := by
  rw [announcementDecoders_eq, funext (encodeAnnouncements_eq children)]
  exact Codec.canonical_frames _ h

/-- The announcements of the children are restored if each is. -/
theorem restores_announcements {as : List (Announcement G)}
    (h : List.Forall₂
      (fun child => Codec.Restores (encodeAnnouncement child) (decodeAnnouncement child))
      children as) :
    Codec.Restores (fun as => frameAll <$> encodeAnnouncements children as)
      (decodeFrames "partial-knowledge announcement" (announcementDecoders children)) as := by
  rw [announcementDecoders_eq, funext (encodeAnnouncements_eq children)]
  exact Codec.restores_frames _ h

/-- The shares of a gate are encoded one by one. -/
theorem encodeEach_shares {count : Nat} {shares : List Nat} (h : shares.length = count) :
    Codec.encodeEach (fun (_ : Unit) c => .ok (space.encode c)) (List.replicate count ()) shares =
      .ok (shares.map space.encode) := by
  subst h
  induction shares with
  | nil => rfl
  | cons share shares ih => exact Codec.encodeEach_cons rfl ih

/-- Every share has the decoder of the space. -/
theorem replicate_decode (count : Nat) : List.replicate count space.decode =
    (List.replicate count ()).map fun _ => space.decode := by
  rw [List.map_replicate]

/-- The messages of a formula have one encoding each if those of its leaves do. -/
theorem canonical (formula : Gate G) (h : ∀ leaf ∈ formula.leaves, leaf.2.Canonical) :
    (protocol space formula).Canonical := by
  induction formula using Formula.induction with
  | leaf name inner =>
    have hinner : inner.Canonical := h (name, inner) (List.mem_singleton_self _)
    exact ⟨hinner.announcement.map Announcement.leaf fun _ => rfl,
      hinner.response.map Response.leaf fun _ => rfl⟩
  | all children ih =>
    have hchildren : ∀ child ∈ children, (protocol space child).Canonical := fun child hchild =>
      ih child hchild (Formula.forall_mem_leavesOf.1 h child hchild)
    constructor
    · exact (canonical_announcements fun child hchild => (hchildren child hchild).announcement).map
        Announcement.all fun _ => rfl
    · have hframes := Codec.canonical_frames "AND response"
        fun child hchild => (hchildren child hchild).response
      refine Codec.Canonical.map Response.all (fun rs => ?_)
        (responseDecoders_eq children ▸ hframes)
      exact congrArg (frameAll <$> ·) (encodeResponses_eq children rs)
  | any children ih =>
    have hchildren : ∀ child ∈ children, (protocol space child).Canonical := fun child hchild =>
      ih child hchild (Formula.forall_mem_leavesOf.1 h child hchild)
    constructor
    · exact (canonical_announcements fun child hchild => (hchildren child hchild).announcement).map
        Announcement.any fun _ => rfl
    · intro data r hread
      obtain ⟨⟨shares, cursor⟩, hshares, hread⟩ := bind_eq_ok.1 hread
      obtain ⟨⟨rs, cursor'⟩, hrs, hread⟩ := bind_eq_ok.1 hread
      obtain ⟨_, hfinish, heq⟩ := bind_eq_ok.1 hread
      obtain rfl := Except.ok.inj heq
      rw [replicate_decode] at hshares
      rw [responseDecoders_eq] at hrs
      obtain ⟨hcount, _, hencoded, hdata⟩ :=
        Codec.of_decodeEach (fun _ _ => space.canonical) hshares
      rw [encodeEach_shares (hcount.trans List.length_replicate)] at hencoded
      obtain rfl := Except.ok.inj hencoded
      obtain ⟨-, parts, hparts, hcursor⟩ :=
        Codec.of_decodeEach (fun child hchild => (hchildren child hchild).response) hrs
      rw [FrameCursor.finish_eq_ok.1 hfinish, List.append_nil] at hcursor
      refine map_eq_ok.2 ⟨parts, (encodeResponses_eq children rs).trans hparts, ?_⟩
      rw [frameAll_append, ← hcursor]
      exact hdata.symm

/-- A response to an `all` gate is restored if those to its children are. -/
theorem restores_all_response {rs : List (Response G)}
    (h : List.Forall₂
      (fun child => Codec.Restores (encodeResponse space child) (decodeResponse space child))
      children rs) :
    (protocol space (.all children)).RestoresResponse (.all rs) := by
  have hframes := Codec.restores_frames "AND response" h
  refine Codec.Restores.map Response.all (fun rs => ?_) (responseDecoders_eq children ▸ hframes)
  exact congrArg (frameAll <$> ·) (encodeResponses_eq children rs)

/-- A response to an `any` gate is restored if those to its children are and the shares are
reduced. -/
theorem restores_any_response {shares : List Nat} {rs : List (Response G)}
    (hcount : shares.length + 1 = children.length)
    (hshares : ∀ share ∈ shares, share < space.modulus)
    (h : List.Forall₂
      (fun child => Codec.Restores (encodeResponse space child) (decodeResponse space child))
      children rs) :
    (protocol space (.any children)).RestoresResponse (.any shares rs) := by
  obtain ⟨parts, hparts, hreads⟩ := Codec.exists_encodeEach h
  have hrestores : List.Forall₂ (fun _ : Unit =>
      Codec.Restores (fun c => .ok (space.encode c)) space.decode)
      (List.replicate shares.length ()) shares := by
    clear hcount
    induction shares with
    | nil => exact .nil
    | cons share shares ih =>
      rw [List.forall_mem_cons] at hshares
      exact .cons (space.restores hshares.1) (ih hshares.2)
  obtain ⟨_, hencoded, hreadShares⟩ := Codec.exists_encodeEach hrestores
  rw [encodeEach_shares rfl] at hencoded
  obtain rfl := Except.ok.inj hencoded
  refine ⟨frameAll (shares.map space.encode ++ parts), ?_, fun hsize => ?_⟩
  · exact map_eq_ok.2 ⟨parts, (encodeResponses_eq children rs).trans hparts, rfl⟩
  · have hsmall : ∀ part ∈ shares.map space.encode ++ parts, part.length < 2 ^ 32 :=
      fun part hpart => by
        have := length_le_of_mem_frameAll hpart
        omega
    rw [List.forall_mem_append] at hsmall
    have hlast : children.length - 1 = shares.length := by omega
    rw [frameAll_append]
    refine bind_eq_ok.2 ⟨(shares, ⟨frameAll parts⟩), ?_, ?_⟩
    · rw [hlast, replicate_decode]
      exact hreadShares _ _ hsmall.1
    · have hread := hreads "OR response" [] hsmall.2
      rw [List.append_nil] at hread
      rw [responseDecoders_eq]
      exact bind_eq_ok.2 ⟨_, hread, rfl⟩

end FormulaProof

/-! ### Sealed announcements -/

namespace HashCommitment

/-- Bytes are a commitment exactly where they have its length. -/
theorem decodeCommitment_eq_ok {data digest : Bytes} :
    decodeCommitment data = .ok digest ↔ digest.length = length ∧ digest = data := by
  unfold decodeCommitment
  split <;> rename_i hdata
  · exact ⟨fun h => Except.ok.inj h ▸ ⟨hdata, rfl⟩, fun h => congrArg Except.ok h.2.symm⟩
  · exact ⟨nofun, fun h => absurd (h.2 ▸ h.1) hdata⟩

/-- Bytes are an opening exactly where they have its length. -/
theorem decodeOpening_eq_ok {data opening : Bytes} :
    decodeOpening data = .ok opening ↔ opening.length = length ∧ opening = data := by
  unfold decodeOpening
  split <;> rename_i hdata
  · exact ⟨fun h => Except.ok.inj h ▸ ⟨hdata, rfl⟩, fun h => congrArg Except.ok h.2.symm⟩
  · exact ⟨nofun, fun h => absurd (h.2 ▸ h.1) hdata⟩

/-- A commitment has one encoding. -/
theorem canonical_commitment : Codec.Canonical (fun digest => .ok digest) decodeCommitment :=
  fun _ _ h => congrArg Except.ok (decodeCommitment_eq_ok.1 h).2

/-- An opening has one encoding. -/
theorem canonical_opening : Codec.Canonical (fun opening => .ok opening) decodeOpening :=
  fun _ _ h => congrArg Except.ok (decodeOpening_eq_ok.1 h).2

/-- An opening of the right length is restored. -/
theorem restores_opening {opening : Bytes} (h : opening.length = length) :
    Codec.Restores (fun opening => .ok opening) decodeOpening opening :=
  ⟨opening, rfl, fun _ => decodeOpening_eq_ok.2 ⟨h, rfl⟩⟩

end HashCommitment

namespace Sealed

variable {scheme : HashCommitment} {inner : Protocol G}

/-- The messages of a sealed protocol have one encoding each if those within do. -/
theorem canonical (hinner : inner.Canonical) : (protocol scheme inner).Canonical where
  announcement := by
    exact HashCommitment.canonical_commitment.map Announcement.commitment fun _ => rfl
  response := by
    intro data r h
    obtain ⟨⟨response, cursor⟩, hresponse, h⟩ := bind_eq_ok.1 h
    obtain ⟨⟨announcement, cursor'⟩, hannouncement, h⟩ := bind_eq_ok.1 h
    obtain ⟨⟨opening, cursor''⟩, hopening, h⟩ := bind_eq_ok.1 h
    obtain ⟨_, hfinish, heq⟩ := bind_eq_ok.1 h
    obtain rfl := Except.ok.inj heq
    obtain ⟨responseBytes, hr, hdata⟩ := hinner.response.of_read hresponse
    obtain ⟨announcementBytes, ha, hcursor⟩ := hinner.announcement.of_read hannouncement
    obtain ⟨_, ho, hcursor'⟩ := HashCommitment.canonical_opening.of_read hopening
    obtain rfl := Except.ok.inj ho
    rw [FrameCursor.finish_eq_ok.1 hfinish] at hcursor'
    refine bind_eq_ok.2 ⟨responseBytes, hr, bind_eq_ok.2 ⟨announcementBytes, ha, ?_⟩⟩
    exact congrArg Except.ok (hcursor' ▸ hcursor ▸ hdata).symm

/-- A commitment of the right length is restored. -/
theorem restores_announcement {digest : Bytes} (h : digest.length = HashCommitment.length) :
    (protocol scheme inner).RestoresAnnouncement (.commitment digest) :=
  ⟨digest, rfl, fun _ =>
    map_eq_ok.2 ⟨digest, HashCommitment.decodeCommitment_eq_ok.2 ⟨h, rfl⟩, rfl⟩⟩

/-- An opening is restored if what it opens is and its randomness has the right length. -/
theorem restores_response {r : Response G} {a : Announcement G} {opening : Bytes}
    (hr : inner.RestoresResponse r) (ha : inner.RestoresAnnouncement a)
    (ho : opening.length = HashCommitment.length) :
    (protocol scheme inner).RestoresResponse (.opening r a opening) := by
  obtain ⟨responseBytes, hresponse, hreadResponse⟩ := hr.exists_read
  obtain ⟨announcementBytes, hannouncement, hreadAnnouncement⟩ := ha.exists_read
  obtain ⟨_, hopening, hreadOpening⟩ := (HashCommitment.restores_opening ho).exists_read
  obtain rfl := Except.ok.inj hopening
  refine ⟨frameAll [responseBytes, announcementBytes, opening], ?_, fun hsize => ?_⟩
  · exact bind_eq_ok.2 ⟨responseBytes, hresponse,
      bind_eq_ok.2 ⟨announcementBytes, hannouncement, rfl⟩⟩
  · simp only [frameAll_cons, frameAll_nil, List.length_append, length_frame] at hsize
    refine bind_eq_ok.2 ⟨_, hreadResponse _ (frameAll [announcementBytes, opening]) (by omega), ?_⟩
    refine bind_eq_ok.2 ⟨_, hreadAnnouncement _ (frameAll [opening]) (by omega), ?_⟩
    exact bind_eq_ok.2 ⟨_, hreadOpening _ [] (by omega), rfl⟩

end Sealed
end ThreeMove

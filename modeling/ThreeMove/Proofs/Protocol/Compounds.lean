/-
# Which protocols are compounds of which

Conjunctions and the `all` gates of formulas are made differently, and so are disjunctions
and `any` gates, but each is all, or any, of its parts (`Conjunction.allOf`,
`FormulaProof.allOf`, `Disjunction.anyOf`, `FormulaProof.anyOf`).  For a leaf under a name
and for a sealed announcement it is shown directly that protocols that agree still do.
-/

import ThreeMove.Proofs.Challenge.Shares
import ThreeMove.Proofs.Protocol.Agreement
import ThreeMove.Proofs.Protocol.Conjunction
import ThreeMove.Proofs.Protocol.Disjunction
import ThreeMove.Proofs.Protocol.Encoding
import ThreeMove.Proofs.Protocol.FormulaProof
import ThreeMove.Proofs.Protocol.Sealed

namespace ThreeMove

variable {G : Type}

open Protocol

/-! ### Conjunctions and `all` gates -/

/-- Branches accept each what they are given exactly where checking them one by one succeeds and
none is left out. -/
theorem acceptsEach_iff_checkAll {branches : List (Protocol G)} {as : List (Announcement G)}
    {c : Nat} {rs : List (Response G)} : AcceptsEach branches as (branches.map fun _ => c) rs ↔
      (as.length = branches.length ∧ rs.length = branches.length) ∧
        Conjunction.checkAll branches as c rs = .ok true := by
  induction branches generalizing as rs with
  | nil =>
    constructor
    · rintro ⟨⟩
      exact ⟨⟨rfl, rfl⟩, rfl⟩
    · rintro ⟨⟨has, hrs⟩, -⟩
      obtain rfl := List.length_eq_zero_iff.1 has
      obtain rfl := List.length_eq_zero_iff.1 hrs
      exact .nil
  | cons branch rest ih =>
    constructor
    · rintro (_ | ⟨hcheck, hrest⟩)
      obtain ⟨⟨has, hrs⟩, hchecks⟩ := ih.1 hrest
      exact ⟨⟨congrArg Nat.succ has, congrArg Nat.succ hrs⟩,
        Conjunction.checkAll_cons.2 ⟨hcheck, hchecks⟩⟩
    · rintro ⟨⟨has, hrs⟩, hchecks⟩
      obtain ⟨a, as, rfl⟩ := List.exists_cons_of_length_eq_add_one has
      obtain ⟨r, rs, rfl⟩ := List.exists_cons_of_length_eq_add_one hrs
      obtain ⟨hcheck, hchecks⟩ := Conjunction.checkAll_cons.1 hchecks
      exact .cons hcheck (ih.2 ⟨⟨Nat.succ.inj has, Nat.succ.inj hrs⟩, hchecks⟩)

/-- A conjunction is all of its branches. -/
theorem Conjunction.allOf {first : Protocol G} {rest : List (Protocol G)}
    (hspace : ∀ branch ∈ rest, branch.space = first.space) :
    AllOf (first :: rest) (protocol first rest) where
  inhabited := List.cons_ne_nil first rest
  space := List.forall_mem_cons.2 ⟨rfl, hspace⟩
  identifier := rfl
  label := rfl
  announcement data a := by
    refine map_eq_ok.trans (exists_congr fun as => and_congr_left fun _ => ?_)
    exact decodeFrames_eq_ok_iff_readsEach
  encode as _ := rfl
  response data r := by
    refine map_eq_ok.trans (exists_congr fun rs => and_congr_left fun _ => ?_)
    exact decodeFrames_eq_ok_iff_readsEach
  check as c rs := by
    rw [acceptsEach_iff_checkAll]
    simp only [protocol]
    split
    · exact (and_iff_right ‹_›).symm
    · refine ⟨fun h => ?_, fun h => absurd h.1 ‹_›⟩
      cases h

namespace FormulaProof

variable {space : ChallengeSpace} {children : List (Gate G)}

/-- Children accept each what they are given exactly where checking them one by one succeeds and
none is left out. -/
theorem acceptsEach_iff_checkEach {as : List (Announcement G)} {cs : List Nat}
    {rs : List (Response G)} : AcceptsEach (children.map (protocol space)) as cs rs ↔
      (as.length = children.length ∧ cs.length = children.length ∧ rs.length = children.length) ∧
        checkEach space children as cs rs = .ok true := by
  induction children generalizing as cs rs with
  | nil =>
    constructor
    · rintro ⟨⟩
      exact ⟨⟨rfl, rfl, rfl⟩, rfl⟩
    · rintro ⟨⟨has, hcs, hrs⟩, -⟩
      obtain rfl := List.length_eq_zero_iff.1 has
      obtain rfl := List.length_eq_zero_iff.1 hcs
      obtain rfl := List.length_eq_zero_iff.1 hrs
      exact .nil
  | cons child rest ih =>
    constructor
    · rintro (_ | ⟨hcheck, hrest⟩)
      obtain ⟨⟨has, hcs, hrs⟩, hchecks⟩ := ih.1 hrest
      exact ⟨⟨congrArg Nat.succ has, congrArg Nat.succ hcs, congrArg Nat.succ hrs⟩,
        checkEach_cons.2 ⟨hcheck, hchecks⟩⟩
    · rintro ⟨⟨has, hcs, hrs⟩, hchecks⟩
      obtain ⟨a, as, rfl⟩ := List.exists_cons_of_length_eq_add_one has
      obtain ⟨c, cs, rfl⟩ := List.exists_cons_of_length_eq_add_one hcs
      obtain ⟨r, rs, rfl⟩ := List.exists_cons_of_length_eq_add_one hrs
      obtain ⟨hcheck, hchecks⟩ := checkEach_cons.1 hchecks
      exact .cons hcheck (ih.2 ⟨⟨Nat.succ.inj has, Nat.succ.inj hcs, Nat.succ.inj hrs⟩, hchecks⟩)

/-- The identifiers of the children are taken one by one. -/
theorem identifiers_eq (children : List (Gate G)) :
    identifiers children = children.map identifier := by
  induction children with
  | nil => rfl
  | cons child rest ih => rw [identifiers, ih, List.map_cons]

/-- The labels of the children are taken one by one. -/
theorem labels_eq (children : List (Gate G)) : labels children = children.map label := by
  induction children with
  | nil => rfl
  | cons child rest ih => rw [labels, ih, List.map_cons]

/-- The announcements of the children are written as their protocols write them. -/
theorem encode_announcements_eq (children : List (Gate G)) (as : List (Announcement G)) :
    encodeAnnouncements children as =
      Codec.encodeEach (·.encodeAnnouncement) (children.map (protocol space)) as := by
  rw [encodeAnnouncements_eq, Codec.encodeEach, Codec.encodeEach, List.zip_map_left, List.mapM_map]
  rfl

/-- The announcements of the children are read as their protocols read them. -/
theorem decode_announcements_iff (what : String) {data : Bytes} {as : List (Announcement G)} :
    decodeFrames what (announcementDecoders children) data = .ok as ↔
      ReadsEach ((children.map (protocol space)).map (·.decodeAnnouncement)) as data := by
  rw [decodeFrames_eq_ok_iff_readsEach, announcementDecoders_eq, List.map_map]
  rfl

/-- An `all` gate is all of its children. -/
theorem allOf (hne : children ≠ []) :
    AllOf (children.map (protocol space)) (protocol space (.all children)) where
  inhabited := List.map_eq_nil_iff.not.2 hne
  space := List.forall_mem_map.2 fun _ _ => rfl
  identifier := by
    rw [List.map_map]
    exact congrArg (gateIdentifier 1) (identifiers_eq children)
  label := by
    rw [List.map_map]
    exact congrArg frameAll (labels_eq children)
  announcement data a := by
    refine map_eq_ok.trans (exists_congr fun as => and_congr_left fun _ => ?_)
    exact decode_announcements_iff _
  encode as _ := congrArg (frameAll <$> ·) (encode_announcements_eq children as)
  response data r := by
    refine map_eq_ok.trans (exists_congr fun rs => and_congr_left fun _ => ?_)
    rw [decodeFrames_eq_ok_iff_readsEach, responseDecoders_eq, List.map_map]
    rfl
  check as c rs := by
    rw [List.map_map, acceptsEach_iff_checkEach]
    refine check_all.trans (and_congr_left fun _ => ?_)
    simp only [List.length_map, true_and, eq_comm]

/-- An `any` gate is any of its children. -/
theorem anyOf (hne : children ≠ []) :
    AnyOf (children.map (protocol space)) (protocol space (.any children)) where
  inhabited := List.map_eq_nil_iff.not.2 hne
  space := List.forall_mem_map.2 fun _ _ => rfl
  identifier := by
    rw [List.map_map]
    exact congrArg (gateIdentifier 2) (identifiers_eq children)
  label := by
    rw [List.map_map]
    exact congrArg frameAll (labels_eq children)
  announcement data a := by
    refine map_eq_ok.trans (exists_congr fun as => and_congr_left fun _ => ?_)
    exact decode_announcements_iff _
  encode as _ := congrArg (frameAll <$> ·) (encode_announcements_eq children as)
  response data r := by
    rw [List.length_map, List.map_map]
    have hdecoders : children.map ((·.decodeResponse) ∘ protocol space) =
        responseDecoders space children := (responseDecoders_eq children).symm
    rw [hdecoders]
    exact FrameCursor.decodeRows_eq_ok
  check as c shares rs := by
    rw [acceptsEach_iff_checkEach]
    refine check_any.trans (and_congr_left fun _ => ?_)
    rw [List.length_append, List.length_singleton]
    omega

end FormulaProof

/-! ### Disjunctions -/

/-- What remains of a challenge after one share is the difference. -/
theorem ChallengeSpace.remaining_singleton (space : ChallengeSpace) (c share : Nat) :
    space.remaining c [share] = space.sub c share := by
  rw [remaining_cons, remaining, List.foldl_nil, sub, Nat.zero_mod, Nat.sub_zero,
    Nat.add_mod_right, Nat.mod_mod]
  exact Nat.mod_eq_of_lt (space.sub_lt c share)

namespace Disjunction

variable {left right : Protocol G}

/-- Announcements are read as a row of two frames. -/
theorem decodeAnnouncement_eq (left right : Protocol G) (data : Bytes) :
    (protocol left right).decodeAnnouncement data = .any <$> decodeFrames "OR announcement"
      [left.decodeAnnouncement, right.decodeAnnouncement] data := by
  simp only [protocol, decodeFrames, FrameCursor.decodeEach_cons, FrameCursor.decodeEach_nil,
    bind_assoc, pure_bind, map_eq_pure_bind]

/-- Announcements are written as a row of two frames. -/
theorem encodeAnnouncement_eq {as : List (Announcement G)} (has : as.length = 2) :
    (protocol left right).encodeAnnouncement (.any as) =
      frameAll <$> Codec.encodeEach (·.encodeAnnouncement) [left, right] as := by
  obtain ⟨la, ra, rfl⟩ := List.length_eq_two.1 has
  simp only [protocol, Codec.encodeEach, List.zip_cons_cons, List.zip_nil_right, List.mapM_cons,
    List.mapM_nil, bind_assoc, pure_bind, map_eq_pure_bind]

/-- Responses are read as a row of one frame, the share of the left branch, and a row of two. -/
theorem decodeResponse_eq (left right : Protocol G) (data : Bytes) :
    (protocol left right).decodeResponse data = (do
      let (shares, cursor) ← FrameCursor.decodeEach "OR response" [left.space.decode] ⟨data⟩
      let (rs, cursor) ← FrameCursor.decodeEach "OR response"
        [left.decodeResponse, right.decodeResponse] cursor
      cursor.finish "OR response"
      return .any shares rs) := by
  simp only [protocol, FrameCursor.decodeEach_cons, FrameCursor.decodeEach_nil, bind_assoc,
    pure_bind]

/-- What is read of a response is a share of the left branch and a response to each. -/
theorem decodeResponse_eq_ok {data : Bytes} {r : Response G} :
    (protocol left right).decodeResponse data = .ok r ↔ ∃ front back shares rs,
      data = front ++ back ∧ ReadsEach [left.space.decode] shares front ∧
        ReadsEach [left.decodeResponse, right.decodeResponse] rs back ∧ .any shares rs = r := by
  rw [decodeResponse_eq]
  exact FrameCursor.decodeRows_eq_ok

/-- The two branches accept what they are given of a challenge, the one a share and the other what
remains. -/
theorem check_iff_acceptsEach {as : List (Announcement G)} {c : Nat} {shares : List Nat}
    {rs : List (Response G)} :
    (protocol left right).check (.any as) c (.any shares rs) = .ok true ↔
      AcceptsEach [left, right] as (shares ++ [left.space.remaining c shares]) rs := by
  constructor
  · intro h
    obtain ⟨la, ra, share, lr, rr, has, hrs, hleft, hright⟩ := of_check h
    obtain rfl := Announcement.any.inj has
    obtain ⟨rfl, rfl⟩ := Response.any.inj hrs
    rw [← ChallengeSpace.remaining_singleton] at hright
    exact .cons hleft (.cons hright .nil)
  · intro h
    generalize hchallenges : shares ++ [left.space.remaining c shares] = cs at h
    obtain _ | ⟨hleft, h⟩ := h
    obtain _ | ⟨hright, h⟩ := h
    cases h
    -- There are two challenges, the last of which is what remains.
    obtain ⟨share, rfl⟩ : ∃ share, shares = [share] := by
      have hlength := congrArg List.length hchallenges
      rw [List.length_append] at hlength
      exact List.length_eq_one_iff.1 (Nat.succ.inj hlength)
    obtain ⟨rfl, hlast⟩ := List.cons.inj hchallenges
    obtain rfl := (List.cons.inj hlast).1
    rw [ChallengeSpace.remaining_singleton] at hright
    exact check_eq_ok_true.2 ⟨hleft, hright⟩

/-- A disjunction is any of its two branches. -/
theorem anyOf (hspace : left.space = right.space) : AnyOf [left, right] (protocol left right) where
  inhabited := List.cons_ne_nil _ _
  space := List.forall_mem_cons.2 ⟨rfl, List.forall_mem_singleton.2 hspace.symm⟩
  identifier := rfl
  label := rfl
  announcement data a := by
    rw [decodeAnnouncement_eq]
    refine map_eq_ok.trans (exists_congr fun as => and_congr_left fun _ => ?_)
    exact decodeFrames_eq_ok_iff_readsEach
  encode _ has := encodeAnnouncement_eq has
  response _ _ := decodeResponse_eq_ok
  check _ _ _ _ := check_iff_acceptsEach

end Disjunction

/-! ### Leaves and sealed announcements -/

/-- A leaf is its protocol, under any name. -/
theorem FormulaProof.agrees_leaf {p q : Protocol G} {space : ChallengeSpace} (name other : String)
    (h : p.Agrees q) :
    (protocol space (.leaf name p)).Agrees (protocol space (.leaf other q)) where
  space := rfl
  announcement data a := by
    refine map_eq_ok.trans (Iff.trans ?_ map_eq_ok.symm)
    exact exists_congr fun inner => and_congr_left fun _ => h.announcement data inner
  response data r := by
    refine map_eq_ok.trans (Iff.trans ?_ map_eq_ok.symm)
    exact exists_congr fun inner => and_congr_left fun _ => h.response data inner
  encode := by
    rintro a ⟨data, ha⟩
    obtain ⟨inner, hinner, rfl⟩ := map_eq_ok.1 ha
    exact h.encode inner ⟨data, hinner⟩
  check := by
    rintro a c r ⟨aBytes, ha⟩ ⟨rBytes, hr⟩
    obtain ⟨inner, hinner, rfl⟩ := map_eq_ok.1 ha
    obtain ⟨answer, hanswer, rfl⟩ := map_eq_ok.1 hr
    exact h.check inner c answer ⟨aBytes, hinner⟩ ⟨rBytes, hanswer⟩

namespace Sealed

variable {scheme : HashCommitment} {inner : Protocol G}

/-- A response to a sealed announcement holds a response, an announcement and an opening. -/
theorem decodeResponse_eq_ok {data : Bytes} {r : Response G} :
    (protocol scheme inner).decodeResponse data = .ok r ↔
      ∃ response announcement opening rBytes aBytes oBytes,
        (rBytes.length < 2 ^ 32 ∧ aBytes.length < 2 ^ 32 ∧ oBytes.length < 2 ^ 32) ∧
        data = frameAll [rBytes, aBytes, oBytes] ∧ inner.decodeResponse rBytes = .ok response ∧
        inner.decodeAnnouncement aBytes = .ok announcement ∧
        HashCommitment.decodeOpening oBytes = .ok opening ∧
        .opening response announcement opening = r := by
  constructor
  · intro h
    obtain ⟨⟨response, cursor⟩, hresponse, h⟩ := bind_eq_ok.1 h
    obtain ⟨⟨announcement, cursor'⟩, hannouncement, h⟩ := bind_eq_ok.1 h
    obtain ⟨⟨opening, cursor''⟩, hopening, h⟩ := bind_eq_ok.1 h
    obtain ⟨_, hfinish, heq⟩ := bind_eq_ok.1 h
    obtain ⟨rBytes, hrSize, hdata, hr⟩ := FrameCursor.decode_eq_ok.1 hresponse
    obtain ⟨aBytes, haSize, hcursor, ha⟩ := FrameCursor.decode_eq_ok.1 hannouncement
    obtain ⟨oBytes, hoSize, hcursor', ho⟩ := FrameCursor.decode_eq_ok.1 hopening
    rw [hcursor, hcursor', FrameCursor.finish_eq_ok.1 hfinish] at hdata
    exact ⟨response, announcement, opening, rBytes, aBytes, oBytes, ⟨hrSize, haSize, hoSize⟩,
      hdata, hr, ha, ho, Except.ok.inj heq⟩
  · rintro ⟨response, announcement, opening, rBytes, aBytes, oBytes, ⟨hrSize, haSize, hoSize⟩,
      rfl, hr, ha, ho, rfl⟩
    refine bind_eq_ok.2 ⟨(response, ⟨frameAll [aBytes, oBytes]⟩), ?_, ?_⟩
    · exact FrameCursor.decode_eq_ok.2 ⟨rBytes, hrSize, rfl, hr⟩
    refine bind_eq_ok.2 ⟨(announcement, ⟨frameAll [oBytes]⟩), ?_, ?_⟩
    · exact FrameCursor.decode_eq_ok.2 ⟨aBytes, haSize, rfl, ha⟩
    refine bind_eq_ok.2 ⟨(opening, ⟨[]⟩), ?_, rfl⟩
    exact FrameCursor.decode_eq_ok.2 ⟨oBytes, hoSize, rfl, ho⟩

/-- Protocols that agree do so behind one commitment scheme. -/
theorem agrees {p q : Protocol G} (scheme : HashCommitment) (h : p.Agrees q) :
    (protocol scheme p).Agrees (protocol scheme q) where
  space := h.space
  announcement _ _ := .rfl
  response data r := by
    rw [decodeResponse_eq_ok, decodeResponse_eq_ok]
    simp only [h.response, h.announcement]
  encode _ _ := rfl
  check := by
    rintro a c r ⟨data, ha⟩ ⟨data', hr⟩
    obtain ⟨digest, -, rfl⟩ := map_eq_ok.1 ha
    obtain ⟨response, announcement, opening, rBytes, aBytes, oBytes, -, -, hresponse,
      hannouncement, -, rfl⟩ := decodeResponse_eq_ok.1 hr
    rw [check_eq_ok_true, check_eq_ok_true, h.encode _ ⟨aBytes, hannouncement⟩,
      h.check _ _ _ ⟨aBytes, hannouncement⟩ ⟨rBytes, hresponse⟩]

end Sealed
end ThreeMove

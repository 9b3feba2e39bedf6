/-
# A statement determines the length of its messages

Every announcement of a statement has an encoding of `announcementLength` bytes, every
response one of `responseLength` bytes, and different messages have different encodings
(`Accepted.fixedAnnouncement`, `Accepted.fixedResponse`).  Of the encoding of group
elements it is asked that it be injective and of one length; nothing is asked of the size
of a frame.
-/

import ThreeMove.Proofs.Protocol.Width
import ThreeMove.Proofs.Statement.Verdict

namespace ThreeMove
namespace Statement

open Codec (Fixed FixedParts)

variable {G : Type} [PrimeGroup G] {s : Statement G}

mutual

/-- The number of bytes of an encoded announcement. -/
def announcementLength : Statement G → Nat
  | .modP s => s.elementLength
  | .discreteLog s => s.bases.length * PrimeGroup.elementLength G
  | .conjunction first rest => framedLength (first.announcementLength :: announcementLengths rest)
  | .disjunction left right => framedLength [left.announcementLength, right.announcementLength]
  | .formula _ gates => gateAnnouncementLength gates
  | .sealed _ _ => HashCommitment.length

/-- The length of an encoded announcement of each statement. -/
def announcementLengths : List (Statement G) → List Nat
  | [] => []
  | s :: rest => s.announcementLength :: announcementLengths rest

/-- The number of bytes of an encoded announcement of a formula. -/
def gateAnnouncementLength : Formula (Statement G) → Nat
  | .leaf _ s => s.announcementLength
  | .all children => framedLength (gateAnnouncementLengths children)
  | .any children => framedLength (gateAnnouncementLengths children)

/-- The length of an encoded announcement of each formula. -/
def gateAnnouncementLengths : List (Formula (Statement G)) → List Nat
  | [] => []
  | child :: rest => gateAnnouncementLength child :: gateAnnouncementLengths rest

end

mutual

/-- The number of bytes of an encoded response. -/
def responseLength : Statement G → Nat
  | .modP s => s.space.encodedLength
  | .discreteLog _ => PrimeGroup.scalarLength G
  | .conjunction first rest => framedLength (first.responseLength :: responseLengths rest)
  | .disjunction left right =>
    framedLength [left.space.encodedLength, left.responseLength, right.responseLength]
  | .formula space gates => gateResponseLength space gates
  | .sealed _ inner =>
    framedLength [inner.responseLength, inner.announcementLength, HashCommitment.length]

/-- The length of an encoded response to each statement. -/
def responseLengths : List (Statement G) → List Nat
  | [] => []
  | s :: rest => s.responseLength :: responseLengths rest

/-- The number of bytes of an encoded response to a formula, the shares included. -/
def gateResponseLength (space : ChallengeSpace) : Formula (Statement G) → Nat
  | .leaf _ s => s.responseLength
  | .all children => framedLength (gateResponseLengths space children)
  | .any children =>
    framedLength (List.replicate (children.length - 1) space.encodedLength ++
      gateResponseLengths space children)

/-- The length of an encoded response to each formula. -/
def gateResponseLengths (space : ChallengeSpace) : List (Formula (Statement G)) → List Nat
  | [] => []
  | child :: rest => gateResponseLength space child :: gateResponseLengths space rest

end

/-- The lengths of the parts are taken one by one. -/
theorem announcementLengths_eq (parts : List (Statement G)) :
    announcementLengths parts = parts.map announcementLength := by
  induction parts with
  | nil => rfl
  | cons part rest ih => rw [announcementLengths, ih, List.map_cons]

/-- The lengths of the children are taken one by one. -/
theorem gateAnnouncementLengths_eq (children : List (Formula (Statement G))) :
    gateAnnouncementLengths children = children.map gateAnnouncementLength := by
  induction children with
  | nil => rfl
  | cons child rest ih => rw [gateAnnouncementLengths, ih, List.map_cons]

/-- The lengths of the parts are taken one by one. -/
theorem responseLengths_eq (parts : List (Statement G)) :
    responseLengths parts = parts.map responseLength := by
  induction parts with
  | nil => rfl
  | cons part rest ih => rw [responseLengths, ih, List.map_cons]

/-- The lengths of the children are taken one by one. -/
theorem gateResponseLengths_eq (space : ChallengeSpace) (children : List (Formula (Statement G))) :
    gateResponseLengths space children = children.map (gateResponseLength space) := by
  induction children with
  | nil => rfl
  | cons child rest ih => rw [gateResponseLengths, ih, List.map_cons]

/-! ### Announcements -/

/-- The announcements of the children have their lengths, each in its frame. -/
theorem fixed_gate_announcements {children : List (Formula (Statement G))}
    (h : ∀ child ∈ children, Fixed (FormulaProof.encodeAnnouncement (formulaProtocols child))
      (gateAnnouncementLength child) (GateAnnouncementOf child)) :
    Fixed (fun as => frameAll <$> FormulaProof.encodeAnnouncements (formulasProtocols children) as)
      (framedLength (gateAnnouncementLengths children))
      (List.Forall₂ GateAnnouncementOf children) := by
  have hencode : ∀ as, FormulaProof.encodeAnnouncements (formulasProtocols children) as =
      Codec.encodeEach (fun child => FormulaProof.encodeAnnouncement (formulaProtocols child))
        children as := fun as => by
    rw [FormulaProof.encodeAnnouncements_eq, encodeEach_formulasProtocols]
    rfl
  simp only [hencode, gateAnnouncementLengths_eq]
  exact (FixedParts.each h).frames

/-- The announcements of a formula have the length of its leaves and frames. -/
theorem fixed_gate_announcement {gates : Formula (Statement G)}
    (h : ∀ leaf ∈ gates.leaves, Fixed leaf.2.protocol.encodeAnnouncement leaf.2.announcementLength
      leaf.2.AnnouncementOf) :
    Fixed (FormulaProof.encodeAnnouncement (formulaProtocols gates)) (gateAnnouncementLength gates)
      (GateAnnouncementOf gates) := by
  induction gates using Formula.induction with
  | leaf name s =>
    have hs := h (name, s) (List.mem_singleton_self _)
    exact hs.map Announcement.leaf (fun _ => rfl) fun | .leaf h => ⟨_, h, rfl⟩
  | all children ih =>
    have hchildren := fixed_gate_announcements fun child hchild =>
      ih child hchild (Formula.forall_mem_leavesOf.1 h child hchild)
    exact hchildren.map Announcement.all (fun _ => rfl) fun | .all h => ⟨_, h, rfl⟩
  | any children ih =>
    have hchildren := fixed_gate_announcements fun child hchild =>
      ih child hchild (Formula.forall_mem_leavesOf.1 h child hchild)
    exact hchildren.map Announcement.any (fun _ => rfl) fun | .any h => ⟨_, h, rfl⟩

/-- **The announcements of a statement have encodings of one length, which tell them
apart.** -/
theorem Accepted.fixedAnnouncement (h : s.Accepted)
    (encoding : s.space.family = .field → PrimeGroup.InjectiveEncoding G) :
    Fixed s.protocol.encodeAnnouncement s.announcementLength s.AnnouncementOf := by
  induction h with
  | modP s =>
    have hresidue : Fixed (fun t => .ok (Bytes.padded s.elementLength t)) s.elementLength
        (· < s.p) := Codec.fixed_padded fun _ => Bytes.lt_pow_of_lt
    exact hresidue.map Announcement.residue (fun _ => rfl) fun | .modP _ hlt => ⟨_, hlt, rfl⟩
  | discreteLog s =>
    have helements := (encoding rfl).fixed s.bases.length
    exact helements.map Announcement.elements (fun _ => rfl) fun | .discreteLog h => ⟨_, h, rfl⟩
  | allOf h _ ih =>
    obtain ⟨first, rest, rfl, rfl, hspace⟩ := allOf_eq_ok h
    have hparts := (FixedParts.each fun part hpart =>
      ih part hpart (hspace part hpart ▸ encoding)).frames
    rw [List.map_cons, ← announcementLengths_eq] at hparts
    refine hparts.map Announcement.all (fun as => ?_) fun | .conjunction h => ⟨_, h, rfl⟩
    exact encodeParts_protocols (·.encodeAnnouncement) (first :: rest) as
  | @anyOf left right _ h _ _ ihleft ihright =>
    obtain ⟨rfl, hspace⟩ := anyOf_eq_ok h
    have hparts := ((FixedParts.single (ihleft encoding)).append
      (FixedParts.single (ihright (hspace ▸ encoding)))).frames
    refine hparts.map (fun parts => Announcement.any [parts.1, parts.2]) (fun parts => ?_)
      fun | .disjunction hleft hright => ⟨(_, _), ⟨hleft, hright⟩, rfl⟩
    simp only [bind_map_left, map_bind, map_pure]
    rfl
  | ofFormula h _ ih =>
    obtain ⟨space, rfl, hgates⟩ := ofFormula_eq_ok h
    have hfixed := fixed_gate_announcement fun leaf hleaf =>
      ih leaf hleaf (hgates.space_eq leaf hleaf ▸ encoding)
    exact hfixed.map id (fun _ => rfl) fun | .formula h => ⟨_, h, rfl⟩
  | sealedBy scheme _ _ =>
    exact HashCommitment.fixed_bytes.map Announcement.commitment (fun _ => rfl)
      fun | .sealed h => ⟨_, h, rfl⟩

/-! ### Responses -/

/-- The responses of the children have their lengths. -/
theorem fixed_gate_responses {space : ChallengeSpace} {children : List (Formula (Statement G))}
    (h : ∀ child ∈ children, Fixed (FormulaProof.encodeResponse space (formulaProtocols child))
      (gateResponseLength space child) (GateResponseOf space child)) :
    FixedParts (FormulaProof.encodeResponses space (formulasProtocols children))
      (gateResponseLengths space children) (List.Forall₂ (GateResponseOf space) children) := by
  have hencode : FormulaProof.encodeResponses space (formulasProtocols children) =
      Codec.encodeEach (fun child => FormulaProof.encodeResponse space (formulaProtocols child))
        children := funext fun rs => by
    rw [FormulaProof.encodeResponses_eq, encodeEach_formulasProtocols]
    rfl
  rw [hencode, gateResponseLengths_eq]
  exact FixedParts.each h

/-- The responses to a formula have the length of its leaves and frames. -/
theorem fixed_gate_response {space : ChallengeSpace} {gates : Formula (Statement G)}
    (h : ∀ leaf ∈ gates.leaves, Fixed leaf.2.protocol.encodeResponse leaf.2.responseLength
      leaf.2.ResponseOf) :
    Fixed (FormulaProof.encodeResponse space (formulaProtocols gates))
      (gateResponseLength space gates) (GateResponseOf space gates) := by
  induction gates using Formula.induction with
  | leaf name s =>
    have hs := h (name, s) (List.mem_singleton_self _)
    exact hs.map Response.leaf (fun _ => rfl) fun | .leaf h => ⟨_, h, rfl⟩
  | all children ih =>
    have hchildren := fixed_gate_responses fun child hchild =>
      ih child hchild (Formula.forall_mem_leavesOf.1 h child hchild)
    refine hchildren.frames.map Response.all (fun _ => rfl) fun hresponse => ?_
    cases hresponse with
    | all hcount h => exact ⟨_, List.forall₂_iff_zip.2 ⟨hcount, fun hpart => h _ hpart⟩, rfl⟩
  | any children ih =>
    have hchildren := fixed_gate_responses fun child hchild =>
      ih child hchild (Formula.forall_mem_leavesOf.1 h child hchild)
    have hshares : FixedParts (fun shares : List Nat => .ok (shares.map space.encode))
        (List.replicate (children.length - 1) space.encodedLength)
        fun shares => shares.length + 1 = children.length ∧
          ∀ share ∈ shares, share < space.modulus := space.fixed_shares _
    refine (hshares.append hchildren).frames.map (fun m => Response.any m.1 m.2)
      (fun m => ?_) fun hresponse => ?_
    · rw [formulaProtocols, FormulaProof.encodeResponse, map_eq_pure_bind]
      simp only [map_bind, map_pure]
      rfl
    · cases hresponse with
      | any hcount hcounts hrange h =>
        have hparts := List.forall₂_iff_zip.2 ⟨hcount, fun hpart => h _ hpart⟩
        exact ⟨(_, _), ⟨⟨hcounts, hrange⟩, hparts⟩, rfl⟩

/-- **The responses to a statement have encodings of one length, which tell them
apart.** -/
theorem Accepted.fixedResponse (h : s.Accepted)
    (encoding : s.space.family = .field → PrimeGroup.InjectiveEncoding G) :
    Fixed s.protocol.encodeResponse s.responseLength s.ResponseOf := by
  induction h with
  | modP s =>
    have hscalar := s.space.fixed_challenge
    exact hscalar.map Response.scalar (fun _ => rfl) fun | .modP h => ⟨_, h, rfl⟩
  | discreteLog s =>
    exact PrimeGroup.fixed_scalar.map Response.scalar (fun _ => rfl)
      fun | .discreteLog h => ⟨_, h, rfl⟩
  | allOf h _ ih =>
    obtain ⟨first, rest, rfl, rfl, hspace⟩ := allOf_eq_ok h
    have hparts := (FixedParts.each fun part hpart =>
      ih part hpart (hspace part hpart ▸ encoding)).frames
    rw [List.map_cons, ← responseLengths_eq] at hparts
    refine hparts.map Response.all (fun rs => ?_) fun | .conjunction h => ⟨_, h, rfl⟩
    exact encodeParts_protocols (·.encodeResponse) (first :: rest) rs
  | @anyOf left right _ h _ _ ihleft ihright =>
    obtain ⟨rfl, hspace⟩ := anyOf_eq_ok h
    have hparts := ((FixedParts.single left.space.fixed_challenge).append
      ((FixedParts.single (ihleft encoding)).append
        (FixedParts.single (ihright (hspace ▸ encoding))))).frames
    refine hparts.map (fun parts => Response.any [parts.1] [parts.2.1, parts.2.2])
      (fun parts => ?_)
      fun | .disjunction hlc hleft hright => ⟨(_, _, _), ⟨hlc, hleft, hright⟩, rfl⟩
    rw [← left.space_protocol]
    simp only [bind_map_left, map_bind, map_pure, bind_assoc, pure_bind]
    rfl
  | ofFormula h _ ih =>
    obtain ⟨space, rfl, hgates⟩ := ofFormula_eq_ok h
    have hfixed : Fixed (FormulaProof.encodeResponse space (formulaProtocols _))
        (gateResponseLength space _) (GateResponseOf space _) := fixed_gate_response
      fun leaf hleaf => ih leaf hleaf (hgates.space_eq leaf hleaf ▸ encoding)
    exact hfixed.map id (fun _ => rfl) fun | .formula h => ⟨_, h, rfl⟩
  | sealedBy scheme hinner ih =>
    have hparts := ((FixedParts.single (ih encoding)).append
      ((FixedParts.single (hinner.fixedAnnouncement encoding)).append
        (FixedParts.single HashCommitment.fixed_bytes))).frames
    refine hparts.map (fun parts => Response.opening parts.1 parts.2.1 parts.2.2)
      (fun parts => ?_) fun | .sealed hr ha ho => ⟨(_, _, _), ⟨hr, ha, ho⟩, rfl⟩
    simp only [bind_map_left, map_bind, map_pure, bind_assoc, pure_bind]
    rfl

end Statement
end ThreeMove

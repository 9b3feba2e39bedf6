/-
# Every message of a statement has one encoding

`Statement.AnnouncementOf` and `Statement.ResponseOf` say which messages a
statement has: one part for each branch, gates as in the formula, a share for
every child of an `any` gate but the last, and numbers in range.  For every
statement that can be built, what decodes is the encoding of the message it
decodes to, and every message of the statement is restored from its encoding
(`Accepted.unique_encoding`).
-/

import ThreeMove.Proofs.Protocol.Encoding
import ThreeMove.Proofs.Statement.Promises

namespace ThreeMove
namespace Statement

variable {G : Type} [PrimeGroup G] {s : Statement G}

mutual

/-- The announcements of a statement. -/
inductive AnnouncementOf : Statement G → Announcement G → Prop where
  | modP {s : ModP} {t : Nat} (hpos : 0 < t) (hlt : t < s.p) :
      AnnouncementOf (.modP s) (.residue t)
  | discreteLog {s : DiscreteLog G} {ts : List G} (h : ts.length = s.bases.length) :
      AnnouncementOf (.discreteLog s) (.elements ts)
  | conjunction {first : Statement G} {rest : List (Statement G)} {as : List (Announcement G)}
      (h : List.Forall₂ AnnouncementOf (first :: rest) as) :
      AnnouncementOf (.conjunction first rest) (.all as)
  | disjunction {left right : Statement G} {la ra : Announcement G}
      (hleft : AnnouncementOf left la) (hright : AnnouncementOf right ra) :
      AnnouncementOf (.disjunction left right) (.any [la, ra])
  | formula {space : ChallengeSpace} {gates : Formula (Statement G)} {a : Announcement G}
      (h : GateAnnouncementOf gates a) : AnnouncementOf (.formula space gates) a
  | sealed {scheme : HashCommitment} {inner : Statement G} {digest : Bytes}
      (h : digest.length = HashCommitment.length) :
      AnnouncementOf (.sealed scheme inner) (.commitment digest)

/-- The announcements of a formula of statements. -/
inductive GateAnnouncementOf : Formula (Statement G) → Announcement G → Prop where
  | leaf {name : String} {s : Statement G} {a : Announcement G} (h : AnnouncementOf s a) :
      GateAnnouncementOf (.leaf name s) (.leaf a)
  | all {children : List (Formula (Statement G))} {as : List (Announcement G)}
      (h : List.Forall₂ GateAnnouncementOf children as) :
      GateAnnouncementOf (.all children) (.all as)
  | any {children : List (Formula (Statement G))} {as : List (Announcement G)}
      (h : List.Forall₂ GateAnnouncementOf children as) :
      GateAnnouncementOf (.any children) (.any as)

end

mutual

/-- The responses to a statement. -/
inductive ResponseOf : Statement G → Response G → Prop where
  | modP {s : ModP} {r : Nat} (h : r < s.q) : ResponseOf (.modP s) (.scalar r)
  | discreteLog {s : DiscreteLog G} {r : Nat} (h : r < PrimeGroup.order G) :
      ResponseOf (.discreteLog s) (.scalar r)
  | conjunction {first : Statement G} {rest : List (Statement G)} {rs : List (Response G)}
      (h : List.Forall₂ ResponseOf (first :: rest) rs) :
      ResponseOf (.conjunction first rest) (.all rs)
  | disjunction {left right : Statement G} {lc : Nat} {lr rr : Response G}
      (hlc : lc < left.space.modulus) (hleft : ResponseOf left lr) (hright : ResponseOf right rr) :
      ResponseOf (.disjunction left right) (.any [lc] [lr, rr])
  | formula {space : ChallengeSpace} {gates : Formula (Statement G)} {r : Response G}
      (h : GateResponseOf space gates r) : ResponseOf (.formula space gates) r
  | sealed {scheme : HashCommitment} {inner : Statement G} {r : Response G} {a : Announcement G}
      {opening : Bytes} (hr : ResponseOf inner r) (ha : AnnouncementOf inner a)
      (ho : opening.length = HashCommitment.length) :
      ResponseOf (.sealed scheme inner) (.opening r a opening)

/-- The responses to a formula of statements with challenges from `space`. -/
inductive GateResponseOf : ChallengeSpace → Formula (Statement G) → Response G → Prop where
  | leaf {space : ChallengeSpace} {name : String} {s : Statement G} {r : Response G}
      (h : ResponseOf s r) : GateResponseOf space (.leaf name s) (.leaf r)
  | all {space : ChallengeSpace} {children : List (Formula (Statement G))}
      {rs : List (Response G)} (hcount : children.length = rs.length)
      (h : ∀ part ∈ children.zip rs, GateResponseOf space part.1 part.2) :
      GateResponseOf space (.all children) (.all rs)
  | any {space : ChallengeSpace} {children : List (Formula (Statement G))} {shares : List Nat}
      {rs : List (Response G)} (hcount : children.length = rs.length)
      (hshares : shares.length + 1 = children.length)
      (hrange : ∀ share ∈ shares, share < space.modulus)
      (h : ∀ part ∈ children.zip rs, GateResponseOf space part.1 part.2) :
      GateResponseOf space (.any children) (.any shares rs)

end

/-- What holds of each part and its message holds of their protocols in order. -/
theorem forall₂_protocols {M : Type} {P : Statement G → M → Prop} {Q : Protocol G → M → Prop}
    {parts : List (Statement G)} {ms : List M} (h : List.Forall₂ P parts ms)
    (hpart : ∀ part ∈ parts, ∀ m, P part m → Q part.protocol m) :
    List.Forall₂ Q (protocols parts) ms := by
  rw [protocols_eq, List.forall₂_map_left_iff]
  induction h with
  | nil => exact .nil
  | cons hm _ ih =>
    rw [List.forall_mem_cons] at hpart
    exact .cons (hpart.1 _ hm) (ih hpart.2)

/-- What holds of each child and its message holds of the children's protocols. -/
theorem forall₂_formulasProtocols {M : Type} {P : Formula (Statement G) → M → Prop}
    {Q : Formula (Protocol G) → M → Prop} {children : List (Formula (Statement G))} {ms : List M}
    (h : List.Forall₂ P children ms)
    (hchild : ∀ child ∈ children, ∀ m, P child m → Q (formulaProtocols child) m) :
    List.Forall₂ Q (formulasProtocols children) ms := by
  rw [formulasProtocols_eq, List.forall₂_map_left_iff]
  induction h with
  | nil => exact .nil
  | cons hm _ ih =>
    rw [List.forall_mem_cons] at hchild
    exact .cons (hchild.1 _ hm) (ih hchild.2)

/-- What decodes is the encoding of what it decodes to. -/
theorem Accepted.canonical (h : s.Accepted)
    (exact : s.space.family = .field → PrimeGroup.ExactEncoding G) : s.protocol.Canonical := by
  induction h with
  | modP s => exact s.canonical
  | discreteLog s => exact s.canonical (exact rfl)
  | allOf h _ ih =>
    obtain ⟨first, rest, rfl, rfl, hspace⟩ := allOf_eq_ok h
    refine Conjunction.canonical (forall_mem_branches.2 fun part hpart => ?_)
    exact ih part hpart (hspace part hpart ▸ exact)
  | anyOf h _ _ ihleft ihright =>
    obtain ⟨rfl, hspace⟩ := anyOf_eq_ok h
    exact Disjunction.canonical (ihleft exact) (ihright (hspace ▸ exact))
  | ofFormula h _ ih =>
    obtain ⟨space, rfl, hgates⟩ := ofFormula_eq_ok h
    refine FormulaProof.canonical _ (forall_mem_leaves_formulaProtocols.2 fun leaf hleaf => ?_)
    exact ih leaf hleaf (hgates.space_eq leaf hleaf ▸ exact)
  | sealedBy scheme _ ih => exact Sealed.canonical (ih exact)

/-- The announcements of a formula are restored if those of its leaves are. -/
theorem restores_gate_announcement {space : ChallengeSpace} (gates : Formula (Statement G))
    (h : ∀ leaf ∈ gates.leaves, ∀ a, AnnouncementOf leaf.2 a →
      leaf.2.protocol.RestoresAnnouncement a) (a : Announcement G)
    (ha : GateAnnouncementOf gates a) :
    (FormulaProof.protocol space (formulaProtocols gates)).RestoresAnnouncement a := by
  induction gates using Formula.induction generalizing a with
  | leaf name s =>
    cases ha with
    | leaf ha =>
      have hs : Codec.Restores s.protocol.encodeAnnouncement s.protocol.decodeAnnouncement _ :=
        h (name, s) (List.mem_singleton_self _) _ ha
      exact hs.map Announcement.leaf fun _ => rfl
  | all children ih =>
    have hchildren := Formula.forall_mem_leavesOf.1 h
    cases ha with
    | all ha =>
      refine (FormulaProof.restores_announcements ?_).map Announcement.all fun _ => rfl
      exact forall₂_formulasProtocols ha fun child hchild =>
        ih child hchild (hchildren child hchild)
  | any children ih =>
    have hchildren := Formula.forall_mem_leavesOf.1 h
    cases ha with
    | any ha =>
      refine (FormulaProof.restores_announcements ?_).map Announcement.any fun _ => rfl
      exact forall₂_formulasProtocols ha fun child hchild =>
        ih child hchild (hchildren child hchild)

/-- The responses to a formula are restored if those to its leaves are. -/
theorem restores_gate_response {space : ChallengeSpace} (gates : Formula (Statement G))
    (h : ∀ leaf ∈ gates.leaves, ∀ r, ResponseOf leaf.2 r → leaf.2.protocol.RestoresResponse r)
    (r : Response G) (hr : GateResponseOf space gates r) :
    (FormulaProof.protocol space (formulaProtocols gates)).RestoresResponse r := by
  induction gates using Formula.induction generalizing r with
  | leaf name s =>
    cases hr with
    | leaf hr =>
      have hs : Codec.Restores s.protocol.encodeResponse s.protocol.decodeResponse _ :=
        h (name, s) (List.mem_singleton_self _) _ hr
      exact hs.map Response.leaf fun _ => rfl
  | all children ih =>
    have hchildren := Formula.forall_mem_leavesOf.1 h
    cases hr with
    | all hcount hr =>
      refine FormulaProof.restores_all_response ?_
      exact forall₂_formulasProtocols (List.forall₂_iff_zip.2 ⟨hcount, fun h => hr _ h⟩)
        fun child hchild => ih child hchild (hchildren child hchild)
  | any children ih =>
    have hchildren := Formula.forall_mem_leavesOf.1 h
    cases hr with
    | any hcount hshares hrange hr =>
      refine FormulaProof.restores_any_response ?_ hrange ?_
      · rw [hshares, formulasProtocols_eq, List.length_map]
      · exact forall₂_formulasProtocols (List.forall₂_iff_zip.2 ⟨hcount, fun h => hr _ h⟩)
          fun child hchild => ih child hchild (hchildren child hchild)

/-- The announcements of a statement are restored from their encodings. -/
theorem Accepted.restoresAnnouncement (h : s.Accepted)
    (exact : s.space.family = .field → PrimeGroup.ExactEncoding G) (a : Announcement G)
    (ha : s.AnnouncementOf a) : s.protocol.RestoresAnnouncement a := by
  induction h generalizing a with
  | modP s =>
    cases ha with
    | modP hpos hlt => exact s.restores_residue hpos hlt
  | discreteLog s =>
    cases ha with
    | discreteLog h => exact s.restores_elements (exact rfl) h
  | allOf h _ ih =>
    obtain ⟨first, rest, rfl, rfl, hspace⟩ := allOf_eq_ok h
    cases ha with
    | conjunction ha =>
      refine Conjunction.restores_announcement (forall₂_protocols ha fun part hpart => ?_)
      exact ih part hpart (hspace part hpart ▸ exact)
  | anyOf h _ _ ihleft ihright =>
    obtain ⟨rfl, hspace⟩ := anyOf_eq_ok h
    cases ha with
    | disjunction hleft hright =>
      exact Disjunction.restores_announcement (ihleft exact _ hleft)
        (ihright (hspace ▸ exact) _ hright)
  | ofFormula h _ ih =>
    obtain ⟨space, rfl, hgates⟩ := ofFormula_eq_ok h
    cases ha with
    | formula ha =>
      refine restores_gate_announcement _ (fun leaf hleaf => ?_) a ha
      exact ih leaf hleaf (hgates.space_eq leaf hleaf ▸ exact)
  | sealedBy scheme _ ih =>
    cases ha with
    | sealed h => exact Sealed.restores_announcement h

/-- The responses of a statement are restored from their encodings. -/
theorem Accepted.restoresResponse (h : s.Accepted)
    (exact : s.space.family = .field → PrimeGroup.ExactEncoding G) (r : Response G)
    (hr : s.ResponseOf r) : s.protocol.RestoresResponse r := by
  induction h generalizing r with
  | modP s =>
    cases hr with
    | modP h => exact s.restores_scalar h
  | discreteLog s =>
    cases hr with
    | discreteLog h => exact s.restores_scalar h
  | allOf h _ ih =>
    obtain ⟨first, rest, rfl, rfl, hspace⟩ := allOf_eq_ok h
    cases hr with
    | conjunction hr =>
      refine Conjunction.restores_response (forall₂_protocols hr fun part hpart => ?_)
      exact ih part hpart (hspace part hpart ▸ exact)
  | anyOf h _ _ ihleft ihright =>
    obtain ⟨rfl, hspace⟩ := anyOf_eq_ok h
    cases hr with
    | disjunction hlc hleft hright =>
      refine Disjunction.restores_response ?_ (ihleft exact _ hleft)
        (ihright (hspace ▸ exact) _ hright)
      rwa [space_protocol]
  | ofFormula h _ ih =>
    obtain ⟨space, rfl, hgates⟩ := ofFormula_eq_ok h
    cases hr with
    | formula hr =>
      refine restores_gate_response _ (fun leaf hleaf => ?_) r hr
      exact ih leaf hleaf (hgates.space_eq leaf hleaf ▸ exact)
  | sealedBy scheme hinner ih =>
    cases hr with
    | sealed hr ha ho =>
      exact Sealed.restores_response (ih exact _ hr) (hinner.restoresAnnouncement exact _ ha) ho

/-- **Every message has one encoding.**  A byte string that decodes to an
announcement or to a response is what this is encoded to, so no other decodes to
it; and every message of the statement has an encoding, from which it is restored
unless it takes 4 GiB. -/
theorem Accepted.unique_encoding (h : s.Accepted)
    (exact : s.space.family = .field → PrimeGroup.ExactEncoding G) :
    (∀ data a, s.protocol.decodeAnnouncement data = .ok a →
      s.protocol.encodeAnnouncement a = .ok data ∧
        ∀ data', s.protocol.decodeAnnouncement data' = .ok a → data' = data) ∧
    (∀ data r, s.protocol.decodeResponse data = .ok r →
      s.protocol.encodeResponse r = .ok data ∧
        ∀ data', s.protocol.decodeResponse data' = .ok r → data' = data) ∧
    (∀ a, s.AnnouncementOf a → ∃ data, s.protocol.encodeAnnouncement a = .ok data ∧
      (data.length < 2 ^ 32 → s.protocol.decodeAnnouncement data = .ok a)) ∧
    ∀ r, s.ResponseOf r → ∃ data, s.protocol.encodeResponse r = .ok data ∧
      (data.length < 2 ^ 32 → s.protocol.decodeResponse data = .ok r) := by
  have hcanonical := h.canonical exact
  refine ⟨fun data a ha => ?_, fun data r hr => ?_, fun a ha => ?_, fun r hr => ?_⟩
  · exact ⟨hcanonical.announcement data a ha,
      fun data' ha' => hcanonical.announcement.eq_of_decode ha' ha⟩
  · exact ⟨hcanonical.response data r hr,
      fun data' hr' => hcanonical.response.eq_of_decode hr' hr⟩
  · exact h.restoresAnnouncement exact a ha
  · exact h.restoresResponse exact r hr

/-- The hypotheses are satisfiable: over residues by a formula, and over scalars by
a disjunction, whose messages have the encodings shown and are restored from them. -/
theorem unique_encoding_sixOrSeven_twoOrThree :
    sixOrSeven.protocol.decodeResponse [0, 0, 0, 1, 3, 0, 0, 0, 1, 0, 0, 0, 0, 1, 10] =
      .ok (.any [3] [.leaf (.scalar 0), .leaf (.scalar 10)]) ∧
    ∃ data, twoOrThree.protocol.encodeAnnouncement (.any [.elements [⟨1⟩, ⟨2⟩], .elements [⟨3⟩]]) =
        .ok data ∧ twoOrThree.protocol.decodeAnnouncement data =
          .ok (.any [.elements [⟨1⟩, ⟨2⟩], .elements [⟨3⟩]]) := by
  have hresidues := Accepted.unique_encoding accepted_sixOrSeven nofun
  have hscalars := Accepted.unique_encoding accepted_twoOrThree fun _ => Cyclic.exactEncoding
  constructor
  · have hresponse : sixOrSeven.ResponseOf (.any [3] [.leaf (.scalar 0), .leaf (.scalar 10)]) := by
      refine .formula (.any rfl rfl (by decide) fun part hpart => ?_)
      obtain rfl | rfl := List.mem_pair.1 hpart
      · exact .leaf (.modP (by decide))
      · exact .leaf (.modP (by decide))
    obtain ⟨data, hdata, hrestored⟩ := hresidues.2.2.2 _ hresponse
    obtain rfl : [0, 0, 0, 1, 3, 0, 0, 0, 1, 0, 0, 0, 0, 1, 10] = data := Except.ok.inj hdata
    exact hrestored (by decide)
  · have hannouncement : twoOrThree.AnnouncementOf
        (.any [.elements [⟨1⟩, ⟨2⟩], .elements [⟨3⟩]]) :=
      .disjunction (.discreteLog rfl) (.discreteLog rfl)
    obtain ⟨data, hdata, hrestored⟩ := hscalars.2.2.1 _ hannouncement
    refine ⟨data, hdata, hrestored ?_⟩
    obtain rfl := Except.ok.inj hdata
    decide +kernel

end Statement
end ThreeMove

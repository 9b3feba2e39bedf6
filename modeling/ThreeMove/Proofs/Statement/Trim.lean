/-
# Messages without surplus parts

An encoder writes the parts of a message as far as there are parts of the statement,
and drops the others.  `Statement.TrimAnnouncement` and `Statement.TrimResponse` hold of
messages that lose nothing so.  Of these the decoder reads just those of the statement
(`Accepted.vouchesAnnouncement`, `Accepted.vouchesResponse`), and so does the verifier
when it accepts a transcript (`Accepted.matches_of_check`), with one exception: it
computes with the challenges that a response shows without asking whether they are
reduced.  `Statement.Reduced` is what the decoder asks beyond the verifier.
-/

import ThreeMove.Proofs.Protocol.Vouching
import ThreeMove.Proofs.Statement.Parts
import ThreeMove.Proofs.Statement.Verdict

namespace ThreeMove
namespace Statement

variable {G : Type} [PrimeGroup G] {s : Statement G}

mutual

/-- The announcement has no parts beyond those of the statement. -/
inductive TrimAnnouncement : Statement G → Announcement G → Prop where
  | modP {s : ModP} {t : Nat} : TrimAnnouncement (.modP s) (.residue t)
  | discreteLog {s : DiscreteLog G} {ts : List G} :
      TrimAnnouncement (.discreteLog s) (.elements ts)
  | conjunction {first : Statement G} {rest : List (Statement G)} {as : List (Announcement G)}
      (hcount : as.length ≤ (first :: rest).length)
      (h : ∀ part ∈ (first :: rest).zip as, TrimAnnouncement part.1 part.2) :
      TrimAnnouncement (.conjunction first rest) (.all as)
  | disjunction {left right : Statement G} {la ra : Announcement G}
      (hleft : TrimAnnouncement left la) (hright : TrimAnnouncement right ra) :
      TrimAnnouncement (.disjunction left right) (.any [la, ra])
  | formula {space : ChallengeSpace} {gates : Formula (Statement G)} {a : Announcement G}
      (h : GateTrimAnnouncement gates a) : TrimAnnouncement (.formula space gates) a
  | sealed {scheme : HashCommitment} {inner : Statement G} {digest : Bytes} :
      TrimAnnouncement (.sealed scheme inner) (.commitment digest)

/-- The announcement has no parts beyond those of the formula. -/
inductive GateTrimAnnouncement : Formula (Statement G) → Announcement G → Prop where
  | leaf {name : String} {s : Statement G} {a : Announcement G} (h : TrimAnnouncement s a) :
      GateTrimAnnouncement (.leaf name s) (.leaf a)
  | all {children : List (Formula (Statement G))} {as : List (Announcement G)}
      (hcount : as.length ≤ children.length)
      (h : ∀ part ∈ children.zip as, GateTrimAnnouncement part.1 part.2) :
      GateTrimAnnouncement (.all children) (.all as)
  | any {children : List (Formula (Statement G))} {as : List (Announcement G)}
      (hcount : as.length ≤ children.length)
      (h : ∀ part ∈ children.zip as, GateTrimAnnouncement part.1 part.2) :
      GateTrimAnnouncement (.any children) (.any as)

end

mutual

/-- The response has no parts beyond those of the statement. -/
inductive TrimResponse : Statement G → Response G → Prop where
  | modP {s : ModP} {r : Nat} : TrimResponse (.modP s) (.scalar r)
  | discreteLog {s : DiscreteLog G} {r : Nat} : TrimResponse (.discreteLog s) (.scalar r)
  | conjunction {first : Statement G} {rest : List (Statement G)} {rs : List (Response G)}
      (hcount : rs.length ≤ (first :: rest).length)
      (h : ∀ part ∈ (first :: rest).zip rs, TrimResponse part.1 part.2) :
      TrimResponse (.conjunction first rest) (.all rs)
  | disjunction {left right : Statement G} {lc : Nat} {lr rr : Response G}
      (hleft : TrimResponse left lr) (hright : TrimResponse right rr) :
      TrimResponse (.disjunction left right) (.any [lc] [lr, rr])
  | formula {space : ChallengeSpace} {gates : Formula (Statement G)} {r : Response G}
      (h : GateTrimResponse gates r) : TrimResponse (.formula space gates) r
  | sealed {scheme : HashCommitment} {inner : Statement G} {r : Response G} {a : Announcement G}
      {opening : Bytes} (hr : TrimResponse inner r) (ha : TrimAnnouncement inner a) :
      TrimResponse (.sealed scheme inner) (.opening r a opening)

/-- The response has no parts and no shares beyond those of the formula. -/
inductive GateTrimResponse : Formula (Statement G) → Response G → Prop where
  | leaf {name : String} {s : Statement G} {r : Response G} (h : TrimResponse s r) :
      GateTrimResponse (.leaf name s) (.leaf r)
  | all {children : List (Formula (Statement G))} {rs : List (Response G)}
      (hcount : rs.length ≤ children.length)
      (h : ∀ part ∈ children.zip rs, GateTrimResponse part.1 part.2) :
      GateTrimResponse (.all children) (.all rs)
  | any {children : List (Formula (Statement G))} {shares : List Nat} {rs : List (Response G)}
      (hshares : shares.length + 1 ≤ children.length) (hcount : rs.length ≤ children.length)
      (h : ∀ part ∈ children.zip rs, GateTrimResponse part.1 part.2) :
      GateTrimResponse (.any children) (.any shares rs)

end

mutual

/-- The challenges and scalars that the response shows are reduced, as far as the verifier
does not ask for it, and openings have their length. -/
inductive Reduced : Statement G → Response G → Prop where
  | modP {s : ModP} {r : Nat} : Reduced (.modP s) (.scalar r)
  | discreteLog {s : DiscreteLog G} {r : Nat} (h : r < PrimeGroup.order G) :
      Reduced (.discreteLog s) (.scalar r)
  | conjunction {first : Statement G} {rest : List (Statement G)} {rs : List (Response G)}
      (h : ∀ part ∈ (first :: rest).zip rs, Reduced part.1 part.2) :
      Reduced (.conjunction first rest) (.all rs)
  | disjunction {left right : Statement G} {lc : Nat} {lr rr : Response G}
      (hlc : lc < left.space.modulus) (hleft : Reduced left lr) (hright : Reduced right rr) :
      Reduced (.disjunction left right) (.any [lc] [lr, rr])
  | formula {space : ChallengeSpace} {gates : Formula (Statement G)} {r : Response G}
      (h : GateReduced space gates r) : Reduced (.formula space gates) r
  | sealed {scheme : HashCommitment} {inner : Statement G} {r : Response G} {a : Announcement G}
      {opening : Bytes} (hr : Reduced inner r) (ho : opening.length = HashCommitment.length) :
      Reduced (.sealed scheme inner) (.opening r a opening)

/-- The shares that the response to a formula shows are reduced, and so are its parts. -/
inductive GateReduced : ChallengeSpace → Formula (Statement G) → Response G → Prop where
  | leaf {space : ChallengeSpace} {name : String} {s : Statement G} {r : Response G}
      (h : Reduced s r) : GateReduced space (.leaf name s) (.leaf r)
  | all {space : ChallengeSpace} {children : List (Formula (Statement G))}
      {rs : List (Response G)} (h : ∀ part ∈ children.zip rs, GateReduced space part.1 part.2) :
      GateReduced space (.all children) (.all rs)
  | any {space : ChallengeSpace} {children : List (Formula (Statement G))} {shares : List Nat}
      {rs : List (Response G)} (hrange : ∀ share ∈ shares, share < space.modulus)
      (h : ∀ part ∈ children.zip rs, GateReduced space part.1 part.2) :
      GateReduced space (.any children) (.any shares rs)

end

/-! ### What is read is a message of the statement -/

/-- The trim announcements of a formula are vouched for if those of its leaves are. -/
theorem vouches_gate_announcement {gates : Formula (Statement G)}
    (h : ∀ leaf ∈ gates.leaves, ∀ a, leaf.2.TrimAnnouncement a →
      Codec.Vouches leaf.2.protocol.encodeAnnouncement leaf.2.protocol.decodeAnnouncement a
        (leaf.2.AnnouncementOf a)) (a : Announcement G) (ha : GateTrimAnnouncement gates a) :
    Codec.Vouches (FormulaProof.encodeAnnouncement (formulaProtocols gates))
      (FormulaProof.decodeAnnouncement (formulaProtocols gates)) a
      (GateAnnouncementOf gates a) := by
  induction gates using Formula.induction generalizing a with
  | leaf name s =>
    cases ha with
    | leaf ha =>
      have hs := h (name, s) (List.mem_singleton_self _) _ ha
      exact (hs.map Announcement.leaf fun _ => rfl).imp .leaf
  | all children ih =>
    have hleaves := Formula.forall_mem_leavesOf.1 h
    cases ha with
    | all hcount ha =>
      rw [formulaProtocols, formulasProtocols_eq]
      have hparts := FormulaProof.vouches_announcements formulaProtocols hcount fun part hpart =>
        ih part.1 (List.of_mem_zip hpart).1 (hleaves _ (List.of_mem_zip hpart).1) _ (ha part hpart)
      exact (hparts.map Announcement.all fun _ => rfl).imp .all
  | any children ih =>
    have hleaves := Formula.forall_mem_leavesOf.1 h
    cases ha with
    | any hcount ha =>
      rw [formulaProtocols, formulasProtocols_eq]
      have hparts := FormulaProof.vouches_announcements formulaProtocols hcount fun part hpart =>
        ih part.1 (List.of_mem_zip hpart).1 (hleaves _ (List.of_mem_zip hpart).1) _ (ha part hpart)
      exact (hparts.map Announcement.any fun _ => rfl).imp .any

/-- The trim responses to a formula are vouched for if those to its leaves are. -/
theorem vouches_gate_response {space : ChallengeSpace} {gates : Formula (Statement G)}
    (h : ∀ leaf ∈ gates.leaves, ∀ r, leaf.2.TrimResponse r →
      Codec.Vouches leaf.2.protocol.encodeResponse leaf.2.protocol.decodeResponse r
        (leaf.2.ResponseOf r)) (r : Response G) (hr : GateTrimResponse gates r) :
    Codec.Vouches (FormulaProof.encodeResponse space (formulaProtocols gates))
      (FormulaProof.decodeResponse space (formulaProtocols gates)) r
      (GateResponseOf space gates r) := by
  induction gates using Formula.induction generalizing r with
  | leaf name s =>
    cases hr with
    | leaf hr =>
      have hs := h (name, s) (List.mem_singleton_self _) _ hr
      exact (hs.map Response.leaf fun _ => rfl).imp .leaf
  | all children ih =>
    have hleaves := Formula.forall_mem_leavesOf.1 h
    cases hr with
    | all hcount hr =>
      rw [formulaProtocols, formulasProtocols_eq]
      have hparts := FormulaProof.vouches_all_response space formulaProtocols hcount
        fun part hpart => ih part.1 (List.of_mem_zip hpart).1
          (hleaves _ (List.of_mem_zip hpart).1) _ (hr part hpart)
      exact hparts.imp fun h => .all h.length_eq fun part hpart => List.forall₂_zip h hpart
  | any children ih =>
    have hleaves := Formula.forall_mem_leavesOf.1 h
    cases hr with
    | any hshares hcount hr =>
      rw [formulaProtocols, formulasProtocols_eq]
      have hparts := FormulaProof.vouches_any_response space formulaProtocols hshares hcount
        fun part hpart => ih part.1 (List.of_mem_zip hpart).1
          (hleaves _ (List.of_mem_zip hpart).1) _ (hr part hpart)
      refine hparts.imp fun hresponse => ?_
      obtain ⟨hexact, hrange, h⟩ := hresponse
      exact .any h.length_eq hexact hrange fun part hpart => List.forall₂_zip h hpart

/-- A trim announcement is read only if it is one of the statement. -/
theorem Accepted.vouchesAnnouncement (h : s.Accepted)
    (exact : s.space.family = .field → PrimeGroup.ExactEncoding G) (a : Announcement G)
    (ha : s.TrimAnnouncement a) :
    Codec.Vouches s.protocol.encodeAnnouncement s.protocol.decodeAnnouncement a
      (s.AnnouncementOf a) := by
  induction h generalizing a with
  | modP s =>
    cases ha with
    | modP => exact (s.vouches_residue _).imp fun ⟨hpos, hlt⟩ => .modP hpos hlt
  | discreteLog s =>
    cases ha with
    | discreteLog => exact (s.vouches_elements (exact rfl) _).imp .discreteLog
  | allOf h _ ih =>
    obtain ⟨first, rest, rfl, rfl, hspace⟩ := allOf_eq_ok h
    cases ha with
    | conjunction hcount ha =>
      rw [protocol, protocols_eq]
      have hparts := Conjunction.vouches_announcement protocol hcount fun part hpart =>
        have hmem := (List.of_mem_zip hpart).1
        ih part.1 hmem (hspace _ hmem ▸ exact) _ (ha part hpart)
      exact hparts.imp .conjunction
  | anyOf h _ _ ihleft ihright =>
    obtain ⟨rfl, hspace⟩ := anyOf_eq_ok h
    cases ha with
    | disjunction hleft hright =>
      exact (Disjunction.vouches_announcement (ihleft exact _ hleft)
        (ihright (hspace ▸ exact) _ hright)).imp fun ⟨hleft, hright⟩ => .disjunction hleft hright
  | ofFormula h _ ih =>
    obtain ⟨space, rfl, hgates⟩ := ofFormula_eq_ok h
    cases ha with
    | formula ha =>
      refine (vouches_gate_announcement (fun leaf hleaf => ?_) a ha).imp .formula
      exact ih leaf hleaf (hgates.space_eq leaf hleaf ▸ exact)
  | sealedBy scheme _ _ =>
    cases ha with
    | sealed => exact (Sealed.vouches_announcement _).imp .sealed

/-- A trim response is read only if it is one to the statement. -/
theorem Accepted.vouchesResponse (h : s.Accepted)
    (exact : s.space.family = .field → PrimeGroup.ExactEncoding G) (r : Response G)
    (hr : s.TrimResponse r) :
    Codec.Vouches s.protocol.encodeResponse s.protocol.decodeResponse r (s.ResponseOf r) := by
  induction h generalizing r with
  | modP s =>
    cases hr with
    | modP => exact (s.vouches_scalar _).imp .modP
  | discreteLog s =>
    cases hr with
    | discreteLog => exact (s.vouches_scalar _).imp .discreteLog
  | allOf h _ ih =>
    obtain ⟨first, rest, rfl, rfl, hspace⟩ := allOf_eq_ok h
    cases hr with
    | conjunction hcount hr =>
      rw [protocol, protocols_eq]
      have hparts := Conjunction.vouches_response protocol hcount fun part hpart =>
        have hmem := (List.of_mem_zip hpart).1
        ih part.1 hmem (hspace _ hmem ▸ exact) _ (hr part hpart)
      exact hparts.imp .conjunction
  | anyOf h _ _ ihleft ihright =>
    obtain ⟨rfl, hspace⟩ := anyOf_eq_ok h
    cases hr with
    | @disjunction _ _ lc _ _ hleft hright =>
      have hparts := Disjunction.vouches_response lc (ihleft exact _ hleft)
        (ihright (hspace ▸ exact) _ hright)
      rw [space_protocol] at hparts
      exact hparts.imp fun ⟨hlc, hleft, hright⟩ => .disjunction hlc hleft hright
  | ofFormula h _ ih =>
    obtain ⟨space, rfl, hgates⟩ := ofFormula_eq_ok h
    cases hr with
    | formula hr =>
      refine (vouches_gate_response (fun leaf hleaf => ?_) r hr).imp .formula
      exact ih leaf hleaf (hgates.space_eq leaf hleaf ▸ exact)
  | sealedBy scheme hinner ih =>
    cases hr with
    | sealed hr ha =>
      exact (Sealed.vouches_response _ (ih exact _ hr) (hinner.vouchesAnnouncement exact _ ha)).imp
        fun ⟨hr, ha, ho⟩ => .sealed hr ha ho

/-! ### What is accepted is trim -/

/-- What the verifier finds out of the messages of a transcript it accepts.  Whether the
response is reduced is not among it. -/
structure Matches (s : Statement G) (a : Announcement G) (r : Response G) : Prop where
  announcement : s.AnnouncementOf a
  trimAnnouncement : s.TrimAnnouncement a
  trimResponse : s.TrimResponse r
  response : s.Reduced r → s.ResponseOf r

/-- The same of the messages of a formula. -/
structure GateMatches (space : ChallengeSpace) (gates : Formula (Statement G))
    (a : Announcement G) (r : Response G) : Prop where
  announcement : GateAnnouncementOf gates a
  trimAnnouncement : GateTrimAnnouncement gates a
  trimResponse : GateTrimResponse gates r
  response : GateReduced space gates r → GateResponseOf space gates r

/-- What is found of each child holds of each announcement and of each response. -/
theorem CheckedEach.matches {space : ChallengeSpace} {children : List (Formula (Statement G))}
    {as : List (Announcement G)} {cs : List Nat} {rs : List (Response G)}
    (h : CheckedEach space children as cs rs)
    (hchild : ∀ child ∈ children, ∀ {a c r},
      FormulaProof.check space (formulaProtocols child) a c r = .ok true →
        GateMatches space child a r) :
    (children.length = as.length ∧ ∀ part ∈ children.zip as,
        ∃ r, GateMatches space part.1 part.2 r) ∧
      children.length = rs.length ∧ ∀ part ∈ children.zip rs,
        ∃ a, GateMatches space part.1 a part.2 := by
  obtain ⟨has, hrs⟩ := h.forall₂
  refine ⟨⟨has.length_eq, fun part hpart => ?_⟩, hrs.length_eq, fun part hpart => ?_⟩
  · obtain ⟨c, r, hcheck⟩ := List.forall₂_zip has hpart
    exact ⟨r, hchild part.1 (List.of_mem_zip hpart).1 hcheck⟩
  · obtain ⟨a, c, hcheck⟩ := List.forall₂_zip hrs hpart
    exact ⟨a, hchild part.1 (List.of_mem_zip hpart).1 hcheck⟩

/-- Messages that are accepted match the formula if those accepted at its leaves match there. -/
theorem gateMatches_of_check {space : ChallengeSpace} {gates : Formula (Statement G)}
    (h : ∀ leaf ∈ gates.leaves, ∀ {a c r}, leaf.2.protocol.check a c r = .ok true →
      leaf.2.Matches a r) {a : Announcement G} {c : Nat} {r : Response G}
    (hcheck : FormulaProof.check space (formulaProtocols gates) a c r = .ok true) :
    GateMatches space gates a r := by
  induction gates using Formula.induction generalizing a c r with
  | leaf name s =>
    obtain ⟨a, r, rfl, rfl, hcheck⟩ := FormulaProof.of_check_leaf hcheck
    obtain ⟨ha, htrim, htrim', hr⟩ := h (name, s) (List.mem_singleton_self _) hcheck
    exact ⟨.leaf ha, .leaf htrim, .leaf htrim', fun | .leaf hreduced => .leaf (hr hreduced)⟩
  | all children ih =>
    have hleaves := Formula.forall_mem_leavesOf.1 h
    obtain ⟨as, rs, rfl, rfl, hchecked⟩ := of_check_all hcheck
    obtain ⟨⟨hcount, has⟩, hcount', hrs⟩ :=
      hchecked.matches fun child hchild => ih child hchild (hleaves child hchild)
    constructor
    · refine .all (List.forall₂_iff_zip.2 ⟨hcount, fun hpart => ?_⟩)
      obtain ⟨r, hmatches⟩ := has _ hpart
      exact hmatches.announcement
    · refine .all hcount.ge fun part hpart => ?_
      obtain ⟨r, hmatches⟩ := has part hpart
      exact hmatches.trimAnnouncement
    · refine .all hcount'.ge fun part hpart => ?_
      obtain ⟨a, hmatches⟩ := hrs part hpart
      exact hmatches.trimResponse
    · intro hreduced
      cases hreduced with
      | all hreduced =>
        refine .all hcount' fun part hpart => ?_
        obtain ⟨a, hmatches⟩ := hrs part hpart
        exact hmatches.response (hreduced part hpart)
  | any children ih =>
    have hleaves := Formula.forall_mem_leavesOf.1 h
    obtain ⟨as, shares, rs, rfl, rfl, hchecked⟩ := of_check_any hcheck
    obtain ⟨⟨hcount, has⟩, hcount', hrs⟩ :=
      hchecked.matches fun child hchild => ih child hchild (hleaves child hchild)
    have hshares := hchecked.length_challenges
    rw [List.length_append, List.length_singleton] at hshares
    constructor
    · refine .any (List.forall₂_iff_zip.2 ⟨hcount, fun hpart => ?_⟩)
      obtain ⟨r, hmatches⟩ := has _ hpart
      exact hmatches.announcement
    · refine .any hcount.ge fun part hpart => ?_
      obtain ⟨r, hmatches⟩ := has part hpart
      exact hmatches.trimAnnouncement
    · refine .any hshares.le hcount'.ge fun part hpart => ?_
      obtain ⟨a, hmatches⟩ := hrs part hpart
      exact hmatches.trimResponse
    · intro hreduced
      cases hreduced with
      | any hrange hreduced =>
        refine .any hcount' hshares hrange fun part hpart => ?_
        obtain ⟨a, hmatches⟩ := hrs part hpart
        exact hmatches.response (hreduced part hpart)

/-- The messages that the verifier accepts match the statement. -/
theorem Accepted.matches_of_check (h : s.Accepted) {a : Announcement G} {c : Nat} {r : Response G}
    (hcheck : s.protocol.check a c r = .ok true) : s.Matches a r := by
  induction h generalizing a c r with
  | modP s =>
    obtain ⟨t, r, rfl, rfl, haccepts⟩ := ModP.of_check hcheck
    obtain ⟨hpos, hlt, hr, -⟩ := s.accepts_iff.1 haccepts
    exact ⟨.modP hpos hlt, .modP, .modP, fun _ => .modP hr⟩
  | discreteLog s =>
    obtain ⟨ts, r, rfl, rfl, haccepts⟩ := DiscreteLog.of_check hcheck
    have hcount : ts.length = s.bases.length := by
      rw [DiscreteLog.accepts, Bool.and_eq_true, beq_iff_eq] at haccepts
      exact haccepts.1
    refine ⟨.discreteLog hcount, .discreteLog, .discreteLog, fun hreduced => ?_⟩
    cases hreduced with
    | discreteLog hr => exact .discreteLog hr
  | allOf h _ ih =>
    obtain ⟨first, rest, rfl, rfl, hspace⟩ := allOf_eq_ok h
    obtain ⟨as, rs, rfl, rfl, ⟨hcount, hcount'⟩, hchecks⟩ := Conjunction.of_check hcheck
    obtain ⟨has, hrs⟩ := Conjunction.forall₂_of_checkAll hcount hcount' hchecks
    rw [← protocols, protocols_eq, List.forall₂_map_left_iff] at has hrs
    constructor
    · refine .conjunction (List.forall₂_iff_zip.2 ⟨has.length_eq, fun hpart => ?_⟩)
      obtain ⟨r, hr⟩ := List.forall₂_zip has hpart
      exact (ih _ (List.of_mem_zip hpart).1 hr).announcement
    · refine .conjunction has.length_eq.ge fun part hpart => ?_
      obtain ⟨r, hr⟩ := List.forall₂_zip has hpart
      exact (ih _ (List.of_mem_zip hpart).1 hr).trimAnnouncement
    · refine .conjunction hrs.length_eq.ge fun part hpart => ?_
      obtain ⟨a, ha⟩ := List.forall₂_zip hrs hpart
      exact (ih _ (List.of_mem_zip hpart).1 ha).trimResponse
    · intro hreduced
      cases hreduced with
      | conjunction hreduced =>
        refine .conjunction (List.forall₂_iff_zip.2 ⟨hrs.length_eq, fun hpart => ?_⟩)
        obtain ⟨a, ha⟩ := List.forall₂_zip hrs hpart
        exact (ih _ (List.of_mem_zip hpart).1 ha).response (hreduced _ hpart)
  | anyOf h _ _ ihleft ihright =>
    obtain ⟨rfl, hspace⟩ := anyOf_eq_ok h
    obtain ⟨la, ra, lc, lr, rr, rfl, rfl, hleft, hright⟩ := Disjunction.of_check hcheck
    have hleft := ihleft hleft
    have hright := ihright hright
    refine ⟨.disjunction hleft.announcement hright.announcement,
      .disjunction hleft.trimAnnouncement hright.trimAnnouncement,
      .disjunction hleft.trimResponse hright.trimResponse, fun hreduced => ?_⟩
    cases hreduced with
    | disjunction hlc hl hr => exact .disjunction hlc (hleft.response hl) (hright.response hr)
  | ofFormula h _ ih =>
    obtain ⟨space, rfl, -⟩ := ofFormula_eq_ok h
    have hgates := gateMatches_of_check (fun leaf hleaf _ _ _ => ih leaf hleaf) hcheck
    refine ⟨.formula hgates.announcement, .formula hgates.trimAnnouncement,
      .formula hgates.trimResponse, fun hreduced => ?_⟩
    cases hreduced with
    | formula hreduced => exact .formula (hgates.response hreduced)
  | sealedBy scheme _ ih =>
    obtain ⟨digest, r, a, opening, rfl, rfl, hinner⟩ := Sealed.of_check hcheck
    obtain ⟨message, -, hdigest, -⟩ := Sealed.check_eq_ok_true.1 hcheck
    have hinner := ih hinner
    have hlength : digest.length = HashCommitment.length := hdigest ▸ length_sha3_256 _
    refine ⟨.sealed hlength, .sealed, .sealed hinner.trimResponse hinner.trimAnnouncement,
      fun hreduced => ?_⟩
    cases hreduced with
    | sealed hr ho => exact .sealed (hinner.response hr) hinner.announcement ho

/-- The responses of a formula are reduced if those of its leaves are. -/
theorem reduced_gate_of_responseOf {space : ChallengeSpace} {gates : Formula (Statement G)}
    (h : ∀ leaf ∈ gates.leaves, ∀ r, leaf.2.ResponseOf r → leaf.2.Reduced r) (r : Response G)
    (hr : GateResponseOf space gates r) : GateReduced space gates r := by
  induction gates using Formula.induction generalizing r with
  | leaf name s =>
    cases hr with
    | leaf hr => exact .leaf (h (name, s) (List.mem_singleton_self _) _ hr)
  | all children ih =>
    have hleaves := Formula.forall_mem_leavesOf.1 h
    cases hr with
    | all _ hr =>
      refine .all fun part hpart => ?_
      have hmem := (List.of_mem_zip hpart).1
      exact ih part.1 hmem (hleaves part.1 hmem) part.2 (hr part hpart)
  | any children ih =>
    have hleaves := Formula.forall_mem_leavesOf.1 h
    cases hr with
    | any _ _ hrange hr =>
      refine .any hrange fun part hpart => ?_
      have hmem := (List.of_mem_zip hpart).1
      exact ih part.1 hmem (hleaves part.1 hmem) part.2 (hr part hpart)

/-- The responses to a statement are reduced. -/
theorem Accepted.reduced_of_responseOf (h : s.Accepted) (r : Response G) (hr : s.ResponseOf r) :
    s.Reduced r := by
  induction h generalizing r with
  | modP s =>
    cases hr with
    | modP _ => exact .modP
  | discreteLog s =>
    cases hr with
    | discreteLog hr => exact .discreteLog hr
  | allOf h _ ih =>
    obtain ⟨first, rest, rfl, rfl, -⟩ := allOf_eq_ok h
    cases hr with
    | conjunction hr =>
      refine .conjunction fun part hpart => ?_
      exact ih part.1 (List.of_mem_zip hpart).1 part.2 (List.forall₂_zip hr hpart)
  | anyOf h _ _ ihleft ihright =>
    obtain ⟨rfl, -⟩ := anyOf_eq_ok h
    cases hr with
    | disjunction hlc hleft hright =>
      exact .disjunction hlc (ihleft _ hleft) (ihright _ hright)
  | ofFormula h _ ih =>
    obtain ⟨space, rfl, -⟩ := ofFormula_eq_ok h
    cases hr with
    | formula hr => exact .formula (reduced_gate_of_responseOf ih r hr)
  | sealedBy scheme _ ih =>
    cases hr with
    | sealed hr _ ho => exact .sealed (ih _ hr) ho

end Statement
end ThreeMove

/-
# When the verifier has no verdict

A verifier answers whether a transcript is accepted, with one exception.  A sealed
part encodes the announcement that the response opens before anything is said of
its shape, and whoever checks a non-interactive proof encodes its announcement in
order to hash it.  `Statement.Shaped` holds of the announcements with the gates of
the statement, which are those that have an encoding (`Accepted.encodes`), and
`Statement.Opens` tells the announcements that a response opens.  Only an
announcement without the shape keeps the verdict from coming, and no message read
from bytes holds one (`Accepted.verdict`).
-/

import ThreeMove.Proofs.Protocol.Aborts
import ThreeMove.Proofs.Statement.Encoding

namespace ThreeMove
namespace Statement

variable {G : Type} [PrimeGroup G] {s : Statement G}

mutual

/-- The announcement has the gates of the statement, as far as both go. -/
inductive Shaped : Statement G → Announcement G → Prop where
  | modP {s : ModP} {t : Nat} : Shaped (.modP s) (.residue t)
  | discreteLog {s : DiscreteLog G} {ts : List G} : Shaped (.discreteLog s) (.elements ts)
  | conjunction {first : Statement G} {rest : List (Statement G)} {as : List (Announcement G)}
      (h : ∀ part ∈ (first :: rest).zip as, Shaped part.1 part.2) :
      Shaped (.conjunction first rest) (.all as)
  | disjunction {left right : Statement G} {la ra : Announcement G} (hleft : Shaped left la)
      (hright : Shaped right ra) : Shaped (.disjunction left right) (.any [la, ra])
  | formula {space : ChallengeSpace} {gates : Formula (Statement G)} {a : Announcement G}
      (h : GateShaped gates a) : Shaped (.formula space gates) a
  | sealed {scheme : HashCommitment} {inner : Statement G} {digest : Bytes} :
      Shaped (.sealed scheme inner) (.commitment digest)

/-- The announcement has the gates of the formula, as far as both go. -/
inductive GateShaped : Formula (Statement G) → Announcement G → Prop where
  | leaf {name : String} {s : Statement G} {a : Announcement G} (h : Shaped s a) :
      GateShaped (.leaf name s) (.leaf a)
  | all {children : List (Formula (Statement G))} {as : List (Announcement G)}
      (h : ∀ part ∈ children.zip as, GateShaped part.1 part.2) :
      GateShaped (.all children) (.all as)
  | any {children : List (Formula (Statement G))} {as : List (Announcement G)}
      (h : ∀ part ∈ children.zip as, GateShaped part.1 part.2) :
      GateShaped (.any children) (.any as)

end

mutual

/-- To check the response is to open the announcement of the sealed statement. -/
inductive Opens : Statement G → Response G → Statement G → Announcement G → Prop where
  | sealed {scheme : HashCommitment} {inner : Statement G} {r : Response G} {a : Announcement G}
      {opening : Bytes} : Opens (.sealed scheme inner) (.opening r a opening) inner a
  | inside {scheme : HashCommitment} {inner part : Statement G} {r : Response G}
      {a opened : Announcement G} {opening : Bytes} (h : Opens inner r part opened) :
      Opens (.sealed scheme inner) (.opening r a opening) part opened
  | conjunction {first part : Statement G} {rest : List (Statement G)} {rs : List (Response G)}
      {opened : Announcement G} {branch : Statement G × Response G}
      (hbranch : branch ∈ (first :: rest).zip rs) (h : Opens branch.1 branch.2 part opened) :
      Opens (.conjunction first rest) (.all rs) part opened
  | left {left right part : Statement G} {lc : Nat} {lr rr : Response G}
      {opened : Announcement G} (h : Opens left lr part opened) :
      Opens (.disjunction left right) (.any [lc] [lr, rr]) part opened
  | right {left right part : Statement G} {lc : Nat} {lr rr : Response G}
      {opened : Announcement G} (h : Opens right rr part opened) :
      Opens (.disjunction left right) (.any [lc] [lr, rr]) part opened
  | formula {space : ChallengeSpace} {gates : Formula (Statement G)} {part : Statement G}
      {r : Response G} {opened : Announcement G} (h : GateOpens gates r part opened) :
      Opens (.formula space gates) r part opened

/-- To check the response to a formula is to open the announcement of the sealed
statement. -/
inductive GateOpens :
    Formula (Statement G) → Response G → Statement G → Announcement G → Prop where
  | leaf {name : String} {s part : Statement G} {r : Response G} {opened : Announcement G}
      (h : Opens s r part opened) : GateOpens (.leaf name s) (.leaf r) part opened
  | all {children : List (Formula (Statement G))} {part : Statement G} {rs : List (Response G)}
      {opened : Announcement G} {child : Formula (Statement G) × Response G}
      (hchild : child ∈ children.zip rs) (h : GateOpens child.1 child.2 part opened) :
      GateOpens (.all children) (.all rs) part opened
  | any {children : List (Formula (Statement G))} {part : Statement G} {shares : List Nat}
      {rs : List (Response G)} {opened : Announcement G}
      {child : Formula (Statement G) × Response G} (hchild : child ∈ children.zip rs)
      (h : GateOpens child.1 child.2 part opened) :
      GateOpens (.any children) (.any shares rs) part opened

end

/-! ### Announcements that have an encoding -/

/-- The parts of a conjunction are encoded one by one. -/
theorem encodeParts_protocols {M : Type} (encode : Protocol G → M → Except Abort Bytes)
    (parts : List (Statement G)) (ms : List M) :
    Conjunction.encodeParts encode (protocols parts) ms =
      frameAll <$> (parts.zip ms).mapM fun part => encode part.1.protocol part.2 := by
  rw [protocols_eq, Conjunction.encodeParts, List.zip_map_left, List.mapM_map]
  rfl

/-- The children of a gate are encoded one by one. -/
theorem encodeEach_formulasProtocols {M : Type}
    (encode : Formula (Protocol G) → M → Except Abort Bytes)
    (children : List (Formula (Statement G))) (ms : List M) :
    Codec.encodeEach encode (formulasProtocols children) ms =
      (children.zip ms).mapM fun part => encode (formulaProtocols part.1) part.2 := by
  rw [formulasProtocols_eq, Codec.encodeEach, List.zip_map_left, List.mapM_map]
  rfl

/-- An announcement is encoded for a formula exactly where it has the formula's gates. -/
theorem encodes_gate {gates : Formula (Statement G)}
    (h : ∀ leaf ∈ gates.leaves, ∀ a, DecidedBy (leaf.2.Shaped a) (.shapeMismatch .announcement)
      (leaf.2.protocol.encodeAnnouncement a)) (a : Announcement G) :
    DecidedBy (GateShaped gates a) (.shapeMismatch .announcement)
      (FormulaProof.encodeAnnouncement (formulaProtocols gates) a) := by
  have hchildren : ∀ (children : List (Formula (Statement G))) (as : List (Announcement G)),
      (∀ child ∈ children, ∀ a, DecidedBy (GateShaped child a) (.shapeMismatch .announcement)
        (FormulaProof.encodeAnnouncement (formulaProtocols child) a)) →
      DecidedBy (∀ part ∈ children.zip as, GateShaped part.1 part.2)
        (.shapeMismatch .announcement)
        (frameAll <$> FormulaProof.encodeAnnouncements (formulasProtocols children) as) :=
    fun children as hchild => by
      rw [FormulaProof.encodeAnnouncements_eq, encodeEach_formulasProtocols]
      exact (DecidedBy.mapM fun part hpart => hchild _ (List.of_mem_zip hpart).1 _).map
  induction gates using Formula.induction generalizing a with
  | leaf name s =>
    have hs := h (name, s) (List.mem_singleton_self _)
    cases a with
    | leaf a => exact (hs a).congr ⟨.leaf, fun | .leaf h => h⟩
    | _ => exact .failure nofun
  | all children ih =>
    have hleaves := Formula.forall_mem_leavesOf.1 h
    cases a with
    | all as =>
      have has := hchildren children as fun child hchild => ih child hchild (hleaves child hchild)
      exact has.congr ⟨.all, fun | .all h => h⟩
    | _ => exact .failure nofun
  | any children ih =>
    have hleaves := Formula.forall_mem_leavesOf.1 h
    cases a with
    | any as =>
      have has := hchildren children as fun child hchild => ih child hchild (hleaves child hchild)
      exact has.congr ⟨.any, fun | .any h => h⟩
    | _ => exact .failure nofun

/-- Just the announcements with the shape of the statement have an encoding. -/
theorem Accepted.encodes (h : s.Accepted) (a : Announcement G) :
    DecidedBy (s.Shaped a) (.shapeMismatch .announcement) (s.protocol.encodeAnnouncement a) := by
  induction h generalizing a with
  | modP s =>
    cases a with
    | residue t => exact .value .modP _
    | _ => exact .failure nofun
  | discreteLog s =>
    cases a with
    | elements ts => exact .value .discreteLog _
    | _ => exact .failure nofun
  | allOf h _ ih =>
    obtain ⟨first, rest, rfl, rfl, -⟩ := allOf_eq_ok h
    cases a with
    | all as =>
      have hparts : DecidedBy (∀ part ∈ (first :: rest).zip as, part.1.Shaped part.2) _
          (frameAll <$> ((first :: rest).zip as).mapM fun part =>
            part.1.protocol.encodeAnnouncement part.2) :=
        (DecidedBy.mapM fun part hpart => ih part.1 (List.of_mem_zip hpart).1 part.2).map
      rw [← encodeParts_protocols (·.encodeAnnouncement)] at hparts
      exact hparts.congr ⟨.conjunction, fun | .conjunction h => h⟩
    | _ => exact .failure nofun
  | anyOf h _ _ ihleft ihright =>
    obtain ⟨rfl, -⟩ := anyOf_eq_ok h
    cases a with
    | any as =>
      match as with
      | [la, ra] =>
        have hparts := (ihleft la).bind fun leftBytes =>
          (ihright ra).bind fun rightBytes =>
            DecidedBy.value trivial (frameAll [leftBytes, rightBytes])
        exact hparts.congr ⟨fun h => .disjunction h.1 h.2.1,
          fun | .disjunction hleft hright => ⟨hleft, hright, trivial⟩⟩
      | [] | [_] | _ :: _ :: _ :: _ => exact .failure nofun
    | _ => exact .failure nofun
  | ofFormula h _ ih =>
    obtain ⟨space, rfl, -⟩ := ofFormula_eq_ok h
    exact (encodes_gate ih a).congr ⟨.formula, fun | .formula h => h⟩
  | sealedBy scheme _ _ =>
    cases a with
    | commitment digest => exact .value .sealed _
    | _ => exact .failure nofun

/-! ### Announcements that a response opens -/

/-- The response opens an announcement that has not the shape of its statement. -/
def OpensMisshapen (s : Statement G) (r : Response G) : Prop :=
  ∃ part opened, s.Opens r part opened ∧ ¬part.Shaped opened

/-- Pairs with translated items are translated pairs. -/
theorem exists_mem_zip_map {α β γ : Type} {f : α → β} {as : List α} {cs : List γ}
    {P : β × γ → Prop} :
    (∃ part ∈ (as.map f).zip cs, P part) ↔ ∃ part ∈ as.zip cs, P (f part.1, part.2) := by
  rw [List.zip_map_left]
  simp only [List.mem_map, exists_exists_and_eq_and, Prod.map, id]

/-- Checking a formula fails only by encoding a misshapen announcement that was opened. -/
theorem opensMisshapen_gate {space : ChallengeSpace} {gates : Formula (Statement G)}
    {cause : Abort}
    (h : ∀ leaf ∈ gates.leaves, ∀ {a c r}, leaf.2.protocol.check a c r = .error cause →
      cause = .shapeMismatch .announcement ∧ leaf.2.OpensMisshapen r)
    {a : Announcement G} {c : Nat} {r : Response G}
    (hcheck : FormulaProof.check space (formulaProtocols gates) a c r = .error cause) :
    cause = .shapeMismatch .announcement ∧
      ∃ part opened, GateOpens gates r part opened ∧ ¬part.Shaped opened := by
  induction gates using Formula.induction generalizing a c r with
  | leaf name s =>
    obtain ⟨r', a', rfl, hs⟩ := FormulaProof.of_check_leaf_eq_error hcheck
    obtain ⟨hcause, part, opened, hopens, hnot⟩ := h (name, s) (List.mem_singleton_self _) hs
    exact ⟨hcause, part, opened, .leaf hopens, hnot⟩
  | all children ih =>
    obtain ⟨rs, rfl, hchild⟩ := FormulaProof.of_check_all_eq_error hcheck
    rw [formulasProtocols_eq, exists_mem_zip_map] at hchild
    obtain ⟨child, hmem, a', c', hchild⟩ := hchild
    have hin := (List.of_mem_zip hmem).1
    obtain ⟨hcause, part, opened, hopens, hnot⟩ :=
      ih child.1 hin (Formula.forall_mem_leavesOf.1 h child.1 hin) hchild
    exact ⟨hcause, part, opened, .all hmem hopens, hnot⟩
  | any children ih =>
    obtain ⟨shares, rs, rfl, hchild⟩ := FormulaProof.of_check_any_eq_error hcheck
    rw [formulasProtocols_eq, exists_mem_zip_map] at hchild
    obtain ⟨child, hmem, a', c', hchild⟩ := hchild
    have hin := (List.of_mem_zip hmem).1
    obtain ⟨hcause, part, opened, hopens, hnot⟩ :=
      ih child.1 hin (Formula.forall_mem_leavesOf.1 h child.1 hin) hchild
    exact ⟨hcause, part, opened, .any hmem hopens, hnot⟩

/-- A check breaks off only where the response opens an announcement that has not
the shape of its statement. -/
theorem Accepted.opensMisshapen (h : s.Accepted) {a : Announcement G} {c : Nat} {r : Response G}
    {cause : Abort} (hcheck : s.protocol.check a c r = .error cause) :
    cause = .shapeMismatch .announcement ∧ s.OpensMisshapen r := by
  induction h generalizing a c r with
  | modP s => exact absurd hcheck s.check_ne_error
  | discreteLog s => exact absurd hcheck s.check_ne_error
  | allOf h _ ih =>
    obtain ⟨first, rest, rfl, rfl, -⟩ := allOf_eq_ok h
    obtain ⟨rs, rfl, hbranch⟩ := Conjunction.of_check_eq_error hcheck
    rw [← protocols, protocols_eq, exists_mem_zip_map] at hbranch
    obtain ⟨branch, hmem, a', hbranch⟩ := hbranch
    obtain ⟨hcause, part, opened, hopens, hnot⟩ := ih branch.1 (List.of_mem_zip hmem).1 hbranch
    exact ⟨hcause, part, opened, .conjunction hmem hopens, hnot⟩
  | anyOf h _ _ ihleft ihright =>
    obtain ⟨rfl, -⟩ := anyOf_eq_ok h
    obtain ⟨lc, lr, rr, rfl, ⟨a', c', hleft⟩ | ⟨a', c', hright⟩⟩ :=
      Disjunction.of_check_eq_error hcheck
    · obtain ⟨hcause, part, opened, hopens, hnot⟩ := ihleft hleft
      exact ⟨hcause, part, opened, .left hopens, hnot⟩
    · obtain ⟨hcause, part, opened, hopens, hnot⟩ := ihright hright
      exact ⟨hcause, part, opened, .right hopens, hnot⟩
  | ofFormula h _ ih =>
    obtain ⟨space, rfl, -⟩ := ofFormula_eq_ok h
    obtain ⟨hcause, part, opened, hopens, hnot⟩ := opensMisshapen_gate ih hcheck
    exact ⟨hcause, part, opened, .formula hopens, hnot⟩
  | @sealedBy scheme inner hinner ih =>
    obtain ⟨r', opened, opening, rfl, hencode | hcheck⟩ := Sealed.of_check_eq_error hcheck
    · by_cases hopened : inner.Shaped opened
      · obtain ⟨data, hdata⟩ := (hinner.encodes opened).ok hopened
        cases hencode.symm.trans hdata
      · have hcause := hencode.symm.trans ((hinner.encodes opened).error hopened)
        exact ⟨Except.error.inj hcause, inner, opened, .sealed, hopened⟩
    · obtain ⟨hcause, part, opened', hopens, hnot⟩ := ih hcheck
      exact ⟨hcause, part, opened', .inside hopens, hnot⟩

/-- In responses that are encoded every child's is encoded. -/
theorem exists_encodeResponse_of_mem {space : ChallengeSpace}
    {children : List (Formula (Statement G))} {rs : List (Response G)} {parts : List Bytes}
    (h : FormulaProof.encodeResponses space (formulasProtocols children) rs = .ok parts)
    {child : Formula (Statement G) × Response G} (hchild : child ∈ children.zip rs) :
    ∃ data, FormulaProof.encodeResponse space (formulaProtocols child.1) child.2 = .ok data := by
  rw [FormulaProof.encodeResponses_eq, encodeEach_formulasProtocols] at h
  exact exists_of_mapM_eq_ok h hchild

/-- An announcement that an encoded response opens has the gates of what was sealed. -/
theorem shaped_of_gateOpens {space : ChallengeSpace} {gates : Formula (Statement G)}
    {part : Statement G} {opened : Announcement G}
    (h : ∀ leaf ∈ gates.leaves, ∀ {r data}, leaf.2.protocol.encodeResponse r = .ok data →
      leaf.2.Opens r part opened → part.Shaped opened)
    {r : Response G} {data : Bytes}
    (hr : FormulaProof.encodeResponse space (formulaProtocols gates) r = .ok data)
    (hopens : GateOpens gates r part opened) : part.Shaped opened := by
  induction gates using Formula.induction generalizing r data with
  | leaf name s =>
    cases hopens with
    | leaf hopens => exact h (name, s) (List.mem_singleton_self _) hr hopens
  | all children ih =>
    cases hopens with
    | all hmem hopens =>
      obtain ⟨parts, hparts, -⟩ := map_eq_ok.1 hr
      obtain ⟨data', hdata⟩ := exists_encodeResponse_of_mem hparts hmem
      have hin := (List.of_mem_zip hmem).1
      exact ih _ hin (Formula.forall_mem_leavesOf.1 h _ hin) hdata hopens
  | any children ih =>
    cases hopens with
    | any hmem hopens =>
      obtain ⟨parts, hparts, -⟩ := map_eq_ok.1 hr
      obtain ⟨data', hdata⟩ := exists_encodeResponse_of_mem hparts hmem
      have hin := (List.of_mem_zip hmem).1
      exact ih _ hin (Formula.forall_mem_leavesOf.1 h _ hin) hdata hopens

/-- A response with an encoding opens announcements of the right shape only. -/
theorem Accepted.shaped_of_opens (h : s.Accepted) {r : Response G} {data : Bytes}
    (hr : s.protocol.encodeResponse r = .ok data) {part : Statement G} {opened : Announcement G}
    (hopens : s.Opens r part opened) : part.Shaped opened := by
  induction h generalizing r data with
  | modP s => exact nomatch hopens
  | discreteLog s => exact nomatch hopens
  | allOf h _ ih =>
    obtain ⟨first, rest, rfl, rfl, -⟩ := allOf_eq_ok h
    cases hopens with
    | @conjunction _ _ _ rs _ branch hmem hopens =>
      have hparts : Conjunction.encodeParts (·.encodeResponse) (protocols (first :: rest)) rs =
          .ok data := hr
      rw [encodeParts_protocols] at hparts
      obtain ⟨parts, hparts, -⟩ := map_eq_ok.1 hparts
      obtain ⟨data', hdata⟩ := exists_of_mapM_eq_ok hparts hmem
      exact ih branch.1 (List.of_mem_zip hmem).1 hdata hopens
  | anyOf h _ _ ihleft ihright =>
    obtain ⟨rfl, -⟩ := anyOf_eq_ok h
    cases hopens with
    | left hopens =>
      obtain ⟨leftBytes, hleft, -⟩ := bind_eq_ok.1 hr
      exact ihleft hleft hopens
    | right hopens =>
      obtain ⟨leftBytes, -, hr⟩ := bind_eq_ok.1 hr
      obtain ⟨rightBytes, hright, -⟩ := bind_eq_ok.1 hr
      exact ihright hright hopens
  | ofFormula h _ ih =>
    obtain ⟨space, rfl, -⟩ := ofFormula_eq_ok h
    cases hopens with
    | formula hopens => exact shaped_of_gateOpens ih hr hopens
  | sealedBy scheme hinner ih =>
    cases hopens with
    | sealed =>
      obtain ⟨responseBytes, -, hr⟩ := bind_eq_ok.1 hr
      obtain ⟨announcementBytes, hannouncement, -⟩ := bind_eq_ok.1 hr
      exact (hinner.encodes _).of_ok hannouncement
    | inside hopens =>
      obtain ⟨responseBytes, hresponse, -⟩ := bind_eq_ok.1 hr
      exact ih hresponse hopens

/-! ### Verdicts -/

/-- A transcript is judged unless its response opens a misshapen announcement. -/
theorem Accepted.check_or_opensMisshapen (h : s.Accepted) (a : Announcement G) (c : Nat)
    (r : Response G) : (∃ verdict, s.protocol.check a c r = .ok verdict) ∨
      s.protocol.check a c r = .error (.shapeMismatch .announcement) ∧ s.OpensMisshapen r := by
  cases hcheck : s.protocol.check a c r with
  | ok verdict => exact .inl ⟨verdict, rfl⟩
  | error cause =>
    obtain ⟨rfl, hopens⟩ := h.opensMisshapen hcheck
    exact .inr ⟨rfl, hopens⟩

/-- **Only a misshapen announcement keeps the verdict from coming.**  A transcript is
accepted or not unless its response opens an announcement that has not the shape
of its statement; so is a non-interactive proof whose own announcement has the
shape, and one whose announcement has not is never judged.  No response read from
bytes opens a misshapen announcement, and a proof handed in as bytes is judged
whatever they are. -/
theorem Accepted.verdict (h : s.Accepted)
    (exact : s.space.family = .field → PrimeGroup.ExactEncoding G) (session : Bytes) :
    (∀ a c r, (∃ verdict, s.protocol.check a c r = .ok verdict) ∨
      s.protocol.check a c r = .error (.shapeMismatch .announcement) ∧ s.OpensMisshapen r) ∧
    (∀ proof data, s.Shaped proof.announcement →
      (∃ verdict, Noninteractive.check ⟨session, s.protocol⟩ proof data = .ok verdict) ∨
        Noninteractive.check ⟨session, s.protocol⟩ proof data =
          .error (.shapeMismatch .announcement) ∧ s.OpensMisshapen proof.response) ∧
    (∀ proof data, ¬s.Shaped proof.announcement →
      Noninteractive.check ⟨session, s.protocol⟩ proof data =
        .error (.shapeMismatch .announcement)) ∧
    (∀ data r, s.protocol.decodeResponse data = .ok r → ¬s.OpensMisshapen r) ∧
    ∀ bytes data, ∃ verdict,
      Noninteractive.checkEncoded ⟨session, s.protocol⟩ bytes data = .ok verdict := by
  have hcanonical := h.canonical exact
  have hread : ∀ data r, s.protocol.decodeResponse data = .ok r → ¬s.OpensMisshapen r := by
    rintro data r hr ⟨part, opened, hopens, hnot⟩
    exact hnot (h.shaped_of_opens (hcanonical.response data r hr) hopens)
  refine ⟨h.check_or_opensMisshapen, ?_, ?_, hread, fun bytes data => ?_⟩
  · intro proof data hshaped
    obtain ⟨encoded, hencoded⟩ := (h.encodes proof.announcement).ok hshaped
    rw [Noninteractive.check_of_encodes hencoded]
    exact h.check_or_opensMisshapen _ _ _
  · intro proof data hnot
    rw [Noninteractive.check, Noninteractive.challenge, (h.encodes proof.announcement).error hnot]
    rfl
  · rw [Noninteractive.checkEncoded]
    split
    · rename_i proof hproof
      obtain ⟨⟨a, cursor⟩, ha, hproof⟩ := bind_eq_ok.1 hproof
      obtain ⟨⟨r, cursor'⟩, hr, hproof⟩ := bind_eq_ok.1 hproof
      obtain ⟨_, -, heq⟩ := bind_eq_ok.1 hproof
      obtain rfl := Except.ok.inj heq
      obtain ⟨encoded, -, -, ha⟩ := FrameCursor.decode_eq_ok.1 ha
      obtain ⟨encoded', -, -, hr⟩ := FrameCursor.decode_eq_ok.1 hr
      rw [Noninteractive.check_of_encodes (hcanonical.announcement encoded a ha)]
      refine (h.check_or_opensMisshapen _ _ _).resolve_right fun hopens => ?_
      exact hread encoded' r hr hopens.2
    · exact ⟨false, rfl⟩

/-- The discrete logarithm of `six` as a formula of one leaf. -/
def leafSix : Statement Ristretto := .formula six.space (.leaf "six" (.modP six))

/-- `leafSix` with its announcement sealed. -/
def sealedSix : Statement Ristretto := sealedBy .standard leafSix

/-- The formula of one leaf can be built. -/
theorem accepted_leafSix : leafSix.Accepted := by
  have h : ofFormula (.leaf "six" (.modP six)) = .ok leafSix := rfl
  exact .ofFormula h (List.forall_mem_singleton.2 (.modP six))

/-- It can be sealed. -/
theorem accepted_sealedSix : sealedSix.Accepted := .sealedBy .standard accepted_leafSix

/-- The hypotheses are satisfiable: a response that opens an announcement of the
statement's shape is judged. -/
theorem verdict_sealedSix : ∃ verdict, sealedSix.protocol.check (.commitment []) 0
    (.opening (.leaf (.scalar 0)) (.leaf (.residue 1)) []) = .ok verdict := by
  have hverdict := Accepted.verdict accepted_sealedSix nofun []
  refine (hverdict.1 _ _ _).resolve_right ?_
  rintro ⟨-, part, opened, hopens, hnot⟩
  cases hopens with
  | sealed => exact hnot (.formula (.leaf .modP))
  | inside hopens =>
    cases hopens with
    | formula hgate =>
      cases hgate with
      | leaf hleaf => exact nomatch hleaf

/-- A gate in the place of the leaf is not what was asked for, and `leafSix` answers
so.  Opened for `sealedSix`, or announced in a non-interactive proof, it leaves the
verifier without an answer. -/
theorem no_verdict_misshapen :
    leafSix.protocol.check (.all []) 0 (.leaf (.scalar 0)) = .ok false ∧
    sealedSix.protocol.check (.commitment (List.replicate 32 0)) 0
      (.opening (.leaf (.scalar 0)) (.all []) (List.replicate 32 0)) =
        .error (.shapeMismatch .announcement) ∧
    Noninteractive.check ⟨[], leafSix.protocol⟩ ⟨.all [], .leaf (.scalar 0)⟩ [] =
      .error (.shapeMismatch .announcement) :=
  ⟨rfl, rfl, rfl⟩

end Statement
end ThreeMove

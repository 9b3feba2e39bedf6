/-
# A challenge has one response

Where a statement asks for nothing but all of its parts, and the groups of its leaves have
prime order, one response at most answers a challenge to an announcement
(`Accepted.uniqueResponses`).  As every response has one encoding, whoever changes what
follows the announcement in the bytes of an accepted proof makes a proof that is rejected
(`Accepted.nonmalleable`).  A gate that asks for any of its children would leave the prover
the choice of the shares, as in `check_gateOfOne`.
-/

import ThreeMove.Proofs.Protocol.Agreement
import ThreeMove.Proofs.Statement.Noninteractive
import ThreeMove.Proofs.Statement.Width

namespace ThreeMove

/-- No gate asks for any of its children. -/
inductive Formula.AllGates {L : Type} : Formula L → Prop where
  | leaf {name : String} {value : L} : AllGates (.leaf name value)
  | all {children : List (Formula L)} (h : ∀ child ∈ children, AllGates child) :
      AllGates (.all children)

namespace Statement

variable {G : Type} [PrimeGroup G] {s : Statement G}

/-- The statement is built from elementary ones by conjunctions and `all` gates. -/
inductive OrFree : Statement G → Prop where
  | modP (s : ModP) : OrFree (.modP s)
  | discreteLog (s : DiscreteLog G) : OrFree (.discreteLog s)
  | conjunction {first : Statement G} {rest : List (Statement G)}
      (h : ∀ part ∈ first :: rest, OrFree part) : OrFree (.conjunction first rest)
  | formula {space : ChallengeSpace} {gates : Formula (Statement G)} (hgates : gates.AllGates)
      (h : ∀ leaf ∈ gates.leaves, OrFree leaf.2) : OrFree (.formula space gates)

/-- One response of the statement at most answers a challenge to an announcement. -/
def UniqueResponses (s : Statement G) : Prop :=
  ∀ ⦃a : Announcement G⦄ ⦃c : Nat⦄ ⦃r r' : Response G⦄, s.protocol.check a c r = .ok true →
    s.protocol.check a c r' = .ok true → s.ResponseOf r → s.ResponseOf r' → r = r'

/-- A logarithm over residues of prime order has unique responses. -/
theorem uniqueResponses_modP {m : ModP} (hprime : m.q.Prime) :
    (Statement.modP m : Statement G).UniqueResponses := by
  intro a c r r' h h' _ _
  obtain ⟨t, r, rfl, rfl, haccepts⟩ := ModP.of_check h
  obtain ⟨_, r', ⟨⟩, rfl, haccepts'⟩ := ModP.of_check h'
  rw [m.response_unique hprime haccepts haccepts']

/-- Logarithms in a group of prime order have unique responses. -/
theorem uniqueResponses_discreteLog {d : DiscreteLog G} (laws : PrimeGroup.Laws G) :
    (Statement.discreteLog d).UniqueResponses := by
  intro a c r r' h h' hr hr'
  obtain ⟨ts, r, rfl, rfl, haccepts⟩ := DiscreteLog.of_check h
  obtain ⟨_, r', ⟨⟩, rfl, haccepts'⟩ := DiscreteLog.of_check h'
  cases hr with
  | discreteLog hr =>
    cases hr' with
    | discreteLog hr' =>
      have hsame := DiscreteLog.response_unique laws haccepts haccepts'
      rw [hsame.eq_of_lt_of_lt hr hr']

/-! ### Compounds -/

/-- The branches of a conjunction are answered in one way if each part is. -/
theorem responses_eq_of_checkAll {parts : List (Statement G)}
    (h : ∀ part ∈ parts, part.UniqueResponses) {as : List (Announcement G)} {c : Nat}
    {rs rs' : List (Response G)} (has : as.length = parts.length)
    (hchecks : Conjunction.checkAll (protocols parts) as c rs = .ok true)
    (hchecks' : Conjunction.checkAll (protocols parts) as c rs' = .ok true)
    (hrs : List.Forall₂ ResponseOf parts rs) (hrs' : List.Forall₂ ResponseOf parts rs') :
    rs = rs' := by
  induction hrs generalizing as rs' with
  | nil =>
    cases hrs' with
    | nil => rfl
  | cons hr _ ih =>
    cases hrs' with
    | cons hr' hrest' =>
      obtain ⟨a, as, rfl⟩ := List.exists_cons_of_length_eq_add_one has
      rw [List.forall_mem_cons] at h
      obtain ⟨hcheck, hchecks⟩ := Conjunction.checkAll_cons.1 hchecks
      obtain ⟨hcheck', hchecks'⟩ := Conjunction.checkAll_cons.1 hchecks'
      rw [h.1 hcheck hcheck' hr hr', ih h.2 (Nat.succ.inj has) hchecks hchecks' hrest']

/-- A conjunction has unique responses if its parts have. -/
theorem uniqueResponses_conjunction {first : Statement G} {rest : List (Statement G)}
    (h : ∀ part ∈ first :: rest, part.UniqueResponses) :
    (Statement.conjunction first rest).UniqueResponses := by
  intro a c r r' hcheck hcheck' hr hr'
  obtain ⟨as, rs, rfl, rfl, ⟨has, -⟩, hchecks⟩ := Conjunction.of_check hcheck
  obtain ⟨_, rs', ⟨⟩, rfl, -, hchecks'⟩ := Conjunction.of_check hcheck'
  rw [← protocols, protocols_eq, List.length_map] at has
  cases hr with
  | conjunction hrs =>
    cases hr' with
    | conjunction hrs' => rw [responses_eq_of_checkAll h has hchecks hchecks' hrs hrs']

/-- Children that are given the same challenges are answered in one way if each is. -/
theorem responses_eq_of_checkedEach {space : ChallengeSpace}
    {children : List (Formula (Statement G))} {as : List (Announcement G)} {cs : List Nat}
    {rs rs' : List (Response G)}
    (ih : ∀ child ∈ children, (Statement.formula space child).UniqueResponses)
    (h : CheckedEach space children as cs rs) (h' : CheckedEach space children as cs rs')
    (hrs : ∀ part ∈ children.zip rs, GateResponseOf space part.1 part.2)
    (hrs' : ∀ part ∈ children.zip rs', GateResponseOf space part.1 part.2) : rs = rs' := by
  induction h generalizing rs' with
  | nil =>
    cases h' with
    | nil => rfl
  | cons hchild _ ihrest =>
    cases h' with
    | cons hchild' hrest' =>
      rw [List.forall_mem_cons] at ih
      rw [List.zip_cons_cons, List.forall_mem_cons] at hrs hrs'
      rw [ih.1 hchild hchild' (.formula hrs.1) (.formula hrs'.1),
        ihrest ih.2 hrest' hrs.2 hrs'.2]

/-- A response to a formula is one to its gates. -/
theorem ResponseOf.gate {space : ChallengeSpace} {gates : Formula (Statement G)} {r : Response G} :
    (Statement.formula space gates).ResponseOf r → GateResponseOf space gates r
  | .formula h => h

/-- A formula of `all` gates has unique responses if its leaves have. -/
theorem uniqueResponses_formula {space : ChallengeSpace} {gates : Formula (Statement G)}
    (hgates : gates.AllGates) (h : ∀ leaf ∈ gates.leaves, leaf.2.UniqueResponses) :
    (Statement.formula space gates).UniqueResponses := by
  induction hgates with
  | @leaf name s =>
    intro a c r r' (hcheck : FormulaProof.check space _ a c r = _)
      (hcheck' : FormulaProof.check space _ a c r' = _) hr hr'
    obtain ⟨a, r, rfl, rfl, hleaf⟩ := FormulaProof.of_check_leaf hcheck
    obtain ⟨_, r', ⟨⟩, rfl, hleaf'⟩ := FormulaProof.of_check_leaf hcheck'
    cases hr.gate with
    | leaf hr =>
      cases hr'.gate with
      | leaf hr' => rw [h (name, s) (List.mem_singleton_self _) hleaf hleaf' hr hr']
  | all _ ih =>
    have hleaves := Formula.forall_mem_leavesOf.1 h
    intro a c r r' (hcheck : FormulaProof.check space _ a c r = _)
      (hcheck' : FormulaProof.check space _ a c r' = _) hr hr'
    obtain ⟨as, rs, rfl, rfl, hchecked⟩ := of_check_all hcheck
    obtain ⟨_, rs', ⟨⟩, rfl, hchecked'⟩ := of_check_all hcheck'
    cases hr.gate with
    | all _ hrs =>
      cases hr'.gate with
      | all _ hrs' =>
        rw [responses_eq_of_checkedEach (fun child hchild => ih child hchild (hleaves child hchild))
          hchecked hchecked' hrs hrs']

/-- Where the statement asks for nothing but all of its parts, one response at most answers
a challenge to an announcement. -/
theorem Accepted.uniqueResponses (h : s.Accepted) (horfree : s.OrFree)
    (hprime : s.space.family = .residues → s.space.modulus.Prime)
    (laws : s.space.family = .field → PrimeGroup.Laws G) : s.UniqueResponses := by
  induction h with
  | modP m => exact uniqueResponses_modP (hprime rfl)
  | discreteLog d => exact uniqueResponses_discreteLog (laws rfl)
  | allOf h _ ih =>
    obtain ⟨first, rest, rfl, rfl, hspace⟩ := allOf_eq_ok h
    cases horfree with
    | conjunction hparts =>
      refine uniqueResponses_conjunction fun part hpart => ?_
      exact ih part hpart (hparts part hpart) (hspace part hpart ▸ hprime)
        (hspace part hpart ▸ laws)
  | anyOf h =>
    obtain ⟨rfl, -⟩ := anyOf_eq_ok h
    exact nomatch horfree
  | ofFormula h _ ih =>
    obtain ⟨space, rfl, hgates⟩ := ofFormula_eq_ok h
    cases horfree with
    | formula hall hleaves =>
      refine uniqueResponses_formula hall fun leaf hleaf => ?_
      exact ih leaf hleaf (hleaves leaf hleaf) (hgates.space_eq leaf hleaf ▸ hprime)
        (hgates.space_eq leaf hleaf ▸ laws)
  | sealedBy scheme _ _ => exact nomatch horfree

/-! ### Proofs from bytes -/

/-- Every byte string is judged. -/
theorem Accepted.exists_checkEncoded (h : s.Accepted)
    (exact : s.space.family = .field → PrimeGroup.ExactEncoding G) (session bytes data : Bytes) :
    ∃ verdict, Noninteractive.checkEncoded ⟨session, s.protocol⟩ bytes data = .ok verdict := by
  cases hread : Noninteractive.decode ⟨session, s.protocol⟩ bytes with
  | error cause => exact ⟨false, by rw [Noninteractive.checkEncoded, hread]⟩
  | ok proof =>
    have hcanonical := h.canonical exact
    obtain ⟨aBytes, rBytes, -, -, ha, hr⟩ := Noninteractive.decode_eq_ok_iff.1 hread
    rw [Noninteractive.checkEncoded_of_decode hread]
    exact h.exists_check session (hcanonical.announcement _ _ ha) (hcanonical.response _ _ hr) data

/-- In the bytes of an accepted proof, what follows the frame of the announcement is the frame
of a response of the statement to the challenge that is hashed from that announcement. -/
theorem Accepted.response_of_checkEncoded (h : s.Accepted)
    (exact : s.space.family = .field → PrimeGroup.ExactEncoding G)
    {session aBytes tail data : Bytes} (haSmall : aBytes.length < 2 ^ 32)
    (haccepted : Noninteractive.checkEncoded ⟨session, s.protocol⟩ (frame aBytes ++ tail) data =
      .ok true) :
    ∃ a r rBytes, s.protocol.decodeAnnouncement aBytes = .ok a ∧ tail = frame rBytes ∧
      s.protocol.encodeResponse r = .ok rBytes ∧ s.ResponseOf r ∧
      s.protocol.check a (s.protocol.space.hash
        (Noninteractive.hashInput ⟨session, s.protocol⟩ aBytes data)) r = .ok true := by
  obtain ⟨⟨a, r⟩, encoded, hread, hencoded, hcheck⟩ :=
    Noninteractive.checkEncoded_eq_ok_true.1 haccepted
  obtain ⟨aBytes', rBytes, ⟨haSmall', hrSmall⟩, hbytes, ha, hr⟩ :=
    Noninteractive.decode_eq_ok_iff.1 hread
  -- The first frame is read in one way.
  have hframe := FrameCursor.next_frame aBytes tail "" haSmall
  rw [hbytes] at hframe
  have hframe' := FrameCursor.next_frame aBytes' (frameAll [rBytes]) "" haSmall'
  obtain ⟨rfl, hrest⟩ := Prod.mk.inj (Except.ok.inj (hframe'.symm.trans hframe))
  have hcanonical := h.canonical exact
  obtain rfl := Except.ok.inj (hencoded.symm.trans (hcanonical.announcement _ _ ha))
  have hencode := hcanonical.response _ _ hr
  have htrim := (h.matches_of_check hcheck).trimResponse
  refine ⟨a, r, rBytes, ha, ?_, hencode, h.vouchesResponse exact r htrim _ _ hencode hrSmall hr,
    hcheck⟩
  rw [← FrameCursor.mk.inj hrest, frameAll_cons, frameAll_nil, List.append_nil]

/-- **Proofs without disjunctions are not malleable.**  Where a statement asks for nothing but
all of its parts, the bytes of an accepted proof are determined by their first frame, which
holds the announcement; whatever else follows it is rejected. -/
theorem Accepted.nonmalleable (h : s.Accepted) (horfree : s.OrFree)
    (hprime : s.space.family = .residues → s.space.modulus.Prime)
    (laws : s.space.family = .field → PrimeGroup.Laws G)
    (exact : s.space.family = .field → PrimeGroup.ExactEncoding G) (session data : Bytes)
    {bytes aBytes : Bytes} {rest : FrameCursor} {what : String}
    (hframe : FrameCursor.next ⟨bytes⟩ what = .ok (aBytes, rest))
    (haccepted : Noninteractive.checkEncoded ⟨session, s.protocol⟩ bytes data = .ok true) :
    (∀ {bytes' : Bytes} {rest' : FrameCursor},
      FrameCursor.next ⟨bytes'⟩ what = .ok (aBytes, rest') →
      Noninteractive.checkEncoded ⟨session, s.protocol⟩ bytes' data = .ok true →
      bytes' = bytes) ∧
    ∀ tail, tail ≠ rest.rest →
      Noninteractive.checkEncoded ⟨session, s.protocol⟩ (frame aBytes ++ tail) data =
        .ok false := by
  obtain ⟨haSmall, rfl⟩ := FrameCursor.next_eq_ok.1 hframe
  have hunique : ∀ {tail}, Noninteractive.checkEncoded ⟨session, s.protocol⟩
      (frame aBytes ++ tail) data = .ok true → tail = rest.rest := fun hother => by
    obtain ⟨a, r, rBytes, ha, htail, hencode, hr, hcheck⟩ :=
      h.response_of_checkEncoded exact haSmall hother
    obtain ⟨a', r', rBytes', ha', htail', hencode', hr', hcheck'⟩ :=
      h.response_of_checkEncoded exact haSmall haccepted
    obtain rfl := Except.ok.inj (ha.symm.trans ha')
    obtain rfl := h.uniqueResponses horfree hprime laws hcheck hcheck' hr hr'
    obtain rfl := Except.ok.inj (hencode.symm.trans hencode')
    rw [htail, htail']
  refine ⟨fun hframe' hother => ?_, fun tail hne => ?_⟩
  · obtain ⟨-, rfl⟩ := FrameCursor.next_eq_ok.1 hframe'
    rw [hunique hother]
  · obtain ⟨verdict, hverdict⟩ := h.exists_checkEncoded exact session (frame aBytes ++ tail) data
    cases verdict with
    | false => exact hverdict
    | true => exact absurd (hunique hverdict) hne

/-- Whoever knows a witness can make a proof that is accepted when it is checked from its bytes,
if its frames take less than 4 GiB. -/
theorem Accepted.exists_checkEncoded_true (h : s.Accepted)
    (laws : s.space.family = .field → PrimeGroup.Laws G)
    (exact : s.space.family = .field → PrimeGroup.ExactEncoding G)
    (haSmall : s.announcementLength < 2 ^ 32) (hrSmall : s.responseLength < 2 ^ 32)
    {witness : Witness} (hknows : s.Knows witness) (session data : Bytes) :
    ∃ aBytes rBytes, aBytes.length < 2 ^ 32 ∧ Noninteractive.checkEncoded ⟨session, s.protocol⟩
      (frame aBytes ++ frame rBytes) data = .ok true := by
  obtain ⟨proof, hcheck, hreduced⟩ := (h.prove_always laws hknows session data).exists_value
  have hmatches := h.matches_of_proof hcheck
  have hresponse := hmatches.response hreduced
  obtain ⟨aBytes, ha, -⟩ := h.restoresAnnouncement exact _ hmatches.announcement
  obtain ⟨rBytes, hr, -⟩ := h.restoresResponse exact _ hresponse
  have encoding := fun hfield => (exact hfield).injectiveEncoding
  rw [← (h.fixedAnnouncement encoding).length_eq hmatches.announcement ha] at haSmall
  rw [← (h.fixedResponse encoding).length_eq hresponse hr] at hrSmall
  have hread := h.decode_frames exact session ha hr haSmall hrSmall hmatches.announcement hresponse
  rw [frameAll_cons, frameAll_cons, frameAll_nil, List.append_nil] at hread
  exact ⟨aBytes, rBytes, haSmall, (Noninteractive.checkEncoded_of_decode hread data).trans hcheck⟩

/-- Residues: both discrete logarithms are known. -/
def sixAndSeven : Statement Ristretto :=
  .formula six.space (.all [.leaf "six" (.modP six), .leaf "seven" (.modP seven)])

/-- The formula of the example can be built. -/
theorem accepted_sixAndSeven : sixAndSeven.Accepted := by
  have h : ofFormula (.all [.leaf "six" (.modP six), .leaf "seven" (.modP seven)]) =
      .ok sixAndSeven := rfl
  exact .ofFormula h (forall_mem_leaves_sixOrSeven (.modP six) (.modP seven))

/-- The formula of the example has `all` gates only. -/
theorem orFree_sixAndSeven : sixAndSeven.OrFree := by
  refine .formula (.all ?_) (forall_mem_leaves_sixOrSeven (.modP six) (.modP seven))
  exact List.forall_mem_cons.2 ⟨.leaf, List.forall_mem_singleton.2 .leaf⟩

/-- The two logarithms are a witness for the formula of the example. -/
theorem knows_sixAndSeven :
    sixAndSeven.Knows (.named [("six", .scalar 6), ("seven", .scalar 7)]) := by
  refine .formula rfl (forall_mem_leaves_sixOrSeven ?_ ?_)
  · rintro witness ⟨⟩
    exact .modP rfl
  · rintro witness ⟨⟩
    exact .modP rfl

/-- Scalars: both discrete logarithms are known. -/
def twoAndThree : Statement (Cyclic Ristretto.groupOrder) :=
  .conjunction (.discreteLog two) [.discreteLog three]

/-- The parts of the example are the two logarithms. -/
theorem forall_mem_twoAndThree {P : Statement (Cyclic Ristretto.groupOrder) → Prop}
    (htwo : P (.discreteLog two)) (hthree : P (.discreteLog three)) :
    ∀ part ∈ [.discreteLog two, .discreteLog three], P part :=
  List.forall_mem_cons.2 ⟨htwo, List.forall_mem_singleton.2 hthree⟩

/-- The conjunction of the example can be built. -/
theorem accepted_twoAndThree : twoAndThree.Accepted := by
  have h : allOf [.discreteLog two, .discreteLog three] = .ok twoAndThree := rfl
  exact .allOf h (forall_mem_twoAndThree (.discreteLog two) (.discreteLog three))

/-- The two logarithms are a witness for the conjunction of the example. -/
theorem knows_twoAndThree : twoAndThree.Knows (.all [.scalar 2, .scalar 3]) := by
  refine .conjunction rfl (List.forall_mem_cons.2 ⟨.discreteLog (by decide +kernel), ?_⟩)
  exact List.forall_mem_singleton.2 (.discreteLog (by decide +kernel))

/-- The hypotheses are satisfiable: over residues by the bytes of a proof of one branch and by an
honest proof of a formula, and over scalars by one of a conjunction.  Nothing else in the place of
the response is accepted. -/
theorem nonmalleable_sixAndSeven_twoAndThree :
    (Noninteractive.checkEncoded ⟨[], allOfOne.protocol⟩
        [0, 0, 0, 5, 0, 0, 0, 1, 1, 0, 0, 0, 5, 0, 0, 0, 1, 0] [] = .ok true ∧
      ∀ tail, tail ≠ [0, 0, 0, 5, 0, 0, 0, 1, 0] → Noninteractive.checkEncoded
        ⟨[], allOfOne.protocol⟩ ([0, 0, 0, 5, 0, 0, 0, 1, 1] ++ tail) [] = .ok false) ∧
    (∃ aBytes rBytes,
      Noninteractive.checkEncoded ⟨[1], sixAndSeven.protocol⟩ (frame aBytes ++ frame rBytes) [2] =
        .ok true ∧
      ∀ tail, tail ≠ frame rBytes →
        Noninteractive.checkEncoded ⟨[1], sixAndSeven.protocol⟩ (frame aBytes ++ tail) [2] =
          .ok false) ∧
    ∃ aBytes rBytes,
      Noninteractive.checkEncoded ⟨[], twoAndThree.protocol⟩ (frame aBytes ++ frame rBytes) [] =
        .ok true ∧
      ∀ tail, tail ≠ frame rBytes →
        Noninteractive.checkEncoded ⟨[], twoAndThree.protocol⟩ (frame aBytes ++ tail) [] =
          .ok false := by
  have hprime : Nat.Prime 11 := by norm_num
  refine ⟨?_, ?_, ?_⟩
  · have horfree : allOfOne.OrFree := .conjunction (List.forall_mem_singleton.2 (.modP one))
    have hread : Noninteractive.decode ⟨[], allOfOne.protocol⟩
        [0, 0, 0, 5, 0, 0, 0, 1, 1, 0, 0, 0, 5, 0, 0, 0, 1, 0] =
          .ok ⟨.all [.residue 1], .all [.scalar 0]⟩ := rfl
    have haccepted := (Noninteractive.checkEncoded_of_decode hread []).trans
      (Noninteractive.check_of_forall rfl check_allOfOne [])
    have hframe : FrameCursor.next ⟨[0, 0, 0, 5, 0, 0, 0, 1, 1, 0, 0, 0, 5, 0, 0, 0, 1, 0]⟩ "" =
        .ok ([0, 0, 0, 1, 1], ⟨[0, 0, 0, 5, 0, 0, 0, 1, 0]⟩) := rfl
    exact ⟨haccepted, (Accepted.nonmalleable accepted_allOfOne horfree (fun _ => hprime) nofun nofun
      [] [] hframe haccepted).2⟩
  · obtain ⟨aBytes, rBytes, hsize, haccepted⟩ := accepted_sixAndSeven.exists_checkEncoded_true
      nofun nofun (by decide) (by decide) knows_sixAndSeven [1] [2]
    exact ⟨aBytes, rBytes, haccepted, (Accepted.nonmalleable accepted_sixAndSeven
      orFree_sixAndSeven (fun _ => hprime) nofun nofun [1] [2]
      (FrameCursor.next_frame aBytes (frame rBytes) "" hsize) haccepted).2⟩
  · have horfree : twoAndThree.OrFree :=
      .conjunction (forall_mem_twoAndThree (.discreteLog two) (.discreteLog three))
    obtain ⟨aBytes, rBytes, hsize, haccepted⟩ := accepted_twoAndThree.exists_checkEncoded_true
      (fun _ => Cyclic.laws) (fun _ => Cyclic.exactEncoding) (by decide +kernel)
      (by decide +kernel) knows_twoAndThree [] []
    exact ⟨aBytes, rBytes, haccepted, (Accepted.nonmalleable accepted_twoAndThree horfree nofun
      (fun _ => Cyclic.laws) (fun _ => Cyclic.exactEncoding) [] []
      (FrameCursor.next_frame aBytes (frame rBytes) "" hsize) haccepted).2⟩

end Statement
end ThreeMove

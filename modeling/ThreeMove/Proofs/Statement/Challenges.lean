/-
# A transcript is accepted for one challenge

Where no leaf of a statement is trivial, an announcement and a response are accepted for
one challenge at most, and so a non-interactive proof that is accepted for two additional
data has the same challenge for both (`Accepted.binds_challenge`).  An elementary transcript
that answered two challenges would give zero away as a witness.  A compound hands every
change of its challenge on to some part: a conjunction to all of them, a disjunction to its
right branch, whose share is what the left one leaves, and an `any` gate to its last child.
-/

import ThreeMove.Noninteractive
import ThreeMove.Proofs.Statement.Soundness

namespace ThreeMove

/-- The challenges are finitely many, so some additional data share one. -/
theorem Noninteractive.exists_same_challenge {G : Type} (system : Noninteractive G)
    {a : Announcement G} {encoded : Bytes}
    (h : system.protocol.encodeAnnouncement a = .ok encoded) :
    ∃ data data' c, data ≠ data' ∧ c < system.protocol.space.modulus ∧
      system.challenge a data = .ok c ∧ system.challenge a data' = .ok c := by
  obtain ⟨data, data', hne, hsame⟩ := Finite.exists_ne_map_eq_of_infinite
    fun data : Bytes => (⟨system.protocol.space.hash (system.hashInput encoded data),
      ChallengeSpace.hash_lt ..⟩ : Fin system.protocol.space.modulus)
  refine ⟨data, data', _, hne, ChallengeSpace.hash_lt .., bind_eq_ok.2 ⟨encoded, h, rfl⟩,
    bind_eq_ok.2 ⟨encoded, h, ?_⟩⟩
  exact congrArg Except.ok (Fin.mk.inj hsame).symm

namespace Statement

variable {G : Type} [PrimeGroup G]

/-- No leaf is trivial: over residues `q` is prime and `y` is not one, and over scalars some
image is not neutral. -/
inductive Nontrivial : Statement G → Prop where
  | modP {s : ModP} (hprime : s.q.Prime) (hne : s.y ≠ 1) : Nontrivial (.modP s)
  | discreteLog {s : DiscreteLog G} (hne : ∃ image ∈ s.images, image ≠ 0) :
      Nontrivial (.discreteLog s)
  | conjunction {first : Statement G} {rest : List (Statement G)}
      (h : ∀ part ∈ first :: rest, Nontrivial part) : Nontrivial (.conjunction first rest)
  | disjunction {left right : Statement G} (hleft : Nontrivial left) (hright : Nontrivial right) :
      Nontrivial (.disjunction left right)
  | formula {space : ChallengeSpace} {gates : Formula (Statement G)}
      (h : ∀ leaf ∈ gates.leaves, Nontrivial leaf.2) : Nontrivial (.formula space gates)
  | sealed {scheme : HashCommitment} {inner : Statement G} (h : Nontrivial inner) :
      Nontrivial (.sealed scheme inner)

/-- An announcement and a response are accepted for one challenge at most. -/
def UniqueChallenges (s : Statement G) : Prop :=
  ∀ ⦃a : Announcement G⦄ ⦃c c' : Nat⦄ ⦃r : Response G⦄, s.protocol.check a c r = .ok true →
    s.protocol.check a c' r = .ok true → c ≡ c' [MOD s.space.modulus]

/-- A conjunction has unique challenges if its first part has. -/
theorem uniqueChallenges_conjunction {first : Statement G} {rest : List (Statement G)}
    (hfirst : first.UniqueChallenges) : (Statement.conjunction first rest).UniqueChallenges := by
  intro a c c' r h h'
  obtain ⟨as, rs, rfl, rfl, ⟨has, hrs⟩, hall⟩ := Conjunction.of_check h
  obtain ⟨_, _, ⟨⟩, ⟨⟩, -, hall'⟩ := Conjunction.of_check h'
  obtain ⟨a, as, rfl⟩ := List.exists_cons_of_length_eq_add_one has
  obtain ⟨r, rs, rfl⟩ := List.exists_cons_of_length_eq_add_one hrs
  exact hfirst (Conjunction.checkAll_cons.1 hall).1 (Conjunction.checkAll_cons.1 hall').1

/-- A disjunction has unique challenges if its right side has. -/
theorem uniqueChallenges_disjunction {left right : Statement G} (hspace : left.space = right.space)
    (hright : right.UniqueChallenges) : (Statement.disjunction left right).UniqueChallenges := by
  intro a c c' r h h'
  obtain ⟨a₁, a₂, share, r₁, r₂, rfl, rfl, -, hrest⟩ := Disjunction.of_check h
  obtain ⟨_, _, _, _, _, ⟨⟩, ⟨⟩, -, hrest'⟩ := Disjunction.of_check h'
  have hshare := hright hrest hrest'
  rw [space_protocol, ← hspace] at hshare
  exact left.space.modEq_of_sub rfl hshare

/-- Formulas that accept the same messages are handed the same challenges. -/
theorem challenges_modEq_of_checkedEach {space : ChallengeSpace}
    {children : List (Formula (Statement G))} {as : List (Announcement G)} {cs cs' : List Nat}
    {rs : List (Response G)}
    (ih : ∀ child ∈ children, (Statement.formula space child).UniqueChallenges)
    (h : CheckedEach space children as cs rs) (h' : CheckedEach space children as cs' rs) :
    List.Forall₂ (fun c c' => c ≡ c' [MOD space.modulus]) cs cs' := by
  induction h generalizing cs' with
  | nil =>
    cases h' with
    | nil => exact .nil
  | cons hchild _ ihrest =>
    cases h' with
    | cons hchild' hrest' =>
      rw [List.forall_mem_cons] at ih
      exact .cons (ih.1 hchild hchild') (ihrest ih.2 hrest')

/-- A formula has unique challenges if its leaves have. -/
theorem uniqueChallenges_formula {space : ChallengeSpace} {gates : Formula (Statement G)}
    (hgates : gates.hasChildlessGate = false) (hspace : ∀ leaf ∈ gates.leaves, leaf.2.space = space)
    (h : ∀ leaf ∈ gates.leaves, leaf.2.UniqueChallenges) :
    (Statement.formula space gates).UniqueChallenges := by
  refine Formula.induction_of_leaves
    (P := fun gates => (Statement.formula space gates).UniqueChallenges)
    (Q := fun leaf => leaf.2.space = space ∧ leaf.2.UniqueChallenges)
    ?leaf ?all ?any hgates fun leaf hleaf => ⟨hspace leaf hleaf, h leaf hleaf⟩
  case leaf =>
    rintro name s ⟨rfl, hs⟩ a c c' r (ht : FormulaProof.check _ _ a c r = _)
      (ht' : FormulaProof.check _ _ a c' r = _)
    obtain ⟨a, r, rfl, rfl, hleaf⟩ := FormulaProof.of_check_leaf ht
    obtain ⟨_, _, ⟨⟩, ⟨⟩, hleaf'⟩ := FormulaProof.of_check_leaf ht'
    exact hs hleaf hleaf'
  case all =>
    intro children hne hchildren a c c' r (ht : FormulaProof.check space _ a c r = _)
      (ht' : FormulaProof.check space _ a c' r = _)
    obtain ⟨as, rs, rfl, rfl, hchecked⟩ := of_check_all ht
    obtain ⟨_, _, ⟨⟩, ⟨⟩, hchecked'⟩ := of_check_all ht'
    -- All children are handed the challenge, and there is one.
    have hcs := challenges_modEq_of_checkedEach hchildren hchecked hchecked'
    obtain ⟨child, rest, rfl⟩ := List.exists_cons_of_ne_nil hne
    exact (List.forall₂_cons.1 hcs).1
  case any =>
    intro children _ hchildren a c c' r (ht : FormulaProof.check space _ a c r = _)
      (ht' : FormulaProof.check space _ a c' r = _)
    obtain ⟨as, shares, rs, rfl, rfl, hchecked⟩ := of_check_any ht
    obtain ⟨_, _, _, ⟨⟩, ⟨⟩, hchecked'⟩ := of_check_any ht'
    -- The shares shown are the same, so the last one, which is computed, tells.
    exact space.modEq_of_shares (challenges_modEq_of_checkedEach hchildren hchecked hchecked')

/-- Statements without a trivial leaf have unique challenges. -/
theorem Accepted.uniqueChallenges {s : Statement G} (h : s.Accepted) (hnontrivial : s.Nontrivial)
    (laws : s.space.family = .field → PrimeGroup.Laws G) : s.UniqueChallenges := by
  induction h with
  | modP m =>
    intro a c c' r ht ht'
    obtain ⟨t, r, rfl, rfl, haccepts⟩ := ModP.of_check ht
    obtain ⟨_, _, ⟨⟩, ⟨⟩, haccepts'⟩ := ModP.of_check ht'
    cases hnontrivial with
    | modP hprime hne => exact m.challenge_unique hprime hne haccepts haccepts'
  | discreteLog d =>
    intro a c c' r ht ht'
    obtain ⟨ts, r, rfl, rfl, haccepts⟩ := DiscreteLog.of_check ht
    obtain ⟨_, _, ⟨⟩, ⟨⟩, haccepts'⟩ := DiscreteLog.of_check ht'
    cases hnontrivial with
    | discreteLog hne => exact DiscreteLog.challenge_unique (laws rfl) hne haccepts haccepts'
  | allOf h _ ih =>
    obtain ⟨first, rest, rfl, rfl, -⟩ := allOf_eq_ok h
    cases hnontrivial with
    | conjunction hparts =>
      have hmem : first ∈ first :: rest := List.mem_cons_self
      exact uniqueChallenges_conjunction (ih first hmem (hparts first hmem) laws)
  | anyOf h _ _ _ ihright =>
    obtain ⟨rfl, hspace⟩ := anyOf_eq_ok h
    cases hnontrivial with
    | disjunction _ hright =>
      exact uniqueChallenges_disjunction hspace (ihright hright (hspace ▸ laws))
  | ofFormula h _ ih =>
    obtain ⟨space, rfl, hgates⟩ := ofFormula_eq_ok h
    cases hnontrivial with
    | formula hleaves =>
      refine uniqueChallenges_formula hgates.inhabited hgates.space_eq fun leaf hleaf => ?_
      exact ih leaf hleaf (hleaves leaf hleaf) (hgates.space_eq leaf hleaf ▸ laws)
  | sealedBy scheme _ ih =>
    cases hnontrivial with
    | sealed hinner =>
      intro a c c' r ht ht'
      obtain ⟨digest, r, a, opening, rfl, rfl, haccepts⟩ := Sealed.of_check ht
      obtain ⟨_, -, -, haccepts'⟩ := Sealed.check_eq_ok_true.1 ht'
      exact ih hinner laws haccepts haccepts'

/-- **A proof is bound to its challenge.**  Where no leaf of a statement is trivial, an
announcement and a response are accepted for one challenge at most; and additional data for
which one non-interactive proof is accepted give it one challenge. -/
theorem Accepted.binds_challenge {s : Statement G} (h : s.Accepted) (hnontrivial : s.Nontrivial)
    (laws : s.space.family = .field → PrimeGroup.Laws G) :
    (∀ {a : Announcement G} {c c' : Nat} {r : Response G}, s.protocol.check a c r = .ok true →
      s.protocol.check a c' r = .ok true → c ≡ c' [MOD s.space.modulus]) ∧
    ∀ (session : Bytes) {proof : Proof G} {data data' : Bytes},
      Noninteractive.check ⟨session, s.protocol⟩ proof data = .ok true →
      Noninteractive.check ⟨session, s.protocol⟩ proof data' = .ok true →
      ∃ c, Noninteractive.challenge ⟨session, s.protocol⟩ proof.announcement data = .ok c ∧
        Noninteractive.challenge ⟨session, s.protocol⟩ proof.announcement data' = .ok c := by
  have hunique := h.uniqueChallenges hnontrivial laws
  refine ⟨fun h h' => hunique h h', fun session proof data data' hcheck hcheck' => ?_⟩
  obtain ⟨c, hc, hcheck⟩ := bind_eq_ok.1 hcheck
  obtain ⟨c', hc', hcheck'⟩ := bind_eq_ok.1 hcheck'
  have hreduced : ∀ {data c}, Noninteractive.challenge ⟨session, s.protocol⟩ proof.announcement
      data = .ok c → c < s.space.modulus := fun hchallenge => by
    obtain ⟨encoded, -, heq⟩ := bind_eq_ok.1 hchallenge
    rw [← Except.ok.inj heq, ← space_protocol]
    exact ChallengeSpace.hash_lt ..
  obtain rfl : c = c' :=
    (hunique hcheck hcheck').eq_of_lt_of_lt (hreduced hc) (hreduced hc')
  exact ⟨c, hc, hc'⟩

/-- No leaf of the formula of the example is trivial. -/
theorem nontrivial_sixOrSeven : sixOrSeven.Nontrivial := by
  have hprime : Nat.Prime 11 := by norm_num
  exact .formula (forall_mem_leaves_sixOrSeven (.modP hprime (by decide))
    (.modP hprime (by decide)))

/-- Neither side of the disjunction of the example is trivial. -/
theorem nontrivial_twoOrThree : twoOrThree.Nontrivial :=
  .disjunction (.discreteLog ⟨⟨2⟩, by decide, by decide +kernel⟩)
    (.discreteLog ⟨⟨3⟩, by decide, by decide +kernel⟩)

/-- The hypotheses are satisfiable, by transcripts over residues and over scalars that are
accepted for two numbers each, and by a proof that is accepted for two additional data. -/
theorem binds_challenge_sixOrSeven_twoOrThree :
    (5 ≡ 16 [MOD sixOrSeven.space.modulus] ∧
      ∃ proof data data', data ≠ data' ∧
        Noninteractive.check ⟨[1], sixOrSeven.protocol⟩ proof data = .ok true ∧
        Noninteractive.check ⟨[1], sixOrSeven.protocol⟩ proof data' = .ok true ∧
        ∃ c, Noninteractive.challenge ⟨[1], sixOrSeven.protocol⟩ proof.announcement data = .ok c ∧
          Noninteractive.challenge ⟨[1], sixOrSeven.protocol⟩ proof.announcement data' = .ok c) ∧
    0 ≡ Ristretto.groupOrder [MOD twoOrThree.space.modulus] := by
  constructor
  · have haccepted : ∀ c < 17, sixOrSeven.protocol.check
        (.any [.leaf (.residue 1), .leaf (.residue 13)]) c
        (.any [0] [.leaf (.scalar 0), .leaf (.scalar ((7 * c + 9) % 11))]) = .ok true := by decide
    obtain ⟨hunique, hbinds⟩ :=
      Accepted.binds_challenge accepted_sixOrSeven nontrivial_sixOrSeven nofun
    refine ⟨hunique (haccepted 5 (by decide)) (haccepted 16 (by decide)), ?_⟩
    obtain ⟨data, data', c, hne, hc, hdata, hdata'⟩ :=
      Noninteractive.exists_same_challenge ⟨[1], sixOrSeven.protocol⟩
        (a := .any [.leaf (.residue 1), .leaf (.residue 13)]) rfl
    have hcheck : ∀ data, Noninteractive.challenge ⟨[1], sixOrSeven.protocol⟩
          (.any [.leaf (.residue 1), .leaf (.residue 13)]) data = .ok c →
        Noninteractive.check ⟨[1], sixOrSeven.protocol⟩
          ⟨.any [.leaf (.residue 1), .leaf (.residue 13)],
            .any [0] [.leaf (.scalar 0), .leaf (.scalar ((7 * c + 9) % 11))]⟩ data = .ok true :=
      fun data hdata => bind_eq_ok.2 ⟨c, hdata, haccepted c (Nat.lt_trans hc (by decide))⟩
    exact ⟨_, data, data', hne, hcheck data hdata, hcheck data' hdata',
      hbinds [1] (hcheck data hdata) (hcheck data' hdata')⟩
  · obtain ⟨hunique, -⟩ :=
      Accepted.binds_challenge accepted_twoOrThree nontrivial_twoOrThree fun _ => Cyclic.laws
    have hzero : twoOrThree.protocol.check (.any [.elements [⟨0⟩, ⟨0⟩], .elements [⟨0⟩]]) 0
        (.any [0] [.scalar 0, .scalar 0]) = .ok true := Disjunction.check_eq_ok_true.2
      ⟨congrArg Except.ok (by decide +kernel), congrArg Except.ok (by decide +kernel)⟩
    have horder : twoOrThree.protocol.check (.any [.elements [⟨0⟩, ⟨0⟩], .elements [⟨0⟩]])
        Ristretto.groupOrder (.any [0] [.scalar 0, .scalar 0]) = .ok true :=
      Disjunction.check_eq_ok_true.2
        ⟨congrArg Except.ok (by decide +kernel), congrArg Except.ok (by decide +kernel)⟩
    exact hunique hzero horder

end Statement
end ThreeMove

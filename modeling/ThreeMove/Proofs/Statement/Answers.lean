/-
# What a prover answers

A statement's own announcements leave secrets that it answers every challenge with, and the
response has its parts and an encoding.  A secret of another statement is refused unless it has
the parts that are asked for, but the responses that it keeps for simulated parts are not looked
at (`Accepted.respond_exact`).  So a response may be given that has no encoding
(`respond_misshapen`).
-/

import ThreeMove.Proofs.Statement.Secrets

namespace ThreeMove
namespace Statement

variable {G : Type} [PrimeGroup G] {s : Statement G} {space : ChallengeSpace}
  {gates : Formula (Statement G)} {children : List (Formula (Statement G))} {strict : Prop}

/-! ### Responses that have an encoding -/

/-- A response that fits a formula has an encoding. -/
theorem exists_gate_encoding (h : ∀ leaf ∈ gates.leaves, ∀ r, leaf.2.Fitted r →
      ∃ data, leaf.2.protocol.encodeResponse r = .ok data) (r : Response G)
    (hr : GateFitted gates r) :
    ∃ data, FormulaProof.encodeResponse space (formulaProtocols gates) r = .ok data := by
  have hchildren : ∀ {children : List (Formula (Statement G))} {rs : List (Response G)},
      (∀ child ∈ children, ∀ r, GateFitted child r →
        ∃ data, FormulaProof.encodeResponse space (formulaProtocols child) r = .ok data) →
      List.Forall₂ GateFitted children rs →
      ∃ parts, FormulaProof.encodeResponses space (formulasProtocols children) rs = .ok parts := by
    intro children rs hchild hrs
    rw [FormulaProof.encodeResponses_eq, encodeEach_formulasProtocols]
    exact exists_mapM_eq_ok fun part hpart =>
      hchild _ (List.of_mem_zip hpart).1 _ (List.forall₂_zip hrs hpart)
  induction gates using Formula.induction generalizing r with
  | leaf name s =>
    cases hr with
    | leaf hr => exact h (name, s) (List.mem_singleton_self _) _ hr
  | all children ih =>
    have hleaves := Formula.forall_mem_leavesOf.1 h
    cases hr with
    | all hrs =>
      obtain ⟨parts, hparts⟩ :=
        hchildren (fun child hchild => ih child hchild (hleaves child hchild)) hrs
      exact ⟨_, map_eq_ok.2 ⟨parts, hparts, rfl⟩⟩
  | any children ih =>
    have hleaves := Formula.forall_mem_leavesOf.1 h
    cases hr with
    | any _ hrs =>
      obtain ⟨parts, hparts⟩ :=
        hchildren (fun child hchild => ih child hchild (hleaves child hchild)) hrs
      exact ⟨_, map_eq_ok.2 ⟨parts, hparts, rfl⟩⟩

/-- A response that fits has an encoding. -/
theorem Accepted.exists_encoding (h : s.Accepted) (r : Response G) (hr : s.Fitted r) :
    ∃ data, s.protocol.encodeResponse r = .ok data := by
  induction h generalizing r with
  | modP s =>
    cases hr
    exact ⟨_, rfl⟩
  | discreteLog s =>
    cases hr
    exact ⟨_, rfl⟩
  | allOf h _ ih =>
    obtain ⟨first, rest, rfl, rfl, -⟩ := allOf_eq_ok h
    cases hr with
    | @conjunction _ _ rs hrs =>
      have hparts : ∃ parts, ((first :: rest).zip rs).mapM
          (fun part => part.1.protocol.encodeResponse part.2) = .ok parts :=
        exists_mapM_eq_ok fun part hpart =>
          ih part.1 (List.of_mem_zip hpart).1 _ (List.forall₂_zip hrs hpart)
      obtain ⟨parts, hparts⟩ := hparts
      refine ⟨frameAll parts, ?_⟩
      refine (encodeParts_protocols (·.encodeResponse) (first :: rest) rs).trans ?_
      exact map_eq_ok.2 ⟨parts, hparts, rfl⟩
  | anyOf h _ _ ihleft ihright =>
    obtain ⟨rfl, -⟩ := anyOf_eq_ok h
    cases hr with
    | disjunction hleft hright =>
      obtain ⟨leftBytes, hleft⟩ := ihleft _ hleft
      obtain ⟨rightBytes, hright⟩ := ihright _ hright
      exact ⟨_, bind_eq_ok.2 ⟨leftBytes, hleft, bind_eq_ok.2 ⟨rightBytes, hright, rfl⟩⟩⟩
  | ofFormula h _ ih =>
    obtain ⟨space, rfl, -⟩ := ofFormula_eq_ok h
    cases hr with
    | formula hr => exact exists_gate_encoding ih r hr
  | sealedBy scheme hinner ih =>
    cases hr with
    | sealed hr ha =>
      obtain ⟨responseBytes, hresponse⟩ := ih _ hr
      obtain ⟨aBytes, ha⟩ := (hinner.encodes _).ok ha
      exact ⟨_, bind_eq_ok.2 ⟨responseBytes, hresponse, bind_eq_ok.2 ⟨aBytes, ha, rfl⟩⟩⟩

/-! ### The secrets of one's own announcements -/

/-- Simulated responses have the parts that the children of a gate ask for. -/
theorem simulateEach_fitted (h : ∀ child ∈ children, ∀ c,
      (FormulaProof.simulate space (formulaProtocols child) c).Returns fun m =>
        GateFitted child m.2) {cs : List Nat} (hcount : cs.length = children.length) :
    (FormulaProof.simulateEach space (formulasProtocols children) cs).Returns fun parts =>
      List.Forall₂ GateFitted children (parts.map (·.2)) := by
  induction children generalizing cs with
  | nil => exact Sampler.returns_pure .nil
  | cons child children ih =>
    obtain ⟨c, cs, rfl⟩ := List.exists_cons_of_length_eq_add_one hcount
    rw [List.forall_mem_cons] at h
    refine (h.1 c).bind fun part hpart => (ih h.2 (Nat.succ.inj hcount)).bind fun parts hparts => ?_
    exact Sampler.returns_pure (.cons hpart hparts)

/-- A simulated response has the parts of the formula. -/
theorem simulate_gate_fitted (hgates : gates.hasChildlessGate = false)
    (h : ∀ leaf ∈ gates.leaves, ∀ c,
      (leaf.2.protocol.simulate c).Returns fun m => leaf.2.Fitted m.2) (c : Nat) :
    (FormulaProof.simulate space (formulaProtocols gates) c).Returns fun m =>
      GateFitted gates m.2 := by
  induction gates using Formula.induction generalizing c with
  | leaf name s =>
    refine (h (name, s) (List.mem_singleton_self _) c).bind fun m hm => ?_
    exact Sampler.returns_pure (.leaf hm)
  | all children ih =>
    obtain ⟨-, hgates⟩ := Formula.gate_eq_false.1 hgates
    have hleaves := Formula.forall_mem_leavesOf.1 h
    have hcount : ((formulasProtocols children).map fun _ => c).length = children.length := by
      rw [List.length_map, formulasProtocols_eq, List.length_map]
    have hparts := simulateEach_fitted (fun child hchild =>
      ih child hchild (hgates child hchild) (hleaves child hchild)) hcount
    exact hparts.bind fun parts hparts => Sampler.returns_pure (.all hparts)
  | any children ih =>
    obtain ⟨hne, hgates⟩ := Formula.gate_eq_false.1 hgates
    have hleaves := Formula.forall_mem_leavesOf.1 h
    have hpos : 0 < children.length := List.length_pos_iff.2 hne
    have hlength : (formulasProtocols children).length = children.length := by
      rw [formulasProtocols_eq, List.length_map]
    rw [formulaProtocols, FormulaProof.simulate, Sampler.mapM_drawElement, List.length_range]
    refine (Sampler.always_drawShares space _).returns.bind fun shares hshares => ?_
    have hshared : shares.length + 1 = children.length := by omega
    have hcount : (shares ++ [space.remaining c shares]).length = children.length := by
      rw [List.length_append, List.length_singleton, hshared]
    have hparts := simulateEach_fitted (fun child hchild =>
      ih child hchild (hgates child hchild) (hleaves child hchild)) hcount
    exact hparts.bind fun parts hparts => Sampler.returns_pure (.any hshared hparts)

/-- A simulated response has the parts of the statement. -/
theorem Accepted.simulate_fitted (h : s.Accepted) (c : Nat) :
    (s.protocol.simulate c).Returns fun m => s.Fitted m.2 := by
  induction h generalizing c with
  | modP s => exact (Sampler.returns_any _).bind fun r _ => Sampler.returns_pure .modP
  | discreteLog s => exact (Sampler.returns_any _).bind fun r _ => Sampler.returns_pure .discreteLog
  | allOf h _ ih =>
    obtain ⟨first, rest, rfl, rfl, -⟩ := allOf_eq_ok h
    have hparts : Sampler.Returns (List.Forall₂ (fun part m => Fitted part m.2) (first :: rest))
        (((first :: rest).map protocol).mapM fun branch => branch.simulate c) := by
      rw [List.mapM_map]
      exact Sampler.returns_mapM fun part hpart => ih part hpart c
    rw [← protocols_eq] at hparts
    exact hparts.bind fun parts hparts =>
      Sampler.returns_pure (.conjunction (List.forall₂_map_right_iff.2 hparts))
  | anyOf h _ _ ihleft ihright =>
    obtain ⟨rfl, -⟩ := anyOf_eq_ok h
    refine (Sampler.returns_any _).bind fun lc _ => ?_
    refine (ihleft lc).bind fun left hleft => (ihright _).bind fun right hright => ?_
    exact Sampler.returns_pure (.disjunction hleft hright)
  | ofFormula h _ ih =>
    obtain ⟨space, rfl, hgates⟩ := ofFormula_eq_ok h
    exact (simulate_gate_fitted hgates.inhabited ih c).imp fun _ => .formula
  | sealedBy scheme hinner ih =>
    refine ((ih c).and (hinner.simulate_shaped c)).bind fun m ⟨hr, ha⟩ => ?_
    refine (Sampler.returns_any _).bind fun message _ => (Sampler.returns_any _).bind fun _ _ => ?_
    exact Sampler.returns_pure (.sealed hr ha)

/-- The secret of a child that was announced is one of its own. -/
theorem GateSecretOf.part {child : Formula (Statement G)} {secret : Secret G}
    (h : GateSecretOf strict child secret) : PartSecretOf strict child secret := by
  refine ⟨fun _ => h, ?_⟩
  rintro - c r rfl
  exact nomatch h

/-- A simulated response that has its parts may be kept for a child. -/
theorem partSecretOf_simulated {child : Formula (Statement G)} {c : Nat} {r : Response G}
    (h : GateFitted child r) : PartSecretOf strict child (.simulated c r) := by
  refine ⟨nofun, ?_⟩
  rintro - _ _ ⟨⟩
  exact h

section Announcing

variable (space) (known : Table Witness)

/-- Announcing at every child gives a secret that each is answered with. -/
theorem announceAll_secretOf (h : ∀ child ∈ children,
      (FormulaProof.announce space known (formulaProtocols child)).Returns fun m =>
        GateSecretOf strict child m.2) :
    (FormulaProof.announceAll space known (formulasProtocols children)).Returns fun parts =>
      List.Forall₂ (GateSecretOf strict) children (parts.map (·.2)) := by
  induction children with
  | nil => exact Sampler.returns_pure .nil
  | cons child children ih =>
    rw [List.forall_mem_cons] at h
    refine h.1.bind fun part hpart => (ih h.2).bind fun parts hparts => ?_
    exact Sampler.returns_pure (.cons hpart hparts)

/-- Simulating a child for a challenge drawn for it gives what may be kept for it. -/
theorem simulateFresh_secretOf {child : Formula (Statement G)}
    (h : ∀ c, (FormulaProof.simulate space (formulaProtocols child) c).Returns fun m =>
      GateFitted child m.2) :
    (FormulaProof.simulateFresh space (formulaProtocols child)).Returns fun m =>
      PartSecretOf strict child m.2 := by
  refine (Sampler.returns_any _).bind fun c _ => (h c).bind fun m hm => ?_
  exact Sampler.returns_pure (partSecretOf_simulated hm)

/-- The child that is announced keeps its secret, the others their simulated responses. -/
theorem announceAny_secretOf
    (h : ∀ child ∈ children,
      (FormulaProof.announce space known (formulaProtocols child)).Returns fun m =>
        GateSecretOf strict child m.2)
    (hsimulated : ∀ child ∈ children,
      (FormulaProof.simulateFresh space (formulaProtocols child)).Returns fun m =>
        PartSecretOf strict child m.2) :
    (FormulaProof.announceAny space known (formulasProtocols children)).Returns fun parts =>
      List.Forall₂ (PartSecretOf strict) children (parts.map (·.2)) := by
  induction children with
  | nil => exact Sampler.returns_refuse
  | cons child children ih =>
    rw [List.forall_mem_cons] at h hsimulated
    rw [formulasProtocols, FormulaProof.announceAny]
    split
    · have hothers : Sampler.Returns
          (List.Forall₂ (fun child m => PartSecretOf strict child m.2) children)
          ((formulasProtocols children).mapM (FormulaProof.simulateFresh space)) := by
        rw [formulasProtocols_eq, List.mapM_map]
        exact Sampler.returns_mapM hsimulated.2
      refine h.1.bind fun part hpart => hothers.bind fun parts hparts => ?_
      exact Sampler.returns_pure (.cons hpart.part (List.forall₂_map_right_iff.2 hparts))
    · refine hsimulated.1.bind fun part hpart => (ih h.2 hsimulated.2).bind fun parts hparts => ?_
      exact Sampler.returns_pure (.cons hpart hparts)

/-- Announcing for a formula gives a secret that the formula is answered with. -/
theorem announce_gate_secretOf (hgates : gates.hasChildlessGate = false)
    (h : ∀ leaf ∈ gates.leaves, ∀ witness,
      (leaf.2.protocol.announce witness).Returns fun m => leaf.2.SecretOf strict m.2)
    (hsimulated : ∀ leaf ∈ gates.leaves, ∀ c,
      (leaf.2.protocol.simulate c).Returns fun m => leaf.2.Fitted m.2) :
    (FormulaProof.announce space known (formulaProtocols gates)).Returns fun m =>
      GateSecretOf strict gates m.2 := by
  induction gates using Formula.induction with
  | leaf name s =>
    rw [formulaProtocols, FormulaProof.announce]
    split
    · refine (h (name, s) (List.mem_singleton_self _) _).bind fun m hm => ?_
      exact Sampler.returns_pure (.leaf hm)
    · exact Sampler.returns_refuse
  | all children ih =>
    obtain ⟨-, hgates⟩ := Formula.gate_eq_false.1 hgates
    have hleaves := Formula.forall_mem_leavesOf.1 h
    have hleaves' := Formula.forall_mem_leavesOf.1 hsimulated
    have hparts := announceAll_secretOf space known fun child hchild =>
      ih child hchild (hgates child hchild) (hleaves child hchild) (hleaves' child hchild)
    exact hparts.bind fun parts hparts => Sampler.returns_pure (.all hparts)
  | any children ih =>
    obtain ⟨-, hgates⟩ := Formula.gate_eq_false.1 hgates
    have hleaves := Formula.forall_mem_leavesOf.1 h
    have hleaves' := Formula.forall_mem_leavesOf.1 hsimulated
    have hparts := announceAny_secretOf space known
      (fun child hchild =>
        ih child hchild (hgates child hchild) (hleaves child hchild) (hleaves' child hchild))
      fun child hchild => simulateFresh_secretOf space
        (simulate_gate_fitted (hgates child hchild) (hleaves' child hchild))
    refine hparts.bind fun parts hparts => Sampler.returns_pure (gateSecretOf_any.2 ?_)
    exact ⟨hparts.length_eq, fun part hpart => List.forall₂_zip hparts hpart⟩

end Announcing

/-- The secret of an announcement has the parts of the statement, whatever the witness, and what
it keeps fits. -/
theorem Accepted.announce_secretOf (h : s.Accepted) (strict : Prop) (witness : Witness) :
    (s.protocol.announce witness).Returns fun m => s.SecretOf strict m.2 := by
  induction h generalizing witness with
  | modP s =>
    simp only [protocol, ModP.protocol]
    split
    · split
      · exact (Sampler.returns_any _).bind fun k _ => Sampler.returns_pure .modP
      · exact Sampler.returns_refuse
    · exact Sampler.returns_refuse
  | discreteLog s =>
    simp only [protocol, DiscreteLog.protocol]
    split
    · split
      · exact (Sampler.returns_any _).bind fun k _ => Sampler.returns_pure .discreteLog
      · exact Sampler.returns_refuse
    · exact Sampler.returns_refuse
  | allOf h _ ih =>
    obtain ⟨first, rest, rfl, rfl, -⟩ := allOf_eq_ok h
    simp only [protocol, Conjunction.protocol]
    split
    · rename_i witnesses
      split
      · rename_i hcount
        have hparts : Sampler.Returns
            (List.Forall₂ (fun pair m => SecretOf strict pair.1 m.2)
              ((first :: rest).zip witnesses))
            ((((first :: rest).map protocol).zip witnesses).mapM fun part =>
              part.1.announce part.2) := by
          rw [List.zip_map_left, List.mapM_map]
          exact Sampler.returns_mapM fun pair hpair => ih pair.1 (List.of_mem_zip hpair).1 pair.2
        rw [← protocols_eq] at hparts
        rw [← protocols, protocols_eq, List.length_map] at hcount
        refine hparts.bind fun parts hparts => Sampler.returns_pure (.conjunction ?_)
        rw [List.forall₂_map_right_iff]
        exact (forall₂_iff_of_zip hcount.symm hparts fun _ _ _ hm => iff_true_intro hm).2
          fun _ _ => trivial
      · exact Sampler.returns_refuse
    · exact Sampler.returns_refuse
  | @anyOf left right _ h hleft hright ihleft ihright =>
    obtain ⟨rfl, -⟩ := anyOf_eq_ok h
    have hfresh : ∀ {branch : Statement G}, branch.Accepted →
        (Disjunction.simulateFresh branch.protocol).Returns fun m =>
          ∃ c r, m.2 = .simulated c r ∧ branch.Fitted r := fun hbranch =>
      (Sampler.returns_any _).bind fun c _ => (hbranch.simulate_fitted c).bind fun m hm =>
        Sampler.returns_pure ⟨c, m.2, rfl, hm⟩
    simp only [protocol, Disjunction.protocol]
    split
    · refine (hfresh hright).bind fun right hright => (ihleft _).bind fun left hleft => ?_
      obtain ⟨c, r, hkept, hr⟩ := hright
      refine Sampler.returns_pure ?_
      rw [hkept]
      exact .left hleft fun _ => hr
    · refine (hfresh hleft).bind fun left hleft => (ihright _).bind fun right hright => ?_
      obtain ⟨c, r, hkept, hr⟩ := hleft
      refine Sampler.returns_pure ?_
      rw [hkept]
      exact .right hright fun _ => hr
    · exact Sampler.returns_refuse
  | ofFormula h hleaves ih =>
    obtain ⟨space, rfl, hgates⟩ := ofFormula_eq_ok h
    simp only [protocol, FormulaProof.protocol]
    split
    · rename_i known
      split
      · have hsecret := announce_gate_secretOf space known hgates.inhabited ih
          fun leaf hleaf => (hleaves leaf hleaf).simulate_fitted
        exact hsecret.imp fun _ => .formula
      · exact Sampler.returns_refuse
    · exact Sampler.returns_refuse
  | sealedBy scheme hinner ih =>
    refine ((ih witness).and (hinner.announce_shaped witness)).bind fun m hm => ?_
    obtain ⟨hsecret, ha⟩ := hm
    refine (Sampler.returns_any _).bind fun message _ => (Sampler.returns_any _).bind fun _ _ => ?_
    exact Sampler.returns_pure (.sealed hsecret fun _ => ha)

/-- **What a prover answers.**  Just the secrets with the parts of the statement are answered,
the others are refused as not belonging to it.  An answer has the parts of the statement if, and
only if, what the secret keeps for simulated and for sealed parts has theirs, and then it has an
encoding.  All of this holds of every secret that the statement itself announces with. -/
theorem Accepted.respond_exact (h : s.Accepted) :
    (∀ (secret : Secret G) (c : Nat),
      DecidedBy (s.SecretOf False secret) .invalidInstanceWitnessPair
        (s.protocol.respond secret c) ∧
      ∀ r, s.protocol.respond secret c = .ok r →
        (s.Fitted r ↔ s.SecretOf True secret) ∧
          (s.Fitted r → ∃ data, s.protocol.encodeResponse r = .ok data)) ∧
    ∀ witness, (s.protocol.announce witness).Returns fun m => ∀ c, ∃ r data,
      s.protocol.respond m.2 c = .ok r ∧ s.Fitted r ∧ s.protocol.encodeResponse r = .ok data := by
  refine ⟨fun secret c => ⟨h.decided_respond secret c, fun r hr => ?_⟩, fun witness => ?_⟩
  · exact ⟨h.fitted_iff hr, h.exists_encoding r⟩
  · have hsecret := (h.announce_secretOf False witness).and (h.announce_secretOf True witness)
    refine hsecret.imp fun m ⟨hparts, hkept⟩ c => ?_
    obtain ⟨r, hr⟩ := (h.decided_respond m.2 c).ok hparts
    have hfitted := (h.fitted_iff hr).2 hkept
    obtain ⟨data, hdata⟩ := h.exists_encoding r hfitted
    exact ⟨r, data, hr, hfitted, hdata⟩

/-- Residues: the sixth power is known, or the seventh twice. -/
def sixOrSevens : Statement Ristretto :=
  .formula six.space
    (.any [.leaf "six" (.modP six),
      .all [.leaf "seven" (.modP seven), .leaf "again" (.modP seven)]])

/-- The formula of the example can be built. -/
theorem accepted_sixOrSevens : sixOrSevens.Accepted := by
  have h : ofFormula
      (.any [.leaf "six" (.modP six),
        .all [.leaf "seven" (.modP seven), .leaf "again" (.modP seven)]]) = .ok sixOrSevens := rfl
  refine .ofFormula h ?_
  rintro leaf (_ | ⟨_, _ | ⟨_, _ | ⟨_, ⟨⟩⟩⟩⟩)
  · exact .modP six
  · exact .modP seven
  · exact .modP seven

/-- A secret for `sixOrSeven`: the sixth power is known, and the seventh was simulated. -/
def secretOfSix : Secret Ristretto :=
  .any [.leaf (.nonce 7 6), .simulated 10 (.leaf (.scalar 6))]

/-- The hypothesis is satisfiable: `sixOrSevens` answers as said, whether the secret is for
`sixOrSeven` or its own. -/
theorem respond_exact_sixOrSevens :
    DecidedBy (sixOrSevens.SecretOf False secretOfSix) .invalidInstanceWitnessPair
      (sixOrSevens.protocol.respond secretOfSix 5) ∧
    (sixOrSevens.protocol.announce (.named [("six", .scalar 6)])).Returns fun m => ∀ c, ∃ r data,
      sixOrSevens.protocol.respond m.2 c = .ok r ∧ sixOrSevens.Fitted r ∧
        sixOrSevens.protocol.encodeResponse r = .ok data :=
  have hexact := Accepted.respond_exact accepted_sixOrSevens
  ⟨(hexact.1 secretOfSix 5).1, hexact.2 _⟩

/-- `sixOrSeven` can announce with a secret that `sixOrSevens` answers, with a leaf where its
formula has a gate.  The response cannot be encoded. -/
theorem respond_misshapen :
    (sixOrSeven.protocol.announce (.named [("six", .scalar 6)])).Produces
      (.any [.leaf (.residue 8), .leaf (.residue 16)], secretOfSix) ∧
    sixOrSevens.protocol.respond secretOfSix 5 =
      .ok (.any [6] [.leaf (.scalar 10), .leaf (.scalar 6)]) ∧
    ¬ sixOrSevens.Fitted (.any [6] [.leaf (.scalar 10), .leaf (.scalar 6)]) ∧
    sixOrSevens.protocol.encodeResponse (.any [6] [.leaf (.scalar 10), .leaf (.scalar 6)]) =
      .error (.shapeMismatch .response) := by
  have hdraw : ∀ {c}, c < 11 → (Sampler.drawElement six.space).Produces c :=
    fun hc => Sampler.produces_drawElement (by nofun) hc
  refine ⟨?_, rfl, ?_, rfl⟩
  · -- The nonce, and the challenge and the response of the simulated leaf.
    refine (hdraw (show 7 < 11 by decide)).bind ?_
    refine (hdraw (show 10 < 11 by decide)).bind ?_
    refine (hdraw (show 6 < 11 by decide)).bind ?_
    exact Sampler.produces_pure _
  · intro h
    obtain ⟨data, hdata⟩ := accepted_sixOrSevens.exists_encoding _ h
    exact nomatch hdata

end Statement
end ThreeMove

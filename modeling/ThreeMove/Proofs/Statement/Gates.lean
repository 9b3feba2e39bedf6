/-
# Gates over statements

A conjunction of statements and an `all` gate over formulas of them are all of their
parts, a disjunction and an `any` gate are any of theirs (`allOf_protocol`,
`formula_allOf`, `anyOf_protocol`, `formula_anyOf`).  So for formulas that can be built and
have no names in common, the gate over them can be built just as the combinator of their
statements can, and nobody who only names or verifies them can tell the two apart
(`gates_interchangeable`).
-/

import ThreeMove.Proofs.Protocol.Compounds
import ThreeMove.Proofs.Statement.Accepted

namespace ThreeMove
namespace Formula

/-- No duplicate is found among names that differ from one another and from those seen. -/
theorem go_eq_none {names seen : List String} (hnodup : names.Nodup)
    (hseen : ∀ name ∈ names, name ∉ seen) : lastDuplicate?.go seen none names = none := by
  induction names generalizing seen with
  | nil => rfl
  | cons name rest ih =>
    obtain ⟨hnew, hnodup⟩ := List.nodup_cons.1 hnodup
    obtain ⟨hname, hrest⟩ := List.forall_mem_cons.1 hseen
    have hunseen : seen.contains name = false := by simpa using hname
    rw [lastDuplicate?.go, hunseen, if_neg Bool.false_ne_true]
    refine ih hnodup fun other hother hmem => ?_
    rcases List.mem_cons.1 hmem with rfl | hmem
    · exact hnew hother
    · exact hrest other hother hmem

/-- Where there is no repetition, none is found. -/
theorem lastDuplicate?_eq_none {names : List String} (h : names.Nodup) :
    lastDuplicate? names = none :=
  go_eq_none h fun _ _ => List.not_mem_nil

/-- A formula without empty gates has a leaf. -/
theorem leaves_ne_nil {L : Type} {formula : Formula L} (h : formula.hasChildlessGate = false) :
    formula.leaves ≠ [] := by
  have hgate : ∀ children : List (Formula L), children ≠ [] →
      (∀ child ∈ children, child.leaves ≠ []) → leavesOf children ≠ [] := by
    intro children hne hchildren hnone
    obtain ⟨child, rest, rfl⟩ := List.exists_cons_of_ne_nil hne
    rw [leavesOf, List.append_eq_nil_iff] at hnone
    exact hchildren child List.mem_cons_self hnone.1
  exact induction_of_leaves (fun _ _ _ => List.cons_ne_nil _ _) hgate hgate h
    fun _ _ => trivial

end Formula

namespace Statement

variable {G : Type} [PrimeGroup G] {space : ChallengeSpace}

open Protocol

/-! ### What can be built -/

/-- A well-formed formula can be built. -/
theorem WellFormed.ofFormula {gates : Formula (Statement G)} (h : WellFormed space gates) :
    ofFormula gates = .ok (.formula space gates) := by
  rw [Statement.ofFormula, h.inhabited, if_neg Bool.false_ne_true,
    Formula.lastDuplicate?_eq_none h.nodup]
  have hspace := h.space_eq
  cases hleaves : gates.leaves with
  | nil => exact absurd hleaves (Formula.leaves_ne_nil h.inhabited)
  | cons leaf rest =>
    obtain ⟨name, first⟩ := leaf
    rw [hleaves, List.forall_mem_cons] at hspace
    obtain ⟨rfl, hrest⟩ := hspace
    exact if_pos hrest

/-- Statements that share a space are put into a conjunction. -/
theorem allOf_of_space_eq {first : Statement G} {rest : List (Statement G)}
    (h : ∀ s ∈ rest, s.space = first.space) :
    allOf (first :: rest) = .ok (.conjunction first rest) :=
  if_pos h

/-- Two statements that share a space are put into a disjunction. -/
theorem anyOf_of_space_eq {left right : Statement G} (h : left.space = right.space) :
    anyOf left right = .ok (.disjunction left right) :=
  if_pos h

/-- A gate over well-formed formulas without common names is well-formed. -/
theorem WellFormed.gate {parts : List (Formula (Statement G))} (hne : parts ≠ [])
    (hparts : ∀ part ∈ parts, WellFormed space part)
    (hnames : parts.Pairwise fun part other => part.names.Disjoint other.names) :
    WellFormed space (.all parts) ∧ WellFormed space (.any parts) := by
  have hinhabited : (parts.isEmpty || Formula.anyHasChildlessGate parts) = false :=
    Formula.gate_eq_false.2 ⟨hne, fun part hpart => (hparts part hpart).inhabited⟩
  have hnodup : ((Formula.leavesOf parts).map Prod.fst).Nodup := by
    rw [Formula.leavesOf_eq, List.map_flatMap, List.nodup_flatMap]
    exact ⟨fun part hpart => (hparts part hpart).nodup, hnames⟩
  have hspace : ∀ leaf ∈ Formula.leavesOf parts, leaf.2.space = space :=
    Formula.forall_mem_leavesOf.2 fun part hpart => (hparts part hpart).space_eq
  exact ⟨⟨hinhabited, hnodup, hspace⟩, ⟨hinhabited, hnodup, hspace⟩⟩

/-! ### The protocols of compounds -/

/-- What `allOf` builds is all of its parts. -/
theorem allOf_protocol {parts : List (Statement G)} {s : Statement G} (h : allOf parts = .ok s) :
    AllOf (parts.map protocol) s.protocol := by
  obtain ⟨first, rest, rfl, rfl, hspace⟩ := allOf_eq_ok h
  rw [Statement.protocol, protocols_eq]
  refine Conjunction.allOf (List.forall_mem_map.2 fun part hpart => ?_)
  rw [space_protocol, space_protocol]
  exact hspace part (List.mem_cons_of_mem first hpart)

/-- What `anyOf` builds is any of its two parts. -/
theorem anyOf_protocol {left right s : Statement G} (h : anyOf left right = .ok s) :
    AnyOf [left.protocol, right.protocol] s.protocol := by
  obtain ⟨rfl, hspace⟩ := anyOf_eq_ok h
  refine Disjunction.anyOf ?_
  rw [space_protocol, space_protocol]
  exact hspace

/-- The children of a gate, each a formula, are the protocols of the children. -/
theorem map_formula_protocol (parts : List (Formula (Statement G))) :
    (parts.map (formula space)).map protocol =
      (formulasProtocols parts).map (FormulaProof.protocol space) := by
  rw [formulasProtocols_eq, List.map_map, List.map_map]
  rfl

/-- An `all` gate is all of its children, each a formula of its own. -/
theorem formula_allOf {parts : List (Formula (Statement G))} (hne : parts ≠ []) :
    AllOf ((parts.map (formula space)).map protocol) (formula space (.all parts)).protocol := by
  rw [map_formula_protocol]
  refine FormulaProof.allOf ?_
  rw [formulasProtocols_eq]
  exact List.map_eq_nil_iff.not.2 hne

/-- An `any` gate is any of its children, each a formula of its own. -/
theorem formula_anyOf {parts : List (Formula (Statement G))} (hne : parts ≠ []) :
    AnyOf ((parts.map (formula space)).map protocol) (formula space (.any parts)).protocol := by
  rw [map_formula_protocol]
  refine FormulaProof.anyOf ?_
  rw [formulasProtocols_eq]
  exact List.map_eq_nil_iff.not.2 hne

/-! ### Gates for combinators -/

/-- The statements are named alike, and what the verifier of one accepts that of the other
does: byte strings for a challenge, and proofs within a session. -/
structure Interchangeable (s t : Statement G) : Prop where
  identifier : s.protocol.identifier = t.protocol.identifier
  label : s.protocol.label = t.protocol.label
  verifies : ∀ announcement c response,
    s.protocol.Verifies announcement c response ↔ t.protocol.Verifies announcement c response
  proofs : ∀ session bytes data,
    Noninteractive.checkEncoded ⟨session, s.protocol⟩ bytes data = .ok true ↔
      Noninteractive.checkEncoded ⟨session, t.protocol⟩ bytes data = .ok true

/-- Statements whose protocols agree and are named alike are interchangeable. -/
theorem Interchangeable.of_agrees {s t : Statement G} (h : s.protocol.Agrees t.protocol)
    (hidentifier : s.protocol.identifier = t.protocol.identifier)
    (hlabel : s.protocol.label = t.protocol.label) : Interchangeable s t :=
  ⟨hidentifier, hlabel, h.verifies, h.checkEncoded hidentifier hlabel⟩

/-- Two statements that are all of the same parts are interchangeable. -/
theorem Interchangeable.of_allOf {parts : List (Protocol G)} {s t : Statement G}
    (hs : AllOf parts s.protocol) (ht : AllOf parts t.protocol) : Interchangeable s t :=
  .of_agrees (hs.agrees ht (forall₂_agrees_refl parts)) (hs.identifier.trans ht.identifier.symm)
    (hs.label.trans ht.label.symm)

/-- Two statements that are any of the same parts are interchangeable. -/
theorem Interchangeable.of_anyOf {parts : List (Protocol G)} {s t : Statement G}
    (hs : AnyOf parts s.protocol) (ht : AnyOf parts t.protocol) : Interchangeable s t :=
  .of_agrees (hs.agrees ht (forall₂_agrees_refl parts)) (hs.identifier.trans ht.identifier.symm)
    (hs.label.trans ht.label.symm)

/-- Built formulas with challenges from one space are well-formed over it. -/
theorem exists_map_formula {parts : List (Formula (Statement G))} {statements : List (Statement G)}
    (h : List.Forall₂ (fun part s => ofFormula part = .ok s) parts statements)
    (hspace : ∀ s ∈ statements, s.space = space) :
    statements = parts.map (formula space) ∧ ∀ part ∈ parts, WellFormed space part := by
  induction h with
  | nil => exact ⟨rfl, nofun⟩
  | cons hpart _ ih =>
    obtain ⟨hfirst, hrest⟩ := List.forall_mem_cons.1 hspace
    obtain ⟨_, rfl, hwellFormed⟩ := ofFormula_eq_ok hpart
    obtain rfl := hfirst
    obtain ⟨rfl, hparts⟩ := ih hrest
    exact ⟨rfl, List.forall_mem_cons.2 ⟨hwellFormed, hparts⟩⟩

/-- The combinators are the gates: for formulas with challenges from one space and without
common names, the disjunction of two and the `any` gate over them, and the conjunction of
one or more and the `all` gate over them, can both be built and are interchangeable. -/
theorem gates_interchangeable :
    (∀ (left right : Formula (Statement G)) (s t : Statement G),
      ofFormula left = .ok s → ofFormula right = .ok t → s.space = t.space →
      left.names.Disjoint right.names →
      ∃ combined gate, anyOf s t = .ok combined ∧ ofFormula (.any [left, right]) = .ok gate ∧
        Interchangeable combined gate) ∧
    ∀ (parts : List (Formula (Statement G))) (statements : List (Statement G)),
      parts ≠ [] → List.Forall₂ (fun part s => ofFormula part = .ok s) parts statements →
      (∀ s ∈ statements, ∀ t ∈ statements, s.space = t.space) →
      (parts.Pairwise fun part other => part.names.Disjoint other.names) →
      ∃ combined gate, allOf statements = .ok combined ∧ ofFormula (.all parts) = .ok gate ∧
        Interchangeable combined gate := by
  constructor
  · intro left right s t hs ht hspace hnames
    obtain ⟨heq, hparts⟩ := exists_map_formula (.cons hs (.cons ht .nil))
      (List.forall_mem_cons.2 ⟨rfl, List.forall_mem_singleton.2 hspace.symm⟩)
    have hgate := (WellFormed.gate (List.cons_ne_nil _ _) hparts (List.pairwise_pair.2 hnames)).2
    have hcombined := anyOf_of_space_eq hspace
    refine ⟨_, _, hcombined, hgate.ofFormula, .of_anyOf (anyOf_protocol hcombined) ?_⟩
    show AnyOf ([s, t].map protocol) _
    rw [heq]
    exact formula_anyOf (List.cons_ne_nil _ _)
  · intro parts statements hne hstatements hspace hnames
    cases hstatements with
    | nil => exact absurd rfl hne
    | @cons part first parts rest hfirst hrest =>
      have hspace' : ∀ s ∈ first :: rest, s.space = first.space :=
        fun s hs => hspace s hs first List.mem_cons_self
      obtain ⟨heq, hparts⟩ := exists_map_formula (.cons hfirst hrest) hspace'
      have hgate := (WellFormed.gate hne hparts hnames).1
      have hcombined := allOf_of_space_eq (List.forall_mem_cons.1 hspace').2
      refine ⟨_, _, hcombined, hgate.ofFormula, .of_allOf (allOf_protocol hcombined) ?_⟩
      rw [heq]
      exact formula_allOf hne

/-- Knowing the sixth, the seventh power: as statements combined or as one formula. -/
theorem gates_interchangeable_six_seven :
    (∃ combined gate, anyOf (.formula six.space (.leaf "six" (.modP six)))
        (.formula seven.space (.leaf "seven" (.modP seven))) = .ok combined ∧
      ofFormula (.any [.leaf "six" (.modP six), .leaf "seven" (.modP seven)]) =
        .ok gate ∧ Interchangeable (G := Ristretto) combined gate) ∧
    ∃ combined gate, allOf [.formula six.space (.leaf "six" (.modP six)),
        .formula seven.space (.leaf "seven" (.modP seven))] = .ok combined ∧
      ofFormula (.all [.leaf "six" (.modP six), .leaf "seven" (.modP seven)]) =
        .ok gate ∧ Interchangeable (G := Ristretto) combined gate := by
  have hnames : (Formula.leaf "six" (Statement.modP (G := Ristretto) six)).names.Disjoint
      (Formula.leaf "seven" (Statement.modP (G := Ristretto) seven)).names := by
    simp [Formula.names, Formula.leaves]
  have hspace : seven.space = six.space := rfl
  constructor
  · exact gates_interchangeable.1 _ _ _ _ rfl rfl rfl hnames
  · exact gates_interchangeable.2 _ _ (List.cons_ne_nil _ _) (.cons rfl (.cons rfl .nil))
      (by simp [Statement.space, hspace]) (List.pairwise_pair.2 hnames)

end Statement
end ThreeMove

/-
# Statements

The language of provable statements: discrete logarithms modulo a number, equal
discrete logarithms in a group of prime order, and the compounds built from
them.  The functions `Statement.allOf`, `anyOf`, `ofFormula` and `sealedBy`
build compounds and refuse those whose parts do not share a challenge space;
`Statement.protocol` is the protocol of a statement.
-/

import ThreeMove.Protocol.ModP
import ThreeMove.Protocol.DiscreteLog
import ThreeMove.Protocol.Conjunction
import ThreeMove.Protocol.Disjunction
import ThreeMove.Protocol.FormulaProof
import ThreeMove.Protocol.Sealed

namespace ThreeMove

/-- A statement over the group `G`. -/
inductive Statement (G : Type) [PrimeGroup G] where
  | modP (statement : ModP)
  | discreteLog (statement : DiscreteLog G)
  | conjunction (first : Statement G) (rest : List (Statement G))
  | disjunction (left right : Statement G)
  | formula (space : ChallengeSpace) (gates : Formula (Statement G))
  | sealed (scheme : HashCommitment) (inner : Statement G)

namespace Statement

variable {G : Type} [PrimeGroup G]

/-- The challenge space of a statement. -/
def space : Statement G → ChallengeSpace
  | .modP s => s.space
  | .discreteLog _ => PrimeGroup.scalars G
  | .conjunction first _ => first.space
  | .disjunction left _ => left.space
  | .formula space _ => space
  | .sealed _ inner => inner.space

/-- All of the statements, of which there must be one at least. Source: `AndProof::new`. -/
def allOf : List (Statement G) → Except Error (Statement G)
  | [] => .error (.invalidParameters "AND of zero protocols")
  | first :: rest =>
    if ∀ s ∈ rest, s.space = first.space then .ok (.conjunction first rest)
    else .error .challengeSpaceMismatch

/-- One of two statements. Source: `OrProof::new`. -/
def anyOf (left right : Statement G) : Except Error (Statement G) :=
  if left.space = right.space then .ok (.disjunction left right)
  else .error .challengeSpaceMismatch

/-- A formula of statements.  No gate may be empty, no name may occur twice, and
the leaves must share a challenge space. Source: `ProofOfPartialKnowledge::new`. -/
def ofFormula (gates : Formula (Statement G)) : Except Error (Statement G) :=
  if gates.hasChildlessGate then .error (.invalidParameters "empty AND/OR gate")
  else match Formula.lastDuplicate? gates.names with
    | some name => .error (.invalidParameters ("duplicate leaf name " ++ quoted name))
    | none =>
      match gates.leaves with
      | [] => .error (.invalidParameters "formula without leaves")
      | (_, first) :: rest =>
        if ∀ leaf ∈ rest, leaf.2.space = first.space then
          .ok (.formula first.space gates)
        else .error .challengeSpaceMismatch

/-- A statement whose announcement is sealed by a commitment. Source: `DamgardTechnique::new`. -/
def sealedBy (scheme : HashCommitment) (inner : Statement G) : Statement G :=
  .sealed scheme inner

mutual

/-- The protocol of a statement. -/
def protocol : Statement G → Protocol G
  | .modP s => s.protocol
  | .discreteLog s => s.protocol
  | .conjunction first rest => Conjunction.protocol first.protocol (protocols rest)
  | .disjunction left right => Disjunction.protocol left.protocol right.protocol
  | .formula space gates => FormulaProof.protocol space (formulaProtocols gates)
  | .sealed scheme inner => Sealed.protocol scheme inner.protocol

/-- The protocols of statements in order. -/
def protocols : List (Statement G) → List (Protocol G)
  | [] => []
  | s :: rest => s.protocol :: protocols rest

/-- The formula of the protocols of a formula's leaves. -/
def formulaProtocols : Formula (Statement G) → Formula (Protocol G)
  | .leaf name s => .leaf name s.protocol
  | .all children => .all (formulasProtocols children)
  | .any children => .any (formulasProtocols children)

/-- The formulas of the protocols of several formulas' leaves. -/
def formulasProtocols : List (Formula (Statement G)) → List (Formula (Protocol G))
  | [] => []
  | child :: rest => formulaProtocols child :: formulasProtocols rest

end

/-- A statement and its protocol have the same challenge space. -/
theorem space_protocol (s : Statement G) : s.protocol.space = s.space := by
  match s with
  | .modP _ => rfl
  | .discreteLog _ => rfl
  | .conjunction first _ => exact space_protocol first
  | .disjunction left _ => exact space_protocol left
  | .formula _ _ => rfl
  | .sealed _ inner => exact space_protocol inner

end Statement
end ThreeMove

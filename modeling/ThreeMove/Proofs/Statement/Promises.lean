/-
# The promises of statements

Every statement that can be built keeps the promises of a protocol, by induction:
elementary statements by arithmetic, compounds because their parts do.  The laws
of the group are asked for only where challenges are its scalars, for only there
can elements of the group occur.
-/

import ThreeMove.Proofs.Protocol.Conjunction
import ThreeMove.Proofs.Protocol.DiscreteLog
import ThreeMove.Proofs.Protocol.Disjunction
import ThreeMove.Proofs.Protocol.FormulaHiding
import ThreeMove.Proofs.Protocol.ModP
import ThreeMove.Proofs.Protocol.Sealed
import ThreeMove.Proofs.Statement.Accepted

namespace ThreeMove
namespace Statement

variable {G : Type} [PrimeGroup G] {s : Statement G}

/-- What holds of all branches of a conjunction holds of the protocols of its parts. -/
theorem forall_mem_branches {first : Statement G} {rest : List (Statement G)}
    {P : Protocol G → Prop} :
    (∀ branch ∈ first.protocol :: protocols rest, P branch) ↔
      ∀ part ∈ first :: rest, P part.protocol := by
  rw [protocols_eq, ← List.map_cons, List.forall_mem_map]

/-- What holds of all translated leaves holds of the leaves of the formula. -/
theorem forall_mem_leaves_formulaProtocols {gates : Formula (Statement G)}
    {P : String × Protocol G → Prop} :
    (∀ leaf ∈ (formulaProtocols gates).leaves, P leaf) ↔
      ∀ leaf ∈ gates.leaves, P (leaf.1, leaf.2.protocol) := by
  rw [leaves_formulaProtocols, List.forall_mem_map]

/-- Simulation never fails, and simulated transcripts verify. -/
theorem Accepted.simulates (h : s.Accepted)
    (laws : s.space.family = .field → PrimeGroup.Laws G) : s.protocol.Simulates := by
  induction h with
  | modP s => exact s.simulates
  | discreteLog s => exact DiscreteLog.simulates (laws rfl)
  | allOf h _ ih =>
    obtain ⟨first, rest, rfl, rfl, hspace⟩ := allOf_eq_ok h
    refine Conjunction.simulates (forall_mem_branches.2 fun part hpart => ?_)
    exact ih part hpart (hspace part hpart ▸ laws)
  | anyOf h _ _ ihleft ihright =>
    obtain ⟨rfl, hspace⟩ := anyOf_eq_ok h
    exact Disjunction.simulates (ihleft laws) (ihright (hspace ▸ laws))
  | ofFormula h _ ih =>
    obtain ⟨space, rfl, hgates⟩ := ofFormula_eq_ok h
    refine FormulaProof.simulates _ (hasChildlessGate_formulaProtocols hgates.inhabited)
      (forall_mem_leaves_formulaProtocols.2 fun leaf hleaf => ?_)
    exact ih leaf hleaf (hgates.space_eq leaf hleaf ▸ laws)
  | sealedBy scheme _ ih => exact Sealed.simulates (ih laws)

/-- A prover with a witness comes to simulated transcripts. -/
theorem Accepted.hides (h : s.Accepted) (laws : s.space.family = .field → PrimeGroup.Laws G)
    {witness : Witness} (hknows : s.Knows witness) : s.protocol.Hides witness := by
  induction h generalizing witness with
  | modP s =>
    cases hknows with
    | modP h => exact s.hides h
  | discreteLog s =>
    cases hknows with
    | discreteLog h => exact DiscreteLog.hides (laws rfl) h
  | allOf h _ ih =>
    obtain ⟨first, rest, rfl, rfl, hspace⟩ := allOf_eq_ok h
    cases hknows with
    | conjunction hlength hparts =>
      refine Conjunction.hides ?_
      rw [protocols_eq]
      refine List.forall₂_map_left_iff.2
        (List.forall₂_iff_zip.2 ⟨hlength.symm, fun {part witness} hpair => ?_⟩)
      have hpart : part ∈ first :: rest := (List.of_mem_zip hpair).1
      exact ih part hpart (hspace part hpart ▸ laws) (hparts _ hpair)
  | anyOf h hleft hright ihleft ihright =>
    obtain ⟨rfl, hspace⟩ := anyOf_eq_ok h
    have hprotocols := (space_protocol _).trans (hspace.trans (space_protocol _).symm)
    cases hknows with
    | left h =>
      exact Disjunction.hides_left hprotocols (ihleft laws h) (hleft.simulates laws)
        (hright.simulates (hspace ▸ laws))
    | right h => exact Disjunction.hides_right (ihright (hspace ▸ laws) h) (hleft.simulates laws)
  | ofFormula h hleaves ih =>
    obtain ⟨space, rfl, hgates⟩ := ofFormula_eq_ok h
    cases hknows with
    | formula hholds hknown =>
      refine FormulaProof.hides (hasChildlessGate_formulaProtocols hgates.inhabited) ?_
        (forall_mem_leaves_formulaProtocols.2 fun leaf hleaf =>
          (hleaves leaf hleaf).simulates (hgates.space_eq leaf hleaf ▸ laws))
        (forall_mem_leaves_formulaProtocols.2 fun leaf hleaf witness hwitness =>
          ih leaf hleaf (hgates.space_eq leaf hleaf ▸ laws) (hknown leaf hleaf witness hwitness))
      rw [FormulaProof.covers, holds_formulaProtocols, hholds]
  | sealedBy scheme hinner ih =>
    cases hknows with
    | sealed h => exact Sealed.hides (ih laws h) (hinner.simulates laws)

/-- What can be read and verifies is simulated. -/
theorem Accepted.recovers (h : s.Accepted) (laws : s.space.family = .field → PrimeGroup.Laws G)
    (hreach : s.space.Reachable) : s.protocol.Recovers := by
  induction h with
  | modP s => exact s.recovers
  | discreteLog s => exact DiscreteLog.recovers (laws rfl) hreach
  | allOf h _ ih =>
    obtain ⟨first, rest, rfl, rfl, hspace⟩ := allOf_eq_ok h
    refine Conjunction.recovers (forall_mem_branches.2 fun part hpart => ?_)
    exact ih part hpart (hspace part hpart ▸ laws) (hspace part hpart ▸ hreach)
  | anyOf h _ _ ihleft ihright =>
    obtain ⟨rfl, hspace⟩ := anyOf_eq_ok h
    refine Disjunction.recovers ?_ (ihleft laws hreach)
      (ihright (hspace ▸ laws) (hspace ▸ hreach))
    rw [space_protocol]
    exact hreach
  | ofFormula h _ ih =>
    obtain ⟨space, rfl, hgates⟩ := ofFormula_eq_ok h
    refine FormulaProof.recovers hreach _
      (forall_mem_leaves_formulaProtocols.2 fun leaf hleaf => ?_)
    exact ih leaf hleaf (hgates.space_eq leaf hleaf ▸ laws)
      (hgates.space_eq leaf hleaf ▸ hreach)
  | sealedBy scheme _ ih => exact Sealed.recovers (ih laws hreach)

end Statement
end ThreeMove

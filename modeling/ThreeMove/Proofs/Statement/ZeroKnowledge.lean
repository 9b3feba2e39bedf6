/-
# Transcripts tell nothing of the witness

For a given challenge, the honest prover's transcript is the simulated one once
the draws of the two are paired by a bijection that keeps their chances
(`Accepted.zeroKnowledge`).  So both transcripts have one law, and with it those
of any two witnesses.
-/

import ThreeMove.Proofs.Random.Law
import ThreeMove.Proofs.Statement.Promises

namespace ThreeMove
namespace Statement

variable {G : Type} [PrimeGroup G] {s : Statement G}

/-- **The honest prover's transcripts are the simulated ones**, draw for draw: a
bijection between the ways of answering the draws of the prover and those of the
simulator keeps their chances, and both return the same transcript.  So the law of
the transcripts is the same for every witness. -/
theorem Accepted.zeroKnowledge (h : s.Accepted)
    (laws : s.space.family = .field → PrimeGroup.Laws G) {witness : Witness}
    (hknows : s.Knows witness) (c : Nat) :
    (∃ e : (s.protocol.honest witness c).Tape ≃ (s.protocol.simulated c).Tape, ∀ tape,
      (∃ t, (s.protocol.honest witness c).outcome tape = .ok t ∧
        (s.protocol.simulated c).outcome (e tape) = .ok t) ∧
      (s.protocol.simulated c).chance (e tape) = (s.protocol.honest witness c).chance tape) ∧
    ∀ witness', s.Knows witness' →
      (s.protocol.honest witness c).law = (s.protocol.honest witness' c).law := by
  have hcoupled : ∀ {witness}, s.Knows witness →
      Sampler.Coupled Eq (s.protocol.honest witness c) (s.protocol.simulated c) :=
    fun hknows => (h.hides laws hknows).honest_coupled c
  have hlaw : ∀ {witness}, s.Knows witness →
      (s.protocol.honest witness c).law = (s.protocol.simulated c).law :=
    fun hknows => (hcoupled hknows).matched_eq.law_eq
  refine ⟨?_, fun witness' hknows' => (hlaw hknows).trans (hlaw hknows').symm⟩
  obtain ⟨e, he⟩ := hcoupled hknows
  refine ⟨e, fun tape => ⟨?_, (he tape).2⟩⟩
  obtain ⟨t, t', ht, ht', rfl⟩ := (he tape).1
  exact ⟨t, ht, ht'⟩

/-- The hypotheses are satisfiable: over residues by a prover of the second leaf,
and over scalars by provers of either branch, whose transcripts have one law. -/
theorem zeroKnowledge_sixOrSeven_twoOrThree :
    (∃ e : (sixOrSeven.protocol.honest (.named [("seven", .scalar 7)]) 5).Tape ≃
        (sixOrSeven.protocol.simulated 5).Tape, ∀ tape,
      (∃ t, (sixOrSeven.protocol.honest (.named [("seven", .scalar 7)]) 5).outcome tape = .ok t ∧
        (sixOrSeven.protocol.simulated 5).outcome (e tape) = .ok t) ∧
      (sixOrSeven.protocol.simulated 5).chance (e tape) =
        (sixOrSeven.protocol.honest (.named [("seven", .scalar 7)]) 5).chance tape) ∧
    (twoOrThree.protocol.honest (.left (.scalar 2)) 5).law =
      (twoOrThree.protocol.honest (.right (.scalar 3)) 5).law := by
  have hresidues := Accepted.zeroKnowledge accepted_sixOrSeven nofun knows_sixOrSeven 5
  have hscalars := Accepted.zeroKnowledge accepted_twoOrThree (fun _ => Cyclic.laws)
    knows_twoOrThree 5
  refine ⟨hresidues.1, hscalars.2 _ (.right (.discreteLog ?_))⟩
  decide +kernel

end Statement
end ThreeMove

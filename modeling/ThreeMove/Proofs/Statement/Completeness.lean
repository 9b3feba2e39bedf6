/-
# Honest provers convince

A prover with a witness of a statement that can be built announces, answers every
challenge, and the verifier accepts (`Accepted.complete`).  It is not followed
through the statement: its transcripts are those of the simulator
(`Accepted.hides`), and those verify (`Accepted.simulates`).
-/

import ThreeMove.Proofs.Statement.Promises

namespace ThreeMove
namespace Statement

variable {G : Type} [PrimeGroup G] {s : Statement G}

/-- With a witness, announcing succeeds wherever the stream answers, and serves every challenge. -/
theorem Accepted.run_announce (h : s.Accepted)
    (laws : s.space.family = .field → PrimeGroup.Laws G) {witness : Witness}
    (hknows : s.Knows witness) {source : ByteStream}
    (hsource : (s.protocol.announce witness).Answered source) :
    ∃ a secret rest, (s.protocol.announce witness).run source = (.ok (a, secret), rest) ∧
      s.protocol.Convinces (a, secret) := by
  have halways := (h.hides laws hknows).convinces (h.simulates laws)
  obtain ⟨⟨a, secret⟩, rest, hrun, hconvinces⟩ := halways.run hsource
  exact ⟨a, secret, rest, hrun, hconvinces⟩

/-- A formula that the known witnesses do not satisfy is refused before anything
is drawn. -/
theorem run_announce_of_not_holds {space : ChallengeSpace} {gates : Formula (Statement G)}
    {known : Table Witness} (h : gates.holds known.has = false) (source : ByteStream) :
    ((formula space gates).protocol.announce (.named known)).run source =
      (.error (.error .invalidInstanceWitnessPair), source) := by
  have hcovers : FormulaProof.covers known (formulaProtocols gates) = false := by
    rw [FormulaProof.covers, holds_formulaProtocols, h]
  simp only [protocol, FormulaProof.protocol, hcovers]
  rfl

/-- **A prover with a witness convinces the verifier.**  On every stream that
answers its draws it announces, and what it keeps answers every challenge so that
the verifier accepts.  A prover of a formula, all of whose known witnesses are
right, is refused just where they do not satisfy the formula. -/
theorem Accepted.complete (h : s.Accepted)
    (laws : s.space.family = .field → PrimeGroup.Laws G) :
    (∀ witness, s.Knows witness → ∀ source, (s.protocol.announce witness).Answered source →
      ∃ a secret rest, (s.protocol.announce witness).run source = (.ok (a, secret), rest) ∧
        ∀ c, ∃ r, s.protocol.respond secret c = .ok r ∧ s.protocol.check a c r = .ok true) ∧
    ∀ space gates, s = .formula space gates → ∀ known : Table Witness,
      (∀ leaf ∈ gates.leaves, ∀ witness, known.find? leaf.1 = some witness →
        leaf.2.Knows witness) →
      ∀ source, (s.protocol.announce (.named known)).Answered source →
        (((s.protocol.announce (.named known)).run source).1 =
          .error (.error .invalidInstanceWitnessPair) ↔ gates.holds known.has = false) := by
  refine ⟨fun witness hknows source hsource => h.run_announce laws hknows hsource, ?_⟩
  intro space gates hs known hknown source hsource
  subst hs
  constructor
  · intro hrefused
    rw [Bool.eq_false_iff]
    intro hholds
    obtain ⟨a, secret, rest, hrun, -⟩ := h.run_announce laws (.formula hholds hknown) hsource
    rw [hrun] at hrefused
    exact nomatch hrefused
  · intro hholds
    rw [run_announce_of_not_holds hholds]

/-- The hypotheses are satisfiable: over residues, where one of two logarithms or
none is known, and over scalars, where the other branch is simulated. -/
theorem complete_sixOrSeven_twoOrThree :
    (∃ a secret rest,
      (sixOrSeven.protocol.announce (.named [("seven", .scalar 7)])).run
          (.ofTape (List.replicate 12 0) 0) = (.ok (a, secret), rest) ∧
        ∀ c, ∃ r, sixOrSeven.protocol.respond secret c = .ok r ∧
          sixOrSeven.protocol.check a c r = .ok true) ∧
    ((sixOrSeven.protocol.announce (.named [])).run (.ofTape [] 0)).1 =
      .error (.error .invalidInstanceWitnessPair) ∧
    ∃ a secret rest,
      (twoOrThree.protocol.announce (.left (.scalar 2))).run (.ofTape [] 0) =
          (.ok (a, secret), rest) ∧
        ∀ c, ∃ r, twoOrThree.protocol.respond secret c = .ok r ∧
          twoOrThree.protocol.check a c r = .ok true := by
  have hresidues := Accepted.complete accepted_sixOrSeven nofun
  have hscalars := Accepted.complete accepted_twoOrThree fun _ => Cyclic.laws
  refine ⟨?_, ?_, ?_⟩
  · exact hresidues.1 _ knows_sixOrSeven _ ⟨_, _, rfl, _, _, rfl, _, _, rfl, trivial⟩
  · exact (hresidues.2 _ _ rfl [] (fun _ _ _ h => nomatch h) _ trivial).2 rfl
  · exact hscalars.1 _ knows_twoOrThree _ ⟨_, _, rfl, _, _, rfl, _, _, rfl, trivial⟩

end Statement
end ThreeMove

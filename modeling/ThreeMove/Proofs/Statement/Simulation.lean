/-
# What the verifier accepts is what the simulator makes

Of the messages that can be read, the verifier accepts just those that the
simulator returns on some stream (`Accepted.verifies_iff_simulated`): simulated
transcripts verify, and from accepted messages a stream is put together that
leads the simulator to them.  No witness is involved, and announcements modulo
`p` that are accepted have order dividing `q`, also inside compounds.
-/

import ThreeMove.Proofs.Statement.Parts
import ThreeMove.Proofs.Statement.Promises

namespace ThreeMove
namespace Statement

variable {G : Type} [PrimeGroup G] {s : Statement G}

/-- Simulated transcripts answer the challenge they were made for, and verify. -/
theorem Accepted.simulated_always (h : s.Accepted)
    (laws : s.space.family = .field → PrimeGroup.Laws G) (c : Nat) :
    (s.protocol.simulated c).Always fun t => t.challenge = c ∧ s.protocol.accepts t = .ok true :=
  (h.simulates laws c).bind fun _ ⟨hcheck, _⟩ => Sampler.always_pure ⟨rfl, hcheck⟩

/-- An elementary transcript modulo `p` that is accepted, wherever it stands, has an
announcement whose `q`-th power is one. -/
theorem pow_of_accepts_restrict {t u : Transcript G} {path : Path} {m : ModP}
    (h : s.protocol.accepts t = .ok true) (hpath : s.restrict t path = some (.modP m, u)) :
    ∃ v, u.announcement = .residue v ∧ v ^ m.q % m.p = 1 := by
  obtain ⟨a, c, r⟩ := u
  obtain ⟨v, r, rfl, rfl, haccepts⟩ := ModP.of_check (accepts_restrict h hpath)
  exact ⟨v, rfl, m.pow_of_accepts haccepts⟩

/-- **The verifier accepts exactly what the simulator can produce.**  Of messages
that can be read it accepts those which some stream leads the simulator to.  On
every stream that answers its draws the simulator returns a transcript, for the
challenge it was given, that verifies.  And the announcements modulo `p` within an
accepted transcript lie in the subgroup of those whose `q`-th power is one. -/
theorem Accepted.verifies_iff_simulated (h : s.Accepted)
    (laws : s.space.family = .field → PrimeGroup.Laws G) (hreach : s.space.Reachable) (c : Nat) :
    (∀ a r aBytes rBytes, s.protocol.decodeAnnouncement aBytes = .ok a →
      s.protocol.decodeResponse rBytes = .ok r →
        (s.protocol.check a c r = .ok true ↔
          ∃ source, ((s.protocol.simulated c).run source).1 = .ok ⟨a, c, r⟩)) ∧
    (∀ source, (s.protocol.simulated c).Answered source →
      ∃ t rest, (s.protocol.simulated c).run source = (.ok t, rest) ∧ t.challenge = c ∧
        s.protocol.accepts t = .ok true) ∧
    ∀ t, s.protocol.accepts t = .ok true → ∀ path m u,
      s.restrict t path = some (.modP m, u) →
        ∃ v, u.announcement = .residue v ∧ v ^ m.q % m.p = 1 := by
  have hsimulated := h.simulated_always laws c
  refine ⟨fun a r aBytes rBytes ha hr => ⟨fun hcheck => ?_, fun ⟨source, hsource⟩ => ?_⟩,
    fun source hsource => ?_, fun t ht path m u hpath => pow_of_accepts_restrict ht hpath⟩
  · have hproduces : (s.protocol.simulated c).Produces ⟨a, c, r⟩ :=
      (h.recovers laws hreach ha hr hcheck).bind (Sampler.produces_pure _)
    exact hproduces.exists_run
  · obtain ⟨t, rest, hrun, -, haccepts⟩ := hsimulated.run (Sampler.answered_of_run hsource)
    rw [hrun] at hsource
    obtain rfl := Except.ok.inj hsource
    exact haccepts
  · exact hsimulated.run hsource

/-- The hypotheses are satisfiable: over residues by messages that verify, which
some stream therefore simulates, and over scalars by a run of the simulator. -/
theorem verifies_iff_simulated_sixOrSeven_twoOrThree :
    (∃ source, ((sixOrSeven.protocol.simulated 5).run source).1 =
      .ok ⟨.any [.leaf (.residue 1), .leaf (.residue 13)], 5,
        .any [0] [.leaf (.scalar 0), .leaf (.scalar 0)]⟩) ∧
    ∃ t rest, (twoOrThree.protocol.simulated 5).run (.ofTape [] 0) = (.ok t, rest) ∧
      t.challenge = 5 ∧ twoOrThree.protocol.accepts t = .ok true := by
  have hresidues := Accepted.verifies_iff_simulated accepted_sixOrSeven nofun nofun 5
  have hscalars := Accepted.verifies_iff_simulated accepted_twoOrThree (fun _ => Cyclic.laws)
    (fun _ => by decide +kernel) 5
  constructor
  · refine (hresidues.1 _ _ [0, 0, 0, 1, 1, 0, 0, 0, 1, 13]
      [0, 0, 0, 1, 0, 0, 0, 0, 1, 0, 0, 0, 0, 1, 0] ?_ ?_).1 ?_
    · rfl
    · rfl
    · rfl
  · exact hscalars.2.1 _ ⟨_, _, rfl, _, _, rfl, _, _, rfl, trivial⟩

end Statement
end ThreeMove

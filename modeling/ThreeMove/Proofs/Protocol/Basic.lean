/-
# What a protocol promises

Three promises of a single protocol, each of which the compounds pass on from
their parts.  `Simulates`: the simulator never fails, and its transcripts verify.
`Hides w`: for every challenge the draws of a prover with the witness `w` and of
the simulator are paired so that both come to one transcript.  `Recovers`: every
transcript that can be read and verifies is one the simulator produces.  The
first two together are completeness (`Hides.convinces`).
-/

import ThreeMove.Protocol.Basic
import ThreeMove.Proofs.Random.Coupling
import ThreeMove.Proofs.Random.Replay
import ThreeMove.Proofs.Result

namespace ThreeMove
namespace Protocol

variable {G : Type} (p : Protocol G)

/-- An announcement and a response that verify for `c`, the former with an
encoding. -/
def Fits (c : Nat) (m : Announcement G × Response G) : Prop :=
  p.check m.1 c m.2 = .ok true ∧ ∃ data, p.encodeAnnouncement m.1 = .ok data

/-- Whatever is drawn, the simulator returns a transcript that verifies. -/
def Simulates : Prop := ∀ c, (p.simulate c).Always (p.Fits c)

/-- The prover's announcement is the simulated one, and its secret, which is not
that of a simulated part, answers `c` with the simulated response. -/
structure Answers (c : Nat) (m : Announcement G × Secret G) (m' : Announcement G × Response G) :
    Prop where
  announcement : m.1 = m'.1
  own : m.2.simulatedChallenge? = none
  response : p.respond m.2 c = .ok m'.2

/-- For every challenge, prover and simulator come to one transcript when their
draws are suitably paired. -/
def Hides (witness : Witness) : Prop :=
  ∀ c, Sampler.Coupled (p.Answers c) (p.announce witness) (p.simulate c)

/-- The announcement and the secret serve every challenge. -/
def Convinces (m : Announcement G × Secret G) : Prop :=
  ∀ c, ∃ response, p.respond m.2 c = .ok response ∧ p.check m.1 c response = .ok true

/-- What can be read and verifies is what the simulator produces. -/
def Recovers : Prop :=
  ∀ {a : Announcement G} {c : Nat} {r : Response G} {aBytes rBytes : Bytes},
    p.decodeAnnouncement aBytes = .ok a → p.decodeResponse rBytes = .ok r →
      p.check a c r = .ok true → (p.simulate c).Produces (a, r)

/-- The transcript of a prover that answers the challenge `c`. -/
def honest (witness : Witness) (c : Nat) : Sampler (Transcript G) := do
  let (announcement, secret) ← p.announce witness
  let response ← Sampler.ofExcept (Failure.ofRefused (p.respond secret c))
  return ⟨announcement, c, response⟩

/-- The transcript that the simulator makes for the challenge `c`. -/
def simulated (c : Nat) : Sampler (Transcript G) := do
  let (announcement, response) ← p.simulate c
  return ⟨announcement, c, response⟩

variable {p}

/-- What always holds of simulated transcripts holds of the prover's, whatever the
challenge. -/
theorem Hides.always {witness : Witness} (h : p.Hides witness)
    {P : Nat → Announcement G × Response G → Prop} (hP : ∀ c, (p.simulate c).Always (P c)) :
    (p.announce witness).Always fun m =>
      ∀ c, ∃ response, p.respond m.2 c = .ok response ∧ P c (m.1, response) := by
  intro tape
  -- The pairing depends on the challenge, the announcement and the secret do not.
  have hanswer : ∀ c, ∃ m, (p.announce witness).outcome tape = .ok m ∧
      ∃ r, p.respond m.2 c = .ok r ∧ P c (m.1, r) := fun c => by
    obtain ⟨e, he⟩ := h c
    obtain ⟨⟨m, m', hm, hm', hanswers⟩, -⟩ := he tape
    obtain ⟨m'', hm'', hholds⟩ := hP c (e tape)
    obtain rfl : m' = m'' := Except.ok.inj (hm'.symm.trans hm'')
    exact ⟨m, hm, m'.2, hanswers.response, hanswers.announcement ▸ hholds⟩
  obtain ⟨m, hm, -⟩ := hanswer 0
  refine ⟨m, hm, fun c => ?_⟩
  obtain ⟨m', hm', hanswered⟩ := hanswer c
  obtain rfl : m = m' := Except.ok.inj (hm.symm.trans hm')
  exact hanswered

/-- A prover whose transcripts are simulated ones convinces. -/
theorem Hides.convinces {witness : Witness} (h : p.Hides witness) (hp : p.Simulates) :
    (p.announce witness).Always p.Convinces :=
  h.always (P := fun c m => p.check m.1 c m.2 = .ok true) fun c => (hp c).imp fun _ hfits => hfits.1

/-- Honest and simulated transcripts are the same on paired draws. -/
theorem Hides.honest_coupled {witness : Witness} (h : p.Hides witness) (c : Nat) :
    Sampler.Coupled Eq (p.honest witness c) (p.simulated c) := by
  refine (h c).bind fun (a, secret) (a', r) hanswers => ?_
  obtain rfl : a = a' := hanswers.announcement
  simp only [show p.respond secret c = .ok r from hanswers.response]
  exact Sampler.coupled_pure rfl

end Protocol

/-- Messages of two kinds and of one number are those of a list of pairs. -/
theorem exists_parts {α β : Type} {as : List α} {bs : List β} (h : as.length = bs.length) :
    ∃ parts : List (α × β), parts.map (·.1) = as ∧ parts.map (·.2) = bs :=
  ⟨as.zip bs, List.map_fst_zip h.le, List.map_snd_zip h.ge⟩

end ThreeMove

/-
# The extractor returns the witness, and nothing else

A statement about equal discrete logarithms has one witness at most among the scalars, since no
base is neutral (`DiscreteLog.witness_unique`).  The extractor divides the difference of two
responses by that of the two challenges, which has an inverse, as the order is prime
(`ChallengeSpace.exists_slope_eq`).  So it returns the witness just where two accepted transcripts
have one announcement and two challenges (`DiscreteLog.extract_exact`), and a statement without a
witness has an answer to one challenge at most, for each announcement.
-/

import ThreeMove.Proofs.Protocol.DiscreteLog
import ThreeMove.Proofs.Statement.Accepted

namespace ThreeMove

namespace DiscreteLog

variable {G : Type} [PrimeGroup G] {s : DiscreteLog G}

/-- A witness is the logarithm of every pair. -/
theorem isWitness_iff {x : Nat} : s.isWitness x = true ↔ ∀ pair ∈ s.pairs, x • pair.1 = pair.2 := by
  rw [isWitness, List.all_eq_true]
  exact forall₂_congr fun _ _ => beq_iff_eq

/-- The verifier accepts a transcript where its response answers its challenge. -/
theorem protocol_accepts_iff {ts : List G} {c r : Nat} :
    s.protocol.accepts ⟨.elements ts, c, .scalar r⟩ = .ok true ↔ s.accepts ts c r = true :=
  ⟨Except.ok.inj, congrArg Except.ok⟩

/-- A scalar is extracted from two transcripts that share the announcement, differ in the challenge
and are both accepted, and then it is the slope. -/
theorem extract_eq_some_iff {ts ts' : List G} {c r c' r' x : Nat} :
    s.extract ts c r ts' c' r' = some x ↔
      (ts = ts' ∧ c ≠ c' ∧ s.accepts ts c r = true ∧ s.accepts ts' c' r' = true) ∧
        (PrimeGroup.scalars G).slope c r c' r' = x := by
  rw [extract]
  split
  · rename_i hqualify
    exact Option.some_inj.trans (and_iff_right hqualify).symm
  · rename_i hqualify
    exact ⟨nofun, fun h => absurd h.1 hqualify⟩

/-- Some two transcripts, whose challenges are scalars, let `x` be extracted. -/
def Extracted (s : DiscreteLog G) (x : Nat) : Prop :=
  ∃ ts c r ts' c' r', c < PrimeGroup.order G ∧ c' < PrimeGroup.order G ∧
    s.extract ts c r ts' c' r' = some x

section

variable (laws : PrimeGroup.Laws G)

include laws

/-- Witnesses agree, up to the order. -/
theorem witness_unique {x y : Nat} (hx : s.isWitness x = true) (hy : s.isWitness y = true) :
    x ≡ y [MOD PrimeGroup.order G] := by
  obtain ⟨pair, hpair, hne⟩ := s.exists_pair
  refine laws.modEq_of_smul_eq hne ?_
  rw [isWitness_iff.1 hx pair hpair, isWitness_iff.1 hy pair hpair]

/-- What is extracted is a scalar and a witness. -/
theorem Extracted.isWitness {x : Nat} (h : s.Extracted x) :
    x < PrimeGroup.order G ∧ s.isWitness x = true := by
  obtain ⟨ts, c, r, ts', c', r', hc, hc', hextract⟩ := h
  obtain ⟨⟨rfl, hne, haccepts, haccepts'⟩, rfl⟩ := extract_eq_some_iff.1 hextract
  have hdiffer : ¬ c ≡ c' [MOD PrimeGroup.order G] := fun h => hne (h.eq_of_lt_of_lt hc hc')
  exact ⟨(PrimeGroup.scalars G).slope_lt .., isWitness_iff.2 fun pair hpair =>
    smul_slope laws haccepts haccepts' hdiffer hpair⟩

/-- A scalar that is a witness is the one extracted. -/
theorem Extracted.eq {x y : Nat} (h : s.Extracted x) (hy : y < PrimeGroup.order G)
    (hwitness : s.isWitness y = true) : y = x :=
  (witness_unique laws hwitness (h.isWitness laws).2).eq_of_lt_of_lt hy (h.isWitness laws).1

end

/-- **The extractor is exact.**  From two transcripts whose challenges are scalars it returns
something just where their announcements are one, their challenges differ and both are accepted.
It is the quotient of the difference of the responses by that of the challenges, it is a witness,
and no other scalar is, so that whatever is extracted from transcripts of the statement is the
same.  Where there is no witness, no announcement has answers to two challenges. -/
theorem extract_exact (laws : PrimeGroup.Laws G) (s : DiscreteLog G) :
    (∀ ts c r ts' c' r', c < PrimeGroup.order G → c' < PrimeGroup.order G →
      ((∃ x, s.extract ts c r ts' c' r' = some x) ↔
        ts = ts' ∧ c ≠ c' ∧ s.protocol.accepts ⟨.elements ts, c, .scalar r⟩ = .ok true ∧
          s.protocol.accepts ⟨.elements ts', c', .scalar r'⟩ = .ok true) ∧
      ∀ x, s.extract ts c r ts' c' r' = some x →
        (x < PrimeGroup.order G ∧ s.isWitness x = true ∧
          ∀ y < PrimeGroup.order G, s.isWitness y = true → y = x) ∧
        ∃ inverse, (PrimeGroup.scalars G).sub c c' * inverse % PrimeGroup.order G = 1 ∧
          x = (PrimeGroup.scalars G).sub r r' * inverse % PrimeGroup.order G) ∧
    (∀ x y, s.Extracted x → s.Extracted y → x = y) ∧
    ((∀ x, s.isWitness x = false) → ∀ ts c r c' r', c < PrimeGroup.order G →
      c' < PrimeGroup.order G → s.protocol.accepts ⟨.elements ts, c, .scalar r⟩ = .ok true →
      s.protocol.accepts ⟨.elements ts, c', .scalar r'⟩ = .ok true → c = c') := by
  simp only [protocol_accepts_iff]
  refine ⟨?_, fun x y hx hy => ?_, fun hnone ts c r c' r' hc hc' h h' => ?_⟩
  · intro ts c r ts' c' r' hc hc'
    refine ⟨⟨fun ⟨x, hx⟩ => (extract_eq_some_iff.1 hx).1, fun hqualify =>
      ⟨_, extract_eq_some_iff.2 ⟨hqualify, rfl⟩⟩⟩, fun x hx => ?_⟩
    have hextracted : s.Extracted x := ⟨ts, c, r, ts', c', r', hc, hc', hx⟩
    obtain ⟨hlt, hwitness⟩ := hextracted.isWitness laws
    refine ⟨⟨hlt, hwitness, fun y => hextracted.eq laws⟩, ?_⟩
    obtain ⟨⟨-, hne, -, -⟩, rfl⟩ := extract_eq_some_iff.1 hx
    exact (PrimeGroup.scalars G).exists_slope_eq r r' laws.prime
      fun h => hne (h.eq_of_lt_of_lt hc hc')
  · obtain ⟨hlt, hwitness⟩ := hx.isWitness laws
    exact hy.eq laws hlt hwitness
  · -- Otherwise the two would let a witness be extracted.
    by_contra hne
    have hextracted : s.Extracted ((PrimeGroup.scalars G).slope c r c' r') :=
      ⟨ts, c, r, ts, c', r', hc, hc', extract_eq_some_iff.2 ⟨⟨rfl, hne, h, h'⟩, rfl⟩⟩
    have hwitness := (hextracted.isWitness laws).2
    exact Bool.false_ne_true ((hnone _).symm.trans hwitness)

/-- The hypotheses are satisfiable: of the two bases of `two`, the responses 5 and 7 to the
challenges 0 and 1 give the witness 2 away. -/
theorem extract_exact_two : Statement.two.extract [⟨5⟩, ⟨15⟩] 0 5 [⟨5⟩, ⟨15⟩] 1 7 = some 2 ∧
    Statement.two.isWitness 2 = true ∧
    ∀ y < Ristretto.groupOrder, Statement.two.isWitness y = true → y = 2 := by
  have hextract : Statement.two.extract [⟨5⟩, ⟨15⟩] 0 5 [⟨5⟩, ⟨15⟩] 1 7 = some 2 := by
    decide +kernel
  obtain ⟨⟨-, hwitness, hunique⟩, -⟩ := ((extract_exact Cyclic.laws Statement.two).1
    [⟨5⟩, ⟨15⟩] 0 5 [⟨5⟩, ⟨15⟩] 1 7 (by decide) (by decide)).2 2 hextract
  exact ⟨hextract, hwitness, hunique⟩

end DiscreteLog
end ThreeMove

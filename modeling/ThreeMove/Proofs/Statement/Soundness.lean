/-
# Two transcripts give witnesses away

Two accepted transcripts with one announcement, for challenges that differ, give a
witness of the statement away (`Accepted.specialSound`): there are leaves that
satisfy the statement, at each of which the transcripts hold elementary ones with
one announcement and challenges that differ, and the quotient of the differences
is a witness.  The leaves are found by going down the statement, where a
difference of the challenge reaches every branch of a conjunction and one branch
of a disjunction at least.  Nothing is claimed of sealed announcements, which
might be opened in two ways.
-/

import ThreeMove.Proofs.Protocol.DiscreteLog
import ThreeMove.Proofs.Protocol.ModP
import ThreeMove.Proofs.Statement.DifferingLeaves

namespace ThreeMove
namespace Statement

open FormulaProof (leafTranscripts)

variable {G : Type} [PrimeGroup G]

/-- No part of the statement is sealed. -/
inductive Unsealed : Statement G → Prop where
  | modP (s : ModP) : Unsealed (.modP s)
  | discreteLog (s : DiscreteLog G) : Unsealed (.discreteLog s)
  | conjunction {first : Statement G} {rest : List (Statement G)}
      (h : ∀ part ∈ first :: rest, Unsealed part) : Unsealed (.conjunction first rest)
  | disjunction {left right : Statement G} (hleft : Unsealed left) (hright : Unsealed right) :
      Unsealed (.disjunction left right)
  | formula {space : ChallengeSpace} {gates : Formula (Statement G)}
      (h : ∀ leaf ∈ gates.leaves, Unsealed leaf.2) : Unsealed (.formula space gates)

/-- A set of leaves, given by the paths to them, that makes the statement hold:
every branch of a conjunction, some branch of a disjunction, and leaves that satisfy
a formula are themselves made to hold. -/
inductive SatisfiedBy : Statement G → Set Path → Prop where
  | modP {s : ModP} {leaves : Set Path} (h : [] ∈ leaves) : SatisfiedBy (.modP s) leaves
  | discreteLog {s : DiscreteLog G} {leaves : Set Path} (h : [] ∈ leaves) :
      SatisfiedBy (.discreteLog s) leaves
  | conjunction {first : Statement G} {rest : List (Statement G)} {leaves : Set Path}
      (h : ∀ index branch, (first :: rest)[index]? = some branch →
        SatisfiedBy branch {path | Step.branch index :: path ∈ leaves}) :
      SatisfiedBy (.conjunction first rest) leaves
  | left {left right : Statement G} {leaves : Set Path}
      (h : SatisfiedBy left {path | Step.left :: path ∈ leaves}) :
      SatisfiedBy (.disjunction left right) leaves
  | right {left right : Statement G} {leaves : Set Path}
      (h : SatisfiedBy right {path | Step.right :: path ∈ leaves}) :
      SatisfiedBy (.disjunction left right) leaves
  | formula {space : ChallengeSpace} {gates : Formula (Statement G)} {leaves : Set Path}
      (known : String → Bool) (hholds : gates.holds known = true)
      (h : ∀ leaf ∈ gates.leaves, known leaf.1 = true →
        SatisfiedBy leaf.2 {path | Step.leaf leaf.1 :: path ∈ leaves}) :
      SatisfiedBy (.formula space gates) leaves

/-- Two elementary transcripts give a witness `x` away: it is the reduced quotient of
the differences of the responses and of the challenges, and over scalars it is what
the extractor returns. -/
inductive Extracts : Statement G → Transcript G → Transcript G → Prop where
  | modP {s : ModP} {t c r c' r' x : Nat} (hlt : x < s.space.modulus)
      (hquotient : x * s.space.sub c c' ≡ s.space.sub r r' [MOD s.space.modulus])
      (hwitness : s.g ^ x % s.p = s.y) :
      Extracts (.modP s) ⟨.residue t, c, .scalar r⟩ ⟨.residue t, c', .scalar r'⟩
  | discreteLog {s : DiscreteLog G} {ts : List G} {c r c' r' x : Nat}
      (hlt : x < PrimeGroup.order G)
      (hquotient : x * (PrimeGroup.scalars G).sub c c' ≡ (PrimeGroup.scalars G).sub r r'
        [MOD PrimeGroup.order G])
      (hextract : s.extract ts c r ts c' r' = some x)
      (hwitness : ∀ pair ∈ s.pairs, x • pair.1 = pair.2) :
      Extracts (.discreteLog s) ⟨.elements ts, c, .scalar r⟩ ⟨.elements ts, c', .scalar r'⟩

/-- A path leads, in both transcripts, to accepted ones of an elementary statement,
with one announcement and challenges that differ, which give a witness away. -/
def GivesAway (s : Statement G) (t t' : Transcript G) (path : Path) : Prop :=
  ∃ leaf u u', s.restrict t path = some (leaf, u) ∧ s.restrict t' path = some (leaf, u') ∧
    leaf.protocol.accepts u = .ok true ∧ leaf.protocol.accepts u' = .ok true ∧
    u.announcement = u'.announcement ∧
    ¬ u.challenge ≡ u'.challenge [MOD leaf.space.modulus] ∧ leaf.Extracts u u'

/-- What a step leads to gives away at its paths what the whole does at theirs. -/
theorem givesAway_cons {s s' : Statement G} {t t' u u' : Transcript G} {step : Step}
    (h : s.part t step = some (s', u)) (h' : s.part t' step = some (s', u')) :
    {path | step :: path ∈ {path | s.GivesAway t t' path}} =
      {path | s'.GivesAway u u' path} := by
  ext path
  change s.GivesAway t t' (step :: path) ↔ s'.GivesAway u u' path
  simp only [GivesAway, restrict_cons h, restrict_cons h']

/-! ### Elementary statements -/

/-- Two transcripts of a logarithm over residues of prime order give it away. -/
theorem givesAway_modP {m : ModP} {t t' : Transcript G} (hprime : m.q.Prime)
    (hsame : t.announcement = t'.announcement)
    (ht : (Statement.modP m : Statement G).protocol.accepts t = .ok true)
    (ht' : (Statement.modP m : Statement G).protocol.accepts t' = .ok true)
    (hc : ¬ t.challenge ≡ t'.challenge [MOD m.q]) : (Statement.modP m).GivesAway t t' [] := by
  refine ⟨_, _, _, rfl, rfl, ht, ht', hsame, hc, ?_⟩
  obtain ⟨a, c, r⟩ := t
  obtain ⟨a', c', r'⟩ := t'
  obtain rfl : a = a' := hsame
  obtain ⟨v, r, rfl, rfl, haccepts⟩ := ModP.of_check ht
  obtain ⟨_, r', ⟨⟩, rfl, haccepts'⟩ := ModP.of_check ht'
  exact .modP (m.space.slope_lt ..) (m.space.slope_mul_sub r r' hprime hc)
    (m.pow_slope hprime haccepts haccepts' hc)

/-- Two transcripts of logarithms in a group of prime order give them away. -/
theorem givesAway_discreteLog {d : DiscreteLog G} {t t' : Transcript G}
    (laws : PrimeGroup.Laws G) (hsame : t.announcement = t'.announcement)
    (ht : (Statement.discreteLog d).protocol.accepts t = .ok true)
    (ht' : (Statement.discreteLog d).protocol.accepts t' = .ok true)
    (hc : ¬ t.challenge ≡ t'.challenge [MOD PrimeGroup.order G]) :
    (Statement.discreteLog d).GivesAway t t' [] := by
  refine ⟨_, _, _, rfl, rfl, ht, ht', hsame, hc, ?_⟩
  obtain ⟨a, c, r⟩ := t
  obtain ⟨a', c', r'⟩ := t'
  obtain rfl : a = a' := hsame
  obtain ⟨ts, r, rfl, rfl, haccepts⟩ := DiscreteLog.of_check ht
  obtain ⟨_, r', ⟨⟩, rfl, haccepts'⟩ := DiscreteLog.of_check ht'
  exact .discreteLog ((PrimeGroup.scalars G).slope_lt ..)
    ((PrimeGroup.scalars G).slope_mul_sub r r' laws.prime hc)
    (DiscreteLog.extract_eq haccepts haccepts' hc)
    fun pair hpair => DiscreteLog.smul_slope laws haccepts haccepts' hc hpair

/-! ### Compounds -/

/-- The leaves where two accepted transcripts, with one announcement and challenges
that differ, give a witness away satisfy the statement. -/
def Sound (s : Statement G) : Prop :=
  ∀ t t' : Transcript G, t.announcement = t'.announcement →
    s.protocol.accepts t = .ok true → s.protocol.accepts t' = .ok true →
    ¬ t.challenge ≡ t'.challenge [MOD s.space.modulus] →
    s.SatisfiedBy {path | s.GivesAway t t' path}

/-- A conjunction is sound if its parts are. -/
theorem sound_conjunction {first : Statement G} {rest : List (Statement G)}
    (hspace : ∀ branch ∈ first :: rest, branch.space = first.space)
    (ih : ∀ branch ∈ first :: rest, branch.Sound) :
    (Statement.conjunction first rest).Sound := by
  rintro ⟨a, c, r⟩ ⟨a', c', r'⟩ hsame ht ht' hc
  obtain rfl : a = a' := hsame
  refine .conjunction fun index branch hbranch => ?_
  have hmem : branch ∈ first :: rest := List.mem_of_getElem? hbranch
  obtain ⟨as, part, answer, rfl, hpart, hstep⟩ := exists_part_branch ht hbranch
  obtain ⟨_, part', answer', ⟨⟩, hpart', hstep'⟩ := exists_part_branch ht' hbranch
  obtain rfl : part = part' := Option.some.inj (hpart.symm.trans hpart')
  rw [givesAway_cons hstep hstep']
  refine ih branch hmem _ _ rfl (accepts_part ht hstep) (accepts_part ht' hstep') ?_
  rw [hspace branch hmem]
  exact hc

/-- A disjunction is sound if its sides are. -/
theorem sound_disjunction {left right : Statement G} (hspace : left.space = right.space)
    (ihleft : left.Sound) (ihright : right.Sound) :
    (Statement.disjunction left right).Sound := by
  rintro ⟨a, c, r⟩ ⟨a', c', r'⟩ hsame ht ht' hc
  obtain rfl : a = a' := hsame
  obtain ⟨a₁, a₂, share, r₁, r₂, rfl, rfl, -, -⟩ := Disjunction.of_check ht
  obtain ⟨_, _, share', r₁', r₂', ⟨⟩, rfl, -, -⟩ := Disjunction.of_check ht'
  have hleft : ∀ c share r₁ r₂, (Statement.disjunction left right).part
      ⟨.any [a₁, a₂], c, .any [share] [r₁, r₂]⟩ .left = some (left, ⟨a₁, share, r₁⟩) :=
    fun _ _ _ _ => rfl
  have hright : ∀ c share r₁ r₂, (Statement.disjunction left right).part
      ⟨.any [a₁, a₂], c, .any [share] [r₁, r₂]⟩ .right =
        some (right, ⟨a₂, left.space.sub c share, r₂⟩) := fun _ _ _ _ => rfl
  by_cases hshare : share ≡ share' [MOD left.space.modulus]
  · refine .right ?_
    rw [givesAway_cons (hright ..) (hright ..)]
    refine ihright _ _ rfl (accepts_part ht (hright ..)) (accepts_part ht' (hright ..)) ?_
    rw [← hspace]
    exact fun hrest => hc (left.space.modEq_of_sub hshare hrest)
  · refine .left ?_
    rw [givesAway_cons (hleft ..) (hleft ..)]
    exact ihleft _ _ rfl (accepts_part ht (hleft ..)) (accepts_part ht' (hleft ..)) hshare

/-- A formula is sound if its leaves are. -/
theorem sound_formula {space : ChallengeSpace} {gates : Formula (Statement G)}
    (hgates : WellFormed space gates) (ih : ∀ leaf ∈ gates.leaves, leaf.2.Sound) :
    (Statement.formula space gates).Sound := by
  classical
  rintro ⟨a, c, r⟩ ⟨a', c', r'⟩ hsame ht ht' hc
  obtain rfl : a = a' := hsame
  have hentries : EntriesOf gates.leaves (leafTranscripts space gates a c r) := entriesOf_check ht
  have hentries' : EntriesOf gates.leaves (leafTranscripts space gates a c' r') :=
    entriesOf_check ht'
  let known : String → Bool := fun name =>
    ∃ entry ∈ leafTranscripts space gates a c r, ∃ entry' ∈ leafTranscripts space gates a c' r',
      entry.1 = name ∧ entry'.1 = name ∧
        ¬ entry.2.2.challenge ≡ entry'.2.2.challenge [MOD space.modulus]
  have hholds : gates.holds known = true :=
    holds_of_challenges gates ht ht' hc fun entry hentry entry' hentry' hname hdiffer =>
      decide_eq_true ⟨entry, hentry, entry', hentry', rfl, hname.symm, hdiffer⟩
  refine .formula known hholds fun leaf hleaf hknown => ?_
  obtain ⟨entry, hentry, entry', hentry', hname, hname', hdiffer⟩ := of_decide_eq_true hknown
  have hstep : (Statement.formula space gates).part ⟨a, c, r⟩ (.leaf leaf.1) =
      some (leaf.2, entry.2.2) := hentries.lookup hgates.nodup hleaf hentry hname
  have hstep' : (Statement.formula space gates).part ⟨a, c', r'⟩ (.leaf leaf.1) =
      some (leaf.2, entry'.2.2) := hentries'.lookup hgates.nodup hleaf hentry' hname'
  have hannouncement : entry.2.2.announcement = entry'.2.2.announcement :=
    hentries.announcement_eq hgates.nodup (announced_of_check ht ht') hentry hentry'
      (hname.trans hname'.symm)
  rw [givesAway_cons hstep hstep']
  refine ih leaf hleaf _ _ hannouncement (accepts_part ht hstep) (accepts_part ht' hstep') ?_
  rw [hgates.space_eq leaf hleaf]
  exact hdiffer

/-- Statements without sealed parts are sound. -/
theorem Accepted.sound {s : Statement G} (h : s.Accepted) (hunsealed : s.Unsealed)
    (hprime : s.space.family = .residues → s.space.modulus.Prime)
    (laws : s.space.family = .field → PrimeGroup.Laws G) : s.Sound := by
  induction h with
  | modP m =>
    intro t t' hsame ht ht' hc
    exact .modP (givesAway_modP (hprime rfl) hsame ht ht' hc)
  | discreteLog d =>
    intro t t' hsame ht ht' hc
    exact .discreteLog (givesAway_discreteLog (laws rfl) hsame ht ht' hc)
  | allOf h _ ih =>
    obtain ⟨first, rest, rfl, rfl, hspace⟩ := allOf_eq_ok h
    cases hunsealed with
    | conjunction hunsealed =>
      refine sound_conjunction hspace fun branch hbranch => ?_
      exact ih branch hbranch (hunsealed branch hbranch) (hspace branch hbranch ▸ hprime)
        (hspace branch hbranch ▸ laws)
  | anyOf h _ _ ihleft ihright =>
    obtain ⟨rfl, hspace⟩ := anyOf_eq_ok h
    cases hunsealed with
    | disjunction hleft hright =>
      exact sound_disjunction hspace (ihleft hleft hprime laws)
        (ihright hright (hspace ▸ hprime) (hspace ▸ laws))
  | ofFormula h _ ih =>
    obtain ⟨space, rfl, hgates⟩ := ofFormula_eq_ok h
    cases hunsealed with
    | formula hunsealed =>
      refine sound_formula hgates fun leaf hleaf => ?_
      exact ih leaf hleaf (hunsealed leaf hleaf) (hgates.space_eq leaf hleaf ▸ hprime)
        (hgates.space_eq leaf hleaf ▸ laws)
  | sealedBy scheme _ _ => exact nomatch hunsealed

/-- **Two transcripts give witnesses away.**  If no part of a statement is sealed, then
of any two accepted transcripts with one announcement, whose challenges differ, the
leaves where they give a witness away satisfy the statement.  Over residues the size
of the challenge space has to be prime. -/
theorem Accepted.specialSound {s : Statement G} (h : s.Accepted) (hunsealed : s.Unsealed)
    (hprime : s.space.family = .residues → s.space.modulus.Prime)
    (laws : s.space.family = .field → PrimeGroup.Laws G) {t t' : Transcript G}
    (hsame : t.announcement = t'.announcement) (ht : s.protocol.accepts t = .ok true)
    (ht' : s.protocol.accepts t' = .ok true)
    (hc : ¬ t.challenge ≡ t'.challenge [MOD s.space.modulus]) :
    ∃ leaves : Set Path, s.SatisfiedBy leaves ∧ ∀ path ∈ leaves, s.GivesAway t t' path :=
  ⟨{path | s.GivesAway t t' path}, h.sound hunsealed hprime laws t t' hsame ht ht' hc,
    fun _ hpath => hpath⟩

/-- Nothing is sealed in the formula of the example. -/
theorem unsealed_sixOrSeven : sixOrSeven.Unsealed :=
  .formula (forall_mem_leaves_sixOrSeven (.modP six) (.modP seven))

/-- The hypotheses are satisfiable: over residues by two transcripts that differ at
the second leaf, and over scalars by two that differ in the left branch. -/
theorem specialSound_sixOrSeven_twoOrThree :
    (∃ leaves : Set Path, sixOrSeven.SatisfiedBy leaves ∧ ∀ path ∈ leaves,
      sixOrSeven.GivesAway
        ⟨.any [.leaf (.residue 1), .leaf (.residue 13)], 5,
          .any [0] [.leaf (.scalar 0), .leaf (.scalar 0)]⟩
        ⟨.any [.leaf (.residue 1), .leaf (.residue 13)], 6,
          .any [0] [.leaf (.scalar 0), .leaf (.scalar 7)]⟩ path) ∧
    ∃ leaves : Set Path, twoOrThree.SatisfiedBy leaves ∧ ∀ path ∈ leaves,
      twoOrThree.GivesAway
        ⟨.any [.elements [⟨0⟩, ⟨0⟩], .elements [⟨0⟩]], 0, .any [0] [.scalar 0, .scalar 0]⟩
        ⟨.any [.elements [⟨0⟩, ⟨0⟩], .elements [⟨0⟩]], 1, .any [1] [.scalar 2, .scalar 0]⟩
        path := by
  constructor
  · refine Accepted.specialSound accepted_sixOrSeven unsealed_sixOrSeven (fun _ => ?_) nofun rfl
      rfl rfl (by decide)
    show Nat.Prime 11
    norm_num
  · refine Accepted.specialSound accepted_twoOrThree (.disjunction (.discreteLog two)
      (.discreteLog three)) nofun (fun _ => Cyclic.laws) rfl ?_ ?_ (by decide +kernel)
    · exact Disjunction.check_eq_ok_true.2
        ⟨congrArg Except.ok (by decide +kernel), congrArg Except.ok (by decide +kernel)⟩
    · exact Disjunction.check_eq_ok_true.2
        ⟨congrArg Except.ok (by decide +kernel), congrArg Except.ok (by decide +kernel)⟩

end Statement
end ThreeMove

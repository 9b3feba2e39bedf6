/-
# Statements that can be built, and their witnesses

`Statement.Accepted` holds of the statements that `allOf`, `anyOf`, `ofFormula`
and `sealedBy` build from elementary ones.  What these let through is told by
`allOf_eq_ok`, `anyOf_eq_ok` and `ofFormula_eq_ok`: the parts of a compound share
its challenge space, and in a formula no gate is empty and no name occurs twice.
`Statement.Knows` is what a witness has to satisfy, in the terms of the elementary
statements: nothing is asked of the branch of a disjunction that is not proved, of
the leaves of a formula that are not known, or of known names that are not leaves.
-/

import ThreeMove.Statement
import ThreeMove.Proofs.Group.Cyclic
import ThreeMove.Proofs.Protocol.Formula
import Mathlib.Data.List.Nodup

namespace ThreeMove
namespace Formula

/-- Where no duplicate is found, none was found before, and the names differ from those seen and
from one another. -/
theorem nodup_of_go {names : List String} {seen : List String} {found : Option String}
    (h : lastDuplicate?.go seen found names = none) :
    found = none ∧ (∀ name ∈ names, name ∉ seen) ∧ names.Nodup := by
  induction names generalizing seen found with
  | nil => exact ⟨h, fun _ h => absurd h List.not_mem_nil, List.nodup_nil⟩
  | cons name rest ih =>
    obtain ⟨hfound, hseen, hrest⟩ := ih h
    by_cases hname : name ∈ seen
    · simp [hname] at hfound
    · have hnew : name ∉ rest := fun hmem => hseen name hmem List.mem_cons_self
      refine ⟨by simpa [hname] using hfound, ?_, List.nodup_cons.2 ⟨hnew, hrest⟩⟩
      refine List.forall_mem_cons.2 ⟨hname, fun other hother hmem => ?_⟩
      exact hseen other hother (List.mem_cons_of_mem _ hmem)

/-- Where no repetition is found, there is none. -/
theorem nodup_of_lastDuplicate? {names : List String} (h : lastDuplicate? names = none) :
    names.Nodup :=
  (nodup_of_go h).2.2

end Formula

namespace Statement

variable {G : Type} [PrimeGroup G]

/-- The statements that can be built.  The parameters of elementary statements
are checked by their types. -/
inductive Accepted : Statement G → Prop where
  | modP (s : ModP) : Accepted (.modP s)
  | discreteLog (s : DiscreteLog G) : Accepted (.discreteLog s)
  | allOf {parts : List (Statement G)} {s : Statement G} (h : allOf parts = .ok s)
      (hparts : ∀ part ∈ parts, Accepted part) : Accepted s
  | anyOf {left right s : Statement G} (h : anyOf left right = .ok s) (hleft : Accepted left)
      (hright : Accepted right) : Accepted s
  | ofFormula {gates : Formula (Statement G)} {s : Statement G} (h : ofFormula gates = .ok s)
      (hleaves : ∀ leaf ∈ gates.leaves, Accepted leaf.2) : Accepted s
  | sealedBy (scheme : HashCommitment) {inner : Statement G} (hinner : Accepted inner) :
      Accepted (sealedBy scheme inner)

/-- What holds of the parts of a formula that can be built. -/
structure WellFormed (space : ChallengeSpace) (gates : Formula (Statement G)) : Prop where
  inhabited : gates.hasChildlessGate = false
  nodup : gates.names.Nodup
  space_eq : ∀ leaf ∈ gates.leaves, leaf.2.space = space

/-- What `allOf` builds is the conjunction of parts that share the first one's space. -/
theorem allOf_eq_ok {parts : List (Statement G)} {s : Statement G} (h : allOf parts = .ok s) :
    ∃ first rest, parts = first :: rest ∧ s = .conjunction first rest ∧
      ∀ part ∈ first :: rest, part.space = first.space := by
  cases parts with
  | nil => exact nomatch h
  | cons first rest =>
    rw [allOf] at h
    split at h
    · rename_i hspace
      exact ⟨first, rest, rfl, (Except.ok.inj h).symm, List.forall_mem_cons.2 ⟨rfl, hspace⟩⟩
    · exact nomatch h

/-- What `anyOf` builds is the disjunction of two statements that share a space. -/
theorem anyOf_eq_ok {left right s : Statement G} (h : anyOf left right = .ok s) :
    s = .disjunction left right ∧ left.space = right.space := by
  rw [anyOf] at h
  split at h
  · rename_i hspace
    exact ⟨(Except.ok.inj h).symm, hspace⟩
  · exact nomatch h

/-- What is built of a formula is the formula, well formed in some space. -/
theorem ofFormula_eq_ok {gates : Formula (Statement G)} {s : Statement G}
    (h : ofFormula gates = .ok s) : ∃ space, s = .formula space gates ∧ WellFormed space gates := by
  rw [ofFormula] at h
  split at h
  · exact nomatch h
  · rename_i hgates
    split at h
    · exact nomatch h
    · rename_i hnames
      split at h
      · exact nomatch h
      · rename_i name first rest hleaves
        split at h
        · rename_i hspace
          refine ⟨first.space, (Except.ok.inj h).symm, Bool.eq_false_iff.2 hgates,
            Formula.nodup_of_lastDuplicate? hnames, ?_⟩
          rw [hleaves]
          exact List.forall_mem_cons.2 ⟨rfl, hspace⟩
        · exact nomatch h

/-- The witness has the shape of the statement, and what it holds for elementary
statements satisfies them. -/
inductive Knows : Statement G → Witness → Prop where
  | modP {s : ModP} {x : Nat} (h : s.g ^ x % s.p = s.y) : Knows (.modP s) (.scalar x)
  | discreteLog {s : DiscreteLog G} {x : Nat} (h : ∀ pair ∈ s.pairs, x • pair.1 = pair.2) :
      Knows (.discreteLog s) (.scalar x)
  | conjunction {first : Statement G} {rest : List (Statement G)} {witnesses : List Witness}
      (hlength : witnesses.length = (first :: rest).length)
      (h : ∀ part ∈ (first :: rest).zip witnesses, Knows part.1 part.2) :
      Knows (.conjunction first rest) (.all witnesses)
  | left {left right : Statement G} {witness : Witness} (h : Knows left witness) :
      Knows (.disjunction left right) (.left witness)
  | right {left right : Statement G} {witness : Witness} (h : Knows right witness) :
      Knows (.disjunction left right) (.right witness)
  | formula {space : ChallengeSpace} {gates : Formula (Statement G)} {known : Table Witness}
      (hholds : gates.holds known.has = true)
      (h : ∀ leaf ∈ gates.leaves, ∀ witness, known.find? leaf.1 = some witness →
        Knows leaf.2 witness) :
      Knows (.formula space gates) (.named known)
  | sealed {scheme : HashCommitment} {inner : Statement G} {witness : Witness}
      (h : Knows inner witness) : Knows (.sealed scheme inner) witness

/-! ### The protocols of the parts -/

/-- The parts are translated one by one. -/
theorem protocols_eq (parts : List (Statement G)) : protocols parts = parts.map protocol := by
  induction parts with
  | nil => rfl
  | cons part rest ih => rw [protocols, ih, List.map_cons]

/-- The children are translated one by one. -/
theorem formulasProtocols_eq (children : List (Formula (Statement G))) :
    formulasProtocols children = children.map formulaProtocols := by
  induction children with
  | nil => rfl
  | cons child rest ih => rw [formulasProtocols, ih, List.map_cons]

/-- Translation keeps the leaves and their names. -/
theorem leaves_formulaProtocols (gates : Formula (Statement G)) :
    (formulaProtocols gates).leaves = gates.leaves.map fun leaf => (leaf.1, leaf.2.protocol) := by
  have hgate : ∀ children : List (Formula (Statement G)),
      (∀ child ∈ children, (formulaProtocols child).leaves =
        child.leaves.map fun leaf => (leaf.1, leaf.2.protocol)) →
      Formula.leavesOf (formulasProtocols children) =
        (Formula.leavesOf children).map fun leaf => (leaf.1, leaf.2.protocol) :=
    fun children ih => by
      rw [formulasProtocols_eq, Formula.leavesOf_eq, Formula.leavesOf_eq, List.flatMap_map,
        List.map_flatMap]
      exact List.flatMap_congr ih
  induction gates using Formula.induction with
  | leaf name s => rfl
  | all children ih => exact hgate children ih
  | any children ih => exact hgate children ih

/-- Translation keeps what a formula asks to be known. -/
theorem holds_formulaProtocols (gates : Formula (Statement G)) (known : String → Bool) :
    (formulaProtocols gates).holds known = gates.holds known := by
  induction gates using Formula.induction with
  | leaf name s => rfl
  | all children ih =>
    simp only [formulaProtocols, Formula.holds, formulasProtocols_eq, Formula.allHold_eq,
      List.all_map]
    rw [Bool.eq_iff_iff, List.all_eq_true, List.all_eq_true]
    exact forall₂_congr fun child hchild => by rw [Function.comp_apply, ih child hchild]
  | any children ih =>
    simp only [formulaProtocols, Formula.holds, formulasProtocols_eq, Formula.anyHolds_eq,
      List.any_map]
    rw [Bool.eq_iff_iff, List.any_eq_true, List.any_eq_true]
    refine exists_congr fun child => and_congr_right fun hchild => ?_
    rw [Function.comp_apply, ih child hchild]

/-- Translation makes no gate without children. -/
theorem hasChildlessGate_formulaProtocols {gates : Formula (Statement G)}
    (h : gates.hasChildlessGate = false) : (formulaProtocols gates).hasChildlessGate = false := by
  have hgate : ∀ children : List (Formula (Statement G)),
      (∀ child ∈ children, child.hasChildlessGate = false →
        (formulaProtocols child).hasChildlessGate = false) →
      (children.isEmpty || Formula.anyHasChildlessGate children) = false →
      ((formulasProtocols children).isEmpty ||
        Formula.anyHasChildlessGate (formulasProtocols children)) = false :=
    fun children ih hchildren => by
      obtain ⟨hne, hchildren⟩ := Formula.gate_eq_false.1 hchildren
      rw [Formula.gate_eq_false, formulasProtocols_eq, Ne, List.map_eq_nil_iff, List.forall_mem_map]
      exact ⟨hne, fun child hchild => ih child hchild (hchildren child hchild)⟩
  induction gates using Formula.induction with
  | leaf name s => rfl
  | all children ih => exact hgate children ih h
  | any children ih => exact hgate children ih h

/-! ### Statements of both families -/

/-- `4 ^ x = 2` modulo 23, where the powers of 4 have order 11. -/
def six : ModP where
  p := 23
  q := 11
  g := 4
  y := 2
  three_lt_p := by decide
  one_lt_q := by decide
  q_dvd := by decide
  one_lt_g := by decide
  g_lt := by decide
  g_pow := by decide
  y_pos := by decide
  y_lt := by decide
  y_pow := by decide

/-- `4 ^ x = 8` modulo 23. -/
def seven : ModP := { six with y := 8, y_pos := by decide, y_lt := by decide, y_pow := by decide }

/-- Residues: one of two discrete logarithms is known. -/
def sixOrSeven : Statement Ristretto :=
  .formula six.space (.any [.leaf "six" (.modP six), .leaf "seven" (.modP seven)])

/-- The leaves of the example are the two logarithms. -/
theorem forall_mem_leaves_sixOrSeven {P : String × Statement Ristretto → Prop}
    (hsix : P ("six", .modP six)) (hseven : P ("seven", .modP seven)) :
    ∀ leaf ∈ Formula.leaves (.any [.leaf "six" (.modP six), .leaf "seven" (.modP seven)]),
      P leaf := by
  rintro leaf (_ | ⟨_, _ | ⟨_, ⟨⟩⟩⟩)
  · exact hsix
  · exact hseven

/-- The formula of the example can be built. -/
theorem accepted_sixOrSeven : sixOrSeven.Accepted := by
  have h : ofFormula (.any [.leaf "six" (.modP six), .leaf "seven" (.modP seven)]) =
      .ok sixOrSeven := rfl
  exact .ofFormula h (forall_mem_leaves_sixOrSeven (.modP six) (.modP seven))

/-- One of the two logarithms is a witness for the formula of the example. -/
theorem knows_sixOrSeven : sixOrSeven.Knows (.named [("seven", .scalar 7)]) := by
  refine .formula rfl (forall_mem_leaves_sixOrSeven nofun fun witness hwitness => ?_)
  obtain rfl := Option.some.inj hwitness
  exact .modP rfl

/-- `x • 1 = 2` and `x • 3 = 6`. -/
def two : DiscreteLog (Cyclic Ristretto.groupOrder) where
  bases := [⟨1⟩, ⟨3⟩]
  images := [⟨2⟩, ⟨6⟩]
  nonempty := by decide
  length_eq := rfl
  ne_zero := by decide +kernel

/-- `x • 1 = 3`. -/
def three : DiscreteLog (Cyclic Ristretto.groupOrder) where
  bases := [⟨1⟩]
  images := [⟨3⟩]
  nonempty := by decide
  length_eq := rfl
  ne_zero := by decide +kernel

/-- Scalars: one of two discrete logarithms is known. -/
def twoOrThree : Statement (Cyclic Ristretto.groupOrder) :=
  .disjunction (.discreteLog two) (.discreteLog three)

/-- The disjunction of the example can be built. -/
theorem accepted_twoOrThree : twoOrThree.Accepted :=
  .anyOf rfl (.discreteLog two) (.discreteLog three)

/-- The left logarithm is a witness for the disjunction of the example. -/
theorem knows_twoOrThree : twoOrThree.Knows (.left (.scalar 2)) :=
  .left (.discreteLog (by decide +kernel))

end Statement
end ThreeMove

/-
# The parts of a transcript

A transcript of a compound statement holds a transcript of every part: the
messages in the place of the part, and the challenge that this part answers.
`Statement.part` takes one step into a statement and `Statement.restrict` follows
a path of them.  The verifier accepts a transcript only if it accepts its parts
(`accepts_restrict`).
-/

import ThreeMove.Proofs.Protocol.Conjunction
import ThreeMove.Proofs.Protocol.Disjunction
import ThreeMove.Proofs.Protocol.FormulaProof
import ThreeMove.Proofs.Protocol.Sealed
import ThreeMove.Proofs.Statement.Accepted

namespace ThreeMove
namespace FormulaProof

variable {G L L' : Type} {space : ChallengeSpace}

mutual

/-- The transcripts of the leaves, from left to right, each with the name and the
value of its leaf.  Where the messages do not have the shape of the formula, leaves
are left out. -/
def leafTranscripts (space : ChallengeSpace) :
    Formula L → Announcement G → Nat → Response G → List (String × L × Transcript G)
  | .leaf name value, .leaf announcement, c, .leaf response =>
    [(name, value, ⟨announcement, c, response⟩)]
  | .all children, .all announcements, c, .all responses =>
    leafTranscriptsEach space children announcements (children.map fun _ => c) responses
  | .any children, .any announcements, c, .any shares responses =>
    leafTranscriptsEach space children announcements (shares ++ [space.remaining c shares])
      responses
  | _, _, _, _ => []

/-- The transcripts of the leaves of formulas on the messages in the same place. -/
def leafTranscriptsEach (space : ChallengeSpace) :
    List (Formula L) → List (Announcement G) → List Nat → List (Response G) →
      List (String × L × Transcript G)
  | child :: rest, a :: announcements, c :: challenges, r :: responses =>
    leafTranscripts space child a c r ++
      leafTranscriptsEach space rest announcements challenges responses
  | _, _, _, _ => []

end

/-! ### Messages that verify have the shape of the formula -/

/-- What is accepted at a leaf is the transcript of the protocol there. -/
theorem of_check_leaf {name : String} {inner : Protocol G} {a : Announcement G} {c : Nat}
    {r : Response G} (h : check space (.leaf name inner) a c r = .ok true) :
    ∃ a' r', a = .leaf a' ∧ r = .leaf r' ∧ inner.check a' c r' = .ok true := by
  cases a with
  | leaf a' =>
    cases r with
    | leaf r' => exact ⟨a', r', rfl, rfl, h⟩
    | _ => exact nomatch h
  | _ => exact nomatch h

/-- What is accepted at an `all` gate is accepted at each child for the same challenge. -/
theorem of_check_all {children : List (Gate G)} {a : Announcement G} {c : Nat} {r : Response G}
    (h : check space (.all children) a c r = .ok true) :
    ∃ as rs, a = .all as ∧ r = .all rs ∧ children.length = as.length ∧
      children.length = rs.length ∧
      checkEach space children as (children.map fun _ => c) rs = .ok true := by
  cases a with
  | all as =>
    cases r with
    | all rs =>
      obtain ⟨⟨has, hrs⟩, hcheck⟩ := check_all.1 h
      exact ⟨as, rs, rfl, rfl, has, hrs, hcheck⟩
    | _ => exact nomatch h
  | _ => exact nomatch h

/-- What is accepted at an `any` gate is accepted at each child for its share, the last for what
remains. -/
theorem of_check_any {children : List (Gate G)} {a : Announcement G} {c : Nat} {r : Response G}
    (h : check space (.any children) a c r = .ok true) :
    ∃ as shares rs, a = .any as ∧ r = .any shares rs ∧ children.length = as.length ∧
      children.length = rs.length ∧ shares.length + 1 = children.length ∧
      checkEach space children as (shares ++ [space.remaining c shares]) rs = .ok true := by
  cases a with
  | any as =>
    cases r with
    | any shares rs =>
      obtain ⟨⟨has, hrs, hshares⟩, hcheck⟩ := check_any.1 h
      exact ⟨as, shares, rs, rfl, rfl, has, hrs, hshares, hcheck⟩
    | _ => exact nomatch h
  | _ => exact nomatch h

end FormulaProof

namespace Statement

open FormulaProof (leafTranscripts leafTranscriptsEach)

variable {G : Type} [PrimeGroup G] {space : ChallengeSpace}

/-- The verifier accepts each of the formulas on the messages in the same place,
of which there are as many. -/
inductive CheckedEach (space : ChallengeSpace) : List (Formula (Statement G)) →
    List (Announcement G) → List Nat → List (Response G) → Prop where
  | nil : CheckedEach space [] [] [] []
  | cons {child : Formula (Statement G)} {a : Announcement G} {c : Nat} {r : Response G}
      {children : List (Formula (Statement G))} {as : List (Announcement G)} {cs : List Nat}
      {rs : List (Response G)}
      (hchild : FormulaProof.check space (formulaProtocols child) a c r = .ok true)
      (hrest : CheckedEach space children as cs rs) :
      CheckedEach space (child :: children) (a :: as) (c :: cs) (r :: rs)

/-- Accepting at each child is accepting each of the formulas. -/
theorem checkedEach {children : List (Formula (Statement G))} {as : List (Announcement G)}
    {cs : List Nat} {rs : List (Response G)} (has : children.length = as.length)
    (hrs : children.length = rs.length) (hcs : children.length = cs.length)
    (h : FormulaProof.checkEach space (formulasProtocols children) as cs rs = .ok true) :
    CheckedEach space children as cs rs := by
  induction children generalizing as cs rs with
  | nil =>
    obtain rfl := List.length_eq_zero_iff.1 has.symm
    obtain rfl := List.length_eq_zero_iff.1 hrs.symm
    obtain rfl := List.length_eq_zero_iff.1 hcs.symm
    exact .nil
  | cons child children ih =>
    obtain ⟨a, as, rfl⟩ := List.exists_cons_of_length_eq_add_one has.symm
    obtain ⟨r, rs, rfl⟩ := List.exists_cons_of_length_eq_add_one hrs.symm
    obtain ⟨c, cs, rfl⟩ := List.exists_cons_of_length_eq_add_one hcs.symm
    obtain ⟨hchild, hrest⟩ := FormulaProof.checkEach_cons.1 h
    exact .cons hchild (ih (Nat.succ.inj has) (Nat.succ.inj hrs) (Nat.succ.inj hcs) hrest)

/-- Each formula accepts its announcement with some response, and its response with some
announcement. -/
theorem CheckedEach.forall₂ {children : List (Formula (Statement G))}
    {as : List (Announcement G)} {cs : List Nat} {rs : List (Response G)}
    (h : CheckedEach space children as cs rs) :
    List.Forall₂ (fun child a =>
        ∃ c r, FormulaProof.check space (formulaProtocols child) a c r = .ok true) children as ∧
      List.Forall₂ (fun child r =>
        ∃ a c, FormulaProof.check space (formulaProtocols child) a c r = .ok true) children rs := by
  induction h with
  | nil => exact ⟨.nil, .nil⟩
  | cons hchild _ ih =>
    obtain ⟨has, hrs⟩ := ih
    exact ⟨.cons ⟨_, _, hchild⟩ has, .cons ⟨_, _, hchild⟩ hrs⟩

/-- There is a challenge to every formula. -/
theorem CheckedEach.length_challenges {children : List (Formula (Statement G))}
    {as : List (Announcement G)} {cs : List Nat} {rs : List (Response G)}
    (h : CheckedEach space children as cs rs) : cs.length = children.length := by
  induction h with
  | nil => rfl
  | cons _ _ ih => rw [List.length_cons, List.length_cons, ih]

/-- Translation keeps the number of children. -/
theorem length_formulasProtocols (children : List (Formula (Statement G))) :
    (formulasProtocols children).length = children.length := by
  rw [formulasProtocols_eq, List.length_map]

/-- What an `all` gate accepts, the formulas of its children accept for the same challenge. -/
theorem of_check_all {children : List (Formula (Statement G))} {a : Announcement G} {c : Nat}
    {r : Response G}
    (h : FormulaProof.check space (formulaProtocols (.all children)) a c r = .ok true) :
    ∃ as rs, a = .all as ∧ r = .all rs ∧
      CheckedEach space children as (children.map fun _ => c) rs := by
  obtain ⟨as, rs, rfl, rfl, has, hrs, hcheck⟩ := FormulaProof.of_check_all h
  rw [length_formulasProtocols] at has hrs
  refine ⟨as, rs, rfl, rfl, checkedEach has hrs (List.length_map _).symm ?_⟩
  rwa [formulasProtocols_eq, List.map_map, ← formulasProtocols_eq] at hcheck

/-- What an `any` gate accepts, the formulas of its children accept for their shares. -/
theorem of_check_any {children : List (Formula (Statement G))} {a : Announcement G} {c : Nat}
    {r : Response G}
    (h : FormulaProof.check space (formulaProtocols (.any children)) a c r = .ok true) :
    ∃ as shares rs, a = .any as ∧ r = .any shares rs ∧
      CheckedEach space children as (shares ++ [space.remaining c shares]) rs := by
  obtain ⟨as, shares, rs, rfl, rfl, has, hrs, hshares, hcheck⟩ := FormulaProof.of_check_any h
  rw [length_formulasProtocols] at has hrs hshares
  refine ⟨as, shares, rs, rfl, rfl, checkedEach has hrs ?_ hcheck⟩
  rw [List.length_append, List.length_singleton, hshares]

/-! ### The leaves of a formula -/

/-- Entries for all the leaves in order, each with a transcript that is accepted. -/
structure EntriesOf (leaves : List (String × Statement G))
    (entries : List (String × Statement G × Transcript G)) : Prop where
  map_eq : entries.map (fun entry => (entry.1, entry.2.1)) = leaves
  accepts : ∀ entry ∈ entries, entry.2.1.protocol.accepts entry.2.2 = .ok true

/-- Entries of leaves one behind the other are put together. -/
theorem EntriesOf.append {leaves leaves' : List (String × Statement G)}
    {entries entries' : List (String × Statement G × Transcript G)}
    (h : EntriesOf leaves entries) (h' : EntriesOf leaves' entries') :
    EntriesOf (leaves ++ leaves') (entries ++ entries') where
  map_eq := by rw [List.map_append, h.map_eq, h'.map_eq]
  accepts := List.forall_mem_append.2 ⟨h.accepts, h'.accepts⟩

/-- A transcript of a formula that the verifier accepts has an accepted transcript
for every leaf. -/
theorem entriesOf_check {gates : Formula (Statement G)} {a : Announcement G} {c : Nat}
    {r : Response G} (h : FormulaProof.check space (formulaProtocols gates) a c r = .ok true) :
    EntriesOf gates.leaves (leafTranscripts space gates a c r) := by
  have heach : ∀ {children : List (Formula (Statement G))},
      (∀ child ∈ children, ∀ {a c r},
        FormulaProof.check space (formulaProtocols child) a c r = .ok true →
          EntriesOf child.leaves (leafTranscripts space child a c r)) →
      ∀ {as cs rs}, CheckedEach space children as cs rs →
        EntriesOf (Formula.leavesOf children) (leafTranscriptsEach space children as cs rs) :=
    fun ih as cs rs hchecked => by
      induction hchecked with
      | nil => exact ⟨rfl, fun _ h => absurd h List.not_mem_nil⟩
      | cons hchild _ ihrest =>
        rw [List.forall_mem_cons] at ih
        exact (ih.1 hchild).append (ihrest ih.2)
  induction gates using Formula.induction generalizing a c r with
  | leaf name s =>
    obtain ⟨a, r, rfl, rfl, hcheck⟩ := FormulaProof.of_check_leaf h
    exact ⟨rfl, List.forall_mem_singleton.2 hcheck⟩
  | all children ih =>
    obtain ⟨as, rs, rfl, rfl, hchecked⟩ := of_check_all h
    exact heach ih hchecked
  | any children ih =>
    obtain ⟨as, shares, rs, rfl, rfl, hchecked⟩ := of_check_any h
    exact heach ih hchecked

/-! ### Steps into a statement -/

/-- One step from a statement to a part of it. -/
inductive Step where
  /-- To a branch of a conjunction. -/
  | branch (index : Nat)
  /-- To a branch of a disjunction. -/
  | left
  | right
  /-- To a leaf of a formula. -/
  | leaf (name : String)
  /-- To the statement whose announcement is sealed. -/
  | opened
  deriving DecidableEq, Repr

/-- Steps from a statement to a part of its parts. -/
abbrev Path := List Step

/-- The part of a statement to which a step leads, and its part of a transcript. -/
def part : Statement G → Transcript G → Step → Option (Statement G × Transcript G)
  | .conjunction first rest, ⟨.all announcements, c, .all responses⟩, .branch index => do
    let branch ← (first :: rest)[index]?
    let a ← announcements[index]?
    let r ← responses[index]?
    return (branch, ⟨a, c, r⟩)
  | .disjunction left _, ⟨.any [a, _], _, .any [share] [r, _]⟩, .left =>
    some (left, ⟨a, share, r⟩)
  | .disjunction left right, ⟨.any [_, a], c, .any [share] [_, r]⟩, .right =>
    some (right, ⟨a, left.space.sub c share, r⟩)
  | .formula space gates, ⟨a, c, r⟩, .leaf name =>
    (leafTranscripts space gates a c r).lookup name
  | .sealed _ inner, ⟨.commitment _, c, .opening r a _⟩, .opened => some (inner, ⟨a, c, r⟩)
  | _, _, _ => none

/-- What a path leads to. -/
def restrict (s : Statement G) (t : Transcript G) : Path → Option (Statement G × Transcript G)
  | [] => some (s, t)
  | step :: path =>
    match s.part t step with
    | some (s', t') => s'.restrict t' path
    | none => none

/-- An accepted transcript of a conjunction has a part for every branch. -/
theorem exists_part_branch {first branch : Statement G} {rest : List (Statement G)}
    {a : Announcement G} {c : Nat} {r : Response G} {index : Nat}
    (h : (conjunction first rest).protocol.check a c r = .ok true)
    (hbranch : (first :: rest)[index]? = some branch) :
    ∃ as announcement response, a = .all as ∧ as[index]? = some announcement ∧
      (conjunction first rest).part ⟨a, c, r⟩ (.branch index) =
        some (branch, ⟨announcement, c, response⟩) := by
  obtain ⟨as, rs, rfl, rfl, ⟨has, hrs⟩, -⟩ := Conjunction.of_check h
  obtain ⟨hindex, -⟩ := List.getElem?_eq_some_iff.1 hbranch
  rw [List.length_cons, protocols_eq, List.length_map] at has hrs
  rw [List.length_cons] at hindex
  obtain ⟨announcement, ha⟩ : ∃ announcement, as[index]? = some announcement :=
    ⟨_, List.getElem?_eq_getElem (hindex.trans_eq has.symm)⟩
  obtain ⟨response, hr⟩ : ∃ response, rs[index]? = some response :=
    ⟨_, List.getElem?_eq_getElem (hindex.trans_eq hrs.symm)⟩
  refine ⟨as, announcement, response, rfl, ha, ?_⟩
  simp only [part, hbranch, ha, hr]
  rfl

/-- The verifier accepts the parts of what it accepts. -/
theorem accepts_part {s s' : Statement G} {t t' : Transcript G} {step : Step}
    (h : s.protocol.accepts t = .ok true) (hpart : s.part t step = some (s', t')) :
    s'.protocol.accepts t' = .ok true := by
  unfold part at hpart
  split at hpart
  · next first rest as c rs index =>
    simp only [Option.bind_eq_bind, Option.bind_eq_some_iff] at hpart
    obtain ⟨branch, hbranch, a, ha, r, hr, heq⟩ := hpart
    obtain ⟨rfl, rfl⟩ := Prod.mk.inj (Option.some.inj heq)
    obtain ⟨_, _, ⟨⟩, ⟨⟩, -, hcheck⟩ := Conjunction.of_check h
    refine Conjunction.check_of_checkAll hcheck ?_ ha hr
    rw [protocols_eq, ← List.map_cons, List.getElem?_map, hbranch]
    rfl
  · obtain ⟨rfl, rfl⟩ := Prod.mk.inj (Option.some.inj hpart)
    exact (Disjunction.check_eq_ok_true.1 h).1
  · obtain ⟨rfl, rfl⟩ := Prod.mk.inj (Option.some.inj hpart)
    have hright := (Disjunction.check_eq_ok_true.1 h).2
    rwa [space_protocol] at hright
  · next space gates a c r name =>
    have hentry : (name, s', t') ∈ leafTranscripts space gates a c r := by
      obtain ⟨front, back, heq, -⟩ := List.lookup_eq_some_iff.1 hpart
      simp [heq]
    exact (entriesOf_check h).accepts _ hentry
  · obtain ⟨rfl, rfl⟩ := Prod.mk.inj (Option.some.inj hpart)
    obtain ⟨message, -, -, hinner⟩ := Sealed.check_eq_ok_true.1 h
    exact hinner
  · exact nomatch hpart

/-- Restricting along a path goes to the part of the first step, and on from there. -/
theorem restrict_cons {s s' : Statement G} {t t' : Transcript G} {step : Step}
    (h : s.part t step = some (s', t')) (path : Path) :
    s.restrict t (step :: path) = s'.restrict t' path := by
  rw [restrict, h]

/-- **The verifier accepts a transcript only if it accepts all its parts.** -/
theorem accepts_restrict {s s' : Statement G} {t t' : Transcript G} {path : Path}
    (h : s.protocol.accepts t = .ok true) (hpath : s.restrict t path = some (s', t')) :
    s'.protocol.accepts t' = .ok true := by
  induction path generalizing s t with
  | nil =>
    obtain ⟨rfl, rfl⟩ := Prod.mk.inj (Option.some.inj hpath)
    exact h
  | cons step path ih =>
    rw [restrict] at hpath
    split at hpath
    · next hpart => exact ih (accepts_part h hpart) hpath
    · exact nomatch hpath

end Statement
end ThreeMove

/-
# A challenge split among the children of a gate

The prover takes the shares of the simulated children away from the challenge and answers the
child it knows with what remains, wherever this child stands.  The verifier is shown all shares
but the last and takes these away.  Both add up to the challenge, and a reduced number that does
is determined by the others (`ChallengeSpace.remaining_of_perm`), so the verifier comes to the
shares of the prover, number for number (`FormulaProof.shares_consistent`).

Differences of numbers are taken modulo the size of the space, and none is below zero
(`ChallengeSpace.remaining?_eq`).
-/

import ThreeMove.Proofs.Protocol.FormulaProof
import ThreeMove.Proofs.Protocol.Totality
import ThreeMove.Proofs.Statement.Accepted

namespace ThreeMove

namespace ChallengeSpace

open Partial

variable (space : ChallengeSpace)

/-- The sum of two challenges, step by step. -/
def add? (a b : Nat) : Option Nat := rem (a + b) space.modulus

/-- The difference of two challenges, step by step. -/
def sub? (a b : Nat) : Option Nat := do
  let raised := (← rem a space.modulus) + space.modulus
  rem (← diff raised (← rem b space.modulus)) space.modulus

/-- What is left of a challenge once shares are taken away, step by step. -/
def remaining? (c : Nat) (shares : List Nat) : Option Nat := do
  space.sub? c (← shares.foldlM space.add? 0)

/-- Adding in the space does not get stuck. -/
theorem add?_eq (a b : Nat) : space.add? a b = some (space.add a b) := rem_eq space.modulus_pos

/-- What is taken away is reduced, and what it is taken from is raised by the modulus. -/
theorem sub?_eq (a b : Nat) : space.sub? a b = some (space.sub a b) := by
  have hle : b % space.modulus ≤ a % space.modulus + space.modulus :=
    (Nat.mod_lt b space.modulus_pos).le.trans (Nat.le_add_left ..)
  rw [sub?, rem_eq space.modulus_pos, rem_eq space.modulus_pos]
  simp only [Option.bind_eq_bind, Option.bind_some, diff_eq hle, rem_eq space.modulus_pos]
  rfl

/-- Taking shares off a challenge does not get stuck. -/
theorem remaining?_eq (c : Nat) (shares : List Nat) :
    space.remaining? c shares = some (space.remaining c shares) := by
  have hsum : ∀ start, shares.foldlM space.add? start = some (shares.foldl space.add start) := by
    induction shares with
    | nil => exact fun _ => rfl
    | cons share rest ih =>
      intro start
      rw [List.foldlM_cons, add?_eq, List.foldl_cons]
      exact ih _
  rw [remaining?, hsum]
  exact space.sub?_eq c _

end ChallengeSpace

namespace FormulaProof

variable {G : Type} {space : ChallengeSpace}

/-- What the prover keeps of a child that it simulated: the share and the response. -/
def kept (part : Nat × Response G) : Secret G := .simulated part.1 part.2

/-- The shares kept of simulated parts are the shares of the parts. -/
theorem filterMap_kept (parts : List (Nat × Response G)) :
    (parts.map kept).filterMap Secret.simulatedChallenge? = parts.map (·.1) := by
  rw [List.filterMap_map, ← List.filterMap_eq_map]
  rfl

/-- Simulated children hand on what is kept of them, whatever is left for the known child. -/
theorem respondAny_kept {children : List (Gate G)} {parts : List (Nat × Response G)}
    (hcount : children.length = parts.length) (share : Nat) :
    respondAny space children (parts.map kept) share = .ok parts := by
  induction children generalizing parts with
  | nil =>
    obtain rfl := List.length_eq_zero_iff.1 hcount.symm
    rfl
  | cons child rest ih =>
    obtain ⟨part, parts, rfl⟩ := List.exists_cons_of_length_eq_add_one hcount.symm
    exact bind_eq_ok.2 ⟨part, rfl, bind_eq_ok.2 ⟨parts, ih (Nat.succ.inj hcount), rfl⟩⟩

/-! ### One known child -/

/-- The children of an `any` gate, and what the prover keeps of them: of all but one, a share and
a response that it simulated, and of the one that it knows a secret. -/
structure KnownChild (G : Type) where
  front : List (Gate G)
  child : Gate G
  back : List (Gate G)
  before : List (Nat × Response G)
  secret : Secret G
  after : List (Nat × Response G)
  length_front : front.length = before.length
  length_back : back.length = after.length
  own : secret.simulatedChallenge? = none

namespace KnownChild

variable (known : KnownChild G)

/-- The children in order. -/
def children : List (Gate G) := known.front ++ known.child :: known.back

/-- What the prover keeps of the children, in order. -/
def secrets : List (Secret G) :=
  known.before.map kept ++ known.secret :: known.after.map kept

/-- The shares that the prover chose. -/
def chosen : List Nat := known.before.map (·.1) ++ known.after.map (·.1)

/-- The challenge of each child, where the known one answers `share`. -/
def challenges (share : Nat) : List Nat :=
  known.before.map (·.1) ++ share :: known.after.map (·.1)

/-- The response of each child, where the known one responds with `r`. -/
def responses (r : Response G) : List (Response G) :=
  known.before.map (·.2) ++ r :: known.after.map (·.2)

/-- There is a secret for every child. -/
theorem length_secrets : known.children.length = known.secrets.length := by
  simp [children, secrets, known.length_front, known.length_back]

/-- There is a challenge to every child. -/
theorem length_challenges (share : Nat) :
    (known.challenges share).length = known.children.length := by
  simp [challenges, children, known.length_front, known.length_back]

/-- There is a response for every child. -/
theorem length_responses (r : Response G) :
    (known.responses r).length = known.children.length := by
  simp [responses, children, known.length_front, known.length_back]

/-- Some child is challenged. -/
theorem challenges_ne_nil (share : Nat) : known.challenges share ≠ [] :=
  List.append_ne_nil_of_right_ne_nil _ (List.cons_ne_nil _ _)

/-- The shares kept in the secrets are those chosen. -/
theorem filterMap_secrets :
    known.secrets.filterMap Secret.simulatedChallenge? = known.chosen := by
  rw [secrets, List.filterMap_append, List.filterMap_cons_none known.own, filterMap_kept,
    filterMap_kept, chosen]

/-- The known child answers its share, and all others stay as they were simulated. -/
theorem respondAny_eq_map (share : Nat) :
    respondAny space known.children known.secrets share =
      (fun r => known.before ++ (share, r) :: known.after) <$>
        respond space known.child known.secret share := by
  obtain ⟨front, child, back, before, secret, after, hfront, hback, hown⟩ := known
  unfold children secrets
  dsimp only
  induction front generalizing before with
  | nil =>
    obtain rfl := List.length_eq_zero_iff.1 hfront.symm
    have hrest : respondAny space back (after.map kept) share = .ok after :=
      respondAny_kept hback share
    simp only [respondAny_eq] at hrest
    simp only [respondAny_eq, List.map_nil, List.nil_append, List.zip_cons_cons, List.mapM_cons,
      respondPart_of_own hown, hrest]
    cases respond space child secret share <;> rfl
  | cons first front ih =>
    obtain ⟨part, before, rfl⟩ := List.exists_cons_of_length_eq_add_one hfront.symm
    have hrest := ih before (Nat.succ.inj hfront)
    have hpart : respondPart space share first (kept part) = .ok part := rfl
    simp only [respondAny_eq] at hrest ⊢
    rw [List.map_cons, List.cons_append, List.cons_append, List.zip_cons_cons, List.mapM_cons,
      hpart, hrest]
    cases respond space child secret share <;> rfl

/-- The gate shows the challenges of all children but the last. -/
theorem respond_eq_map (c : Nat) :
    respond space (.any known.children) (.any known.secrets) c =
      (fun r => .any (known.challenges (space.remaining c known.chosen)).dropLast
        (known.responses r)) <$>
        respond space known.child known.secret (space.remaining c known.chosen) := by
  rw [respond, if_pos known.length_secrets, filterMap_secrets]
  dsimp only
  rw [respondAny_eq_map]
  cases respond space known.child known.secret (space.remaining c known.chosen) with
  | error cause => rfl
  | ok r =>
    refine congrArg Except.ok ?_
    simp only [challenges, responses, List.map_append, List.map_cons]

/-- The challenges of the children come to that of the gate. -/
theorem foldl_challenges (c : Nat) :
    (known.challenges (space.remaining c known.chosen)).foldl space.add 0 = c % space.modulus :=
  space.foldl_add_of_perm List.perm_middle

/-- The challenges are reduced if the shares chosen are. -/
theorem challenges_lt (h : ∀ share ∈ known.chosen, share < space.modulus) (c : Nat) :
    ∀ share ∈ known.challenges (space.remaining c known.chosen), share < space.modulus := by
  intro share hshare
  obtain rfl | hchosen := List.mem_cons.1 (List.perm_middle.mem_iff.1 hshare)
  · exact space.remaining_lt c known.chosen
  · exact h share hchosen

/-- From all challenges but the last the verifier computes the last one. -/
theorem dropLast_challenges (h : ∀ share ∈ known.chosen, share < space.modulus) (c : Nat) :
    let challenges := known.challenges (space.remaining c known.chosen)
    challenges.dropLast ++ [space.remaining c challenges.dropLast] = challenges :=
  space.dropLast_append_remaining (known.challenges_ne_nil _) (known.challenges_lt h c)
    (known.foldl_challenges c)

/-- The verifier checks every child on the challenge that it was answered for. -/
theorem check_eq_checkEach (h : ∀ share ∈ known.chosen, share < space.modulus) (c : Nat)
    {as : List (Announcement G)} (has : as.length = known.children.length) (r : Response G) :
    let challenges := known.challenges (space.remaining c known.chosen)
    check space (.any known.children) (.any as) c (.any challenges.dropLast (known.responses r)) =
      checkEach space known.children as challenges (known.responses r) := by
  intro challenges
  have hshown : challenges.dropLast ++ [space.remaining c challenges.dropLast] = challenges :=
    known.dropLast_challenges h c
  have hcount : challenges.dropLast.length + 1 = known.children.length := by
    rw [← known.length_challenges (space.remaining c known.chosen)]
    simpa using congrArg List.length hshown
  rw [check, if_pos ⟨has.symm, (known.length_responses r).symm, hcount⟩, hshown]

end KnownChild

/-! ### What a prover keeps -/

/-- The secret of an announcement holds no simulated challenge. -/
theorem announce_own (witnesses : Table Witness) (formula : Gate G) :
    (announce space witnesses formula).Returns fun m => m.2.simulatedChallenge? = none := by
  cases formula with
  | leaf name protocol =>
    rw [announce]
    split
    · exact (Sampler.returns_any _).bind fun _ _ => Sampler.returns_pure rfl
    · exact Sampler.returns_refuse
  | all children => exact (Sampler.returns_any _).bind fun _ _ => Sampler.returns_pure rfl
  | any children => exact (Sampler.returns_any _).bind fun _ _ => Sampler.returns_pure rfl

/-- A simulated child keeps its share, reduced, and its response. -/
theorem simulateFresh_kept (child : Gate G) :
    (simulateFresh space child).Returns fun m =>
      ∃ part, m.2 = kept part ∧ part.1 < space.modulus := by
  refine (Sampler.always_drawElement space).returns.bind fun c hc => ?_
  exact (Sampler.returns_any _).bind fun m _ => Sampler.returns_pure ⟨(c, m.2), rfl, hc⟩

/-- Of a gate with the children and the secrets, one child is known, and the shares that were
chosen for the others are reduced. -/
def Keeps (space : ChallengeSpace) (children : List (Gate G)) (secrets : List (Secret G)) : Prop :=
  ∃ known : KnownChild G, known.children = children ∧ known.secrets = secrets ∧
    ∀ share ∈ known.chosen, share < space.modulus

/-- What is kept of simulated children are reduced shares and their responses. -/
theorem exists_kept {children : List (Gate G)} {ms : List (Announcement G × Secret G)}
    (h : List.Forall₂ (fun _ m => ∃ part, m.2 = kept part ∧ part.1 < space.modulus) children ms) :
    ∃ parts : List (Nat × Response G), ms.map (·.2) = parts.map kept ∧
      ∀ share ∈ parts.map (·.1), share < space.modulus := by
  induction h with
  | nil => exact ⟨[], rfl, List.forall_mem_nil _⟩
  | cons hm _ ih =>
    obtain ⟨part, hpart, hlt⟩ := hm
    obtain ⟨parts, hparts, hreduced⟩ := ih
    refine ⟨part :: parts, ?_, List.forall_mem_cons.2 ⟨hlt, hreduced⟩⟩
    rw [List.map_cons, List.map_cons, hpart, hparts]

/-- Announcing an `any` gate keeps a secret for the known child and reduced shares for the
others. -/
theorem announceAny_keeps (witnesses : Table Witness) (children : List (Gate G)) :
    (announceAny space witnesses children).Returns fun parts =>
      Keeps space children (parts.map (·.2)) := by
  induction children with
  | nil => exact Sampler.returns_refuse
  | cons child rest ih =>
    rw [announceAny]
    split
    · have hfresh : ∀ child ∈ rest, (simulateFresh space child).Returns fun m =>
          ∃ part, m.2 = kept part ∧ part.1 < space.modulus :=
        fun child _ => simulateFresh_kept child
      have hothers := Sampler.returns_mapM hfresh
      refine (announce_own witnesses child).bind fun m hown => hothers.bind fun ms hms =>
        Sampler.returns_pure ?_
      obtain ⟨parts, hparts, hreduced⟩ := exists_kept hms
      refine ⟨⟨[], child, rest, [], m.2, parts, rfl, ?_, hown⟩, rfl, ?_, ?_⟩
      · rw [hms.length_eq, ← List.length_map (f := Prod.snd), hparts, List.length_map]
      · exact congrArg (m.2 :: ·) hparts.symm
      · exact hreduced
    · refine (simulateFresh_kept child).bind fun m ⟨part, hpart, hlt⟩ => ih.bind fun ms hms =>
        Sampler.returns_pure ?_
      obtain ⟨known, rfl, hsecrets, hreduced⟩ := hms
      refine ⟨⟨child :: known.front, known.child, known.back, part :: known.before, known.secret,
        known.after, congrArg Nat.succ known.length_front, known.length_back, known.own⟩, rfl, ?_,
        ?_⟩
      · rw [List.map_cons, hpart, ← hsecrets]
        rfl
      · exact List.forall_mem_cons.2 ⟨hlt, hreduced⟩

/-- What the prover keeps for an `any` gate is of this form, whatever it knows. -/
theorem announce_keeps (witnesses : Table Witness) (children : List (Gate G)) :
    (announce space witnesses (.any children)).Returns fun m =>
      ∃ secrets, m.2 = .any secrets ∧ Keeps space children secrets :=
  (announceAny_keeps witnesses children).bind fun parts hparts =>
    Sampler.returns_pure ⟨parts.map (·.2), rfl, hparts⟩

/-- **Prover and verifier split a challenge alike.**  What remains of a challenge is a reduced
number, none of the differences on the way is below zero, and added to the shares, in whichever
order, it gives the challenge in the space; nor does it depend on their order.  Of shares that
come to the challenge, the one at any place is what the others leave just if it is reduced.  So
take any gate all of whose children are simulated but one.  It is answered just if that child
answers what remains of the shares chosen, and the response shows all challenges but the last;
where the shares chosen are reduced, the verifier comes to the last one, and checks every child on
the challenge that it was answered for.  The secrets that a prover keeps are of this kind. -/
theorem shares_consistent (G : Type) (space : ChallengeSpace) :
    (∀ c shares, space.remaining c shares < space.modulus ∧
      space.remaining? c shares = some (space.remaining c shares) ∧
      ∀ others : List Nat, others.Perm (space.remaining c shares :: shares) →
        others.foldl space.add 0 = c % space.modulus) ∧
    (∀ (c : Nat) (shares others : List Nat), shares.Perm others →
      space.remaining c shares = space.remaining c others) ∧
    (∀ (c : Nat) (shares : List Nat), shares.foldl space.add 0 = c % space.modulus →
      ∀ (i : Nat) (hi : i < shares.length),
        space.remaining c (shares.eraseIdx i) = shares[i] ↔ shares[i] < space.modulus) ∧
    (∀ (known : KnownChild G) (c : Nat),
      let share := space.remaining c known.chosen
      let shown := (known.challenges share).dropLast
      respond space (.any known.children) (.any known.secrets) c =
          (fun r => .any shown (known.responses r)) <$>
            respond space known.child known.secret share ∧
        ((∀ share ∈ known.chosen, share < space.modulus) →
          shown ++ [space.remaining c shown] = known.challenges share ∧
          ∀ (as : List (Announcement G)) (r : Response G), as.length = known.children.length →
            check space (.any known.children) (.any as) c (.any shown (known.responses r)) =
              checkEach space known.children as (known.challenges share) (known.responses r))) ∧
    ∀ (witnesses : Table Witness) (children : List (Gate G)),
      (announce space witnesses (.any children)).Returns fun m =>
        ∃ secrets, m.2 = .any secrets ∧ Keeps space children secrets := by
  refine ⟨fun c shares => ⟨?reduced, ?exact, ?completes⟩, ?order, ?place, ?gate, ?keeps⟩
  case reduced => exact space.remaining_lt c shares
  case exact => exact space.remaining?_eq c shares
  case completes => exact fun others h => space.foldl_add_of_perm h
  case order => exact fun c shares others h => space.remaining_perm c h
  case place =>
    intro c shares hsum i hi
    constructor
    · intro h
      exact h ▸ space.remaining_lt c (shares.eraseIdx i)
    · exact fun hlt => space.remaining_of_perm hlt hsum (List.getElem_cons_eraseIdx_perm hi)
  case gate =>
    intro known c share shown
    refine ⟨known.respond_eq_map c, fun h => ⟨known.dropLast_challenges h c, ?_⟩⟩
    exact fun as r has => known.check_eq_checkEach h c has r
  case keeps => exact announce_keeps

/-- The hypotheses are satisfiable: modulo 11, of the challenge 25 and the share 9 there remains 5,
which the first child answers; from 5 the verifier comes back to 9.  A share of 20 is not what
the others leave, although it is congruent to it. -/
theorem shares_consistent_eleven :
    let space := Statement.six.space
    let six : Gate Ristretto := .leaf "six" (Statement.modP Statement.six).protocol
    let seven : Gate Ristretto := .leaf "seven" (Statement.modP Statement.seven).protocol
    space.remaining 25 [9] = 5 ∧ space.remaining 25 [5] = 9 ∧
      space.remaining 27 [20, 4] = 3 ∧ space.remaining 27 [3, 4] ≠ 20 ∧
      respond space (.any [six, seven])
          (.any [.leaf (.nonce 4 6), .simulated 9 (.leaf (.scalar 4))]) 25 =
        .ok (.any [5] [.leaf (.scalar 1), .leaf (.scalar 4)]) ∧
      ∀ a b, check space (.any [six, seven]) (.any [a, b]) 25
          (.any [5] [.leaf (.scalar 1), .leaf (.scalar 4)]) =
        checkEach space [six, seven] [a, b] [5, 9] [.leaf (.scalar 1), .leaf (.scalar 4)] := by
  intro space six seven
  obtain ⟨-, -, hplace, hgate, -⟩ := shares_consistent Ristretto space
  have hfirst := (hplace 25 [5, 9] (by decide) 0 (by decide)).2 (by decide)
  have hlast := (hplace 25 [5, 9] (by decide) 1 (by decide)).2 (by decide)
  have hthird := (hplace 27 [3, 20, 4] (by decide) 0 (by decide)).2 (by decide)
  have hlarge := (hplace 27 [3, 20, 4] (by decide) 1 (by decide)).not.2 (by decide)
  let known : KnownChild Ristretto := ⟨[], six, [seven], [], .leaf (.nonce 4 6),
    [(9, .leaf (.scalar 4))], rfl, rfl, rfl⟩
  obtain ⟨hanswered, hshown⟩ := hgate known 25
  have hreduced : ∀ share ∈ known.chosen, share < space.modulus :=
    List.forall_mem_singleton.2 (by decide)
  have hchecked := fun a b => (hshown hreduced).2 [a, b] (.leaf (.scalar 1)) rfl
  have hshare : space.remaining 25 known.chosen = 5 := hfirst
  have hown : respond space known.child known.secret 5 = .ok (.leaf (.scalar 1)) := rfl
  rw [hshare] at hchecked
  rw [hshare, hown] at hanswered
  exact ⟨hfirst, hlast, hthird, hlarge, hanswered, hchecked⟩

end FormulaProof
end ThreeMove

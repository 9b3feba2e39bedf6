/-
# Formulas hide which leaves are known

A prover whose witnesses satisfy a formula comes to the transcripts of the
simulator (`FormulaProof.hides`).  The difficulty is at an `any` gate.  The prover
draws a share for every child but the first that it can satisfy, each just before
that child is simulated; the simulator draws the shares of all children but the
last before it simulates any.  `announceAny_coupled` goes through the children in
order.  A child that is simulated takes its share away from the challenge; at the
child that is announced the shares of the remaining children are drawn first
(`mapM_simulateFresh`), and `Sampler.Coupled.shares` moves the share that is left
over from the first place to the last.
-/

import ThreeMove.Proofs.Protocol.FormulaProof

namespace ThreeMove
namespace FormulaProof

variable {G : Type} {space : ChallengeSpace} {known : Table Witness}

/-- Announcing a formula leads to the simulated transcripts, for every challenge. -/
def Announces (space : ChallengeSpace) (known : Table Witness) (formula : Gate G) : Prop :=
  ∀ c, Sampler.Coupled ((protocol space formula).Answers c) (announce space known formula)
    (simulate space formula c)

/-! ### Gates that ask for all -/

/-- The responses of the children are the response of an `all` gate. -/
theorem respond_all {children : List (Gate G)} {secrets : List (Secret G)} {c : Nat}
    {rs : List (Response G)} (hlength : secrets.length = children.length)
    (h : respondAll space children secrets c = .ok rs) :
    respond space (.all children) (.all secrets) c = .ok (.all rs) := by
  rw [respond, if_pos hlength.symm, h]
  rfl

/-- Announcing and simulating at every child come to the same transcripts. -/
theorem announceAll_coupled {children : List (Gate G)} {c : Nat}
    (h : ∀ child ∈ children, Announces space known child) :
    Sampler.Coupled (fun parts sims => parts.length = children.length ∧
        parts.map (·.1) = sims.map (·.1) ∧
        respondAll space children (parts.map (·.2)) c = .ok (sims.map (·.2)))
      (announceAll space known children)
      (simulateEach space children (children.map fun _ => c)) := by
  induction children with
  | nil => exact Sampler.coupled_pure ⟨rfl, rfl, rfl⟩
  | cons child rest ih =>
    rw [List.forall_mem_cons] at h
    refine (h.1 c).bind fun part sim hanswers => ?_
    refine (ih h.2).bind fun parts sims ⟨hlength, hannouncements, hresponses⟩ =>
      Sampler.coupled_pure ⟨congrArg Nat.succ hlength, ?_, ?_⟩
    · rw [List.map_cons, List.map_cons, hanswers.announcement, hannouncements]
    · exact bind_eq_ok.2 ⟨sim.2, hanswers.response, bind_eq_ok.2 ⟨_, hresponses, rfl⟩⟩

/-! ### Children that are simulated -/

/-- What the prover keeps of children that it simulated for the shares. -/
def prepared (shares : List Nat) (sims : List (Announcement G × Response G)) :
    List (Announcement G × Secret G) :=
  List.zipWith (fun share sim => (sim.1, .simulated share sim.2)) shares sims

/-- What is kept of simulated children comes with their announcements. -/
theorem map_fst_prepared {shares : List Nat} {sims : List (Announcement G × Response G)}
    (h : shares.length = sims.length) : (prepared shares sims).map (·.1) = sims.map (·.1) := by
  induction shares generalizing sims with
  | nil =>
    obtain rfl := List.length_eq_zero_iff.1 h.symm
    rfl
  | cons share shares ih =>
    cases sims with
    | nil => exact nomatch h
    | cons sim sims => exact congrArg _ (ih (Nat.succ.inj h))

/-- The shares of the children that were simulated are kept. -/
theorem filterMap_prepared {shares : List Nat} {sims : List (Announcement G × Response G)}
    (h : shares.length = sims.length) :
    ((prepared shares sims).map (·.2)).filterMap Secret.simulatedChallenge? = shares := by
  induction shares generalizing sims with
  | nil => rfl
  | cons share shares ih =>
    cases sims with
    | nil => exact nomatch h
    | cons sim sims => exact congrArg _ (ih (Nat.succ.inj h))

/-- Simulated children answer as they were simulated. -/
theorem respondAny_prepared {children : List (Gate G)} {shares : List Nat}
    {sims : List (Announcement G × Response G)} (h : shares.length = children.length) (c : Nat) :
    respondAny space children ((prepared shares sims).map (·.2)) c =
      .ok (shares.zip (sims.map (·.2))) := by
  induction children generalizing shares sims with
  | nil =>
    obtain rfl := List.length_eq_zero_iff.1 h
    rfl
  | cons child rest ih =>
    cases shares with
    | nil => exact nomatch h
    | cons share shares =>
      cases sims with
      | nil => rfl
      | cons sim sims => exact bind_eq_ok.2 ⟨_, rfl, bind_eq_ok.2 ⟨_, ih (Nat.succ.inj h), rfl⟩⟩

/-- Children may be simulated after all their shares are drawn. -/
theorem mapM_simulateFresh {children : List (Gate G)}
    (h : ∀ child ∈ children, (protocol space child).Simulates) :
    Sampler.Matched Eq (children.mapM (simulateFresh space)) (do
      let shares ← Sampler.drawShares space children.length
      let sims ← simulateEach space children shares
      return prepared shares sims) := by
  induction children with
  | nil => exact Sampler.matched_refl _
  | cons child rest ih =>
    rw [List.forall_mem_cons] at h
    simp only [List.mapM_cons, simulateFresh, List.length_cons, Sampler.drawShares, simulateEach,
      bind_assoc, pure_bind]
    refine Sampler.matched_bind_congr fun share => ?_
    have hswap := Sampler.matched_swap (h.1 share) (Sampler.always_drawShares space rest.length)
      fun sim shares => do
        let sims ← simulateEach space rest shares
        pure (prepared (share :: shares) (sim :: sims))
    refine Sampler.Matched.trans (Sampler.matched_bind_congr fun sim => ?_) hswap
    simpa only [bind_assoc, pure_bind, prepared, List.zipWith_cons_cons] using
      (ih h.2).bind_right fun parts => pure ((sim.1, Secret.simulated share sim.2) :: parts)

/-! ### Gates that ask for any -/

/-- All shares but the last, and the children simulated for the shares. -/
def simulateAny (space : ChallengeSpace) (children : List (Gate G)) (c : Nat) :
    Sampler (List Nat × List (Announcement G × Response G)) := do
  let shares ← Sampler.drawShares space (children.length - 1)
  let sims ← simulateEach space children (shares ++ [space.remaining c shares])
  return (shares, sims)

/-- An `any` gate is simulated share by share. -/
theorem simulate_any (children : List (Gate G)) (c : Nat) :
    simulate space (.any children) c = do
      let (shares, sims) ← simulateAny space children c
      return (.any (sims.map (·.1)), .any shares (sims.map (·.2))) := by
  simp only [simulate, Sampler.mapM_drawElement, List.length_range, simulateAny, bind_assoc,
    pure_bind]

/-- What the prover keeps of the children leads to the simulated transcripts: the
announcements are those, and the challenge that the prepared shares leave is
answered with all shares and the simulated responses. -/
structure Shared (space : ChallengeSpace) (children : List (Gate G)) (c : Nat)
    (parts : List (Announcement G × Secret G))
    (m : List Nat × List (Announcement G × Response G)) : Prop where
  length : parts.length = children.length
  count : m.1.length + 1 = children.length
  announcements : parts.map (·.1) = m.2.map (·.1)
  responses : respondAny space children (parts.map (·.2))
      (space.remaining c ((parts.map (·.2)).filterMap Secret.simulatedChallenge?)) =
    .ok ((m.1 ++ [space.remaining c m.1]).zip (m.2.map (·.2)))

/-- The prover answers a gate with what the simulator made. -/
theorem Shared.respond_eq {children : List (Gate G)} {c : Nat}
    {parts : List (Announcement G × Secret G)} {m : List Nat × List (Announcement G × Response G)}
    (h : Shared space children c parts m) :
    respond space (.any children) (.any (parts.map (·.2))) c = .ok (.any m.1 (m.2.map (·.2))) := by
  have hsecrets : children.length = (parts.map (·.2)).length := by rw [List.length_map, h.length]
  have hsims : m.2.length = parts.length := by
    simpa using (congrArg List.length h.announcements).symm
  have hzip : (m.1 ++ [space.remaining c m.1]).length = (m.2.map (·.2)).length := by
    simp [h.count, hsims, h.length]
  rw [respond, if_pos hsecrets]
  refine bind_eq_ok.2 ⟨_, h.responses, congrArg Except.ok ?_⟩
  rw [List.map_fst_zip hzip.le, List.map_snd_zip hzip.ge, List.dropLast_concat]

/-- The child that is known answers for its own share. -/
theorem respondAny_own {child : Gate G} {rest : List (Gate G)} {secret : Secret G}
    {secrets : List (Secret G)} {c : Nat} {r : Response G} {parts : List (Nat × Response G)}
    (hown : secret.simulatedChallenge? = none) (h : respond space child secret c = .ok r)
    (hrest : respondAny space rest secrets c = .ok parts) :
    respondAny space (child :: rest) (secret :: secrets) c = .ok ((c, r) :: parts) := by
  cases secret with
  | simulated challenge response => exact nomatch hown
  | _ => exact bind_eq_ok.2 ⟨_, map_eq_ok.2 ⟨r, h, rfl⟩, bind_eq_ok.2 ⟨_, hrest, rfl⟩⟩

/-- The first child is announced: the prover draws the shares of the others, the
simulator all shares but the last. -/
theorem announceFirst_coupled {child : Gate G} {rest : List (Gate G)}
    (hchild : Announces space known child)
    (hrest : ∀ child ∈ rest, (protocol space child).Simulates) (c : Nat) :
    Sampler.Coupled (Shared space (child :: rest) c)
      (do let part ← announce space known child
          let parts ← rest.mapM (simulateFresh space)
          return part :: parts)
      (simulateAny space (child :: rest) c) := by
  -- The shares of the others are drawn first, before the child is announced.
  have hothers := Sampler.matched_bind_congr (x := announce space known child) fun part =>
    (mapM_simulateFresh hrest).bind_right fun parts => pure (part :: parts)
  refine Sampler.Matched.of_left hothers ?_
  simp only [bind_assoc, pure_bind]
  have hfirst := Sampler.matched_swap (hchild 0).always
    (Sampler.always_drawShares space rest.length) fun part shares => do
      let sims ← simulateEach space rest shares
      pure (part :: prepared shares sims)
  refine Sampler.Matched.of_left hfirst ?_
  refine Sampler.Coupled.shares c rest.length fun front back hback hsame => ?_
  have hcount : front.length = back.length := by simpa using congrArg List.length hsame
  rw [hsame]
  simp only [simulateEach, bind_assoc, pure_bind]
  refine (hchild _).bind fun part sim hanswers => ?_
  refine (simulateEach_always hrest hback).coupled.bind fun sims sims' ⟨hsims, hlength, _⟩ =>
    Sampler.coupled_pure ?_
  subst hsims
  have hprepared : back.length = sims.length := hback.trans hlength.symm
  have hshares : ((part :: prepared back sims).map (·.2)).filterMap Secret.simulatedChallenge? =
      back := by
    rw [List.map_cons, List.filterMap_cons_none hanswers.own, filterMap_prepared hprepared]
  refine ⟨?_, ?_, ?_, ?_⟩
  · simp [prepared, hlength, hback]
  · simp [hcount, hback]
  · rw [List.map_cons, List.map_cons, hanswers.announcement, map_fst_prepared hprepared]
  · rw [hshares, hsame, List.map_cons, List.map_cons, List.zip_cons_cons]
    exact respondAny_own hanswers.own hanswers.response (respondAny_prepared hback _)

/-- The first child is simulated: its share is taken away from the challenge. -/
theorem simulateFirst_coupled {child : Gate G} {rest : List (Gate G)}
    {x : Sampler (List (Announcement G × Secret G))} (hne : rest ≠ [])
    (hchild : (protocol space child).Simulates)
    (hrest : ∀ c, Sampler.Coupled (Shared space rest c) x (simulateAny space rest c)) (c : Nat) :
    Sampler.Coupled (Shared space (child :: rest) c)
      (do let part ← simulateFresh space child
          let parts ← x
          return part :: parts)
      (simulateAny space (child :: rest) c) := by
  obtain ⟨count, hcount⟩ := Nat.exists_eq_add_one.2 (List.length_pos_iff.2 hne)
  simp only [simulateFresh, simulateAny, List.length_cons, hcount, Nat.add_sub_cancel,
    Sampler.drawShares, bind_assoc, pure_bind, List.cons_append, simulateEach,
    ChallengeSpace.remaining_cons]
  refine Sampler.Coupled.element_same fun share _ => ?_
  -- The simulator draws the other shares before it simulates the first child.
  have hswap := Sampler.matched_swap (hchild share) (Sampler.always_drawShares space count)
    fun sim shares => do
      let sims ← simulateEach space rest
        (shares ++ [space.remaining (space.sub c share) shares])
      pure (share :: shares, sim :: sims)
  refine Sampler.Matched.trans ?_ hswap
  refine (hchild share).coupled.bind fun sim sim' hsim => ?_
  obtain ⟨rfl, -⟩ := hsim
  have hshared := (hrest (space.sub c share)).bind (S := Shared space (child :: rest) c)
    (f := fun parts => pure ((sim.1, Secret.simulated share sim.2) :: parts))
    (g := fun m => pure (share :: m.1, sim :: m.2)) fun parts m h => Sampler.coupled_pure ?_
  · simpa only [simulateAny, hcount, Nat.add_sub_cancel, bind_assoc, pure_bind] using hshared
  · refine ⟨congrArg Nat.succ h.length, congrArg Nat.succ h.count, ?_, ?_⟩
    · rw [List.map_cons, List.map_cons, h.announcements]
    · have hkept : (((sim.1, Secret.simulated share sim.2) :: parts).map (·.2)).filterMap
          Secret.simulatedChallenge? =
          share :: (parts.map (·.2)).filterMap Secret.simulatedChallenge? := rfl
      rw [hkept, ChallengeSpace.remaining_cons, ChallengeSpace.remaining_cons]
      exact bind_eq_ok.2 ⟨(share, sim.2), rfl, bind_eq_ok.2 ⟨_, h.responses, rfl⟩⟩

/-- Announcing and simulating an `any` gate come to the same transcripts. -/
theorem announceAny_coupled {children : List (Gate G)}
    (hcovers : children.any (covers known) = true)
    (hannounces : ∀ child ∈ children, covers known child = true → Announces space known child)
    (hsimulates : ∀ child ∈ children, (protocol space child).Simulates) (c : Nat) :
    Sampler.Coupled (Shared space children c) (announceAny space known children)
      (simulateAny space children c) := by
  induction children generalizing c with
  | nil => exact nomatch hcovers
  | cons child rest ih =>
    rw [List.forall_mem_cons] at hannounces hsimulates
    rw [announceAny]
    by_cases hchild : covers known child = true
    · rw [if_pos hchild]
      exact announceFirst_coupled (hannounces.1 hchild) hsimulates.2 c
    · rw [if_neg hchild]
      have hrest : rest.any (covers known) = true := by
        rw [List.any_cons, Bool.or_eq_true] at hcovers
        exact hcovers.resolve_left hchild
      have hne : rest ≠ [] := by
        rintro rfl
        exact nomatch hrest
      exact simulateFirst_coupled hne hsimulates.1 (ih hrest hannounces.2 hsimulates.2) c

/-! ### Formulas -/

/-- Announcing a formula comes to the simulated transcripts if it does at the leaves that are known
and all are simulated. -/
theorem announces (formula : Gate G) (hgates : formula.hasChildlessGate = false)
    (hcovers : covers known formula = true)
    (hsimulates : ∀ leaf ∈ formula.leaves, leaf.2.Simulates)
    (hhides : ∀ leaf ∈ formula.leaves, ∀ witness, known.find? leaf.1 = some witness →
      leaf.2.Hides witness) : Announces space known formula := by
  induction formula using Formula.induction with
  | leaf name inner =>
    intro c
    have hfound : (known.find? name).isSome := by
      rw [← Table.has_eq_isSome_find?]
      exact hcovers
    obtain ⟨witness, hwitness⟩ := Option.isSome_iff_exists.1 hfound
    rw [announce, hwitness]
    refine (hhides (name, inner) (List.mem_singleton_self _) witness hwitness c).bind
      fun part sim hanswers => Sampler.coupled_pure ⟨?_, rfl, ?_⟩
    · exact congrArg Announcement.leaf hanswers.announcement
    · exact map_eq_ok.2 ⟨sim.2, hanswers.response, rfl⟩
  | all children ih =>
    intro c
    obtain ⟨-, hchildren⟩ := Formula.gate_eq_false.1 hgates
    have hsimulates := Formula.forall_mem_leavesOf.1 hsimulates
    have hhides := Formula.forall_mem_leavesOf.1 hhides
    rw [covers, Formula.holds, Formula.allHold_eq, List.all_eq_true] at hcovers
    have heach : ∀ child ∈ children, Announces space known child := fun child hchild =>
      ih child hchild (hchildren child hchild) (hcovers child hchild) (hsimulates child hchild)
        (hhides child hchild)
    refine (announceAll_coupled heach).bind
      fun parts sims ⟨hlength, hannouncements, hresponses⟩ => Sampler.coupled_pure ⟨?_, rfl, ?_⟩
    · exact congrArg Announcement.all hannouncements
    · exact respond_all (by rw [List.length_map, hlength]) hresponses
  | any children ih =>
    intro c
    obtain ⟨-, hchildren⟩ := Formula.gate_eq_false.1 hgates
    have hsimulates := Formula.forall_mem_leavesOf.1 hsimulates
    have hhides := Formula.forall_mem_leavesOf.1 hhides
    rw [covers, Formula.holds, Formula.anyHolds_eq] at hcovers
    have hannounces : ∀ child ∈ children, covers known child = true →
        Announces space known child := fun child hchild hcovered =>
      ih child hchild (hchildren child hchild) hcovered (hsimulates child hchild)
        (hhides child hchild)
    have hsims : ∀ child ∈ children, (protocol space child).Simulates := fun child hchild =>
      simulates child (hchildren child hchild) (hsimulates child hchild)
    rw [simulate_any]
    refine (announceAny_coupled hcovers hannounces hsims c).bind fun parts m h =>
      Sampler.coupled_pure ⟨?_, rfl, h.respond_eq⟩
    exact congrArg Announcement.any h.announcements

/-- **A prover whose witnesses satisfy the formula hides which ones they are**, if
every leaf hides the witness known of it. -/
theorem hides {formula : Gate G} (hgates : formula.hasChildlessGate = false)
    (hcovers : covers known formula = true)
    (hsimulates : ∀ leaf ∈ formula.leaves, leaf.2.Simulates)
    (hhides : ∀ leaf ∈ formula.leaves, ∀ witness, known.find? leaf.1 = some witness →
      leaf.2.Hides witness) : (protocol space formula).Hides (.named known) := by
  intro c
  simp only [protocol, hcovers, if_true]
  exact announces formula hgates hcovers hsimulates hhides c

end FormulaProof
end ThreeMove

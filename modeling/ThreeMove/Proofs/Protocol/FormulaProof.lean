/-
# The promises of formulas

A formula without empty gates keeps the promises of the simulator and of the
verifier that its leaves keep (`FormulaProof.simulates`,
`FormulaProof.recovers`).  Both are proved by induction on the formula; at a gate
the children are taken in order, each with its own challenge, so that `all` and
`any` gates differ only in the list of these challenges.  A prover too takes the
children in order (`FormulaProof.respondAll_eq`, `FormulaProof.respondAny_eq`), and
hands on what a child that was simulated has kept.
-/

import ThreeMove.Protocol.FormulaProof
import ThreeMove.Proofs.Frame
import ThreeMove.Proofs.Protocol.Basic
import ThreeMove.Proofs.Protocol.Formula
import ThreeMove.Proofs.Random.Shares

namespace ThreeMove
namespace FormulaProof

variable {G : Type} {space : ChallengeSpace}

/-! ### What the verifier accepts -/

/-- The children accept where the first does and the others do. -/
theorem checkEach_cons {child : Gate G} {children : List (Gate G)} {a : Announcement G}
    {as : List (Announcement G)} {c : Nat} {cs : List Nat} {r : Response G}
    {rs : List (Response G)} :
    checkEach space (child :: children) (a :: as) (c :: cs) (r :: rs) = .ok true ↔
      check space child a c r = .ok true ∧ checkEach space children as cs rs = .ok true := by
  rw [checkEach, bind_eq_ok]
  constructor
  · rintro ⟨passed, hchild, hrest⟩
    cases passed with
    | true => exact ⟨hchild, hrest⟩
    | false => exact nomatch hrest
  · rintro ⟨hchild, hrest⟩
    exact ⟨true, hchild, hrest⟩

/-- An `all` gate accepts where every child does for the same challenge, and none is left out. -/
theorem check_all {children : List (Gate G)} {as : List (Announcement G)} {c : Nat}
    {rs : List (Response G)} :
    check space (.all children) (.all as) c (.all rs) = .ok true ↔
      (children.length = as.length ∧ children.length = rs.length) ∧
        checkEach space children as (children.map fun _ => c) rs = .ok true := by
  rw [check]
  split
  · exact (and_iff_right ‹_›).symm
  · exact ⟨nofun, fun h => absurd h.1 ‹_›⟩

/-- An `any` gate accepts where every child does for its share, the last for what remains, and none
is left out. -/
theorem check_any {children : List (Gate G)} {as : List (Announcement G)} {c : Nat}
    {shares : List Nat} {rs : List (Response G)} :
    check space (.any children) (.any as) c (.any shares rs) = .ok true ↔
      (children.length = as.length ∧ children.length = rs.length ∧
          shares.length + 1 = children.length) ∧
        checkEach space children as (shares ++ [space.remaining c shares]) rs = .ok true := by
  rw [check]
  split
  · exact (and_iff_right ‹_›).symm
  · exact ⟨nofun, fun h => absurd h.1 ‹_›⟩

/-! ### Simulation -/

/-- Whatever is drawn, the simulated transcripts of the children are accepted. -/
theorem simulateEach_always {children : List (Gate G)} {challenges : List Nat}
    (h : ∀ child ∈ children, (protocol space child).Simulates)
    (hlength : challenges.length = children.length) :
    Sampler.Always (fun parts => parts.length = children.length ∧
        checkEach space children (parts.map (·.1)) challenges (parts.map (·.2)) = .ok true ∧
        ∃ pieces, encodeAnnouncements children (parts.map (·.1)) = .ok pieces)
      (simulateEach space children challenges) := by
  induction children generalizing challenges with
  | nil => exact Sampler.always_pure ⟨rfl, rfl, [], rfl⟩
  | cons child rest ih =>
    cases challenges with
    | nil => exact nomatch hlength
    | cons c challenges =>
      rw [List.forall_mem_cons] at h
      refine (h.1 c).bind fun part ⟨hcheck, data, hdata⟩ => ?_
      refine (ih h.2 (Nat.succ.inj hlength)).bind
        fun parts ⟨hparts, hchecks, pieces, hpieces⟩ => Sampler.always_pure ?_
      refine ⟨congrArg Nat.succ hparts, checkEach_cons.2 ⟨hcheck, hchecks⟩, data :: pieces, ?_⟩
      exact bind_eq_ok.2 ⟨data, hdata, bind_eq_ok.2 ⟨pieces, hpieces, rfl⟩⟩

/-- The promise that simulated transcripts verify passes from the leaves to the
formula. -/
theorem simulates (formula : Gate G) (hgates : formula.hasChildlessGate = false)
    (h : ∀ leaf ∈ formula.leaves, leaf.2.Simulates) : (protocol space formula).Simulates := by
  induction formula using Formula.induction with
  | leaf name inner =>
    intro c
    have hinner : inner.Simulates := h (name, inner) (List.mem_singleton_self _)
    exact (hinner c).bind fun part hfits => Sampler.always_pure hfits
  | all children ih =>
    intro c
    obtain ⟨-, hchildren⟩ := Formula.gate_eq_false.1 hgates
    have hleaves := Formula.forall_mem_leavesOf.1 h
    have hsimulates : ∀ child ∈ children, (protocol space child).Simulates :=
      fun child hchild => ih child hchild (hchildren child hchild) (hleaves child hchild)
    have hcount : (children.map fun _ => c).length = children.length := List.length_map _
    refine (simulateEach_always hsimulates hcount).bind
      fun parts ⟨hlength, hcheck, pieces, hpieces⟩ => Sampler.always_pure ⟨?_, ?_⟩
    · exact check_all.2 ⟨by simp [hlength], hcheck⟩
    · exact ⟨frameAll pieces, map_eq_ok.2 ⟨pieces, hpieces, rfl⟩⟩
  | any children ih =>
    intro c
    obtain ⟨hne, hchildren⟩ := Formula.gate_eq_false.1 hgates
    have hleaves := Formula.forall_mem_leavesOf.1 h
    have hsimulates : ∀ child ∈ children, (protocol space child).Simulates :=
      fun child hchild => ih child hchild (hchildren child hchild) (hleaves child hchild)
    have hpos : 0 < children.length := List.length_pos_iff.2 hne
    show Sampler.Always _ (simulate space (.any children) c)
    rw [simulate, Sampler.mapM_drawElement, List.length_range]
    refine (Sampler.always_drawShares space _).bind fun shares hshares => ?_
    have hshared : shares.length + 1 = children.length := by omega
    have hcount : (shares ++ [space.remaining c shares]).length = children.length := by
      rw [List.length_append, List.length_singleton, hshared]
    refine (simulateEach_always hsimulates hcount).bind
      fun parts ⟨hlength, hcheck, pieces, hpieces⟩ => Sampler.always_pure ⟨?_, ?_⟩
    · exact check_any.2 ⟨by simp [hlength, hshared], hcheck⟩
    · exact ⟨frameAll pieces, map_eq_ok.2 ⟨pieces, hpieces, rfl⟩⟩

/-! ### Recovery -/

/-- Each child has its decoder of announcements. -/
theorem announcementDecoders_eq (children : List (Gate G)) :
    announcementDecoders children = children.map decodeAnnouncement := by
  induction children with
  | nil => rfl
  | cons child rest ih => rw [announcementDecoders, ih, List.map_cons]

/-- Each child has its decoder of responses. -/
theorem responseDecoders_eq (children : List (Gate G)) :
    responseDecoders space children = children.map (decodeResponse space) := by
  induction children with
  | nil => rfl
  | cons child rest ih => rw [responseDecoders, ih, List.map_cons]

/-- Transcripts that the children accept can be simulated. -/
theorem simulateEach_produces {children : List (Gate G)} {challenges : List Nat}
    {parts : List (Announcement G × Response G)}
    (h : ∀ child ∈ children, (protocol space child).Recovers)
    (has : List.Forall₂ (fun child => Decodes (decodeAnnouncement child)) children
      (parts.map (·.1)))
    (hrs : List.Forall₂ (fun child => Decodes (decodeResponse space child)) children
      (parts.map (·.2)))
    (hlength : challenges.length = children.length)
    (hcheck : checkEach space children (parts.map (·.1)) challenges (parts.map (·.2)) = .ok true) :
    (simulateEach space children challenges).Produces parts := by
  induction children generalizing parts challenges with
  | nil =>
    obtain rfl : parts = [] := List.map_eq_nil_iff.1 (List.forall₂_nil_left_iff.1 has)
    exact Sampler.produces_pure []
  | cons child rest ih =>
    cases challenges with
    | nil => exact nomatch hlength
    | cons c challenges =>
      cases parts with
      | nil => exact nomatch has
      | cons part parts =>
        rw [List.forall_mem_cons] at h
        rw [List.map_cons, List.forall₂_cons] at has hrs
        obtain ⟨hchild, hrest⟩ := checkEach_cons.1 hcheck
        obtain ⟨⟨aBytes, ha⟩, has⟩ := has
        obtain ⟨⟨rBytes, hr⟩, hrs⟩ := hrs
        refine (h.1 ha hr hchild).bind ?_
        exact (ih h.2 has hrs (Nat.succ.inj hlength) hrest).bind (Sampler.produces_pure _)

/-- Every share that can be read is reduced. -/
theorem shares_lt {count : Nat} {shares : List Nat}
    (h : List.Forall₂ Decodes (List.replicate count space.decode) shares) :
    ∀ share ∈ shares, share < space.modulus := by
  induction count generalizing shares with
  | zero =>
    cases h
    exact fun _ h => absurd h List.not_mem_nil
  | succ count ih =>
    obtain ⟨share, rest, ⟨data, hdata⟩, hrest, rfl⟩ := List.forall₂_cons_left_iff.1 h
    exact List.forall_mem_cons.2 ⟨space.decode_lt hdata, ih hrest⟩

/-- The promise that what verifies is simulated passes from the leaves to the
formula. -/
theorem recovers (hspace : space.Reachable) (formula : Gate G)
    (h : ∀ leaf ∈ formula.leaves, leaf.2.Recovers) : (protocol space formula).Recovers := by
  induction formula using Formula.induction with
  | leaf name inner =>
    intro a c r aBytes rBytes ha hr hcheck
    have hinner : inner.Recovers := h (name, inner) (List.mem_singleton_self _)
    obtain ⟨inside, hinside, rfl⟩ := map_eq_ok.1 ha
    obtain ⟨answer, hanswer, rfl⟩ := map_eq_ok.1 hr
    exact (hinner hinside hanswer hcheck).bind (Sampler.produces_pure _)
  | all children ih =>
    intro a c r aBytes rBytes ha hr hcheck
    have hrecovers : ∀ child ∈ children, (protocol space child).Recovers := fun child hchild =>
      ih child hchild (Formula.forall_mem_leavesOf.1 h child hchild)
    obtain ⟨as, has, rfl⟩ := map_eq_ok.1 ha
    obtain ⟨rs, hrs, rfl⟩ := map_eq_ok.1 hr
    rw [announcementDecoders_eq] at has
    rw [responseDecoders_eq] at hrs
    have has := List.forall₂_map_left_iff.1 (decodes_of_decodeFrames has)
    have hrs := List.forall₂_map_left_iff.1 (decodes_of_decodeFrames hrs)
    obtain ⟨hlengths, hcheck⟩ := check_all.1 hcheck
    obtain ⟨parts, rfl, rfl⟩ := exists_parts (hlengths.1.symm.trans hlengths.2)
    have hcount : (children.map fun _ => c).length = children.length := List.length_map _
    have hproduces := simulateEach_produces hrecovers has hrs hcount hcheck
    exact hproduces.bind (Sampler.produces_pure _)
  | any children ih =>
    intro a c r aBytes rBytes ha hr hcheck
    have hrecovers : ∀ child ∈ children, (protocol space child).Recovers := fun child hchild =>
      ih child hchild (Formula.forall_mem_leavesOf.1 h child hchild)
    obtain ⟨as, has, rfl⟩ := map_eq_ok.1 ha
    obtain ⟨⟨shares, _⟩, hshares, hr⟩ := bind_eq_ok.1 hr
    obtain ⟨⟨rs, _⟩, hrs, hr⟩ := bind_eq_ok.1 hr
    obtain ⟨_, -, hr⟩ := bind_eq_ok.1 hr
    obtain rfl := Except.ok.inj hr
    rw [announcementDecoders_eq] at has
    rw [responseDecoders_eq] at hrs
    have has := List.forall₂_map_left_iff.1 (decodes_of_decodeFrames has)
    have hrs := List.forall₂_map_left_iff.1 (FrameCursor.decodes_of_decodeEach hrs)
    have hshares := shares_lt (FrameCursor.decodes_of_decodeEach hshares)
    obtain ⟨⟨hlength, hlength', hshared⟩, hcheck⟩ := check_any.1 hcheck
    obtain ⟨parts, rfl, rfl⟩ := exists_parts (hlength.symm.trans hlength')
    have hcount : (shares ++ [space.remaining c shares]).length = children.length := by
      rw [List.length_append, List.length_singleton, hshared]
    have hproduces := simulateEach_produces hrecovers has hrs hcount hcheck
    show (simulate space (.any children) c).Produces _
    rw [simulate, Sampler.mapM_drawElement, List.length_range, ← hshared, Nat.add_sub_cancel]
    refine (Sampler.produces_drawShares hspace hshares).bind ?_
    exact hproduces.bind (Sampler.produces_pure _)

/-! ### Answers -/

/-- The children of an `all` gate are answered one by one. -/
theorem respondAll_eq (children : List (Gate G)) (secrets : List (Secret G)) (c : Nat) :
    respondAll space children secrets c =
      (children.zip secrets).mapM fun part => respond space part.1 part.2 c := by
  induction children generalizing secrets with
  | nil => rfl
  | cons child rest ih =>
    cases secrets with
    | nil => rfl
    | cons secret secrets => rw [respondAll, ih, List.zip_cons_cons, List.mapM_cons]

/-- The challenge and the response of one child of an `any` gate. -/
def respondPart (space : ChallengeSpace) (share : Nat) (child : Gate G) :
    Secret G → Except Error (Nat × Response G)
  | .simulated challenge response => .ok (challenge, response)
  | secret => (share, ·) <$> respond space child secret share

/-- A child whose secret is not simulated answers for the share. -/
theorem respondPart_of_own {share : Nat} {child : Gate G} {secret : Secret G}
    (hown : secret.simulatedChallenge? = none) :
    respondPart space share child secret = (share, ·) <$> respond space child secret share := by
  cases secret with
  | simulated challenge response => exact nomatch hown
  | _ => rfl

/-- The children of an `any` gate are answered one by one. -/
theorem respondAny_eq (children : List (Gate G)) (secrets : List (Secret G)) (share : Nat) :
    respondAny space children secrets share =
      (children.zip secrets).mapM fun part => respondPart space share part.1 part.2 := by
  induction children generalizing secrets with
  | nil => rfl
  | cons child rest ih =>
    cases secrets with
    | nil => rfl
    | cons secret secrets =>
      rw [List.zip_cons_cons, List.mapM_cons, ← ih]
      cases secret <;> rfl

end FormulaProof
end ThreeMove

/-
# Messages have the shape of their statement

An announcement that was drawn by a prover, with whatever witness, by a simulator, or that
was read from bytes has the gates of the statement (`Accepted.announce_shaped`,
`Accepted.simulate_shaped`, `Accepted.shaped_of_decodes`), and a response that was read
from bytes opens no other.  Nothing is asked of the group for this, not even that its
encoding is exact.  So the announcement that a prover comes to can always be sent
(`Accepted.announced_encodes`), and a verifier comes to a verdict on every response it
reads (`Accepted.judges`).
-/

import ThreeMove.Proofs.Random.Replay
import ThreeMove.Proofs.Statement.Verdict

namespace ThreeMove
namespace Statement

variable {G : Type} [PrimeGroup G] {s : Statement G}

/-! ### Announcements that are drawn -/

/-- What each statement and its share of the parts have in common is found pair by pair. -/
theorem forall_mem_zip_of_forall₂ {α β γ : Type} {P : α → γ → Prop} {f : β → γ} {as : List α}
    {bs : List β} (h : List.Forall₂ (fun a b => P a (f b)) as bs) :
    ∀ part ∈ as.zip (bs.map f), P part.1 part.2 :=
  fun _ hpart => List.forall₂_zip (List.forall₂_map_right_iff.2 h) hpart

/-- The values of a walk over pairs lie as the first halves of the pairs. -/
theorem forall_mem_zip_of_forall₂_zip {α β γ δ : Type} {P : α → γ → Prop} {f : β → γ}
    {as : List α} {ds : List δ} {bs : List β}
    (h : List.Forall₂ (fun pair b => P pair.1 (f b)) (as.zip ds) bs) :
    ∀ part ∈ as.zip (bs.map f), P part.1 part.2 := by
  induction as generalizing ds bs with
  | nil => exact fun _ hmem => absurd hmem List.not_mem_nil
  | cons a as ih =>
    cases ds with
    | nil =>
      cases h
      exact fun _ hmem => absurd hmem List.not_mem_nil
    | cons d ds =>
      obtain ⟨b, bs, hb, hbs, rfl⟩ := List.forall₂_cons_left_iff.1 h
      exact List.forall_mem_cons.2 ⟨hb, ih hbs⟩

omit [PrimeGroup G] in
/-- What a simulated announcement satisfies holds of one for a challenge of one's own. -/
theorem simulateFresh_returns (branch : Protocol G) {Q : Announcement G → Prop}
    (h : ∀ c, (branch.simulate c).Returns fun m => Q m.1) :
    (Disjunction.simulateFresh branch).Returns fun m => Q m.1 := by
  refine (Sampler.returns_any _).bind fun c _ => ?_
  exact (h c).bind fun m hm => Sampler.returns_pure hm

section Gates

variable {space : ChallengeSpace} {children : List (Formula (Statement G))}
  {gates : Formula (Statement G)}

/-- The simulated announcements of the children of a gate have their gates. -/
theorem simulateEach_shaped (h : ∀ child ∈ children, ∀ c,
      (FormulaProof.simulate space (formulaProtocols child) c).Returns fun m =>
        GateShaped child m.1) (cs : List Nat) :
    (FormulaProof.simulateEach space (formulasProtocols children) cs).Returns fun parts =>
      ∀ part ∈ children.zip (parts.map (·.1)), GateShaped part.1 part.2 := by
  induction children generalizing cs with
  | nil => exact Sampler.returns_pure fun _ hmem => absurd hmem List.not_mem_nil
  | cons child children ih =>
    cases cs with
    | nil => exact Sampler.returns_pure fun _ hmem => absurd hmem List.not_mem_nil
    | cons c cs =>
      rw [List.forall_mem_cons] at h
      refine (h.1 c).bind fun part hpart => (ih h.2 cs).bind fun parts hparts => ?_
      exact Sampler.returns_pure (List.forall_mem_cons.2 ⟨hpart, hparts⟩)

/-- The simulated announcements of a formula have its gates if those of the leaves have theirs. -/
theorem simulate_gate_shaped (h : ∀ leaf ∈ gates.leaves, ∀ c,
      (leaf.2.protocol.simulate c).Returns fun m => leaf.2.Shaped m.1) (c : Nat) :
    (FormulaProof.simulate space (formulaProtocols gates) c).Returns fun m =>
      GateShaped gates m.1 := by
  induction gates using Formula.induction generalizing c with
  | leaf name s =>
    refine (h (name, s) (List.mem_singleton_self _) c).bind fun m hm => ?_
    exact Sampler.returns_pure (.leaf hm)
  | all children ih =>
    have hleaves := Formula.forall_mem_leavesOf.1 h
    have hparts := simulateEach_shaped fun child hchild => ih child hchild (hleaves child hchild)
    exact (hparts _).bind fun parts hparts => Sampler.returns_pure (.all hparts)
  | any children ih =>
    have hleaves := Formula.forall_mem_leavesOf.1 h
    have hparts := simulateEach_shaped fun child hchild => ih child hchild (hleaves child hchild)
    refine (Sampler.returns_any _).bind fun shares _ => ?_
    exact (hparts _).bind fun parts hparts => Sampler.returns_pure (.any hparts)

variable (space) (known : Table Witness)

/-- The announcements of the children of a gate have their gates. -/
theorem announceAll_shaped (h : ∀ child ∈ children,
      (FormulaProof.announce space known (formulaProtocols child)).Returns fun m =>
        GateShaped child m.1) :
    (FormulaProof.announceAll space known (formulasProtocols children)).Returns fun parts =>
      ∀ part ∈ children.zip (parts.map (·.1)), GateShaped part.1 part.2 := by
  induction children with
  | nil => exact Sampler.returns_pure fun _ hmem => absurd hmem List.not_mem_nil
  | cons child children ih =>
    rw [List.forall_mem_cons] at h
    refine h.1.bind fun part hpart => (ih h.2).bind fun parts hparts => ?_
    exact Sampler.returns_pure (List.forall_mem_cons.2 ⟨hpart, hparts⟩)

/-- The child that is announced has its gates, and so have the others, which are simulated. -/
theorem announceAny_shaped
    (h : ∀ child ∈ children,
      (FormulaProof.announce space known (formulaProtocols child)).Returns fun m =>
        GateShaped child m.1)
    (hsimulated : ∀ child ∈ children,
      (FormulaProof.simulateFresh space (formulaProtocols child)).Returns fun m =>
        GateShaped child m.1) :
    (FormulaProof.announceAny space known (formulasProtocols children)).Returns fun parts =>
      ∀ part ∈ children.zip (parts.map (·.1)), GateShaped part.1 part.2 := by
  induction children with
  | nil => exact Sampler.returns_refuse
  | cons child children ih =>
    rw [List.forall_mem_cons] at h hsimulated
    rw [formulasProtocols, FormulaProof.announceAny]
    split
    · have hothers : Sampler.Returns (List.Forall₂ (fun child m => GateShaped child m.1) children)
          ((formulasProtocols children).mapM (FormulaProof.simulateFresh space)) := by
        rw [formulasProtocols_eq, List.mapM_map]
        exact Sampler.returns_mapM hsimulated.2
      refine h.1.bind fun part hpart => hothers.bind fun parts hparts => ?_
      exact Sampler.returns_pure
        (List.forall_mem_cons.2 ⟨hpart, forall_mem_zip_of_forall₂ hparts⟩)
    · refine hsimulated.1.bind fun part hpart => (ih h.2 hsimulated.2).bind fun parts hparts => ?_
      exact Sampler.returns_pure (List.forall_mem_cons.2 ⟨hpart, hparts⟩)

/-- The announcements of a formula have its gates if those of the leaves have theirs. -/
theorem announce_gate_shaped
    (h : ∀ leaf ∈ gates.leaves, ∀ witness,
      (leaf.2.protocol.announce witness).Returns fun m => leaf.2.Shaped m.1)
    (hsimulated : ∀ leaf ∈ gates.leaves, ∀ c,
      (leaf.2.protocol.simulate c).Returns fun m => leaf.2.Shaped m.1) :
    (FormulaProof.announce space known (formulaProtocols gates)).Returns fun m =>
      GateShaped gates m.1 := by
  induction gates using Formula.induction with
  | leaf name s =>
    rw [formulaProtocols, FormulaProof.announce]
    split
    · refine (h (name, s) (List.mem_singleton_self _) _).bind fun m hm => ?_
      exact Sampler.returns_pure (.leaf hm)
    · exact Sampler.returns_refuse
  | all children ih =>
    have hleaves := Formula.forall_mem_leavesOf.1 h
    have hleaves' := Formula.forall_mem_leavesOf.1 hsimulated
    have hparts := announceAll_shaped space known fun child hchild =>
      ih child hchild (hleaves child hchild) (hleaves' child hchild)
    exact hparts.bind fun parts hparts => Sampler.returns_pure (.all hparts)
  | any children ih =>
    have hleaves := Formula.forall_mem_leavesOf.1 h
    have hleaves' := Formula.forall_mem_leavesOf.1 hsimulated
    have hparts := announceAny_shaped space known
      (fun child hchild => ih child hchild (hleaves child hchild) (hleaves' child hchild))
      fun child hchild => simulateFresh_returns
        (FormulaProof.protocol space (formulaProtocols child))
        (simulate_gate_shaped (hleaves' child hchild))
    exact hparts.bind fun parts hparts => Sampler.returns_pure (.any hparts)

end Gates

/-- A simulated announcement has the gates of the statement. -/
theorem Accepted.simulate_shaped (h : s.Accepted) (c : Nat) :
    (s.protocol.simulate c).Returns fun m => s.Shaped m.1 := by
  induction h generalizing c with
  | modP s => exact (Sampler.returns_any _).bind fun r _ => Sampler.returns_pure .modP
  | discreteLog s => exact (Sampler.returns_any _).bind fun r _ => Sampler.returns_pure .discreteLog
  | allOf h _ ih =>
    obtain ⟨first, rest, rfl, rfl, -⟩ := allOf_eq_ok h
    have hparts : Sampler.Returns (List.Forall₂ (fun part m => Shaped part m.1) (first :: rest))
        (((first :: rest).map protocol).mapM fun branch => branch.simulate c) := by
      rw [List.mapM_map]
      exact Sampler.returns_mapM fun part hpart => ih part hpart c
    rw [← protocols_eq] at hparts
    exact hparts.bind fun parts hparts =>
      Sampler.returns_pure (.conjunction (forall_mem_zip_of_forall₂ hparts))
  | anyOf h _ _ ihleft ihright =>
    obtain ⟨rfl, -⟩ := anyOf_eq_ok h
    refine (Sampler.returns_any _).bind fun lc _ => ?_
    refine (ihleft lc).bind fun left hleft => (ihright _).bind fun right hright => ?_
    exact Sampler.returns_pure (.disjunction hleft hright)
  | ofFormula h _ ih =>
    obtain ⟨space, rfl, -⟩ := ofFormula_eq_ok h
    exact (simulate_gate_shaped ih c).imp fun _ => .formula
  | sealedBy scheme _ _ =>
    refine (Sampler.returns_any _).bind fun m _ => (Sampler.returns_any _).bind fun message _ => ?_
    exact (Sampler.returns_any _).bind fun sealing _ => Sampler.returns_pure .sealed

/-- An announcement has the gates of the statement, whatever the witness. -/
theorem Accepted.announce_shaped (h : s.Accepted) (witness : Witness) :
    (s.protocol.announce witness).Returns fun m => s.Shaped m.1 := by
  induction h generalizing witness with
  | modP s =>
    simp only [protocol, ModP.protocol]
    split
    · split
      · exact (Sampler.returns_any _).bind fun k _ => Sampler.returns_pure .modP
      · exact Sampler.returns_refuse
    · exact Sampler.returns_refuse
  | discreteLog s =>
    simp only [protocol, DiscreteLog.protocol]
    split
    · split
      · exact (Sampler.returns_any _).bind fun k _ => Sampler.returns_pure .discreteLog
      · exact Sampler.returns_refuse
    · exact Sampler.returns_refuse
  | allOf h _ ih =>
    obtain ⟨first, rest, rfl, rfl, -⟩ := allOf_eq_ok h
    simp only [protocol, Conjunction.protocol]
    split
    · rename_i witnesses
      split
      · have hparts : Sampler.Returns
            (List.Forall₂ (fun pair m => Shaped pair.1 m.1) ((first :: rest).zip witnesses))
            ((((first :: rest).map protocol).zip witnesses).mapM fun part =>
              part.1.announce part.2) := by
          rw [List.zip_map_left, List.mapM_map]
          exact Sampler.returns_mapM fun pair hpair => ih pair.1 (List.of_mem_zip hpair).1 pair.2
        rw [← protocols_eq] at hparts
        exact hparts.bind fun parts hparts =>
          Sampler.returns_pure (.conjunction (forall_mem_zip_of_forall₂_zip hparts))
      · exact Sampler.returns_refuse
    · exact Sampler.returns_refuse
  | anyOf h hleft hright ihleft ihright =>
    obtain ⟨rfl, -⟩ := anyOf_eq_ok h
    have hleft := simulateFresh_returns _ hleft.simulate_shaped
    have hright := simulateFresh_returns _ hright.simulate_shaped
    simp only [protocol, Disjunction.protocol]
    split
    · refine hright.bind fun right hright => (ihleft _).bind fun left hleft => ?_
      exact Sampler.returns_pure (.disjunction hleft hright)
    · refine hleft.bind fun left hleft => (ihright _).bind fun right hright => ?_
      exact Sampler.returns_pure (.disjunction hleft hright)
    · exact Sampler.returns_refuse
  | ofFormula h hleaves ih =>
    obtain ⟨space, rfl, -⟩ := ofFormula_eq_ok h
    simp only [protocol, FormulaProof.protocol]
    split
    · rename_i known
      split
      · have hgates := announce_gate_shaped space known ih
          fun leaf hleaf => (hleaves leaf hleaf).simulate_shaped
        exact hgates.imp fun _ => .formula
      · exact Sampler.returns_refuse
    · exact Sampler.returns_refuse
  | sealedBy scheme _ _ =>
    refine (Sampler.returns_any _).bind fun m _ => (Sampler.returns_any _).bind fun message _ => ?_
    exact (Sampler.returns_any _).bind fun sealing _ => Sampler.returns_pure .sealed

/-- The announcement that a prover comes to can be sent. -/
theorem Accepted.announced_encodes (h : s.Accepted) {witness : Witness}
    {source stream : ByteStream} {a : Announcement G} {secret : Secret G}
    (hrun : (s.protocol.announce witness).run source = (.ok (a, secret), stream)) :
    ∃ data, s.protocol.encodeAnnouncement a = .ok data :=
  (h.encodes a).ok (h.announce_shaped witness hrun)

/-! ### Messages that are read -/

/-- An announcement that is decoded has the gates of the formula. -/
theorem shaped_of_gateDecodes {gates : Formula (Statement G)}
    (h : ∀ leaf ∈ gates.leaves, ∀ {a}, Decodes leaf.2.protocol.decodeAnnouncement a →
      leaf.2.Shaped a) {a : Announcement G}
    (ha : Decodes (FormulaProof.decodeAnnouncement (formulaProtocols gates)) a) :
    GateShaped gates a := by
  have hchildren : ∀ {children : List (Formula (Statement G))} {as : List (Announcement G)} {data},
      (∀ child ∈ children, ∀ {a},
        Decodes (FormulaProof.decodeAnnouncement (formulaProtocols child)) a → GateShaped child a) →
      decodeFrames "partial-knowledge announcement"
        (FormulaProof.announcementDecoders (formulasProtocols children)) data = .ok as →
      ∀ part ∈ children.zip as, GateShaped part.1 part.2 := by
    intro children as data hchild has part hpart
    rw [FormulaProof.announcementDecoders_eq, formulasProtocols_eq, List.map_map] at has
    have hpairs := List.forall₂_map_left_iff.1 (decodes_of_decodeFrames has)
    exact hchild _ (List.of_mem_zip hpart).1 (List.forall₂_zip hpairs hpart)
  induction gates using Formula.induction generalizing a with
  | leaf name s =>
    obtain ⟨data, ha⟩ := ha
    obtain ⟨inside, hinside, rfl⟩ := map_eq_ok.1 ha
    exact .leaf (h (name, s) (List.mem_singleton_self _) ⟨data, hinside⟩)
  | all children ih =>
    obtain ⟨data, ha⟩ := ha
    obtain ⟨as, has, rfl⟩ := map_eq_ok.1 ha
    have hleaves := Formula.forall_mem_leavesOf.1 h
    exact .all (hchildren (fun child hmem => ih child hmem (hleaves child hmem)) has)
  | any children ih =>
    obtain ⟨data, ha⟩ := ha
    obtain ⟨as, has, rfl⟩ := map_eq_ok.1 ha
    have hleaves := Formula.forall_mem_leavesOf.1 h
    exact .any (hchildren (fun child hmem => ih child hmem (hleaves child hmem)) has)

/-- An announcement that was read has the gates of the statement. -/
theorem Accepted.shaped_of_decodes (h : s.Accepted) {a : Announcement G}
    (ha : Decodes s.protocol.decodeAnnouncement a) : s.Shaped a := by
  induction h generalizing a with
  | modP s =>
    obtain ⟨data, ha⟩ := ha
    obtain ⟨t, -, rfl⟩ := map_eq_ok.1 ha
    exact .modP
  | discreteLog s =>
    obtain ⟨data, ha⟩ := ha
    obtain ⟨ts, -, rfl⟩ := map_eq_ok.1 ha
    exact .discreteLog
  | allOf h _ ih =>
    obtain ⟨first, rest, rfl, rfl, -⟩ := allOf_eq_ok h
    obtain ⟨data, ha⟩ := ha
    obtain ⟨as, has, rfl⟩ := map_eq_ok.1 ha
    have hpairs : List.Forall₂ Decodes _ as := decodes_of_decodeFrames has
    rw [← protocols, protocols_eq, List.map_map, List.forall₂_map_left_iff] at hpairs
    refine .conjunction fun part hpart => ?_
    exact ih part.1 (List.of_mem_zip hpart).1 (List.forall₂_zip hpairs hpart)
  | anyOf h _ _ ihleft ihright =>
    obtain ⟨rfl, -⟩ := anyOf_eq_ok h
    obtain ⟨data, ha⟩ := ha
    obtain ⟨⟨la, cursor⟩, hla, ha⟩ := bind_eq_ok.1 ha
    obtain ⟨⟨ra, cursor'⟩, hra, ha⟩ := bind_eq_ok.1 ha
    obtain ⟨_, -, ha⟩ := bind_eq_ok.1 ha
    obtain rfl := Except.ok.inj ha
    exact .disjunction (ihleft (FrameCursor.decodes_of_decode hla))
      (ihright (FrameCursor.decodes_of_decode hra))
  | ofFormula h _ ih =>
    obtain ⟨space, rfl, -⟩ := ofFormula_eq_ok h
    exact .formula (shaped_of_gateDecodes ih ha)
  | sealedBy scheme _ _ =>
    obtain ⟨data, ha⟩ := ha
    obtain ⟨digest, -, rfl⟩ := map_eq_ok.1 ha
    exact .sealed

/-- In responses that are decoded every child's is decoded. -/
theorem decodes_response_of_mem {space : ChallengeSpace}
    {children : List (Formula (Statement G))} {rs : List (Response G)}
    (h : List.Forall₂ Decodes (FormulaProof.responseDecoders space (formulasProtocols children)) rs)
    {child : Formula (Statement G) × Response G} (hchild : child ∈ children.zip rs) :
    Decodes (FormulaProof.decodeResponse space (formulaProtocols child.1)) child.2 := by
  rw [FormulaProof.responseDecoders_eq, formulasProtocols_eq, List.map_map] at h
  exact List.forall₂_zip (List.forall₂_map_left_iff.1 h) hchild

/-- An announcement that a decoded response opens has the gates of what was sealed. -/
theorem shaped_of_gateOpens_decodes {space : ChallengeSpace} {gates : Formula (Statement G)}
    {part : Statement G} {opened : Announcement G}
    (h : ∀ leaf ∈ gates.leaves, ∀ {r}, Decodes leaf.2.protocol.decodeResponse r →
      leaf.2.Opens r part opened → part.Shaped opened) {r : Response G}
    (hr : Decodes (FormulaProof.decodeResponse space (formulaProtocols gates)) r)
    (hopens : GateOpens gates r part opened) : part.Shaped opened := by
  induction gates using Formula.induction generalizing r with
  | leaf name s =>
    cases hopens with
    | leaf hopens =>
      obtain ⟨data, hr⟩ := hr
      obtain ⟨r', hr', ⟨⟩⟩ := map_eq_ok.1 hr
      exact h (name, s) (List.mem_singleton_self _) ⟨data, hr'⟩ hopens
  | all children ih =>
    cases hopens with
    | all hmem hopens =>
      obtain ⟨data, hr⟩ := hr
      obtain ⟨rs, hrs, ⟨⟩⟩ := map_eq_ok.1 hr
      have hin := (List.of_mem_zip hmem).1
      exact ih _ hin (Formula.forall_mem_leavesOf.1 h _ hin)
        (decodes_response_of_mem (decodes_of_decodeFrames hrs) hmem) hopens
  | any children ih =>
    cases hopens with
    | any hmem hopens =>
      obtain ⟨data, hr⟩ := hr
      obtain ⟨⟨shares, cursor⟩, -, hr⟩ := bind_eq_ok.1 hr
      obtain ⟨⟨rs, cursor'⟩, hrs, hr⟩ := bind_eq_ok.1 hr
      obtain ⟨_, -, ⟨⟩⟩ := bind_eq_ok.1 hr
      have hin := (List.of_mem_zip hmem).1
      exact ih _ hin (Formula.forall_mem_leavesOf.1 h _ hin)
        (decodes_response_of_mem (FrameCursor.decodes_of_decodeEach hrs) hmem) hopens

/-- A response that was read opens announcements of the right shape only. -/
theorem Accepted.shaped_of_opens_decodes (h : s.Accepted) {r : Response G}
    (hr : Decodes s.protocol.decodeResponse r) {part : Statement G} {opened : Announcement G}
    (hopens : s.Opens r part opened) : part.Shaped opened := by
  induction h generalizing r with
  | modP s => exact nomatch hopens
  | discreteLog s => exact nomatch hopens
  | allOf h _ ih =>
    obtain ⟨first, rest, rfl, rfl, -⟩ := allOf_eq_ok h
    obtain ⟨data, hr⟩ := hr
    cases hopens with
    | @conjunction _ _ _ rs _ branch hmem hopens =>
      obtain ⟨rs, hrs, ⟨⟩⟩ := map_eq_ok.1 hr
      have hpairs : List.Forall₂ Decodes _ rs := decodes_of_decodeFrames hrs
      rw [← protocols, protocols_eq, List.map_map, List.forall₂_map_left_iff] at hpairs
      exact ih branch.1 (List.of_mem_zip hmem).1 (List.forall₂_zip hpairs hmem) hopens
  | anyOf h _ _ ihleft ihright =>
    obtain ⟨rfl, -⟩ := anyOf_eq_ok h
    obtain ⟨data, hr⟩ := hr
    obtain ⟨⟨lc, cursor⟩, -, hr⟩ := bind_eq_ok.1 hr
    obtain ⟨⟨lr, cursor'⟩, hlr, hr⟩ := bind_eq_ok.1 hr
    obtain ⟨⟨rr, cursor''⟩, hrr, hr⟩ := bind_eq_ok.1 hr
    obtain ⟨_, -, ⟨⟩⟩ := bind_eq_ok.1 hr
    cases hopens with
    | left hopens => exact ihleft (FrameCursor.decodes_of_decode hlr) hopens
    | right hopens => exact ihright (FrameCursor.decodes_of_decode hrr) hopens
  | ofFormula h _ ih =>
    obtain ⟨space, rfl, -⟩ := ofFormula_eq_ok h
    cases hopens with
    | formula hopens => exact shaped_of_gateOpens_decodes ih hr hopens
  | sealedBy scheme hinner ih =>
    obtain ⟨data, hr⟩ := hr
    obtain ⟨⟨r', cursor⟩, hr', hr⟩ := bind_eq_ok.1 hr
    obtain ⟨⟨a, cursor'⟩, ha, hr⟩ := bind_eq_ok.1 hr
    obtain ⟨⟨opening, cursor''⟩, -, hr⟩ := bind_eq_ok.1 hr
    obtain ⟨_, -, ⟨⟩⟩ := bind_eq_ok.1 hr
    cases hopens with
    | sealed => exact hinner.shaped_of_decodes (FrameCursor.decodes_of_decode ha)
    | inside hopens => exact ih (FrameCursor.decodes_of_decode hr') hopens

/-- A response that was read is accepted or not. -/
theorem Accepted.judges (h : s.Accepted) {data : Bytes} {r : Response G}
    (hr : s.protocol.decodeResponse data = .ok r) (a : Announcement G) (c : Nat) :
    ∃ verdict, s.protocol.check a c r = .ok verdict := by
  refine (h.check_or_opensMisshapen a c r).resolve_right ?_
  rintro ⟨-, part, opened, hopens, hnot⟩
  exact hnot (h.shaped_of_opens_decodes ⟨data, hr⟩ hopens)

end Statement
end ThreeMove

/-
# Honest proofs are accepted wherever they are checked

A prover with a witness makes a non-interactive proof that is accepted as it is, that is
read back from its encoding, and that is accepted when it is checked from the bytes
(`Accepted.proofs_accepted`).  Only the last of these needs more than completeness: the
response must be one that the decoder reads.  As it is a simulated one, and the simulator
shows reduced challenges only (`Accepted.simulate_reduced`), it is.
-/

import ThreeMove.Proofs.Statement.Promises
import ThreeMove.Proofs.Statement.Transmission
import ThreeMove.Proofs.Statement.Width

namespace ThreeMove
namespace Statement

variable {G : Type} [PrimeGroup G] {s : Statement G}

/-! ### The simulator shows reduced challenges -/

/-- The simulated responses of the children of a gate are reduced. -/
theorem simulateEach_reduced {space : ChallengeSpace} {children : List (Formula (Statement G))}
    (h : ∀ child ∈ children, ∀ c,
      (FormulaProof.simulate space (formulaProtocols child) c).Always fun m =>
        GateReduced space child m.2) (cs : List Nat) :
    (FormulaProof.simulateEach space (formulasProtocols children) cs).Always fun parts =>
      ∀ part ∈ children.zip (parts.map (·.2)), GateReduced space part.1 part.2 := by
  induction children generalizing cs with
  | nil => exact Sampler.always_pure fun _ hmem => absurd hmem List.not_mem_nil
  | cons child children ih =>
    cases cs with
    | nil => exact Sampler.always_pure fun _ hmem => absurd hmem List.not_mem_nil
    | cons c cs =>
      rw [List.forall_mem_cons] at h
      refine (h.1 c).bind fun part hpart => (ih h.2 cs).bind fun parts hparts => ?_
      exact Sampler.always_pure (List.forall_mem_cons.2 ⟨hpart, hparts⟩)

/-- The simulated responses of a formula are reduced if those of its leaves are. -/
theorem simulate_gate_reduced {space : ChallengeSpace} {gates : Formula (Statement G)}
    (h : ∀ leaf ∈ gates.leaves, ∀ c,
      (leaf.2.protocol.simulate c).Always fun m => leaf.2.Reduced m.2) (c : Nat) :
    (FormulaProof.simulate space (formulaProtocols gates) c).Always fun m =>
      GateReduced space gates m.2 := by
  induction gates using Formula.induction generalizing c with
  | leaf name s =>
    refine (h (name, s) (List.mem_singleton_self _) c).bind fun m hm => ?_
    exact Sampler.always_pure (.leaf hm)
  | all children ih =>
    have hleaves := Formula.forall_mem_leavesOf.1 h
    have hparts := simulateEach_reduced fun child hchild => ih child hchild (hleaves child hchild)
    exact (hparts _).bind fun parts hparts => Sampler.always_pure (.all hparts)
  | any children ih =>
    have hleaves := Formula.forall_mem_leavesOf.1 h
    have hparts := simulateEach_reduced fun child hchild => ih child hchild (hleaves child hchild)
    rw [formulaProtocols, FormulaProof.simulate, Sampler.mapM_drawElement]
    refine (Sampler.always_drawShares_lt space _).bind fun shares hshares => ?_
    exact (hparts _).bind fun parts hparts => Sampler.always_pure (.any hshares hparts)

/-- Whatever is drawn, the simulated response is reduced. -/
theorem Accepted.simulate_reduced (h : s.Accepted)
    (laws : s.space.family = .field → PrimeGroup.Laws G) (c : Nat) :
    (s.protocol.simulate c).Always fun m => s.Reduced m.2 := by
  induction h generalizing c with
  | modP s =>
    exact (Sampler.always_drawElement s.space).bind fun r _ => Sampler.always_pure .modP
  | discreteLog s =>
    refine (Sampler.always_drawElement (PrimeGroup.scalars G)).bind fun r hr => ?_
    exact Sampler.always_pure (.discreteLog hr)
  | allOf h _ ih =>
    obtain ⟨first, rest, rfl, rfl, hspace⟩ := allOf_eq_ok h
    have hparts : Sampler.Always
        (List.Forall₂ (fun part m => Reduced part m.2) (first :: rest))
        (((first :: rest).map protocol).mapM fun branch => branch.simulate c) := by
      rw [List.mapM_map]
      exact Sampler.always_mapM fun part hpart => ih part hpart (hspace part hpart ▸ laws) c
    rw [← protocols_eq] at hparts
    refine hparts.bind fun parts hparts => Sampler.always_pure (.conjunction fun part hpart => ?_)
    exact List.forall₂_zip (List.forall₂_map_right_iff.2 hparts) hpart
  | anyOf h _ _ ihleft ihright =>
    obtain ⟨rfl, hspace⟩ := anyOf_eq_ok h
    refine (Sampler.always_drawElement _).bind fun lc hlc => ?_
    refine (ihleft laws lc).bind fun left hleft => ?_
    refine (ihright (hspace ▸ laws) _).bind fun right hright => Sampler.always_pure ?_
    rw [space_protocol] at hlc
    exact .disjunction hlc hleft hright
  | ofFormula h _ ih =>
    obtain ⟨space, rfl, hgates⟩ := ofFormula_eq_ok h
    refine (simulate_gate_reduced (fun leaf hleaf => ?_) c).imp fun _ => .formula
    exact ih leaf hleaf (hgates.space_eq leaf hleaf ▸ laws)
  | sealedBy scheme hinner ih =>
    refine ((hinner.simulates laws c).and (ih laws c)).bind
      fun (a, r) ⟨⟨_, message, hmessage⟩, hr⟩ => ?_
    simp only [show _ = Except.ok message from hmessage]
    refine (Sampler.always_drawBytes HashCommitment.length).bind fun opening ho => ?_
    exact Sampler.always_pure (.sealed hr ho)

/-! ### The prover -/

/-- Whatever is drawn, a prover with a witness makes a proof that is accepted and whose
response is reduced. -/
theorem Accepted.prove_always (h : s.Accepted)
    (laws : s.space.family = .field → PrimeGroup.Laws G) {witness : Witness}
    (hknows : s.Knows witness) (session data : Bytes) :
    (Noninteractive.prove ⟨session, s.protocol⟩ witness data).Always fun proof =>
      Noninteractive.check ⟨session, s.protocol⟩ proof data = .ok true ∧
        s.Reduced proof.response := by
  have hsimulated := fun c => (h.simulates laws c).and (h.simulate_reduced laws c)
  refine ((h.hides laws hknows).always hsimulated).bind fun (a, secret) hanswers => ?_
  obtain ⟨_, -, ⟨-, encoded, hencoded⟩, -⟩ := hanswers 0
  have hchallenge : Noninteractive.challenge ⟨session, s.protocol⟩ a data =
      .ok (s.protocol.space.hash
        (Noninteractive.hashInput ⟨session, s.protocol⟩ encoded data)) := by
    rw [Noninteractive.challenge, show s.protocol.encodeAnnouncement a = .ok encoded from hencoded]
    rfl
  generalize s.protocol.space.hash _ = c at hchallenge
  obtain ⟨r, hr, ⟨hcheck, -⟩, hreduced⟩ := hanswers c
  refine (Sampler.always_ofExcept (Q := (· = c)) (congrArg Failure.ofAborted hchallenge) rfl).bind
    fun c' hc' => ?_
  subst hc'
  refine (Sampler.always_ofExcept (Q := (· = r)) (congrArg Failure.ofRefused hr) rfl).bind
    fun r' hr' => ?_
  subst hr'
  refine Sampler.always_pure ⟨?_, hreduced⟩
  rw [Noninteractive.check, hchallenge]
  exact hcheck

/-- **A proof by a prover with a witness is accepted as it is and when it is sent.**  On every
stream that answers its draws the prover makes a proof, which is accepted.  The proof has an
encoding in two frames, whose lengths the statement determines; and unless one of these takes
4 GiB, the proof is read back from its encoding and is accepted when it is checked from the
bytes. -/
theorem Accepted.proofs_accepted (h : s.Accepted)
    (laws : s.space.family = .field → PrimeGroup.Laws G)
    (exact : s.space.family = .field → PrimeGroup.ExactEncoding G) {witness : Witness}
    (hknows : s.Knows witness) (session data : Bytes) {source : ByteStream}
    (hsource : (Noninteractive.prove ⟨session, s.protocol⟩ witness data).Answered source) :
    ∃ proof rest aBytes rBytes,
      (Noninteractive.prove ⟨session, s.protocol⟩ witness data).run source = (.ok proof, rest) ∧
      Noninteractive.check ⟨session, s.protocol⟩ proof data = .ok true ∧
      s.protocol.encodeAnnouncement proof.announcement = .ok aBytes ∧
      s.protocol.encodeResponse proof.response = .ok rBytes ∧
      aBytes.length = s.announcementLength ∧ rBytes.length = s.responseLength ∧
      Noninteractive.encode ⟨session, s.protocol⟩ proof = .ok (frameAll [aBytes, rBytes]) ∧
      (aBytes.length < 2 ^ 32 → rBytes.length < 2 ^ 32 →
        Noninteractive.decode ⟨session, s.protocol⟩ (frameAll [aBytes, rBytes]) = .ok proof ∧
        Noninteractive.checkEncoded ⟨session, s.protocol⟩ (frameAll [aBytes, rBytes]) data =
          .ok true) := by
  obtain ⟨proof, rest, hrun, hcheck, hreduced⟩ :=
    (h.prove_always laws hknows session data).run hsource
  have hmatches := h.matches_of_proof hcheck
  have hresponse := hmatches.response hreduced
  obtain ⟨aBytes, ha, -⟩ := h.restoresAnnouncement exact _ hmatches.announcement
  obtain ⟨rBytes, hr, -⟩ := h.restoresResponse exact _ hresponse
  have encoding := fun hfield => (exact hfield).injectiveEncoding
  refine ⟨proof, rest, aBytes, rBytes, hrun, hcheck, ha, hr,
    (h.fixedAnnouncement encoding).length_eq hmatches.announcement ha,
    (h.fixedResponse encoding).length_eq hresponse hr,
    bind_eq_ok.2 ⟨aBytes, ha, bind_eq_ok.2 ⟨rBytes, hr, rfl⟩⟩, fun haSmall hrSmall => ?_⟩
  have hdecode := h.decode_frames exact session ha hr haSmall hrSmall hmatches.announcement
    hresponse
  exact ⟨hdecode, (Noninteractive.checkEncoded_of_decode hdecode data).trans hcheck⟩

/-- The hypotheses are satisfiable, and the frames are short enough: over residues, where one of
two logarithms is known, and over scalars, where the other branch is simulated. -/
theorem proofs_accepted_sixOrSeven_twoOrThree :
    (∃ proof rest bytes,
      (Noninteractive.prove ⟨[1], sixOrSeven.protocol⟩ (.named [("seven", .scalar 7)]) [2]).run
          (.ofTape (List.replicate 12 0) 0) = (.ok proof, rest) ∧
        Noninteractive.check ⟨[1], sixOrSeven.protocol⟩ proof [2] = .ok true ∧
        Noninteractive.encode ⟨[1], sixOrSeven.protocol⟩ proof = .ok bytes ∧
        Noninteractive.decode ⟨[1], sixOrSeven.protocol⟩ bytes = .ok proof ∧
        Noninteractive.checkEncoded ⟨[1], sixOrSeven.protocol⟩ bytes [2] = .ok true) ∧
    ∃ proof rest bytes,
      (Noninteractive.prove ⟨[], twoOrThree.protocol⟩ (.left (.scalar 2)) []).run (.ofTape [] 0) =
          (.ok proof, rest) ∧
        Noninteractive.check ⟨[], twoOrThree.protocol⟩ proof [] = .ok true ∧
        Noninteractive.encode ⟨[], twoOrThree.protocol⟩ proof = .ok bytes ∧
        Noninteractive.decode ⟨[], twoOrThree.protocol⟩ bytes = .ok proof ∧
        Noninteractive.checkEncoded ⟨[], twoOrThree.protocol⟩ bytes [] = .ok true := by
  constructor
  · have hsource : (Noninteractive.prove ⟨[1], sixOrSeven.protocol⟩
        (.named [("seven", .scalar 7)]) [2]).Answered (.ofTape (List.replicate 12 0) 0) :=
      ⟨_, _, rfl, _, _, rfl, _, _, rfl, trivial⟩
    obtain ⟨proof, rest, aBytes, rBytes, hrun, hcheck, -, -, ha, hr, hencode, hwire⟩ :=
      Accepted.proofs_accepted accepted_sixOrSeven nofun nofun knows_sixOrSeven [1] [2] hsource
    obtain ⟨hdecode, hchecked⟩ := hwire (ha.trans_lt (by decide)) (hr.trans_lt (by decide))
    exact ⟨proof, rest, _, hrun, hcheck, hencode, hdecode, hchecked⟩
  · have hsource : (Noninteractive.prove ⟨[], twoOrThree.protocol⟩ (.left (.scalar 2)) []).Answered
        (.ofTape [] 0) := ⟨_, _, rfl, _, _, rfl, _, _, rfl, trivial⟩
    obtain ⟨proof, rest, aBytes, rBytes, hrun, hcheck, -, -, ha, hr, hencode, hwire⟩ :=
      Accepted.proofs_accepted accepted_twoOrThree (fun _ => Cyclic.laws)
        (fun _ => Cyclic.exactEncoding) knows_twoOrThree [] [] hsource
    obtain ⟨hdecode, hchecked⟩ := hwire (ha.trans_lt (by decide)) (hr.trans_lt (by decide))
    exact ⟨proof, rest, _, hrun, hcheck, hencode, hdecode, hchecked⟩

end Statement
end ThreeMove

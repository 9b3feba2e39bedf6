/-
# Proofs that are sent

A non-interactive proof is checked as it is, or it is encoded, and what is read from the
bytes is checked.  The two verdicts are one under two conditions.  A proof that is rejected
for its surplus parts may be accepted once the encoder has dropped them, so the messages
must be trim; and one that is accepted may not be readable, so the challenges that the
response shows must be reduced (`Accepted.received_iff`).
-/

import ThreeMove.Proofs.Statement.Trim

namespace ThreeMove
namespace Noninteractive

variable {G : Type} {system : Noninteractive G} {aBytes rBytes : Bytes}

/-- A proof is read from two frames where its messages are read from what is in them. -/
theorem decode_eq_ok (ha : aBytes.length < 2 ^ 32) (hr : rBytes.length < 2 ^ 32)
    {proof : Proof G} : system.decode (frameAll [aBytes, rBytes]) = .ok proof ↔
      system.protocol.decodeAnnouncement aBytes = .ok proof.announcement ∧
        system.protocol.decodeResponse rBytes = .ok proof.response := by
  constructor
  · intro h
    obtain ⟨⟨a, _⟩, hfirst, h⟩ := bind_eq_ok.1 h
    obtain ⟨ha, rfl⟩ := FrameCursor.of_decode_frame ha hfirst
    obtain ⟨⟨r, _⟩, hsecond, h⟩ := bind_eq_ok.1 h
    obtain ⟨hr, rfl⟩ := FrameCursor.of_decode_frame hr hsecond
    obtain ⟨_, -, heq⟩ := bind_eq_ok.1 h
    obtain rfl := Except.ok.inj heq
    exact ⟨ha, hr⟩
  · rintro ⟨hannouncement, hresponse⟩
    refine bind_eq_ok.2 ⟨(proof.announcement, ⟨frameAll [rBytes]⟩),
      FrameCursor.decode_eq_ok.2 ⟨aBytes, ha, rfl, hannouncement⟩, ?_⟩
    exact bind_eq_ok.2 ⟨(proof.response, ⟨[]⟩),
      FrameCursor.decode_eq_ok.2 ⟨rBytes, hr, rfl, hresponse⟩, rfl⟩

/-- Checking bytes that are decoded is checking the proof. -/
theorem checkEncoded_of_decode {proof : Proof G} {bytes : Bytes}
    (h : system.decode bytes = .ok proof) (data : Bytes) :
    system.checkEncoded bytes data = system.check proof data := by
  rw [checkEncoded, h]

/-- A proof whose response answers every challenge alike is judged without hashing. -/
theorem check_of_forall {proof : Proof G} {verdict : Bool}
    (ha : system.protocol.encodeAnnouncement proof.announcement = .ok aBytes)
    (h : ∀ c, system.protocol.check proof.announcement c proof.response = .ok verdict)
    (data : Bytes) : system.check proof data = .ok verdict := by
  rw [check_of_encodes ha]
  exact h _

end Noninteractive

namespace Statement

variable {G : Type} [PrimeGroup G] {s : Statement G}

/-- A proof whose messages have encodings is judged. -/
theorem Accepted.exists_check (h : s.Accepted) (session : Bytes) {proof : Proof G}
    {aBytes rBytes : Bytes} (ha : s.protocol.encodeAnnouncement proof.announcement = .ok aBytes)
    (hr : s.protocol.encodeResponse proof.response = .ok rBytes) (data : Bytes) :
    ∃ verdict, Noninteractive.check ⟨session, s.protocol⟩ proof data = .ok verdict := by
  rw [Noninteractive.check_of_encodes ha]
  refine (h.check_or_opensMisshapen _ _ _).resolve_right ?_
  rintro ⟨-, part, opened, hopens, hnot⟩
  exact hnot (h.shaped_of_opens hr hopens)

/-- The messages of an accepted proof match the statement. -/
theorem Accepted.matches_of_proof (h : s.Accepted) {session : Bytes} {proof : Proof G}
    {data : Bytes} (hcheck : Noninteractive.check ⟨session, s.protocol⟩ proof data = .ok true) :
    s.Matches proof.announcement proof.response := by
  obtain ⟨c, -, hcheck⟩ := bind_eq_ok.1 hcheck
  exact h.matches_of_check hcheck

/-- A proof of messages of the statement is read from its encoding. -/
theorem Accepted.decode_frames (h : s.Accepted)
    (exact : s.space.family = .field → PrimeGroup.ExactEncoding G) (session : Bytes)
    {proof : Proof G} {aBytes rBytes : Bytes}
    (ha : s.protocol.encodeAnnouncement proof.announcement = .ok aBytes)
    (hr : s.protocol.encodeResponse proof.response = .ok rBytes)
    (haSmall : aBytes.length < 2 ^ 32) (hrSmall : rBytes.length < 2 ^ 32)
    (hannouncement : s.AnnouncementOf proof.announcement)
    (hresponse : s.ResponseOf proof.response) :
    Noninteractive.decode ⟨session, s.protocol⟩ (frameAll [aBytes, rBytes]) = .ok proof := by
  obtain ⟨_, ha', hrestored⟩ := h.restoresAnnouncement exact _ hannouncement
  obtain rfl := Except.ok.inj (ha.symm.trans ha')
  obtain ⟨_, hr', hrestored'⟩ := h.restoresResponse exact _ hresponse
  obtain rfl := Except.ok.inj (hr.symm.trans hr')
  exact (Noninteractive.decode_eq_ok haSmall hrSmall).2 ⟨hrestored haSmall, hrestored' hrSmall⟩

/-- What is read of a trim proof is the proof itself, and its response is reduced. -/
theorem Accepted.eq_of_decode_frames (h : s.Accepted)
    (exact : s.space.family = .field → PrimeGroup.ExactEncoding G) {session : Bytes}
    {proof proof' : Proof G} {aBytes rBytes : Bytes}
    (ha : s.protocol.encodeAnnouncement proof.announcement = .ok aBytes)
    (hr : s.protocol.encodeResponse proof.response = .ok rBytes)
    (haSmall : aBytes.length < 2 ^ 32) (hrSmall : rBytes.length < 2 ^ 32)
    (htrim : s.TrimAnnouncement proof.announcement) (htrim' : s.TrimResponse proof.response)
    (hread : Noninteractive.decode ⟨session, s.protocol⟩ (frameAll [aBytes, rBytes]) =
      .ok proof') : proof' = proof ∧ s.Reduced proof.response := by
  obtain ⟨ha', hr'⟩ := (Noninteractive.decode_eq_ok haSmall hrSmall).1 hread
  have hannouncement := h.vouchesAnnouncement exact _ htrim _ _ ha haSmall ha'
  have hresponse := h.vouchesResponse exact _ htrim' _ _ hr hrSmall hr'
  have hsame := h.decode_frames exact session ha hr haSmall hrSmall hannouncement hresponse
  exact ⟨Except.ok.inj (hread.symm.trans hsame), h.reduced_of_responseOf _ hresponse⟩

/-- **Sending a proof keeps the verdict, if the proof is trim and reduced.**  A proof with
an encoding, none of whose frames takes 4 GiB, is judged before and after it is sent.  One
that is accepted is accepted after it is sent just where its response is reduced, and one
without surplus parts that is rejected is rejected after it is sent. -/
theorem Accepted.received_iff (h : s.Accepted)
    (exact : s.space.family = .field → PrimeGroup.ExactEncoding G) (session : Bytes)
    (proof : Proof G) {aBytes rBytes : Bytes}
    (ha : s.protocol.encodeAnnouncement proof.announcement = .ok aBytes)
    (hr : s.protocol.encodeResponse proof.response = .ok rBytes)
    (haSmall : aBytes.length < 2 ^ 32) (hrSmall : rBytes.length < 2 ^ 32) (data : Bytes) :
    Noninteractive.encode ⟨session, s.protocol⟩ proof = .ok (frameAll [aBytes, rBytes]) ∧
    ∃ verdict received,
      Noninteractive.check ⟨session, s.protocol⟩ proof data = .ok verdict ∧
      Noninteractive.checkEncoded ⟨session, s.protocol⟩ (frameAll [aBytes, rBytes]) data =
        .ok received ∧
      (verdict = true → (received = true ↔ s.Reduced proof.response)) ∧
      (s.TrimAnnouncement proof.announcement → s.TrimResponse proof.response →
        verdict = false → received = false) := by
  refine ⟨bind_eq_ok.2 ⟨aBytes, ha, bind_eq_ok.2 ⟨rBytes, hr, rfl⟩⟩, ?_⟩
  obtain ⟨verdict, hverdict⟩ := h.exists_check session ha hr data
  cases hproof' : Noninteractive.decode ⟨session, s.protocol⟩ (frameAll [aBytes, rBytes]) with
  | error cause =>
    refine ⟨verdict, false, hverdict, ?_, ?_, fun _ _ _ => rfl⟩
    · rw [Noninteractive.checkEncoded, hproof']
    · rintro rfl
      have hmatches := h.matches_of_proof hverdict
      refine ⟨fun hfalse => absurd hfalse Bool.false_ne_true, fun hreduced => ?_⟩
      have hok := h.decode_frames exact session ha hr haSmall hrSmall hmatches.announcement
        (hmatches.response hreduced)
      cases hproof'.symm.trans hok
  | ok proof' =>
    obtain ⟨ha', hr'⟩ := (Noninteractive.decode_eq_ok haSmall hrSmall).1 hproof'
    have hcanonical := h.canonical exact
    obtain ⟨received, hreceived⟩ := h.exists_check session
      (hcanonical.announcement _ _ ha') (hcanonical.response _ _ hr') data
    refine ⟨verdict, received, hverdict, ?_, ?_, ?_⟩
    · rw [Noninteractive.checkEncoded_of_decode hproof']
      exact hreceived
    · rintro rfl
      have hmatches := h.matches_of_proof hverdict
      obtain ⟨rfl, hreduced⟩ := h.eq_of_decode_frames exact ha hr haSmall hrSmall
        hmatches.trimAnnouncement hmatches.trimResponse hproof'
      obtain rfl := Except.ok.inj (hverdict.symm.trans hreceived)
      exact ⟨fun _ => hreduced, fun _ => rfl⟩
    · rintro htrim htrim' rfl
      obtain ⟨rfl, -⟩ := h.eq_of_decode_frames exact ha hr haSmall hrSmall htrim htrim' hproof'
      exact (Except.ok.inj (hverdict.symm.trans hreceived)).symm

/-- `4 ^ x = 1` modulo 23, where one response answers every challenge. -/
def one : ModP := { six with y := 1, y_pos := by decide, y_lt := by decide, y_pow := by decide }

/-- A single branch. -/
def allOfOne : Statement Ristretto := .conjunction (.modP one) []

/-- Two branches. -/
def anyOfOne : Statement Ristretto := .disjunction (.modP one) (.modP one)

/-- Two leaves under a gate. -/
def gateOfOne : Statement Ristretto :=
  .formula one.space (.any [.leaf "a" (.modP one), .leaf "b" (.modP one)])

/-- The conjunction of one trivial logarithm can be built. -/
theorem accepted_allOfOne : allOfOne.Accepted := by
  have h : allOf [.modP one] = .ok allOfOne := rfl
  exact .allOf h (List.forall_mem_singleton.2 (.modP one))

/-- The disjunction of two trivial logarithms can be built. -/
theorem accepted_anyOfOne : anyOfOne.Accepted := .anyOf rfl (.modP one) (.modP one)

/-- The `any` gate over two trivial logarithms can be built. -/
theorem accepted_gateOfOne : gateOfOne.Accepted := by
  have h : ofFormula (.any [.leaf "a" (.modP one), .leaf "b" (.modP one)]) = .ok gateOfOne := rfl
  refine .ofFormula h ?_
  rintro leaf (_ | ⟨_, _ | ⟨_, ⟨⟩⟩⟩) <;> exact .modP one

/-- The trivial logarithm accepts zero, whatever the challenge. -/
theorem check_one (c : Nat) :
    (one.protocol (G := Ristretto)).check (.residue 1) c (.scalar 0) = .ok true := by
  have hpower : one.g ^ 0 ≡ 1 * one.y ^ c [MOD one.p] := by
    rw [show one.y = 1 from rfl, Nat.one_pow, Nat.pow_zero]
  exact congrArg Except.ok (one.accepts_iff.2 ⟨by decide, by decide, by decide, hpower⟩)

/-- So does the conjunction of it, each part. -/
theorem check_allOfOne (c : Nat) :
    allOfOne.protocol.check (.all [.residue 1]) c (.all [.scalar 0]) = .ok true :=
  allM_eq_ok_true.2 (List.forall_mem_singleton.2 (check_one c))

/-- So does the disjunction, whatever the share. -/
theorem check_anyOfOne (c share : Nat) :
    anyOfOne.protocol.check (.any [.residue 1, .residue 1]) c
      (.any [share] [.scalar 0, .scalar 0]) = .ok true :=
  Disjunction.check_eq_ok_true.2 ⟨check_one share, check_one _⟩

/-- So does the `any` gate, whatever the share. -/
theorem check_gateOfOne (c share : Nat) :
    gateOfOne.protocol.check (.any [.leaf (.residue 1), .leaf (.residue 1)]) c
      (.any [share] [.leaf (.scalar 0), .leaf (.scalar 0)]) = .ok true := by
  have hleaf : ∀ name c, FormulaProof.check one.space (.leaf name (one.protocol (G := Ristretto)))
      (.leaf (.residue 1)) c (.leaf (.scalar 0)) = .ok true := fun _ c => check_one c
  have heach : ∀ c c', FormulaProof.checkEach one.space
      [.leaf "a" (one.protocol (G := Ristretto)), .leaf "b" one.protocol]
      [.leaf (.residue 1), .leaf (.residue 1)] [c, c'] [.leaf (.scalar 0), .leaf (.scalar 0)] =
        .ok true := fun c c' =>
    FormulaProof.checkEach_cons.2 ⟨hleaf "a" c, FormulaProof.checkEach_cons.2 ⟨hleaf "b" c', rfl⟩⟩
  exact heach _ _

/-- The hypotheses are satisfiable: an accepted proof with a reduced challenge is accepted
after it is sent, and a proof over scalars is judged before and after. -/
theorem received_iff_anyOfOne_twoOrThree :
    Noninteractive.checkEncoded ⟨[], anyOfOne.protocol⟩
      [0, 0, 0, 10, 0, 0, 0, 1, 1, 0, 0, 0, 1, 1,
        0, 0, 0, 15, 0, 0, 0, 1, 3, 0, 0, 0, 1, 0, 0, 0, 0, 1, 0] [] = .ok true ∧
    ∃ bytes verdict received,
      Noninteractive.encode ⟨[], twoOrThree.protocol⟩
        ⟨.any [.elements [⟨1⟩, ⟨2⟩], .elements [⟨3⟩]], .any [4] [.scalar 5, .scalar 6]⟩ =
          .ok bytes ∧
      Noninteractive.check ⟨[], twoOrThree.protocol⟩
        ⟨.any [.elements [⟨1⟩, ⟨2⟩], .elements [⟨3⟩]], .any [4] [.scalar 5, .scalar 6]⟩ [] =
          .ok verdict ∧
      Noninteractive.checkEncoded ⟨[], twoOrThree.protocol⟩ bytes [] = .ok received := by
  constructor
  · have ha : anyOfOne.protocol.encodeAnnouncement (.any [.residue 1, .residue 1]) =
        .ok [0, 0, 0, 1, 1, 0, 0, 0, 1, 1] := rfl
    have hr : anyOfOne.protocol.encodeResponse (.any [3] [.scalar 0, .scalar 0]) =
        .ok [0, 0, 0, 1, 3, 0, 0, 0, 1, 0, 0, 0, 0, 1, 0] := rfl
    obtain ⟨-, verdict, received, hverdict, hreceived, hsent, -⟩ :=
      Accepted.received_iff accepted_anyOfOne nofun [] ⟨_, _⟩ ha hr (by decide) (by decide) []
    have haccepted : Noninteractive.check ⟨[], anyOfOne.protocol⟩
        ⟨.any [.residue 1, .residue 1], .any [3] [.scalar 0, .scalar 0]⟩ [] = .ok true :=
      Noninteractive.check_of_forall ha (fun c => check_anyOfOne c 3) []
    obtain rfl := Except.ok.inj (haccepted.symm.trans hverdict)
    rw [(hsent rfl).2 (.disjunction (by decide) .modP .modP)] at hreceived
    exact hreceived
  · obtain ⟨hencode, verdict, received, hverdict, hreceived, -⟩ :=
      Accepted.received_iff accepted_twoOrThree (fun _ => Cyclic.exactEncoding) []
        ⟨.any [.elements [⟨1⟩, ⟨2⟩], .elements [⟨3⟩]], .any [4] [.scalar 5, .scalar 6]⟩ rfl rfl
        (by decide +kernel) (by decide +kernel) []
    exact ⟨_, verdict, received, hencode, hverdict, hreceived⟩

/-- The proof has the verdict, and once it is sent the opposite one. -/
def ChangesWhenSent (s : Statement G) (proof : Proof G) (verdict : Bool) : Prop :=
  s.Accepted ∧ Noninteractive.check ⟨[], s.protocol⟩ proof [] = .ok verdict ∧
    ∃ bytes, Noninteractive.encode ⟨[], s.protocol⟩ proof = .ok bytes ∧
      Noninteractive.checkEncoded ⟨[], s.protocol⟩ bytes [] = .ok !verdict

/-- A surplus announcement is dropped from the encoding of a rejected proof, and a surplus
share takes the place of a missing response: both proofs are accepted once they are sent.
An accepted proof with a challenge that is not reduced is not. -/
theorem changes_when_sent :
    ChangesWhenSent allOfOne ⟨.all [.residue 1, .residue 1], .all [.scalar 0]⟩ false ∧
    ChangesWhenSent gateOfOne
      ⟨.any [.leaf (.residue 1), .leaf (.residue 1)], .any [5, 0] [.leaf (.scalar 0)]⟩ false ∧
    ChangesWhenSent anyOfOne
      ⟨.any [.residue 1, .residue 1], .any [11] [.scalar 0, .scalar 0]⟩ true := by
  have hall : Noninteractive.decode ⟨[], allOfOne.protocol⟩
      [0, 0, 0, 5, 0, 0, 0, 1, 1, 0, 0, 0, 5, 0, 0, 0, 1, 0] =
        .ok ⟨.all [.residue 1], .all [.scalar 0]⟩ := rfl
  have hgate : Noninteractive.decode ⟨[], gateOfOne.protocol⟩
      [0, 0, 0, 10, 0, 0, 0, 1, 1, 0, 0, 0, 1, 1,
        0, 0, 0, 15, 0, 0, 0, 1, 5, 0, 0, 0, 1, 0, 0, 0, 0, 1, 0] =
      .ok ⟨.any [.leaf (.residue 1), .leaf (.residue 1)],
        .any [5] [.leaf (.scalar 0), .leaf (.scalar 0)]⟩ := rfl
  refine ⟨⟨accepted_allOfOne, rfl, _, rfl, ?_⟩, ⟨accepted_gateOfOne, rfl, _, rfl, ?_⟩,
    accepted_anyOfOne, ?_, _, rfl, rfl⟩
  · refine (Noninteractive.checkEncoded_of_decode hall []).trans ?_
    exact Noninteractive.check_of_forall rfl check_allOfOne []
  · refine (Noninteractive.checkEncoded_of_decode hgate []).trans ?_
    exact Noninteractive.check_of_forall rfl (fun c => check_gateOfOne c 5) []
  · exact Noninteractive.check_of_forall rfl (fun c => check_anyOfOne c 11) []

end Statement
end ThreeMove

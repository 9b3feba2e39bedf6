/-
# A commitment is opened in one way

Whoever opens a commitment in two ways shows two strings with one hash
(`Accepted.sealed_binds`).  What is hashed tells the opening and the encoded announcement
apart (`HashCommitment.preimage_inj`), because the announcements that the verifier accepts
have encodings of one length; and the encoding tells these announcements apart
(`Accepted.fixedAnnouncement`).  Where both responses open the same announcement, two
accepted transcripts of the sealed statement share it, and give witnesses away.
-/

import ThreeMove.Proofs.Statement.Soundness
import ThreeMove.Proofs.Statement.Trim
import ThreeMove.Proofs.Statement.Width

namespace ThreeMove

/-- Messages of one length are hashed apart, together with their openings. -/
theorem HashCommitment.preimage_inj {scheme : HashCommitment}
    {message message' opening opening' : Bytes} (hlength : message.length = message'.length)
    (h : scheme.preimage message opening = scheme.preimage message' opening') :
    message = message' ∧ opening = opening' := by
  simp only [preimage, List.append_assoc, hlength, List.append_cancel_left_eq] at h
  exact List.append_inj h hlength

namespace Statement

variable {G : Type} [PrimeGroup G] {s : Statement G}

/-- The response opens a commitment to an announcement, whose encoding is `message`, with
an accepted transcript. -/
structure Reveals (scheme : HashCommitment) (s : Statement G) (digest : Bytes) (c : Nat)
    (r : Response G) (t : Transcript G) (message opening : Bytes) : Prop where
  response_eq : r = .opening t.response t.announcement opening
  challenge_eq : t.challenge = c
  encodes : s.protocol.encodeAnnouncement t.announcement = .ok message
  digest_eq : scheme.digest message opening = digest
  accepts : s.protocol.accepts t = .ok true

/-- What is accepted for a sealed statement opens the commitment to an accepted transcript. -/
theorem exists_reveals {scheme : HashCommitment} {a : Announcement G} {c : Nat} {r : Response G}
    (h : (Statement.sealedBy scheme s).protocol.check a c r = .ok true) :
    ∃ digest t message opening, a = .commitment digest ∧
      Reveals scheme s digest c r t message opening := by
  obtain ⟨digest, answer, opened, opening, rfl, rfl, haccepts⟩ := Sealed.of_check h
  obtain ⟨message, hmessage, hdigest, -⟩ := Sealed.check_eq_ok_true.1 h
  exact ⟨digest, ⟨opened, c, answer⟩, message, opening, rfl, rfl, rfl, hmessage, hdigest, haccepts⟩

/-- Two ways to open a commitment are one, or two strings were hashed to it. -/
theorem Accepted.opens_once (h : s.Accepted)
    (encoding : s.space.family = .field → PrimeGroup.InjectiveEncoding G)
    {scheme : HashCommitment} {digest : Bytes} {c c' : Nat} {r r' : Response G}
    {t t' : Transcript G} {message message' opening opening' : Bytes}
    (hr : Reveals scheme s digest c r t message opening)
    (hr' : Reveals scheme s digest c' r' t' message' opening') :
    (t.announcement = t'.announcement ∧ opening = opening') ∨
      (scheme.preimage message opening ≠ scheme.preimage message' opening' ∧
        sha3_256 (scheme.preimage message opening) =
          sha3_256 (scheme.preimage message' opening')) := by
  have hfixed := h.fixedAnnouncement encoding
  have ha : s.AnnouncementOf t.announcement := (h.matches_of_check hr.accepts).announcement
  have ha' : s.AnnouncementOf t'.announcement := (h.matches_of_check hr'.accepts).announcement
  by_cases hpreimage : scheme.preimage message opening = scheme.preimage message' opening'
  · have hlength : message.length = message'.length :=
      (hfixed.length_eq ha hr.encodes).trans (hfixed.length_eq ha' hr'.encodes).symm
    obtain ⟨rfl, hopening⟩ := HashCommitment.preimage_inj hlength hpreimage
    exact .inl ⟨hfixed.eq_of_encode ha ha' hr.encodes hr'.encodes, hopening⟩
  · exact .inr ⟨hpreimage, hr.digest_eq.trans hr'.digest_eq.symm⟩

/-- **A commitment binds the announcement.**  Two accepted transcripts of a sealed
statement with one commitment reveal an accepted transcript of the statement each.  Either
both reveal the same announcement under the same opening, and then they give witnesses
away where the challenges differ; or the strings that were hashed differ and have one
hash. -/
theorem Accepted.sealed_binds (h : s.Accepted)
    (encoding : s.space.family = .field → PrimeGroup.InjectiveEncoding G)
    (scheme : HashCommitment) {a : Announcement G} {c c' : Nat} {r r' : Response G}
    (hcheck : (Statement.sealedBy scheme s).protocol.check a c r = .ok true)
    (hcheck' : (Statement.sealedBy scheme s).protocol.check a c' r' = .ok true) :
    ∃ digest t t' message message' opening opening', a = .commitment digest ∧
      Reveals scheme s digest c r t message opening ∧
      Reveals scheme s digest c' r' t' message' opening' ∧
      ((t.announcement = t'.announcement ∧ opening = opening' ∧
          (s.Unsealed → (s.space.family = .residues → s.space.modulus.Prime) →
            (s.space.family = .field → PrimeGroup.Laws G) →
              ¬ c ≡ c' [MOD s.space.modulus] → s.SatisfiedBy {path | s.GivesAway t t' path})) ∨
        (scheme.preimage message opening ≠ scheme.preimage message' opening' ∧
          sha3_256 (scheme.preimage message opening) =
            sha3_256 (scheme.preimage message' opening'))) := by
  obtain ⟨digest, t, message, opening, rfl, hr⟩ := exists_reveals hcheck
  obtain ⟨_, t', message', opening', ⟨⟩, hr'⟩ := exists_reveals hcheck'
  refine ⟨digest, t, t', message, message', opening, opening', rfl, hr, hr', ?_⟩
  refine (h.opens_once encoding hr hr').imp_left fun ⟨hsame, hopening⟩ => ?_
  refine ⟨hsame, hopening, fun hunsealed hprime laws hc => ?_⟩
  refine h.sound hunsealed hprime laws t t' hsame hr.accepts hr'.accepts ?_
  rwa [hr.challenge_eq, hr'.challenge_eq]

/-- A transcript is accepted once its announcement is sealed, under any opening. -/
theorem check_sealedBy (scheme : HashCommitment) {a : Announcement G} {c : Nat} {r : Response G}
    {message : Bytes} (hencode : s.protocol.encodeAnnouncement a = .ok message)
    (hcheck : s.protocol.check a c r = .ok true) (opening : Bytes) :
    (sealedBy scheme s).protocol.check (.commitment (scheme.digest message opening)) c
      (.opening r a opening) = .ok true :=
  Sealed.check_eq_ok_true.2 ⟨message, hencode, rfl, hcheck⟩

/-- The hypotheses are satisfiable: sealed announcements over residues and over scalars are
opened for two challenges each.  Either leaves give witnesses away, or two strings have one
hash. -/
theorem sealed_binds_sixOrSeven_twoOrThree :
    (sixOrSeven.SatisfiedBy {path | sixOrSeven.GivesAway
        ⟨.any [.leaf (.residue 1), .leaf (.residue 13)], 5,
          .any [0] [.leaf (.scalar 0), .leaf (.scalar 0)]⟩
        ⟨.any [.leaf (.residue 1), .leaf (.residue 13)], 6,
          .any [0] [.leaf (.scalar 0), .leaf (.scalar 7)]⟩ path} ∨
      ∃ x y, x ≠ y ∧ sha3_256 x = sha3_256 y) ∧
    (twoOrThree.SatisfiedBy {path | twoOrThree.GivesAway
        ⟨.any [.elements [⟨0⟩, ⟨0⟩], .elements [⟨0⟩]], 0, .any [0] [.scalar 0, .scalar 0]⟩
        ⟨.any [.elements [⟨0⟩, ⟨0⟩], .elements [⟨0⟩]], 1, .any [1] [.scalar 2, .scalar 0]⟩
        path} ∨
      ∃ x y, x ≠ y ∧ sha3_256 x = sha3_256 y) := by
  constructor
  · have hfive : sixOrSeven.protocol.check (.any [.leaf (.residue 1), .leaf (.residue 13)]) 5
        (.any [0] [.leaf (.scalar 0), .leaf (.scalar 0)]) = .ok true := rfl
    have hsix : sixOrSeven.protocol.check (.any [.leaf (.residue 1), .leaf (.residue 13)]) 6
        (.any [0] [.leaf (.scalar 0), .leaf (.scalar 7)]) = .ok true := rfl
    obtain ⟨_, ⟨_, _, _⟩, ⟨_, _, _⟩, _, _, _, _, -, hr, hr', h⟩ :=
      Accepted.sealed_binds accepted_sixOrSeven nofun .standard
        (check_sealedBy .standard rfl hfive (Bytes.zeros 32))
        (check_sealedBy .standard rfl hsix (Bytes.zeros 32))
    obtain ⟨⟨⟩, rfl, -, -, -⟩ := hr
    obtain ⟨⟨⟩, rfl, -, -, -⟩ := hr'
    refine h.imp (fun ⟨_, _, hsound⟩ => ?_) fun hcollision => ⟨_, _, hcollision⟩
    refine hsound unsealed_sixOrSeven (fun _ => ?_) nofun (by decide)
    show Nat.Prime 11
    norm_num
  · have hzero : twoOrThree.protocol.check (.any [.elements [⟨0⟩, ⟨0⟩], .elements [⟨0⟩]]) 0
        (.any [0] [.scalar 0, .scalar 0]) = .ok true := Disjunction.check_eq_ok_true.2
      ⟨congrArg Except.ok (by decide +kernel), congrArg Except.ok (by decide +kernel)⟩
    have hone : twoOrThree.protocol.check (.any [.elements [⟨0⟩, ⟨0⟩], .elements [⟨0⟩]]) 1
        (.any [1] [.scalar 2, .scalar 0]) = .ok true := Disjunction.check_eq_ok_true.2
      ⟨congrArg Except.ok (by decide +kernel), congrArg Except.ok (by decide +kernel)⟩
    have hcheck := check_sealedBy .standard rfl hzero (Bytes.zeros 32)
    have hcheck' := check_sealedBy .standard rfl hone (Bytes.zeros 32)
    obtain ⟨_, ⟨_, _, _⟩, ⟨_, _, _⟩, _, _, _, _, -, hr, hr', h⟩ :=
      Accepted.sealed_binds accepted_twoOrThree
        (fun _ => Cyclic.exactEncoding.injectiveEncoding) .standard hcheck hcheck'
    obtain ⟨⟨⟩, rfl, -, -, -⟩ := hr
    obtain ⟨⟨⟩, rfl, -, -, -⟩ := hr'
    refine h.imp (fun ⟨_, _, hsound⟩ => ?_) fun hcollision => ⟨_, _, hcollision⟩
    exact hsound (.disjunction (.discreteLog two) (.discreteLog three)) nofun
      (fun _ => Cyclic.laws) (by decide +kernel)

end Statement
end ThreeMove

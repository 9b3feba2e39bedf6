/-
# The promises of sealed announcements

Sealing passes every promise on.  The opening is drawn last by the prover and by
the simulator alike, so it is paired with itself; and the verifier accepts just
the openings of the commitment (`Sealed.check_eq_ok_true`).
-/

import ThreeMove.Protocol.Sealed
import ThreeMove.Proofs.Frame
import ThreeMove.Proofs.Protocol.Basic

namespace ThreeMove
namespace HashCommitment

/-- An opening that is decoded has the length of one. -/
theorem length_of_decodeOpening {data opening : Bytes} (h : decodeOpening data = .ok opening) :
    opening.length = length := by
  unfold decodeOpening at h
  split at h
  · rename_i hdata
    exact Except.ok.inj h ▸ hdata
  · exact nomatch h

end HashCommitment

namespace Sealed

variable {G : Type} {scheme : HashCommitment} {inner : Protocol G} {c : Nat}

/-- The inner transcript is accepted, and the commitment is to its announcement. -/
theorem check_eq_ok_true {digest opening : Bytes} {a : Announcement G} {r : Response G} :
    (protocol scheme inner).check (.commitment digest) c (.opening r a opening) = .ok true ↔
      ∃ message, inner.encodeAnnouncement a = .ok message ∧
        scheme.digest message opening = digest ∧ inner.check a c r = .ok true := by
  refine bind_eq_ok.trans (exists_congr fun message => and_congr_right fun _ => ?_)
  cases hverify : scheme.verify digest message opening with
  | true => exact ⟨fun h => ⟨beq_iff_eq.1 hverify, h⟩, fun h => h.2⟩
  | false =>
    have hne : scheme.digest message opening ≠ digest := fun h => by
      rw [HashCommitment.verify, beq_iff_eq.2 h] at hverify
      cases hverify
    constructor
    · intro h
      cases h
    · exact fun h => absurd h.1 hne

/-- What is accepted for a sealed announcement opens an accepted transcript. -/
theorem of_check {a : Announcement G} {r : Response G}
    (h : (protocol scheme inner).check a c r = .ok true) :
    ∃ digest r' a' opening, a = .commitment digest ∧ r = .opening r' a' opening ∧
      inner.check a' c r' = .ok true := by
  simp only [protocol] at h
  split at h
  · obtain ⟨message, -, -, hinner⟩ := check_eq_ok_true.1 h
    exact ⟨_, _, _, _, rfl, rfl, hinner⟩
  · exact nomatch h

/-- A sealed protocol is simulated if the one within is. -/
theorem simulates (hinner : inner.Simulates) : (protocol scheme inner).Simulates := by
  intro c
  refine (hinner c).bind fun (a, r) ⟨hcheck, message, hmessage⟩ => ?_
  simp only [show inner.encodeAnnouncement a = .ok message from hmessage]
  refine (Sampler.always_drawBytes HashCommitment.length).bind fun opening _ =>
    Sampler.always_pure ?_
  exact ⟨check_eq_ok_true.2 ⟨message, hmessage, rfl, hcheck⟩, _, rfl⟩

/-- A sealed protocol hides what the one within does. -/
theorem hides {witness : Witness} (hinner : inner.Hides witness)
    (hsimulates : inner.Simulates) : (protocol scheme inner).Hides witness := by
  intro c
  -- That the announcement has an encoding is known of the simulated one.
  refine ((hinner c).and_right (hsimulates c)).bind
    fun (a, secret) (a', r) ⟨hanswers, _, message, hmessage⟩ => ?_
  obtain rfl : a = a' := hanswers.announcement
  simp only [show inner.encodeAnnouncement a = .ok message from hmessage]
  refine (Sampler.always_drawBytes HashCommitment.length).coupled.bind
    fun opening opening' ⟨hsame, _⟩ => Sampler.coupled_pure ?_
  subst hsame
  exact ⟨rfl, rfl, bind_eq_ok.2 ⟨r, hanswers.response, rfl⟩⟩

/-- A sealed protocol recovers what verifies if the one within does. -/
theorem recovers (hinner : inner.Recovers) : (protocol scheme inner).Recovers := by
  intro a c r aBytes rBytes ha hr hcheck
  obtain ⟨digest, -, rfl⟩ := map_eq_ok.1 ha
  obtain ⟨⟨response, _⟩, hresponse, hr⟩ := bind_eq_ok.1 hr
  obtain ⟨⟨announcement, _⟩, hannouncement, hr⟩ := bind_eq_ok.1 hr
  obtain ⟨⟨opening, _⟩, hopening, hr⟩ := bind_eq_ok.1 hr
  obtain ⟨_, -, hr⟩ := bind_eq_ok.1 hr
  obtain rfl := Except.ok.inj hr
  obtain ⟨_, hresponse⟩ := FrameCursor.decodes_of_decode hresponse
  obtain ⟨_, hannouncement⟩ := FrameCursor.decodes_of_decode hannouncement
  obtain ⟨_, hopening⟩ := FrameCursor.decodes_of_decode hopening
  obtain ⟨message, hmessage, rfl, haccepted⟩ := check_eq_ok_true.1 hcheck
  refine (hinner hannouncement hresponse haccepted).bind ?_
  simp only [hmessage]
  have hlength : opening.length = HashCommitment.length :=
    HashCommitment.length_of_decodeOpening hopening
  have hdraw := Sampler.produces_drawBytes opening
  rw [hlength] at hdraw
  exact (hdraw.bind (Sampler.produces_pure _)).bind (Sampler.produces_pure _)

end Sealed
end ThreeMove

/-
# The promises of disjunctions

One of two statements keeps each promise that both keep, and hides as soon as the
branch that is proved does.  The prover draws the challenge of the branch it
simulates, the simulator always draws that of the left one; taking a share away
from `c` exchanges the two (`ChallengeSpace.sub_sub_self`).  When it is the left
branch that is proved, the simulator's branches change places as well.
-/

import ThreeMove.Protocol.Disjunction
import ThreeMove.Proofs.Challenge.Shares
import ThreeMove.Proofs.Frame
import ThreeMove.Proofs.Protocol.Basic

namespace ThreeMove
namespace Disjunction

variable {G : Type} {left right : Protocol G} {c : Nat}

/-- Both branches accept, the right one for what the left one leaves. -/
theorem check_eq_ok_true {a a' : Announcement G} {r r' : Response G} {share : Nat} :
    (protocol left right).check (.any [a, a']) c (.any [share] [r, r']) = .ok true ↔
      left.check a share r = .ok true ∧
        right.check a' (left.space.sub c share) r' = .ok true := by
  refine bind_eq_ok.trans ⟨?_, ?_⟩
  · rintro ⟨passed, hleft, hright⟩
    cases passed with
    | true => exact ⟨hleft, hright⟩
    | false => exact nomatch hright
  · rintro ⟨hleft, hright⟩
    exact ⟨true, hleft, hright⟩

/-- The verifier accepts two announcements, and two responses with a share. -/
theorem of_check {a : Announcement G} {r : Response G}
    (h : (protocol left right).check a c r = .ok true) :
    ∃ a₁ a₂ share r₁ r₂, a = .any [a₁, a₂] ∧ r = .any [share] [r₁, r₂] ∧
      left.check a₁ share r₁ = .ok true ∧
      right.check a₂ (left.space.sub c share) r₂ = .ok true := by
  simp only [protocol] at h
  split at h
  · exact ⟨_, _, _, _, _, rfl, rfl, check_eq_ok_true.1 h⟩
  · exact nomatch h

/-- A disjunction is simulated if its branches are. -/
theorem simulates (hleft : left.Simulates) (hright : right.Simulates) :
    (protocol left right).Simulates := by
  intro c
  refine (Sampler.always_drawElement left.space).bind fun share _ => ?_
  refine (hleft share).bind fun m ⟨hcheck, data, hdata⟩ => ?_
  refine (hright _).bind fun m' ⟨hcheck', data', hdata'⟩ => Sampler.always_pure ⟨?_, ?_⟩
  · exact check_eq_ok_true.2 ⟨hcheck, hcheck'⟩
  · exact ⟨frameAll [data, data'],
      bind_eq_ok.2 ⟨data, hdata, bind_eq_ok.2 ⟨data', hdata', rfl⟩⟩⟩

/-- The secret of a branch that was announced answers what the right branch, which
was simulated, leaves. -/
theorem respond_left {secret : Secret G} {share : Nat} {r r' : Response G}
    (hown : secret.simulatedChallenge? = none)
    (h : left.respond secret (left.space.sub c share) = .ok r) :
    (protocol left right).respond (.any [secret, .simulated share r']) c =
      .ok (.any [left.space.sub c share] [r, r']) := by
  cases secret with
  | simulated challenge response => exact nomatch hown
  | _ => exact bind_eq_ok.2 ⟨r, h, rfl⟩

/-- The right branch is answered for what remains of the challenge. -/
theorem respond_right {secret : Secret G} {share : Nat} {r r' : Response G}
    (h : right.respond secret (left.space.sub c share) = .ok r') :
    (protocol left right).respond (.any [.simulated share r, secret]) c =
      .ok (.any [share] [r, r']) :=
  bind_eq_ok.2 ⟨r', h, rfl⟩

/-- One of two statements is answered with what is kept of the branch that was simulated and the
answer of the other, and with no secret of another form. -/
theorem respond_cases (left right : Protocol G) (secret : Secret G) (c : Nat) :
    (∃ share r own, secret = .any [.simulated share r, own] ∧
      (protocol left right).respond secret c =
        (fun r' => .any [share] [r, r']) <$> right.respond own (left.space.sub c share)) ∨
    (∃ share r' own, secret = .any [own, .simulated share r'] ∧
      (protocol left right).respond secret c =
        (fun r => .any [left.space.sub c share] [r, r']) <$>
          left.respond own (left.space.sub c share)) ∨
    (protocol left right).respond secret c = .error .invalidInstanceWitnessPair ∧
      ∀ share r own, secret ≠ .any [.simulated share r, own] ∧
        secret ≠ .any [own, .simulated share r] := by
  simp only [protocol]
  split
  · exact .inl ⟨_, _, _, rfl, rfl⟩
  · exact .inr (.inl ⟨_, _, _, rfl, rfl⟩)
  · rename_i hright hleft
    exact .inr (.inr ⟨rfl, fun share r own => ⟨hright _ _ _, hleft _ _ _⟩⟩)

/-- A witness of the left branch is hidden if the right one is simulated. -/
theorem hides_left {witness : Witness} (hspace : left.space = right.space)
    (hleft : left.Hides witness) (hsimulates : left.Simulates) (hright : right.Simulates) :
    (protocol left right).Hides (.left witness) := by
  intro c
  show Sampler.Coupled _ (simulateFresh right >>= _) _
  simp only [simulateFresh, bind_assoc, pure_bind]
  have hsize : right.space.modulus = left.space.modulus := congrArg _ hspace.symm
  refine Sampler.Coupled.element hsize (left.space.sub c) ?_ ?_ fun share hshare => ?_
  · intro share _
    rw [hsize]
    exact left.space.sub_lt c share
  · intro share hshare other hother hsame
    rw [hsize] at hshare hother
    exact left.space.sub_injective c hshare hother hsame
  · rw [hsize] at hshare
    rw [left.space.sub_sub_self c hshare]
    -- The simulator makes the left branch first, the prover simulates the right one.
    refine Sampler.Matched.trans ?_ (Sampler.matched_swap (hright share)
      (hsimulates (left.space.sub c share)) fun m' m => pure (_, _))
    refine (hright share).coupled.bind fun m' m'' ⟨hsame, _⟩ => ?_
    refine (hleft _).bind fun part m hanswers => Sampler.coupled_pure ⟨?_, rfl, ?_⟩
    · rw [hsame, hanswers.announcement]
    · rw [hsame]
      exact respond_left hanswers.own hanswers.response

/-- A witness of the right branch is hidden if the left one is simulated. -/
theorem hides_right {witness : Witness} (hright : right.Hides witness)
    (hleft : left.Simulates) : (protocol left right).Hides (.right witness) := by
  intro c
  show Sampler.Coupled _ (simulateFresh left >>= _) _
  simp only [simulateFresh, bind_assoc, pure_bind]
  refine Sampler.Coupled.element_same fun share _ => ?_
  refine (hleft share).coupled.bind fun m m'' ⟨hsame, _⟩ => ?_
  refine (hright _).bind fun part m' hanswers => Sampler.coupled_pure ⟨?_, rfl, ?_⟩
  · rw [hsame, hanswers.announcement]
  · rw [hsame]
    exact respond_right hanswers.response

/-- A disjunction recovers what verifies if its branches do. -/
theorem recovers (hspace : left.space.Reachable) (hleft : left.Recovers)
    (hright : right.Recovers) : (protocol left right).Recovers := by
  intro a c r aBytes rBytes ha hr hcheck
  obtain ⟨⟨leftA, cursor⟩, hleftA, ha⟩ := bind_eq_ok.1 ha
  obtain ⟨⟨rightA, _⟩, hrightA, ha⟩ := bind_eq_ok.1 ha
  obtain ⟨_, -, ha⟩ := bind_eq_ok.1 ha
  obtain rfl := Except.ok.inj ha
  obtain ⟨⟨share, _⟩, hshare, hr⟩ := bind_eq_ok.1 hr
  obtain ⟨⟨leftR, _⟩, hleftR, hr⟩ := bind_eq_ok.1 hr
  obtain ⟨⟨rightR, _⟩, hrightR, hr⟩ := bind_eq_ok.1 hr
  obtain ⟨_, -, hr⟩ := bind_eq_ok.1 hr
  obtain rfl := Except.ok.inj hr
  obtain ⟨_, hleftA⟩ := FrameCursor.decodes_of_decode hleftA
  obtain ⟨_, hrightA⟩ := FrameCursor.decodes_of_decode hrightA
  obtain ⟨_, hshare⟩ := FrameCursor.decodes_of_decode hshare
  obtain ⟨_, hleftR⟩ := FrameCursor.decodes_of_decode hleftR
  obtain ⟨_, hrightR⟩ := FrameCursor.decodes_of_decode hrightR
  obtain ⟨hcheckLeft, hcheckRight⟩ := check_eq_ok_true.1 hcheck
  refine (Sampler.produces_drawElement hspace (left.space.decode_lt hshare)).bind ?_
  refine (hleft hleftA hleftR hcheckLeft).bind ?_
  exact (hright hrightA hrightR hcheckRight).bind (Sampler.produces_pure _)

end Disjunction
end ThreeMove

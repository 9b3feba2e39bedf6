/-
# Drawing the shares of a challenge

The shares of a challenge `c` are drawn one after another, all but one, and that
one is what remains.  Which one it is does not matter: `Coupled.shares` pairs the
draws of all shares but the first with the draws of all shares but the last, so
that the two sides have the same shares.  All shares but the first and the last
are paired with themselves; the last is moved to the first by
`ChallengeSpace.remaining_remaining_cons`.
-/

import ThreeMove.Proofs.Challenge.Shares
import ThreeMove.Proofs.Random.Coupling
import ThreeMove.Proofs.Random.Replay

namespace ThreeMove
namespace Sampler

variable {α β : Type} {space : ChallengeSpace}

/-- So many elements of a space, one after another. -/
def drawShares (space : ChallengeSpace) : Nat → Sampler (List Nat)
  | 0 => pure []
  | count + 1 => do
    let share ← drawElement space
    let shares ← drawShares space count
    return share :: shares

/-- A walk that draws at each place draws so many shares. -/
theorem mapM_drawElement (places : List α) :
    (places.mapM fun _ => drawElement space) = drawShares space places.length := by
  induction places with
  | nil => rfl
  | cons _ rest ih =>
    rw [List.mapM_cons, ih]
    rfl

/-- The last share may be drawn apart. -/
theorem drawShares_concat (space : ChallengeSpace) (count : Nat) :
    drawShares space (count + 1) = do
      let shares ← drawShares space count
      let share ← drawElement space
      return shares ++ [share] := by
  induction count with
  | zero => rfl
  | succ count ih =>
    conv_lhs => rw [drawShares, ih]
    simp only [drawShares, LawfulMonad.bind_assoc, pure_bind, List.cons_append]

/-- As many shares are drawn as are asked for. -/
theorem always_drawShares (space : ChallengeSpace) (count : Nat) :
    Always (·.length = count) (drawShares space count) := by
  induction count with
  | zero => exact always_pure rfl
  | succ count ih =>
    refine (always_drawElement space).bind fun share _ => ?_
    exact ih.bind fun shares hlength => always_pure (congrArg Nat.succ hlength)

/-- The shares drawn lie in the space. -/
theorem always_drawShares_lt (space : ChallengeSpace) (count : Nat) :
    Always (fun shares => ∀ share ∈ shares, share < space.modulus) (drawShares space count) := by
  induction count with
  | zero => exact always_pure fun _ h => absurd h List.not_mem_nil
  | succ count ih =>
    refine (always_drawElement space).bind fun share hshare => ?_
    exact ih.bind fun shares hshares => always_pure (List.forall_mem_cons.2 ⟨hshare, hshares⟩)

/-- All shares in the space can be drawn. -/
theorem produces_drawShares (hspace : space.Reachable) {shares : List Nat}
    (h : ∀ share ∈ shares, share < space.modulus) :
    (drawShares space shares.length).Produces shares := by
  induction shares with
  | nil => exact produces_pure []
  | cons share shares ih =>
    rw [List.forall_mem_cons] at h
    exact (produces_drawElement hspace h.1).bind ((ih h.2).bind (produces_pure _))

/-- **It does not matter which share is left to the end.**  Where one side goes on
from all shares but the first, and the other from all but the last, their draws
can be paired so that the shares are the same. -/
theorem Coupled.shares {R : α → β → Prop} {f : List Nat → Sampler α} {g : List Nat → Sampler β}
    (c count : Nat)
    (h : ∀ front back, back.length = count →
      front ++ [space.remaining c front] = space.remaining c back :: back →
        Coupled R (f back) (g front)) :
    Coupled R (drawShares space count >>= f) (drawShares space count >>= g) := by
  cases count with
  | zero => exact h [] [] rfl rfl
  | succ count =>
    -- The side on the left draws its last share apart, the one on the right its first.
    have hfirst : Matched Eq
        (do let shares ← drawShares space count
            let first ← drawElement space
            g (first :: shares))
        (drawShares space (count + 1) >>= g) := by
      simp only [drawShares, LawfulMonad.bind_assoc, pure_bind]
      exact matched_swap (always_drawShares space count) (always_drawElement space)
        fun shares first => g (first :: shares)
    refine Matched.trans ?_ hfirst
    rw [drawShares_concat]
    simp only [LawfulMonad.bind_assoc, pure_bind]
    refine (always_drawShares space count).coupled.bind fun shares shares' ⟨hsame, hlength⟩ => ?_
    subst hsame
    have hback : ∀ last < space.modulus,
        space.remaining c (space.remaining c (shares ++ [last]) :: shares) = last :=
      fun last hlast => space.remaining_remaining_cons c shares hlast
    refine Coupled.element rfl (fun last => space.remaining c (shares ++ [last]))
      (fun last _ => space.remaining_lt ..) (fun last hlast last' hlast' heq => ?_)
      fun last hlast => ?_
    · rw [← hback last hlast, heq, hback last' hlast']
    · refine h _ _ (by simp [hlength]) ?_
      rw [hback last hlast, List.cons_append]

end Sampler
end ThreeMove

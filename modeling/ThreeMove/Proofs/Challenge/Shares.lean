/-
# Splitting a challenge

Arithmetic in a challenge space, up to congruence modulo its size `n`: a
difference is the reduced number that gives back the minuend (`eq_sub_iff`), and
what remains of a challenge is the reduced number that completes the shares to it
(`eq_remaining_iff`).  All other laws of shares are read off these two.  Where
`n` is prime, `slope` divides the difference of two responses by that of their
challenges.
-/

import ThreeMove.Challenge
import ThreeMove.Proofs.Arith.Power
import Mathlib.FieldTheory.Finite.Basic

namespace ThreeMove
namespace ChallengeSpace

variable (space : ChallengeSpace)

/-- What can be read is reduced. -/
theorem decode_lt {data : Bytes} {c : Nat} (h : space.decode data = .ok c) :
    c < space.modulus := by
  unfold decode at h
  split at h
  · rename_i hdata
    exact Except.ok.inj h ▸ hdata.2
  · exact nomatch h

/-- Adding what was subtracted gives the number back, modulo the size of the space. -/
theorem sub_add_modEq (a b : Nat) : space.sub a b + b ≡ a [MOD space.modulus] := by
  have hb : b % space.modulus ≤ a % space.modulus + space.modulus :=
    (Nat.mod_lt b space.modulus_pos).le.trans (Nat.le_add_left ..)
  calc space.sub a b + b
      ≡ (a % space.modulus + space.modulus - b % space.modulus) + b % space.modulus
          [MOD space.modulus] := (Nat.mod_modEq ..).add (Nat.mod_modEq ..).symm
    _ = a % space.modulus + space.modulus := Nat.sub_add_cancel hb
    _ ≡ a [MOD space.modulus] := by
        rw [Nat.ModEq, Nat.add_mod_right, Nat.mod_mod]

/-- A reduced number is the difference when it gives back the minuend. -/
theorem eq_sub_iff {a b d : Nat} (hd : d < space.modulus) :
    d = space.sub a b ↔ d + b ≡ a [MOD space.modulus] := by
  constructor
  · rintro rfl
    exact space.sub_add_modEq a b
  · intro h
    refine Nat.ModEq.eq_of_lt_of_lt (m := space.modulus) ?_ hd (space.sub_lt a b)
    exact Nat.ModEq.add_right_cancel' b (h.trans (space.sub_add_modEq a b).symm)

/-- A number less itself is zero. -/
theorem sub_self (a : Nat) : space.sub a a = 0 :=
  ((space.eq_sub_iff space.modulus_pos).2 (by rw [Nat.zero_add])).symm

/-- Taking away twice gives back a reduced number. -/
theorem sub_sub_self (c : Nat) {d : Nat} (hd : d < space.modulus) :
    space.sub c (space.sub c d) = d := by
  refine ((space.eq_sub_iff hd).2 ?_).symm
  rw [Nat.add_comm]
  exact space.sub_add_modEq c d

/-- Shares that leave the same of a challenge are equal. -/
theorem sub_injective (c : Nat) {d e : Nat} (hd : d < space.modulus) (he : e < space.modulus)
    (h : space.sub c d = space.sub c e) : d = e := by
  rw [← space.sub_sub_self c hd, h, space.sub_sub_self c he]

/-- Adding shares one by one adds their sum, modulo the size of the space. -/
theorem foldl_add_modEq (start : Nat) (shares : List Nat) :
    shares.foldl space.add start ≡ start + shares.sum [MOD space.modulus] := by
  induction shares generalizing start with
  | nil => rfl
  | cons share rest ih =>
    rw [List.foldl_cons, List.sum_cons, ← Nat.add_assoc]
    exact (ih _).trans ((Nat.mod_modEq ..).add_right _)

/-- A reduced number is what remains when it completes the shares to the
challenge. -/
theorem eq_remaining_iff {c d : Nat} {shares : List Nat} (hd : d < space.modulus) :
    d = space.remaining c shares ↔ d + shares.sum ≡ c [MOD space.modulus] := by
  have hfold := space.foldl_add_modEq 0 shares
  rw [Nat.zero_add] at hfold
  rw [remaining, space.eq_sub_iff hd]
  exact ⟨(hfold.symm.add_left d).trans, (hfold.add_left d).trans⟩

/-- The shares and what remains of a challenge make up the challenge. -/
theorem remaining_add_modEq (c : Nat) (shares : List Nat) :
    space.remaining c shares + shares.sum ≡ c [MOD space.modulus] :=
  (space.eq_remaining_iff (space.remaining_lt c shares)).1 rfl

/-- A share may be taken away first. -/
theorem remaining_cons (c share : Nat) (shares : List Nat) :
    space.remaining c (share :: shares) = space.remaining (space.sub c share) shares := by
  refine (space.eq_remaining_iff (space.remaining_lt ..)).2 ?_
  refine Nat.ModEq.add_right_cancel' share ?_
  calc space.remaining c (share :: shares) + shares.sum + share
      = space.remaining c (share :: shares) + (share :: shares).sum := by
        rw [List.sum_cons]; omega
    _ ≡ c [MOD space.modulus] := space.remaining_add_modEq ..
    _ ≡ space.sub c share + share [MOD space.modulus] := (space.sub_add_modEq ..).symm

/-- The last share is what the others and the first one leave, when the first one
is what the others and the last one leave. -/
theorem remaining_remaining_cons (c : Nat) {last : Nat} (shares : List Nat)
    (hlast : last < space.modulus) :
    space.remaining c (space.remaining c (shares ++ [last]) :: shares) = last := by
  refine ((space.eq_remaining_iff hlast).2 ?_).symm
  calc last + (space.remaining c (shares ++ [last]) :: shares).sum
      = space.remaining c (shares ++ [last]) + (shares ++ [last]).sum := by
        simp only [List.sum_append, List.sum_cons, List.sum_nil]; omega
    _ ≡ c [MOD space.modulus] := space.remaining_add_modEq ..

/-- Numbers that are congruent one by one have congruent sums. -/
theorem sum_modEq {n : Nat} {cs cs' : List Nat}
    (h : List.Forall₂ (fun c c' => c ≡ c' [MOD n]) cs cs') : cs.sum ≡ cs'.sum [MOD n] := by
  induction h with
  | nil => rfl
  | cons hc _ ih =>
    rw [List.sum_cons, List.sum_cons]
    exact hc.add ih

/-- Challenges agree when all their shares do, the last one included. -/
theorem modEq_of_shares {c c' : Nat} {shares shares' : List Nat}
    (h : List.Forall₂ (fun c c' => c ≡ c' [MOD space.modulus])
      (shares ++ [space.remaining c shares]) (shares' ++ [space.remaining c' shares'])) :
    c ≡ c' [MOD space.modulus] := by
  have htotal : ∀ (c : Nat) (shares : List Nat),
      (shares ++ [space.remaining c shares]).sum ≡ c [MOD space.modulus] := fun c shares => by
    rw [List.sum_append, List.sum_singleton, Nat.add_comm]
    exact space.remaining_add_modEq c shares
  exact (htotal c shares).symm.trans ((sum_modEq h).trans (htotal c' shares'))

/-- Differences agree only of challenges that agree, when the parts taken away do. -/
theorem modEq_of_sub {a a' b b' : Nat} (hb : b ≡ b' [MOD space.modulus])
    (h : space.sub a b ≡ space.sub a' b' [MOD space.modulus]) : a ≡ a' [MOD space.modulus] :=
  calc a ≡ space.sub a b + b [MOD space.modulus] := (space.sub_add_modEq a b).symm
    _ ≡ space.sub a' b' + b' [MOD space.modulus] := h.add hb
    _ ≡ a' [MOD space.modulus] := space.sub_add_modEq a' b'

/-! ### Shares in any order -/

/-- Added up one by one, shares come to the remainder of their sum. -/
theorem foldl_add_eq (shares : List Nat) :
    shares.foldl space.add 0 = shares.sum % space.modulus := by
  have hsum := space.foldl_add_modEq 0 shares
  rw [Nat.zero_add] at hsum
  obtain rfl | ⟨front, last, rfl⟩ := List.eq_nil_or_concat shares
  · exact (Nat.zero_mod _).symm
  · rw [← hsum, List.concat_eq_append, List.foldl_concat]
    exact (Nat.mod_eq_of_lt (space.add_lt ..)).symm

/-- What remains does not depend on the order in which shares are taken away. -/
theorem remaining_perm (c : Nat) {shares others : List Nat} (h : shares.Perm others) :
    space.remaining c shares = space.remaining c others := by
  refine (space.eq_remaining_iff (space.remaining_lt ..)).2 ?_
  rw [← h.sum_eq]
  exact space.remaining_add_modEq c shares

/-- Of shares that come to the challenge, each is what the others leave, wherever it
stands among them. -/
theorem remaining_of_perm {c share : Nat} {shares others : List Nat}
    (hshare : share < space.modulus) (hsum : shares.foldl space.add 0 = c % space.modulus)
    (h : (share :: others).Perm shares) :
    space.remaining c others = share := by
  refine ((space.eq_remaining_iff hshare).2 ?_).symm
  rw [← List.sum_cons, h.sum_eq]
  exact (space.foldl_add_eq shares).symm.trans hsum

/-- What remains completes the shares to the challenge, in whichever order they are added up. -/
theorem foldl_add_of_perm {c : Nat} {shares others : List Nat}
    (h : others.Perm (space.remaining c shares :: shares)) :
    others.foldl space.add 0 = c % space.modulus := by
  rw [foldl_add_eq, h.sum_eq, List.sum_cons]
  exact space.remaining_add_modEq c shares

/-- The last share is what those before it leave. -/
theorem dropLast_append_remaining {c : Nat} {shares : List Nat} (hne : shares ≠ [])
    (hreduced : ∀ share ∈ shares, share < space.modulus)
    (hsum : shares.foldl space.add 0 = c % space.modulus) :
    shares.dropLast ++ [space.remaining c shares.dropLast] = shares := by
  have hlast := List.dropLast_append_getLast hne
  have hperm : (shares.getLast hne :: shares.dropLast).Perm shares := by
    have happend := List.perm_append_singleton (shares.getLast hne) shares.dropLast
    rw [hlast] at happend
    exact happend.symm
  rw [space.remaining_of_perm (hreduced _ (List.getLast_mem hne)) hsum hperm, hlast]

/-! ### Division -/

/-- The power that inverts `a` modulo a prime. -/
theorem powMod_inverse {n a : Nat} (hn : n.Prime) (ha : ¬ a ≡ 0 [MOD n]) :
    powMod a (n - 2) n * a ≡ 1 [MOD n] := by
  have hcoprime : Nat.Coprime a n :=
    (Nat.coprime_comm.1 ((Nat.Prime.coprime_iff_not_dvd hn).2
      fun h => ha (Nat.modEq_zero_iff_dvd.2 h)))
  calc powMod a (n - 2) n * a
      ≡ a ^ (n - 2) * a [MOD n] := by
        rw [powMod_eq]
        exact (Nat.mod_modEq ..).mul_right a
    _ = a ^ n.totient := by
        rw [← Nat.pow_succ, Nat.totient_prime hn]
        congr 1
        have := hn.two_le
        omega
    _ ≡ 1 [MOD n] := Nat.ModEq.pow_totient hcoprime

/-- `(r - r') / (c - c')`, where the size of the space is prime. -/
def slope (c r c' r' : Nat) : Nat :=
  space.sub r r' * powMod (space.sub c c') (space.modulus - 2) space.modulus % space.modulus

/-- A slope is a scalar in range. -/
theorem slope_lt (c r c' r' : Nat) : space.slope c r c' r' < space.modulus :=
  Nat.mod_lt _ space.modulus_pos

/-- The difference of incongruent numbers is not congruent to zero. -/
theorem sub_not_modEq_zero {a b : Nat} (h : ¬ a ≡ b [MOD space.modulus]) :
    ¬ space.sub a b ≡ 0 [MOD space.modulus] := fun hzero => by
  refine h ((space.sub_add_modEq a b).symm.trans ?_)
  simpa using hzero.add_right b

/-- One response to two challenges has no slope. -/
theorem slope_self (c c' r : Nat) : space.slope c r c' r = 0 := by
  rw [slope, space.sub_self, Nat.zero_mul, Nat.zero_mod]

/-- The slope is the difference of the responses times an inverse of that of the
challenges. -/
theorem exists_slope_modEq {c c' : Nat} (r r' : Nat) (hprime : space.modulus.Prime)
    (hc : ¬ c ≡ c' [MOD space.modulus]) :
    ∃ e, space.slope c r c' r' ≡ space.sub r r' * e [MOD space.modulus] ∧
      space.sub c c' * e ≡ 1 [MOD space.modulus] := by
  refine ⟨powMod (space.sub c c') (space.modulus - 2) space.modulus, Nat.mod_modEq .., ?_⟩
  rw [Nat.mul_comm]
  exact powMod_inverse hprime (space.sub_not_modEq_zero hc)

/-- The slope is the difference of the responses times the inverse of that of the challenges. -/
theorem exists_slope_eq {c c' : Nat} (r r' : Nat)
    (hprime : space.modulus.Prime) (hc : ¬ c ≡ c' [MOD space.modulus]) :
    ∃ inverse, space.sub c c' * inverse % space.modulus = 1 ∧
      space.slope c r c' r' = space.sub r r' * inverse % space.modulus := by
  obtain ⟨e, hslope, hinverse⟩ := space.exists_slope_modEq r r' hprime hc
  refine ⟨e, ?_, ?_⟩
  · rw [hinverse, Nat.mod_eq_of_lt space.two_le]
  · rw [← hslope, Nat.mod_eq_of_lt (space.slope_lt ..)]

/-- What `slope` divides by is given back by multiplication. -/
theorem slope_mul_sub {c c' : Nat} (r r' : Nat) (hprime : space.modulus.Prime)
    (hc : ¬ c ≡ c' [MOD space.modulus]) :
    space.slope c r c' r' * space.sub c c' ≡ space.sub r r' [MOD space.modulus] := by
  obtain ⟨e, hslope, hinverse⟩ := space.exists_slope_modEq r r' hprime hc
  calc space.slope c r c' r' * space.sub c c'
      ≡ space.sub r r' * e * space.sub c c' [MOD space.modulus] := hslope.mul_right _
    _ = space.sub r r' * (space.sub c c' * e) := by ring
    _ ≡ space.sub r r' * 1 [MOD space.modulus] := hinverse.mul_left _
    _ = space.sub r r' := Nat.mul_one _

end ChallengeSpace
end ThreeMove

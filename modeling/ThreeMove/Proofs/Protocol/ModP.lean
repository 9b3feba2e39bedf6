/-
# The promises of discrete logarithms modulo a number

Where `b ^ q = 1` modulo `p`, powers of `b` depend on the exponent modulo `q`
(`pow_congr`), so challenges and responses act as residues.  The announcement that
fits a challenge and a response is unique, and it is the simulated one
(`ModP.eq_simulated_iff`).  Nothing of this needs `p` or `q` to be prime.  Where `q`
is, two accepted transcripts give a witness away (`ModP.pow_slope`), and any two of
announcement, challenge and response determine the third
(`ModP.challenge_unique`, `ModP.response_unique`).
-/

import ThreeMove.Protocol.ModP
import ThreeMove.Proofs.Challenge.Shares
import ThreeMove.Proofs.Protocol.Basic

namespace ThreeMove

/-- Powers of a number whose `q`-th power is one depend on the exponent modulo `q`. -/
theorem pow_congr {b q p m n : Nat} (hb : b ^ q ≡ 1 [MOD p]) (h : m ≡ n [MOD q]) :
    b ^ m ≡ b ^ n [MOD p] := by
  have hreduce : ∀ k, b ^ k ≡ b ^ (k % q) [MOD p] := fun k =>
    calc b ^ k = (b ^ q) ^ (k / q) * b ^ (k % q) := by
          rw [← Nat.pow_mul, ← Nat.pow_add, Nat.div_add_mod]
      _ ≡ 1 ^ (k / q) * b ^ (k % q) [MOD p] := (hb.pow _).mul_right _
      _ = b ^ (k % q) := by rw [Nat.one_pow, Nat.one_mul]
  calc b ^ m ≡ b ^ (m % q) [MOD p] := hreduce m
    _ = b ^ (n % q) := by rw [h]
    _ ≡ b ^ n [MOD p] := (hreduce n).symm

/-- Where `b ^ q = 1` modulo `p` for a prime `q`, a power of `b` is one only if the exponent is a
multiple of `q` or `b` is one. -/
theorem modEq_one_of_pow {b q p m : Nat} (hq : q.Prime) (hb : b ^ q ≡ 1 [MOD p])
    (h : b ^ m ≡ 1 [MOD p]) (hm : ¬ m ≡ 0 [MOD q]) : b ≡ 1 [MOD p] :=
  calc b = b ^ 1 := (Nat.pow_one b).symm
    _ ≡ b ^ (powMod m (q - 2) q * m) [MOD p] :=
        (pow_congr hb (ChallengeSpace.powMod_inverse hq hm)).symm
    _ = (b ^ m) ^ powMod m (q - 2) q := by rw [Nat.mul_comm, Nat.pow_mul]
    _ ≡ 1 ^ powMod m (q - 2) q [MOD p] := h.pow _
    _ = 1 := Nat.one_pow _

namespace ModP

variable {G : Type} (s : ModP)

/-- The modulus is above one. -/
theorem one_lt_p : 1 < s.p := by have := s.three_lt_p; omega

/-- Powers are taken modulo `p`. -/
theorem power_eq (b e : Nat) : s.power b e = b ^ e % s.p := powMod_eq b e s.p

/-- The order of the generator divides `q`. -/
theorem g_pow_modEq : s.g ^ s.q ≡ 1 [MOD s.p] := by
  rw [Nat.ModEq, ← powMod_eq, s.g_pow, Nat.mod_eq_of_lt s.one_lt_p]

/-- The order of the image divides `q`. -/
theorem y_pow_modEq : s.y ^ s.q ≡ 1 [MOD s.p] := by
  rw [Nat.ModEq, ← powMod_eq, s.y_pow, Nat.mod_eq_of_lt s.one_lt_p]

/-- Powers of the generator are invertible. -/
theorem coprime_g_pow (e : Nat) : Nat.Coprime (s.g ^ e) s.p := by
  refine Nat.Coprime.pow_left e (Nat.coprime_of_mul_modEq_one (s.g ^ (s.q - 1)) ?_)
  rw [← Nat.pow_succ', Nat.succ_eq_add_one, Nat.sub_add_cancel s.one_lt_q.le]
  exact s.g_pow_modEq

/-- The verifier's equation, in terms of congruence. -/
theorem accepts_iff {t c r : Nat} : s.accepts t c r = true ↔
    0 < t ∧ t < s.p ∧ r < s.q ∧ s.g ^ r ≡ t * s.y ^ c [MOD s.p] := by
  simp only [accepts, power_eq, Bool.and_eq_true, decide_eq_true_eq, beq_iff_eq, and_assoc,
    Nat.ModEq, Nat.mul_mod_mod]

/-- The announcement that fits a challenge and a response is the simulated one. -/
theorem eq_simulated_iff {t c r : Nat} (ht : t < s.p) :
    t = s.simulated c r ↔ s.g ^ r ≡ t * s.y ^ c [MOD s.p] := by
  have hexponent : (s.q - c % s.q) % s.q + c ≡ 0 [MOD s.q] :=
    calc (s.q - c % s.q) % s.q + c
        ≡ s.q - c % s.q + c % s.q [MOD s.q] := (Nat.mod_modEq ..).add (Nat.mod_modEq ..).symm
      _ = s.q := Nat.sub_add_cancel (Nat.mod_lt c (by have := s.one_lt_q; omega)).le
      _ ≡ 0 [MOD s.q] := by rw [Nat.ModEq, Nat.mod_self, Nat.zero_mod]
  have hinverse : s.y ^ ((s.q - c % s.q) % s.q) * s.y ^ c ≡ 1 [MOD s.p] := by
    rw [← Nat.pow_add]
    exact pow_congr s.y_pow_modEq hexponent
  have hsimulated : s.simulated c r ≡ s.g ^ r * s.y ^ ((s.q - c % s.q) % s.q) [MOD s.p] := by
    simp only [simulated, power_eq, Nat.ModEq, Nat.mod_mod, ← Nat.mul_mod]
  constructor
  · rintro rfl
    calc s.g ^ r = s.g ^ r * 1 := (Nat.mul_one _).symm
      _ ≡ s.g ^ r * (s.y ^ ((s.q - c % s.q) % s.q) * s.y ^ c) [MOD s.p] :=
          (hinverse.mul_left _).symm
      _ ≡ s.simulated c r * s.y ^ c [MOD s.p] := by
          rw [← Nat.mul_assoc]
          exact (hsimulated.mul_right _).symm
  · intro h
    refine Nat.ModEq.eq_of_lt_of_lt (m := s.p) ?_ ht (Nat.mod_lt _ (by have := s.one_lt_p; omega))
    calc t = t * 1 := (Nat.mul_one _).symm
      _ ≡ t * (s.y ^ ((s.q - c % s.q) % s.q) * s.y ^ c) [MOD s.p] := (hinverse.mul_left _).symm
      _ = t * s.y ^ c * s.y ^ ((s.q - c % s.q) % s.q) := by ring
      _ ≡ s.g ^ r * s.y ^ ((s.q - c % s.q) % s.q) [MOD s.p] := (h.mul_right _).symm
      _ ≡ s.simulated c r [MOD s.p] := hsimulated.symm

/-- A simulated announcement is reduced. -/
theorem simulated_lt (c r : Nat) : s.simulated c r < s.p :=
  Nat.mod_lt _ (Nat.zero_lt_of_lt s.one_lt_p)

/-- A simulated announcement satisfies the equation that is checked. -/
theorem simulated_modEq (c r : Nat) : s.g ^ r ≡ s.simulated c r * s.y ^ c [MOD s.p] :=
  (s.eq_simulated_iff (s.simulated_lt c r)).1 rfl

/-- A simulated announcement is not zero. -/
theorem simulated_pos (c r : Nat) : 0 < s.simulated c r := by
  rw [Nat.pos_iff_ne_zero]
  intro hzero
  have hdvd : s.p ∣ s.g ^ r := by
    have h := s.simulated_modEq c r
    rwa [hzero, Nat.zero_mul, Nat.modEq_zero_iff_dvd] at h
  have hone : s.p = 1 := (Nat.coprime_comm.1 (s.coprime_g_pow r)).eq_one_of_dvd hdvd
  exact s.one_lt_p.ne' hone

/-- Simulated transcripts are accepted. -/
theorem accepts_simulated (c : Nat) {r : Nat} (hr : r < s.q) :
    s.accepts (s.simulated c r) c r = true :=
  s.accepts_iff.2 ⟨s.simulated_pos c r, s.simulated_lt c r, hr, s.simulated_modEq c r⟩

/-- An accepted announcement lies in the subgroup of residues whose `q`-th power
is one. -/
theorem pow_of_accepts {t c r : Nat} (h : s.accepts t c r = true) : t ^ s.q % s.p = 1 := by
  obtain ⟨-, ht, -, heq⟩ := s.accepts_iff.1 h
  have hpow : t ^ s.q ≡ 1 [MOD s.p] :=
    calc t ^ s.q = t ^ s.q * 1 ^ c := by rw [Nat.one_pow, Nat.mul_one]
      _ ≡ t ^ s.q * (s.y ^ s.q) ^ c [MOD s.p] := ((s.y_pow_modEq.pow c).mul_left _).symm
      _ = (t * s.y ^ c) ^ s.q := by ring
      _ ≡ (s.g ^ r) ^ s.q [MOD s.p] := (heq.pow s.q).symm
      _ = (s.g ^ s.q) ^ r := by ring
      _ ≡ 1 ^ r [MOD s.p] := s.g_pow_modEq.pow r
      _ = 1 := Nat.one_pow r
  rw [hpow, Nat.mod_eq_of_lt s.one_lt_p]

/-- The prover's announcement is the simulated one for its response. -/
theorem power_nonce {x : Nat} (hx : s.g ^ x % s.p = s.y) (k c : Nat) :
    s.power s.g k = s.simulated c ((k + c * (x % s.q)) % s.q) := by
  rw [s.eq_simulated_iff (by rw [power_eq]; exact Nat.mod_lt _ (Nat.zero_lt_of_lt s.one_lt_p))]
  have hexponent : (k + c * (x % s.q)) % s.q ≡ k + x * c [MOD s.q] := by
    rw [Nat.mul_comm x]
    exact (Nat.mod_modEq ..).trans (((Nat.mod_modEq ..).mul_left c).add_left k)
  have hy : s.g ^ x ≡ s.y [MOD s.p] := by
    rw [← hx]
    exact (Nat.mod_modEq ..).symm
  calc s.g ^ ((k + c * (x % s.q)) % s.q)
      ≡ s.g ^ (k + x * c) [MOD s.p] := pow_congr s.g_pow_modEq hexponent
    _ = s.g ^ k * (s.g ^ x) ^ c := by rw [Nat.pow_add, Nat.pow_mul]
    _ ≡ s.power s.g k * s.y ^ c [MOD s.p] := by
        rw [power_eq]
        exact (Nat.mod_modEq ..).symm.mul (hy.pow c)

/-- In the subgroup exponents may be subtracted in the challenge space. -/
theorem pow_sub_mul {b : Nat} (hb : b ^ s.q ≡ 1 [MOD s.p]) (m n : Nat) :
    b ^ s.space.sub m n * b ^ n ≡ b ^ m [MOD s.p] := by
  rw [← Nat.pow_add]
  exact pow_congr hb (s.space.sub_add_modEq m n)

/-- **Two accepted transcripts with one announcement give a witness away**, where
`q` is prime and the challenges differ. -/
theorem pow_slope {t c r c' r' : Nat} (hq : s.q.Prime) (h : s.accepts t c r = true)
    (h' : s.accepts t c' r' = true) (hc : ¬ c ≡ c' [MOD s.q]) :
    s.g ^ s.space.slope c r c' r' % s.p = s.y := by
  obtain ⟨-, -, -, heq⟩ := s.accepts_iff.1 h
  obtain ⟨-, -, -, heq'⟩ := s.accepts_iff.1 h'
  obtain ⟨e, hslope, hinverse⟩ := s.space.exists_slope_modEq r r' hq hc
  -- The announcement cancels: the difference of the challenges acts on `y` as
  -- that of the responses acts on `g`.
  have hquotient : s.g ^ s.space.sub r r' ≡ s.y ^ s.space.sub c c' [MOD s.p] := by
    refine Nat.ModEq.cancel_right_of_coprime (c := s.g ^ r')
      (Nat.coprime_comm.1 (s.coprime_g_pow r')) ?_
    calc s.g ^ s.space.sub r r' * s.g ^ r'
        ≡ s.g ^ r [MOD s.p] := s.pow_sub_mul s.g_pow_modEq r r'
      _ ≡ t * s.y ^ c [MOD s.p] := heq
      _ ≡ t * (s.y ^ s.space.sub c c' * s.y ^ c') [MOD s.p] :=
          (s.pow_sub_mul s.y_pow_modEq c c').symm.mul_left t
      _ = s.y ^ s.space.sub c c' * (t * s.y ^ c') := by ring
      _ ≡ s.y ^ s.space.sub c c' * s.g ^ r' [MOD s.p] := heq'.symm.mul_left _
  have hwitness : s.g ^ s.space.slope c r c' r' ≡ s.y [MOD s.p] :=
    calc s.g ^ s.space.slope c r c' r'
        ≡ s.g ^ (s.space.sub r r' * e) [MOD s.p] := pow_congr s.g_pow_modEq hslope
      _ = (s.g ^ s.space.sub r r') ^ e := Nat.pow_mul ..
      _ ≡ (s.y ^ s.space.sub c c') ^ e [MOD s.p] := hquotient.pow e
      _ = s.y ^ (s.space.sub c c' * e) := (Nat.pow_mul ..).symm
      _ ≡ s.y ^ 1 [MOD s.p] := pow_congr s.y_pow_modEq hinverse
      _ = s.y := Nat.pow_one _
  rw [hwitness, Nat.mod_eq_of_lt s.y_lt]

/-- One response answers one challenge to an announcement, where `q` is prime and `y` is not
one: otherwise the witness given away would be zero. -/
theorem challenge_unique {t c c' r : Nat} (hq : s.q.Prime) (hy : s.y ≠ 1)
    (h : s.accepts t c r = true) (h' : s.accepts t c' r = true) : c ≡ c' [MOD s.q] := by
  by_contra hc
  have hslope := s.pow_slope hq h h' hc
  rw [s.space.slope_self, Nat.pow_zero, Nat.mod_eq_of_lt s.one_lt_p] at hslope
  exact hy hslope.symm

/-- One response answers a challenge to an announcement, where `q` is prime: otherwise the
difference of two would make `g` into one. -/
theorem response_unique {t c r r' : Nat} (hq : s.q.Prime) (h : s.accepts t c r = true)
    (h' : s.accepts t c r' = true) : r = r' := by
  obtain ⟨-, -, hr, heq⟩ := s.accepts_iff.1 h
  obtain ⟨-, -, hr', heq'⟩ := s.accepts_iff.1 h'
  refine Nat.ModEq.eq_of_lt_of_lt (m := s.q) ?_ hr hr'
  by_contra hne
  have hdifference : s.g ^ s.space.sub r r' ≡ 1 [MOD s.p] := by
    refine Nat.ModEq.cancel_right_of_coprime (c := s.g ^ r')
      (Nat.coprime_comm.1 (s.coprime_g_pow r')) ?_
    calc s.g ^ s.space.sub r r' * s.g ^ r'
        ≡ s.g ^ r [MOD s.p] := s.pow_sub_mul s.g_pow_modEq r r'
      _ ≡ s.g ^ r' [MOD s.p] := heq.trans heq'.symm
      _ = 1 * s.g ^ r' := (Nat.one_mul _).symm
  have hone : s.g ≡ 1 [MOD s.p] :=
    modEq_one_of_pow hq s.g_pow_modEq hdifference (s.space.sub_not_modEq_zero hne)
  exact s.one_lt_g.ne' (hone.eq_of_lt_of_lt s.g_lt s.one_lt_p)

/-! ### The protocol -/

/-- The simulated transcripts of a logarithm are accepted. -/
theorem simulates : (s.protocol (G := G)).Simulates := by
  intro c
  refine (Sampler.always_drawElement s.space).bind fun r hr => Sampler.always_pure ?_
  exact ⟨congrArg Except.ok (s.accepts_simulated c hr), _, rfl⟩

/-- The logarithm is hidden. -/
theorem hides {x : Nat} (hx : s.g ^ x % s.p = s.y) :
    (s.protocol (G := G)).Hides (.scalar x) := by
  intro c
  have hwitness : s.isWitness x = true := by rw [isWitness, power_eq, hx, beq_self_eq_true]
  simp only [protocol, hwitness, if_true]
  refine Sampler.Coupled.element_add (c * (x % s.q)) fun k _ => ?_
  have hsame : s.power s.g k = s.simulated c ((k + c * (x % s.q)) % s.q) := s.power_nonce hx k c
  exact Sampler.coupled_pure ⟨congrArg Announcement.residue hsame, rfl, rfl⟩

variable {s} in
/-- The verifier accepts a residue and a scalar. -/
theorem of_check {a : Announcement G} {c : Nat} {r : Response G}
    (h : s.protocol.check a c r = .ok true) :
    ∃ t r', a = .residue t ∧ r = .scalar r' ∧ s.accepts t c r' = true := by
  cases a with
  | residue t =>
    cases r with
    | scalar r' => exact ⟨t, r', rfl, rfl, Except.ok.inj h⟩
    | _ => exact nomatch h
  | _ => exact nomatch h

/-- What verifies for a logarithm can be simulated. -/
theorem recovers : (s.protocol (G := G)).Recovers := by
  intro a c r aBytes rBytes _ _ hcheck
  obtain ⟨t, r, rfl, rfl, haccepts⟩ := of_check hcheck
  obtain ⟨-, ht, hr, heq⟩ := s.accepts_iff.1 haccepts
  obtain rfl := (s.eq_simulated_iff ht).2 heq
  exact (Sampler.produces_drawElement (by nofun) hr).bind (Sampler.produces_pure _)

end ModP
end ThreeMove

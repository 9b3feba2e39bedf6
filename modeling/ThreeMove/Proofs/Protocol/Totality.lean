/-
# The parameters that a statement modulo a number admits

A statement about `g ^ x` modulo `p` can be built for just the parameters that are `ModP.Valid`,
whatever `x` is: the power lies in the subgroup of `g`, so that nothing is left to be said against
it (`ModP.exists_new_eq_ok`).

Remainders, powers modulo a number and differences of numbers are partial: there is none modulo
zero, and none below zero.  `Partial` has them with an answer that may be missing, and the
operations on statements are spelled out with them.  None is ever missing (`ModP.total`), save for
the power that `ModP.ofWitness` takes before it looks at `p` (`ModP.ofWitness_validates`,
`ModP.ofWitness_zero_aborts`).
-/

import ThreeMove.Proofs.Protocol.ModP

namespace ThreeMove

namespace Partial

/-- The remainder, of which there is none modulo zero. -/
def rem (a n : Nat) : Option Nat := if n = 0 then none else some (a % n)

/-- The power modulo a number, of which there is none modulo zero. -/
def pow (b e n : Nat) : Option Nat := if n = 0 then none else some (powMod b e n)

/-- The difference, of which there is none below zero. -/
def diff (a b : Nat) : Option Nat := if b ≤ a then some (a - b) else none

variable {a b e n : Nat}

/-- Division by a positive number gives the remainder. -/
theorem rem_eq (h : 0 < n) : rem a n = some (a % n) := if_neg h.ne'

/-- Powers modulo a positive number are computed. -/
theorem pow_eq (h : 0 < n) : pow b e n = some (powMod b e n) := if_neg h.ne'

/-- A smaller number can be subtracted. -/
theorem diff_eq (h : b ≤ a) : diff a b = some (a - b) := if_pos h

end Partial

namespace ModP

open Partial

/-! ### The parameters -/

/-- The powers of `g` modulo `p` make up a group whose exponent is `q`, a divisor of `p - 1`. -/
structure Valid (p q g : Nat) : Prop where
  three_lt_p : 3 < p
  one_lt_q : 1 < q
  q_dvd : q ∣ p - 1
  one_lt_g : 1 < g
  g_lt : g < p
  g_pow : g ^ q % p = 1

variable {p q g : Nat}

/-- What is said against parameters that are not valid. -/
def complaints : List String :=
  ["modulus too small", "q does not divide p - 1", "g does not generate the order-q subgroup"]

/-- The power of a number whose own power is one is no multiple of the modulus. -/
theorem pow_mod_pos (hp : 1 < p) (hq : 0 < q) (hb : g ^ q % p = 1) (e : Nat) : 0 < g ^ e % p := by
  have hcoprime : Nat.Coprime (g ^ e) p := by
    refine Nat.Coprime.pow_left e (Nat.coprime_of_mul_modEq_one (g ^ (q - 1)) ?_)
    rw [← Nat.pow_succ', Nat.succ_eq_add_one, Nat.sub_add_cancel hq, Nat.ModEq, hb,
      Nat.mod_eq_of_lt hp]
  rw [Nat.pos_iff_ne_zero]
  intro hzero
  have hone : p = 1 :=
    (Nat.coprime_comm.1 hcoprime).eq_one_of_dvd (Nat.dvd_of_mod_eq_zero hzero)
  omega

/-- Every power of `g` passes the checks on `y`. -/
theorem exists_new_eq_ok (h : Valid p q g) (x : Nat) :
    ∃ s : ModP, new p q g (powMod g x p) = .ok s ∧
      s.p = p ∧ s.q = q ∧ s.g = g ∧ s.y = powMod g x p := by
  have hp : 1 < p := by have := h.three_lt_p; omega
  have hdvd : (p - 1) % q = 0 := Nat.mod_eq_zero_of_dvd h.q_dvd
  have hpow : powMod g q p = 1 := by rw [powMod_eq, h.g_pow]
  have hlt : powMod g x p < p := by
    rw [powMod_eq]
    exact Nat.mod_lt _ (Nat.zero_lt_of_lt hp)
  have hpos : 0 < powMod g x p := by
    rw [powMod_eq]
    exact pow_mod_pos hp (Nat.zero_lt_of_lt h.one_lt_q) h.g_pow x
  have hypow : powMod (powMod g x p) q p = 1 := by
    rw [powMod_eq, powMod_eq, ← Nat.pow_mod, ← Nat.pow_mul, Nat.mul_comm, Nat.pow_mul, Nat.pow_mod,
      h.g_pow, Nat.one_pow, Nat.mod_eq_of_lt hp]
  rw [new, dif_pos ⟨h.three_lt_p, h.one_lt_q⟩, dif_pos hdvd, dif_pos ⟨h.one_lt_g, h.g_lt, hpow⟩,
    dif_pos ⟨hpos, hlt, hypow⟩]
  exact ⟨_, rfl, rfl, rfl, rfl, rfl⟩

/-- Parameters that are not valid are refused before anything is asked of `y`. -/
theorem exists_new_eq_error (h : ¬ Valid p q g) (y : Nat) :
    ∃ reason ∈ complaints, new p q g y = .error (.invalidParameters reason) := by
  rw [new]
  split
  · rename_i hsize
    split
    · rename_i hdvd
      split
      · rename_i hg
        refine absurd ⟨hsize.1, hsize.2, Nat.dvd_of_mod_eq_zero hdvd, hg.1, hg.2.1, ?_⟩ h
        rw [← powMod_eq, hg.2.2]
      · exact ⟨_, by simp [complaints], rfl⟩
    · exact ⟨_, by simp [complaints], rfl⟩
  · exact ⟨_, by simp [complaints], rfl⟩

/-! ### The operations step by step -/

/-- Whether `b` is a residue above `low` whose `q`-th power is one, step by step. -/
def member? (p q low b : Nat) : Option Bool :=
  if b ≤ low ∨ p ≤ b then some false
  else do return decide ((← pow b q p) = 1)

/-- The checks on the parameters, step by step. -/
def validate? (p q g y : Nat) : Option (Except Error Unit) :=
  if p ≤ 3 ∨ q ≤ 1 then some (.error (.invalidParameters "modulus too small"))
  else do
    if (← rem (← diff p 1) q) ≠ 0 then
      return .error (.invalidParameters "q does not divide p - 1")
    else if !(← member? p q 1 g) then
      return .error (.invalidParameters "g does not generate the order-q subgroup")
    else if !(← member? p q 0 y) then
      return .error (.invalidParameters "y is not in the order-q subgroup")
    else return .ok ()

/-- The parameters and the power of a witness checked, step by step. -/
def validateWitness? (p q g x : Nat) : Option (Except Error Unit) := do
  validate? p q g (← pow g x p)

variable (s : ModP)

/-- The test for a witness, step by step. -/
def isWitness? (x : Nat) : Option Bool := do
  return (← pow s.g x s.p) == s.y

/-- The announcement for the nonce `k`, and the witness as it is kept, step by step. -/
def announced? (k x : Nat) : Option (Nat × Nat) := do
  return (← pow s.g k s.p, ← rem x s.q)

/-- The answer to a challenge, step by step. -/
def answer? (k x c : Nat) : Option Nat := rem (k + c * x) s.q

/-- The verifier's equation, step by step. -/
def accepts? (t c r : Nat) : Option Bool :=
  if t = 0 ∨ s.p ≤ t ∨ s.q ≤ r then some false
  else do
    let left ← pow s.g r s.p
    let right ← rem (t * (← pow s.y c s.p)) s.p
    return left == right

/-- The simulated announcement, step by step. -/
def simulated? (c r : Nat) : Option Nat := do
  let exponent ← rem (← diff s.q (← rem c s.q)) s.q
  let left ← pow s.g r s.p
  rem (left * (← pow s.y exponent s.p)) s.p

/-- Membership in the subgroup is decided for a positive modulus. -/
theorem member?_eq (hp : 0 < p) (q low b : Nat) :
    member? p q low b = some (decide (low < b ∧ b < p ∧ powMod b q p = 1)) := by
  rw [member?]
  split
  · rw [decide_eq_false (by omega)]
  · have hbound : low < b ∧ b < p := by omega
    simp only [pow_eq hp, hbound, true_and]
    rfl

/-- Every remainder and power that the checks take has a nonzero modulus by then. -/
theorem validate?_eq (p q g y : Nat) :
    validate? p q g y = some ((fun _ => ()) <$> new p q g y) := by
  rw [validate?, new]
  by_cases hsize : 3 < p ∧ 1 < q
  · have hp : 0 < p := by omega
    have hq : 0 < q := by omega
    rw [if_neg (by omega), dif_pos hsize]
    simp only [diff_eq (show 1 ≤ p from hp), rem_eq hq, member?_eq hp, Option.bind_eq_bind,
      Option.bind_some]
    by_cases hdvd : (p - 1) % q = 0
    · rw [if_neg (not_not_intro hdvd), dif_pos hdvd]
      by_cases hg : 1 < g ∧ g < p ∧ powMod g q p = 1
      · rw [decide_eq_true hg, dif_pos hg]
        by_cases hy : 0 < y ∧ y < p ∧ powMod y q p = 1
        · rw [decide_eq_true hy, dif_pos hy]
          rfl
        · rw [decide_eq_false hy, dif_neg hy]
          rfl
      · rw [decide_eq_false hg, dif_neg hg]
        rfl
    · rw [if_pos hdvd, dif_neg hdvd]
      rfl
  · rw [if_pos (by omega), dif_neg hsize]
    rfl

/-- Parameters with a positive modulus are judged with the power of the witness. -/
theorem validateWitness?_eq (hp : 0 < p) (q g x : Nat) :
    validateWitness? p q g x = some ((fun _ => ()) <$> new p q g (powMod g x p)) := by
  rw [validateWitness?, pow_eq hp]
  exact validate?_eq p q g _

/-- No operation on a statement gets stuck: taken step by step, each has the result that it has
outright. -/
structure Total : Prop where
  isWitness (x : Nat) : s.isWitness? x = some (s.isWitness x)
  announced (k x : Nat) : s.announced? k x = some (s.power s.g k, x % s.q)
  answer (k x c : Nat) : s.answer? k x c = some ((k + c * x) % s.q)
  accepts (t c r : Nat) : s.accepts? t c r = some (s.accepts t c r)
  simulated (c r : Nat) : s.simulated? c r = some (s.simulated c r)

/-- No operation on a statement that was built gets stuck. -/
theorem total : s.Total := by
  have hp : 0 < s.p := Nat.zero_lt_of_lt s.one_lt_p
  have hq : 0 < s.q := Nat.zero_lt_of_lt s.one_lt_q
  refine ⟨fun x => ?_, fun k x => ?_, fun k x c => rem_eq hq, fun t c r => ?_, fun c r => ?_⟩
  · rw [isWitness?, pow_eq hp]
    rfl
  · rw [announced?, pow_eq hp, rem_eq hq]
    rfl
  · rw [accepts?, ModP.accepts]
    split
    · rw [decide_eq_false (by omega), Bool.false_and]
    · rw [decide_eq_true (by omega), Bool.true_and, pow_eq hp, pow_eq hp]
      simp only [Option.bind_eq_bind, Option.bind_some, rem_eq hp]
      rfl
  · rw [simulated?, rem_eq hq, pow_eq hp]
    simp only [Option.bind_eq_bind, Option.bind_some, diff_eq (Nat.mod_lt c hq).le, rem_eq hq,
      pow_eq hp, rem_eq hp]
    rfl

/-! ### A statement built from a witness -/

/-- A statement with the witness `x`: `x` is announced, powers are nonzero residues, and every
operation comes to a result, whatever the challenge, the announcement and the response. -/
structure Serves (G : Type) (x : Nat) : Prop where
  total : s.Total
  g_power (e : Nat) : 0 < s.power s.g e ∧ s.power s.g e < s.p
  y_power (e : Nat) : 0 < s.power s.y e ∧ s.power s.y e < s.p
  announces : ((s.protocol (G := G)).announce (.scalar x)).Always fun m =>
    ∃ k < s.q, m = (.residue (s.power s.g k), .nonce k (x % s.q))
  responds (k w c : Nat) :
    ∃ r < s.q, (s.protocol (G := G)).respond (.nonce k w) c = .ok (.scalar r)
  checks (t c r : Nat) :
    ∃ verdict, (s.protocol (G := G)).check (.residue t) c (.scalar r) = .ok verdict
  simulates (c : Nat) : ((s.protocol (G := G)).simulate c).Always fun m =>
    ∃ t r, m = (.residue t, .scalar r) ∧ 0 < t ∧ t < s.p ∧ r < s.q
  encodes (t r : Nat) :
    (∃ data, (s.protocol (G := G)).encodeAnnouncement (.residue t) = .ok data) ∧
      ∃ data, (s.protocol (G := G)).encodeResponse (.scalar r) = .ok data

/-- Powers of members of the subgroup are nonzero residues. -/
theorem power_mem {b : Nat} (hb : powMod b s.q s.p = 1) (e : Nat) :
    0 < s.power b e ∧ s.power b e < s.p := by
  rw [power_eq]
  rw [powMod_eq] at hb
  exact ⟨pow_mod_pos s.one_lt_p (Nat.zero_lt_of_lt s.one_lt_q) hb e,
    Nat.mod_lt _ (Nat.zero_lt_of_lt s.one_lt_p)⟩

variable {s} in
/-- A statement that was built from a witness serves it. -/
theorem serves {x : Nat} (hx : s.y = powMod s.g x s.p) (G : Type) : s.Serves G x where
  total := s.total
  g_power := s.power_mem s.g_pow
  y_power := s.power_mem s.y_pow
  announces := by
    have hwitness : s.isWitness x = true := by rw [isWitness, power, hx, beq_self_eq_true]
    simp only [protocol, if_pos hwitness]
    exact (Sampler.always_drawElement s.space).bind fun k hk =>
      Sampler.always_pure ⟨k, hk, rfl⟩
  responds k w c := ⟨_, Nat.mod_lt _ (Nat.zero_lt_of_lt s.one_lt_q), rfl⟩
  checks t c r := ⟨_, rfl⟩
  simulates c := (Sampler.always_drawElement s.space).bind fun r hr =>
    Sampler.always_pure ⟨_, r, rfl, s.simulated_pos c r, s.simulated_lt c r, hr⟩
  encodes t r := ⟨⟨_, rfl⟩, ⟨_, rfl⟩⟩

/-- With a modulus that is not zero, building from a witness is building with its power. -/
theorem ofWitness_eq (hp : p ≠ 0) (q g x : Nat) :
    ofWitness p q g x = Failure.ofRefused (new p q g (powMod g x p)) := if_neg hp

/-- A statement built from `x` has the parameters asked for, which are valid. -/
theorem of_ofWitness_eq_ok {x : Nat} {s : ModP} (h : ofWitness p q g x = .ok s) :
    Valid p q g ∧ s.p = p ∧ s.q = q ∧ s.g = g ∧ s.y = powMod g x p := by
  have hp : p ≠ 0 := by
    rintro rfl
    exact nomatch h
  rw [ofWitness_eq hp] at h
  by_cases hvalid : Valid p q g
  · obtain ⟨s', hnew, hfields⟩ := exists_new_eq_ok hvalid x
    rw [hnew] at h
    obtain rfl : s' = s := Except.ok.inj h
    exact ⟨hvalid, hfields⟩
  · obtain ⟨reason, -, hnew⟩ := exists_new_eq_error hvalid (powMod g x p)
    rw [hnew] at h
    exact nomatch h

/-- **A statement is built from `x` for just the valid parameters, and it serves.**  There is no
answer modulo zero, where the power is asked for before the parameters are looked at.  Any other
parameters that are not valid are refused, for a reason that is not about `y`. -/
theorem ofWitness_validates (G : Type) (p q g x : Nat) :
    (ofWitness p q g x = .error (.abort .zeroModulus) ↔ p = 0) ∧
      (validateWitness? p q g x = none ↔ p = 0) ∧
      ((∃ s, ofWitness p q g x = .ok s) ↔ Valid p q g) ∧
      (p ≠ 0 → ¬ Valid p q g → ∃ reason ∈ complaints,
        ofWitness p q g x = .error (.error (.invalidParameters reason))) ∧
      ∀ s, ofWitness p q g x = .ok s →
        s.p = p ∧ s.q = q ∧ s.g = g ∧ s.y = powMod g x p ∧ s.Serves G x := by
  refine ⟨⟨fun h => ?_, ?_⟩, ⟨fun h => ?_, ?_⟩, ⟨?_, fun h => ?_⟩, fun hp hvalid => ?_,
    fun s hs => ?_⟩
  · by_contra hp
    rw [ofWitness_eq hp] at h
    cases hnew : new p q g (powMod g x p) <;> rw [hnew] at h <;> exact nomatch h
  · rintro rfl
    rfl
  · by_contra hp
    rw [validateWitness?_eq (Nat.pos_of_ne_zero hp)] at h
    exact nomatch h
  · rintro rfl
    rfl
  · rintro ⟨s, hs⟩
    exact (of_ofWitness_eq_ok hs).1
  · have hp : p ≠ 0 := by have := h.three_lt_p; omega
    obtain ⟨s, hnew, -⟩ := exists_new_eq_ok h x
    exact ⟨s, by rw [ofWitness_eq hp, hnew]; rfl⟩
  · obtain ⟨reason, hreason, hnew⟩ := exists_new_eq_error hvalid (powMod g x p)
    exact ⟨reason, hreason, by rw [ofWitness_eq hp, hnew]; rfl⟩
  · obtain ⟨-, rfl, rfl, rfl, hy⟩ := of_ofWitness_eq_ok hs
    exact ⟨rfl, rfl, rfl, hy, serves hy G⟩

/-- Modulo zero there is no answer, although the checks would refuse the parameters. -/
theorem ofWitness_zero_aborts :
    ofWitness 0 11 4 9 = .error (.abort .zeroModulus) ∧
      ∀ y, new 0 11 4 y = .error (.invalidParameters "modulus too small") :=
  ⟨rfl, fun _ => rfl⟩

end ModP
end ThreeMove

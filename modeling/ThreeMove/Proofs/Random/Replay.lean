/-
# Tapes and byte streams

A computation that runs on a stream which answers all its requests comes to the
outcome of one of its tapes (`run_of_answered`), so what always holds holds of
every such run (`Always.run`).  `Returns` says less: whatever a run returns has a
property, and it may fail instead.  The other way round, `Produces x v` says that a
suitable opening of a stream makes `x` return `v`: every residue can be proposed
at the first try (`trimTop_spread`), and every scalar of a group whose order 64
bytes can reach.
-/

import ThreeMove.Proofs.Bytes
import ThreeMove.Proofs.Random.Tape
import Mathlib.Tactic.Positivity

namespace ThreeMove
namespace ByteStream

/-- A stream whose next bytes are `data`. -/
def StartsWith (s : ByteStream) (data : Bytes) : Prop := (s.take data.length).1 = data

/-- Taking bytes twice leaves what taking them at once leaves. -/
theorem take_take (s : ByteStream) (m n : Nat) : ((s.take m).2.take n).2 = (s.take (m + n)).2 := by
  simp only [take, Nat.add_assoc]

/-- Bytes taken at once are those taken one part after the other. -/
theorem take_add_fst (s : ByteStream) (m n : Nat) :
    (s.take (m + n)).1 = (s.take m).1 ++ ((s.take m).2.take n).1 := by
  simp only [take, List.range_add, List.map_append, List.map_map, Nat.add_assoc]
  rfl

/-- A stream that starts with two parts starts with the first, and then with the second. -/
theorem StartsWith.append {s : ByteStream} {front back : Bytes}
    (h : s.StartsWith (front ++ back)) :
    s.StartsWith front ∧ (s.take front.length).2.StartsWith back := by
  rw [StartsWith, List.length_append, take_add_fst] at h
  exact List.append_inj h (by simp)

/-- The number of which `trimTop` makes `v`: the top word is moved to the left. -/
def spread (words bits v : Nat) : Nat :=
  v % 2 ^ (32 * (words - 1)) +
    2 ^ (32 * (words - 1)) * (v / 2 ^ (32 * (words - 1)) * 2 ^ ((32 - bits % 32) % 32))

/-- Trimming undoes spreading. -/
theorem trimTop_spread (words bits v : Nat) : trimTop words bits (spread words bits v) = v := by
  have hunit : 0 < 2 ^ (32 * (words - 1)) := by positivity
  have hshift : 0 < 2 ^ ((32 - bits % 32) % 32) := by positivity
  simp only [trimTop, spread, Nat.one_shiftLeft, Nat.shiftRight_eq_div_pow,
    Nat.add_mul_mod_self_left, Nat.mod_mod,
    Nat.add_mul_div_left _ _ hunit, Nat.div_eq_of_lt (Nat.mod_lt _ hunit), Nat.zero_add,
    Nat.mul_div_cancel _ hshift]
  exact Nat.mod_add_div' v _

/-- A number of at most `bits` digits is spread over the words that hold `bits`. -/
theorem spread_lt {bits v : Nat} (hbits : 0 < bits) (hv : v < 2 ^ bits) :
    spread ((bits + 31) / 32) bits v < 256 ^ (4 * ((bits + 31) / 32)) := by
  obtain ⟨words, hwords⟩ : ∃ words, (bits + 31) / 32 = words + 1 :=
    Nat.exists_eq_add_one.2 (by omega)
  have htop : v / 2 ^ (32 * words) < 2 ^ (bits - 32 * words) := by
    rw [Nat.div_lt_iff_lt_mul (by positivity), ← Nat.pow_add]
    exact hv.trans_eq (by congr 1; omega)
  have hmoved : v / 2 ^ (32 * words) * 2 ^ ((32 - bits % 32) % 32) < 2 ^ 32 :=
    calc v / 2 ^ (32 * words) * 2 ^ ((32 - bits % 32) % 32)
        < 2 ^ (bits - 32 * words) * 2 ^ ((32 - bits % 32) % 32) :=
          Nat.mul_lt_mul_of_pos_right htop (by positivity)
      _ = 2 ^ 32 := by rw [← Nat.pow_add]; congr 1; omega
  have hlow : v % 2 ^ (32 * words) < 2 ^ (32 * words) := Nat.mod_lt _ (by positivity)
  have hsize : (256 : Nat) ^ (4 * (words + 1)) = 2 ^ (32 * words) * 2 ^ 32 := by
    rw [show (256 : Nat) = 2 ^ 8 from rfl, ← Nat.pow_mul, ← Nat.pow_add]
    congr 1
    omega
  rw [hwords, hsize, spread, Nat.add_sub_cancel]
  calc v % 2 ^ (32 * words) +
        2 ^ (32 * words) * (v / 2 ^ (32 * words) * 2 ^ ((32 - bits % 32) % 32))
      < 2 ^ (32 * words) +
        2 ^ (32 * words) * (v / 2 ^ (32 * words) * 2 ^ ((32 - bits % 32) % 32)) := by omega
    _ = 2 ^ (32 * words) * (v / 2 ^ (32 * words) * 2 ^ ((32 - bits % 32) % 32) + 1) := by ring
    _ ≤ 2 ^ (32 * words) * 2 ^ 32 := Nat.mul_le_mul_left _ hmoved

/-- A stream that opens with the words of a proposal yields it at the first try. -/
theorem below_eq {s : ByteStream} {bound v : Nat} (hv : v < bound) (hpatience : 0 < s.patience)
    (hs : s.StartsWith
      (Bytes.le (4 * wordsFor bound) (spread (wordsFor bound) (bitLength bound) v))) :
    s.below bound = (some v, (s.take (4 * wordsFor bound)).2) := by
  have hlt : v < 2 ^ bitLength bound := hv.trans (lt_two_pow_bitLength bound)
  have hbits : 0 < bitLength bound := by
    unfold bitLength
    split <;> omega
  obtain ⟨tries, htries⟩ := Nat.exists_eq_add_one.2 hpatience
  rw [StartsWith, Bytes.length_le] at hs
  have hspread : spread (wordsFor bound) (bitLength bound) v < 256 ^ (4 * wordsFor bound) :=
    spread_lt hbits hlt
  have hpropose : s.propose bound = (v, (s.take (4 * wordsFor bound)).2) := by
    simp only [propose, hs, Bytes.leValue_le, Nat.mod_eq_of_lt hspread, trimTop_spread]
  rw [below, htries, belowWithin, hpropose]
  exact if_pos hv

/-- A stream that opens with a tape reads it back. -/
theorem startsWith_ofTape (tape : Bytes) (seed : UInt64) : (ofTape tape seed).StartsWith tape := by
  refine List.ext_getElem (by simp) fun i hi hi' => ?_
  simp [take, ofTape, hi']

end ByteStream

/-- A random request can return every element of the space: scalars are reduced
from 64 bytes, which must not be too few. -/
def ChallengeSpace.Reachable (space : ChallengeSpace) : Prop :=
  space.family = .field → space.modulus ≤ 256 ^ 64

namespace Sampler

variable {α β : Type}

/-- Every request that a computation makes of a stream is answered. -/
def Answered : Sampler α → ByteStream → Prop
  | .done _, _ => True
  | .fail _, _ => True
  | .element space next, s =>
    ∃ c rest, elementFrom space s = (some c, rest) ∧ (next c).Answered rest
  | .bytes count next, s => (next (s.take count).1).Answered (s.take count).2

/-- An element that is proposed and kept lies in the space. -/
theorem elementFrom_lt {space : ChallengeSpace} {s rest : ByteStream} {c : Nat}
    (h : elementFrom space s = (some c, rest)) : c < space.modulus := by
  unfold elementFrom at h
  split at h
  · exact ByteStream.belowWithin_lt h
  · have hc := Option.some.inj (congrArg Prod.fst h)
    exact hc ▸ Nat.mod_lt _ space.modulus_pos

/-- A run that is answered throughout comes to the outcome of a tape. -/
theorem run_of_answered (x : Sampler α) {s : ByteStream} (h : x.Answered s) :
    ∃ tape : x.Tape, (x.run s).1 = x.outcome tape := by
  induction x generalizing s with
  | done value => exact ⟨(), rfl⟩
  | fail cause => exact ⟨(), rfl⟩
  | element space next ih =>
    obtain ⟨c, rest, hc, hnext⟩ := h
    obtain ⟨tape, htape⟩ := ih c hnext
    refine ⟨⟨⟨c, elementFrom_lt hc⟩, tape⟩, ?_⟩
    simp only [run, hc, htape, outcome]
  | bytes count next ih =>
    obtain ⟨tape, htape⟩ := ih _ h
    exact ⟨⟨⟨(s.take count).1, s.length_take_fst count⟩, tape⟩, htape⟩

/-- What always holds holds of every run that is answered throughout. -/
theorem Always.run {Q : α → Prop} {x : Sampler α} (hx : x.Always Q) {s : ByteStream}
    (h : x.Answered s) : ∃ a rest, x.run s = (.ok a, rest) ∧ Q a := by
  obtain ⟨tape, htape⟩ := x.run_of_answered h
  obtain ⟨a, ha, hQ⟩ := hx tape
  exact ⟨a, (x.run s).2, Prod.ext (htape.trans ha) rfl, hQ⟩

/-- A run that comes to a value was answered throughout. -/
theorem answered_of_run {x : Sampler α} {s : ByteStream} {a : α} (h : (x.run s).1 = .ok a) :
    x.Answered s := by
  induction x generalizing s with
  | done value => trivial
  | fail cause => trivial
  | element space next ih =>
    rw [run] at h
    split at h
    · next c rest hc => exact ⟨c, rest, hc, ih c h⟩
    · cases h
  | bytes count next ih => exact ih _ h

/-! ### What is returned -/

/-- Whatever a run returns has the property `Q`; it may fail instead. -/
def Returns (Q : α → Prop) (x : Sampler α) : Prop :=
  ∀ ⦃source rest : ByteStream⦄ ⦃a : α⦄, x.run source = (.ok a, rest) → Q a

/-- What is returned at once has the property if it is given. -/
theorem returns_pure {Q : α → Prop} {a : α} (h : Q a) : Returns Q (pure a) := by
  intro source rest b hrun
  obtain rfl : a = b := Except.ok.inj (congrArg Prod.fst hrun)
  exact h

/-- A refusal returns nothing. -/
theorem returns_refuse {Q : α → Prop} {cause : Error} : Returns Q (refuse cause) :=
  fun _ _ _ hrun => nomatch hrun

/-- What holds of everything holds of what is returned. -/
theorem returns_any (x : Sampler α) : Returns (fun _ => True) x := fun _ _ _ _ => trivial

/-- What always holds of the value holds of what is returned. -/
theorem Always.returns {Q : α → Prop} {x : Sampler α} (h : x.Always Q) : x.Returns Q := by
  intro source rest a hrun
  have hvalue : (x.run source).1 = .ok a := congrArg Prod.fst hrun
  obtain ⟨b, rest', hrun', hb⟩ := h.run (answered_of_run hvalue)
  obtain rfl : a = b := Except.ok.inj (hvalue.symm.trans (congrArg Prod.fst hrun'))
  exact hb

/-- What is returned has both of two properties it has. -/
theorem Returns.and {P Q : α → Prop} {x : Sampler α} (hP : x.Returns P) (hQ : x.Returns Q) :
    x.Returns fun a => P a ∧ Q a :=
  fun _ _ _ hrun => ⟨hP hrun, hQ hrun⟩

/-- A property of what is returned may be weakened. -/
theorem Returns.imp {P Q : α → Prop} {x : Sampler α} (hPQ : ∀ a, P a → Q a) (h : x.Returns P) :
    x.Returns Q :=
  fun _ _ a hrun => hPQ a (h hrun)

/-- What a sequence returns is found part by part. -/
theorem Returns.bind {P : α → Prop} {Q : β → Prop} {x : Sampler α} {f : α → Sampler β}
    (hx : x.Returns P) (hf : ∀ a, P a → (f a).Returns Q) : Returns Q (x >>= f) := by
  intro source rest b hrun
  rw [run_bind] at hrun
  split at hrun
  · rename_i a rest' ha
    exact hf a (hx ha) hrun
  · exact nomatch hrun

/-- What each step of a walk returns is found among its values in order. -/
theorem returns_mapM {P : α → β → Prop} {f : α → Sampler β} {as : List α}
    (h : ∀ a ∈ as, (f a).Returns (P a)) : Returns (List.Forall₂ P as) (as.mapM f) := by
  induction as with
  | nil => exact returns_pure .nil
  | cons a rest ih =>
    rw [List.forall_mem_cons] at h
    rw [List.mapM_cons]
    refine h.1.bind fun b hb => (ih h.2).bind fun bs hbs => returns_pure ?_
    exact .cons hb hbs

/-! ### Streams that lead to a given value -/

/-- There is an opening from which the computation returns `v`, reading just that. -/
def Produces (x : Sampler α) (v : α) : Prop :=
  ∃ data : Bytes, ∀ s : ByteStream, s.StartsWith data → 0 < s.patience →
    x.run s = (.ok v, (s.take data.length).2)

/-- What is returned at once needs no bytes. -/
theorem produces_pure (v : α) : Produces (pure v) v := ⟨[], fun _ _ _ => rfl⟩

/-- Openings that lead to two values one after the other are put together. -/
theorem Produces.bind {x : Sampler α} {f : α → Sampler β} {a : α} {b : β} (hx : x.Produces a)
    (hf : (f a).Produces b) : Produces (x >>= f) b := by
  obtain ⟨front, hfront⟩ := hx
  obtain ⟨back, hback⟩ := hf
  refine ⟨front ++ back, fun s hs hpatience => ?_⟩
  obtain ⟨hs, hs'⟩ := hs.append
  rw [run_bind, hfront s hs hpatience]
  refine (hback _ hs' hpatience).trans ?_
  rw [ByteStream.take_take, List.length_append]

/-- Every element of the space can be drawn. -/
theorem produces_drawElement {space : ChallengeSpace} (hspace : space.Reachable) {c : Nat}
    (hc : c < space.modulus) : (drawElement space).Produces c := by
  cases hfamily : space.family with
  | residues =>
    refine ⟨Bytes.le (4 * ByteStream.wordsFor space.modulus)
      (ByteStream.spread (ByteStream.wordsFor space.modulus) (bitLength space.modulus) c),
      fun s hs hpatience => ?_⟩
    simp only [drawElement, run, elementFrom, hfamily, ByteStream.below_eq hc hpatience hs,
      Bytes.length_le]
  | field =>
    refine ⟨Bytes.le 64 c, fun s hs _ => ?_⟩
    rw [ByteStream.StartsWith, Bytes.length_le] at hs
    have hvalue : Bytes.leValue (Bytes.le 64 c) % space.modulus = c := by
      rw [Bytes.leValue_le, Nat.mod_eq_of_lt (hc.trans_le (hspace hfamily)), Nat.mod_eq_of_lt hc]
    simp only [drawElement, run, elementFrom, hfamily, ByteStream.wide, hs, hvalue,
      Bytes.length_le]

/-- All bytes can be drawn. -/
theorem produces_drawBytes (data : Bytes) : (drawBytes data.length).Produces data :=
  ⟨data, fun _ hs _ => Prod.ext (congrArg Except.ok hs) rfl⟩

/-- What a computation can produce, it returns on some stream. -/
theorem Produces.exists_run {x : Sampler α} {v : α} (h : x.Produces v) :
    ∃ s : ByteStream, (x.run s).1 = .ok v := by
  obtain ⟨data, hdata⟩ := h
  refine ⟨.ofTape data 0, ?_⟩
  rw [hdata _ (ByteStream.startsWith_ofTape data 0)]
  exact Nat.succ_pos _

end Sampler
end ThreeMove

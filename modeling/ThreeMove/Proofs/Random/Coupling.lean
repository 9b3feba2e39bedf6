/-
# Pairing the draws of two computations

Two computations are `Matched` when a bijection pairs their tapes, paired tapes
have one chance, and the outcomes on paired tapes are related.  `Coupled R` is
the case where both always return and the values are related by `R`; the law of
the outcome is then the same on both sides as far as `R` sees it.  Couplings are
built along the two programs: a value on each side (`coupled_pure`), a part on
each side (`Coupled.bind`), a draw whose answers are permuted (`Coupled.element`)
or moved by a translation (`Coupled.element_add`), and two independent parts in
either order (`matched_swap`).
-/

import ThreeMove.Proofs.Random.Tape
import Mathlib.Data.Fintype.EquivFin
import Mathlib.Data.Nat.ModEq

namespace ThreeMove
namespace Sampler

open scoped ENNReal

variable {α β γ δ : Type}

/-- A bijection of the tapes that keeps chances and relates the outcomes. -/
def Matched (R : Except Failure α → Except Failure β → Prop) (x : Sampler α) (y : Sampler β) :
    Prop :=
  ∃ e : x.Tape ≃ y.Tape, ∀ tape,
    R (x.outcome tape) (y.outcome (e tape)) ∧ y.chance (e tape) = x.chance tape

/-- Both outcomes are values, and related. -/
def BothOk (R : α → β → Prop) (a : Except Failure α) (b : Except Failure β) : Prop :=
  ∃ v w, a = .ok v ∧ b = .ok w ∧ R v w

/-- Both computations always return, and a bijection of their tapes relates the
values. -/
abbrev Coupled (R : α → β → Prop) : Sampler α → Sampler β → Prop := Matched (BothOk R)

/-- A computation matches itself. -/
theorem matched_refl (x : Sampler α) : Matched Eq x x :=
  ⟨Equiv.refl _, fun _ => ⟨rfl, rfl⟩⟩

/-- A computation may be replaced by one that gives the same. -/
theorem Matched.trans {R : Except Failure α → Except Failure β → Prop} {x : Sampler α}
    {y z : Sampler β} (hxy : Matched R x y) (hyz : Matched Eq y z) : Matched R x z := by
  obtain ⟨e, he⟩ := hxy
  obtain ⟨d, hd⟩ := hyz
  refine ⟨e.trans d, fun tape => ?_⟩
  obtain ⟨houtcome, hchance⟩ := he tape
  obtain ⟨houtcome', hchance'⟩ := hd (e tape)
  exact ⟨houtcome' ▸ houtcome, hchance'.trans hchance⟩

/-- The left side of a match may be replaced by an equal computation. -/
theorem Matched.of_left {R : Except Failure α → Except Failure β → Prop} {x y : Sampler α}
    {z : Sampler β} (hxy : Matched Eq x y) (hyz : Matched R y z) : Matched R x z := by
  obtain ⟨e, he⟩ := hxy
  obtain ⟨d, hd⟩ := hyz
  refine ⟨e.trans d, fun tape => ?_⟩
  obtain ⟨houtcome, hchance⟩ := he tape
  obtain ⟨houtcome', hchance'⟩ := hd (e tape)
  exact ⟨houtcome ▸ houtcome', hchance'.trans hchance⟩

/-- What is coupled by equality matches. -/
theorem Coupled.matched_eq {x y : Sampler α} (h : Coupled Eq x y) : Matched Eq x y := by
  obtain ⟨e, he⟩ := h
  refine ⟨e, fun tape => ⟨?_, (he tape).2⟩⟩
  obtain ⟨a, b, ha, hb, rfl⟩ := (he tape).1
  exact ha.trans hb.symm

/-- The left side of a coupling always returns. -/
theorem Coupled.always {R : α → β → Prop} {x : Sampler α} {y : Sampler β} (h : Coupled R x y) :
    x.Always fun a => ∃ b, R a b := by
  obtain ⟨e, he⟩ := h
  intro tape
  obtain ⟨⟨a, b, ha, -, hR⟩, -⟩ := he tape
  exact ⟨a, ha, b, hR⟩

/-- What always holds of the right side may be added to a coupling. -/
theorem Coupled.and_right {R : α → β → Prop} {Q : β → Prop} {x : Sampler α} {y : Sampler β}
    (h : Coupled R x y) (hy : y.Always Q) : Coupled (fun a b => R a b ∧ Q b) x y := by
  obtain ⟨e, he⟩ := h
  refine ⟨e, fun tape => ?_⟩
  obtain ⟨⟨a, b, ha, hb, hR⟩, hchance⟩ := he tape
  obtain ⟨b', hb', hQ⟩ := hy (e tape)
  obtain rfl : b = b' := Except.ok.inj (hb.symm.trans hb')
  exact ⟨⟨a, b, ha, hb, hR, hQ⟩, hchance⟩

/-- Two computations match when the indices they settle first are paired, with
equal chances, and they match from there on. -/
theorem Splits.matched {I J : Type} {R : Except Failure α → Except Failure β → Prop}
    {w : I → ℝ≥0∞} {g : I → Sampler α} {x : Sampler α} {v : J → ℝ≥0∞} {h : J → Sampler β}
    {y : Sampler β} (hx : Splits w g x) (hy : Splits v h y) (e : I ≃ J)
    (hw : ∀ i, v (e i) = w i) (hgh : ∀ i, Matched R (g i) (h (e i))) : Matched R x y := by
  obtain ⟨ex, hx⟩ := hx
  obtain ⟨ey, hy⟩ := hy
  choose d hd using hgh
  refine ⟨ex.trans ((Equiv.sigmaCongr e d).trans ey.symm), fun tape => ?_⟩
  obtain ⟨houtcome, hchance⟩ := hx tape
  obtain ⟨houtcome', hchance'⟩ := hy (ey.symm (Equiv.sigmaCongr e d (ex tape)))
  obtain ⟨hR, hkeep⟩ := hd _ (ex tape).2
  rw [Equiv.apply_symm_apply] at houtcome' hchance'
  refine ⟨?_, ?_⟩
  · rw [houtcome]
    exact houtcome' ▸ hR
  · refine hchance'.trans ?_
    rw [hchance, ← hw, ← hkeep]
    rfl

/-- Matching first parts are followed by matching second parts. -/
theorem Matched.bind {R : Except Failure α → Except Failure β → Prop}
    {S : Except Failure γ → Except Failure δ → Prop} {x : Sampler α} {y : Sampler β}
    {f : α → Sampler γ} {g : β → Sampler δ} (hxy : Matched R x y)
    (hfg : ∀ a b, R a b → Matched S (after f a) (after g b)) : Matched S (x >>= f) (y >>= g) := by
  obtain ⟨e, he⟩ := hxy
  exact (splits_bind x f).matched (splits_bind y g) e (fun tape => (he tape).2)
    fun tape => hfg _ _ (he tape).1

/-- Computations that give the same may go on in the same way. -/
theorem Matched.bind_right {x y : Sampler α} (h : Matched Eq x y) (f : α → Sampler β) :
    Matched Eq (x >>= f) (y >>= f) :=
  h.bind fun _ _ hab => hab ▸ matched_refl _

/-- Related values are coupled. -/
theorem coupled_pure {R : α → β → Prop} {a : α} {b : β} (h : R a b) :
    Coupled R (pure a) (pure b) :=
  ⟨Equiv.refl Unit, fun _ => ⟨⟨a, b, rfl, rfl, h⟩, rfl⟩⟩

/-- Coupled computations go on coupled where related values do. -/
theorem Coupled.bind {R : α → β → Prop} {S : γ → δ → Prop} {x : Sampler α} {y : Sampler β}
    {f : α → Sampler γ} {g : β → Sampler δ} (hxy : Coupled R x y)
    (hfg : ∀ a b, R a b → Coupled S (f a) (g b)) : Coupled S (x >>= f) (y >>= g) := by
  refine Matched.bind hxy fun a b hab => ?_
  obtain ⟨v, w, rfl, rfl, hR⟩ := hab
  exact hfg v w hR

/-- A computation that always returns is coupled with itself. -/
theorem Always.coupled {Q : α → Prop} {x : Sampler α} (hx : x.Always Q) :
    Coupled (fun a b => a = b ∧ Q a) x x := by
  refine ⟨Equiv.refl _, fun tape => ?_⟩
  obtain ⟨a, ha, hQ⟩ := hx tape
  exact ⟨⟨a, a, ha, ha, rfl, hQ⟩, rfl⟩

/-- A computation may go on in ways that give the same. -/
theorem matched_bind_congr {x : Sampler α} {f g : α → Sampler β}
    (h : ∀ a, Matched Eq (f a) (g a)) : Matched Eq (x >>= f) (x >>= g) := by
  refine Matched.bind (matched_refl x) fun a b hab => ?_
  subst hab
  cases a with
  | ok value => exact h value
  | error cause => exact matched_refl _

/-- A draw on each side, from one range: the answers are paired by a permutation
of the range. -/
theorem Coupled.element {R : α → β → Prop} {space space' : ChallengeSpace} {f : Nat → Sampler α}
    {g : Nat → Sampler β} (hspace : space.modulus = space'.modulus) (σ : Nat → Nat)
    (hlt : ∀ c < space.modulus, σ c < space.modulus)
    (hinj : ∀ c < space.modulus, ∀ d < space.modulus, σ c = σ d → c = d)
    (h : ∀ c < space.modulus, Coupled R (f c) (g (σ c))) :
    Coupled R (drawElement space >>= f) (drawElement space' >>= g) := by
  let move : Fin space.modulus → Fin space.modulus := fun c => ⟨σ c, hlt c c.isLt⟩
  have hmove : Function.Injective move := fun c d hcd =>
    Fin.ext (hinj c c.isLt d d.isLt (congrArg Fin.val hcd))
  let e : Fin space.modulus ≃ Fin space.modulus :=
    Equiv.ofBijective move (Finite.injective_iff_bijective.1 hmove)
  exact (splits_element space f).matched (splits_element space' g) (e.trans (finCongr hspace))
    (fun _ => by rw [hspace]) fun c => h c c.isLt

/-- A draw on each side, from one space, may be answered alike. -/
theorem Coupled.element_same {R : α → β → Prop} {space : ChallengeSpace} {f : Nat → Sampler α}
    {g : Nat → Sampler β} (h : ∀ c < space.modulus, Coupled R (f c) (g c)) :
    Coupled R (drawElement space >>= f) (drawElement space >>= g) := by
  refine Coupled.element rfl id ?_ ?_ h
  · intro c hc
    exact hc
  · intro c _ d _ hcd
    exact hcd

/-- A draw on each side, from one space, where the right side answers with a
translate of what the left side draws. -/
theorem Coupled.element_add {R : α → β → Prop} {space : ChallengeSpace} {f : Nat → Sampler α}
    {g : Nat → Sampler β} (d : Nat)
    (h : ∀ c < space.modulus, Coupled R (f c) (g ((c + d) % space.modulus))) :
    Coupled R (drawElement space >>= f) (drawElement space >>= g) := by
  refine Coupled.element rfl (fun c => (c + d) % space.modulus) ?_ ?_ h
  · intro c _
    exact Nat.mod_lt _ space.modulus_pos
  · intro c hc c' hc' heq
    have hsame : c ≡ c' [MOD space.modulus] := Nat.ModEq.add_right_cancel' d heq
    exact hsame.eq_of_lt_of_lt hc hc'

/-- Two parts that always return settle both their tapes. -/
theorem splits_bind_bind {x : Sampler α} {y : Sampler β} {a : x.Tape → α} {b : y.Tape → β}
    (ha : ∀ t, x.outcome t = .ok (a t)) (hb : ∀ u, y.outcome u = .ok (b u))
    (f : α → β → Sampler γ) :
    Splits (fun p : (_ : x.Tape) × y.Tape => x.chance p.1 * y.chance p.2)
      (fun p => f (a p.1) (b p.2)) (do let v ← x; let w ← y; f v w) := by
  have hinner : ∀ t, Splits y.chance (fun u => f (a t) (b u))
      (after (fun v => y >>= f v) (x.outcome t)) := fun t => by
    simpa only [ha, hb, after] using splits_bind y (f (a t))
  exact (splits_bind x fun v => y >>= f v).trans hinner

/-- Two parts that always return and do not depend on each other may change
places. -/
theorem matched_swap {P : α → Prop} {Q : β → Prop} {x : Sampler α} {y : Sampler β}
    (hx : x.Always P) (hy : y.Always Q) (f : α → β → Sampler γ) :
    Matched Eq (do let a ← x; let b ← y; f a b) (do let b ← y; let a ← x; f a b) := by
  choose a ha _ using hx
  choose b hb _ using hy
  let e : ((_ : x.Tape) × y.Tape) ≃ ((_ : y.Tape) × x.Tape) :=
    (Equiv.sigmaEquivProd _ _).trans ((Equiv.prodComm _ _).trans (Equiv.sigmaEquivProd _ _).symm)
  exact (splits_bind_bind ha hb f).matched (splits_bind_bind hb ha fun w v => f v w) e
    (fun _ => mul_comm _ _) fun _ => matched_refl _

end Sampler
end ThreeMove

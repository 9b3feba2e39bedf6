/-
# Results that are values

When a sequence, a map or a walk over a list of fallible steps comes to a value,
and what it says of the steps.
-/

import Mathlib.Data.List.Forall2

namespace ThreeMove

variable {ε α β : Type}

/-- Two steps succeed where the first does and the second does on its result. -/
theorem bind_eq_ok {x : Except ε α} {f : α → Except ε β} {b : β} :
    x >>= f = .ok b ↔ ∃ a, x = .ok a ∧ f a = .ok b := by
  cases x with
  | error cause => exact ⟨nofun, fun ⟨_, h, _⟩ => nomatch h⟩
  | ok a =>
    constructor
    · intro h
      exact ⟨a, rfl, h⟩
    · rintro ⟨_, ⟨⟩, hf⟩
      exact hf

/-- Two steps fail where the first does, or the second on the result of the first. -/
theorem bind_eq_error {x : Except ε α} {f : α → Except ε β} {cause : ε} :
    x >>= f = .error cause ↔ x = .error cause ∨ ∃ a, x = .ok a ∧ f a = .error cause := by
  cases x with
  | error cause' =>
    exact ⟨fun h => .inl (congrArg Except.error (Except.error.inj h)),
      fun h => h.elim (fun h => congrArg Except.error (Except.error.inj h))
        fun ⟨_, h, _⟩ => nomatch h⟩
  | ok a =>
    constructor
    · intro h
      exact .inr ⟨a, rfl, h⟩
    · rintro (⟨⟨⟩⟩ | ⟨_, ⟨⟩, hf⟩)
      exact hf

/-- Changing the result leaves a success a success. -/
theorem map_eq_ok {x : Except ε α} {f : α → β} {b : β} :
    f <$> x = .ok b ↔ ∃ a, x = .ok a ∧ f a = b := by
  cases x with
  | error cause => exact ⟨nofun, fun ⟨_, h, _⟩ => nomatch h⟩
  | ok a =>
    constructor
    · intro h
      exact ⟨a, rfl, Except.ok.inj h⟩
    · rintro ⟨_, ⟨⟩, rfl⟩
      rfl

/-- Changing the result leaves a failure as it is. -/
theorem map_eq_error {x : Except ε α} {f : α → β} {cause : ε} :
    f <$> x = .error cause ↔ x = .error cause := by
  cases x with
  | error cause' =>
    exact ⟨fun h => congrArg Except.error (Except.error.inj h),
      fun h => congrArg Except.error (Except.error.inj h)⟩
  | ok a => exact ⟨nofun, nofun⟩

/-- `P` holds of the failure, `Q` of the value. -/
def EitherWay (P : ε → Prop) (Q : α → Prop) : Except ε α → Prop
  | .error cause => P cause
  | .ok a => Q a

section

variable {P : ε → Prop} {Q R : α → Prop} {x : Except ε α} {cause : ε} {a : α}

/-- A failure for a cause of which `P` holds. -/
theorem EitherWay.error (h : P cause) : EitherWay P Q (.error cause) := h

/-- A result of which `Q` holds. -/
theorem EitherWay.ok (h : Q a) : EitherWay P Q (.ok a) := h

/-- What holds of the causes holds of the cause there is. -/
theorem EitherWay.of_error (h : EitherWay P Q x) (hx : x = .error cause) : P cause := by
  subst hx
  exact h

/-- What holds of the results holds of the result there is. -/
theorem EitherWay.of_ok (h : EitherWay P Q x) (hx : x = .ok a) : Q a := by
  subst hx
  exact h

/-- What is said of the results may be weakened. -/
theorem EitherWay.imp_ok (h : EitherWay P Q x) (himp : ∀ a, Q a → R a) : EitherWay P R x := by
  cases x with
  | error cause => exact h
  | ok a => exact himp a h

end

/-- A walk that maps succeeds where each step does. -/
theorem mapM_eq_ok {f : α → Except ε β} {as : List α} {bs : List β} :
    as.mapM f = .ok bs ↔ List.Forall₂ (fun a b => f a = .ok b) as bs := by
  induction as generalizing bs with
  | nil =>
    rw [List.mapM_nil, List.forall₂_nil_left_iff]
    exact ⟨fun h => (Except.ok.inj h).symm, fun h => h ▸ rfl⟩
  | cons a rest ih =>
    simp only [List.mapM_cons, bind_eq_ok, ih, List.forall₂_cons_left_iff]
    constructor
    · rintro ⟨b, hb, others, hothers, h⟩
      exact ⟨b, others, hb, hothers, (Except.ok.inj h).symm⟩
    · rintro ⟨b, others, hb, hothers, rfl⟩
      exact ⟨b, hb, others, hothers, rfl⟩

/-- Every step of a walk that succeeds does. -/
theorem exists_of_mapM_eq_ok {f : α → Except ε β} {as : List α} {bs : List β}
    (h : as.mapM f = .ok bs) {a : α} (ha : a ∈ as) : ∃ b, f a = .ok b := by
  rw [mapM_eq_ok] at h
  induction h with
  | nil => exact absurd ha List.not_mem_nil
  | cons hb _ ih =>
    obtain rfl | ha := List.mem_cons.1 ha
    · exact ⟨_, hb⟩
    · exact ih ha

/-- A walk succeeds whose every step does. -/
theorem exists_mapM_eq_ok {f : α → Except ε β} {as : List α} (h : ∀ a ∈ as, ∃ b, f a = .ok b) :
    ∃ bs, as.mapM f = .ok bs := by
  induction as with
  | nil => exact ⟨[], rfl⟩
  | cons a rest ih =>
    rw [List.forall_mem_cons] at h
    obtain ⟨b, hb⟩ := h.1
    obtain ⟨bs, hbs⟩ := ih h.2
    exact ⟨b :: bs, mapM_eq_ok.2 (.cons hb (mapM_eq_ok.1 hbs))⟩

/-- What each step that succeeds leads to is found throughout a walk that does. -/
theorem forall_of_mapM_eq_some {f : α → Option β} {P : β → Prop}
    (hf : ∀ a b, f a = some b → P b) {as : List α} {bs : List β} (h : as.mapM f = some bs) :
    ∀ b ∈ bs, P b := by
  induction as generalizing bs with
  | nil =>
    obtain rfl : [] = bs := Option.some.inj h
    exact fun _ hmem => absurd hmem List.not_mem_nil
  | cons a rest ih =>
    rw [List.mapM_cons] at h
    simp only [Option.bind_eq_bind, Option.bind_eq_some_iff] at h
    obtain ⟨b, hb, others, hothers, hbs⟩ := h
    obtain rfl : b :: others = bs := Option.some.inj hbs
    exact List.forall_mem_cons.2 ⟨hf a b hb, ih hothers⟩

/-- A test passes throughout where it passes at each place. -/
theorem allM_eq_ok_true {p : α → Except ε Bool} {as : List α} :
    as.allM p = .ok true ↔ ∀ a ∈ as, p a = .ok true := by
  induction as with
  | nil => exact ⟨fun _ _ h => absurd h List.not_mem_nil, fun _ => rfl⟩
  | cons a rest ih =>
    rw [List.allM_cons, bind_eq_ok, List.forall_mem_cons, ← ih]
    constructor
    · rintro ⟨passed, ha, hrest⟩
      cases passed with
      | true => exact ⟨ha, hrest⟩
      | false => exact absurd hrest (by nofun)
    · rintro ⟨ha, hrest⟩
      exact ⟨true, ha, hrest⟩

/-- A test that breaks off does so at some place. -/
theorem exists_of_allM_eq_error {p : α → Except ε Bool} {as : List α} {cause : ε}
    (h : as.allM p = .error cause) : ∃ a ∈ as, p a = .error cause := by
  induction as with
  | nil => exact nomatch h
  | cons a rest ih =>
    rw [List.allM_cons] at h
    obtain ha | ⟨passed, -, hrest⟩ := bind_eq_error.1 h
    · exact ⟨a, List.mem_cons_self, ha⟩
    · cases passed with
      | true =>
        obtain ⟨b, hb, hcause⟩ := ih hrest
        exact ⟨b, List.mem_cons_of_mem _ hb, hcause⟩
      | false => exact nomatch hrest

/-- The result is a value where `p` holds, and fails with `cause` where it does not. -/
structure DecidedBy (p : Prop) (cause : ε) (x : Except ε α) : Prop where
  ok : p → ∃ a, x = .ok a
  error : ¬p → x = .error cause

namespace DecidedBy

variable {p q : Prop} {cause : ε} {x : Except ε α} {y : Except ε β}

/-- A success is decided by a proposition that holds. -/
theorem value (hp : p) (a : α) : DecidedBy p cause (.ok a) :=
  ⟨fun _ => ⟨a, rfl⟩, fun hnot => absurd hp hnot⟩

/-- A failure is decided by a proposition that does not hold. -/
theorem failure (hnot : ¬p) : DecidedBy p cause (.error cause : Except ε α) :=
  ⟨fun hp => absurd hp hnot, fun _ => rfl⟩

/-- Equivalent propositions decide the same. -/
theorem congr (hpq : p ↔ q) (h : DecidedBy p cause x) : DecidedBy q cause x :=
  ⟨fun hq => h.ok (hpq.2 hq), fun hnot => h.error fun hp => hnot (hpq.1 hp)⟩

/-- The proposition holds where there is a result. -/
theorem of_ok (h : DecidedBy p cause x) {a : α} (ha : x = .ok a) : p := by
  by_contra hp
  exact nomatch ha.symm.trans (h.error hp)

/-- Changing the result leaves it to the same proposition to decide. -/
theorem map {f : α → β} (h : DecidedBy p cause x) : DecidedBy p cause (f <$> x) where
  ok hp := by
    obtain ⟨a, ha⟩ := h.ok hp
    exact ⟨f a, map_eq_ok.2 ⟨a, ha, rfl⟩⟩
  error hp := by rw [h.error hp]; rfl

/-- Two steps are decided by both of their propositions. -/
theorem bind (hx : DecidedBy p cause x) {f : α → Except ε β}
    (hf : ∀ a, DecidedBy q cause (f a)) : DecidedBy (p ∧ q) cause (x >>= f) where
  ok := by
    rintro ⟨hp, hq⟩
    obtain ⟨a, ha⟩ := hx.ok hp
    obtain ⟨b, hb⟩ := (hf a).ok hq
    exact ⟨b, bind_eq_ok.2 ⟨a, ha, hb⟩⟩
  error hnot := by
    by_cases hp : p
    · obtain ⟨a, ha⟩ := hx.ok hp
      exact bind_eq_error.2 (.inr ⟨a, ha, (hf a).error fun hq => hnot ⟨hp, hq⟩⟩)
    · exact bind_eq_error.2 (.inl (hx.error hp))

/-- A walk that maps is decided by the steps together. -/
theorem mapM {P : α → Prop} {f : α → Except ε β} {as : List α}
    (h : ∀ a ∈ as, DecidedBy (P a) cause (f a)) :
    DecidedBy (∀ a ∈ as, P a) cause (as.mapM f) := by
  induction as with
  | nil => exact ⟨fun _ => ⟨[], rfl⟩, fun hnot => absurd (fun _ h => nomatch h) hnot⟩
  | cons a rest ih =>
    rw [List.forall_mem_cons] at h ⊢
    rw [List.mapM_cons]
    exact h.1.bind fun _ => (ih h.2).map

end DecidedBy
end ThreeMove

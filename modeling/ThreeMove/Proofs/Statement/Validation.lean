/-
# What a formula is refused for

A formula is looked at three times: for gates without children, for the names of its leaves and
for their challenge spaces.  `Judged` tells the outcomes by the formula alone, the first defect
in this order being the one that is named, and `judged_ofFormula` that `ofFormula` is one of
them.  An accepted formula has a gate only over children, so its value is that of its leaves when
these agree (`Formula.holds_of_forall_eq`); and no formula ceases to hold when more is known
(`Formula.holds_mono`).
-/

import ThreeMove.Proofs.Statement.Gates

namespace ThreeMove
namespace Formula

variable {L : Type}

/-! ### Empty gates and repeated names -/

/-- At some depth there is a gate without children. -/
inductive HasEmptyGate : Formula L → Prop where
  | emptyAll : HasEmptyGate (.all [])
  | emptyAny : HasEmptyGate (.any [])
  | all {child : Formula L} {children : List (Formula L)} (hchild : child ∈ children)
      (h : HasEmptyGate child) : HasEmptyGate (.all children)
  | any {child : Formula L} {children : List (Formula L)} (hchild : child ∈ children)
      (h : HasEmptyGate child) : HasEmptyGate (.any children)

/-- An empty gate is in an `all` gate that has no children, or in one of the children. -/
theorem hasEmptyGate_all {children : List (Formula L)} :
    HasEmptyGate (.all children) ↔ children = [] ∨ ∃ child ∈ children, HasEmptyGate child := by
  constructor
  · rintro (_ | _ | ⟨hchild, h⟩ | _)
    · exact .inl rfl
    · exact .inr ⟨_, hchild, h⟩
  · rintro (rfl | ⟨child, hchild, h⟩)
    · exact .emptyAll
    · exact .all hchild h

/-- An empty gate is in an `any` gate that has no children, or in one of the children. -/
theorem hasEmptyGate_any {children : List (Formula L)} :
    HasEmptyGate (.any children) ↔ children = [] ∨ ∃ child ∈ children, HasEmptyGate child := by
  constructor
  · rintro (_ | _ | _ | ⟨hchild, h⟩)
    · exact .inl rfl
    · exact .inr ⟨_, hchild, h⟩
  · rintro (rfl | ⟨child, hchild, h⟩)
    · exact .emptyAny
    · exact .any hchild h

/-- The search for empty gates finds one just if there is one. -/
theorem hasChildlessGate_eq_true (formula : Formula L) :
    formula.hasChildlessGate = true ↔ formula.HasEmptyGate := by
  have hgate : ∀ children : List (Formula L),
      (∀ child ∈ children, child.hasChildlessGate = true ↔ child.HasEmptyGate) →
      ((children.isEmpty || anyHasChildlessGate children) = true ↔
        children = [] ∨ ∃ child ∈ children, child.HasEmptyGate) := by
    intro children ih
    rw [← Bool.not_eq_false, gate_eq_false, not_and_or, not_not, not_forall]
    refine or_congr_right (exists_congr fun child => ?_)
    rw [Classical.not_imp, Bool.not_eq_false]
    exact and_congr_right (ih child)
  induction formula using Formula.induction with
  | leaf name value => exact ⟨nofun, nofun⟩
  | all children ih => exact (hgate children ih).trans hasEmptyGate_all.symm
  | any children ih => exact (hgate children ih).trans hasEmptyGate_any.symm

/-- `name` is the last in the list that has occurred before. -/
def LastRepeated (names : List String) (name : String) : Prop :=
  ∃ before after, names = before ++ name :: after ∧ name ∈ before ∧ after.Nodup ∧
    ∀ other ∈ after, other ≠ name ∧ other ∉ before

/-- Names of which one is repeated are not all different. -/
theorem LastRepeated.not_nodup {names : List String} {name : String} (h : LastRepeated names name) :
    ¬names.Nodup := by
  obtain ⟨before, after, rfl, hseen, -⟩ := h
  exact fun hnodup => List.disjoint_of_nodup_append hnodup hseen List.mem_cons_self

/-- What is found in the rest of a list is the repetition found before, if the rest has none, or
the last one of the rest. -/
theorem of_go_eq_some {names seen : List String} {found : Option String} {name : String}
    (h : lastDuplicate?.go seen found names = some name) :
    (found = some name ∧ names.Nodup ∧ ∀ other ∈ names, other ∉ seen) ∨
      ∃ before after, names = before ++ name :: after ∧ (name ∈ before ∨ name ∈ seen) ∧
        after.Nodup ∧ ∀ other ∈ after, other ≠ name ∧ other ∉ before ∧ other ∉ seen := by
  induction names generalizing seen found with
  | nil => exact .inl ⟨h, List.nodup_nil, fun _ h => absurd h List.not_mem_nil⟩
  | cons first rest ih =>
    rcases ih h with ⟨hfound, hnodup, hnew⟩ | ⟨before, after, rfl, hseen, hnodup, hafter⟩
    · have hfirst : first ∉ rest := fun hmem => hnew first hmem List.mem_cons_self
      have hseen : ∀ other ∈ rest, other ∉ seen := fun other hother hmem =>
        hnew other hother (List.mem_cons_of_mem _ hmem)
      by_cases hmem : first ∈ seen
      · obtain rfl : first = name := by simpa [hmem] using hfound
        refine .inr ⟨[], rest, rfl, .inr hmem, hnodup, fun other hother => ?_⟩
        exact ⟨fun heq => hfirst (heq ▸ hother), List.not_mem_nil, hseen other hother⟩
      · refine .inl ⟨by simpa [hmem] using hfound, List.nodup_cons.2 ⟨hfirst, hnodup⟩, ?_⟩
        exact List.forall_mem_cons.2 ⟨hmem, hseen⟩
    · refine .inr ⟨first :: before, after, rfl, ?_, hnodup, fun other hother => ?_⟩
      · rw [List.mem_cons] at hseen ⊢
        tauto
      · obtain ⟨hne, hbefore, hnew⟩ := hafter other hother
        rw [List.mem_cons, not_or] at hnew ⊢
        exact ⟨hne, ⟨hnew.1, hbefore⟩, hnew.2⟩

/-- The repetition that is found is the last one. -/
theorem lastRepeated_of_lastDuplicate? {names : List String} {name : String}
    (h : lastDuplicate? names = some name) : LastRepeated names name := by
  rcases of_go_eq_some h with ⟨hnone, -⟩ | ⟨before, after, hnames, hseen, hnodup, hafter⟩
  · exact nomatch hnone
  · refine ⟨before, after, hnames, hseen.resolve_right List.not_mem_nil, hnodup, ?_⟩
    exact fun other hother => ⟨(hafter other hother).1, (hafter other hother).2.1⟩

/-! ### What a formula says of the known names -/

/-- A formula that holds still holds when more is known. -/
theorem holds_mono {known more : String → Bool} (hmore : ∀ name, known name = true →
    more name = true) {formula : Formula L} (h : formula.holds known = true) :
    formula.holds more = true := by
  induction formula using Formula.induction with
  | leaf name value => exact hmore name h
  | all children ih =>
    rw [holds, allHold_eq, List.all_eq_true] at h ⊢
    exact fun child hchild => ih child hchild (h child hchild)
  | any children ih =>
    rw [holds, anyHolds_eq, List.any_eq_true] at h ⊢
    obtain ⟨child, hchild, hholds⟩ := h
    exact ⟨child, hchild, ih child hchild hholds⟩

/-- Where all leaves have one value, a formula without empty gates has that value. -/
theorem holds_of_forall_eq {known : String → Bool} {value : Bool} {formula : Formula L}
    (hgates : formula.hasChildlessGate = false)
    (h : ∀ name ∈ formula.names, known name = value) : formula.holds known = value := by
  rw [names, List.forall_mem_map] at h
  refine induction_of_leaves (P := fun formula => formula.holds known = value)
    (fun _ _ hleaf => hleaf) ?all ?any hgates h
  case all =>
    intro children hne hvalue
    obtain ⟨child, hchild⟩ := List.exists_mem_of_ne_nil children hne
    rw [holds, allHold_eq]
    cases value with
    | true => exact List.all_eq_true.2 hvalue
    | false => exact List.all_eq_false.2 ⟨child, hchild, Bool.eq_false_iff.1 (hvalue child hchild)⟩
  case any =>
    intro children hne hvalue
    obtain ⟨child, hchild⟩ := List.exists_mem_of_ne_nil children hne
    rw [holds, anyHolds_eq]
    cases value with
    | true => exact List.any_eq_true.2 ⟨child, hchild, hvalue child hchild⟩
    | false => exact List.any_eq_false.2 fun child hchild =>
        Bool.eq_false_iff.1 (hvalue child hchild)

end Formula

namespace Statement

variable {G : Type} [PrimeGroup G]

/-- The leaves have one challenge space. -/
def SameSpace (gates : Formula (Statement G)) : Prop :=
  ∀ leaf ∈ gates.leaves, ∀ other ∈ gates.leaves, leaf.2.space = other.2.space

/-- The outcomes of checking a formula, in order: what is told of a later one includes that
the earlier ones do not apply. -/
inductive Judged (gates : Formula (Statement G)) : Except Error (Statement G) → Prop where
  | emptyGate (hgate : gates.HasEmptyGate) :
      Judged gates (.error (.invalidParameters "empty AND/OR gate"))
  | repeated (hgate : ¬gates.HasEmptyGate) {name : String}
      (hname : Formula.LastRepeated gates.names name) :
      Judged gates (.error (.invalidParameters ("duplicate leaf name " ++ quoted name)))
  | mismatch (hgate : ¬gates.HasEmptyGate) (hnames : gates.names.Nodup)
      (hspace : ¬SameSpace gates) : Judged gates (.error .challengeSpaceMismatch)
  | built (hgate : ¬gates.HasEmptyGate) (hnames : gates.names.Nodup) (space : ChallengeSpace)
      (hspace : ∀ leaf ∈ gates.leaves, leaf.2.space = space) :
      Judged gates (.ok (.formula space gates))

/-- Building a formula judges it by its gates, names and spaces. -/
theorem judged_ofFormula (gates : Formula (Statement G)) : Judged gates (ofFormula gates) := by
  rw [ofFormula]
  split
  · rename_i hgate
    exact .emptyGate (gates.hasChildlessGate_eq_true.1 hgate)
  · rename_i hgate
    have hempty : ¬gates.HasEmptyGate := fun h => hgate (gates.hasChildlessGate_eq_true.2 h)
    split
    · rename_i name hname
      exact .repeated hempty (Formula.lastRepeated_of_lastDuplicate? hname)
    · rename_i hnone
      have hnames := Formula.nodup_of_lastDuplicate? hnone
      split
      · rename_i hleaves
        exact absurd hleaves (Formula.leaves_ne_nil (Bool.eq_false_iff.2 hgate))
      · rename_i name first rest hleaves
        split
        · rename_i hspace
          refine .built hempty hnames first.space ?_
          rw [hleaves]
          exact List.forall_mem_cons.2 ⟨rfl, hspace⟩
        · rename_i hspace
          refine .mismatch hempty hnames fun hsame => hspace fun leaf hleaf => ?_
          rw [SameSpace, hleaves] at hsame
          exact hsame leaf (List.mem_cons_of_mem _ hleaf) (name, first) List.mem_cons_self

/-- No name is quoted by the text for a formula without leaves. -/
theorem duplicate_ne_without (name : String) :
    "duplicate leaf name " ++ quoted name ≠ "formula without leaves" := by
  intro h
  have hchars := congrArg String.toList h
  rw [String.toList_append] at hchars
  exact absurd (List.cons.inj hchars).1 (by decide)

/-- **A formula is refused for the first of its defects, and for nothing else.**  It is built
just if no gate at any depth is empty, no name is repeated and the leaves have one challenge
space.  An empty gate or a repeated name is a wrong parameter, whatever the spaces are, and with
neither of them different spaces are a mismatch; that there are no leaves is never told, since a
formula without leaves has an empty gate.  Knowing more never invalidates a formula.  One that
was built holds when all of its names are known, and not when none is. -/
theorem validation_exact (gates : Formula (Statement G)) :
    ((∃ s, ofFormula gates = .ok s) ↔
      ¬gates.HasEmptyGate ∧ gates.names.Nodup ∧ SameSpace gates) ∧
    ((∃ text, ofFormula gates = .error (.invalidParameters text)) ↔
      gates.HasEmptyGate ∨ ¬gates.names.Nodup) ∧
    (ofFormula gates = .error .challengeSpaceMismatch ↔
      ¬gates.HasEmptyGate ∧ gates.names.Nodup ∧ ¬SameSpace gates) ∧
    ofFormula gates ≠ .error (.invalidParameters "formula without leaves") ∧
    (∀ known more : String → Bool, (∀ name, known name = true → more name = true) →
      gates.holds known = true → gates.holds more = true) ∧
    ∀ s, ofFormula gates = .ok s → ∀ known : String → Bool,
      ((∀ name ∈ gates.names, known name = true) → gates.holds known = true) ∧
        ((∀ name ∈ gates.names, known name = false) → gates.holds known = false) := by
  have hmono : ∀ known more : String → Bool, (∀ name, known name = true → more name = true) →
      gates.holds known = true → gates.holds more = true :=
    fun _ _ hmore h => Formula.holds_mono hmore h
  have hjudged := judged_ofFormula gates
  generalize ofFormula gates = outcome at hjudged ⊢
  cases hjudged with
  | emptyGate hgate =>
    exact ⟨by simp [hgate], by simp [hgate], by simp [hgate], by simp, hmono, nofun⟩
  | repeated hgate hname =>
    have hnames := hname.not_nodup
    exact ⟨by simp [hnames], by simp [hnames], by simp [hnames],
      by simpa using duplicate_ne_without _, hmono, nofun⟩
  | mismatch hgate hnames hspace =>
    exact ⟨by simp [hspace], by simp [hgate, hnames], by simp [hgate, hnames, hspace], by simp,
      hmono, nofun⟩
  | built hgate hnames space hspace =>
    have hsame : SameSpace gates := fun leaf hleaf other hother =>
      (hspace leaf hleaf).trans (hspace other hother).symm
    have hgates : gates.hasChildlessGate = false :=
      Bool.eq_false_iff.2 fun h => hgate (gates.hasChildlessGate_eq_true.1 h)
    exact ⟨by simp [hgate, hnames, hsame], by simp [hgate, hnames], by simp [hsame], by simp,
      hmono, fun s _ known =>
        ⟨Formula.holds_of_forall_eq hgates, Formula.holds_of_forall_eq hgates⟩⟩

/-- The hypotheses are satisfiable: the formula of `sixOrSeven` is built, it holds where one name
and so where every name is known, and where its names and no others are known, but not where no
name is. -/
theorem validation_exact_sixOrSeven :
    ∃ gates : Formula (Statement Ristretto), ofFormula gates = .ok sixOrSeven ∧
      gates.holds (· == "seven") = true ∧ gates.holds (fun _ => true) = true ∧
      gates.holds (["six", "seven"].contains ·) = true ∧ gates.holds (fun _ => false) = false := by
  have hbuilt : ofFormula (.any [.leaf "six" (.modP six), .leaf "seven" (.modP seven)]) =
      .ok sixOrSeven := rfl
  obtain ⟨-, -, -, -, hmono, hvalue⟩ := validation_exact (G := Ristretto)
    (.any [.leaf "six" (.modP six), .leaf "seven" (.modP seven)])
  refine ⟨_, hbuilt, rfl, hmono (· == "seven") _ (fun _ _ => rfl) rfl, ?_, ?_⟩
  · exact (hvalue sixOrSeven hbuilt _).1 (by decide)
  · exact (hvalue sixOrSeven hbuilt _).2 fun _ _ => rfl

/-- Of several defects at different depths the empty gate is told. -/
example : ofFormula (.any [.leaf "x" (.modP six), .all [.leaf "x" (.discreteLog two), .all []]]) =
    .error (.invalidParameters "empty AND/OR gate") := rfl

end Statement
end ThreeMove

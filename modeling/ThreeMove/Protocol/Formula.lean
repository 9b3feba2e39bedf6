/-
# Monotone formulas

A formula of named leaves under gates that ask for all or for any of their
children.  Leaves carry a value, for instance the statement they stand for.
-/

import ThreeMove.Table

namespace ThreeMove

/-- A monotone formula with named leaves. Source: `PartialKnowledge`. -/
inductive Formula (L : Type) where
  | leaf (name : String) (value : L)
  | all (children : List (Formula L))
  | any (children : List (Formula L))

namespace Formula

variable {L : Type}

mutual

/-- The leaves from left to right, by name and value. Source: `collect_leaves`. -/
def leaves : Formula L → List (String × L)
  | .leaf name value => [(name, value)]
  | .all children => leavesOf children
  | .any children => leavesOf children

/-- The leaves of formulas one after another. -/
def leavesOf : List (Formula L) → List (String × L)
  | [] => []
  | child :: rest => child.leaves ++ leavesOf rest

end

/-- The names of the leaves from left to right. Source: `leaf_names`. -/
def names (formula : Formula L) : List String := formula.leaves.map Prod.fst

mutual

/-- Whether the formula holds where exactly the leaves with `known` names hold.
Source: `is_satisfied_by`. -/
def holds : Formula L → (known : String → Bool) → Bool
  | .leaf name _, known => known name
  | .all children, known => allHold children known
  | .any children, known => anyHolds children known

/-- Whether every one of the formulas holds. -/
def allHold : List (Formula L) → (known : String → Bool) → Bool
  | [], _ => true
  | child :: rest, known => child.holds known && allHold rest known

/-- Whether one of the formulas holds. -/
def anyHolds : List (Formula L) → (known : String → Bool) → Bool
  | [], _ => false
  | child :: rest, known => child.holds known || anyHolds rest known

end

mutual

/-- Whether some gate has no children. Source: `has_empty_gate`. -/
def hasChildlessGate : Formula L → Bool
  | .leaf _ _ => false
  | .all children => children.isEmpty || anyHasChildlessGate children
  | .any children => children.isEmpty || anyHasChildlessGate children

/-- Whether one of the formulas has a gate without children. -/
def anyHasChildlessGate : List (Formula L) → Bool
  | [] => false
  | child :: rest => child.hasChildlessGate || anyHasChildlessGate rest

end

/-- The last name that has occurred before it in the list. -/
def lastDuplicate? (names : List String) : Option String :=
  go [] none names
where
  /-- Walks the list with the names seen so far and the last repetition. -/
  go : (seen : List String) → (found : Option String) → List String → Option String
    | _, found, [] => found
    | seen, found, name :: rest =>
      go (name :: seen) (if seen.contains name then some name else found) rest

/-- All formulas hold if each does. -/
theorem allHold_eq (children : List (Formula L)) (known : String → Bool) :
    allHold children known = children.all (·.holds known) := by
  induction children with
  | nil => rfl
  | cons child rest ih => simp [allHold, ih]

/-- Some formula holds if one does. -/
theorem anyHolds_eq (children : List (Formula L)) (known : String → Bool) :
    anyHolds children known = children.any (·.holds known) := by
  induction children with
  | nil => rfl
  | cons child rest ih => simp [anyHolds, ih]

end Formula
end ThreeMove

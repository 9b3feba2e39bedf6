/-
# Induction over formulas

The children of a gate form a list, so the principle that comes with the type
speaks of lists as well.  `Formula.induction` gives a gate its hypothesis for
every child.  The functions that walk the children of a gate are told as those of
`List`.  Where no gate is empty, `Formula.induction_of_leaves` also gives a gate that it has a
child, and a leaf what is known of all leaves.
-/

import ThreeMove.Protocol.Formula
import Mathlib.Data.List.Basic

namespace ThreeMove
namespace Formula

variable {L : Type}

/-- A property of the leaves that passes from the children of a gate to the gate
holds of every formula. -/
theorem induction {P : Formula L → Prop} (leaf : ∀ name value, P (.leaf name value))
    (all : ∀ children, (∀ child ∈ children, P child) → P (.all children))
    (any : ∀ children, (∀ child ∈ children, P child) → P (.any children)) :
    ∀ formula, P formula := by
  intro formula
  refine Formula.rec (motive_1 := P) (motive_2 := fun children => ∀ child ∈ children, P child)
    leaf all any ?nil ?cons formula
  case nil => exact fun _ h => absurd h List.not_mem_nil
  case cons => exact fun child rest hchild hrest => List.forall_mem_cons.2 ⟨hchild, hrest⟩

/-- The leaves of children are those of each in order. -/
theorem leavesOf_eq (children : List (Formula L)) :
    leavesOf children = children.flatMap leaves := by
  induction children with
  | nil => rfl
  | cons child rest ih => rw [leavesOf, ih, List.flatMap_cons]

/-- The leaves of a gate are those of its children. -/
theorem forall_mem_leavesOf {children : List (Formula L)} {P : String × L → Prop} :
    (∀ leaf ∈ leavesOf children, P leaf) ↔ ∀ child ∈ children, ∀ leaf ∈ child.leaves, P leaf := by
  rw [leavesOf_eq]
  simp only [List.mem_flatMap]
  exact ⟨fun h child hchild leaf hleaf => h leaf ⟨child, hchild, hleaf⟩,
    fun h leaf ⟨child, hchild, hleaf⟩ => h child hchild leaf hleaf⟩

/-- No child has a gate without children exactly where each has none. -/
theorem anyHasChildlessGate_eq_false {children : List (Formula L)} :
    anyHasChildlessGate children = false ↔ ∀ child ∈ children, child.hasChildlessGate = false := by
  induction children with
  | nil => exact ⟨fun _ _ h => absurd h List.not_mem_nil, fun _ => rfl⟩
  | cons child rest ih =>
    rw [anyHasChildlessGate, Bool.or_eq_false_iff, ih, List.forall_mem_cons]

/-- A gate and its children have children. -/
theorem gate_eq_false {children : List (Formula L)} :
    (children.isEmpty || anyHasChildlessGate children) = false ↔
      children ≠ [] ∧ ∀ child ∈ children, child.hasChildlessGate = false := by
  rw [Bool.or_eq_false_iff, anyHasChildlessGate_eq_false, List.isEmpty_eq_false_iff]

/-- A property that leaves with some `Q` have and that passes from the children of a gate to the
gate, as there is a child, holds of every formula without empty gates whose leaves have `Q`. -/
theorem induction_of_leaves {P : Formula L → Prop} {Q : String × L → Prop}
    (leaf : ∀ name value, Q (name, value) → P (.leaf name value))
    (all : ∀ children, children ≠ [] → (∀ child ∈ children, P child) → P (.all children))
    (any : ∀ children, children ≠ [] → (∀ child ∈ children, P child) → P (.any children))
    {formula : Formula L} (hgates : formula.hasChildlessGate = false)
    (hleaves : ∀ leaf ∈ formula.leaves, Q leaf) : P formula := by
  have hgate : ∀ children : List (Formula L),
      (∀ child ∈ children, child.hasChildlessGate = false → (∀ leaf ∈ child.leaves, Q leaf) →
        P child) →
      (children.isEmpty || anyHasChildlessGate children) = false →
      (∀ leaf ∈ leavesOf children, Q leaf) → children ≠ [] ∧ ∀ child ∈ children, P child := by
    intro children ih hchildren hleaves
    obtain ⟨hne, hgates⟩ := gate_eq_false.1 hchildren
    rw [forall_mem_leavesOf] at hleaves
    exact ⟨hne, fun child hchild => ih child hchild (hgates child hchild) (hleaves child hchild)⟩
  induction formula using Formula.induction with
  | leaf name value => exact leaf name value (hleaves _ (List.mem_singleton_self _))
  | all children ih =>
    obtain ⟨hne, hchildren⟩ := hgate children ih hgates hleaves
    exact all children hne hchildren
  | any children ih =>
    obtain ⟨hne, hchildren⟩ := hgate children ih hgates hleaves
    exact any children hne hchildren

end Formula
end ThreeMove

/-
# Outlines of statements

The outline of a statement is what is left of it when it is forgotten how gates were made: a
conjunction is an `all` gate and a disjunction an `any` gate like those of formulas, and
what remains of a formula's leaves is a name before a statement (`Statement.outline`).

Of a protocol an outline says how it is named and which messages and transcripts its
verifier takes (`Outline.Describes`): a protocol has the identifier and the label of its
outline (`Describes.name_eq`), and protocols with one outline agree (`Describes.agrees`).
The protocol of a statement that can be built is described by the statement's outline
(`Accepted.describes`).
-/

import ThreeMove.Proofs.Statement.Gates

namespace ThreeMove

open Protocol

/-- A statement up to how its gates were made. -/
inductive Outline (G : Type) [PrimeGroup G] where
  | modP (statement : ModP)
  | discreteLog (statement : DiscreteLog G)
  | named (name : String) (inner : Outline G)
  | all (parts : List (Outline G))
  | any (parts : List (Outline G))
  | sealed (scheme : HashCommitment) (inner : Outline G)

variable {G : Type} [PrimeGroup G]

namespace Outline

mutual

/-- What names the kind of statement. -/
def identifier : Outline G → Bytes
  | .modP s => (s.protocol (G := G)).identifier
  | .discreteLog s => s.protocol.identifier
  | .named _ inner => gateIdentifier 0 [inner.identifier]
  | .all parts => gateIdentifier 1 (identifiers parts)
  | .any parts => gateIdentifier 2 (identifiers parts)
  | .sealed _ inner => frameAll [Bytes.ofText "sigma-compose/damgard", inner.identifier]

/-- The identifiers of outlines in order. -/
def identifiers : List (Outline G) → List Bytes
  | [] => []
  | part :: rest => part.identifier :: identifiers rest

end

mutual

/-- What names the statement among those of its kind. -/
def label : Outline G → Bytes
  | .modP s => (s.protocol (G := G)).label
  | .discreteLog s => s.protocol.label
  | .named name inner => frameAll [Bytes.ofText name, inner.label]
  | .all parts => frameAll (labels parts)
  | .any parts => frameAll (labels parts)
  | .sealed _ inner => inner.label

/-- The labels of outlines in order. -/
def labels : List (Outline G) → List Bytes
  | [] => []
  | part :: rest => part.label :: labels rest

end

/-- The identifiers of the parts are taken one by one. -/
theorem identifiers_eq (parts : List (Outline G)) : identifiers parts = parts.map identifier := by
  induction parts with
  | nil => rfl
  | cons part rest ih => rw [identifiers, ih, List.map_cons]

/-- The labels of the parts are taken one by one. -/
theorem labels_eq (parts : List (Outline G)) : labels parts = parts.map label := by
  induction parts with
  | nil => rfl
  | cons part rest ih => rw [labels, ih, List.map_cons]

/-- A property that passes from the parts of an outline to the outline holds of every
outline. -/
theorem induction {P : Outline G → Prop} (modP : ∀ s, P (.modP s))
    (discreteLog : ∀ s, P (.discreteLog s))
    (named : ∀ name inner, P inner → P (.named name inner))
    (all : ∀ parts, (∀ part ∈ parts, P part) → P (.all parts))
    (any : ∀ parts, (∀ part ∈ parts, P part) → P (.any parts))
    (sealed : ∀ scheme inner, P inner → P (.sealed scheme inner)) : ∀ o, P o := by
  intro o
  refine Outline.rec (motive_1 := P) (motive_2 := fun parts => ∀ part ∈ parts, P part)
    modP discreteLog named all any sealed ?nil ?cons o
  case nil => exact fun _ h => absurd h List.not_mem_nil
  case cons => exact fun part rest hpart hrest => List.forall_mem_cons.2 ⟨hpart, hrest⟩

/-- The protocol is named as the outline says, and takes the messages and the transcripts
that it says. -/
inductive Describes : Outline G → Protocol G → Prop where
  | modP (s : ModP) : Describes (.modP s) s.protocol
  | discreteLog (s : DiscreteLog G) : Describes (.discreteLog s) s.protocol
  | named (name : String) {inner : Outline G} {p : Protocol G} (h : Describes inner p) :
      Describes (.named name inner) (FormulaProof.protocol p.space (.leaf name p))
  | all {os : List (Outline G)} {parts : List (Protocol G)} {p : Protocol G}
      (hparts : List.Forall₂ Describes os parts) (h : AllOf parts p) : Describes (.all os) p
  | any {os : List (Outline G)} {parts : List (Protocol G)} {p : Protocol G}
      (hparts : List.Forall₂ Describes os parts) (h : AnyOf parts p) : Describes (.any os) p
  | sealed (scheme : HashCommitment) {inner : Outline G} {p : Protocol G}
      (h : Describes inner p) : Describes (.sealed scheme inner) (Sealed.protocol scheme p)

/-- What outlines settle of single protocols they settle of rows. -/
theorem map_eq_of_describes {β : Type} {os : List (Outline G)} {parts : List (Protocol G)}
    {f : Outline G → β} {g : Protocol G → β} (hparts : List.Forall₂ Describes os parts)
    (h : ∀ o ∈ os, ∀ {p}, o.Describes p → g p = f o) : parts.map g = os.map f := by
  induction hparts with
  | nil => rfl
  | cons hpart _ ih =>
    obtain ⟨hfirst, hrest⟩ := List.forall_mem_cons.1 h
    rw [List.map_cons, List.map_cons, hfirst hpart, ih hrest]

/-- A protocol that an outline describes is named like the outline. -/
theorem Describes.name_eq {o : Outline G} {p : Protocol G} (h : o.Describes p) :
    p.identifier = o.identifier ∧ p.label = o.label := by
  induction o using Outline.induction generalizing p with
  | modP s =>
    cases h
    exact ⟨rfl, rfl⟩
  | discreteLog s =>
    cases h
    exact ⟨rfl, rfl⟩
  | named name inner ih =>
    cases h with
    | named _ h =>
      obtain ⟨hidentifier, hlabel⟩ := ih h
      exact ⟨congrArg (fun part => gateIdentifier 0 [part]) hidentifier,
        congrArg (fun part => frameAll [Bytes.ofText name, part]) hlabel⟩
  | all os ih =>
    cases h with
    | all hparts h =>
      rw [h.identifier, h.label, identifier, label, identifiers_eq, labels_eq,
        map_eq_of_describes hparts fun o ho _ hp => (ih o ho hp).1,
        map_eq_of_describes hparts fun o ho _ hp => (ih o ho hp).2]
      exact ⟨rfl, rfl⟩
  | any os ih =>
    cases h with
    | any hparts h =>
      rw [h.identifier, h.label, identifier, label, identifiers_eq, labels_eq,
        map_eq_of_describes hparts fun o ho _ hp => (ih o ho hp).1,
        map_eq_of_describes hparts fun o ho _ hp => (ih o ho hp).2]
      exact ⟨rfl, rfl⟩
  | sealed scheme inner ih =>
    cases h with
    | sealed _ h =>
      obtain ⟨hidentifier, hlabel⟩ := ih h
      exact ⟨congrArg (fun part => frameAll [Bytes.ofText "sigma-compose/damgard", part])
        hidentifier, hlabel⟩

/-- Protocols in a row that are described alike agree one by one. -/
theorem forall₂_agrees_of_describes {os : List (Outline G)} {parts others : List (Protocol G)}
    (hparts : List.Forall₂ Describes os parts) (hothers : List.Forall₂ Describes os others)
    (h : ∀ o ∈ os, ∀ {p q}, o.Describes p → o.Describes q → p.Agrees q) :
    List.Forall₂ Agrees parts others := by
  induction hparts generalizing others with
  | nil =>
    cases hothers
    exact .nil
  | cons hpart _ ih =>
    cases hothers with
    | cons hother hothers =>
      obtain ⟨hfirst, hrest⟩ := List.forall_mem_cons.1 h
      exact .cons (hfirst hpart hother) (ih hothers hrest)

/-- What one outline describes agrees. -/
theorem Describes.agrees {o : Outline G} {p q : Protocol G} (hp : o.Describes p)
    (hq : o.Describes q) : p.Agrees q := by
  induction o using Outline.induction generalizing p q with
  | modP s =>
    cases hp
    cases hq
    exact .refl _
  | discreteLog s =>
    cases hp
    cases hq
    exact .refl _
  | named name inner ih =>
    cases hp with
    | named _ hp =>
      cases hq with
      | named _ hq =>
        have hinner := ih hp hq
        rw [hinner.space]
        exact FormulaProof.agrees_leaf name name hinner
  | all os ih =>
    cases hp with
    | all hparts hp =>
      cases hq with
      | all hothers hq => exact hp.agrees hq (forall₂_agrees_of_describes hparts hothers ih)
  | any os ih =>
    cases hp with
    | any hparts hp =>
      cases hq with
      | any hothers hq => exact hp.agrees hq (forall₂_agrees_of_describes hparts hothers ih)
  | sealed scheme inner ih =>
    cases hp with
    | sealed _ hp =>
      cases hq with
      | sealed _ hq => exact Sealed.agrees scheme (ih hp hq)

end Outline

namespace Statement

mutual

/-- What is left of a statement when it is forgotten how its gates were made. -/
def outline : Statement G → Outline G
  | .modP s => .modP s
  | .discreteLog s => .discreteLog s
  | .conjunction first rest => .all (first.outline :: outlines rest)
  | .disjunction left right => .any [left.outline, right.outline]
  | .formula _ gates => formulaOutline gates
  | .sealed scheme inner => .sealed scheme inner.outline

/-- The outlines of statements in order. -/
def outlines : List (Statement G) → List (Outline G)
  | [] => []
  | s :: rest => s.outline :: outlines rest

/-- The outline of a formula, whatever the space. -/
def formulaOutline : Formula (Statement G) → Outline G
  | .leaf name s => .named name s.outline
  | .all children => .all (formulasOutlines children)
  | .any children => .any (formulasOutlines children)

/-- The outlines of formulas in order. -/
def formulasOutlines : List (Formula (Statement G)) → List (Outline G)
  | [] => []
  | child :: rest => formulaOutline child :: formulasOutlines rest

end

/-- The parts are outlined one by one. -/
theorem outlines_eq (parts : List (Statement G)) : outlines parts = parts.map outline := by
  induction parts with
  | nil => rfl
  | cons part rest ih => rw [outlines, ih, List.map_cons]

/-- The children are outlined one by one. -/
theorem formulasOutlines_eq (children : List (Formula (Statement G))) :
    formulasOutlines children = children.map formulaOutline := by
  induction children with
  | nil => rfl
  | cons child rest ih => rw [formulasOutlines, ih, List.map_cons]

/-- The outlines of the parts describe their protocols. -/
theorem forall₂_describes {parts : List (Statement G)}
    (h : ∀ part ∈ parts, part.outline.Describes part.protocol) :
    List.Forall₂ Outline.Describes (parts.map outline) (parts.map protocol) :=
  List.forall₂_map_left_iff.2 (List.forall₂_map_right_iff.2 (List.forall₂_same.2 h))

/-- A formula without empty gates is described if its leaves are and share its space. -/
theorem describes_formula {space : ChallengeSpace} {gates : Formula (Statement G)}
    (hinhabited : gates.hasChildlessGate = false)
    (hspace : ∀ leaf ∈ gates.leaves, leaf.2.space = space)
    (hleaves : ∀ leaf ∈ gates.leaves, leaf.2.outline.Describes leaf.2.protocol) :
    (formula space gates).outline.Describes (formula space gates).protocol := by
  -- Under either gate the outlines of the children describe them in order.
  have hgate : ∀ children : List (Formula (Statement G)),
      (∀ child ∈ children,
        (formula space child).outline.Describes (formula space child).protocol) →
      List.Forall₂ Outline.Describes (formulasOutlines children)
        ((children.map (formula space)).map protocol) := by
    intro children hchildren
    have hdescribes := forall₂_describes (List.forall_mem_map.2 hchildren)
    rw [List.map_map] at hdescribes
    rw [formulasOutlines_eq]
    exact hdescribes
  refine Formula.induction_of_leaves
    (P := fun gates => (formula space gates).outline.Describes (formula space gates).protocol)
    (Q := fun leaf => leaf.2.space = space ∧ leaf.2.outline.Describes leaf.2.protocol)
    ?leaf ?all ?any hinhabited fun leaf hleaf => ⟨hspace leaf hleaf, hleaves leaf hleaf⟩
  case leaf =>
    rintro name s ⟨rfl, hdescribes⟩
    rw [← space_protocol]
    exact .named name hdescribes
  case all =>
    exact fun children hne hchildren => .all (hgate children hchildren) (formula_allOf hne)
  case any =>
    exact fun children hne hchildren => .any (hgate children hchildren) (formula_anyOf hne)

/-- The outline of a statement that can be built describes its protocol. -/
theorem Accepted.describes {s : Statement G} (h : s.Accepted) : s.outline.Describes s.protocol := by
  induction h with
  | modP s => exact .modP s
  | discreteLog s => exact .discreteLog s
  | allOf h hparts ih =>
    have hall := allOf_protocol h
    obtain ⟨first, rest, rfl, rfl, -⟩ := allOf_eq_ok h
    rw [outline, outlines_eq]
    exact .all (forall₂_describes ih) hall
  | anyOf h hleft hright ihleft ihright =>
    have hany := anyOf_protocol h
    obtain ⟨rfl, -⟩ := anyOf_eq_ok h
    exact .any (.cons ihleft (.cons ihright .nil)) hany
  | ofFormula h hleaves ih =>
    obtain ⟨space, rfl, hgates⟩ := ofFormula_eq_ok h
    exact describes_formula hgates.inhabited hgates.space_eq ih
  | sealedBy scheme hinner ih => exact .sealed scheme ih

end Statement
end ThreeMove

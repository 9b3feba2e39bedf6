/-
# Leaves at which two transcripts differ

Two transcripts of a formula with one announcement, accepted for challenges that
differ, differ in the challenges of leaves that satisfy the formula
(`holds_of_challenges`).  A gate that asks for all hands the challenge on, and a
gate that asks for any splits it: shares that agree throughout are shares of
challenges that agree (`ChallengeSpace.modEq_of_shares`).
-/

import ThreeMove.Proofs.Challenge.Shares
import ThreeMove.Proofs.Statement.Parts
import ThreeMove.Proofs.Table

namespace ThreeMove

namespace Statement

open FormulaProof (leafTranscripts leafTranscriptsEach)

variable {G : Type} [PrimeGroup G] {space : ChallengeSpace}

/-- Names of leaves whose challenges differ are among the `known` ones. -/
def Differing (space : ChallengeSpace) (known : String → Bool)
    (entries entries' : List (String × Statement G × Transcript G)) : Prop :=
  ∀ entry ∈ entries, ∀ entry' ∈ entries', entry.1 = entry'.1 →
    ¬ entry.2.2.challenge ≡ entry'.2.2.challenge [MOD space.modulus] → known entry.1 = true

/-- Where the leaves that differ in two parts are known, those of each part are. -/
theorem Differing.of_append {known : String → Bool}
    {front front' back back' : List (String × Statement G × Transcript G)}
    (h : Differing space known (front ++ back) (front' ++ back')) :
    Differing space known front front' ∧ Differing space known back back' :=
  ⟨fun entry hentry entry' hentry' =>
      h entry (List.mem_append_left _ hentry) entry' (List.mem_append_left _ hentry'),
    fun entry hentry entry' hentry' =>
      h entry (List.mem_append_right _ hentry) entry' (List.mem_append_right _ hentry')⟩

/-- Of two transcripts with one announcement that are accepted for challenges that
differ, the leaves whose challenges differ satisfy the formula. -/
def Distinguishes (space : ChallengeSpace) (gates : Formula (Statement G)) : Prop :=
  ∀ {a : Announcement G} {c c' : Nat} {r r' : Response G} {known : String → Bool},
    FormulaProof.check space (formulaProtocols gates) a c r = .ok true →
    FormulaProof.check space (formulaProtocols gates) a c' r' = .ok true →
    ¬ c ≡ c' [MOD space.modulus] →
    Differing space known (leafTranscripts space gates a c r)
      (leafTranscripts space gates a c' r') → gates.holds known = true

/-- The announcements at the leaves, by name. -/
def announced (entries : List (String × Statement G × Transcript G)) :
    List (String × Announcement G) :=
  entries.map fun entry => (entry.1, entry.2.2.announcement)

section Children

variable {children : List (Formula (Statement G))} {as : List (Announcement G)}
  {cs cs' : List Nat} {rs rs' : List (Response G)} {known : String → Bool}

/-- Where all children get other challenges, all of them hold. -/
theorem allHold_of_challenges (h : CheckedEach space children as cs rs)
    (h' : CheckedEach space children as cs' rs')
    (ih : ∀ child ∈ children, Distinguishes space child)
    (hcs : List.Forall₂ (fun c c' => ¬ c ≡ c' [MOD space.modulus]) cs cs')
    (hknown : Differing space known (leafTranscriptsEach space children as cs rs)
      (leafTranscriptsEach space children as cs' rs')) :
    Formula.allHold children known = true := by
  induction h generalizing cs' rs' with
  | nil => rfl
  | cons hchild _ ihrest =>
    cases h' with
    | cons hchild' hrest' =>
      rw [List.forall_mem_cons] at ih
      rw [List.forall₂_cons] at hcs
      obtain ⟨hfirst, hothers⟩ := hknown.of_append
      rw [Formula.allHold, Bool.and_eq_true]
      exact ⟨ih.1 hchild hchild' hcs.1 hfirst, ihrest hrest' ih.2 hcs.2 hothers⟩

/-- Where some child gets another challenge, one of them holds. -/
theorem anyHolds_of_challenges (h : CheckedEach space children as cs rs)
    (h' : CheckedEach space children as cs' rs')
    (ih : ∀ child ∈ children, Distinguishes space child)
    (hcs : ¬ List.Forall₂ (fun c c' => c ≡ c' [MOD space.modulus]) cs cs')
    (hknown : Differing space known (leafTranscriptsEach space children as cs rs)
      (leafTranscriptsEach space children as cs' rs')) :
    Formula.anyHolds children known = true := by
  induction h generalizing cs' rs' with
  | nil =>
    cases h' with
    | nil => exact absurd .nil hcs
  | @cons child a c r children as cs rs hchild _ ihrest =>
    cases h' with
    | @cons _ _ c' r' _ _ cs' rs' hchild' hrest' =>
      rw [List.forall_mem_cons] at ih
      rw [List.forall₂_cons] at hcs
      obtain ⟨hfirst, hothers⟩ := hknown.of_append
      rw [Formula.anyHolds, Bool.or_eq_true]
      by_cases hc : c ≡ c' [MOD space.modulus]
      · exact .inr (ihrest hrest' ih.2 (fun hrest => hcs ⟨hc, hrest⟩) hothers)
      · exact .inl (ih.1 hchild hchild' hc hfirst)

/-- Where each child has one announcement at its leaves, so have all of them together. -/
theorem announced_of_checkedEach (h : CheckedEach space children as cs rs)
    (h' : CheckedEach space children as cs' rs')
    (ih : ∀ child ∈ children, ∀ {a c c' r r'},
      FormulaProof.check space (formulaProtocols child) a c r = .ok true →
      FormulaProof.check space (formulaProtocols child) a c' r' = .ok true →
      announced (leafTranscripts space child a c r) =
        announced (leafTranscripts space child a c' r')) :
    announced (leafTranscriptsEach space children as cs rs) =
      announced (leafTranscriptsEach space children as cs' rs') := by
  induction h generalizing cs' rs' with
  | nil =>
    cases h' with
    | nil => rfl
  | cons hchild _ ihrest =>
    cases h' with
    | cons hchild' hrest' =>
      rw [List.forall_mem_cons] at ih
      have hfirst := ih.1 hchild hchild'
      have hothers := ihrest hrest' ih.2
      unfold announced at hfirst hothers ⊢
      rw [leafTranscriptsEach, leafTranscriptsEach, List.map_append, List.map_append, hfirst,
        hothers]

end Children

/-- **The leaves whose challenges differ satisfy the formula.**  At a gate that asks
for all, the challenges of all children differ; at a gate that asks for any, those
of some child do, as the shares add up to the challenge. -/
theorem holds_of_challenges (gates : Formula (Statement G)) : Distinguishes space gates := by
  induction gates using Formula.induction with
  | leaf name s =>
    intro a c c' r r' known h h' hc hknown
    obtain ⟨a, r, rfl, rfl, -⟩ := FormulaProof.of_check_leaf h
    obtain ⟨_, r', ⟨⟩, rfl, -⟩ := FormulaProof.of_check_leaf h'
    exact hknown _ (List.mem_singleton_self _) _ (List.mem_singleton_self _) rfl hc
  | all children ih =>
    intro a c c' r r' known h h' hc hknown
    obtain ⟨as, rs, rfl, rfl, hchecked⟩ := of_check_all h
    obtain ⟨_, rs', ⟨⟩, rfl, hchecked'⟩ := of_check_all h'
    refine allHold_of_challenges hchecked hchecked' ih ?_ hknown
    rw [List.forall₂_map_left_iff, List.forall₂_map_right_iff]
    exact List.forall₂_same.2 fun _ _ => hc
  | any children ih =>
    intro a c c' r r' known h h' hc hknown
    obtain ⟨as, shares, rs, rfl, rfl, hchecked⟩ := of_check_any h
    obtain ⟨_, shares', rs', ⟨⟩, rfl, hchecked'⟩ := of_check_any h'
    exact anyHolds_of_challenges hchecked hchecked' ih
      (fun hshares => hc (space.modEq_of_shares hshares)) hknown

/-- Accepted transcripts with one announcement have the same announcements at the
leaves. -/
theorem announced_of_check {gates : Formula (Statement G)} {a : Announcement G} {c c' : Nat}
    {r r' : Response G}
    (h : FormulaProof.check space (formulaProtocols gates) a c r = .ok true)
    (h' : FormulaProof.check space (formulaProtocols gates) a c' r' = .ok true) :
    announced (leafTranscripts space gates a c r) =
      announced (leafTranscripts space gates a c' r') := by
  induction gates using Formula.induction generalizing a c c' r r' with
  | leaf name s =>
    obtain ⟨a, r, rfl, rfl, -⟩ := FormulaProof.of_check_leaf h
    obtain ⟨_, r', ⟨⟩, rfl, -⟩ := FormulaProof.of_check_leaf h'
    rfl
  | all children ih =>
    obtain ⟨as, rs, rfl, rfl, hchecked⟩ := of_check_all h
    obtain ⟨_, rs', ⟨⟩, rfl, hchecked'⟩ := of_check_all h'
    exact announced_of_checkedEach hchecked hchecked' fun child hchild => ih child hchild
  | any children ih =>
    obtain ⟨as, shares, rs, rfl, rfl, hchecked⟩ := of_check_any h
    obtain ⟨_, shares', rs', ⟨⟩, rfl, hchecked'⟩ := of_check_any h'
    exact announced_of_checkedEach hchecked hchecked' fun child hchild => ih child hchild

/-! ### Entries by name -/

section Entries

variable {leaves : List (String × Statement G)}
  {entries entries' : List (String × Statement G × Transcript G)}

/-- Entries are under different names if the leaves are. -/
theorem EntriesOf.nodup (h : EntriesOf leaves entries) (hnodup : (leaves.map Prod.fst).Nodup) :
    (entries.map Prod.fst).Nodup := by
  rwa [← h.map_eq, List.map_map] at hnodup

/-- Where no name occurs twice, the entry of a leaf is found under its name. -/
theorem EntriesOf.lookup (h : EntriesOf leaves entries) (hnodup : (leaves.map Prod.fst).Nodup)
    {leaf : String × Statement G} (hleaf : leaf ∈ leaves)
    {entry : String × Statement G × Transcript G} (hentry : entry ∈ entries)
    (hname : entry.1 = leaf.1) : entries.lookup leaf.1 = some (leaf.2, entry.2.2) := by
  have hmem : (entry.1, entry.2.1) ∈ leaves := by
    rw [← h.map_eq]
    exact List.mem_map_of_mem hentry
  obtain rfl : (entry.1, entry.2.1) = leaf := List.inj_on_of_nodup_map hnodup hmem hleaf hname
  exact Table.find?_eq_some_of_mem (h.nodup hnodup) hentry

/-- Entries of one name have one announcement. -/
theorem EntriesOf.announcement_eq (h : EntriesOf leaves entries)
    (hnodup : (leaves.map Prod.fst).Nodup) (hsame : announced entries = announced entries')
    {entry entry' : String × Statement G × Transcript G} (hentry : entry ∈ entries)
    (hentry' : entry' ∈ entries') (hname : entry.1 = entry'.1) :
    entry.2.2.announcement = entry'.2.2.announcement := by
  have hannounced : ((announced entries).map Prod.fst).Nodup := by
    rw [announced, List.map_map]
    exact h.nodup hnodup
  have hmem : (entry'.1, entry'.2.2.announcement) ∈ announced entries := by
    rw [hsame]
    exact List.mem_map_of_mem hentry'
  exact congrArg Prod.snd
    (List.inj_on_of_nodup_map hannounced (List.mem_map_of_mem hentry) hmem hname)

end Entries

end Statement
end ThreeMove

/-
# Tables and their names

What is found in a table, and which names it has, when names come in and others are
left out.
-/

import Mathlib.Data.List.Nodup
import Mathlib.Data.List.Perm.Basic
import ThreeMove.Table

namespace ThreeMove
namespace Table

variable {α : Type} {key other : String} {value : α} {table : Table α}

/-- The first entry is found under its key. -/
theorem find?_cons_self (key : String) (value : α) (table : Table α) :
    find? ((key, value) :: table) key = some value :=
  List.lookup_cons_self

/-- Under another key the first entry is passed over. -/
theorem find?_cons_of_ne (h : other ≠ key) (value : α) (table : Table α) :
    find? ((key, value) :: table) other = find? table other := by
  rw [find?, List.lookup_cons, beq_false_of_ne h]
  rfl

/-- What is found is an entry. -/
theorem mem_of_find?_eq_some (h : table.find? key = some value) : (key, value) ∈ table := by
  obtain ⟨front, back, rfl, -⟩ := List.lookup_eq_some_iff.1 h
  exact List.mem_append_right _ List.mem_cons_self

/-- Where no name stands twice, each entry is found. -/
theorem find?_eq_some_of_mem (hnodup : (table.map Prod.fst).Nodup) (h : (key, value) ∈ table) :
    table.find? key = some value := by
  obtain ⟨front, back, rfl⟩ := List.append_of_mem h
  refine List.lookup_eq_some_iff.2 ⟨front, back, rfl, fun entry hentry => ?_⟩
  rw [bne_iff_ne]
  rintro rfl
  rw [List.map_append, List.nodup_append] at hnodup
  exact hnodup.2.2 _ (List.mem_map_of_mem hentry) _ List.mem_cons_self rfl

/-- Nothing is found under a key that no entry has. -/
theorem find?_eq_none (h : key ∉ table.map Prod.fst) : table.find? key = none := by
  cases hfind : table.find? key with
  | none => rfl
  | some value => exact absurd (List.mem_map_of_mem (mem_of_find?_eq_some hfind)) h

/-- A filter that lets a name pass does not change what is found under it. -/
theorem find?_filter {p : String × α → Bool} (h : ∀ value, p (key, value) = true)
    (table : Table α) : Table.find? (List.filter p table) key = Table.find? table key := by
  induction table with
  | nil => rfl
  | cons pair rest ih =>
    obtain ⟨name, value⟩ := pair
    by_cases hname : key = name
    · subst hname
      rw [List.filter_cons_of_pos (h value), find?_cons_self, find?_cons_self]
    · rw [List.filter_cons, find?_cons_of_ne hname, ← ih]
      split
      · exact find?_cons_of_ne hname value _
      · rfl

/-- Nothing is found under a key that was erased. -/
theorem find?_erase_self (table : Table α) (key : String) : (table.erase key).find? key = none := by
  rw [← Option.isNone_iff_eq_none, ← Option.isSome_eq_false_iff, ← has_eq_isSome_find?,
    has_erase_self]

/-- Erasing a key leaves what is under the others. -/
theorem find?_erase_of_ne (h : other ≠ key) (table : Table α) :
    (table.erase key).find? other = table.find? other := by
  refine find?_filter (fun value => ?_) table
  exact bne_iff_ne.2 h

/-- A table has the keys of its entries. -/
theorem has_iff_mem : table.has key = true ↔ key ∈ table.map Prod.fst := by
  simp only [has, List.any_eq_true, beq_iff_eq, List.mem_map]

/-- A table has no other key than those of its entries. -/
theorem has_eq_false_iff : table.has key = false ↔ key ∉ table.map Prod.fst := by
  rw [← has_iff_mem, Bool.not_eq_true]

/-- After an insertion a table has the key inserted and those it had. -/
theorem has_insert :
    (table.insert key value).has other = true ↔ other = key ∨ table.has other = true := by
  rw [has_eq_isSome_find?, has_eq_isSome_find?]
  by_cases h : other = key
  · subst h
    rw [find?_insert_self]
    exact ⟨fun _ => .inl rfl, fun _ => rfl⟩
  · rw [find?_insert_of_ne value table h]
    exact ⟨.inr, fun hor => hor.resolve_left h⟩

/-- A new name comes in beside those there are. -/
theorem insert_perm (h : key ∉ table.map Prod.fst) :
    (table.insert key value).Perm ((key, value) :: table) := by
  induction table with
  | nil => exact .refl _
  | cons pair rest ih =>
    rw [List.map_cons, List.mem_cons, not_or] at h
    rw [insert, if_neg h.1]
    split
    · exact .refl _
    · exact ((ih h.2).cons pair).trans (.swap _ _ _)

/-- New names come in beside those there are. -/
theorem foldl_insert_perm {news table : List (String × α)}
    (hnodup : (news.map Prod.fst).Nodup)
    (hnew : ∀ name ∈ news.map Prod.fst, name ∉ table.map Prod.fst) :
    (news.foldl (fun table (name, value) => insert name value table) table).Perm
      (news ++ table) := by
  induction news generalizing table with
  | nil => exact .refl _
  | cons pair news ih =>
    rw [List.map_cons, List.nodup_cons] at hnodup
    rw [List.map_cons, List.forall_mem_cons] at hnew
    have hpair : (insert pair.1 pair.2 table).Perm (pair :: table) := insert_perm hnew.1
    refine (ih hnodup.2 fun name hname hmem => ?_).trans ?_
    · obtain heq | hmem := List.mem_cons.1 ((hpair.map Prod.fst).mem_iff.1 hmem)
      · exact hnodup.1 (heq ▸ hname)
      · exact hnew.2 name hname hmem
    · exact (hpair.append_left news).trans List.perm_middle

/-- A name beyond all others comes in behind them. -/
theorem insert_eq_concat (h : ∀ name ∈ table.map Prod.fst, name < key) :
    table.insert key value = table ++ [(key, value)] := by
  induction table with
  | nil => rfl
  | cons pair rest ih =>
    rw [List.map_cons, List.forall_mem_cons] at h
    rw [insert, if_neg (String.ne_of_lt h.1).symm, if_neg (String.lt_asymm h.1), ih h.2,
      List.cons_append]

/-- Pairs whose names already increase are a table as they stand. -/
theorem ofList_eq_self {pairs : List (String × α)}
    (h : (pairs.map Prod.fst).Pairwise (· < ·)) : ofList pairs = pairs := by
  have hfold : ∀ front back : List (String × α),
      ((front ++ back).map Prod.fst).Pairwise (· < ·) →
      back.foldl (fun table pair => insert pair.1 pair.2 table) front = front ++ back := by
    intro front back hnames
    induction back generalizing front with
    | nil => exact (List.append_nil front).symm
    | cons pair rest ih =>
      have hbehind : ∀ name ∈ front.map Prod.fst, name < pair.1 := by
        rw [List.map_append, List.pairwise_append] at hnames
        exact fun name hname => hnames.2.2 name hname pair.1 List.mem_cons_self
      have hfront : front ++ pair :: rest = front ++ [pair] ++ rest := by
        rw [List.append_assoc, List.singleton_append]
      rw [hfront] at hnames ⊢
      rw [List.foldl_cons, insert_eq_concat hbehind]
      exact ih (front ++ [pair]) hnames
  exact hfold [] pairs h

end Table
end ThreeMove

/-
# What is written in JSON is read back

A text `Spells` a value if reading it gives the value and stops right behind it,
whatever comma, bracket or brace follows.  Natural numbers, arrays and objects that are
written from spelled parts are spelled (`spells_natural`, `spells_array`,
`spells_object`), and the names of members are read back character by character
(`readString_flatMap_escape`).  A text that spells a value is read as that value
(`Spells.ofChars?`).

The bound of the reader never runs out: a text of `n` characters has fewer than `2 n`
steps down and along its tree, which is what `Spells` asks the bound to allow.
-/

import ThreeMove.Json.Reader
import ThreeMove.Json.Writer
import Mathlib.Data.List.Forall2

namespace ThreeMove
namespace Json

/-! ### Blanks -/

/-- Nothing is skipped before a character that is no blank. -/
theorem skipBlanks_cons {c : Char} (h : isBlank c = false) (rest : List Char) :
    skipBlanks (c :: rest) = c :: rest :=
  List.dropWhile_cons_of_neg (by rw [h]; exact Bool.false_ne_true)

/-! ### Numbers -/

/-- A digit is none of the other characters. -/
theorem ne_of_isDigit {c d : Char} (hc : c.isDigit = true) (hd : d.isDigit = false) : c ≠ d := by
  rintro rfl
  exact Bool.false_ne_true (hd.symm.trans hc)

/-- A digit is no blank. -/
theorem isBlank_of_isDigit {c : Char} (h : c.isDigit = true) : isBlank c = false := by
  simp [isBlank, ne_of_isDigit h]

/-- Natural numbers are written in digits. -/
theorem isDigit_of_mem_writeNatural {n : Nat} {c : Char} (h : c ∈ writeNatural n) :
    c.isDigit = true :=
  Nat.isDigit_of_mem_toDigits (by decide) (by decide) h

/-- Only zero begins with the digit zero. -/
theorem head?_writeNatural {n : Nat} (h : 0 < n) : (writeNatural n).head? ≠ some '0' := by
  induction n using Nat.strongRecOn with
  | _ n ih =>
    unfold writeNatural at ih ⊢
    by_cases hn : n < 10
    · have hdigit : ∀ d < 10, 0 < d → Nat.digitChar d ≠ '0' := by decide
      rw [Nat.toDigits_of_lt_base hn]
      exact fun heq => hdigit n hn h (Option.some.inj heq)
    · have hle : 10 ≤ n := Nat.le_of_not_lt hn
      rw [Nat.toDigits_of_base_le (by decide) hle,
        List.head?_append_of_ne_nil _ Nat.toDigits_ne_nil]
      exact ih (n / 10) (Nat.div_lt_self h (by decide)) (Nat.div_pos hle (by decide))

/-- Behind a value stands nothing, a comma or what closes an array or an object. -/
def Closes (rest : List Char) : Prop := ∀ c ∈ rest.head?, c = ',' ∨ c = ']' ∨ c = '}'

/-- A value may stand at the end. -/
theorem closes_nil : Closes [] := nofun

/-- A comma or a closing bracket may stand behind a value. -/
theorem closes_cons {c : Char} (h : c = ',' ∨ c = ']' ∨ c = '}') (rest : List Char) :
    Closes (c :: rest) := by
  intro d hd
  obtain rfl := Option.some.inj hd
  exact h

/-- A number ends where its digits end. -/
theorem readMagnitude_writeNatural (n : Nat) {rest : List Char} (h : Closes rest) :
    readMagnitude (writeNatural n ++ rest) = some (.natural n, rest) := by
  have hdigits : ∀ c ∈ writeNatural n, c.isDigit = true :=
    fun _ => isDigit_of_mem_writeNatural
  have hstop : rest.takeWhile Char.isDigit = [] ∧ rest.dropWhile Char.isDigit = rest ∧
      goesOn rest = false := by
    cases rest with
    | nil => exact ⟨rfl, rfl, rfl⟩
    | cons c rest =>
      obtain rfl | rfl | rfl := h c rfl
      all_goals exact ⟨rfl, rfl, rfl⟩
  have htake : (writeNatural n ++ rest).takeWhile Char.isDigit = writeNatural n := by
    rw [List.takeWhile_append_of_pos hdigits, hstop.1, List.append_nil]
  have hdrop : (writeNatural n ++ rest).dropWhile Char.isDigit = rest := by
    rw [List.dropWhile_append_of_pos hdigits, hstop.2.1]
  have hplain : (!(writeNatural n).isEmpty &&
      ((writeNatural n).length == 1 || (writeNatural n).head? != some '0')) = true := by
    have hne : writeNatural n ≠ [] := Nat.toDigits_ne_nil
    obtain rfl | hn := Nat.eq_zero_or_pos n
    · rfl
    · simp [hne, head?_writeNatural hn]
  have hvalue : valueOfDigits (writeNatural n) = n := Nat.ofDigitChars_ten_toDigits
  unfold readMagnitude
  dsimp only
  rw [htake, hdrop, hplain, hstop.2.2, hvalue]
  rfl

/-! ### Strings -/

/-- The two digits a control character is escaped by are read as its code. -/
theorem hexCode?_hexDigit :
    ∀ n < 0x20, hexCode? '0' '0' (Bytes.hexDigit (n / 16)) (Bytes.hexDigit (n % 16)) = some n := by
  decide

/-- An escape of one letter is read as the character it is for. -/
theorem readCodes_short {e c : Char} (h : shortEscape? e = some c) (he : e ≠ 'u')
    (rest : List Char) :
    readCodes ('\\' :: e :: rest) = (fun p => (c.toNat :: p.1, p.2)) <$> readCodes rest := by
  rw [readCodes]
  · rw [h]
    cases readCodes rest <;> rfl
  · rintro a b c d rest' rfl
    simp_all

/-- An escaped character is read as its code. -/
theorem readCodes_escape (c : Char) (rest : List Char) :
    readCodes (escape c ++ rest) = (fun p => (c.toNat :: p.1, p.2)) <$> readCodes rest := by
  unfold escape
  split_ifs with hquote hslash hn hr ht hb hf hcontrol
  · subst hquote; exact readCodes_short rfl (by decide) rest
  · subst hslash; exact readCodes_short rfl (by decide) rest
  · subst hn; exact readCodes_short rfl (by decide) rest
  · subst hr; exact readCodes_short rfl (by decide) rest
  · subst ht; exact readCodes_short rfl (by decide) rest
  · subst hb; exact readCodes_short rfl (by decide) rest
  · subst hf; exact readCodes_short rfl (by decide) rest
  · show readCodes ('\\' :: 'u' :: '0' :: '0' :: _ :: _ :: rest) = _
    rw [readCodes, hexCode?_hexDigit _ hcontrol]
    cases readCodes rest <;> rfl
  · show readCodes (c :: rest) = _
    rw [readCodes, if_neg hcontrol]
    · cases readCodes rest <;> rfl
    all_goals simp_all

/-- No character is a surrogate. -/
theorem charsOfCodes_map_toNat (cs : List Char) : charsOfCodes (cs.map Char.toNat) = some cs := by
  induction cs with
  | nil => rfl
  | cons c cs ih =>
    have hvalid : c.toNat < 0xd800 ∨ 0xdfff < c.toNat := by
      have := c.valid
      unfold UInt32.isValidChar Nat.isValidChar at this
      change c.val.toNat < 0xd800 ∨ 0xdfff < c.val.toNat
      omega
    have hlow : ¬(0xdc00 ≤ c.toNat ∧ c.toNat < 0xe000) := by omega
    have hhigh : ¬(0xd800 ≤ c.toNat ∧ c.toNat < 0xdc00) := by omega
    rw [List.map_cons, charsOfCodes.eq_def]
    simp only [if_neg hhigh, if_neg hlow, ih, Char.ofNat_toNat]
    rfl

/-- A string is read up to its closing quote. -/
theorem readString_flatMap_escape (text : String) (rest : List Char) :
    readString (text.toList.flatMap escape ++ '"' :: rest) = some (some text, rest) := by
  have hcodes : ∀ cs : List Char,
      readCodes (cs.flatMap escape ++ '"' :: rest) = some (cs.map Char.toNat, rest) := by
    intro cs
    induction cs with
    | nil => rfl
    | cons c cs ih =>
      rw [List.flatMap_cons, List.append_assoc, readCodes_escape, ih]
      rfl
  have hname : String.ofList <$> charsOfCodes (text.toList.map Char.toNat) = some text := by
    rw [charsOfCodes_map_toNat, Option.map_eq_map, Option.map_some, String.ofList_toList]
  rw [readString, hcodes]
  exact congrArg (fun name => some (name, rest)) hname

/-! ### One step of the reader -/

section

variable {bound : Nat} {cs tail rest : List Char} {item value : Json} {items : List Json}
  {key : Option String} {members : List (Option String × Json)}

/-- The last item stands before the closing bracket. -/
theorem readItems_last (h : readValue bound cs = some (item, ']' :: rest)) :
    readItems (bound + 1) cs = some ([item], rest) := by
  rw [readItems, h]
  rfl

/-- Any other stands before a comma and further items. -/
theorem readItems_more (h : readValue bound cs = some (item, ',' :: tail))
    (htail : readItems bound tail = some (items, rest)) :
    readItems (bound + 1) cs = some (item :: items, rest) := by
  rw [readItems, h]
  simp only [Option.bind_eq_bind, Option.bind_some, skipBlanks_cons (c := ',') rfl, htail]
  rfl

/-- The last member stands before the closing brace. -/
theorem readMembers_last (hkey : readString cs = some (key, ':' :: tail))
    (h : readValue bound tail = some (value, '}' :: rest)) :
    readMembers (bound + 1) ('"' :: cs) = some ([(key, value)], rest) := by
  rw [readMembers, skipBlanks_cons rfl]
  simp only [hkey, Option.bind_eq_bind, Option.bind_some, skipBlanks_cons (c := ':') rfl, h,
    skipBlanks_cons (c := '}') rfl]
  rfl

/-- Any other stands before a comma and further members. -/
theorem readMembers_more {later : List Char} (hkey : readString cs = some (key, ':' :: tail))
    (h : readValue bound tail = some (value, ',' :: later))
    (hlater : readMembers bound later = some (members, rest)) :
    readMembers (bound + 1) ('"' :: cs) = some ((key, value) :: members, rest) := by
  rw [readMembers, skipBlanks_cons rfl]
  simp only [hkey, Option.bind_eq_bind, Option.bind_some, skipBlanks_cons (c := ':') rfl, h,
    skipBlanks_cons (c := ',') rfl, hlater]
  rfl

/-- What begins with a digit is a number. -/
theorem readValue_digit {c : Char} (h : c.isDigit = true) :
    readValue (bound + 1) (c :: cs) = readMagnitude (c :: cs) := by
  have hscalar : readScalar (c :: cs) = readMagnitude (c :: cs) := by
    simp [readScalar, ne_of_isDigit h]
  rw [readValue, skipBlanks_cons (isBlank_of_isDigit h)]
  simp [ne_of_isDigit h, hscalar]

/-- Brackets with nothing between them are an empty array. -/
theorem readValue_empty_array :
    readValue (bound + 1) ('[' :: ']' :: rest) = some (.array [], rest) := by
  rw [readValue, skipBlanks_cons rfl]
  simp only [skipBlanks_cons (c := ']') rfl]

/-- An array with items. -/
theorem readValue_array {c : Char} (hblank : isBlank c = false) (hc : c ≠ ']')
    (h : readItems bound (c :: cs) = some (items, rest)) :
    readValue (bound + 1) ('[' :: c :: cs) = some (.array items, rest) := by
  rw [readValue, skipBlanks_cons rfl]
  simp only [skipBlanks_cons hblank]
  split
  · rename_i heq
    exact absurd (List.cons.inj heq).1 hc
  · rw [h]
    rfl

/-- Braces with nothing between them are an empty object. -/
theorem readValue_empty_object :
    readValue (bound + 1) ('{' :: '}' :: rest) = some (.object [], rest) := by
  rw [readValue, skipBlanks_cons rfl]
  simp only [skipBlanks_cons (c := '}') rfl]

/-- An object with members. -/
theorem readValue_object (h : readMembers bound ('"' :: cs) = some (members, rest)) :
    readValue (bound + 1) ('{' :: '"' :: cs) = some (.object members, rest) := by
  rw [readValue, skipBlanks_cons rfl]
  simp only [skipBlanks_cons (c := '"') rfl]
  split
  · rename_i heq
    exact absurd (List.cons.inj heq).1 (by decide)
  · rw [h]
    rfl

end

/-! ### Texts that spell a value -/

/-- The text begins like a value, with neither a blank nor a closing bracket, and is read as
the value. -/
structure Spells (text : List Char) (value : Json) : Prop where
  begins : ∃ c rest, text = c :: rest ∧ isBlank c = false ∧ c ≠ ']'
  reads : ∀ {bound : Nat} {rest : List Char}, 2 * text.length ≤ bound → Closes rest →
    readValue bound (text ++ rest) = some (value, rest)

/-- A natural number is read from its digits. -/
theorem spells_natural (n : Nat) : Spells (writeNatural n) (.natural n) := by
  have hne : writeNatural n ≠ [] := Nat.toDigits_ne_nil
  obtain ⟨c, later, htext⟩ := List.exists_cons_of_ne_nil hne
  have hc : c.isDigit = true := isDigit_of_mem_writeNatural (htext ▸ List.mem_cons_self)
  refine ⟨⟨c, later, htext, isBlank_of_isDigit hc, ne_of_isDigit hc rfl⟩, ?_⟩
  intro bound rest hbound hrest
  rw [htext, List.length_cons] at hbound
  obtain ⟨bound, rfl⟩ := Nat.exists_eq_add_of_le' (Nat.le_trans (by omega : 1 ≤ _) hbound)
  have hread := readMagnitude_writeNatural n hrest
  rw [htext] at hread ⊢
  exact (readValue_digit hc).trans hread

/-- Items between commas are read one by one. -/
theorem readItems_intercalate {parts : List (List Char)} {values : List Json}
    (hparts : List.Forall₂ Spells parts values) (hne : parts ≠ []) {bound : Nat}
    {rest : List Char} (hbound : 2 * (List.intercalate [','] parts).length + 1 ≤ bound) :
    readItems bound (List.intercalate [','] parts ++ ']' :: rest) = some (values, rest) := by
  induction hparts generalizing bound with
  | nil => exact absurd rfl hne
  | @cons part value parts values hpart hparts ih =>
    obtain ⟨bound, rfl⟩ := Nat.exists_eq_add_of_le' (Nat.le_trans (Nat.le_add_left 1 _) hbound)
    cases hparts with
    | nil =>
      rw [List.intercalate_singleton] at hbound ⊢
      exact readItems_last (hpart.reads (by omega) (closes_cons (.inr (.inl rfl)) rest))
    | cons hnext hlater =>
      rw [List.intercalate_cons_cons, List.append_assoc, List.append_assoc]
      rw [List.intercalate_cons_cons, List.length_append, List.length_append,
        List.length_singleton] at hbound
      refine readItems_more (hpart.reads (by omega) (closes_cons (.inl rfl) _)) ?_
      exact ih (List.cons_ne_nil _ _) (by omega)

/-- Parts between commas begin as the first of them does. -/
theorem exists_intercalate_cons (c : Char) (later : List Char) (parts : List (List Char)) :
    ∃ text, List.intercalate [','] ((c :: later) :: parts) = c :: text := by
  cases parts with
  | nil => exact ⟨later, List.intercalate_singleton⟩
  | cons part parts => exact ⟨_, List.intercalate_cons_cons⟩

/-- What follows a closing bracket stays behind it. -/
theorem writeBracketed_append (opening closing : Char) (parts : List (List Char))
    (rest : List Char) :
    writeBracketed opening closing parts ++ rest =
      opening :: (List.intercalate [','] parts ++ closing :: rest) := by
  simp only [writeBracketed, List.cons_append, List.append_assoc, List.nil_append]

/-- Brackets take two characters. -/
theorem length_writeBracketed (opening closing : Char) (parts : List (List Char)) :
    (writeBracketed opening closing parts).length =
      (List.intercalate [','] parts).length + 2 := by
  simp only [writeBracketed, List.length_cons, List.length_append, List.length_nil]

/-- An array is read from its items between brackets. -/
theorem spells_array {parts : List (List Char)} {values : List Json}
    (h : List.Forall₂ Spells parts values) :
    Spells (writeBracketed '[' ']' parts) (.array values) := by
  refine ⟨⟨'[', _, rfl, rfl, by decide⟩, fun {bound rest} hbound _ => ?_⟩
  rw [length_writeBracketed] at hbound
  obtain ⟨bound, rfl⟩ := Nat.exists_eq_add_of_le' (Nat.le_trans (by omega : 1 ≤ _) hbound)
  rw [writeBracketed_append]
  cases h with
  | nil => exact readValue_empty_array
  | @cons part value parts values hpart hparts =>
    obtain ⟨c, later, rfl, hblank, hc⟩ := hpart.begins
    have hitems : readItems bound (List.intercalate [','] ((c :: later) :: parts) ++ ']' :: rest) =
        some (value :: values, rest) :=
      readItems_intercalate (.cons hpart hparts) (List.cons_ne_nil _ _) (by omega)
    obtain ⟨text, htext⟩ := exists_intercalate_cons c later parts
    rw [htext] at hitems ⊢
    exact readValue_array hblank hc hitems

/-- A member is the name as a string, a colon and what spells the value. -/
inductive SpellsMember : List Char → Option String × Json → Prop where
  | intro {text : List Char} {value : Json} (name : String) (h : Spells text value) :
      SpellsMember (writeString name ++ ':' :: text) (some name, value)

/-- A member begins with a quotation mark. -/
theorem SpellsMember.begins {text : List Char} {member : Option String × Json}
    (h : SpellsMember text member) : ∃ later, text = '"' :: later := by
  obtain ⟨name, hvalue⟩ := h
  exact ⟨_, rfl⟩

/-- Members between commas are read one by one. -/
theorem readMembers_intercalate {parts : List (List Char)} {members : List (Option String × Json)}
    (hparts : List.Forall₂ SpellsMember parts members) (hne : parts ≠ []) {bound : Nat}
    {rest : List Char} (hbound : 2 * (List.intercalate [','] parts).length + 1 ≤ bound) :
    readMembers bound (List.intercalate [','] parts ++ '}' :: rest) = some (members, rest) := by
  have hwritten : ∀ (name : String) (text cs : List Char),
      writeString name ++ ':' :: text ++ cs =
        '"' :: (name.toList.flatMap escape ++ '"' :: ':' :: (text ++ cs)) := by
    intro name text cs
    simp only [writeString, List.cons_append, List.append_assoc, List.nil_append]
  induction hparts generalizing bound with
  | nil => exact absurd rfl hne
  | @cons part member parts members hpart hparts ih =>
    obtain ⟨bound, rfl⟩ := Nat.exists_eq_add_of_le' (Nat.le_trans (Nat.le_add_left 1 _) hbound)
    obtain ⟨name, hvalue⟩ := hpart
    cases hparts with
    | nil =>
      rw [List.intercalate_singleton] at hbound ⊢
      rw [List.length_append, List.length_cons] at hbound
      rw [hwritten]
      refine readMembers_last (readString_flatMap_escape name _) ?_
      exact hvalue.reads (by omega) (closes_cons (.inr (.inr rfl)) rest)
    | cons hnext hlater =>
      rw [List.intercalate_cons_cons, List.append_assoc, List.append_assoc, hwritten]
      rw [List.intercalate_cons_cons, List.length_append, List.length_append, List.length_append,
        List.length_cons, List.length_singleton] at hbound
      -- the rest is read first: it tells where the value ends
      have hrest := ih (List.cons_ne_nil _ _) (by omega : _ ≤ bound)
      refine readMembers_more (readString_flatMap_escape name _) ?_ hrest
      exact hvalue.reads (by omega) (closes_cons (.inl rfl) _)

/-- An object is read from its members between braces. -/
theorem spells_object {parts : List (List Char)} {members : List (Option String × Json)}
    (h : List.Forall₂ SpellsMember parts members) :
    Spells (writeBracketed '{' '}' parts) (.object members) := by
  refine ⟨⟨'{', _, rfl, rfl, by decide⟩, fun {bound rest} hbound _ => ?_⟩
  rw [length_writeBracketed] at hbound
  obtain ⟨bound, rfl⟩ := Nat.exists_eq_add_of_le' (Nat.le_trans (by omega : 1 ≤ _) hbound)
  rw [writeBracketed_append]
  cases h with
  | nil => exact readValue_empty_object
  | @cons part member parts members hpart hparts =>
    obtain ⟨later, rfl⟩ := hpart.begins
    have hmembers :
        readMembers bound (List.intercalate [','] (('"' :: later) :: parts) ++ '}' :: rest) =
          some (member :: members, rest) :=
      readMembers_intercalate (.cons hpart hparts) (List.cons_ne_nil _ _) (by omega)
    obtain ⟨text, htext⟩ := exists_intercalate_cons '"' later parts
    rw [htext] at hmembers ⊢
    exact readValue_object hmembers

/-- A text that spells a value is read as that value. -/
theorem Spells.ofChars? {text : List Char} {value : Json} (h : Spells text value) :
    ofChars? text = some value := by
  have hread : readValue (2 * text.length + 2) (text ++ []) = some (value, []) :=
    h.reads (Nat.le_add_right _ 2) closes_nil
  rw [List.append_nil] at hread
  rw [Json.ofChars?, hread]
  rfl

end Json
end ThreeMove

/-
# Payloads survive their JSON form

`Payload.toJson` is the JSON value of a payload, and the text of a payload spells it
(`Payload.spells_write`).  Where the names of every table stand in increasing order,
as `Payload.Ordered` asks, the payload is got back from its value
(`Payload.ofJson?_toJson`).  The value nests two arrays and objects for each level of
the payload (`Payload.depth_toJson`), so what is read of the text is the payload just
up to 63 levels, and no two payloads have one text (`Payload.json_round_trip`).
-/

import ThreeMove.Payload.Json
import ThreeMove.Proofs.Json.Reading
import ThreeMove.Proofs.Table

namespace ThreeMove
namespace Payload

/-- A property of bytes that passes from the items to a list and from the values to a
table holds of every payload. -/
theorem induction {P : Payload → Prop} (bytes : ∀ data, P (.bytes data))
    (list : ∀ items, (∀ item ∈ items, P item) → P (.list items))
    (map : ∀ entries, (∀ entry ∈ entries, P entry.2) → P (.map entries)) :
    ∀ payload, P payload := by
  intro payload
  refine Payload.rec (motive_1 := P) (motive_2 := fun items => ∀ item ∈ items, P item)
    (motive_3 := fun entries => ∀ entry ∈ entries, P entry.2) (motive_4 := fun entry => P entry.2)
    bytes list map ?nil ?cons ?none ?more ?entry payload
  case nil | none => exact fun _ h => absurd h List.not_mem_nil
  case cons | more => exact fun first rest hfirst hrest => List.forall_mem_cons.2 ⟨hfirst, hrest⟩
  case entry => exact fun _ _ hvalue => hvalue

/-! ### The value of a payload -/

mutual

/-- The JSON value of a payload: an object whose one member tells the kind. -/
def toJson : Payload → Json
  | .bytes data => .object [(some "Bytes", .array (data.map fun b => .natural b.toNat))]
  | .list items => .object [(some "List", .array (itemsToJson items))]
  | .map entries => .object [(some "Map", .object (entriesToJson entries))]

/-- The values of payloads in order. -/
def itemsToJson : List Payload → List Json
  | [] => []
  | item :: rest => item.toJson :: itemsToJson rest

/-- The members that name the values of payloads. -/
def entriesToJson : List (String × Payload) → List (Option String × Json)
  | [] => []
  | (name, value) :: rest => (some name, value.toJson) :: entriesToJson rest

end

/-- An object with a single member is spelled by the text of that member's value. -/
theorem spells_tagged (tag : String) {text : List Char} {value : Json}
    (h : Json.Spells text value) :
    Json.Spells (write.tagged tag text) (.object [(some tag, value)]) :=
  Json.spells_object (.cons (.intro tag h) .nil)

/-- The text of a payload spells its value. -/
theorem spells_write (payload : Payload) : Json.Spells payload.write payload.toJson := by
  induction payload using Payload.induction with
  | bytes data =>
    rw [write, toJson]
    refine spells_tagged _ (Json.spells_array ?_)
    rw [List.forall₂_map_left_iff, List.forall₂_map_right_iff, List.forall₂_same]
    exact fun b _ => Json.spells_natural b.toNat
  | list items ih =>
    rw [write, toJson]
    refine spells_tagged _ (Json.spells_array ?_)
    induction items with
    | nil => exact .nil
    | cons item rest ih' =>
      obtain ⟨hitem, hrest⟩ := List.forall_mem_cons.1 ih
      exact .cons hitem (ih' hrest)
  | map entries ih =>
    rw [write, toJson]
    refine spells_tagged _ (Json.spells_object ?_)
    induction entries with
    | nil => exact .nil
    | cons entry rest ih' =>
      obtain ⟨hentry, hrest⟩ := List.forall_mem_cons.1 ih
      exact .cons (.intro entry.1 hentry) (ih' hrest)

/-! ### Back from the value -/

/-- In every table the names stand in increasing order, each once. -/
inductive Ordered : Payload → Prop where
  | bytes (data : Bytes) : Ordered (.bytes data)
  | list {items : List Payload} (h : ∀ item ∈ items, Ordered item) : Ordered (.list items)
  | map {entries : List (String × Payload)} (hnames : (entries.map Prod.fst).Pairwise (· < ·))
      (h : ∀ entry ∈ entries, Ordered entry.2) : Ordered (.map entries)

/-- Bytes are read from the numbers they are written as. -/
theorem mapM_byteOfJson? (data : Bytes) :
    (data.map fun b => Json.natural b.toNat).mapM byteOfJson? = some data := by
  induction data with
  | nil => rfl
  | cons b rest ih =>
    have hbyte : byteOfJson? (.natural b.toNat) = some b := by
      rw [byteOfJson?, if_pos b.toNat_lt, UInt8.ofNat_toNat]
    rw [List.map_cons, List.mapM_cons, hbyte, ih]
    rfl

/-- What is got from the value of an ordered payload is the payload. -/
theorem ofJson?_toJson {payload : Payload} (h : payload.Ordered) :
    ofJson? payload.toJson = some payload := by
  induction payload using Payload.induction with
  | bytes data =>
    rw [toJson, ofJson?, if_pos rfl, mapM_byteOfJson?]
    rfl
  | list items ih =>
    cases h with
    | list hitems =>
      have hread : itemsOfJson? (itemsToJson items) = some items := by
        induction items with
        | nil => rfl
        | cons item rest ih' =>
          rw [List.forall_mem_cons] at ih hitems
          rw [itemsToJson, itemsOfJson?, ih.1 hitems.1, ih' ih.2 hitems.2]
          rfl
      rw [toJson, ofJson?, if_neg (by decide), if_pos rfl, hread]
      rfl
  | map entries ih =>
    cases h with
    | map hnames hentries =>
      have hread : entriesOfJson? (entriesToJson entries) = some entries := by
        clear hnames
        induction entries with
        | nil => rfl
        | cons entry rest ih' =>
          rw [List.forall_mem_cons] at ih hentries
          rw [entriesToJson, entriesOfJson?, ih.1 hentries.1, ih' ih.2 hentries.2]
          rfl
      rw [toJson, ofJson?, if_pos rfl, hread, Option.map_eq_map, Option.map_some,
        Table.ofList_eq_self hnames]

/-! ### How deep a payload is -/

mutual

/-- The number of payloads within one another, from the outermost to a deepest. -/
def levels : Payload → Nat
  | .bytes _ => 1
  | .list items => levelsOfItems items + 1
  | .map entries => levelsOfEntries entries + 1

/-- The levels of the deepest item. -/
def levelsOfItems : List Payload → Nat
  | [] => 0
  | item :: rest => max item.levels (levelsOfItems rest)

/-- The levels of the deepest value. -/
def levelsOfEntries : List (String × Payload) → Nat
  | [] => 0
  | (_, value) :: rest => max value.levels (levelsOfEntries rest)

end

/-- Each level is an object and what stands in it: an array, or for a table an object. -/
theorem depth_toJson (payload : Payload) : payload.toJson.depth = 2 * payload.levels := by
  have htagged : ∀ (tag : String) (value : Json),
      (Json.object [(some tag, value)]).depth = value.depth + 1 := by
    intro tag value
    rw [Json.depth, Json.depthOfMembers, Json.depthOfMembers, Nat.max_zero]
  induction payload using Payload.induction with
  | bytes data =>
    have hbytes : Json.depthOfItems (data.map fun b => .natural b.toNat) = 0 := by
      induction data with
      | nil => rfl
      | cons b rest ih => rw [List.map_cons, Json.depthOfItems, ih]; rfl
    rw [toJson, htagged, Json.depth, hbytes, levels]
  | list items ih =>
    have hitems : Json.depthOfItems (itemsToJson items) = 2 * levelsOfItems items := by
      induction items with
      | nil => rfl
      | cons item rest ih' =>
        rw [List.forall_mem_cons] at ih
        rw [itemsToJson, Json.depthOfItems, ih.1, ih' ih.2, levelsOfItems]
        omega
    rw [toJson, htagged, Json.depth, hitems, levels]
    omega
  | map entries ih =>
    have hentries : Json.depthOfMembers (entriesToJson entries) = 2 * levelsOfEntries entries := by
      induction entries with
      | nil => rfl
      | cons entry rest ih' =>
        rw [List.forall_mem_cons] at ih
        rw [entriesToJson, Json.depthOfMembers, ih.1, ih' ih.2, levelsOfEntries]
        omega
    rw [toJson, htagged, Json.depth, hentries, levels]
    omega

/-! ### The text of a payload -/

/-- The text of a payload is JSON for its value. -/
theorem ofText?_toJsonText (payload : Payload) :
    Json.ofText? payload.toJsonText = some payload.toJson := by
  rw [Json.ofText?, toJsonText, String.toList_ofList]
  exact (spells_write payload).ofChars?

/-- The text of an ordered payload is read as the payload up to 63 levels, and else not at
all. -/
theorem ofJsonText?_toJsonText {payload : Payload} (h : payload.Ordered) :
    ofJsonText? payload.toJsonText = if payload.levels ≤ 63 then some payload else none := by
  have hdepth : payload.toJson.depth ≤ 127 ↔ payload.levels ≤ 63 := by
    rw [depth_toJson]
    omega
  rw [ofJsonText?, ofText?_toJsonText, Option.bind_eq_bind, Option.bind_some, ofJson?_toJson h]
  exact if_congr hdepth rfl rfl

/-- Ordered payloads of one text are one payload. -/
theorem eq_of_toJsonText_eq {payload other : Payload} (h : payload.Ordered)
    (hother : other.Ordered) (htext : payload.toJsonText = other.toJsonText) : payload = other := by
  have hvalue : payload.toJson = other.toJson := by
    have hread := ofText?_toJsonText payload
    rw [htext, ofText?_toJsonText] at hread
    exact (Option.some.inj hread).symm
  have hread := ofJson?_toJson h
  rw [hvalue, ofJson?_toJson hother] at hread
  exact (Option.some.inj hread).symm

/-- **Payloads survive their JSON form up to 63 levels.**  The text of a payload is strict JSON
for its value.  Whatever bytes, names and further payloads it holds, what is read of the text
is that payload as long as no more than 63 payloads stand within one another, and the text of a
deeper payload is refused.  Of any depth, no two payloads have one text. -/
theorem json_round_trip :
    (∀ payload : Payload, Json.ofText? payload.toJsonText = some payload.toJson) ∧
    (∀ payload : Payload, payload.Ordered →
      ofJsonText? payload.toJsonText = if payload.levels ≤ 63 then some payload else none) ∧
    ∀ payload other : Payload, payload.Ordered → other.Ordered →
      payload.toJsonText = other.toJsonText → payload = other :=
  ⟨ofText?_toJsonText, fun _ => ofJsonText?_toJsonText, fun _ _ => eq_of_toJsonText_eq⟩

/-- Names with nothing in them, with everything that is escaped, and beyond ASCII. -/
def motley : Payload :=
  .map [("", .list [.bytes [0, 9, 10, 255], .emptyMap]),
    ("\x00\n\x1f", .map [("\"", .bytes []), ("\\", .list []), ("é😀", .bytes [34])])]

/-- The hypotheses are satisfiable: `motley` is read back, and the empty table has another text. -/
theorem json_round_trip_motley :
    motley.Ordered ∧ ofJsonText? motley.toJsonText = some motley ∧
      motley.toJsonText ≠ Payload.emptyMap.toJsonText := by
  have hnone : ∀ item ∈ ([] : List Payload), item.Ordered := nofun
  have hempty : Payload.emptyMap.Ordered := .map .nil nofun
  have hlist : (Payload.list [.bytes [0, 9, 10, 255], .emptyMap]).Ordered :=
    .list (List.forall_mem_cons.2 ⟨.bytes _, List.forall_mem_cons.2 ⟨hempty, hnone⟩⟩)
  have hmap : (Payload.map [("\"", .bytes []), ("\\", .list []), ("é😀", .bytes [34])]).Ordered :=
    .map (by decide) (List.forall_mem_cons.2 ⟨.bytes _, List.forall_mem_cons.2
      ⟨.list hnone, List.forall_mem_cons.2 ⟨.bytes _, nofun⟩⟩⟩)
  have hordered : motley.Ordered :=
    .map (by decide) (List.forall_mem_cons.2 ⟨hlist, List.forall_mem_cons.2 ⟨hmap, nofun⟩⟩)
  obtain ⟨-, hreads, hinjective⟩ := json_round_trip
  refine ⟨hordered, (hreads motley hordered).trans (if_pos (by decide)), fun h => ?_⟩
  exact nomatch hinjective motley .emptyMap hordered hempty h

/-- An empty list within so many further lists. -/
def nestedLists : Nat → Payload
  | 0 => .list []
  | n + 1 => .list [nestedLists n]

/-- Nested lists hold no map, so that no keys are out of order. -/
theorem ordered_nestedLists (n : Nat) : (nestedLists n).Ordered := by
  induction n with
  | zero => exact .list nofun
  | succ n ih => exact .list (List.forall_mem_cons.2 ⟨ih, nofun⟩)

/-- A list within `n` further lists has `n + 1` levels. -/
theorem levels_nestedLists (n : Nat) : (nestedLists n).levels = n + 1 := by
  induction n with
  | zero => rfl
  | succ n ih => rw [nestedLists, levels, levelsOfItems, levelsOfItems, Nat.max_zero, ih]

/-- Not every payload is read from its text: 64 lists within one another are not. -/
theorem nestedLists_refused :
    (nestedLists 63).Ordered ∧ ofJsonText? (nestedLists 63).toJsonText = none := by
  have hordered := ordered_nestedLists 63
  have hdeep : ¬(nestedLists 63).levels ≤ 63 := by
    rw [levels_nestedLists]
    decide
  exact ⟨hordered, (ofJsonText?_toJsonText hordered).trans (if_neg hdeep)⟩

end Payload
end ThreeMove

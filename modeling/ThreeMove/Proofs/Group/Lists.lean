/-
# List encodings are exact

A byte string is cut into pieces of one length, each of which is read by itself, so a list is read
just where the length is right and every piece is (`decodeChunks_eq_none_iff`).  Together with what
is known of one piece, this makes the encodings of lists of elements and of lists of scalars exact
(`ExactList`): a list is read back for just its own number of pieces, whatever is read is what is
written for it, piece by piece, and nothing else is refused than a wrong length or a piece that is
not canonical (`PrimeGroup.lists_exact`).

All this holds where the length asked for is a machine word.  A number of pieces that makes it
longer is no reason to answer that the length is wrong: the call aborts
(`readChunks_eq_error_iff`).
-/

import ThreeMove.Proofs.Group.Encoding

namespace ThreeMove

/-- Piece number `i` of a byte string that is cut into pieces of `size` bytes. -/
def piece (size i : Nat) (data : Bytes) : Bytes := (data.drop (size * i)).take size

/-- A walk that maps fails where some step does. -/
theorem mapM_eq_none {α β : Type} {f : α → Option β} {as : List α} :
    as.mapM f = none ↔ ∃ a ∈ as, f a = none := by
  induction as with
  | nil => exact ⟨nofun, fun ⟨_, ha, _⟩ => absurd ha List.not_mem_nil⟩
  | cons a rest ih =>
    rw [List.mapM_cons, List.exists_mem_cons_iff, ← ih]
    cases f a with
    | none => exact ⟨fun _ => .inl rfl, fun _ => rfl⟩
    | some b =>
      cases rest.mapM f with
      | none => exact ⟨fun _ => .inr rfl, fun _ => rfl⟩
      | some bs => exact ⟨nofun, fun h => h.elim nofun nofun⟩

section

variable {α : Type} {size count : Nat} {decoder : Bytes → Option α} {data : Bytes}

/-- The chunks are the pieces in order. -/
theorem chunks_eq_map (size count : Nat) (data : Bytes) :
    chunks size count data = (List.range count).map fun i => piece size i data := by
  induction count generalizing data with
  | zero => rfl
  | succ count ih =>
    rw [chunks, ih, List.range_succ_eq_map, List.map_cons, List.map_map]
    refine congrArg₂ List.cons rfl (List.map_congr_left fun i _ => ?_)
    rw [piece, Function.comp_apply, piece, List.drop_drop, Nat.mul_succ, Nat.add_comm]

/-- Nothing is refused but a wrong length and a piece that cannot be read. -/
theorem decodeChunks_eq_none_iff :
    decodeChunks size decoder data count = none ↔
      data.length ≠ size * count ∨ ∃ i < count, decoder (piece size i data) = none := by
  unfold decodeChunks
  split
  · rename_i hlength
    rw [chunks_eq_map, mapM_eq_none, or_iff_right (not_not_intro hlength)]
    simp only [List.mem_map, List.mem_range, exists_exists_and_eq_and]
  · rename_i hlength
    exact ⟨fun _ => .inl hlength, fun _ => rfl⟩

/-- Reading aborts just where the length asked for is no machine word. -/
theorem readChunks_eq_error_iff {cause : Abort} :
    readChunks size decoder data count = .error cause ↔
      cause = .lengthOverflow ∧ 2 ^ 64 ≤ size * count := by
  rw [readChunks, show UInt64.size = 2 ^ 64 from rfl]
  split
  · rename_i hfits
    exact ⟨nofun, fun h => absurd h.2 (Nat.not_le_of_lt hfits)⟩
  · rename_i hover
    rw [Except.error.injEq, and_iff_left (Nat.le_of_not_lt hover)]
    exact eq_comm

/-- Where it does not abort, reading is decoding. -/
theorem readChunks_eq_ok_iff {answer : Option (List α)} :
    readChunks size decoder data count = .ok answer ↔
      size * count < 2 ^ 64 ∧ decodeChunks size decoder data count = answer := by
  rw [readChunks, show UInt64.size = 2 ^ 64 from rfl]
  split
  · rename_i hfits
    rw [Except.ok.injEq, and_iff_right hfits]
  · rename_i hover
    exact ⟨nofun, fun h => absurd h.1 hover⟩

/-- The pieces of what is written for a list are what is written for its entries. -/
theorem piece_flatMap {encode : α → Bytes} {xs : List α} (h : ∀ x ∈ xs, (encode x).length = size)
    (i : Nat) (hi : i < xs.length) : piece size i (xs.flatMap encode) = encode xs[i] := by
  induction xs generalizing i with
  | nil => exact absurd hi (Nat.not_lt_zero i)
  | cons x rest ih =>
    rw [List.forall_mem_cons] at h
    rw [List.flatMap_cons]
    cases i with
    | zero => exact List.take_left' h.1
    | succ i =>
      rw [List.getElem_cons_succ, ← ih h.2 i (Nat.lt_of_succ_lt_succ hi), piece, Nat.mul_succ,
        Nat.add_comm, ← List.drop_drop, List.drop_left' h.1, piece]

/-- Lists are written piece by piece, and read in no other way. -/
structure ExactList (size : Nat) (encode : α → Bytes) (valid : α → Prop)
    (canonical : Bytes → Prop) (write : List α → Bytes)
    (read : Bytes → Nat → Except Abort (Option (List α))) : Prop where
  /-- Each entry takes a piece. -/
  write_eq (xs : List α) : (∀ x ∈ xs, valid x) → write xs = xs.flatMap encode
  /-- The only reason for an abort is a length that is no machine word. -/
  aborts (data : Bytes) (count : Nat) (cause : Abort) : read data count = .error cause ↔
    cause = .lengthOverflow ∧ 2 ^ 64 ≤ size * count
  /-- A list is read back for just its own length. -/
  read_write (xs : List α) (count : Nat) : (∀ x ∈ xs, valid x) → size * count < 2 ^ 64 →
    read (write xs) count = .ok (if count = xs.length then some xs else none)
  /-- What is read is written as it stood. -/
  write_of_read (data : Bytes) (count : Nat) (xs : List α) : read data count = .ok (some xs) →
    xs.length = count ∧ (∀ x ∈ xs, valid x) ∧ write xs = data ∧
      ∀ (i : Nat) (hi : i < xs.length), encode xs[i] = piece size i data
  /-- Refused are a wrong length and a piece that is not canonical. -/
  read_eq_none (data : Bytes) (count : Nat) : size * count < 2 ^ 64 →
    (read data count = .ok none ↔
      data.length ≠ size * count ∨ ∃ i < count, ¬ canonical (piece size i data))

variable {encode : α → Bytes} {valid : α → Prop} {canonical : Bytes → Prop}

/-- What is known of one piece tells all of a list. -/
theorem exactList {write : List α → Bytes} (hsize : 0 < size)
    (hwrite : ∀ xs, (∀ x ∈ xs, valid x) → write xs = xs.flatMap encode)
    (hread : ∀ {data count xs}, decodeChunks size decoder data count = some xs ↔
      xs.length = count ∧ (∀ x ∈ xs, valid x) ∧ write xs = data)
    (hlength : ∀ x, valid x → (encode x).length = size)
    (hcanonical : ∀ data, decoder data = none ↔ ¬ canonical data) :
    ExactList size encode valid canonical write (readChunks size decoder) where
  write_eq := hwrite
  aborts _ _ _ := readChunks_eq_error_iff
  read_write xs count hxs hfits := by
    refine readChunks_eq_ok_iff.2 ⟨hfits, ?_⟩
    split
    · rename_i hcount
      exact hread.2 ⟨hcount.symm, hxs, rfl⟩
    · rename_i hcount
      refine decodeChunks_eq_none_iff.2 (.inl fun hdata => hcount ?_)
      rw [hwrite xs hxs, Bytes.length_flatMap fun x hx => hlength x (hxs x hx), Nat.mul_comm]
        at hdata
      exact (Nat.eq_of_mul_eq_mul_left hsize hdata).symm
  write_of_read data count xs h := by
    obtain ⟨hcount, hxs, rfl⟩ := hread.1 (readChunks_eq_ok_iff.1 h).2
    refine ⟨hcount, hxs, rfl, fun i hi => ?_⟩
    rw [hwrite xs hxs, piece_flatMap (fun x hx => hlength x (hxs x hx)) i hi]
  read_eq_none data count hfits := by
    rw [readChunks_eq_ok_iff, and_iff_right hfits, decodeChunks_eq_none_iff]
    simp only [hcanonical]

end

namespace PrimeGroup

variable {G : Type} [PrimeGroup G]

/-- The challenge space of the scalars writes a challenge as a list of one scalar. -/
theorem encode_scalars (c : Nat) : (scalars G).encode c = encodeScalars G [c] := by
  rw [encodeScalars, List.flatMap_singleton]
  rfl

/-- The challenge space of the scalars reads a challenge as a list of one scalar. -/
theorem decode_scalars (data : Bytes) : (scalars G).decode data =
    match decodeScalars G data 1 with
    | some [c] => .ok c
    | _ => .error (.invalidEncoding "scalar challenge") := by
  unfold ChallengeSpace.decode decodeScalars decodeChunks
  by_cases hlength : data.length = scalarLength G
  · have hone : chunks (scalarLength G) 1 data = [data] := by
      rw [chunks, chunks, List.take_of_length_le (Nat.le_of_eq hlength)]
    rw [if_pos (hlength.trans (Nat.mul_one _).symm), hone, List.mapM_cons, List.mapM_nil]
    unfold decodeScalar
    by_cases hlt : Bytes.beValue data < order G
    · rw [if_pos ⟨hlength, hlt⟩, if_pos hlt]
      rfl
    · rw [if_neg fun h => hlt h.2, if_neg hlt]
      rfl
  · rw [if_neg fun h => hlength h.1, if_neg fun h => hlength (h.trans (Nat.mul_one _))]
    rfl

/-- **The encodings of lists of elements and of scalars are exact.**  Suppose that encodings of
elements have one length, which is not zero, and that decoding is the exact inverse.  A list of
elements is written as their encodings one after another, and one of scalars as their digits, most
significant first, each at the width of a scalar.  Reading is asked for some number of pieces.  If
so many pieces have a length beyond the machine word, the call aborts, whatever is read; otherwise
it has an answer.  Read for some number, what is written gives the list back if that is its length,
and nothing otherwise.  Whatever is read has as many entries as asked for and is written as it
stood, entry by entry.  And nothing is read just where the length is not that of so many pieces, or
some piece is not the encoding of an element, or spells a number that is not below the order. -/
theorem lists_exact (exact : ExactEncoding G) (hwidth : 0 < elementLength G) :
    ExactList (elementLength G) (fun a : G => encode a) (fun _ => True)
      (fun data => ∃ a : G, encode a = data) encodeElements readElements ∧
    ExactList (scalarLength G) (Bytes.be (scalarLength G)) (· < order G)
      (fun data => Bytes.beValue data < order G) (encodeScalars G) (readScalars G) := by
  have hfits : ∀ {r}, r < order G → r < 256 ^ scalarLength G := (scalars G).lt_pow_encodedLength
  constructor
  · refine exactList hwidth (fun _ _ => rfl) ?_ (fun a _ => exact.length_encode a) fun data => ?_
    · intro data count xs
      rw [and_iff_right (fun _ _ => trivial)]
      exact decodeElements_eq_some_iff exact
    · rw [Option.eq_none_iff_forall_ne_some, not_exists]
      exact forall_congr' fun a => exact.decode_eq_some_iff.not
  · refine exactList (scalars G).encodedLength_pos (fun rs hrs => ?_) (decodeScalars_eq_some_iff G)
      (fun r _ => Bytes.length_be _ r) fun data => ?_
    · exact List.flatMap_congr fun r hr => Bytes.padded_eq_be (hfits (hrs r hr))
    · unfold decodeScalar
      split
      · rename_i hlt
        exact ⟨nofun, fun h => absurd hlt h⟩
      · rename_i hlt
        exact ⟨fun _ => hlt, fun _ => rfl⟩

/-- The hypotheses are satisfiable: elements and scalars of ristretto255 take 32 bytes, and two
scalars are got back from their 64 bytes, but not as one or three. -/
theorem lists_exact_ristretto :
    ExactList 32 Ristretto.encode (fun _ => True) (fun data => ∃ a, Ristretto.encode a = data)
      (encodeElements (G := Ristretto)) readElements ∧
    ExactList 32 (Bytes.be 32) (· < Ristretto.groupOrder)
      (fun data => Bytes.beValue data < Ristretto.groupOrder) (encodeScalars Ristretto)
      (readScalars Ristretto) ∧
    readScalars Ristretto (encodeScalars Ristretto [5, 258]) 2 = .ok (some [5, 258]) ∧
    readScalars Ristretto (encodeScalars Ristretto [5, 258]) 1 = .ok none ∧
    readScalars Ristretto (encodeScalars Ristretto [5, 258]) 3 = .ok none := by
  have hlength : scalarLength Ristretto = 32 := by decide +kernel
  obtain ⟨helements, hscalars⟩ := lists_exact Ristretto.exactEncoding (by decide)
  have hreduced : ∀ r ∈ [5, 258], r < order Ristretto := by decide
  rw [hlength] at hscalars
  exact ⟨helements, hscalars, hscalars.read_write _ 2 hreduced (by decide),
    hscalars.read_write _ 1 hreduced (by decide), hscalars.read_write _ 3 hreduced (by decide)⟩

/-- The machine word is a condition: no bytes are a list of no scalars, and also one of no
elements, but read for `2 ^ 59` of them they do not give nothing, because the call aborts. -/
theorem lists_overflow_ristretto :
    encodeScalars Ristretto [] = [] ∧
    readScalars Ristretto [] (2 ^ 59) = .error .lengthOverflow ∧
    encodeElements ([] : List Ristretto) = [] ∧
    readElements (G := Ristretto) [] (2 ^ 59) = .error .lengthOverflow ∧
    ¬ ∀ (rs : List Nat) (count : Nat), (∀ r ∈ rs, r < order Ristretto) →
      readScalars Ristretto (encodeScalars Ristretto rs) count =
        .ok (if count = rs.length then some rs else none) := by
  have hlength : scalarLength Ristretto = 32 := by decide +kernel
  have hscalars : readScalars Ristretto [] (2 ^ 59) = .error .lengthOverflow :=
    readChunks_eq_error_iff.2 ⟨rfl, by rw [hlength]; decide⟩
  refine ⟨rfl, hscalars, rfl, readChunks_eq_error_iff.2 ⟨rfl, by decide⟩, fun hexact => ?_⟩
  exact nomatch hscalars.symm.trans (hexact [] (2 ^ 59) nofun)

end PrimeGroup
end ThreeMove

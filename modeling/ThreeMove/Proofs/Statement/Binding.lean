/-
# Identifier and label bind the statement

Two statements with one identifier and one label have one outline, so that their verifiers
accept the same transcripts (`Accepted.names_bind`).  Identifiers of different kinds differ in
length, and within those that are hashes, of gates and of named leaves, the tag tells them
apart if the hash does not collide on what is hashed for the two statements
(`Outline.Comparable.gate_eq`).  Labels are pieces of one length, or strings in frames that
they fit.  So an outline is told by induction on its parts (`Outline.Comparable.eq`); only
the schemes that seal announcements are not.
-/

import ThreeMove.Proofs.Statement.Outline

namespace ThreeMove

/-! ### Labels of elementary statements -/

namespace ModP

variable {G : Type}

/-- The label of a logarithm over residues is the parameters at their full width. -/
theorem label_eq (s : ModP) : (s.protocol (G := G)).label =
    [s.p, s.q, s.g, s.y].flatMap (Bytes.padded s.elementLength) := rfl

/-- Each parameter takes the width of an element. -/
theorem length_padded (s : ModP) :
    ∀ n ∈ [s.p, s.q, s.g, s.y], (Bytes.padded s.elementLength n).length = s.elementLength := by
  have hle : ∀ n ∈ [s.p, s.q, s.g, s.y], n ≤ s.p := by
    have hsize := s.three_lt_p
    have hq : s.q ≤ s.p - 1 := Nat.le_of_dvd (by omega) (Nat.dvd_of_mod_eq_zero s.q_dvd)
    have hg := s.g_lt
    have hy := s.y_lt
    intro n hn
    simp only [List.mem_cons, List.not_mem_nil, or_false] at hn
    omega
  exact fun n hn => Bytes.length_padded ((hle n hn).trans_lt (Bytes.lt_pow_bitLength s.p))

/-- The label tells the parameters. -/
theorem label_inj {s t : ModP} (h : (s.protocol (G := G)).label = (t.protocol (G := G)).label) :
    s = t := by
  rw [label_eq, label_eq] at h
  have hlength := congrArg List.length h
  rw [Bytes.length_flatMap s.length_padded, Bytes.length_flatMap t.length_padded] at hlength
  have hsame : s.elementLength = t.elementLength := Nat.eq_of_mul_eq_mul_left four_pos hlength
  have hpadded := s.length_padded
  rw [hsame] at h hpadded
  have hmap := Bytes.map_eq_of_flatMap_eq hpadded t.length_padded rfl h
  have hvalues := congrArg (List.map Bytes.beValue) hmap
  simp only [List.map_cons, List.map_nil, Bytes.beValue_padded, List.cons.injEq,
    and_true] at hvalues
  obtain ⟨hp, hq, hg, hy⟩ := hvalues
  cases s
  cases t
  subst hp hq hg hy
  rfl

end ModP

variable {G : Type} [PrimeGroup G]

/-- Where encodings have one length and are told apart, the label tells the bases and the
images. -/
theorem DiscreteLog.label_inj {s t : DiscreteLog G}
    (hlength : ∀ a : G, (PrimeGroup.encode a).length = PrimeGroup.elementLength G)
    (hencode : Function.Injective (PrimeGroup.encode (G := G)))
    (h : s.protocol.label = t.protocol.label) : s = t := by
  have hlabel : ∀ s : DiscreteLog G,
      s.protocol.label = PrimeGroup.encodeElements (s.bases ++ s.images) :=
    fun s => List.flatMap_append.symm
  have hcount : ∀ s : DiscreteLog G, (s.bases ++ s.images).length = 2 * s.bases.length := by
    intro s
    rw [List.length_append, ← s.length_eq, Nat.two_mul]
  rw [hlabel, hlabel] at h
  have hbytes := congrArg List.length h
  rw [PrimeGroup.length_encodeElements hlength, PrimeGroup.length_encodeElements hlength] at hbytes
  have hsize : (s.bases ++ s.images).length = (t.bases ++ t.images).length :=
    Nat.eq_of_mul_eq_mul_right (s.elementLength_pos hlength hencode) hbytes
  have hbases : s.bases.length = t.bases.length := by
    rw [hcount, hcount] at hsize
    exact Nat.eq_of_mul_eq_mul_left two_pos hsize
  have hmap := Bytes.map_eq_of_flatMap_eq (fun a _ => hlength a) (fun a _ => hlength a) hsize h
  obtain ⟨hsame, himages⟩ := List.append_inj (hencode.list_map hmap) hbases
  cases s
  cases t
  subst hsame himages
  rfl

namespace Protocol

/-- What is hashed for the identifier of a compound. -/
def gateInput (tag : UInt8) (parts : List Bytes) : Bytes :=
  List.replicate 32 tag ++ parts.flatMap fun part => Bytes.be 8 part.length ++ part

/-- What is hashed tells the tag and the identifiers of the parts. -/
theorem gateInput_inj {tag tag' : UInt8} {parts others : List Bytes}
    (hparts : ∀ part ∈ parts, part.length < 2 ^ 64)
    (hothers : ∀ other ∈ others, other.length < 2 ^ 64)
    (h : gateInput tag parts = gateInput tag' others) : tag = tag' ∧ parts = others := by
  obtain ⟨htag, h⟩ := List.append_inj h (by rw [List.length_replicate, List.length_replicate])
  exact ⟨(List.cons.inj htag).1, Bytes.flatMap_be_length_inj (by decide) hparts hothers h⟩

end Protocol

namespace Outline

open Protocol

/-! ### What is written within an outline -/

mutual

/-- The outline and all outlines within it. -/
def nodes : Outline G → List (Outline G)
  | .modP s => [.modP s]
  | .discreteLog s => [.discreteLog s]
  | .named name inner => .named name inner :: inner.nodes
  | .all parts => .all parts :: nodesOf parts
  | .any parts => .any parts :: nodesOf parts
  | .sealed scheme inner => .sealed scheme inner :: inner.nodes

/-- The outlines and all outlines within them. -/
def nodesOf : List (Outline G) → List (Outline G)
  | [] => []
  | part :: rest => part.nodes ++ nodesOf rest

end

/-- The tag and the parts of what has a hash for an identifier. -/
def gate? : Outline G → Option (UInt8 × List (Outline G))
  | .named _ inner => some (0, [inner])
  | .all parts => some (1, parts)
  | .any parts => some (2, parts)
  | _ => none

/-- The strings hashed for the identifier. -/
def hashed (o : Outline G) : List Bytes :=
  o.nodes.filterMap fun node => node.gate?.map fun (tag, parts) =>
    gateInput tag (parts.map identifier)

/-- What the outline itself, not those within it, puts into frames. -/
def frames : Outline G → List Bytes
  | .named name inner => [Bytes.ofText name, inner.label]
  | .all parts => parts.map label
  | .any parts => parts.map label
  | .sealed _ inner => [Bytes.ofText "sigma-compose/damgard", inner.identifier]
  | _ => []

/-- The strings put into frames for the identifier and the label. -/
def framed (o : Outline G) : List Bytes := o.nodes.flatMap frames

/-- The schemes that seal announcements. -/
def schemes (o : Outline G) : List HashCommitment :=
  o.nodes.filterMap fun
    | .sealed scheme _ => some scheme
    | _ => none

/-- What identifier and label cannot vouch for themselves. -/
structure Comparable (o o' : Outline G) : Prop where
  /-- What is put into frames fits the four bytes of its length. -/
  left_fits : ∀ data ∈ o.framed, data.length < 2 ^ 32
  right_fits : ∀ data ∈ o'.framed, data.length < 2 ^ 32
  /-- The hash does not collide on what is hashed for the two. -/
  collisionless : ∀ x ∈ o.hashed, ∀ y ∈ o'.hashed, sha3_256 x = sha3_256 y → x = y
  /-- One scheme seals all announcements: no label tells the scheme. -/
  scheme_eq : ∀ scheme ∈ o.schemes, ∀ scheme' ∈ o'.schemes, scheme = scheme'

section

variable {o o' : Outline G} {part : Outline G} {parts : List (Outline G)}

/-- An outline is within itself. -/
theorem self_mem_nodes (o : Outline G) : o ∈ o.nodes := by
  cases o <;> exact List.mem_cons_self

/-- What is within a part is within the parts. -/
theorem nodes_subset_nodesOf (h : part ∈ parts) : part.nodes ⊆ nodesOf parts := by
  induction parts with
  | nil => exact absurd h List.not_mem_nil
  | cons first rest ih =>
    rcases List.mem_cons.1 h with rfl | hrest
    · exact List.subset_append_left _ _
    · exact List.Subset.trans (ih hrest) (List.subset_append_right _ _)

/-- The parts of a gate are within it. -/
theorem nodes_subset_of_gate? {tag : UInt8} (ho : o.gate? = some (tag, parts))
    (h : part ∈ parts) : part.nodes ⊆ o.nodes := by
  cases o with
  | named name inner =>
    obtain ⟨rfl, rfl⟩ := Prod.mk.inj (Option.some.inj ho)
    obtain rfl := List.mem_singleton.1 h
    exact List.subset_cons_self _ _
  | all _ =>
    obtain ⟨rfl, rfl⟩ := Prod.mk.inj (Option.some.inj ho)
    exact List.Subset.trans (nodes_subset_nodesOf h) (List.subset_cons_self _ _)
  | any _ =>
    obtain ⟨rfl, rfl⟩ := Prod.mk.inj (Option.some.inj ho)
    exact List.Subset.trans (nodes_subset_nodesOf h) (List.subset_cons_self _ _)
  | _ => exact nomatch ho

/-- The identifier of a gate is a hash of the tag and of the identifiers of its parts. -/
theorem identifier_of_gate? {tag : UInt8} (ho : o.gate? = some (tag, parts)) :
    o.identifier = sha3_256 (gateInput tag (parts.map identifier)) := by
  cases o with
  | named name inner =>
    obtain ⟨rfl, rfl⟩ := Prod.mk.inj (Option.some.inj ho)
    rfl
  | all _ =>
    obtain ⟨rfl, rfl⟩ := Prod.mk.inj (Option.some.inj ho)
    rw [← identifiers_eq]
    rfl
  | any _ =>
    obtain ⟨rfl, rfl⟩ := Prod.mk.inj (Option.some.inj ho)
    rw [← identifiers_eq]
    rfl
  | _ => exact nomatch ho

/-- What a gate hashes is among the strings hashed. -/
theorem gateInput_mem_hashed {tag : UInt8} (ho : o.gate? = some (tag, parts)) :
    gateInput tag (parts.map identifier) ∈ o.hashed :=
  List.mem_filterMap.2 ⟨o, self_mem_nodes o, by rw [ho]; rfl⟩

/-- What an outline puts into frames for itself is framed wherever it stands. -/
theorem mem_framed {node : Outline G} {data : Bytes} (hnode : node ∈ o.nodes)
    (h : data ∈ node.frames) : data ∈ o.framed :=
  List.mem_flatMap.2 ⟨node, hnode, h⟩

/-- What is framed in a part is framed in the whole. -/
theorem framed_subset (hsub : part.nodes ⊆ o.nodes) : part.framed ⊆ o.framed := by
  intro data hdata
  obtain ⟨node, hnode, hframe⟩ := List.mem_flatMap.1 hdata
  exact mem_framed (hsub hnode) hframe

/-- What is within outlines that can be compared can be compared. -/
theorem Comparable.within {inner inner' : Outline G} (h : o.Comparable o')
    (hsub : inner.nodes ⊆ o.nodes) (hsub' : inner'.nodes ⊆ o'.nodes) : inner.Comparable inner' where
  left_fits data hdata := h.left_fits data (framed_subset hsub hdata)
  right_fits data hdata := h.right_fits data (framed_subset hsub' hdata)
  collisionless x hx y hy :=
    h.collisionless x (List.filterMap_subset _ hsub hx) y (List.filterMap_subset _ hsub' hy)
  scheme_eq x hx y hy :=
    h.scheme_eq x (List.filterMap_subset _ hsub hx) y (List.filterMap_subset _ hsub' hy)

/-! ### The kinds of identifiers -/

/-- How an identifier is made: one of two texts, a hash, or frames around another. -/
inductive Kind where
  | modP
  | discreteLog
  | hash
  | frames

/-- The kind of the identifiers of a length. -/
def Kind.ofLength : Nat → Kind
  | 31 => .modP
  | 32 => .hash
  | 35 => .discreteLog
  | _ => .frames

/-- How the identifier of an outline is made. -/
def kind : Outline G → Kind
  | .modP _ => .modP
  | .discreteLog _ => .discreteLog
  | .sealed _ _ => .frames
  | _ => .hash

/-- Sealing makes the identifier longer by 29 bytes. -/
theorem length_identifier_sealed (scheme : HashCommitment) (inner : Outline G) :
    (sealed scheme inner).identifier.length = 29 + inner.identifier.length := by
  have htext : (Bytes.ofText "sigma-compose/damgard").length = 21 := rfl
  rw [identifier, frameAll_cons, frameAll_cons, frameAll_nil, List.append_nil, List.length_append,
    length_frame, length_frame, htext]
  omega

/-- The identifier of a gate has the length of a hash. -/
theorem length_identifier_of_gate? {tag : UInt8} (ho : o.gate? = some (tag, parts)) :
    o.identifier.length = 32 := by
  rw [identifier_of_gate? ho, length_sha3_256]

/-- No identifier is shorter than 29 bytes. -/
theorem le_length_identifier (o : Outline G) : 29 ≤ o.identifier.length := by
  cases o with
  | modP s => exact (by decide : 29 ≤ 31)
  | discreteLog s => exact (by decide : 29 ≤ 35)
  | sealed scheme inner =>
    rw [length_identifier_sealed]
    omega
  | _ =>
    rw [length_identifier_of_gate? rfl]
    decide

/-- The length of an identifier tells how it is made. -/
theorem ofLength_identifier (o : Outline G) : Kind.ofLength o.identifier.length = o.kind := by
  cases o with
  | modP s => rfl
  | discreteLog s => rfl
  | sealed scheme inner =>
    have hinner := le_length_identifier inner
    rw [length_identifier_sealed]
    unfold Kind.ofLength
    split
    · omega
    · omega
    · omega
    · rfl
  | _ =>
    rw [length_identifier_of_gate? rfl]
    rfl

/-- Outlines with one identifier have identifiers that are made in one way. -/
theorem kind_eq (h : o.identifier = o'.identifier) : o.kind = o'.kind := by
  rw [← ofLength_identifier, h, ofLength_identifier]

/-- Lengths of identifiers fit the eight bytes in which they are hashed. -/
theorem length_identifier_lt (h : ∀ data ∈ o.framed, data.length < 2 ^ 32) :
    o.identifier.length < 2 ^ 64 := by
  cases o with
  | modP s => exact (by decide : 31 < 2 ^ 64)
  | discreteLog s => exact (by decide : 35 < 2 ^ 64)
  | sealed scheme inner =>
    have hinner := h inner.identifier
      (mem_framed (self_mem_nodes _) (List.mem_cons_of_mem _ List.mem_cons_self))
    rw [length_identifier_sealed]
    omega
  | _ =>
    rw [length_identifier_of_gate? rfl]
    decide

/-! ### Identifier and label tell the outline -/

/-- Hashes that are equal are of equal strings, and these tell tag and parts. -/
theorem Comparable.gate_eq (h : o.Comparable o') {tag tag' : UInt8} {parts' : List (Outline G)}
    (ho : o.gate? = some (tag, parts)) (ho' : o'.gate? = some (tag', parts'))
    (hidentifier : o.identifier = o'.identifier) :
    tag = tag' ∧ parts.map identifier = parts'.map identifier := by
  rw [identifier_of_gate? ho, identifier_of_gate? ho'] at hidentifier
  have hinput :=
    h.collisionless _ (gateInput_mem_hashed ho) _ (gateInput_mem_hashed ho') hidentifier
  refine gateInput_inj (List.forall_mem_map.2 fun part hpart => ?_)
    (List.forall_mem_map.2 fun part hpart => ?_) hinput
  · exact length_identifier_lt fun data hdata =>
      h.left_fits data (framed_subset (nodes_subset_of_gate? ho hpart) hdata)
  · exact length_identifier_lt fun data hdata =>
      h.right_fits data (framed_subset (nodes_subset_of_gate? ho' hpart) hdata)

/-- What two outlines of one kind put into frames is the same if the frames are. -/
theorem Comparable.frames_eq (h : o.Comparable o')
    (hframes : frameAll o.frames = frameAll o'.frames) : o.frames = o'.frames :=
  frameAll_inj (fun data hdata => h.left_fits data (mem_framed (self_mem_nodes o) hdata))
    (fun data hdata => h.right_fits data (mem_framed (self_mem_nodes o') hdata)) hframes

/-- The parts of two gates are the same if that can be told of each. -/
theorem Comparable.parts_eq {tag tag' : UInt8} {parts' : List (Outline G)} (h : o.Comparable o')
    (ho : o.gate? = some (tag, parts)) (ho' : o'.gate? = some (tag', parts'))
    (hidentifier : o.identifier = o'.identifier) (hlabels : parts.map label = parts'.map label)
    (hparts : ∀ part ∈ parts, ∀ {part'}, part.Comparable part' →
      part.identifier = part'.identifier → part.label = part'.label → part = part') :
    parts = parts' := by
  have hidentifiers := (h.gate_eq ho ho' hidentifier).2
  have hcomparable : ∀ part ∈ parts, ∀ part' ∈ parts', part.Comparable part' :=
    fun part hpart part' hpart' =>
      h.within (nodes_subset_of_gate? ho hpart) (nodes_subset_of_gate? ho' hpart')
  -- From here on parts are compared place by place, and no longer have to be those of a gate.
  clear ho ho'
  induction parts generalizing parts' with
  | nil => exact (List.map_eq_nil_iff.1 hidentifiers.symm).symm
  | cons part rest ih =>
    cases parts' with
    | nil => exact nomatch hidentifiers
    | cons part' rest' =>
      obtain ⟨hidentifier, hidentifiers⟩ := List.cons.inj hidentifiers
      obtain ⟨hlabel, hlabels⟩ := List.cons.inj hlabels
      rw [List.forall_mem_cons] at hparts hcomparable
      have hpart := hparts.1 (hcomparable.1 part' List.mem_cons_self) hidentifier hlabel
      rw [hpart, ih hlabels hparts.2 hidentifiers fun part hpart part' hpart' =>
        hcomparable.2 part hpart part' (List.mem_cons_of_mem _ hpart')]

end

/-- Outlines with one identifier and one label are the same. -/
theorem Comparable.eq {o o' : Outline G}
    (hlength : ∀ a : G, (PrimeGroup.encode a).length = PrimeGroup.elementLength G)
    (hencode : Function.Injective (PrimeGroup.encode (G := G))) (h : o.Comparable o')
    (hidentifier : o.identifier = o'.identifier) (hlabel : o.label = o'.label) : o = o' := by
  -- The other outline is of the same kind by the length of its identifier, or else by its tag.
  induction o using Outline.induction generalizing o' with
  | modP s =>
    cases o' with
    | modP s' => rw [ModP.label_inj hlabel]
    | _ => cases kind_eq hidentifier
  | discreteLog s =>
    cases o' with
    | discreteLog s' => rw [DiscreteLog.label_inj hlength hencode hlabel]
    | _ => cases kind_eq hidentifier
  | named name inner ih =>
    cases o' with
    | named name' inner' =>
      obtain ⟨hname, hinner⟩ := List.cons.inj (h.frames_eq hlabel)
      have hparts := h.parts_eq rfl rfl hidentifier hinner (List.forall_mem_singleton.2 ih)
      rw [Bytes.ofText_injective hname, List.singleton_injective hparts]
    | all _ => exact absurd (h.gate_eq rfl rfl hidentifier).1 (by decide)
    | any _ => exact absurd (h.gate_eq rfl rfl hidentifier).1 (by decide)
    | _ => cases kind_eq hidentifier
  | all parts ih =>
    cases o' with
    | all parts' =>
      rw [label, label, labels_eq, labels_eq] at hlabel
      rw [h.parts_eq rfl rfl hidentifier (h.frames_eq hlabel) ih]
    | named _ _ => exact absurd (h.gate_eq rfl rfl hidentifier).1 (by decide)
    | any _ => exact absurd (h.gate_eq rfl rfl hidentifier).1 (by decide)
    | _ => cases kind_eq hidentifier
  | any parts ih =>
    cases o' with
    | any parts' =>
      rw [label, label, labels_eq, labels_eq] at hlabel
      rw [h.parts_eq rfl rfl hidentifier (h.frames_eq hlabel) ih]
    | named _ _ => exact absurd (h.gate_eq rfl rfl hidentifier).1 (by decide)
    | all _ => exact absurd (h.gate_eq rfl rfl hidentifier).1 (by decide)
    | _ => cases kind_eq hidentifier
  | sealed scheme inner ih =>
    cases o' with
    | sealed scheme' inner' =>
      have hscheme := h.scheme_eq scheme List.mem_cons_self scheme' List.mem_cons_self
      have hinner := h.within (List.subset_cons_self _ _) (List.subset_cons_self _ _)
      -- Nothing follows the frame of the inner identifier, so that it need not be measured.
      have hsame : inner.identifier = inner'.identifier := by
        have hframe := List.append_cancel_left hidentifier
        exact frame_injective (List.append_cancel_right hframe)
      rw [hscheme, ih hinner hsame hlabel]
    | _ => cases kind_eq hidentifier

end Outline

namespace Statement

open Protocol

/-- Statements that can be built, with one identifier and one label, have one outline and
verifiers that accept the same, if encodings of elements have one length and are told apart
and the outlines can be compared. -/
theorem Accepted.names_bind {s t : Statement G} (hs : s.Accepted) (ht : t.Accepted)
    (hlength : ∀ a : G, (PrimeGroup.encode a).length = PrimeGroup.elementLength G)
    (hencode : Function.Injective (PrimeGroup.encode (G := G)))
    (h : s.outline.Comparable t.outline)
    (hidentifier : s.protocol.identifier = t.protocol.identifier)
    (hlabel : s.protocol.label = t.protocol.label) :
    s.outline = t.outline ∧ ∀ announcement c response,
      s.protocol.Verifies announcement c response ↔
        t.protocol.Verifies announcement c response := by
  have hs' := hs.describes
  have ht' := ht.describes
  have hsame : s.outline = t.outline := by
    rw [hs'.name_eq.1, ht'.name_eq.1] at hidentifier
    rw [hs'.name_eq.2, ht'.name_eq.2] at hlabel
    exact h.eq hlength hencode hidentifier hlabel
  rw [← hsame] at ht'
  exact ⟨hsame, (hs'.agrees ht').verifies⟩

/-- The sixth power, as all of one formula. -/
def sixJoined : Statement Ristretto :=
  .conjunction (.formula six.space (.leaf "six" (.modP six))) []

/-- The sixth power, under a gate of one formula. -/
def sixGated : Statement Ristretto := .formula six.space (.all [.leaf "six" (.modP six)])

/-- The gate of the example hashes two strings. -/
theorem hashed_six : sixGated.outline.hashed =
    [gateInput 1 [gateIdentifier 0 [Bytes.ofText "sigma-compose/modp-discrete-log"]],
      gateInput 0 [Bytes.ofText "sigma-compose/modp-discrete-log"]] := rfl

/-- The two outlines of the example can be compared. -/
theorem comparable_six : sixJoined.outline.Comparable sixGated.outline := by
  have hframed : ∀ data ∈ sixGated.outline.framed, data.length < 2 ^ 32 := by decide
  have hne : gateIdentifier 1 [gateIdentifier 0 [Bytes.ofText "sigma-compose/modp-discrete-log"]] ≠
      gateIdentifier 0 [Bytes.ofText "sigma-compose/modp-discrete-log"] := by decide +kernel
  have hhashed : ∀ x ∈ sixGated.outline.hashed, ∀ y ∈ sixGated.outline.hashed,
      sha3_256 x = sha3_256 y → x = y := by
    rw [hashed_six]
    intro x hx y hy hsame
    rcases List.mem_pair.1 hx with rfl | rfl
    · rcases List.mem_pair.1 hy with rfl | rfl
      · rfl
      · exact absurd hsame hne
    · rcases List.mem_pair.1 hy with rfl | rfl
      · exact absurd hsame.symm hne
      · rfl
  exact ⟨hframed, hframed, hhashed, nofun⟩

/-- Whoever names or verifies the two takes them for one. -/
theorem Accepted.names_bind_six : sixJoined.outline = sixGated.outline ∧
    ∀ announcement c response, sixJoined.protocol.Verifies announcement c response ↔
      sixGated.protocol.Verifies announcement c response := by
  have hsix : ∀ leaf ∈ Formula.leaves (.leaf "six" (Statement.modP (G := Ristretto) six)),
      leaf.2.Accepted := List.forall_mem_singleton.2 (.modP six)
  have hjoined : sixJoined.Accepted :=
    .allOf rfl (List.forall_mem_singleton.2 (.ofFormula rfl hsix))
  have hgate : Statement.ofFormula (.all [.leaf "six" (.modP six)]) = .ok sixGated := rfl
  have hgated : sixGated.Accepted := .ofFormula hgate hsix
  exact Accepted.names_bind hjoined hgated Ristretto.exactEncoding.length_encode
    Ristretto.exactEncoding.encode_injective comparable_six rfl rfl

end Statement
end ThreeMove

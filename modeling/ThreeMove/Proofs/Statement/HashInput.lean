/-
# What is hashed to a challenge can be told apart

The challenge of a non-interactive proof is reduced from what SHAKE128 gives for one byte
string (`Noninteractive.challenge_eq_ok`).  In it the parts stand behind their lengths, in
two layers: the descriptor of the challenge space and everything else behind eight bytes
each, and within the latter every part in a frame.  A layer is taken apart where its
lengths fit, so that the string tells all parts whatever is in them, and the descriptor
tells the space.  Two derivations that differ in some part and end in one challenge
therefore show a collision, of SHAKE128 or of the reduction
(`Noninteractive.challenge_input_unambiguous`).
-/

import ThreeMove.Noninteractive
import ThreeMove.Proofs.Frame
import ThreeMove.Proofs.Statement.Accepted

namespace ThreeMove

namespace ChallengeSpace

/-- The descriptor tells the family and the modulus. -/
theorem descriptor_injective : Function.Injective descriptor := by
  rintro ⟨family, modulus, _⟩ ⟨family', modulus', _⟩ h
  have hmodulus : ∀ {name : Bytes}, name ++ Bytes.minimal modulus = name ++ Bytes.minimal modulus' →
      modulus = modulus' := fun h => Bytes.padded_injective 1 (List.append_cancel_left h)
  -- The names of the families differ in the first letter, so neither starts the other.
  cases family <;> cases family'
  case residues.residues =>
    obtain rfl := hmodulus h
    rfl
  case field.field =>
    obtain rfl := hmodulus h
    rfl
  case residues.field => exact absurd (List.cons.inj h).1 (by decide)
  case field.residues => exact absurd (List.cons.inj h).1 (by decide)

/-- What is hashed into a space tells the space and the data. -/
theorem hashInput_inj {space other : ChallengeSpace} {data data' : Bytes}
    (hlength : ∀ part ∈ [space.descriptor, data], part.length < 2 ^ 64)
    (hlength' : ∀ part ∈ [other.descriptor, data'], part.length < 2 ^ 64)
    (h : space.hashInput data = other.hashInput data') : space = other ∧ data = data' := by
  have hlayer : ∀ (space : ChallengeSpace) (data : Bytes), space.hashInput data =
      [space.descriptor, data].flatMap fun part => Bytes.be 8 part.length ++ part := by
    intro space data
    simp [hashInput]
  rw [hlayer, hlayer] at h
  have hsame := Bytes.flatMap_be_length_inj (by decide) hlength hlength' h
  obtain ⟨hdescriptor, hrest⟩ := List.cons.inj hsame
  exact ⟨descriptor_injective hdescriptor, (List.cons.inj hrest).1⟩

end ChallengeSpace

namespace Noninteractive

variable {G H : Type} (system : Noninteractive G) {other : Noninteractive H}
  {encoded encoded' data data' : Bytes}

/-- The parts of what is hashed: the descriptor of the space, and what is put in frames. -/
def parts (encoded data : Bytes) : List Bytes :=
  [system.protocol.space.descriptor, system.protocol.identifier, system.session,
    system.protocol.label, encoded, data]

/-- Everything that the hash takes in before it gives output: the opening block, and what
is hashed into the space. -/
def absorbed (encoded data : Bytes) : Bytes :=
  Duplex.openingBlock ChallengeSpace.hashDomain ++
    system.protocol.space.hashInput (system.hashInput encoded data)

/-- The bytes that are reduced to the challenge. -/
def output (encoded data : Bytes) : Bytes :=
  shake128 (system.absorbed encoded data) (system.protocol.space.encodedLength + 16)

variable {system}

/-- The challenge is reduced from the hash of what is absorbed. -/
theorem challenge_eq_ok {a : Announcement G}
    (h : system.protocol.encodeAnnouncement a = .ok encoded) (data : Bytes) :
    system.challenge a data = .ok (system.protocol.space.ofBytes (system.output encoded data)) := by
  refine bind_eq_ok.2 ⟨encoded, h, congrArg Except.ok ?_⟩
  rw [ChallengeSpace.hash, Duplex.squeeze_absorb_new]
  rfl

/-- The descriptor, and the frames of parts below four gigabytes, fit eight bytes of
length. -/
theorem lengths_lt (h : ∀ part ∈ system.parts encoded data, part.length < 2 ^ 32) :
    ∀ part ∈ [system.protocol.space.descriptor, system.hashInput encoded data],
      part.length < 2 ^ 64 := by
  simp only [parts, List.forall_mem_cons] at h
  simp only [List.forall_mem_cons, hashInput, frameAll_cons, frameAll_nil, List.length_append,
    length_frame, List.length_nil]
  exact ⟨by omega, by omega, List.forall_mem_nil _⟩

/-- What is absorbed tells the space and the parts. -/
theorem absorbed_inj (h : ∀ part ∈ system.parts encoded data, part.length < 2 ^ 32)
    (h' : ∀ part ∈ other.parts encoded' data', part.length < 2 ^ 32)
    (hsame : system.absorbed encoded data = other.absorbed encoded' data') :
    system.parts encoded data = other.parts encoded' data' := by
  obtain ⟨hspace, hinput⟩ := ChallengeSpace.hashInput_inj (lengths_lt h) (lengths_lt h')
    (List.append_cancel_left hsame)
  have hframed := frameAll_inj (List.forall_mem_cons.1 h).2 (List.forall_mem_cons.1 h').2 hinput
  rw [parts, parts, hspace, hframed]

/-- What is absorbed depends on the parts only. -/
theorem absorbed_eq_of_parts_eq (h : system.parts encoded data = other.parts encoded' data') :
    system.absorbed encoded data = other.absorbed encoded' data' := by
  obtain ⟨hdescriptor, hframed⟩ := List.cons.inj h
  have hinput : system.hashInput encoded data = other.hashInput encoded' data' :=
    congrArg frameAll hframed
  rw [absorbed, absorbed, ChallengeSpace.hashInput, ChallengeSpace.hashInput, hdescriptor, hinput]

/-- **What is hashed to a challenge is unambiguous.**  Take two derivations, for any
protocols, sessions, announcements and additional data, none of whose parts reaches four
gigabytes.  Each challenge is reduced from what SHAKE128 gives for the string absorbed.
These strings are equal just if all the parts are; and descriptors are equal just if the
spaces are.  So where the challenges are the same and some part is not, two different
strings have one hash, or two different hashes are reduced to one challenge. -/
theorem challenge_input_unambiguous {a : Announcement G} {b : Announcement H}
    (ha : system.protocol.encodeAnnouncement a = .ok encoded)
    (hb : other.protocol.encodeAnnouncement b = .ok encoded')
    (h : ∀ part ∈ system.parts encoded data, part.length < 2 ^ 32)
    (h' : ∀ part ∈ other.parts encoded' data', part.length < 2 ^ 32) :
    (system.challenge a data =
        .ok (system.protocol.space.ofBytes (system.output encoded data)) ∧
      other.challenge b data' =
        .ok (other.protocol.space.ofBytes (other.output encoded' data'))) ∧
    (system.absorbed encoded data = other.absorbed encoded' data' ↔
      system.protocol.space.descriptor = other.protocol.space.descriptor ∧
      system.protocol.identifier = other.protocol.identifier ∧
      system.session = other.session ∧ system.protocol.label = other.protocol.label ∧
      encoded = encoded' ∧ data = data') ∧
    (∀ space space' : ChallengeSpace, space.descriptor = space'.descriptor ↔ space = space') ∧
    (system.challenge a data = other.challenge b data' →
      system.parts encoded data ≠ other.parts encoded' data' →
        system.absorbed encoded data ≠ other.absorbed encoded' data' ∧
        (system.output encoded data = other.output encoded' data' ∨
          system.output encoded data ≠ other.output encoded' data' ∧
          system.protocol.space.ofBytes (system.output encoded data) =
            other.protocol.space.ofBytes (other.output encoded' data'))) := by
  have hchallenge := challenge_eq_ok ha data
  have hchallenge' := challenge_eq_ok hb data'
  have hparts : system.absorbed encoded data = other.absorbed encoded' data' ↔
      system.parts encoded data = other.parts encoded' data' :=
    ⟨absorbed_inj h h', absorbed_eq_of_parts_eq⟩
  refine ⟨⟨hchallenge, hchallenge'⟩, ?_, fun _ _ => ChallengeSpace.descriptor_injective.eq_iff, ?_⟩
  · rw [hparts]
    simp only [parts, List.cons.injEq, and_true]
  · intro hsame hdiffer
    rw [hchallenge, hchallenge'] at hsame
    refine ⟨hdiffer ∘ hparts.1, ?_⟩
    by_cases houtput : system.output encoded data = other.output encoded' data'
    · exact .inl houtput
    · exact .inr ⟨houtput, Except.ok.inj hsame⟩

/-- The hypotheses are satisfiable: a byte moved from the session to the additional data,
behind an announcement that reads like frames itself, changes what is absorbed; and so does
another statement, over scalars. -/
theorem challenge_input_unambiguous_sixOrSeven_three :
    absorbed ⟨[7], Statement.sixOrSeven.protocol⟩ [0, 0, 0, 1, 1, 0, 0, 0, 1, 13] [] ≠
      absorbed ⟨[], Statement.sixOrSeven.protocol⟩ [0, 0, 0, 1, 1, 0, 0, 0, 1, 13] [7] ∧
    absorbed ⟨[], Statement.sixOrSeven.protocol⟩ [0, 0, 0, 1, 1, 0, 0, 0, 1, 13] [7] ≠
      absorbed ⟨[], Statement.three.protocol⟩ (Bytes.zeros 32) [7] := by
  have hresidues : Statement.sixOrSeven.protocol.encodeAnnouncement
      (.any [.leaf (.residue 1), .leaf (.residue 13)]) = .ok [0, 0, 0, 1, 1, 0, 0, 0, 1, 13] := rfl
  have helements : Statement.three.protocol.encodeAnnouncement (.elements [⟨0⟩]) =
      .ok (Bytes.zeros 32) := rfl
  have hidentifier : Statement.sixOrSeven.protocol.identifier.length < 2 ^ 32 :=
    (length_sha3_256 _).trans_lt (by decide)
  have hsize : ∀ session data : Bytes, session.length < 2 ^ 32 → data.length < 2 ^ 32 →
      ∀ part ∈ parts ⟨session, Statement.sixOrSeven.protocol⟩ [0, 0, 0, 1, 1, 0, 0, 0, 1, 13] data,
        part.length < 2 ^ 32 := by
    intro session data hsession hdata
    simp only [parts, List.forall_mem_cons, hidentifier, hsession, hdata, true_and]
    exact ⟨by decide +kernel, by decide +kernel, by decide, List.forall_mem_nil _⟩
  have hsize' : ∀ part ∈ parts ⟨[], Statement.three.protocol⟩ (Bytes.zeros 32) [7],
      part.length < 2 ^ 32 := by decide +kernel
  have hmoved := challenge_input_unambiguous hresidues hresidues
    (hsize [7] [] (by decide) (by decide)) (hsize [] [7] (by decide) (by decide))
  have hother := challenge_input_unambiguous hresidues helements
    (hsize [] [7] (by decide) (by decide)) hsize'
  constructor
  · intro hsame
    obtain ⟨-, -, hsession, -⟩ := hmoved.2.1.1 hsame
    exact nomatch hsession
  · intro hsame
    obtain ⟨-, -, -, -, hencoded, -⟩ := hother.2.1.1 hsame
    exact nomatch hencoded

end Noninteractive
end ThreeMove

/-
# Where a check breaks off

Checking breaks off only where a sealed announcement is opened and has no
encoding.  Elementary protocols always come to a verdict, and a compound breaks
off where the check of some part does, on the messages in its place.
-/

import ThreeMove.Noninteractive
import ThreeMove.Proofs.Result
import ThreeMove.Protocol.Conjunction
import ThreeMove.Protocol.DiscreteLog
import ThreeMove.Protocol.Disjunction
import ThreeMove.Protocol.FormulaProof
import ThreeMove.Protocol.ModP
import ThreeMove.Protocol.Sealed

namespace ThreeMove

variable {G : Type} {a : Announcement G} {c : Nat} {r : Response G} {cause : Abort}

/-- Checking a logarithm over residues never fails. -/
theorem ModP.check_ne_error (s : ModP) : s.protocol.check a c r ≠ .error cause := by
  intro h
  simp only [ModP.protocol] at h
  split at h
  · exact nomatch h
  · exact nomatch h

/-- Checking logarithms in a group never fails. -/
theorem DiscreteLog.check_ne_error [PrimeGroup G] (s : DiscreteLog G) :
    s.protocol.check a c r ≠ .error cause := by
  intro h
  simp only [DiscreteLog.protocol] at h
  split at h
  · exact nomatch h
  · exact nomatch h

/-- Checking a conjunction fails only as it does at a branch. -/
theorem Conjunction.of_check_eq_error {first : Protocol G} {rest : List (Protocol G)}
    (h : (protocol first rest).check a c r = .error cause) :
    ∃ rs, r = .all rs ∧
      ∃ part ∈ (first :: rest).zip rs, ∃ a', part.1.check a' c part.2 = .error cause := by
  simp only [protocol] at h
  split at h
  · rename_i as rs
    split at h
    · obtain ⟨⟨⟨branch, a'⟩, r'⟩, hmem, hcause⟩ := exists_of_allM_eq_error h
      refine ⟨rs, rfl, (branch, r'), ?_, a', hcause⟩
      obtain ⟨i, hi, heq⟩ := List.mem_iff_getElem.1 hmem
      simp only [List.getElem_zip, Prod.mk.injEq] at heq
      obtain ⟨⟨rfl, -⟩, rfl⟩ := heq
      simp only [List.length_zip] at hi
      refine List.mem_iff_getElem.2 ⟨i, by rw [List.length_zip]; omega, List.getElem_zip⟩
    · exact nomatch h
  · exact nomatch h

/-- Checking a disjunction fails only as it does at one of the branches. -/
theorem Disjunction.of_check_eq_error {left right : Protocol G}
    (h : (protocol left right).check a c r = .error cause) :
    ∃ lc lr rr, r = .any [lc] [lr, rr] ∧
      ((∃ a' c', left.check a' c' lr = .error cause) ∨
        ∃ a' c', right.check a' c' rr = .error cause) := by
  simp only [protocol] at h
  split at h
  · rename_i la ra lc lr rr
    refine ⟨lc, lr, rr, rfl, ?_⟩
    obtain hleft | ⟨passed, -, h⟩ := bind_eq_error.1 h
    · exact .inl ⟨la, lc, hleft⟩
    · split at h
      · exact .inr ⟨ra, _, h⟩
      · exact nomatch h
  · exact nomatch h

/-- Checking a sealed announcement fails only as encoding or checking what was opened does. -/
theorem Sealed.of_check_eq_error {scheme : HashCommitment} {inner : Protocol G}
    (h : (protocol scheme inner).check a c r = .error cause) :
    ∃ r' opened opening, r = .opening r' opened opening ∧
      (inner.encodeAnnouncement opened = .error cause ∨
        inner.check opened c r' = .error cause) := by
  simp only [protocol] at h
  split at h
  · rename_i digest r' opened opening
    refine ⟨r', opened, opening, rfl, ?_⟩
    obtain hopened | ⟨message, -, h⟩ := bind_eq_error.1 h
    · exact .inl hopened
    · split at h
      · exact .inr h
      · exact nomatch h
  · exact nomatch h

namespace FormulaProof

variable {space : ChallengeSpace} {children : List (Gate G)}

/-- Checking children fails only as it does at one of them. -/
theorem exists_of_checkEach_eq_error {as : List (Announcement G)} {cs : List Nat}
    {rs : List (Response G)} (h : checkEach space children as cs rs = .error cause) :
    ∃ child ∈ children.zip rs, ∃ a c, check space child.1 a c child.2 = .error cause := by
  induction children generalizing as cs rs with
  | nil => exact nomatch h
  | cons child rest ih =>
    cases as with
    | nil => exact nomatch h
    | cons a as =>
      cases cs with
      | nil => exact nomatch h
      | cons c cs =>
        cases rs with
        | nil => exact nomatch h
        | cons r rs =>
          obtain hchild | ⟨passed, -, h⟩ := bind_eq_error.1 h
          · exact ⟨(child, r), List.mem_cons_self, a, c, hchild⟩
          · split at h
            · obtain ⟨other, hmem, hother⟩ := ih h
              exact ⟨other, List.mem_cons_of_mem _ hmem, hother⟩
            · exact nomatch h

/-- Checking a leaf fails only as it does with the protocol there. -/
theorem of_check_leaf_eq_error {name : String} {inner : Protocol G}
    (h : check space (.leaf name inner) a c r = .error cause) :
    ∃ r' a', r = .leaf r' ∧ inner.check a' c r' = .error cause := by
  cases a with
  | leaf a' =>
    cases r with
    | leaf r' => exact ⟨r', a', rfl, h⟩
    | _ => exact nomatch h
  | _ => exact nomatch h

/-- Checking an `all` gate fails only as it does at a child. -/
theorem of_check_all_eq_error (h : check space (.all children) a c r = .error cause) :
    ∃ rs, r = .all rs ∧
      ∃ child ∈ children.zip rs, ∃ a c, check space child.1 a c child.2 = .error cause := by
  cases a with
  | all as =>
    cases r with
    | all rs =>
      rw [check] at h
      split at h
      · exact ⟨rs, rfl, exists_of_checkEach_eq_error h⟩
      · exact nomatch h
    | _ => exact nomatch h
  | _ => exact nomatch h

/-- Checking an `any` gate fails only as it does at a child. -/
theorem of_check_any_eq_error (h : check space (.any children) a c r = .error cause) :
    ∃ shares rs, r = .any shares rs ∧
      ∃ child ∈ children.zip rs, ∃ a c, check space child.1 a c child.2 = .error cause := by
  cases a with
  | any as =>
    cases r with
    | any shares rs =>
      rw [check] at h
      split at h
      · exact ⟨shares, rs, rfl, exists_of_checkEach_eq_error h⟩
      · exact nomatch h
    | _ => exact nomatch h
  | _ => exact nomatch h

end FormulaProof

/-- The check of a proof whose announcement has an encoding is that of a transcript. -/
theorem Noninteractive.check_of_encodes {system : Noninteractive G} {proof : Proof G}
    {encoded : Bytes} (h : system.protocol.encodeAnnouncement proof.announcement = .ok encoded)
    (data : Bytes) :
    system.check proof data = system.protocol.check proof.announcement
      (system.protocol.space.hash (system.hashInput encoded data)) proof.response := by
  rw [Noninteractive.check, Noninteractive.challenge, h]
  rfl

end ThreeMove

/-
# The promises of conjunctions

A conjunction keeps each promise that all its branches keep.  Every proof is by
induction on the list of branches, the messages of the first branch being
settled before those of the others.
-/

import ThreeMove.Protocol.Conjunction
import ThreeMove.Proofs.Frame
import ThreeMove.Proofs.Protocol.Basic

namespace ThreeMove
namespace Conjunction

variable {G : Type} {branches : List (Protocol G)} {c : Nat}

/-- The check of every branch on its messages. -/
def checkAll (branches : List (Protocol G)) (announcements : List (Announcement G)) (c : Nat)
    (responses : List (Response G)) : Except Abort Bool :=
  ((branches.zip announcements).zip responses).allM fun ((branch, a), r) => branch.check a c r

/-- The branches accept where the first does and the others do. -/
theorem checkAll_cons {branch : Protocol G} {a : Announcement G} {as : List (Announcement G)}
    {r : Response G} {rs : List (Response G)} :
    checkAll (branch :: branches) (a :: as) c (r :: rs) = .ok true ↔
      branch.check a c r = .ok true ∧ checkAll branches as c rs = .ok true := by
  simp only [checkAll, List.zip_cons_cons, allM_eq_ok_true, List.forall_mem_cons]

/-- Whatever is drawn, the simulated transcripts of the branches are accepted. -/
theorem simulate_always (h : ∀ branch ∈ branches, branch.Simulates) :
    Sampler.Always (fun parts => parts.length = branches.length ∧
        checkAll branches (parts.map (·.1)) c (parts.map (·.2)) = .ok true ∧
        ∃ data, encodeParts (·.encodeAnnouncement) branches (parts.map (·.1)) = .ok data)
      (branches.mapM fun branch => branch.simulate c) := by
  induction branches with
  | nil => exact Sampler.always_pure ⟨rfl, rfl, _, rfl⟩
  | cons branch rest ih =>
    rw [List.forall_mem_cons] at h
    rw [List.mapM_cons]
    refine (h.1 c).bind fun part ⟨hcheck, data, hdata⟩ => ?_
    refine (ih h.2).bind fun parts ⟨hlength, hchecks, others, hothers⟩ => Sampler.always_pure ?_
    refine ⟨congrArg Nat.succ hlength, checkAll_cons.2 ⟨hcheck, hchecks⟩, ?_⟩
    obtain ⟨pieces, hpieces, -⟩ := map_eq_ok.1 hothers
    refine ⟨frameAll (data :: pieces), map_eq_ok.2 ⟨data :: pieces, ?_, rfl⟩⟩
    rw [mapM_eq_ok] at hpieces ⊢
    exact .cons hdata hpieces

/-- Announcing and simulating at every branch come to the same transcripts. -/
theorem announce_coupled {witnesses : List Witness}
    (h : List.Forall₂ Protocol.Hides branches witnesses) :
    Sampler.Coupled (fun parts sims => parts.length = branches.length ∧
        parts.map (·.1) = sims.map (·.1) ∧
        (branches.zip (parts.map (·.2))).mapM (fun (branch, secret) => branch.respond secret c) =
          .ok (sims.map (·.2)))
      ((branches.zip witnesses).mapM fun (branch, witness) => branch.announce witness)
      (branches.mapM fun branch => branch.simulate c) := by
  induction h with
  | nil => exact Sampler.coupled_pure ⟨rfl, rfl, rfl⟩
  | cons hbranch _ ih =>
    rw [List.zip_cons_cons, List.mapM_cons, List.mapM_cons]
    refine (hbranch c).bind fun m m' hanswers => ?_
    refine ih.bind fun parts sims ⟨hlength, hannouncements, hresponses⟩ => Sampler.coupled_pure ?_
    refine ⟨congrArg Nat.succ hlength, ?_, ?_⟩
    · rw [List.map_cons, List.map_cons, hanswers.announcement, hannouncements]
    · rw [mapM_eq_ok] at hresponses ⊢
      exact .cons hanswers.response hresponses

/-- Transcripts that the branches accept can be simulated. -/
theorem simulate_produces {parts : List (Announcement G × Response G)}
    (h : ∀ branch ∈ branches, branch.Recovers)
    (has : List.Forall₂ (fun branch => Decodes branch.decodeAnnouncement) branches
      (parts.map (·.1)))
    (hrs : List.Forall₂ (fun branch => Decodes branch.decodeResponse) branches (parts.map (·.2)))
    (hcheck : checkAll branches (parts.map (·.1)) c (parts.map (·.2)) = .ok true) :
    Sampler.Produces (branches.mapM fun branch => branch.simulate c) parts := by
  induction branches generalizing parts with
  | nil =>
    obtain rfl : parts = [] := List.map_eq_nil_iff.1 (List.forall₂_nil_left_iff.1 has)
    exact Sampler.produces_pure []
  | cons branch rest ih =>
    cases parts with
    | nil => exact nomatch has
    | cons part parts =>
      rw [List.forall_mem_cons] at h
      rw [List.map_cons, List.forall₂_cons] at has hrs
      obtain ⟨hbranch, hrest⟩ := checkAll_cons.1 hcheck
      obtain ⟨⟨aBytes, ha⟩, has⟩ := has
      obtain ⟨⟨rBytes, hr⟩, hrs⟩ := hrs
      rw [List.mapM_cons]
      exact (h.1 ha hr hbranch).bind ((ih h.2 has hrs hrest).bind (Sampler.produces_pure _))

/-! ### The protocol -/

/-- The verifier accepts as many messages as there are branches, where each branch
does. -/
theorem of_check {first : Protocol G} {rest : List (Protocol G)} {a : Announcement G}
    {r : Response G} (h : (protocol first rest).check a c r = .ok true) :
    ∃ as rs, a = .all as ∧ r = .all rs ∧
      (as.length = (first :: rest).length ∧ rs.length = (first :: rest).length) ∧
      checkAll (first :: rest) as c rs = .ok true := by
  simp only [protocol] at h
  split at h
  · split at h
    · rename_i hlengths
      exact ⟨_, _, rfl, rfl, hlengths, h⟩
    · exact nomatch h
  · exact nomatch h

/-- Where all branches accept, each does. -/
theorem check_of_checkAll {as : List (Announcement G)} {rs : List (Response G)}
    (h : checkAll branches as c rs = .ok true) {index : Nat} {branch : Protocol G}
    {a : Announcement G} {r : Response G} (hbranch : branches[index]? = some branch)
    (ha : as[index]? = some a) (hr : rs[index]? = some r) : branch.check a c r = .ok true := by
  have hentry : ((branches.zip as).zip rs)[index]? = some ((branch, a), r) := by
    simp only [List.getElem?_zip_eq_some, hbranch, ha, hr, and_self]
  exact allM_eq_ok_true.1 h _ (List.mem_of_getElem? hentry)

/-- Each branch accepts its announcement with some response, and its response with some
announcement. -/
theorem forall₂_of_checkAll {as : List (Announcement G)} {rs : List (Response G)}
    (has : as.length = branches.length) (hrs : rs.length = branches.length)
    (h : checkAll branches as c rs = .ok true) :
    List.Forall₂ (fun branch a => ∃ r, branch.check a c r = .ok true) branches as ∧
      List.Forall₂ (fun branch r => ∃ a, branch.check a c r = .ok true) branches rs := by
  induction branches generalizing as rs with
  | nil =>
    obtain rfl := List.length_eq_zero_iff.1 has
    obtain rfl := List.length_eq_zero_iff.1 hrs
    exact ⟨.nil, .nil⟩
  | cons branch rest ih =>
    obtain ⟨a, as, rfl⟩ := List.exists_cons_of_length_eq_add_one has
    obtain ⟨r, rs, rfl⟩ := List.exists_cons_of_length_eq_add_one hrs
    obtain ⟨hbranch, hrest⟩ := checkAll_cons.1 h
    obtain ⟨has, hrs⟩ := ih (Nat.succ.inj has) (Nat.succ.inj hrs) hrest
    exact ⟨.cons ⟨r, hbranch⟩ has, .cons ⟨a, hbranch⟩ hrs⟩

variable {first : Protocol G} {rest : List (Protocol G)}

/-- The responses of the branches are the response of the conjunction. -/
theorem respond_of_mapM {secrets : List (Secret G)} {rs : List (Response G)}
    (hlength : secrets.length = (first :: rest).length)
    (h : ((first :: rest).zip secrets).mapM (fun (branch, secret) => branch.respond secret c) =
      .ok rs) :
    (protocol first rest).respond (.all secrets) c = .ok (.all rs) := by
  simp only [protocol, hlength, if_true]
  exact map_eq_ok.2 ⟨rs, h, rfl⟩

/-- A conjunction is simulated if its branches are. -/
theorem simulates (h : ∀ branch ∈ first :: rest, branch.Simulates) :
    (protocol first rest).Simulates := by
  intro c
  refine (simulate_always h).bind fun parts ⟨hlength, hcheck, hencode⟩ => Sampler.always_pure ?_
  refine ⟨?_, hencode⟩
  rw [← hcheck]
  exact if_pos ⟨by rw [List.length_map, hlength], by rw [List.length_map, hlength]⟩

/-- A conjunction hides its witnesses if its branches do. -/
theorem hides {witnesses : List Witness}
    (h : List.Forall₂ Protocol.Hides (first :: rest) witnesses) :
    (protocol first rest).Hides (.all witnesses) := by
  intro c
  have hlength : witnesses.length = (first :: rest).length := h.length_eq.symm
  simp only [protocol, hlength, if_true]
  refine (announce_coupled h).bind fun parts sims ⟨hlength, hannouncements, hresponses⟩ =>
    Sampler.coupled_pure ⟨congrArg Announcement.all hannouncements, rfl, ?_⟩
  exact respond_of_mapM (by rw [List.length_map, hlength]) hresponses

/-- A conjunction recovers what verifies if its branches do. -/
theorem recovers (h : ∀ branch ∈ first :: rest, branch.Recovers) :
    (protocol first rest).Recovers := by
  intro a c r aBytes rBytes ha hr hcheck
  obtain ⟨as, has, rfl⟩ := map_eq_ok.1 ha
  obtain ⟨rs, hrs, rfl⟩ := map_eq_ok.1 hr
  have has := List.forall₂_map_left_iff.1 (decodes_of_decodeFrames has)
  have hrs := List.forall₂_map_left_iff.1 (decodes_of_decodeFrames hrs)
  obtain ⟨_, _, ⟨⟩, ⟨⟩, hlengths, hchecks⟩ := of_check hcheck
  obtain ⟨parts, rfl, rfl⟩ := exists_parts (hlengths.1.trans hlengths.2.symm)
  exact (simulate_produces h has hrs hchecks).bind (Sampler.produces_pure _)

end Conjunction
end ThreeMove

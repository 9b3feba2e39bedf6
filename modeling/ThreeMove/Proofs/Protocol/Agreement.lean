/-
# Protocols that agree

Two protocols agree if they read the same messages, write those they read alike and accept
the same transcripts of them (`Protocol.Agrees`).  What errors they give, what they make of
messages that cannot be read and how they prove is left open.

A compound is described by its parts: what is all of them (`Protocol.AllOf`) gives each the
one challenge, what is any of them (`Protocol.AnyOf`) gives them shares of it.  Compounds
that meet one description agree if their parts do (`AllOf.agrees`, `AnyOf.agrees`).
-/

import ThreeMove.Noninteractive
import ThreeMove.Proofs.Codec

namespace ThreeMove

variable {G : Type}

namespace Protocol

/-- Announcement and response can be read, and the verifier accepts them. -/
def Verifies (p : Protocol G) (announcement : Bytes) (c : Nat) (response : Bytes) : Prop :=
  ∃ a r, p.decodeAnnouncement announcement = .ok a ∧ p.decodeResponse response = .ok r ∧
    p.check a c r = .ok true

/-- The protocols read the same messages, write what they read alike, and accept the same
transcripts of it. -/
structure Agrees (p q : Protocol G) : Prop where
  space : p.space = q.space
  announcement : ∀ data a, p.decodeAnnouncement data = .ok a ↔ q.decodeAnnouncement data = .ok a
  response : ∀ data r, p.decodeResponse data = .ok r ↔ q.decodeResponse data = .ok r
  encode : ∀ a, Decodes p.decodeAnnouncement a → p.encodeAnnouncement a = q.encodeAnnouncement a
  check : ∀ a c r, Decodes p.decodeAnnouncement a → Decodes p.decodeResponse r →
    (p.check a c r = .ok true ↔ q.check a c r = .ok true)

section

variable {p q : Protocol G}

/-- A protocol agrees with itself. -/
theorem Agrees.refl (p : Protocol G) : p.Agrees p :=
  ⟨rfl, fun _ _ => .rfl, fun _ _ => .rfl, fun _ _ => rfl, fun _ _ _ _ _ => .rfl⟩

/-- Protocols that agree decode the same announcements. -/
theorem Agrees.decodes_announcement (h : p.Agrees q) {a : Announcement G} :
    Decodes p.decodeAnnouncement a ↔ Decodes q.decodeAnnouncement a :=
  exists_congr fun data => h.announcement data a

/-- Protocols that agree decode the same responses. -/
theorem Agrees.decodes_response (h : p.Agrees q) {r : Response G} :
    Decodes p.decodeResponse r ↔ Decodes q.decodeResponse r :=
  exists_congr fun data => h.response data r

/-- Agreement goes both ways. -/
theorem Agrees.symm (h : p.Agrees q) : q.Agrees p where
  space := h.space.symm
  announcement data a := (h.announcement data a).symm
  response data r := (h.response data r).symm
  encode a ha := (h.encode a (h.decodes_announcement.2 ha)).symm
  check a c r ha hr := (h.check a c r (h.decodes_announcement.2 ha) (h.decodes_response.2 hr)).symm

/-- Protocols that agree accept the same bytes. -/
theorem Agrees.verifies (h : p.Agrees q) (announcement : Bytes) (c : Nat) (response : Bytes) :
    p.Verifies announcement c response ↔ q.Verifies announcement c response := by
  constructor
  · rintro ⟨a, r, ha, hr, hcheck⟩
    exact ⟨a, r, (h.announcement _ _).1 ha, (h.response _ _).1 hr,
      (h.check a c r ⟨_, ha⟩ ⟨_, hr⟩).1 hcheck⟩
  · rintro ⟨a, r, ha, hr, hcheck⟩
    have ha' := (h.announcement _ _).2 ha
    have hr' := (h.response _ _).2 hr
    exact ⟨a, r, ha', hr', (h.check a c r ⟨_, ha'⟩ ⟨_, hr'⟩).2 hcheck⟩

end

end Protocol

namespace Noninteractive

/-- An encoded proof is two frames. -/
theorem decode_eq_ok_iff {system : Noninteractive G} {bytes : Bytes} {proof : Proof G} :
    system.decode bytes = .ok proof ↔ ∃ aBytes rBytes,
      (aBytes.length < 2 ^ 32 ∧ rBytes.length < 2 ^ 32) ∧ bytes = frameAll [aBytes, rBytes] ∧
        system.protocol.decodeAnnouncement aBytes = .ok proof.announcement ∧
        system.protocol.decodeResponse rBytes = .ok proof.response := by
  constructor
  · intro h
    obtain ⟨⟨a, cursor⟩, ha, h⟩ := bind_eq_ok.1 h
    obtain ⟨⟨r, cursor'⟩, hr, h⟩ := bind_eq_ok.1 h
    obtain ⟨_, hfinish, heq⟩ := bind_eq_ok.1 h
    obtain rfl := Except.ok.inj heq
    obtain ⟨aBytes, haSize, hbytes, ha⟩ := FrameCursor.decode_eq_ok.1 ha
    obtain ⟨rBytes, hrSize, hcursor, hr⟩ := FrameCursor.decode_eq_ok.1 hr
    rw [hcursor, FrameCursor.finish_eq_ok.1 hfinish] at hbytes
    exact ⟨aBytes, rBytes, ⟨haSize, hrSize⟩, hbytes, ha, hr⟩
  · rintro ⟨aBytes, rBytes, ⟨haSize, hrSize⟩, rfl, ha, hr⟩
    refine bind_eq_ok.2 ⟨(proof.announcement, ⟨frameAll [rBytes]⟩), ?_, ?_⟩
    · exact FrameCursor.decode_eq_ok.2 ⟨aBytes, haSize, rfl, ha⟩
    · refine bind_eq_ok.2 ⟨(proof.response, ⟨[]⟩), ?_, rfl⟩
      exact FrameCursor.decode_eq_ok.2 ⟨rBytes, hrSize, rfl, hr⟩

/-- Encoded proofs are accepted that are decoded to one accepted for the challenge hashed. -/
theorem checkEncoded_eq_ok_true {system : Noninteractive G} {bytes data : Bytes} :
    system.checkEncoded bytes data = .ok true ↔ ∃ proof encoded, system.decode bytes = .ok proof ∧
      system.protocol.encodeAnnouncement proof.announcement = .ok encoded ∧
      system.protocol.check proof.announcement
        (system.protocol.space.hash (system.hashInput encoded data)) proof.response = .ok true := by
  rw [checkEncoded]
  constructor
  · intro h
    split at h
    · rename_i proof hread
      obtain ⟨c, hchallenge, hcheck⟩ := bind_eq_ok.1 h
      obtain ⟨encoded, hencoded, hc⟩ := bind_eq_ok.1 hchallenge
      obtain rfl := Except.ok.inj hc
      exact ⟨proof, encoded, hread, hencoded, hcheck⟩
    · exact nomatch h
  · rintro ⟨proof, encoded, hread, hencoded, hcheck⟩
    rw [hread]
    exact bind_eq_ok.2 ⟨_, bind_eq_ok.2 ⟨encoded, hencoded, rfl⟩, hcheck⟩

end Noninteractive

namespace Protocol

variable {p q : Protocol G}

/-- For protocols that agree and are named alike the same is hashed, so that one accepts an
encoded proof just if the other does. -/
theorem Agrees.checkEncoded (h : p.Agrees q) (hidentifier : p.identifier = q.identifier)
    (hlabel : p.label = q.label) (session bytes data : Bytes) :
    Noninteractive.checkEncoded ⟨session, p⟩ bytes data = .ok true ↔
      Noninteractive.checkEncoded ⟨session, q⟩ bytes data = .ok true := by
  have himp : ∀ {p q : Protocol G}, p.Agrees q → p.identifier = q.identifier →
      p.label = q.label → Noninteractive.checkEncoded ⟨session, p⟩ bytes data = .ok true →
      Noninteractive.checkEncoded ⟨session, q⟩ bytes data = .ok true := by
    intro p q h hidentifier hlabel hp
    rw [Noninteractive.checkEncoded_eq_ok_true] at hp ⊢
    obtain ⟨proof, encoded, hread, hencoded, hcheck⟩ := hp
    obtain ⟨aBytes, rBytes, hsize, hbytes, ha, hr⟩ := Noninteractive.decode_eq_ok_iff.1 hread
    refine ⟨proof, encoded, ?_, ?_, ?_⟩
    · exact Noninteractive.decode_eq_ok_iff.2 ⟨aBytes, rBytes, hsize, hbytes,
        (h.announcement _ _).1 ha, (h.response _ _).1 hr⟩
    · exact (h.encode _ ⟨_, ha⟩).symm.trans hencoded
    · have hinput : Noninteractive.hashInput ⟨session, p⟩ encoded data =
          Noninteractive.hashInput ⟨session, q⟩ encoded data := by
        rw [Noninteractive.hashInput, Noninteractive.hashInput, hidentifier, hlabel]
      rw [← hinput, ← h.space]
      exact (h.check _ _ _ ⟨_, ha⟩ ⟨_, hr⟩).1 hcheck
  exact ⟨himp h hidentifier hlabel, himp h.symm hidentifier.symm hlabel.symm⟩

/-! ### Parts -/

section

variable {parts others : List (Protocol G)}

/-- Each part accepts the messages in its place for the challenge in its place. -/
inductive AcceptsEach : List (Protocol G) → List (Announcement G) → List Nat →
    List (Response G) → Prop where
  | nil : AcceptsEach [] [] [] []
  | cons {part : Protocol G} {parts : List (Protocol G)} {a : Announcement G}
      {as : List (Announcement G)} {c : Nat} {cs : List Nat} {r : Response G}
      {rs : List (Response G)} (h : part.check a c r = .ok true)
      (hrest : AcceptsEach parts as cs rs) :
      AcceptsEach (part :: parts) (a :: as) (c :: cs) (r :: rs)

/-- Protocols in a row agree with themselves. -/
theorem forall₂_agrees_refl (parts : List (Protocol G)) : List.Forall₂ Agrees parts parts :=
  List.forall₂_same.2 fun part _ => .refl part

/-- Agreement in a row goes both ways. -/
theorem forall₂_agrees_symm (h : List.Forall₂ Agrees parts others) :
    List.Forall₂ Agrees others parts := by
  induction h with
  | nil => exact .nil
  | cons hpart _ ih => exact .cons hpart.symm ih

/-- Rows that agree read the same announcements. -/
theorem readsEach_announcement_iff (h : List.Forall₂ Agrees parts others) {data : Bytes}
    {as : List (Announcement G)} : ReadsEach (parts.map (·.decodeAnnouncement)) as data ↔
      ReadsEach (others.map (·.decodeAnnouncement)) as data := by
  have himp : ∀ {parts others : List (Protocol G)}, List.Forall₂ Agrees parts others →
      ReadsEach (parts.map (·.decodeAnnouncement)) as data →
        ReadsEach (others.map (·.decodeAnnouncement)) as data := fun h hreads => by
    refine hreads.imp (List.forall₂_map_left_iff.2 (List.forall₂_map_right_iff.2 ?_))
    exact h.imp fun _ _ hpart data a => (hpart.announcement data a).1
  exact ⟨himp h, himp (forall₂_agrees_symm h)⟩

/-- Rows that agree read the same responses. -/
theorem readsEach_response_iff (h : List.Forall₂ Agrees parts others) {data : Bytes}
    {rs : List (Response G)} : ReadsEach (parts.map (·.decodeResponse)) rs data ↔
      ReadsEach (others.map (·.decodeResponse)) rs data := by
  have himp : ∀ {parts others : List (Protocol G)}, List.Forall₂ Agrees parts others →
      ReadsEach (parts.map (·.decodeResponse)) rs data →
        ReadsEach (others.map (·.decodeResponse)) rs data := fun h hreads => by
    refine hreads.imp (List.forall₂_map_left_iff.2 (List.forall₂_map_right_iff.2 ?_))
    exact h.imp fun _ _ hpart data r => (hpart.response data r).1
  exact ⟨himp h, himp (forall₂_agrees_symm h)⟩

/-- Rows that agree write alike the announcements that can be read. -/
theorem encodeEach_announcement_eq (h : List.Forall₂ Agrees parts others)
    {as : List (Announcement G)}
    (has : List.Forall₂ (fun part => Decodes part.decodeAnnouncement) parts as) :
    Codec.encodeEach (·.encodeAnnouncement) parts as =
      Codec.encodeEach (·.encodeAnnouncement) others as := by
  induction h generalizing as with
  | nil => rfl
  | cons hpart _ ih =>
    cases has with
    | cons ha has =>
      have hrest := ih has
      rw [Codec.encodeEach, Codec.encodeEach] at hrest
      rw [Codec.encodeEach, Codec.encodeEach, List.zip_cons_cons, List.zip_cons_cons,
        List.mapM_cons, List.mapM_cons, hrest]
      dsimp only
      rw [hpart.encode _ ha]

/-- Rows that agree accept the same of what can be read. -/
theorem AcceptsEach.of_agrees {as : List (Announcement G)} {cs : List Nat} {rs : List (Response G)}
    (haccepts : AcceptsEach parts as cs rs) (h : List.Forall₂ Agrees parts others)
    (has : List.Forall₂ (fun part => Decodes part.decodeAnnouncement) parts as)
    (hrs : List.Forall₂ (fun part => Decodes part.decodeResponse) parts rs) :
    AcceptsEach others as cs rs := by
  induction haccepts generalizing others with
  | nil =>
    cases h
    exact .nil
  | cons hcheck _ ih =>
    cases h with
    | cons hpart h =>
      cases has with
      | cons ha has =>
        cases hrs with
        | cons hr hrs => exact .cons ((hpart.check _ _ _ ha hr).1 hcheck) (ih h has hrs)

end

/-! ### Compounds -/

/-- The protocol is named by the tag and its parts, and its announcements are those of the
parts, each in a frame. -/
structure GateOver (tag : UInt8) (wrap : List (Announcement G) → Announcement G)
    (parts : List (Protocol G)) (p : Protocol G) : Prop where
  inhabited : parts ≠ []
  space : ∀ part ∈ parts, part.space = p.space
  identifier : p.identifier = gateIdentifier tag (parts.map (·.identifier))
  label : p.label = frameAll (parts.map (·.label))
  announcement : ∀ data a, p.decodeAnnouncement data = .ok a ↔
    ∃ as, ReadsEach (parts.map (·.decodeAnnouncement)) as data ∧ wrap as = a
  encode : ∀ as, as.length = parts.length →
    p.encodeAnnouncement (wrap as) = frameAll <$> Codec.encodeEach (·.encodeAnnouncement) parts as

/-- All parts answer the one challenge. -/
structure AllOf (parts : List (Protocol G)) (p : Protocol G) : Prop
    extends GateOver 1 .all parts p where
  response : ∀ data r, p.decodeResponse data = .ok r ↔
    ∃ rs, ReadsEach (parts.map (·.decodeResponse)) rs data ∧ .all rs = r
  check : ∀ as c rs, p.check (.all as) c (.all rs) = .ok true ↔
    AcceptsEach parts as (parts.map fun _ => c) rs

/-- The parts answer shares of the challenge; all but the last are shown, each in a frame
before those of the responses. -/
structure AnyOf (parts : List (Protocol G)) (p : Protocol G) : Prop
    extends GateOver 2 .any parts p where
  response : ∀ data r, p.decodeResponse data = .ok r ↔ ∃ front back shares rs,
    data = front ++ back ∧
      ReadsEach (List.replicate (parts.length - 1) p.space.decode) shares front ∧
      ReadsEach (parts.map (·.decodeResponse)) rs back ∧ .any shares rs = r
  check : ∀ as c shares rs, p.check (.any as) c (.any shares rs) = .ok true ↔
    AcceptsEach parts as (shares ++ [p.space.remaining c shares]) rs

section

variable {tag : UInt8} {wrap : List (Announcement G) → Announcement G}
  {parts others : List (Protocol G)}

/-- Gates over rows that agree have one challenge space. -/
theorem GateOver.space_eq (hp : GateOver tag wrap parts p) (hq : GateOver tag wrap others q)
    (h : List.Forall₂ Agrees parts others) : p.space = q.space := by
  cases h with
  | nil => exact absurd rfl hp.inhabited
  | cons hpart _ =>
    exact (hp.space _ List.mem_cons_self).symm.trans
      (hpart.space.trans (hq.space _ List.mem_cons_self))

/-- Gates over rows that agree read the same announcements. -/
theorem GateOver.announcement_iff (hp : GateOver tag wrap parts p)
    (hq : GateOver tag wrap others q) (h : List.Forall₂ Agrees parts others) (data : Bytes)
    (a : Announcement G) :
    p.decodeAnnouncement data = .ok a ↔ q.decodeAnnouncement data = .ok a := by
  rw [hp.announcement, hq.announcement]
  exact exists_congr fun as => and_congr_left fun _ => readsEach_announcement_iff h

/-- Gates over rows that agree write alike the announcements that can be read. -/
theorem GateOver.encode_eq (hp : GateOver tag wrap parts p)
    (hq : GateOver tag wrap others q) (h : List.Forall₂ Agrees parts others) (a : Announcement G)
    (ha : Decodes p.decodeAnnouncement a) : p.encodeAnnouncement a = q.encodeAnnouncement a := by
  obtain ⟨data, hdata⟩ := ha
  obtain ⟨as, hreads, rfl⟩ := (hp.announcement data a).1 hdata
  have has := List.forall₂_map_left_iff.1 hreads.decodes
  have hlength := has.length_eq.symm
  rw [hp.encode as hlength, hq.encode as (hlength.trans h.length_eq),
    encodeEach_announcement_eq h has]

/-- What is all of parts that agree agrees. -/
theorem AllOf.agrees (hp : AllOf parts p) (hq : AllOf others q)
    (h : List.Forall₂ Agrees parts others) : p.Agrees q where
  space := hp.space_eq hq.toGateOver h
  announcement := hp.announcement_iff hq.toGateOver h
  response data r := by
    rw [hp.response, hq.response]
    exact exists_congr fun rs => and_congr_left fun _ => readsEach_response_iff h
  encode := hp.encode_eq hq.toGateOver h
  check := by
    rintro a c r ⟨aBytes, ha⟩ ⟨rBytes, hr⟩
    obtain ⟨as, has, rfl⟩ := (hp.announcement aBytes a).1 ha
    obtain ⟨rs, hrs, rfl⟩ := (hp.response rBytes r).1 hr
    have has' := List.forall₂_map_left_iff.1 ((readsEach_announcement_iff h).1 has).decodes
    have hrs' := List.forall₂_map_left_iff.1 ((readsEach_response_iff h).1 hrs).decodes
    have hchallenges : (parts.map fun _ => c) = others.map fun _ => c := by
      rw [List.map_const', List.map_const', h.length_eq]
    rw [hp.check, hq.check, ← hchallenges]
    constructor
    · exact fun haccepts => haccepts.of_agrees h (List.forall₂_map_left_iff.1 has.decodes)
        (List.forall₂_map_left_iff.1 hrs.decodes)
    · exact fun haccepts => haccepts.of_agrees (forall₂_agrees_symm h) has' hrs'

/-- What is any of parts that agree agrees. -/
theorem AnyOf.agrees (hp : AnyOf parts p) (hq : AnyOf others q)
    (h : List.Forall₂ Agrees parts others) : p.Agrees q where
  space := hp.space_eq hq.toGateOver h
  announcement := hp.announcement_iff hq.toGateOver h
  response data r := by
    rw [hp.response, hq.response, h.length_eq, hp.space_eq hq.toGateOver h]
    simp only [readsEach_response_iff h]
  encode := hp.encode_eq hq.toGateOver h
  check := by
    rintro a c r ⟨aBytes, ha⟩ ⟨rBytes, hr⟩
    obtain ⟨as, has, rfl⟩ := (hp.announcement aBytes a).1 ha
    obtain ⟨front, back, shares, rs, -, -, hrs, rfl⟩ := (hp.response rBytes r).1 hr
    have has' := List.forall₂_map_left_iff.1 ((readsEach_announcement_iff h).1 has).decodes
    have hrs' := List.forall₂_map_left_iff.1 ((readsEach_response_iff h).1 hrs).decodes
    rw [hp.check, hq.check, hp.space_eq hq.toGateOver h]
    constructor
    · exact fun haccepts => haccepts.of_agrees h (List.forall₂_map_left_iff.1 has.decodes)
        (List.forall₂_map_left_iff.1 hrs.decodes)
    · exact fun haccepts => haccepts.of_agrees (forall₂_agrees_symm h) has' hrs'

end

end Protocol
end ThreeMove

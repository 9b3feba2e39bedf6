/-
# The promises of equal discrete logarithms

Under the laws of a group of prime order, the announcement that fits a challenge
and a response is the simulated one (`DiscreteLog.accepts_iff`).  Everything else
follows: an honest announcement is the simulated one for its response, and two
accepted transcripts with one announcement give a witness away
(`DiscreteLog.smul_slope`), so that they differ in the challenge exactly if they
differ in the response (`DiscreteLog.challenge_unique`,
`DiscreteLog.response_unique`).
-/

import ThreeMove.Protocol.DiscreteLog
import ThreeMove.Proofs.Group.Laws
import ThreeMove.Proofs.Protocol.Basic

namespace ThreeMove

/-- A list that agrees with the values of `f` place by place is the list of them. -/
theorem eq_map_iff_forall_zip {α β : Type} (f : α → β) {xs : List α} {ys : List β} :
    ys = xs.map f ↔ ys.length = xs.length ∧ ∀ p ∈ xs.zip ys, p.2 = f p.1 := by
  induction xs generalizing ys with
  | nil => simp
  | cons x xs ih =>
    cases ys with
    | nil => simp
    | cons y ys =>
      simp only [List.map_cons, List.cons.injEq, List.length_cons, Nat.succ.injEq,
        List.zip_cons_cons, List.forall_mem_cons, ih]
      constructor
      · rintro ⟨hy, hlength, hrest⟩
        exact ⟨hlength, hy, hrest⟩
      · rintro ⟨hlength, hy, hrest⟩
        exact ⟨hy, hlength, hrest⟩

/-- Scalars that can be read are reduced. -/
theorem PrimeGroup.forall_lt_of_decodeScalars {G : Type} [PrimeGroup G] {data : Bytes}
    {count : Nat} {rs : List Nat} (h : decodeScalars G data count = some rs) :
    ∀ r ∈ rs, r < order G := by
  have hscalar : ∀ piece r, decodeScalar G piece = some r → r < order G := by
    intro piece r hr
    unfold decodeScalar at hr
    split at hr
    · next hlt =>
      rw [← Option.some.inj hr]
      exact hlt
    · exact nomatch hr
  unfold decodeScalars decodeChunks at h
  split at h
  · exact forall_of_mapM_eq_some hscalar h
  · exact nomatch h

namespace DiscreteLog

variable {G : Type} [PrimeGroup G] (s : DiscreteLog G)

/-- There is a pair for every base. -/
theorem length_pairs : s.pairs.length = s.bases.length := by
  rw [pairs, List.length_zip, ← s.length_eq, Nat.min_self]

/-- The first parts of the pairs are the bases. -/
theorem map_fst_pairs : s.pairs.map Prod.fst = s.bases := List.map_fst_zip s.length_eq.le

/-- The second parts of the pairs are the images. -/
theorem map_snd_pairs : s.pairs.map Prod.snd = s.images := List.map_snd_zip s.length_eq.ge

/-- There is a base, and it is not neutral. -/
theorem exists_pair : ∃ pair ∈ s.pairs, pair.1 ≠ 0 := by
  obtain ⟨base, hbase⟩ := List.exists_mem_of_ne_nil s.bases s.nonempty
  have hne : base ≠ 0 := s.ne_zero base hbase
  rw [← s.map_fst_pairs, List.mem_map] at hbase
  obtain ⟨pair, hpair, rfl⟩ := hbase
  exact ⟨pair, hpair, hne⟩

variable {s} (laws : PrimeGroup.Laws G)

include laws

/-- The verifier accepts the simulated announcement, and no other. -/
theorem accepts_iff {ts : List G} {c r : Nat} : s.accepts ts c r = true ↔ ts = s.simulated c r := by
  simp only [accepts, Bool.and_eq_true, beq_iff_eq, List.all_eq_true, simulated,
    eq_map_iff_forall_zip, length_pairs, laws.eq_sub_iff]
  refine and_congr_right fun _ => forall₂_congr fun p _ => ?_
  exact eq_comm

/-- An honest announcement is the simulated one for its response. -/
theorem announcement_eq {x : Nat} (hx : ∀ pair ∈ s.pairs, x • pair.1 = pair.2) (k c : Nat) :
    s.announcement k = s.simulated c ((k + x * c) % PrimeGroup.order G) := by
  rw [announcement, ← s.map_fst_pairs, List.map_map, simulated]
  refine List.map_congr_left fun pair hpair => ?_
  rw [Function.comp_apply, laws.eq_sub_iff, laws.mod_smul, laws.add_smul, Nat.mul_comm,
    laws.mul_smul, hx pair hpair]

/-- The difference of the responses acts on a base as that of the challenges acts
on its image. -/
theorem sub_smul_base {ts : List G} {c r c' r' : Nat} (h : s.accepts ts c r = true)
    (h' : s.accepts ts c' r' = true) {pair : G × G} (hpair : pair ∈ s.pairs) :
    (PrimeGroup.scalars G).sub r r' • pair.1 = (PrimeGroup.scalars G).sub c c' • pair.2 := by
  have hsame : s.simulated c r = s.simulated c' r' :=
    ((accepts_iff laws).1 h).symm.trans ((accepts_iff laws).1 h')
  have heach : r • pair.1 - c • pair.2 = r' • pair.1 - c' • pair.2 :=
    List.map_inj_left.1 hsame pair hpair
  obtain ⟨t, ht⟩ : ∃ t, t = r • pair.1 - c • pair.2 := ⟨_, rfl⟩
  have hresponse : r • pair.1 = t + c • pair.2 := (laws.eq_sub_iff.1 ht).symm
  have hresponse' : r' • pair.1 = t + c' • pair.2 := (laws.eq_sub_iff.1 (ht.trans heach)).symm
  calc (PrimeGroup.scalars G).sub r r' • pair.1
      = r • pair.1 - r' • pair.1 := laws.sub_smul ..
    _ = c • pair.2 - c' • pair.2 := by
        rw [hresponse, hresponse', laws.add_sub_add_left]
    _ = (PrimeGroup.scalars G).sub c c' • pair.2 := (laws.sub_smul ..).symm

/-- **Two accepted transcripts with one announcement give a witness away**, where
the challenges differ. -/
theorem smul_slope {ts : List G} {c r c' r' : Nat} (h : s.accepts ts c r = true)
    (h' : s.accepts ts c' r' = true) (hc : ¬ c ≡ c' [MOD PrimeGroup.order G]) {pair : G × G}
    (hpair : pair ∈ s.pairs) :
    (PrimeGroup.scalars G).slope c r c' r' • pair.1 = pair.2 := by
  obtain ⟨e, hslope, hinverse⟩ :=
    (PrimeGroup.scalars G).exists_slope_modEq r r' laws.prime hc
  calc (PrimeGroup.scalars G).slope c r c' r' • pair.1
      = (e * (PrimeGroup.scalars G).sub r r') • pair.1 := by
        rw [Nat.mul_comm]
        exact laws.smul_congr hslope _
    _ = e • (PrimeGroup.scalars G).sub c c' • pair.2 := by
        rw [laws.mul_smul, sub_smul_base laws h h' hpair]
    _ = 1 • pair.2 := by
        rw [← laws.mul_smul, Nat.mul_comm]
        exact laws.smul_congr hinverse _
    _ = pair.2 := laws.one_smul _

/-- One response answers one challenge to an announcement, where some image is not neutral:
otherwise the witness given away would be zero. -/
theorem challenge_unique {ts : List G} {c c' r : Nat} (hne : ∃ image ∈ s.images, image ≠ 0)
    (h : s.accepts ts c r = true) (h' : s.accepts ts c' r = true) :
    c ≡ c' [MOD PrimeGroup.order G] := by
  by_contra hc
  obtain ⟨image, himage, hne⟩ := hne
  rw [← s.map_snd_pairs, List.mem_map] at himage
  obtain ⟨pair, hpair, rfl⟩ := himage
  refine hne ?_
  rw [← smul_slope laws h h' hc hpair, ChallengeSpace.slope_self, laws.zero_smul]

/-- One response, up to the order, answers a challenge to an announcement: otherwise the
difference of two would annihilate a base. -/
theorem response_unique {ts : List G} {c r r' : Nat} (h : s.accepts ts c r = true)
    (h' : s.accepts ts c r' = true) : r ≡ r' [MOD PrimeGroup.order G] := by
  obtain ⟨pair, hpair, hne⟩ := s.exists_pair
  refine laws.modEq_of_sub_smul hne ?_
  rw [sub_smul_base laws h h' hpair, ChallengeSpace.sub_self, laws.zero_smul]

omit laws in
/-- The extractor returns that witness. -/
theorem extract_eq {ts : List G} {c r c' r' : Nat} (h : s.accepts ts c r = true)
    (h' : s.accepts ts c' r' = true) (hc : ¬ c ≡ c' [MOD PrimeGroup.order G]) :
    s.extract ts c r ts c' r' = some ((PrimeGroup.scalars G).slope c r c' r') :=
  if_pos ⟨rfl, fun heq => hc (heq ▸ Nat.ModEq.refl _), h, h'⟩

/-! ### The protocol -/

/-- The simulated transcripts of logarithms are accepted. -/
theorem simulates : s.protocol.Simulates := by
  intro c
  refine (Sampler.always_drawElement _).bind fun r _ => Sampler.always_pure ?_
  exact ⟨congrArg Except.ok ((accepts_iff laws).2 rfl), _, rfl⟩

/-- A logarithm of every pair is hidden. -/
theorem hides {x : Nat} (hx : ∀ pair ∈ s.pairs, x • pair.1 = pair.2) :
    s.protocol.Hides (.scalar x) := by
  intro c
  have hwitness : s.isWitness x = true := by
    rw [isWitness, List.all_eq_true]
    exact fun pair hpair => beq_iff_eq.2 (hx pair hpair)
  simp only [protocol, hwitness, if_true]
  refine Sampler.Coupled.element_add (x * c) fun k _ => ?_
  have hsame : s.announcement k = s.simulated c ((k + x * c) % PrimeGroup.order G) :=
    announcement_eq laws hx k c
  exact Sampler.coupled_pure ⟨congrArg Announcement.elements hsame, rfl, rfl⟩

omit laws in
/-- A scalar that is decoded is below the order. -/
theorem decodeScalar_lt {data : Bytes} {r : Nat} (h : s.decodeScalar data = .ok r) :
    r < PrimeGroup.order G := by
  unfold decodeScalar at h
  split at h
  · next r' hr =>
    rw [← Except.ok.inj h]
    exact PrimeGroup.forall_lt_of_decodeScalars hr r' (List.mem_singleton_self r')
  · exact nomatch h

omit laws in
/-- The verifier accepts elements and a scalar. -/
theorem of_check {a : Announcement G} {c : Nat} {r : Response G}
    (h : s.protocol.check a c r = .ok true) :
    ∃ ts r', a = .elements ts ∧ r = .scalar r' ∧ s.accepts ts c r' = true := by
  cases a with
  | elements ts =>
    cases r with
    | scalar r' => exact ⟨ts, r', rfl, rfl, Except.ok.inj h⟩
    | _ => exact nomatch h
  | _ => exact nomatch h

/-- What verifies for logarithms can be simulated. -/
theorem recovers (hreach : (PrimeGroup.scalars G).Reachable) : s.protocol.Recovers := by
  intro a c r aBytes rBytes _ hresponse hcheck
  obtain ⟨ts, r, rfl, rfl, haccepts⟩ := of_check hcheck
  obtain rfl := (accepts_iff laws).1 haccepts
  obtain ⟨r', hr', heq⟩ := map_eq_ok.1 hresponse
  obtain rfl := Response.scalar.inj heq
  exact (Sampler.produces_drawElement hreach (decodeScalar_lt hr')).bind (Sampler.produces_pure _)

end DiscreteLog
end ThreeMove

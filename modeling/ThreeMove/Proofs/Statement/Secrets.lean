/-
# The secrets that a statement answers with

A statement answers a challenge with just the secrets that have its parts, and refuses every other
one (`Accepted.decided_respond`).  `Statement.SecretOf` says which these are, and
`Statement.Fitted` which responses have the parts of the statement.  A secret keeps the responses
of the parts that were simulated, and the announcements of those that are sealed.  What it keeps
is handed on without a look, so that the response fits if, and only if, what is kept does
(`Accepted.fitted_iff`).
-/

import ThreeMove.Proofs.Statement.Shapes

namespace ThreeMove
namespace Statement

variable {G : Type} [PrimeGroup G] {s : Statement G} {space : ChallengeSpace}
  {gates : Formula (Statement G)} {children : List (Formula (Statement G))} {strict : Prop}

mutual

/-- The response has the parts that the statement asks for, a share for every child of an `any`
gate but the last, and opens announcements with the gates of the sealed statements. -/
inductive Fitted : Statement G → Response G → Prop where
  | modP {s : ModP} {r : Nat} : Fitted (.modP s) (.scalar r)
  | discreteLog {s : DiscreteLog G} {r : Nat} : Fitted (.discreteLog s) (.scalar r)
  | conjunction {first : Statement G} {rest : List (Statement G)} {rs : List (Response G)}
      (h : List.Forall₂ Fitted (first :: rest) rs) : Fitted (.conjunction first rest) (.all rs)
  | disjunction {left right : Statement G} {lc : Nat} {lr rr : Response G}
      (hleft : Fitted left lr) (hright : Fitted right rr) :
      Fitted (.disjunction left right) (.any [lc] [lr, rr])
  | formula {space : ChallengeSpace} {gates : Formula (Statement G)} {r : Response G}
      (h : GateFitted gates r) : Fitted (.formula space gates) r
  | sealed {scheme : HashCommitment} {inner : Statement G} {r : Response G} {a : Announcement G}
      {opening : Bytes} (hr : Fitted inner r) (ha : inner.Shaped a) :
      Fitted (.sealed scheme inner) (.opening r a opening)

/-- The response has the parts that the formula asks for. -/
inductive GateFitted : Formula (Statement G) → Response G → Prop where
  | leaf {name : String} {s : Statement G} {r : Response G} (h : Fitted s r) :
      GateFitted (.leaf name s) (.leaf r)
  | all {children : List (Formula (Statement G))} {rs : List (Response G)}
      (h : List.Forall₂ GateFitted children rs) : GateFitted (.all children) (.all rs)
  | any {children : List (Formula (Statement G))} {shares : List Nat} {rs : List (Response G)}
      (hshares : shares.length + 1 = children.length)
      (h : List.Forall₂ GateFitted children rs) : GateFitted (.any children) (.any shares rs)

end

mutual

/-- The secret has the parts that the statement is answered with.  The responses that it keeps
for simulated parts, and the announcements for sealed ones, are looked at where `strict` holds. -/
inductive SecretOf (strict : Prop) : Statement G → Secret G → Prop where
  | modP {s : ModP} {k x : Nat} : SecretOf strict (.modP s) (.nonce k x)
  | discreteLog {s : DiscreteLog G} {k x : Nat} : SecretOf strict (.discreteLog s) (.nonce k x)
  | conjunction {first : Statement G} {rest : List (Statement G)} {secrets : List (Secret G)}
      (h : List.Forall₂ (SecretOf strict) (first :: rest) secrets) :
      SecretOf strict (.conjunction first rest) (.all secrets)
  | left {left right : Statement G} {secret : Secret G} {c : Nat} {r : Response G}
      (h : SecretOf strict left secret) (hkept : strict → Fitted right r) :
      SecretOf strict (.disjunction left right) (.any [secret, .simulated c r])
  | right {left right : Statement G} {secret : Secret G} {c : Nat} {r : Response G}
      (h : SecretOf strict right secret) (hkept : strict → Fitted left r) :
      SecretOf strict (.disjunction left right) (.any [.simulated c r, secret])
  | formula {space : ChallengeSpace} {gates : Formula (Statement G)} {secret : Secret G}
      (h : GateSecretOf strict gates secret) : SecretOf strict (.formula space gates) secret
  | sealed {scheme : HashCommitment} {inner : Statement G} {secret : Secret G}
      {a : Announcement G} {randomness : Bytes} (h : SecretOf strict inner secret)
      (hkept : strict → inner.Shaped a) :
      SecretOf strict (.sealed scheme inner) (.sealed secret a randomness)

/-- The secret has the parts that the formula is answered with. -/
inductive GateSecretOf (strict : Prop) : Formula (Statement G) → Secret G → Prop where
  | leaf {name : String} {s : Statement G} {secret : Secret G} (h : SecretOf strict s secret) :
      GateSecretOf strict (.leaf name s) (.leaf secret)
  | all {children : List (Formula (Statement G))} {secrets : List (Secret G)}
      (h : List.Forall₂ (GateSecretOf strict) children secrets) :
      GateSecretOf strict (.all children) (.all secrets)
  | any {children : List (Formula (Statement G))} {secrets : List (Secret G)}
      (hcount : children.length = secrets.length)
      (hown : ∀ part ∈ children.zip secrets, part.2.simulatedChallenge? = none →
        GateSecretOf strict part.1 part.2)
      (hkept : ∀ part ∈ children.zip secrets, strict → ∀ c r, part.2 = .simulated c r →
        GateFitted part.1 r) :
      GateSecretOf strict (.any children) (.any secrets)

end

/-! ### Which secrets are answered -/

/-- A secret for an `all` gate has one part for every child. -/
theorem gateSecretOf_all {secrets : List (Secret G)} :
    GateSecretOf strict (.all children) (.all secrets) ↔
      children.length = secrets.length ∧
        ∀ part ∈ children.zip secrets, GateSecretOf strict part.1 part.2 := by
  constructor
  · rintro (_ | ⟨h⟩)
    exact ⟨h.length_eq, fun part hpart => List.forall₂_zip h hpart⟩
  · rintro ⟨hcount, h⟩
    exact .all (List.forall₂_iff_zip.2 ⟨hcount, fun hpart => h _ hpart⟩)

/-- What is asked of the secret of one child of an `any` gate. -/
structure PartSecretOf (strict : Prop) (child : Formula (Statement G)) (secret : Secret G) :
    Prop where
  own : secret.simulatedChallenge? = none → GateSecretOf strict child secret
  kept : strict → ∀ c r, secret = .simulated c r → GateFitted child r

/-- A secret for an `any` gate has one part for every child. -/
theorem gateSecretOf_any {secrets : List (Secret G)} :
    GateSecretOf strict (.any children) (.any secrets) ↔
      children.length = secrets.length ∧
        ∀ part ∈ children.zip secrets, PartSecretOf strict part.1 part.2 := by
  constructor
  · rintro ⟨⟩
    rename_i hcount hown hkept
    exact ⟨hcount, fun part hpart => ⟨hown part hpart, hkept part hpart⟩⟩
  · rintro ⟨hcount, h⟩
    exact .any hcount (fun part hpart => (h part hpart).own) fun part hpart => (h part hpart).kept

/-- An `all` gate is answered child by child, unless parts are missing. -/
theorem respond_gate_all (secrets : List (Secret G)) (c : Nat) :
    FormulaProof.respond space (formulaProtocols (.all children)) (.all secrets) c =
      if children.length = secrets.length then
        Response.all <$> (children.zip secrets).mapM fun part =>
          FormulaProof.respond space (formulaProtocols part.1) part.2 c
      else .error .invalidInstanceWitnessPair := by
  rw [formulaProtocols, formulasProtocols_eq, FormulaProof.respond, List.length_map,
    FormulaProof.respondAll_eq, List.zip_map_left, List.mapM_map]
  rfl

/-- The share of the challenge that is left for the child which is not simulated. -/
def ownShare (space : ChallengeSpace) (secrets : List (Secret G)) (c : Nat) : Nat :=
  space.remaining c (secrets.filterMap Secret.simulatedChallenge?)

/-- An `any` gate is answered child by child, unless parts are missing, and shows every share but
the last. -/
theorem respond_gate_any (secrets : List (Secret G)) (c : Nat) :
    FormulaProof.respond space (formulaProtocols (.any children)) (.any secrets) c =
      if children.length = secrets.length then
        (fun parts => Response.any (parts.map (·.1)).dropLast (parts.map (·.2))) <$>
          (children.zip secrets).mapM fun part =>
            FormulaProof.respondPart space (ownShare space secrets c) (formulaProtocols part.1)
              part.2
      else .error .invalidInstanceWitnessPair := by
  rw [formulaProtocols, formulasProtocols_eq, FormulaProof.respond, List.length_map]
  simp only [FormulaProof.respondAny_eq, List.zip_map_left, List.mapM_map]
  rfl

/-- A secret that is answered for an `all` gate holds one for each child. -/
theorem of_respond_gate_all {secret : Secret G} {c : Nat} {r : Response G}
    (h : FormulaProof.respond space (formulaProtocols (.all children)) secret c = .ok r) :
    ∃ secrets rs, secret = .all secrets ∧ r = .all rs ∧ children.length = secrets.length ∧
      List.Forall₂ (fun part r =>
        FormulaProof.respond space (formulaProtocols part.1) part.2 c = .ok r)
        (children.zip secrets) rs := by
  cases secret with
  | all secrets =>
    rw [respond_gate_all] at h
    split at h
    · rename_i hcount
      obtain ⟨rs, hrs, rfl⟩ := map_eq_ok.1 h
      exact ⟨secrets, rs, rfl, rfl, hcount, mapM_eq_ok.1 hrs⟩
    · exact nomatch h
  | _ => exact nomatch h

/-- A secret that is answered for an `any` gate holds one for each child. -/
theorem of_respond_gate_any {secret : Secret G} {c : Nat} {r : Response G}
    (h : FormulaProof.respond space (formulaProtocols (.any children)) secret c = .ok r) :
    ∃ secrets parts, secret = .any secrets ∧
      r = .any (parts.map (·.1)).dropLast (parts.map (·.2)) ∧
      children.length = secrets.length ∧
      List.Forall₂ (fun part answer => FormulaProof.respondPart space (ownShare space secrets c)
        (formulaProtocols part.1) part.2 = .ok answer) (children.zip secrets) parts := by
  cases secret with
  | any secrets =>
    rw [respond_gate_any] at h
    split at h
    · rename_i hcount
      obtain ⟨parts, hparts, rfl⟩ := map_eq_ok.1 h
      exact ⟨secrets, parts, rfl, rfl, hcount, mapM_eq_ok.1 hparts⟩
    · exact nomatch h
  | _ => exact nomatch h

/-- A child of an `any` gate is answered exactly where the secret has a part for it. -/
theorem decided_part {share : Nat} {child : Formula (Statement G)}
    (h : ∀ secret c, DecidedBy (GateSecretOf False child secret) .invalidInstanceWitnessPair
      (FormulaProof.respond space (formulaProtocols child) secret c)) (secret : Secret G) :
    DecidedBy (PartSecretOf False child secret) .invalidInstanceWitnessPair
      (FormulaProof.respondPart space share (formulaProtocols child) secret) := by
  cases hown : secret.simulatedChallenge? with
  | none =>
    rw [FormulaProof.respondPart_of_own hown]
    exact (h secret share).map.congr ⟨fun h => ⟨fun _ => h, False.elim⟩, fun h => h.own hown⟩
  | some challenge =>
    cases secret with
    | simulated c r => exact .value ⟨nofun, False.elim⟩ _
    | _ => exact nomatch hown

/-- A formula is answered with just the secrets of its parts. -/
theorem decided_gate
    (h : ∀ leaf ∈ gates.leaves, ∀ secret c,
      DecidedBy (leaf.2.SecretOf False secret) .invalidInstanceWitnessPair
        (leaf.2.protocol.respond secret c)) (secret : Secret G) (c : Nat) :
    DecidedBy (GateSecretOf False gates secret) .invalidInstanceWitnessPair
      (FormulaProof.respond space (formulaProtocols gates) secret c) := by
  induction gates using Formula.induction generalizing secret c with
  | leaf name s =>
    cases secret with
    | leaf secret =>
      have hs := h (name, s) (List.mem_singleton_self _) secret c
      exact hs.map.congr ⟨.leaf, fun | .leaf h => h⟩
    | _ => exact .failure nofun
  | all children ih =>
    have hleaves := Formula.forall_mem_leavesOf.1 h
    cases secret with
    | all secrets =>
      rw [respond_gate_all]
      split
      · rename_i hcount
        have hparts : DecidedBy (∀ part ∈ children.zip secrets, GateSecretOf False part.1 part.2)
            .invalidInstanceWitnessPair ((children.zip secrets).mapM fun part =>
              FormulaProof.respond space (formulaProtocols part.1) part.2 c) :=
          DecidedBy.mapM fun part hpart =>
            have hchild := (List.of_mem_zip hpart).1
            ih part.1 hchild (hleaves part.1 hchild) part.2 c
        exact hparts.map.congr
          ⟨fun h => gateSecretOf_all.2 ⟨hcount, h⟩, fun h => (gateSecretOf_all.1 h).2⟩
      · rename_i hcount
        exact .failure fun h => hcount (gateSecretOf_all.1 h).1
    | _ => exact .failure nofun
  | any children ih =>
    have hleaves := Formula.forall_mem_leavesOf.1 h
    cases secret with
    | any secrets =>
      rw [respond_gate_any]
      split
      · rename_i hcount
        have hparts : DecidedBy (∀ part ∈ children.zip secrets, PartSecretOf False part.1 part.2)
            .invalidInstanceWitnessPair ((children.zip secrets).mapM fun part =>
              FormulaProof.respondPart space (ownShare space secrets c) (formulaProtocols part.1)
                part.2) :=
          DecidedBy.mapM fun part hpart =>
            have hchild := (List.of_mem_zip hpart).1
            decided_part (ih part.1 hchild (hleaves part.1 hchild)) part.2
        exact hparts.map.congr
          ⟨fun h => gateSecretOf_any.2 ⟨hcount, h⟩, fun h => (gateSecretOf_any.1 h).2⟩
      · rename_i hcount
        exact .failure fun h => hcount (gateSecretOf_any.1 h).1
    | _ => exact .failure nofun

/-- A conjunction is answered part by part, unless parts are missing. -/
theorem respond_conjunction {first : Statement G} {rest : List (Statement G)}
    (secrets : List (Secret G)) (c : Nat) :
    (Statement.conjunction first rest).protocol.respond (.all secrets) c =
      if secrets.length = (first :: rest).length then
        Response.all <$> ((first :: rest).zip secrets).mapM fun part =>
          part.1.protocol.respond part.2 c
      else .error .invalidInstanceWitnessPair := by
  simp only [protocol, Conjunction.protocol]
  rw [← protocols, protocols_eq, List.length_map, List.zip_map_left, List.mapM_map]
  rfl

/-- A secret for a conjunction has one for every part. -/
theorem secretOf_conjunction {first : Statement G} {rest : List (Statement G)}
    {secrets : List (Secret G)} :
    SecretOf strict (.conjunction first rest) (.all secrets) ↔
      (first :: rest).length = secrets.length ∧
        ∀ part ∈ (first :: rest).zip secrets, SecretOf strict part.1 part.2 := by
  constructor
  · intro h
    cases h with
    | conjunction h => exact ⟨h.length_eq, fun part hpart => List.forall₂_zip h hpart⟩
  · rintro ⟨hcount, h⟩
    exact .conjunction (List.forall₂_iff_zip.2 ⟨hcount, fun hpart => h _ hpart⟩)

/-- An answer for a conjunction is one for every part. -/
theorem of_respond_conjunction {first : Statement G} {rest : List (Statement G)}
    {secret : Secret G} {c : Nat} {r : Response G}
    (h : (Statement.conjunction first rest).protocol.respond secret c = .ok r) :
    ∃ secrets rs, secret = .all secrets ∧ r = .all rs ∧
      (first :: rest).length = secrets.length ∧
      List.Forall₂ (fun part r => part.1.protocol.respond part.2 c = .ok r)
        ((first :: rest).zip secrets) rs := by
  cases secret with
  | all secrets =>
    rw [respond_conjunction] at h
    split at h
    · rename_i hcount
      obtain ⟨rs, hrs, rfl⟩ := map_eq_ok.1 h
      exact ⟨secrets, rs, rfl, rfl, hcount.symm, mapM_eq_ok.1 hrs⟩
    · exact nomatch h
  | _ => exact nomatch h

/-- A simulated part is the secret of no statement. -/
theorem not_secretOf_simulated {c : Nat} {r : Response G} :
    ¬ s.SecretOf strict (.simulated c r)
  | .formula h => nomatch h

/-- A statement is answered with just the secrets of its parts. -/
theorem Accepted.decided_respond (h : s.Accepted) (secret : Secret G) (c : Nat) :
    DecidedBy (s.SecretOf False secret) .invalidInstanceWitnessPair
      (s.protocol.respond secret c) := by
  induction h generalizing secret c with
  | modP s =>
    cases secret with
    | nonce k x => exact .value .modP _
    | _ => exact .failure nofun
  | discreteLog s =>
    cases secret with
    | nonce k x => exact .value .discreteLog _
    | _ => exact .failure nofun
  | allOf h _ ih =>
    obtain ⟨first, rest, rfl, rfl, -⟩ := allOf_eq_ok h
    cases secret with
    | all secrets =>
      rw [respond_conjunction]
      split
      · rename_i hcount
        have hparts : DecidedBy
            (∀ part ∈ (first :: rest).zip secrets, part.1.SecretOf False part.2)
            .invalidInstanceWitnessPair
            (((first :: rest).zip secrets).mapM fun part => part.1.protocol.respond part.2 c) :=
          DecidedBy.mapM fun part hpart => ih part.1 (List.of_mem_zip hpart).1 part.2 c
        exact hparts.map.congr
          ⟨fun h => secretOf_conjunction.2 ⟨hcount.symm, h⟩,
            fun h => (secretOf_conjunction.1 h).2⟩
      · rename_i hcount
        exact .failure fun h => hcount (secretOf_conjunction.1 h).1.symm
    | _ => exact .failure nofun
  | @anyOf left right _ h _ _ ihleft ihright =>
    obtain ⟨rfl, -⟩ := anyOf_eq_ok h
    change DecidedBy _ _ ((Disjunction.protocol left.protocol right.protocol).respond secret c)
    obtain ⟨lc, lr, own, rfl, heq⟩ | ⟨rc, rr, own, rfl, heq⟩ | ⟨heq, hnone⟩ :=
      Disjunction.respond_cases left.protocol right.protocol secret c
    · rw [heq]
      refine (ihright own _).map.congr ⟨fun h => .right h False.elim, fun h => ?_⟩
      cases h with
      | left h => exact absurd h not_secretOf_simulated
      | right h => exact h
    · rw [heq]
      refine (ihleft own _).map.congr ⟨fun h => .left h False.elim, fun h => ?_⟩
      cases h with
      | left h => exact h
      | right h => exact absurd h not_secretOf_simulated
    · rw [heq]
      refine .failure fun h => ?_
      cases h with
      | left => exact (hnone _ _ _).2 rfl
      | right => exact (hnone _ _ _).1 rfl
  | ofFormula h _ ih =>
    obtain ⟨space, rfl, -⟩ := ofFormula_eq_ok h
    exact (decided_gate ih secret c).congr ⟨.formula, fun | .formula h => h⟩
  | sealedBy scheme _ ih =>
    cases secret with
    | sealed secret a randomness =>
      have hinner := (ih secret c).bind fun r =>
        DecidedBy.value trivial (Response.opening r a randomness)
      exact hinner.congr ⟨fun h => .sealed h.1 False.elim, fun | .sealed h _ => ⟨h, trivial⟩⟩
    | _ => exact .failure nofun

/-! ### Which answers fit -/

/-- What each value of a walk over pairs amounts to for its pair, all of them amount to for the
pairs together. -/
theorem forall₂_iff_of_zip {α β γ : Type} {P : α → γ → Prop} {Q : α × β → Prop}
    {R : α × β → γ → Prop} {as : List α} {bs : List β} {cs : List γ}
    (hcount : as.length = bs.length) (h : List.Forall₂ R (as.zip bs) cs)
    (hiff : ∀ part ∈ as.zip bs, ∀ c, R part c → (P part.1 c ↔ Q part)) :
    List.Forall₂ P as cs ↔ ∀ part ∈ as.zip bs, Q part := by
  induction as generalizing bs cs with
  | nil =>
    cases h
    exact ⟨fun _ _ hmem => absurd hmem List.not_mem_nil, fun _ => .nil⟩
  | cons a as ih =>
    obtain ⟨b, bs, rfl⟩ := List.exists_cons_of_length_eq_add_one hcount.symm
    obtain ⟨c, cs, hc, hcs, rfl⟩ := List.forall₂_cons_left_iff.1 h
    rw [List.zip_cons_cons, List.forall_mem_cons] at hiff ⊢
    rw [List.forall₂_cons, hiff.1 c hc, ih (Nat.succ.inj hcount) hcs hiff.2]

/-- An answer for a child of an `any` gate has its parts exactly where the secret kept such a
one. -/
theorem fitted_part_iff {share : Nat} {child : Formula (Statement G)}
    (h : ∀ {secret c r}, FormulaProof.respond space (formulaProtocols child) secret c = .ok r →
      (GateFitted child r ↔ GateSecretOf True child secret)) {secret : Secret G}
    {part : Nat × Response G}
    (hpart : FormulaProof.respondPart space share (formulaProtocols child) secret = .ok part) :
    GateFitted child part.2 ↔ PartSecretOf True child secret := by
  cases hown : secret.simulatedChallenge? with
  | none =>
    rw [FormulaProof.respondPart_of_own hown] at hpart
    obtain ⟨r, hr, rfl⟩ := map_eq_ok.1 hpart
    refine (h hr).trans ⟨fun h => ⟨fun _ => h, ?_⟩, fun h => h.own hown⟩
    rintro - c r rfl
    exact nomatch hown
  | some challenge =>
    cases secret with
    | simulated c r =>
      obtain rfl : (c, r) = part := Except.ok.inj hpart
      refine ⟨fun h => ⟨nofun, ?_⟩, fun h => h.kept trivial c r rfl⟩
      rintro - _ _ ⟨⟩
      exact h
    | _ => exact nomatch hown

/-- The answer for a formula fits where what the secret keeps does. -/
theorem fitted_gate_iff (hgates : gates.hasChildlessGate = false)
    (h : ∀ leaf ∈ gates.leaves, ∀ {secret c r}, leaf.2.protocol.respond secret c = .ok r →
      (leaf.2.Fitted r ↔ leaf.2.SecretOf True secret)) {secret : Secret G} {c : Nat}
    {r : Response G}
    (hr : FormulaProof.respond space (formulaProtocols gates) secret c = .ok r) :
    GateFitted gates r ↔ GateSecretOf True gates secret := by
  induction gates using Formula.induction generalizing secret c r with
  | leaf name s =>
    cases secret with
    | leaf secret =>
      obtain ⟨r', hr', rfl⟩ := map_eq_ok.1 hr
      have hs := h (name, s) (List.mem_singleton_self _) hr'
      exact ⟨fun | .leaf h => .leaf (hs.1 h), fun | .leaf h => .leaf (hs.2 h)⟩
    | _ => exact nomatch hr
  | all children ih =>
    obtain ⟨-, hgates⟩ := Formula.gate_eq_false.1 hgates
    have hleaves := Formula.forall_mem_leavesOf.1 h
    obtain ⟨secrets, rs, rfl, rfl, hcount, hrs⟩ := of_respond_gate_all hr
    have hparts := forall₂_iff_of_zip hcount hrs fun part hpart r hr =>
      have hchild := (List.of_mem_zip hpart).1
      ih part.1 hchild (hgates part.1 hchild) (hleaves part.1 hchild) hr
    refine Iff.trans ⟨fun | .all h => h, .all⟩ (hparts.trans ?_)
    exact ⟨fun h => gateSecretOf_all.2 ⟨hcount, h⟩, fun h => (gateSecretOf_all.1 h).2⟩
  | any children ih =>
    obtain ⟨hne, hgates⟩ := Formula.gate_eq_false.1 hgates
    have hleaves := Formula.forall_mem_leavesOf.1 h
    obtain ⟨secrets, parts, rfl, rfl, hcount, hrs⟩ := of_respond_gate_any hr
    have hparts := forall₂_iff_of_zip (P := fun child answer => GateFitted child answer.2)
      (Q := fun part => PartSecretOf True part.1 part.2) hcount hrs fun part hpart _ hanswer =>
        have hchild := (List.of_mem_zip hpart).1
        fitted_part_iff (ih part.1 hchild (hgates part.1 hchild) (hleaves part.1 hchild)) hanswer
    have hshares : (parts.map (·.1)).dropLast.length + 1 = children.length := by
      have hpos : 0 < children.length := List.length_pos_iff.2 hne
      have hlength := hrs.length_eq
      rw [List.length_zip, ← hcount, Nat.min_self] at hlength
      rw [List.length_dropLast, List.length_map, ← hlength, Nat.sub_add_cancel hpos]
    rw [← List.forall₂_map_right_iff (f := fun part : Nat × Response G => part.2)] at hparts
    refine Iff.trans ⟨fun | .any _ h => h, .any hshares⟩ (hparts.trans ?_)
    exact ⟨fun h => gateSecretOf_any.2 ⟨hcount, h⟩, fun h => (gateSecretOf_any.1 h).2⟩

/-- The answer fits where what the secret keeps does. -/
theorem Accepted.fitted_iff (h : s.Accepted) {secret : Secret G} {c : Nat} {r : Response G}
    (hr : s.protocol.respond secret c = .ok r) : s.Fitted r ↔ s.SecretOf True secret := by
  induction h generalizing secret c r with
  | modP s =>
    cases secret with
    | nonce k x =>
      obtain rfl := Except.ok.inj hr
      exact ⟨fun _ => .modP, fun _ => .modP⟩
    | _ => exact nomatch hr
  | discreteLog s =>
    cases secret with
    | nonce k x =>
      obtain rfl := Except.ok.inj hr
      exact ⟨fun _ => .discreteLog, fun _ => .discreteLog⟩
    | _ => exact nomatch hr
  | allOf h _ ih =>
    obtain ⟨first, rest, rfl, rfl, -⟩ := allOf_eq_ok h
    obtain ⟨secrets, rs, rfl, rfl, hcount, hrs⟩ := of_respond_conjunction hr
    have hparts := forall₂_iff_of_zip hcount hrs fun part hpart r hr =>
      ih part.1 (List.of_mem_zip hpart).1 hr
    refine Iff.trans ⟨fun | .conjunction h => h, .conjunction⟩ (hparts.trans ?_)
    exact ⟨fun h => secretOf_conjunction.2 ⟨hcount, h⟩, fun h => (secretOf_conjunction.1 h).2⟩
  | @anyOf left right _ h _ _ ihleft ihright =>
    obtain ⟨rfl, -⟩ := anyOf_eq_ok h
    obtain ⟨lc, lr, own, rfl, heq⟩ | ⟨rc, rr, own, rfl, heq⟩ | ⟨heq, -⟩ :=
      Disjunction.respond_cases left.protocol right.protocol secret c
    · obtain ⟨rr, hrr, rfl⟩ := map_eq_ok.1 (heq.symm.trans hr)
      refine ⟨fun | .disjunction hleft hright => ?_, fun h => ?_⟩
      · exact .right ((ihright hrr).1 hright) fun _ => hleft
      · cases h with
        | left h => exact absurd h not_secretOf_simulated
        | right h hkept => exact .disjunction (hkept trivial) ((ihright hrr).2 h)
    · obtain ⟨lr, hlr, rfl⟩ := map_eq_ok.1 (heq.symm.trans hr)
      refine ⟨fun | .disjunction hleft hright => ?_, fun h => ?_⟩
      · exact .left ((ihleft hlr).1 hleft) fun _ => hright
      · cases h with
        | left h hkept => exact .disjunction ((ihleft hlr).2 h) (hkept trivial)
        | right h => exact absurd h not_secretOf_simulated
    · exact nomatch heq.symm.trans hr
  | ofFormula h _ ih =>
    obtain ⟨space, rfl, hgates⟩ := ofFormula_eq_ok h
    have hgate := fitted_gate_iff hgates.inhabited ih hr
    exact ⟨fun | .formula h => .formula (hgate.1 h), fun | .formula h => .formula (hgate.2 h)⟩
  | sealedBy scheme _ ih =>
    cases secret with
    | sealed secret a randomness =>
      obtain ⟨r', hr', ⟨⟩⟩ := bind_eq_ok.1 hr
      exact ⟨fun | .sealed h ha => .sealed ((ih hr').1 h) fun _ => ha,
        fun | .sealed h hkept => .sealed ((ih hr').2 h) (hkept trivial)⟩
    | _ => exact nomatch hr

end Statement
end ThreeMove

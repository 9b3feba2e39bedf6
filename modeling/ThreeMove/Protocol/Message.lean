/-
# Messages

One type of announcement, of response, of prover's secret and of witness serves
every statement; which constructor belongs where is given by the statement.
`residue` and `elements` are what the two kinds of elementary statements
announce.  `all` is one message for each of several statements that are proved
together, `any` one for each of several statements of which some are simulated,
and `leaf` marks a leaf of a formula.
-/

import ThreeMove.Table
import ThreeMove.Group.Basic

namespace ThreeMove

/-- What the prover sends first. Source: `PartialAnnouncement`. -/
inductive Announcement (G : Type) where
  | residue (value : Nat)
  | elements (values : List G)
  | leaf (announcement : Announcement G)
  | all (parts : List (Announcement G))
  | any (parts : List (Announcement G))
  | commitment (digest : Bytes)

/-- What the prover answers.  In an `any` response every part has a challenge of
its own; all but the last are listed, and the last is what remains.
Source: `OrResponse`, `PartialResponse`, `DamgardResponse`. -/
inductive Response (G : Type) where
  | scalar (value : Nat)
  | leaf (response : Response G)
  | all (parts : List (Response G))
  | any (challenges : List Nat) (parts : List (Response G))
  | opening (response : Response G) (announcement : Announcement G) (randomness : Bytes)

/-- What the prover keeps between announcing and answering.
Source: `ModPSecret`, `DiscreteLogSecret`, `OrAnnouncementSecret`, `PartialAnnouncementSecret`,
`DamgardSecret`. -/
inductive Secret (G : Type) where
  | nonce (nonce witness : Nat)
  | leaf (secret : Secret G)
  | simulated (challenge : Nat) (response : Response G)
  | all (parts : List (Secret G))
  | any (parts : List (Secret G))
  | sealed (secret : Secret G) (announcement : Announcement G) (randomness : Bytes)

/-- The challenge chosen in advance for a simulated part. -/
def Secret.simulatedChallenge? {G : Type} : Secret G → Option Nat
  | .simulated challenge _ => some challenge
  | _ => none

/-- What the prover knows. Source: `OrWitness`. -/
inductive Witness where
  | scalar (value : Nat)
  | all (parts : List Witness)
  | left (witness : Witness)
  | right (witness : Witness)
  | named (known : List (String × Witness))

end ThreeMove

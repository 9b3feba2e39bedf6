/-
# The two roles of a three-move protocol

A prover, a verifier, and either as one type of party.  They leave no notes.
-/

import ThreeMove.Session.Prover
import ThreeMove.Session.Verifier

namespace ThreeMove

variable {G ε : Type}

instance : Interactive (Prover G) ε where
  step prover incoming := .ofPair (prover.step incoming)
  terminated := Prover.terminated
  verdict _ := none

instance : Interactive (Verifier G) ε where
  step verifier incoming := .ofPair (verifier.step incoming)
  terminated verifier := verifier.verdict.isSome
  verdict := Verifier.verdict

/-- The prover or the verifier of a statement. -/
inductive Role (G : Type) where
  | prover (prover : Prover G)
  | verifier (verifier : Verifier G)

instance : Interactive (Role G) ε where
  step
    | .prover p, incoming => (Interactive.step p incoming).map .prover
    | .verifier v, incoming => (Interactive.step v incoming).map .verifier
  terminated
    | .prover p => Interactive.terminated ε p
    | .verifier v => Interactive.terminated ε v
  verdict
    | .prover p => Interactive.verdict ε p
    | .verifier v => Interactive.verdict ε v

end ThreeMove

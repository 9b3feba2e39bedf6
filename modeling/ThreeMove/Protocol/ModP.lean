/-
# Discrete logarithms modulo a number

The statement "I know `x` with `g ^ x = y` modulo `p`", where `g` and `y` lie in
the subgroup of residues whose `q`-th power is one.  Neither `p` nor `q` need be
prime for the protocol to run.  Announcements are residues, challenges and
responses are numbers modulo `q`.
-/

import ThreeMove.Protocol.Basic

namespace ThreeMove

/-- The statement `g ^ x = y` modulo `p`, with its parameters checked. Source: `ModPDiscreteLog`. -/
structure ModP where
  p : Nat
  q : Nat
  g : Nat
  y : Nat
  three_lt_p : 3 < p
  one_lt_q : 1 < q
  q_dvd : (p - 1) % q = 0
  one_lt_g : 1 < g
  g_lt : g < p
  g_pow : powMod g q p = 1
  y_pos : 0 < y
  y_lt : y < p
  y_pow : powMod y q p = 1

namespace ModP

/-- Checks the parameters, in this order: the sizes of `p` and `q`, that `q`
divides `p - 1`, then `g`, then `y`. Source: `ModPDiscreteLog::new`. -/
def new (p q g y : Nat) : Except Error ModP :=
  if hsize : 3 < p ∧ 1 < q then
    if hdvd : (p - 1) % q = 0 then
      if hg : 1 < g ∧ g < p ∧ powMod g q p = 1 then
        if hy : 0 < y ∧ y < p ∧ powMod y q p = 1 then
          .ok ⟨p, q, g, y, hsize.1, hsize.2, hdvd, hg.1, hg.2.1, hg.2.2, hy.1, hy.2.1, hy.2.2⟩
        else .error (.invalidParameters "y is not in the order-q subgroup")
      else .error (.invalidParameters "g does not generate the order-q subgroup")
    else .error (.invalidParameters "q does not divide p - 1")
  else .error (.invalidParameters "modulus too small")

/-- The statement that `x` is a witness of.  The power is taken before the
parameters are checked, so modulo zero there is no answer.
Source: `ModPDiscreteLog::from_witness`. -/
def ofWitness (p q g x : Nat) : Except Failure ModP :=
  if p = 0 then .error (.abort .zeroModulus)
  else Failure.ofRefused (new p q g (powMod g x p))

variable (s : ModP)

/-- Challenges and responses are residues modulo `q`. -/
def space : ChallengeSpace := ⟨.residues, s.q, s.one_lt_q⟩

/-- The number of bytes of an encoded residue modulo `p`. Source: `element_len`. -/
def elementLength : Nat := (bitLength s.p + 7) / 8

/-- The power `b ^ e` modulo `p`. -/
def power (b e : Nat) : Nat := powMod b e s.p

/-- Whether `x` is a witness. -/
def isWitness (x : Nat) : Bool := s.power s.g x == s.y

/-- Whether the response `r` answers the challenge `c` to the announcement `t`:
`g ^ r = t * y ^ c`. Source: `check_transcript`. -/
def accepts (t c r : Nat) : Bool :=
  decide (0 < t ∧ t < s.p ∧ r < s.q) && s.power s.g r == t * s.power s.y c % s.p

/-- The announcement for which `r` answers `c`: `g ^ r * y ^ (-c)`.
Source: `simulate_transcript`. -/
def simulated (c r : Nat) : Nat :=
  s.power s.g r * s.power s.y ((s.q - c % s.q) % s.q) % s.p

/-- Reads a non-zero residue modulo `p`. Source: `restore_announcement`. -/
def decodeResidue (data : Bytes) : Except Error Nat :=
  let value := Bytes.beValue data
  if data.length = s.elementLength ∧ 0 < value ∧ value < s.p then .ok value
  else .error (.invalidEncoding "Z_p announcement")

/-- Reads a residue modulo `q`. Source: `restore_response`. -/
def decodeScalar (data : Bytes) : Except Error Nat :=
  let value := Bytes.beValue data
  if data.length = s.space.encodedLength ∧ value < s.q then .ok value
  else .error (.invalidEncoding "Z_q response")

/-- The protocol for the statement. -/
def protocol {G : Type} : Protocol G where
  space := s.space
  identifier := Bytes.ofText "sigma-compose/modp-discrete-log"
  label := [s.p, s.q, s.g, s.y].flatMap (Bytes.padded s.elementLength)
  announce
    | .scalar x =>
      if s.isWitness x then do
        let k ← Sampler.drawElement s.space
        return (.residue (s.power s.g k), .nonce k (x % s.q))
      else Sampler.refuse .invalidInstanceWitnessPair
    | _ => Sampler.refuse .invalidInstanceWitnessPair
  respond
    | .nonce k x, c => .ok (.scalar ((k + c * x) % s.q))
    | _, _ => .error .invalidInstanceWitnessPair
  check
    | .residue t, c, .scalar r => .ok (s.accepts t c r)
    | _, _, _ => .ok false
  simulate c := do
    let r ← Sampler.drawElement s.space
    return (.residue (s.simulated c r), .scalar r)
  encodeAnnouncement
    | .residue t => .ok (Bytes.padded s.elementLength t)
    | _ => shapeMismatch .announcement
  encodeResponse
    | .scalar r => .ok (Bytes.padded s.space.encodedLength r)
    | _ => shapeMismatch .response
  decodeAnnouncement data := .residue <$> s.decodeResidue data
  decodeResponse data := .scalar <$> s.decodeScalar data

end ModP
end ThreeMove

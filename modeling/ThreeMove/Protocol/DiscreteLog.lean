/-
# Equal discrete logarithms in a group of prime order

The statement "I know one `x` that takes each base to its image".  With a single
base it is knowledge of a discrete logarithm.  Announcements are one element for
each base, challenges and responses are scalars.
-/

import ThreeMove.Protocol.Basic
import ThreeMove.Group.Codec

namespace ThreeMove

/-- The statement `x • base = image` for every base and its image, with its
parameters checked. Source: `DiscreteLogEquality`. -/
structure DiscreteLog (G : Type) [PrimeGroup G] where
  bases : List G
  images : List G
  nonempty : bases ≠ []
  length_eq : bases.length = images.length
  ne_zero : ∀ base ∈ bases, base ≠ 0

namespace DiscreteLog

variable {G : Type} [PrimeGroup G]

/-- Checks that there are bases, as many images, and no neutral base.
Source: `DiscreteLogEquality::new`. -/
def new (bases images : List G) : Except Error (DiscreteLog G) :=
  if hlen : bases ≠ [] ∧ bases.length = images.length then
    if hzero : ∀ base ∈ bases, base ≠ 0 then
      .ok ⟨bases, images, hlen.1, hlen.2, hzero⟩
    else .error (.invalidParameters "identity base")
  else .error (.invalidParameters "bases and images must be non-empty and of equal length")

/-- The statement that `x` is a witness of. Source: `DiscreteLogEquality::from_witness`. -/
def ofWitness (bases : List G) (x : Nat) : Except Error (DiscreteLog G) :=
  new bases (bases.map (x • ·))

/-- The statement for a single base. Source: `DiscreteLogEquality::schnorr`. -/
def single (base image : G) : Except Error (DiscreteLog G) := new [base] [image]

variable (s : DiscreteLog G)

/-- Each base with its image. -/
def pairs : List (G × G) := s.bases.zip s.images

/-- Whether `x` is a witness. Source: `is_witness`. -/
def isWitness (x : Nat) : Bool := s.pairs.all fun (base, image) => x • base == image

/-- The announcement for the nonce `k`. Source: `generate_announcement`. -/
def announcement (k : Nat) : List G := s.bases.map (k • ·)

/-- Whether the response `r` answers the challenge `c` to the announcement `ts`:
`r • base = t + c • image` throughout. Source: `check_transcript`. -/
def accepts (ts : List G) (c r : Nat) : Bool :=
  ts.length == s.bases.length &&
    (s.pairs.zip ts).all fun ((base, image), t) => r • base == t + c • image

/-- The announcement for which `r` answers `c`. Source: `simulate_transcript`. -/
def simulated (c r : Nat) : List G := s.pairs.map fun (base, image) => r • base - c • image

/-- The scalar whose product with `a` is one, where `a` is not zero and the
order is prime. -/
def scalarInverse (G : Type) [PrimeGroup G] (a : Nat) : Nat :=
  powMod a (PrimeGroup.order G - 2) (PrimeGroup.order G)

/-- The witness that two accepted transcripts with one announcement and two
challenges give away: `(r₁ - r₂) / (c₁ - c₂)`. Source: `extract_witness`. -/
def extract (ts₁ : List G) (c₁ r₁ : Nat) (ts₂ : List G) (c₂ r₂ : Nat) : Option Nat :=
  if ts₁ = ts₂ ∧ c₁ ≠ c₂ ∧ s.accepts ts₁ c₁ r₁ ∧ s.accepts ts₂ c₂ r₂ then
    let scalars := PrimeGroup.scalars G
    some (scalars.sub r₁ r₂ * scalarInverse G (scalars.sub c₁ c₂) % PrimeGroup.order G)
  else none

/-- Reads an element for each base. Source: `restore_announcement`. -/
def decodeElements (data : Bytes) : Except Error (List G) :=
  match PrimeGroup.decodeElements data s.bases.length with
  | some elements => .ok elements
  | none => .error (.invalidEncoding "discrete-log announcement")

/-- Reads a scalar. Source: `restore_response`. -/
def decodeScalar (_ : DiscreteLog G) (data : Bytes) : Except Error Nat :=
  match PrimeGroup.decodeScalars G data 1 with
  | some [r] => .ok r
  | _ => .error (.invalidEncoding "discrete-log response")

/-- The protocol for the statement. -/
def protocol : Protocol G where
  space := PrimeGroup.scalars G
  identifier := Bytes.ofText "sigma-compose/discrete-log-equality"
  label := PrimeGroup.encodeElements s.bases ++ PrimeGroup.encodeElements s.images
  announce
    | .scalar x =>
      if s.isWitness x then do
        let k ← Sampler.drawElement (PrimeGroup.scalars G)
        return (.elements (s.announcement k), .nonce k x)
      else Sampler.refuse .invalidInstanceWitnessPair
    | _ => Sampler.refuse .invalidInstanceWitnessPair
  respond
    | .nonce k x, c => .ok (.scalar ((k + x * c) % PrimeGroup.order G))
    | _, _ => .error .invalidInstanceWitnessPair
  check
    | .elements ts, c, .scalar r => .ok (s.accepts ts c r)
    | _, _, _ => .ok false
  simulate c := do
    let r ← Sampler.drawElement (PrimeGroup.scalars G)
    return (.elements (s.simulated c r), .scalar r)
  encodeAnnouncement
    | .elements ts => .ok (PrimeGroup.encodeElements ts)
    | _ => shapeMismatch .announcement
  encodeResponse
    | .scalar r => .ok (PrimeGroup.encodeScalars G [r])
    | _ => shapeMismatch .response
  decodeAnnouncement data := .elements <$> s.decodeElements data
  decodeResponse data := .scalar <$> s.decodeScalar data

end DiscreteLog
end ThreeMove

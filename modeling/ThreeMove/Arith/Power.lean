/-
# Powers modulo a number

`powMod b e n` is `b ^ e % n`, computed by squaring and multiplying along the
binary digits of the exponent, so that numbers of thousands of bits are within
reach.  The recursion is on the number of digits.
-/

namespace ThreeMove

/-- The number of binary digits of `n`; zero has none. Source: `bits`. -/
def bitLength (n : Nat) : Nat := if n = 0 then 0 else n.log2 + 1

/-- `acc * b ^ e % n` for an exponent of at most `digits` binary digits. -/
def powMod.go (n : Nat) : (digits b e acc : Nat) → Nat
  | 0, _, _, acc => acc
  | digits + 1, b, e, acc =>
    go n digits (b * b % n) (e / 2) (if e % 2 = 1 then acc * b % n else acc)

/-- The power `b ^ e` reduced modulo `n`. Source: `modpow`. -/
def powMod (b e n : Nat) : Nat := powMod.go n (bitLength e) (b % n) e (1 % n)

end ThreeMove

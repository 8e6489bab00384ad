import StakeChain.Bytes.Basic

/-!
# The field of integers modulo 2^255 - 19

Elements are natural numbers below `Field.p`; every operation reduces its result, so each
function returns a canonical representative.

* `Field.powMod`: exponentiation by repeated squaring;
* `Field.inv`: the inverse by Fermat's little theorem (`inv 0 = 0`);
* `Field.sqrtRatio`: a square root of a quotient `u / v`, when one exists.
-/

set_option autoImplicit false

namespace StakeChain.Field

/-- The prime 2^255 - 19. -/
def p : Nat := Nat.pow 2 255 - 19

def add (a b : Nat) : Nat := (a + b) % p
def sub (a b : Nat) : Nat := (a % p + p - b % p) % p
def mul (a b : Nat) : Nat := a * b % p
def neg (a : Nat) : Nat := (p - a % p) % p

/-- `b ^ e` modulo `m`, squaring once per bit of `e`; `fuel` bounds the number of bits and
is never exhausted while `e ≤ fuel`, since each step halves `e` and spends one unit. -/
def powModFuel (b m : Nat) : Nat → Nat → Nat
  | 0, _ => 1 % m
  | fuel + 1, e =>
    if e = 0 then 1 % m
    else
      let half := powModFuel b m fuel (e / 2)
      let sq := half * half % m
      if e % 2 = 1 then sq * (b % m) % m else sq

/-- `b ^ e` modulo `m`, squaring once per bit of the exponent. -/
def powMod (b e m : Nat) : Nat := powModFuel b m e e

/-- `b ^ e` in the field. -/
def pow (b e : Nat) : Nat := powMod b e p

/-- The multiplicative inverse; zero has none and is sent to zero. -/
def inv (a : Nat) : Nat := pow a (p - 2)

/-- A square root of -1. -/
def sqrtMinusOne : Nat := pow 2 ((p - 1) / 4)

/-- Whether an element is odd, the sign of the Edwards x-coordinate in its encoding. -/
def isOdd (a : Nat) : Bool := a % p % 2 == 1

/-- A square root `r` of `u / v` with `r` even, and whether `u / v` is a square.

The candidate `r = u v^3 (u v^7)^((p-5)/8)` satisfies `v r^2 = ±u` or `v r^2 = ±u i`; in the
first case `r` or `r i` is the root.  When `u / v` is no square the flag is `false`. -/
def sqrtRatio (u v : Nat) : Bool × Nat :=
  let v3 := mul (mul v v) v
  let v7 := mul (mul v3 v3) v
  let r := mul (mul u v3) (pow (mul u v7) ((p - 5) / 8))
  let check := mul v (mul r r)
  let correct := check == u % p
  let flipped := check == neg u
  let flippedI := check == mul (neg u) sqrtMinusOne
  let r := if flipped || flippedI then mul r sqrtMinusOne else r
  let r := if isOdd r then neg r else r
  (correct || flipped, r)

end StakeChain.Field

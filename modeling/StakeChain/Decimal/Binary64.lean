/-!
# Decimals and binary64 numbers

A binary64 number is a sign, an 11-bit biased exponent and a 52-bit fraction.  A finite one
with exponent field `x` and fraction `f` is `f · 2^-1074` when `x = 0` (subnormal) and
`(2^52 + f) · 2^(x - 1075)` otherwise.

A decimal `m · 10^e` read as a binary64 number rounds to the nearest such value, a tie going to
the even significand.  The largest finite value is `(2^53 - 1) · 2^971`; halfway between it
and `2^1024` lies `(2^54 - 1) · 2^970`, and since the largest value's significand is odd, a
decimal at or above that point rounds to infinity.

* `Binary64.decode`: the parts of a word;
* `Decimal.overflowsBinary64 m e`: whether `m · 10^e` rounds to infinity.
-/

set_option autoImplicit false

namespace StakeChain

/-- The parts of a binary64 word. -/
inductive Binary64 where
  /-- `(-1)^negative · significand · 2^exponent`, zero included. -/
  | finite (negative : Bool) (significand : Nat) (exponent : Int)
  | infinite (negative : Bool)
  | nan
  deriving Repr, DecidableEq

namespace Binary64

/-- `2^52`, the weight of the hidden bit. -/
def hiddenBit : Nat := 4503599627370496

/-- The parts of a word: sign bit, exponent field and fraction field. -/
def decode (bits : UInt64) : Binary64 :=
  let n := bits.toNat
  let negative := n ≥ 9223372036854775808
  let field := (n / hiddenBit) % 2048
  let fraction := n % hiddenBit
  if field = 2047 then
    if fraction = 0 then .infinite negative else .nan
  else if field = 0 then .finite negative fraction (-1074)
  else .finite negative (hiddenBit + fraction) ((field : Int) - 1075)

end Binary64

namespace Decimal

/-- Halfway between the largest finite binary64 value and `2^1024`: `(2^54 - 1) · 2^970`. -/
def binary64Overflow : Nat := (Nat.pow 2 54 - 1) * Nat.pow 2 970

/-- The number of decimal digits of a number (one for zero). -/
def digitCount (m : Nat) : Nat := (Nat.toDigits 10 m).length

/-- Whether the decimal `m · 10^e` rounds to infinity as a binary64 number.  A value with `d`
digits before the point lies in `[10^(d-1), 10^d)`, and `10^308 < binary64Overflow < 10^309`,
so only values of 309 integer digits are compared exactly. -/
def overflowsBinary64 (m : Nat) (e : Int) : Bool :=
  if m = 0 then false
  else
    let d : Int := (digitCount m : Int) + e
    if d ≤ 308 then false
    else if d ≥ 310 then true
    else if e ≥ 0 then m * Nat.pow 10 e.toNat ≥ binary64Overflow
    else m ≥ binary64Overflow * Nat.pow 10 (-e).toNat

end Decimal

end StakeChain

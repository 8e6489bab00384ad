import StakeChain.Decimal.Binary64

/-!
# The shortest decimal of a binary64 number

A finite binary64 number `v = m · 2^q` stands for every real that rounds to it: those strictly
closer to `v` than to its neighbours, and the two halfway points too when `m` is even (a tie
goes to the even significand).  The neighbours are `v ± 2^q`, except that below a power of two
the gap halves.

The shortest decimal of `v` is a decimal with the fewest significant digits in that interval,
and of two such the one nearer to `v` (the upper one on a tie).  For `n` digits only the two
multiples of `10^k` around `v` are candidates, `k` leaving `n` digits: if any `n`-digit decimal
lies in the interval, one of those two does, because the interval holds `v`.

`Binary64.text` writes a number the way the number's plain display does: the shortest decimal
without an exponent, `-` for a negative sign (also of zero), and `inf` / `NaN` for the
non-finite values.  `Binary64.shortText` writes the same digits in the short form of a float,
with an exponent for very large and very small numbers.
-/

set_option autoImplicit false

namespace StakeChain

namespace Decimal

/-- A decimal `digits · 10^exponent`. -/
structure Scaled where
  digits : Nat
  exponent : Int
  deriving Repr, DecidableEq

/-- The same decimal without trailing zeros in its digits; `fuel` bounds the zeros removed. -/
def Scaled.trim : Nat → Scaled → Scaled
  | 0, d => d
  | fuel + 1, d =>
    if d.digits ≠ 0 ∧ d.digits % 10 = 0 then trim fuel ⟨d.digits / 10, d.exponent + 1⟩ else d

/-- The rounding interval of `m · 2^q` and the value itself, as `(low, value, high)` with a
common scale `10^s`: all three are integers times `10^s`. -/
def interval (m : Nat) (q : Int) : (Nat × Nat × Nat) × Int :=
  let t := q - 2
  -- below a power of two the lower gap is half the upper one
  let low := if m = Binary64.hiddenBit ∧ q > -1074 then 4 * m - 1 else 4 * m - 2
  if t ≥ 0 then
    let p := Nat.pow 2 t.toNat
    ((low * p, 4 * m * p, (4 * m + 2) * p), 0)
  else
    let p := Nat.pow 5 (-t).toNat
    ((low * p, 4 * m * p, (4 * m + 2) * p), t)

/-- The shortest decimal, as a multiple of `10^k`, for the value `v` in the interval `[lo, hi]`
(ends included when `closed`), trying `n` significant digits first and more after, up to `len`,
the digits of `v`. -/
def shortestFrom (lo v hi : Nat) (closed : Bool) (len : Nat) : Nat → Nat → Nat × Nat
  | 0, _ => (v, 0)
  | fuel + 1, n =>
    let k := len - n
    let p := Nat.pow 10 k
    let down := v / p
    let up := down + 1
    let inside (x : Nat) : Bool := if closed then lo ≤ x && x ≤ hi else lo < x && x < hi
    let downIn := inside (down * p)
    let upIn := inside (up * p)
    if downIn && upIn then
      if v - down * p < up * p - v then (down, k) else (up, k)
    else if downIn then (down, k)
    else if upIn then (up, k)
    else shortestFrom lo v hi closed len fuel (n + 1)

/-- The shortest decimal of the positive binary64 number `m · 2^q`. -/
def shortest (m : Nat) (q : Int) : Scaled :=
  let ((lo, v, hi), s) := interval m q
  let len := digitCount v
  let (d, k) := shortestFrom lo v hi (m % 2 = 0) len len 1
  Scaled.trim (digitCount d) ⟨d, (k : Int) + s⟩

/-- A decimal written without an exponent. -/
def Scaled.plain (d : Scaled) : String :=
  let ds := Nat.toDigits 10 d.digits
  -- the position of the point, counted from the left of the digits
  let point : Int := (ds.length : Int) + d.exponent
  let zeros (n : Nat) : List Char := List.replicate n '0'
  if point ≤ 0 then String.ofList ('0' :: '.' :: zeros (-point).toNat ++ ds)
  else if point < ds.length then
    String.ofList (ds.take point.toNat ++ '.' :: ds.drop point.toNat)
  else String.ofList (ds ++ zeros (point.toNat - ds.length))

/-- A decimal in the short form of a float: positionally when its point lies from four places
left of its first digit to sixteen places right of it, with a `.0` when it has no fraction
(`5.0`, `0.0001`, `1234.5`); else its digits as `d.ddd` times a power of ten, the exponent
written with its sign (`1e-7`, `1.5e+20`). -/
def Scaled.short (d : Scaled) : String :=
  let ds := Nat.toDigits 10 d.digits
  -- the position of the point, counted from the left of the digits
  let point : Int := (ds.length : Int) + d.exponent
  let zeros (n : Nat) : List Char := List.replicate n '0'
  if 0 ≤ d.exponent ∧ point ≤ 16 then String.ofList (ds ++ zeros d.exponent.toNat ++ ['.', '0'])
  else if 0 < point ∧ point ≤ 16 then
    String.ofList (ds.take point.toNat ++ '.' :: ds.drop point.toNat)
  else if -5 < point ∧ point ≤ 0 then String.ofList ('0' :: '.' :: zeros (-point).toNat ++ ds)
  else
    let e := point - 1
    let mantissa := match ds with
      | c :: rest@(_ :: _) => c :: '.' :: rest
      | _ => ds
    String.ofList mantissa ++ "e" ++ (if e < 0 then "-" else "+") ++ toString e.natAbs

end Decimal

namespace Binary64

/-- A number written as its shortest decimal, without an exponent. -/
def text : Binary64 → String
  | .nan => "NaN"
  | .infinite negative => if negative then "-inf" else "inf"
  | .finite negative m q =>
    let body := if m = 0 then "0" else (Decimal.shortest m q).plain
    if negative then "-" ++ body else body

/-- A number in the short form of a float (`Scaled.short`); zero is `0.0`. -/
def shortText : Binary64 → String
  | .nan => "NaN"
  | .infinite negative => if negative then "-inf" else "inf"
  | .finite negative m q =>
    let body := if m = 0 then "0.0" else (Decimal.shortest m q).short
    if negative then "-" ++ body else body

end Binary64

end StakeChain

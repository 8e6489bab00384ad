import StakeChain.Curve.Field

/-!
# The twisted Edwards curve of Ed25519

Points of `-x^2 + y^2 = 1 + d x^2 y^2` over the field modulo 2^255 - 19, in extended
projective coordinates `(X : Y : Z : T)` with `x = X / Z`, `y = Y / Z`, `x y = T / Z`.

* `Point.add`, `Point.double`: the unified addition and the doubling formulas in extended
  coordinates;
* `Point.smul`: multiplication by a natural number, by double-and-add from the top bit;
* `baseMul`: multiplication of the base point, from a table of its multiples;
* `Point.compress`, `decompress`: the 32-byte encoding (y little-endian, the sign of x in
  the top bit).  Decoding reads y modulo 2^255 and reduces it, so encodings of y at or above
  the prime are accepted; it fails only when x^2 = (y^2 - 1) / (d y^2 + 1) has no root.
-/

set_option autoImplicit false

namespace StakeChain.Edwards

open StakeChain.Field

/-- The curve constant d = -121665 / 121666. -/
def d : Nat := mul (neg 121665) (inv 121666)

/-- Twice the curve constant. -/
def d2 : Nat := add d d

/-- A point in extended coordinates. -/
structure Point where
  x : Nat
  y : Nat
  z : Nat
  t : Nat

namespace Point

/-- The neutral element (0, 1). -/
def identity : Point := ⟨0, 1, 1, 0⟩

/-- The sum of two points. -/
def add (P Q : Point) : Point :=
  let a := mul (sub P.y P.x) (sub Q.y Q.x)
  let b := mul (Field.add P.y P.x) (Field.add Q.y Q.x)
  let c := mul (mul P.t d2) Q.t
  let dd := mul (Field.add P.z P.z) Q.z
  let e := sub b a
  let f := sub dd c
  let g := Field.add dd c
  let h := Field.add b a
  ⟨mul e f, mul g h, mul f g, mul e h⟩

/-- Twice a point. -/
def double (P : Point) : Point :=
  let a := mul P.x P.x
  let b := mul P.y P.y
  let c := mul 2 (mul P.z P.z)
  let h := Field.add a b
  let xy := Field.add P.x P.y
  let e := sub h (mul xy xy)
  let g := sub a b
  let f := Field.add c g
  ⟨mul e f, mul g h, mul f g, mul e h⟩

/-- The opposite point (-x, y). -/
def negate (P : Point) : Point := ⟨neg P.x, P.y, P.z, neg P.t⟩

/-- `n` times a point by double-and-add, with `fuel` bounding the bits of `n` as in
`Field.powModFuel`. -/
def smulFuel (P : Point) : Nat → Nat → Point
  | 0, _ => identity
  | fuel + 1, n =>
    if n = 0 then identity
    else
      let q := (smulFuel P fuel (n / 2)).double
      if n % 2 = 1 then q.add P else q

/-- `n` times a point. -/
def smul (n : Nat) (P : Point) : Point := smulFuel P n n

/-- The 32-byte encoding: y little-endian with the parity of x in the top bit. -/
def compress (P : Point) : Bytes :=
  let zi := inv P.z
  let x := mul P.x zi
  let y := mul P.y zi
  Bytes.leN 32 (y + (if x % 2 = 1 then Nat.pow 2 255 else 0))

/-- Whether the point is the neutral element. -/
def isIdentity (P : Point) : Bool := P.compress == identity.compress

/-- Whether the point has order dividing 8, i.e. lies in the small torsion subgroup. -/
def isSmallOrder (P : Point) : Bool := (smul 8 P).isIdentity

end Point

/-- The point that 32 bytes encode, if the encoded y has a matching x. -/
def decompress (b : Bytes) : Option Point :=
  let raw := Bytes.readLe b
  let y := raw % Nat.pow 2 255 % p
  let sign := raw / Nat.pow 2 255 % 2 == 1
  let yy := mul y y
  let u := sub yy 1
  let v := Field.add (mul yy d) 1
  let (ok, x) := sqrtRatio u v
  if ok then
    let x := if sign then neg x else x
    some ⟨x, y, 1, mul x y⟩
  else none

/-- The base point: y = 4/5 and x even. -/
def basePoint : Point :=
  let y := mul 4 (inv 5)
  let (_, x) := sqrtRatio (sub (mul y y) 1) (Field.add (mul (mul y y) d) 1)
  ⟨x, y, 1, mul x y⟩

/-- The sixteen multiples `0 P, 1 P, …, 15 P` of a point. -/
def multiples (P : Point) : Array Point :=
  (List.range 15).foldl (fun acc _ => acc.push ((acc.back?.getD Point.identity).add P))
    #[Point.identity]

/-- `n` rows of multiples: row `i` holds the sixteen multiples of `16^i P`. -/
def multipleRows : Nat → Point → List (Array Point)
  | 0, _ => []
  | n + 1, P => multiples P :: multipleRows n P.double.double.double.double

/-- The multiples of the base point for the 64 base-16 digits of a scalar below 2^256. -/
def baseTable : List (Array Point) := multipleRows 64 basePoint

/-- The sum, over the rows, of the row's entry at each base-16 digit of `n`, lowest first. -/
def sumDigits : List (Array Point) → Nat → Point → Point
  | [], _, acc => acc
  | row :: rows, n, acc => sumDigits rows (n / 16) (acc.add (row.getD (n % 16) Point.identity))

/-- `n` times the base point: from the table for scalars below 2^256 (one addition per digit
instead of a doubling per bit), else by `Point.smul`. -/
def baseMul (n : Nat) : Point :=
  if n < Nat.pow 16 64 then sumDigits baseTable n Point.identity else Point.smul n basePoint

/-- The order of the base point, 2^252 + 27742317777372353535851937790883648493. -/
def groupOrder : Nat := Nat.pow 2 252 + 27742317777372353535851937790883648493

end StakeChain.Edwards

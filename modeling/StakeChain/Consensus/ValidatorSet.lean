import StakeChain.Identity.Basic
import StakeChain.Word

/-!
# Validator sets

The validators of one height with their voting power, kept in canonical order: power
descending, then address ascending, with zero-power entries dropped.  The order is a stable
sort of the given list, so entries equal in power and address keep their given order.

* `ValidatorSet.ofList`: the canonical snapshot of a list of validators;
* `ValidatorSet.totalPower` (saturating), `ValidatorSet.powerOf`, `ValidatorSet.hash`;
* `proposerSeed`, `ValidatorSet.selectProposer`: the stake-weighted choice of a proposer.  A
  128-bit draw taken from the digest of seed and height, reduced modulo the total power,
  falls into the interval of one validator when the powers are laid end to end in canonical
  order (`ValidatorSet.selectByDraw`); a draw past every interval falls back to the last
  validator.
-/

set_option autoImplicit false

namespace StakeChain

/-- A validator with its voting power. -/
structure Validator where
  address : Address
  publicKey : PublicKey
  power : UInt64
  deriving DecidableEq, Repr, Inhabited

/-- The validators of one height, in canonical order. -/
structure ValidatorSet where
  height : UInt64
  vals : List Validator
  deriving DecidableEq, Repr, Inhabited

/-- Whether `a` comes before or with `b` in canonical order: higher power first, then the
smaller address. -/
def Validator.canonicalLe (a b : Validator) : Bool :=
  b.power < a.power || (a.power == b.power && compare a.address b.address != .gt)

namespace ValidatorSet

/-- The canonical snapshot of a list of validators at a height. -/
def ofList (height : UInt64) (vals : List Validator) : ValidatorSet :=
  ⟨height, (vals.filter fun v => v.power > 0).mergeSort Validator.canonicalLe⟩

/-- The total power, saturating at the largest word. -/
def totalPower (s : ValidatorSet) : UInt64 := Word.sumSat (s.vals.map Validator.power)

/-- The first validator with an address. -/
def get? (s : ValidatorSet) (a : Address) : Option Validator := s.vals.find? fun v => v.address = a

/-- The power of an address, zero for a non-member. -/
def powerOf (s : ValidatorSet) (a : Address) : UInt64 := ((s.get? a).map Validator.power).getD 0

def contains (s : ValidatorSet) (a : Address) : Bool := s.powerOf a > 0

def size (s : ValidatorSet) : Nat := s.vals.length

def isEmpty (s : ValidatorSet) : Bool := s.vals.isEmpty

/-- The digest binding the height and every member's address and power. -/
def hash (s : ValidatorSet) : Digest :=
  Digest.ofBytes (Bytes.le64 s.height ++ (s.vals.map fun v => v.address.bytes ++ Bytes.le64 v.power).flatten)

/-- The validator whose interval of the laid-out powers holds `draw`, walking the powers in
order; none when the draw lies past them all. -/
def pick (vals : List Validator) (draw : Nat) : Option Validator :=
  match vals with
  | [] => none
  | v :: rest => if draw < v.power.toNat then some v else pick rest (draw - v.power.toNat)

/-- The 128-bit draw of a seed at a height: the first 16 bytes of the digest of seed and
height, little-endian. -/
def drawOf (seed : Digest) (height : UInt64) : Nat :=
  Bytes.readLe ((Blake3.hash (seed.bytes ++ Bytes.le64 height)).take 16)

/-- The stake-weighted choice for a draw: the walk over the draw reduced modulo the total power,
falling back to the last validator; none for a set without power. -/
def selectByDraw (s : ValidatorSet) (draw : Nat) : Option Validator :=
  let total := s.totalPower.toNat
  if total = 0 then none else (pick s.vals (draw % total)).or s.vals.getLast?

/-- The stake-weighted proposer for a height and seed. -/
def selectProposer (s : ValidatorSet) (height : UInt64) (seed : Digest) : Option Validator :=
  s.selectByDraw (drawOf seed height)

end ValidatorSet

/-- The selection seed of a height, derived from the parent hash only. -/
def proposerSeed (parent : Digest) (height : UInt64) : Digest :=
  Digest.ofBytes ("UNICRIUM_PROPOSER_SEED".toUTF8.data.toList ++ parent.bytes ++ Bytes.le64 height)

/-- The least power that is strictly more than two thirds of `total`. -/
def quorumThreshold (total : UInt64) : UInt64 := (2 * total.toNat / 3 + 1).toUInt64

end StakeChain

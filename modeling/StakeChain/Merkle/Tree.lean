import StakeChain.Word

/-!
# Binary Merkle trees

A tree over a list of leaves, for any hash of two nodes.  The leaves are padded to the next
power of two with a padding leaf, which never repeats a real leaf, so `[a, b, c]` and
`[a, b, c, c]` commit to different roots.  Each level pairs neighbours; a single leaf is its own
root, and the tree with no leaves has a fixed empty root and no proofs.

A proof carries the leaf count and the siblings from the leaf level upwards.  Checking a proof
recomputes the depth from the count, so a proof of any other length, an index outside the
leaves or a count of zero is refused.

* `MerkleTree.build`, `MerkleTree.root`, `MerkleTree.proof`;
* `MerkleProof.verify`: folds the path, bit `i` of the index saying whether the sibling at
  level `i` stands on the left;
* `proofDepth`: the number of siblings for a leaf count, the bit length of `count - 1`.
-/

set_option autoImplicit false

namespace StakeChain

/-- The hash of two child nodes and the two fixed nodes of a tree scheme. -/
structure MerkleHasher (α : Type) where
  node : α → α → α
  paddingLeaf : α
  emptyRoot : α

/-- The number of siblings in a proof over `count` leaves. -/
def proofDepth (count : Nat) : Nat :=
  if count ≤ 1 then 0 else Nat.log2 (count - 1) + 1

/-- The smallest power of two at least `n` (one for zero). -/
def nextPowerOfTwo (n : Nat) : Nat := Nat.pow 2 (proofDepth n)

/-- A proof that a leaf stands at an index. -/
structure MerkleProof (α : Type) where
  leafCount : UInt64
  siblings : List α
  deriving DecidableEq, Repr

/-- A tree: the number of real leaves and the levels from the padded leaves up to the root. -/
structure MerkleTree (α : Type) where
  leafCount : Nat
  levels : List (List α)

namespace MerkleTree

variable {α : Type}

/-- The next level: the hash of each pair of neighbours. -/
def pairUp (H : MerkleHasher α) : List α → List α
  | a :: b :: rest => H.node a b :: pairUp H rest
  | _ => []

theorem pairUp_length_le (H : MerkleHasher α) : ∀ l : List α, (pairUp H l).length ≤ l.length / 2
  | a :: b :: rest => by
    have := pairUp_length_le H rest
    simp [pairUp]; omega
  | [] => by simp [pairUp]
  | [_] => by simp [pairUp]

/-- The levels from `l` up to a level of one node. -/
def levelsFrom (H : MerkleHasher α) (l : List α) : List (List α) :=
  if h : l.length ≤ 1 then [l]
  else
    have : (pairUp H l).length < l.length := by
      have := pairUp_length_le H l; omega
    l :: levelsFrom H (pairUp H l)
termination_by l.length

/-- The tree over a list of leaves. -/
def build (H : MerkleHasher α) (leaves : List α) : MerkleTree α :=
  if leaves.isEmpty then ⟨0, []⟩
  else
    let width := nextPowerOfTwo leaves.length
    ⟨leaves.length,
      levelsFrom H (leaves ++ List.replicate (width - leaves.length) H.paddingLeaf)⟩

/-- The root: the node of the last level, or the empty root. -/
def root (H : MerkleHasher α) (t : MerkleTree α) : α :=
  match t.levels.getLast? with
  | some (r :: _) => r
  | _ => H.emptyRoot

/-- The siblings of the node at `idx` on each level below the top. -/
def pathSiblings [Inhabited α] : List (List α) → Nat → List α
  | [], _ => []
  | [_], _ => []
  | level :: rest@(_ :: _), idx => level[idx ^^^ 1]! :: pathSiblings rest (idx / 2)

/-- The proof for the leaf at `index`, if it is a real leaf. -/
def proof [Inhabited α] (t : MerkleTree α) (index : Nat) : Option (MerkleProof α) :=
  if index < t.leafCount then some ⟨t.leafCount.toUInt64, pathSiblings t.levels index⟩
  else none

end MerkleTree

/-- The root of the tree over a list of leaves. -/
def merkleRoot {α : Type} (H : MerkleHasher α) (leaves : List α) : α :=
  (MerkleTree.build H leaves).root H

/-- The node reached from `acc` at level `level` by folding in the siblings. -/
def foldPath {α : Type} (H : MerkleHasher α) (index : Nat) : Nat → α → List α → α
  | _, acc, [] => acc
  | level, acc, sib :: rest =>
    let next := if (index >>> level) % 2 = 0 then H.node acc sib else H.node sib acc
    foldPath H index (level + 1) next rest

/-- Whether a proof shows `leaf` at `index` under `root`. -/
def MerkleProof.verify {α : Type} [DecidableEq α] (H : MerkleHasher α) (root leaf : α)
    (p : MerkleProof α) (index : UInt64) : Bool :=
  if p.leafCount = 0 ∨ index ≥ p.leafCount then false
  else if p.siblings.length ≠ proofDepth p.leafCount.toNat then false
  else foldPath H index.toNat 0 leaf p.siblings = root

end StakeChain

import StakeChain.Merkle.Tree
import StakeChain.Evidence.Basic

/-!
# The chain's Merkle commitments

The chain's trees hash an internal node as the digest of `0x01 ‖ left ‖ right`; the padding
leaf is the digest of `UNICRIUM_MERKLE_EMPTY_LEAF` and the empty root the digest of no bytes.

* `txRoot`, `evidenceRoot`: the roots over a block's transaction hashes and evidence ids, in
  block order;
* `stateRoot`: the root over key/value entries sorted by key, each leaf the digest of
  `0x00 ‖ len ‖ key ‖ len ‖ value`.
-/

set_option autoImplicit false

namespace StakeChain

/-- The node hash and fixed nodes of the chain's trees. -/
def chainHasher : MerkleHasher Digest where
  node l r := Digest.ofBytes ([1] ++ l.bytes ++ r.bytes)
  paddingLeaf := Digest.ofText "UNICRIUM_MERKLE_EMPTY_LEAF"
  emptyRoot := Digest.ofBytes []

/-- The root over a block's transactions. -/
def txRoot (txs : List Transaction) : Digest := merkleRoot chainHasher (txs.map Transaction.hash)

/-- The root over a block's evidence. -/
def evidenceRoot (ev : List Evidence) : Digest := merkleRoot chainHasher (ev.map Evidence.id)

/-- The leaf of one state entry. -/
def stateLeaf (key value : Bytes) : Digest :=
  Digest.ofBytes ([0] ++ Bytes.lenPrefix32 key ++ key ++ Bytes.lenPrefix32 value ++ value)

/-- Inserts an entry before the first entry whose key is not below its own. -/
def insertByKey (e : Bytes × Bytes) : List (Bytes × Bytes) → List (Bytes × Bytes)
  | [] => [e]
  | p :: rest => if Bytes.lexCompare e.1 p.1 != .gt then e :: p :: rest else p :: insertByKey e rest

/-- The entries with one per key, the last given value kept, in ascending byte order of keys.
The keys are distinct once deduplicated, so sorting by insertion gives the one sorted order. -/
def sortEntries (entries : List (Bytes × Bytes)) : List (Bytes × Bytes) :=
  let deduped := entries.foldl (fun acc e =>
    (acc.filter fun p => p.1 != e.1) ++ [e]) []
  deduped.foldr insertByKey []

/-- The root over entries already sorted by key with one per key. -/
def stateRootSorted (entries : List (Bytes × Bytes)) : Digest :=
  merkleRoot chainHasher (entries.map fun e => stateLeaf e.1 e.2)

/-- The root over key/value entries, whatever their order. -/
def stateRoot (entries : List (Bytes × Bytes)) : Digest := stateRootSorted (sortEntries entries)

end StakeChain

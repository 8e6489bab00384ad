import StakeChain.Proofs.Merkle.Inclusion

/-!
# Inclusion proofs are complete

The proof a tree gives for a real leaf lists, level by level from the leaves up, the sibling of
the node on the leaf's path: at level `k` the path stands at `i / 2 ^ k`, and its sibling is the
neighbour that flipping the last bit gives.  Folding those siblings into the leaf, each on the
side bit `k` of the index names, rebuilds each node of the path in turn, the node at `i / 2` of
the next level from its two children (`foldPath_pathSiblings`), and ends at the root after as
many steps as the proof depth.

So every real leaf has a proof, carrying the leaf count, of the depth the checker expects, and
the proof checks against the tree's root; no index outside the leaves has one
(`merkle_proof_complete`).  Unlike soundness this needs nothing of the node hash.
-/

set_option autoImplicit false

namespace StakeChain

namespace MerkleTree

variable {α : Type} [Inhabited α]

/-- Below the top level, the sibling at the node's level comes first, then the path of the
parent one level up. -/
theorem pathSiblings_cons (level : List α) {rest : List (List α)} (hrest : rest ≠ []) (i : Nat) :
    pathSiblings (level :: rest) i = level[i ^^^ 1]! :: pathSiblings rest (i / 2) := by
  cases rest with
  | nil => exact absurd rfl hrest
  | cons _ _ => simp only [pathSiblings]

/-- The sibling of the node at `i` and the node itself are the two children of the parent at
`i / 2`, in the order bit `0` of `i` gives. -/
theorem getElem?_pairUp_parent (H : MerkleHasher α) {l : List α} {i : Nat} {x : α}
    (hx : l[i]? = some x) (hpair : 2 * (i / 2) + 1 < l.length) :
    (pairUp H l)[i / 2]? =
      some (if i % 2 = 0 then H.node x l[i ^^^ 1]! else H.node l[i ^^^ 1]! x) := by
  rw [getElem?_pairUp H l (i / 2) hpair]
  have hi : i < l.length := (List.getElem?_eq_some_iff.mp hx).1
  have hxi : l[i] = x := (List.getElem?_eq_some_iff.mp hx).2
  rcases Nat.mod_two_eq_zero_or_one i with heven | hodd
  · -- an even index is the left child, its sibling the next node
    have hsib : i ^^^ 1 = 2 * (i / 2) + 1 := by
      rw [Nat.xor_one_of_even (Nat.even_iff.mpr heven)]
      omega
    have hleft : 2 * (i / 2) = i := by omega
    rw [hsib, getElem!_pos l _ hpair]
    simp only [heven, if_true, hleft, hxi]
  · -- an odd index is the right child, its sibling the node before
    have hsib : i ^^^ 1 = 2 * (i / 2) := by
      rw [Nat.xor_one_of_odd (Nat.odd_iff.mpr hodd)]
      omega
    have hright : 2 * (i / 2) + 1 = i := by omega
    rw [hsib, getElem!_pos l _ (by omega)]
    simp only [hodd, Nat.one_ne_zero, if_false, hright, hxi]

/-- Over `2 ^ d` nodes, the siblings a tree lists for the node at `i` are `d`, and folding them
into that node gives the node that `d` rounds of pairing leave.  The induction climbs one level
per step: the fold's first step builds the parent at `i / 2`, from which the rest of the path
climbs the tree over the next level. -/
theorem foldPath_pathSiblings (H : MerkleHasher α) :
    ∀ (d : Nat) (l : List α) (i : Nat) (x : α), l.length = 2 ^ d → l[i]? = some x →
      (pathSiblings (levelsFrom H l) i).length = d ∧
        (pairUp H)^[d] l = [foldPath H i 0 x (pathSiblings (levelsFrom H l) i)]
  | 0, l, i, x, hl, hx => by
    have hi : i < l.length := (List.getElem?_eq_some_iff.mp hx).1
    obtain ⟨y, rfl⟩ := List.length_eq_one_iff.mp (by simpa using hl)
    obtain rfl : i = 0 := by simpa using hi
    rw [levelsFrom_of_length_le_one H (by simp)]
    simp only [List.getElem?_cons_zero, Option.some.injEq] at hx
    subst hx
    simp only [pathSiblings, foldPath, Function.iterate_zero, id, List.length_nil, and_self]
  | d + 1, l, i, x, hl, hx => by
    have hi : i < l.length := (List.getElem?_eq_some_iff.mp hx).1
    have hpow : 2 ^ (d + 1) = 2 * 2 ^ d := by rw [Nat.pow_succ, Nat.mul_comm]
    have hbig : 1 < l.length := by
      have := Nat.one_le_two_pow (n := d)
      omega
    let next := if i % 2 = 0 then H.node x l[i ^^^ 1]! else H.node l[i ^^^ 1]! x
    have hup : (pairUp H l)[i / 2]? = some next := getElem?_pairUp_parent H hx (by omega)
    obtain ⟨hlen, htop⟩ :=
      foldPath_pathSiblings H d (pairUp H l) (i / 2) next (length_pairUp_of_pow H hl) hup
    rw [levelsFrom_of_one_lt H hbig, pathSiblings_cons l (levelsFrom_ne_nil H _)]
    refine ⟨by simp [hlen], ?_⟩
    have hfold : foldPath H i 0 x
        (l[i ^^^ 1]! :: pathSiblings (levelsFrom H (pairUp H l)) (i / 2)) =
          foldPath H (i / 2) 0 next (pathSiblings (levelsFrom H (pairUp H l)) (i / 2)) := by
      rw [foldPath, foldPath_succ_level, Nat.shiftRight_zero]
    rw [Function.iterate_succ_apply, hfold]
    exact htop

end MerkleTree

/-- **Inclusion proofs are complete.**  For any node hash and any list of leaves (as many as a
64-bit count can hold): an index outside the leaves has no proof, and the leaf at every index
inside them has one that carries the leaf count, has the depth the checker expects, and checks
against the tree's root. -/
theorem merkle_proof_complete {α : Type} [DecidableEq α] [Inhabited α] (H : MerkleHasher α)
    (ls : List α) (hsize : ls.length < UInt64.size) :
    (∀ i, ls.length ≤ i → (MerkleTree.build H ls).proof i = none) ∧
    ∀ (i : Nat) (hi : i < ls.length), ∃ p, (MerkleTree.build H ls).proof i = some p ∧
      p.leafCount.toNat = ls.length ∧ p.siblings.length = proofDepth ls.length ∧
      p.verify H ((MerkleTree.build H ls).root H) ls[i] i.toUInt64 = true := by
  have hcount : (MerkleTree.build H ls).leafCount = ls.length := by
    by_cases hne : ls = []
    · subst hne
      rfl
    · rw [build_of_ne_nil hne]
  refine ⟨fun i hi => ?_, fun i hi => ?_⟩
  · rw [MerkleTree.proof, if_neg (by omega)]
  have hne : ls ≠ [] := List.ne_nil_of_length_pos (by omega)
  obtain ⟨hlen, htop⟩ := merkleRoot_eq_top (H := H) hne
  have hx : (ls ++ List.replicate (2 ^ proofDepth ls.length - ls.length) H.paddingLeaf)[i]? =
      some ls[i] := by
    rw [List.getElem?_append_left hi, List.getElem?_eq_getElem hi]
  obtain ⟨hdepth, hfold⟩ := MerkleTree.foldPath_pathSiblings H _ _ i ls[i] hlen hx
  have hcountNat : (ls.length.toUInt64).toNat = ls.length := by
    rw [Nat.toUInt64_eq, UInt64.toNat_ofNat_of_lt' hsize]
  have hindex : (i.toUInt64).toNat = i := by
    rw [Nat.toUInt64_eq, UInt64.toNat_ofNat_of_lt' (by omega)]
  rw [MerkleTree.proof, if_pos (by omega), hcount]
  refine ⟨_, rfl, hcountNat, ?_, ?_⟩
  · rw [build_of_ne_nil hne]
    exact hdepth
  · -- the fold of the listed siblings is the root, and the count and index pass the range checks
    have hroot : foldPath H i 0 ls[i] (MerkleTree.pathSiblings (MerkleTree.build H ls).levels i) =
        merkleRoot H ls := by
      rw [build_of_ne_nil hne]
      exact (List.singleton_inj.mp (htop.symm.trans hfold)).symm
    have hpos : ¬ls.length.toUInt64 = 0 := by
      intro h
      have := congrArg UInt64.toNat h
      rw [hcountNat, UInt64.toNat_zero] at this
      omega
    have hin : ¬i.toUInt64 ≥ ls.length.toUInt64 := by
      rw [ge_iff_le, UInt64.le_iff_toNat_le, hcountNat, hindex]
      omega
    have hdepth' : (MerkleTree.pathSiblings (MerkleTree.build H ls).levels i).length =
        proofDepth (ls.length.toUInt64).toNat := by
      rw [hcountNat, build_of_ne_nil hne]
      exact hdepth
    unfold MerkleProof.verify
    rw [if_neg (not_or.mpr ⟨hpos, hin⟩), if_neg (not_not.mpr hdepth'), hindex, hroot]
    exact decide_eq_true rfl

/-- Every leaf of three under `Nat.pair` has a proof that checks, and the fourth index none. -/
theorem merkle_proof_complete_three_leaves :
    [1, 2, 3].length < UInt64.size ∧
      ((∀ i, [1, 2, 3].length ≤ i → (MerkleTree.build pairHasher [1, 2, 3]).proof i = none) ∧
      ∀ (i : Nat) (hi : i < [1, 2, 3].length), ∃ p,
        (MerkleTree.build pairHasher [1, 2, 3]).proof i = some p ∧
        p.leafCount.toNat = [1, 2, 3].length ∧ p.siblings.length = proofDepth [1, 2, 3].length ∧
        p.verify pairHasher ((MerkleTree.build pairHasher [1, 2, 3]).root pairHasher) [1, 2, 3][i]
          i.toUInt64 = true) :=
  ⟨by decide, merkle_proof_complete pairHasher [1, 2, 3] (by decide)⟩

end StakeChain

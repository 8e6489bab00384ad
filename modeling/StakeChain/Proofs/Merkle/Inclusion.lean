import StakeChain.Merkle.Tree
import Mathlib

/-!
# Inclusion proofs are sound

A tree is built over its leaves padded to `2 ^ d` nodes, `d` the proof depth of the leaf count;
`d` rounds of pairing neighbours leave the root alone (`levelsFrom_getLast?`). Checking a proof
folds its siblings into the claimed leaf from the bottom level up, bit `k` of the index saying on
which side the sibling at level `k` stands.

When the hash of two nodes is injective, a fold that reaches the root of the pairing rounds
pins the leaf: the last hash is the root's, so its two arguments are the root's children, the
accumulated node among them; one level down the same holds, and so on to the leaf level
(`eq_of_foldPath_eq_top`). A proof that checks against the root of a leaf list therefore names
a real leaf, the one at its index, and has the depth of the list (`verify_merkleRoot`); no
padding leaf and no inner node can be shown at any position.
-/

set_option autoImplicit false

namespace StakeChain

namespace MerkleTree

variable {α : Type} (H : MerkleHasher α)

@[simp] theorem length_pairUp : ∀ l : List α, (pairUp H l).length = l.length / 2
  | a :: b :: rest => by
    simp only [pairUp, List.length_cons, length_pairUp rest]
    omega
  | [] => by simp [pairUp]
  | [_] => by simp [pairUp]

/-- The node at `j` of the next level joins the nodes at `2j` and `2j + 1`. -/
theorem getElem?_pairUp : ∀ (l : List α) (j : Nat) (hj : 2 * j + 1 < l.length),
    (pairUp H l)[j]? = some (H.node l[2 * j] l[2 * j + 1])
  | a :: b :: rest, 0, _ => rfl
  | a :: b :: rest, j + 1, hj => by
    have hj' : 2 * j + 1 < rest.length := by simp at hj; omega
    simp only [pairUp, List.getElem?_cons_succ, getElem?_pairUp rest j hj']
    congr 2

/-- Pairing `2 ^ (d + 1)` nodes leaves `2 ^ d`. -/
theorem length_pairUp_of_pow {d : Nat} {l : List α} (hl : l.length = 2 ^ (d + 1)) :
    (pairUp H l).length = 2 ^ d := by
  rw [length_pairUp, hl, Nat.pow_succ, Nat.mul_div_cancel _ (by decide)]

theorem levelsFrom_of_length_le_one {l : List α} (h : l.length ≤ 1) : levelsFrom H l = [l] := by
  rw [levelsFrom, dif_pos h]

theorem levelsFrom_of_one_lt {l : List α} (h : 1 < l.length) :
    levelsFrom H l = l :: levelsFrom H (pairUp H l) := by
  rw [levelsFrom, dif_neg (by omega)]

theorem levelsFrom_ne_nil (l : List α) : levelsFrom H l ≠ [] := by
  by_cases h : l.length ≤ 1
  · simp [levelsFrom_of_length_le_one H h]
  · simp [levelsFrom_of_one_lt H (by omega : 1 < l.length)]

/-- Over `2 ^ d` nodes the last level is what `d` rounds of pairing leave, a single node. -/
theorem levelsFrom_getLast? : ∀ (d : Nat) (l : List α), l.length = 2 ^ d →
    (levelsFrom H l).getLast? = some ((pairUp H)^[d] l) ∧ ((pairUp H)^[d] l).length = 1
  | 0, l, hl => by
    rw [levelsFrom_of_length_le_one H (by simp [hl])]
    simpa using hl
  | d + 1, l, hl => by
    obtain ⟨hlast, hone⟩ := levelsFrom_getLast? d (pairUp H l) (length_pairUp_of_pow H hl)
    have hbig : 1 < l.length := by
      rw [hl, Nat.pow_succ]
      have := Nat.one_le_two_pow (n := d)
      omega
    rw [levelsFrom_of_one_lt H hbig, List.getLast?_cons_of_ne_nil (levelsFrom_ne_nil H _), hlast,
      Function.iterate_succ_apply]
    exact ⟨rfl, hone⟩

end MerkleTree

/-- Folding from level `k + 1` with index `i` is folding from level `k` with index `i / 2`. -/
theorem foldPath_succ_level {α : Type} (H : MerkleHasher α) (i : Nat) :
    ∀ (k : Nat) (acc : α) (sibs : List α),
      foldPath H i (k + 1) acc sibs = foldPath H (i / 2) k acc sibs
  | _, _, [] => rfl
  | k, acc, sib :: rest => by
    simp only [foldPath, Nat.shiftRight_succ_inside]
    exact foldPath_succ_level H i (k + 1) _ rest

section Soundness

variable {α : Type} {H : MerkleHasher α}

/-- A fold that reaches the node left by `d` rounds of pairing over `2 ^ d` nodes started from
the node at its index. The induction climbs from the leaf level: the first sibling and the
accumulator are, by injectivity, the two children of the next level's node at `i / 2`. -/
theorem eq_of_foldPath_eq_top (hinj : ∀ a b c d, H.node a b = H.node c d → a = c ∧ b = d) :
    ∀ (d : Nat) (l : List α) (i : Nat) (x : α) (sibs : List α),
      l.length = 2 ^ d → sibs.length = d → i < 2 ^ d →
      (MerkleTree.pairUp H)^[d] l = [foldPath H i 0 x sibs] → l[i]? = some x
  | 0, l, i, x, sibs, _, hsibs, hi, htop => by
    obtain rfl : sibs = [] := List.eq_nil_of_length_eq_zero hsibs
    obtain rfl : i = 0 := by simpa using hi
    simp only [Function.iterate_zero, id, foldPath] at htop
    simp [htop]
  | d + 1, l, i, x, sibs, hl, hsibs, hi, htop => by
    obtain ⟨s, rest, rfl⟩ := List.exists_cons_of_length_eq_add_one hsibs
    let next := if i % 2 = 0 then H.node x s else H.node s x
    have hfold : foldPath H i 0 x (s :: rest) = foldPath H (i / 2) 0 next rest := by
      rw [foldPath, foldPath_succ_level, Nat.shiftRight_zero]
    have hhalf := MerkleTree.length_pairUp_of_pow H hl
    have hpow : 2 ^ (d + 1) = 2 * 2 ^ d := by rw [Nat.pow_succ, Nat.mul_comm]
    have hup : (MerkleTree.pairUp H l)[i / 2]? = some next :=
      eq_of_foldPath_eq_top hinj d _ (i / 2) next rest hhalf (by simpa using hsibs)
        (by omega) (by rwa [Function.iterate_succ_apply, hfold] at htop)
    have hpair : 2 * (i / 2) + 1 < l.length := by omega
    rw [MerkleTree.getElem?_pairUp H l (i / 2) hpair, Option.some.injEq] at hup
    rcases Nat.mod_two_eq_zero_or_one i with heven | hodd
    · -- an even index is the left child
      rw [show next = H.node x s from if_pos heven] at hup
      have hidx : 2 * (i / 2) = i := by omega
      rw [List.getElem?_eq_getElem (by omega), ← (hinj _ _ _ _ hup).1]
      simp only [hidx]
    · -- an odd index is the right child
      rw [show next = H.node s x from if_neg (by omega)] at hup
      have hidx : 2 * (i / 2) + 1 = i := by omega
      rw [List.getElem?_eq_getElem (by omega), ← (hinj _ _ _ _ hup).2]
      simp only [hidx]

/-- A leaf count fits in the width its proof depth gives. -/
theorem le_two_pow_proofDepth (n : Nat) : n ≤ 2 ^ proofDepth n := by
  unfold proofDepth
  split
  · simp only [Nat.pow_zero]
    omega
  · have := Nat.lt_log2_self (n := n - 1)
    omega

/-- A nonempty leaf list is padded to `2 ^ d` nodes, `d` its proof depth, before pairing. -/
theorem build_of_ne_nil {ls : List α} (hne : ls ≠ []) :
    MerkleTree.build H ls = ⟨ls.length, MerkleTree.levelsFrom H
      (ls ++ List.replicate (2 ^ proofDepth ls.length - ls.length) H.paddingLeaf)⟩ := by
  simp only [MerkleTree.build, List.isEmpty_iff, hne, if_false]
  rfl

/-- The root of a nonempty leaf list is the node left by `proofDepth` rounds of pairing over
the padded leaves. -/
theorem merkleRoot_eq_top {ls : List α} (hne : ls ≠ []) :
    let padded := ls ++ List.replicate (2 ^ proofDepth ls.length - ls.length) H.paddingLeaf
    padded.length = 2 ^ proofDepth ls.length ∧
      (MerkleTree.pairUp H)^[proofDepth ls.length] padded = [merkleRoot H ls] := by
  intro padded
  have hlen : padded.length = 2 ^ proofDepth ls.length := by
    simp only [padded, List.length_append, List.length_replicate]
    have := le_two_pow_proofDepth ls.length
    omega
  obtain ⟨hlast, hone⟩ := MerkleTree.levelsFrom_getLast? H _ padded hlen
  refine ⟨hlen, ?_⟩
  obtain ⟨r, hr⟩ := List.length_eq_one_iff.mp hone
  have hbuild : MerkleTree.build H ls = ⟨ls.length, MerkleTree.levelsFrom H padded⟩ :=
    build_of_ne_nil hne
  rw [hr, merkleRoot, hbuild, MerkleTree.root]
  simp only [hlast, hr]

/-- **Inclusion proofs are sound.** When the node hash is injective, a proof that checks against
the root of a leaf list, and carries the list's length as its leaf count, shows a real leaf at
its index: the index is in range, the leaf there is the one claimed, and the proof has exactly
the depth of the list. -/
theorem verify_merkleRoot [DecidableEq α]
    (hinj : ∀ a b c d, H.node a b = H.node c d → a = c ∧ b = d)
    {ls : List α} {x : α} {p : MerkleProof α} {i : UInt64} (hcount : p.leafCount.toNat = ls.length)
    (hv : p.verify H (merkleRoot H ls) x i = true) :
    i.toNat < ls.length ∧ ls[i.toNat]? = some x ∧ p.siblings.length = proofDepth ls.length := by
  unfold MerkleProof.verify at hv
  split at hv
  · cases hv
  rename_i hrange
  split at hv
  · cases hv
  rename_i hdepth
  have hi : i.toNat < ls.length := by
    rw [← hcount]
    exact UInt64.lt_iff_toNat_lt.mp (UInt64.not_le.mp (not_or.mp hrange).2)
  rw [hcount] at hdepth
  have hne : ls ≠ [] := List.ne_nil_of_length_pos (by omega)
  have hsibs : p.siblings.length = proofDepth ls.length := by simpa using hdepth
  obtain ⟨hlen, htop⟩ := merkleRoot_eq_top (H := H) hne
  have hroot : foldPath H i.toNat 0 x p.siblings = merkleRoot H ls := of_decide_eq_true hv
  -- the fold reached the root, so it started at the padded leaf at the index, a real leaf
  have hpadded := eq_of_foldPath_eq_top hinj _ _ i.toNat x p.siblings hlen hsibs
    (by have := le_two_pow_proofDepth ls.length; omega) (by rw [htop, hroot])
  rw [List.getElem?_append_left hi] at hpadded
  exact ⟨hi, hpadded, hsibs⟩

end Soundness

/-- Pairing numbers with `Nat.pair` is an injective node hash. -/
def pairHasher : MerkleHasher Nat where
  node := Nat.pair
  paddingLeaf := 0
  emptyRoot := 0

/-- The proof of the third of three leaves under `Nat.pair` checks, and names that leaf. -/
theorem verify_merkleRoot_three_leaves :
    (∀ a b c d, pairHasher.node a b = pairHasher.node c d → a = c ∧ b = d) ∧
      (⟨3, [0, Nat.pair 1 2]⟩ : MerkleProof Nat).leafCount.toNat = [1, 2, 3].length ∧
      (⟨3, [0, Nat.pair 1 2]⟩ : MerkleProof Nat).verify pairHasher (merkleRoot pairHasher [1, 2, 3])
        3 2 = true ∧
      ((2 : UInt64).toNat < [1, 2, 3].length ∧ [1, 2, 3][(2 : UInt64).toNat]? = some 3 ∧
        [0, Nat.pair 1 2].length = proofDepth [1, 2, 3].length) := by
  have hinj : ∀ a b c d, pairHasher.node a b = pairHasher.node c d → a = c ∧ b = d :=
    fun _ _ _ _ h => Nat.pair_eq_pair.mp h
  have hv : (⟨3, [0, Nat.pair 1 2]⟩ : MerkleProof Nat).verify pairHasher
      (merkleRoot pairHasher [1, 2, 3]) 3 2 = true := by decide +kernel
  exact ⟨hinj, rfl, hv, verify_merkleRoot hinj rfl hv⟩

end StakeChain

import StakeChain.Proofs.Merkle.Inclusion

/-!
# Roots bind their leaves

When the hash of two nodes is injective, a round of pairing is injective on levels of even
length: equal next levels have equal pairs (`pairUp_inj`), and `d` rounds are injective on levels
of `2 ^ d` nodes (`iterate_pairUp_inj`).  Two leaf lists padded to the same width share one tree
shape, so equal roots mean equal padded levels.  Padding appends the padding leaf only, so when
neither list holds the padding leaf, the lists are equal (`merkleRoot_inj`).  Appending a copy of
the last leaf to a list whose length is not a power of two keeps the width
(`proofDepth_succ_of_not_pow`), and so always changes the root.

Lists of different widths have trees of different heights.  When no leaf is a hash of two
nodes, the root tells the heights apart as well: after as many rounds as the lower tree has, the
higher tree's level holds hashes of nodes only, where the lower one starts with a leaf
(`merkleRoot_inj_of_leaves`).
-/

set_option autoImplicit false

namespace StakeChain

/-! ## Widths -/

/-- The proof depth of `n` is the least `d` with `n ≤ 2 ^ d`. -/
theorem proofDepth_le_iff (n d : Nat) : proofDepth n ≤ d ↔ n ≤ 2 ^ d := by
  unfold proofDepth
  split
  · have := Nat.one_le_two_pow (n := d)
    omega
  · rename_i hn
    have hlog := Nat.log2_lt (n := n - 1) (k := d) (by omega)
    omega

theorem proofDepth_eq_of_nextPowerOfTwo_eq {n₁ n₂ : Nat}
    (h : nextPowerOfTwo n₁ = nextPowerOfTwo n₂) : proofDepth n₁ = proofDepth n₂ :=
  Nat.pow_right_injective (le_refl 2) h

/-- One more leaf keeps the width of a list whose length is not a power of two. -/
theorem proofDepth_succ_of_not_pow {n : Nat} (hn : ¬n.isPowerOfTwo) :
    proofDepth (n + 1) = proofDepth n := by
  have hle := le_two_pow_proofDepth n
  have hle' := le_two_pow_proofDepth (n + 1)
  have hne : n ≠ 2 ^ proofDepth n := fun h => hn ⟨_, h⟩
  apply le_antisymm
  · exact (proofDepth_le_iff _ _).mpr (by omega)
  · exact (proofDepth_le_iff _ _).mpr (by omega)

/-! ## Pairing rounds are injective -/

namespace MerkleTree

variable {α : Type} {H : MerkleHasher α}

/-- Every node of a next level is a hash of two nodes. -/
theorem mem_pairUp : ∀ {l : List α} {x : α}, x ∈ pairUp H l → ∃ a b, x = H.node a b
  | a :: b :: rest, x, hx => by
    rcases List.mem_cons.mp hx with rfl | hx
    · exact ⟨a, b, rfl⟩
    · exact mem_pairUp hx
  | [], _, hx => by simp [pairUp] at hx
  | [_], _, hx => by simp [pairUp] at hx

theorem length_iterate_pairUp : ∀ (k d : Nat) (l : List α), l.length = 2 ^ (d + k) →
    ((pairUp H)^[k] l).length = 2 ^ d
  | 0, _, _, hl => hl
  | k + 1, d, l, hl => by
    rw [Function.iterate_succ_apply]
    exact length_iterate_pairUp k d _ (length_pairUp_of_pow H (by rw [hl]; rfl))

variable (hinj : ∀ a b c d, H.node a b = H.node c d → a = c ∧ b = d)
include hinj

/-- A round of pairing is injective on levels of one even length. -/
theorem pairUp_inj : ∀ {l₁ l₂ : List α}, l₁.length = l₂.length → l₁.length % 2 = 0 →
    pairUp H l₁ = pairUp H l₂ → l₁ = l₂
  | [], [], _, _, _ => rfl
  | a :: b :: r₁, c :: d :: r₂, hlen, heven, h => by
    simp only [pairUp, List.cons.injEq] at h
    obtain ⟨rfl, rfl⟩ := hinj a b c d h.1
    have hrest := pairUp_inj (by simpa using hlen) (by simp at heven; omega) h.2
    rw [hrest]
  | [], _ :: _, hlen, _, _ => by simp at hlen
  | _ :: _, [], hlen, _, _ => by simp at hlen
  | [_], [_], _, heven, _ => by simp at heven
  | [_], _ :: _ :: _, hlen, _, _ => by simp at hlen
  | _ :: _ :: _, [_], hlen, _, _ => by simp at hlen

/-- `d` rounds of pairing are injective on levels of `2 ^ d` nodes. -/
theorem iterate_pairUp_inj : ∀ (d : Nat) {l₁ l₂ : List α}, l₁.length = 2 ^ d →
    l₂.length = 2 ^ d → (pairUp H)^[d] l₁ = (pairUp H)^[d] l₂ → l₁ = l₂
  | 0, _, _, _, _, h => h
  | d + 1, l₁, l₂, h₁, h₂, h => by
    rw [Function.iterate_succ_apply, Function.iterate_succ_apply] at h
    have hup := iterate_pairUp_inj d (length_pairUp_of_pow H h₁) (length_pairUp_of_pow H h₂) h
    refine pairUp_inj hinj (h₁.trans h₂.symm) ?_ hup
    rw [h₁, Nat.pow_succ]
    simp

end MerkleTree

/-! ## Padding -/

/-- Lists padded with a value that neither holds: the second is at most as long as the first. -/
theorem length_le_of_append_replicate {α : Type} {l₁ l₂ : List α} {k₁ k₂ : Nat} {p : α}
    (h : l₁ ++ List.replicate k₁ p = l₂ ++ List.replicate k₂ p) (hp : p ∉ l₂) :
    l₂.length ≤ l₁.length := by
  by_contra hlt
  rw [Nat.not_le] at hlt
  -- at the first padded position of `l₁`, the other list still holds a leaf of its own
  have hat := congrArg (·[l₁.length]?) h
  simp only [List.getElem?_append_right (Nat.le_refl _), Nat.sub_self, List.getElem?_replicate,
    List.getElem?_append_left hlt, List.getElem?_eq_getElem hlt] at hat
  split at hat
  · exact hp ((Option.some.inj hat) ▸ List.getElem_mem hlt)
  · cases hat

theorem eq_of_append_replicate {α : Type} {l₁ l₂ : List α} {k₁ k₂ : Nat} {p : α}
    (h : l₁ ++ List.replicate k₁ p = l₂ ++ List.replicate k₂ p) (hp₁ : p ∉ l₁)
    (hp₂ : p ∉ l₂) :
    l₁ = l₂ :=
  List.append_inj h (le_antisymm (length_le_of_append_replicate h.symm hp₁)
    (length_le_of_append_replicate h hp₂)) |>.1

/-! ## Roots -/

section Roots

variable {α : Type} {H : MerkleHasher α}
  (hinj : ∀ a b c d, H.node a b = H.node c d → a = c ∧ b = d)
include hinj

/-- **Roots bind leaf lists of one width.** -/
theorem merkleRoot_inj {l₁ l₂ : List α} (hne₁ : l₁ ≠ []) (hne₂ : l₂ ≠ [])
    (hwidth : proofDepth l₁.length = proofDepth l₂.length) (hp₁ : H.paddingLeaf ∉ l₁)
    (hp₂ : H.paddingLeaf ∉ l₂) (h : merkleRoot H l₁ = merkleRoot H l₂) : l₁ = l₂ := by
  obtain ⟨hlen₁, htop₁⟩ := merkleRoot_eq_top (H := H) hne₁
  obtain ⟨hlen₂, htop₂⟩ := merkleRoot_eq_top (H := H) hne₂
  rw [← hwidth] at hlen₂ htop₂
  have hpadded := MerkleTree.iterate_pairUp_inj hinj _ hlen₁ hlen₂ (by rw [htop₁, htop₂, h])
  exact eq_of_append_replicate hpadded hp₁ hp₂

/-- The height of a tree whose leaves are no hashes of nodes is told by its root. -/
theorem proofDepth_le_of_merkleRoot_eq {l₁ l₂ : List α} (hne₁ : l₁ ≠ []) (hne₂ : l₂ ≠ [])
    (hleaf : ∀ x ∈ l₁, ∀ a b, x ≠ H.node a b) (h : merkleRoot H l₁ = merkleRoot H l₂)
    (hle : proofDepth l₁.length ≤ proofDepth l₂.length) :
    proofDepth l₂.length ≤ proofDepth l₁.length := by
  obtain ⟨hlen₁, htop₁⟩ := merkleRoot_eq_top (H := H) hne₁
  obtain ⟨hlen₂, htop₂⟩ := merkleRoot_eq_top (H := H) hne₂
  obtain ⟨k, hk⟩ := Nat.exists_eq_add_of_le hle
  rw [hk, Function.iterate_add_apply] at htop₂
  rw [hk] at hlen₂
  -- the higher tree, `k` rounds up, is a level as wide as the lower tree's padded leaves
  have hsame := MerkleTree.iterate_pairUp_inj hinj _ hlen₁
    (MerkleTree.length_iterate_pairUp k _ _ hlen₂) (by rw [htop₁, htop₂, h])
  cases k with
  | zero => omega
  | succ k =>
    exfalso
    have hfirst : l₁.head hne₁ ∈ l₁ ++ List.replicate (2 ^ proofDepth l₁.length - l₁.length)
        H.paddingLeaf := List.mem_append_left _ (List.head_mem hne₁)
    rw [hsame, Function.iterate_succ_apply'] at hfirst
    obtain ⟨a, b, hab⟩ := MerkleTree.mem_pairUp hfirst
    exact hleaf _ (List.head_mem hne₁) a b hab

/-- **Roots bind leaf lists of any width**, when no leaf is a hash of two nodes. -/
theorem merkleRoot_inj_of_leaves {l₁ l₂ : List α} (hne₁ : l₁ ≠ []) (hne₂ : l₂ ≠ [])
    (hleaf : ∀ x ∈ l₁ ++ l₂, ∀ a b, x ≠ H.node a b) (hp₁ : H.paddingLeaf ∉ l₁)
    (hp₂ : H.paddingLeaf ∉ l₂) (h : merkleRoot H l₁ = merkleRoot H l₂) :
    l₁ = l₂ := by
  have hleaf₁ : ∀ x ∈ l₁, ∀ a b, x ≠ H.node a b :=
    fun x hx => hleaf x (List.mem_append_left _ hx)
  have hleaf₂ : ∀ x ∈ l₂, ∀ a b, x ≠ H.node a b :=
    fun x hx => hleaf x (List.mem_append_right _ hx)
  refine merkleRoot_inj hinj hne₁ hne₂ ?_ hp₁ hp₂ h
  rcases le_total (proofDepth l₁.length) (proofDepth l₂.length) with hle | hle
  · exact le_antisymm hle (proofDepth_le_of_merkleRoot_eq hinj hne₁ hne₂ hleaf₁ h hle)
  · exact le_antisymm (proofDepth_le_of_merkleRoot_eq hinj hne₂ hne₁ hleaf₂ h.symm hle) hle

end Roots

/-- **Merkle roots bind leaf lists of one padded width.** When the node hash is injective, two
nonempty leaf lists padded to the same power of two, neither holding the padding leaf, have equal
roots only if they are equal.  In particular, appending a copy of the last leaf to a list whose
length is not a power of two always changes its root. -/
theorem merkle_roots_bind_leaves {α : Type} {H : MerkleHasher α}
    (hinj : ∀ a b c d, H.node a b = H.node c d → a = c ∧ b = d) :
    (∀ l₁ l₂ : List α, l₁ ≠ [] → l₂ ≠ [] → nextPowerOfTwo l₁.length = nextPowerOfTwo l₂.length →
      H.paddingLeaf ∉ l₁ → H.paddingLeaf ∉ l₂ → merkleRoot H l₁ = merkleRoot H l₂ → l₁ = l₂) ∧
    (∀ (l : List α) (hne : l ≠ []), ¬l.length.isPowerOfTwo → H.paddingLeaf ∉ l →
      merkleRoot H (l ++ [l.getLast hne]) ≠ merkleRoot H l) := by
  refine ⟨fun l₁ l₂ hne₁ hne₂ hwidth hp₁ hp₂ h =>
    merkleRoot_inj hinj hne₁ hne₂ (proofDepth_eq_of_nextPowerOfTwo_eq hwidth) hp₁ hp₂ h,
    fun l hne hpow hp h => ?_⟩
  have hp' : H.paddingLeaf ∉ l ++ [l.getLast hne] := by
    simp only [List.mem_append, List.mem_singleton, not_or]
    exact ⟨hp, fun heq => hp (heq ▸ List.getLast_mem hne)⟩
  have hwidth : proofDepth (l ++ [l.getLast hne]).length = proofDepth l.length := by
    rw [List.length_append, List.length_singleton, proofDepth_succ_of_not_pow hpow]
  have heq := merkleRoot_inj hinj (by simp) hne hwidth hp' hp h
  have := congrArg List.length heq
  simp at this

/-- Over `Nat.pair`, the roots of `[1, 2, 3]` and `[1, 2, 3, 3]` differ. -/
theorem merkle_roots_bind_leaves_three_leaves :
    (∀ a b c d, pairHasher.node a b = pairHasher.node c d → a = c ∧ b = d) ∧
      ¬[1, 2, 3].length.isPowerOfTwo ∧ pairHasher.paddingLeaf ∉ [1, 2, 3] ∧
      merkleRoot pairHasher ([1, 2, 3] ++ [[1, 2, 3].getLast (by simp)]) ≠
        merkleRoot pairHasher [1, 2, 3] := by
  have hinj : ∀ a b c d, pairHasher.node a b = pairHasher.node c d → a = c ∧ b = d :=
    fun _ _ _ _ h => Nat.pair_eq_pair.mp h
  have hpow : ¬[1, 2, 3].length.isPowerOfTwo := by decide
  have hp : pairHasher.paddingLeaf ∉ [1, 2, 3] := by decide
  exact ⟨hinj, hpow, hp, (merkle_roots_bind_leaves hinj).2 [1, 2, 3] (by simp) hpow hp⟩

end StakeChain

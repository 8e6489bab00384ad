import StakeChain.Proofs.Merkle.Binding
import StakeChain.Proofs.Encoding.Signed
import StakeChain.Proofs.Store.Mirror

/-!
# The table a state root commits to

A state root is the root of a tree over a table of key/value entries: `sortEntries` keeps one
entry per key, the value last given for it (`mem_sortEntries`), and each leaf is the hash of an
entry written with 32-bit length prefixes.

The hash is a parameter here (`chainHasherOver`, `stateRootOver`); the chain's root is the
instance at BLAKE3 (`stateRoot_eq_over`).  Over a hash that is injective and whose digests split
off the front of longer strings (`DigestsPrefixFree`, which digests of one width have, BLAKE3's
among them: `digestsPrefixFree_ofBytes`), two tables with equal roots give every key the same
last value (`lastValue_eq_of_stateRootOver_eq`).

No function of all byte strings into 32-byte digests is injective, so the hypothesis is met
only by hashes with unbounded digests; the argument therefore runs on the digests a hash gives
(`HashOutput`).  On those a node's bytes split into its two children (`outputHasher_node_inj`),
and a map of tree schemes carries roots to roots (`merkleRoot_map`).  A leaf's bytes start with
`0` and a node's with `1`, so no leaf is a node, and the padding leaf, whose bytes start with `U`,
is no leaf.
-/

set_option autoImplicit false

namespace StakeChain

/-! ## Maps of tree schemes -/

section Map

variable {α β : Type} {H : MerkleHasher α} {H' : MerkleHasher β} (f : α → β)
  (hnode : ∀ a b, f (H.node a b) = H'.node (f a) (f b))
include hnode

theorem map_pairUp : ∀ l : List α,
    (MerkleTree.pairUp H l).map f = MerkleTree.pairUp H' (l.map f)
  | a :: b :: rest => by
    simp only [MerkleTree.pairUp, List.map_cons, hnode, map_pairUp rest]
  | [] => rfl
  | [_] => rfl

theorem map_iterate_pairUp (d : Nat) (l : List α) :
    ((MerkleTree.pairUp H)^[d] l).map f = (MerkleTree.pairUp H')^[d] (l.map f) := by
  induction d generalizing l with
  | zero => rfl
  | succ d ih =>
    rw [Function.iterate_succ_apply, Function.iterate_succ_apply, ih, map_pairUp f hnode]

/-- A map of tree schemes, one that carries node hashes, the padding leaf and the empty root,
carries roots to roots. -/
theorem merkleRoot_map (hpad : f H.paddingLeaf = H'.paddingLeaf)
    (hempty : f H.emptyRoot = H'.emptyRoot) (ls : List α) :
    f (merkleRoot H ls) = merkleRoot H' (ls.map f) := by
  by_cases hne : ls = []
  · subst hne
    exact hempty
  have hne' : ls.map f ≠ [] := by simpa using hne
  obtain ⟨-, htop⟩ := merkleRoot_eq_top (H := H) hne
  obtain ⟨-, htop'⟩ := merkleRoot_eq_top (H := H') hne'
  have hmapped := congrArg (List.map f) htop
  rw [map_iterate_pairUp f hnode, List.map_append, List.map_replicate, hpad] at hmapped
  rw [List.length_map] at htop'
  rw [htop'] at hmapped
  simpa using hmapped.symm

end Map

/-! ## One entry per key -/

/-- The value last given for a key in a list of entries. -/
def lastValue (entries : List (Bytes × Bytes)) (k : Bytes) : Option Bytes :=
  (entries.reverse.find? fun e => e.1 = k).map Prod.snd

@[simp] theorem lastValue_nil (k : Bytes) : lastValue [] k = none := rfl

theorem lastValue_append_single (entries : List (Bytes × Bytes)) (e : Bytes × Bytes)
    (k : Bytes) :
    lastValue (entries ++ [e]) k = if e.1 = k then some e.2 else lastValue entries k := by
  unfold lastValue
  rw [List.reverse_append, List.reverse_singleton, List.singleton_append, List.find?_cons]
  by_cases h : e.1 = k <;> simp [h]

/-- A last value is a value given. -/
theorem mem_of_lastValue {entries : List (Bytes × Bytes)} {k v : Bytes}
    (h : lastValue entries k = some v) : (k, v) ∈ entries := by
  obtain ⟨e, he, rfl⟩ := Option.map_eq_some_iff.mp h
  have hk : e.1 = k := by simpa using List.find?_some he
  rw [← hk]
  exact List.mem_reverse.mp (List.mem_of_find?_eq_some he)

/-- A key whose values in a list are exactly those of `o` has `o` for its last value. -/
theorem lastValue_eq_of_mem_iff {entries : List (Bytes × Bytes)} {k : Bytes} {o : Option Bytes}
    (h : ∀ v, (k, v) ∈ entries ↔ o = some v) : lastValue entries k = o := by
  cases hl : lastValue entries k with
  | some w => exact ((h w).mp (mem_of_lastValue hl)).symm
  | none =>
    cases ho : o with
    | none => rfl
    | some v =>
      have hmem : (k, v) ∈ entries.reverse := List.mem_reverse.mpr ((h v).mpr ho)
      rw [lastValue, Option.map_eq_none_iff, List.find?_eq_none] at hl
      exact absurd (hl _ hmem) (by simp)

/-- The entries with one per key, as `sortEntries` keeps them before it sorts. -/
def keepLast (entries : List (Bytes × Bytes)) : List (Bytes × Bytes) :=
  entries.foldl (fun acc e => (acc.filter fun p => p.1 != e.1) ++ [e]) []

theorem sortEntries_eq (entries : List (Bytes × Bytes)) :
    sortEntries entries = (keepLast entries).foldr insertByKey [] := rfl

/-- An entry is kept exactly when it holds the last value given for its key.  Each new entry
drops the kept one with its key and takes its place. -/
theorem mem_keepLast (entries : List (Bytes × Bytes)) (p : Bytes × Bytes) :
    p ∈ keepLast entries ↔ lastValue entries p.1 = some p.2 := by
  induction entries using List.reverseRecOn with
  | nil => simp [keepLast]
  | append_singleton xs x ih =>
    have hstep : keepLast (xs ++ [x]) = ((keepLast xs).filter fun q => q.1 != x.1) ++ [x] := by
      simp only [keepLast, List.foldl_append, List.foldl_cons, List.foldl_nil]
    rw [hstep, lastValue_append_single, List.mem_append, List.mem_filter, List.mem_singleton, ih]
    by_cases hk : x.1 = p.1
    · obtain ⟨k, v⟩ := p
      obtain ⟨k', v'⟩ := x
      simp only at hk
      subst hk
      simp [eq_comm]
    · have hne : p ≠ x := fun h => hk (h ▸ rfl)
      simp [hk, hne, Ne.symm hk]

theorem mem_insertByKey (e p : Bytes × Bytes) :
    ∀ l : List (Bytes × Bytes), p ∈ insertByKey e l ↔ p = e ∨ p ∈ l
  | [] => by simp [insertByKey]
  | q :: rest => by
    unfold insertByKey
    split
    · exact List.mem_cons
    · rw [List.mem_cons, mem_insertByKey e p rest, List.mem_cons]
      tauto

/-- **The table a state root is taken over** holds, for each key given, its last value. -/
theorem mem_sortEntries (entries : List (Bytes × Bytes)) (p : Bytes × Bytes) :
    p ∈ sortEntries entries ↔ lastValue entries p.1 = some p.2 := by
  rw [sortEntries_eq, ← mem_keepLast]
  induction keepLast entries with
  | nil => rfl
  | cons q rest ih => rw [List.foldr_cons, mem_insertByKey, ih, List.mem_cons]

theorem sortEntries_ne_nil {entries : List (Bytes × Bytes)} (h : entries ≠ []) :
    sortEntries entries ≠ [] := by
  obtain ⟨init, last, rfl⟩ : ∃ init last, entries = init ++ [last] :=
    ⟨entries.dropLast, entries.getLast h, (List.dropLast_append_getLast h).symm⟩
  have hmem : (last.1, last.2) ∈ sortEntries (init ++ [last]) := by
    rw [mem_sortEntries, lastValue_append_single, if_pos rfl]
  exact List.ne_nil_of_mem hmem

/-! ## The chain's tree scheme over a hash -/

/-- The bytes of the padding leaf. -/
def paddingBytes : Bytes := "UNICRIUM_MERKLE_EMPTY_LEAF".toUTF8.data.toList

theorem head?_paddingBytes : paddingBytes.head? = some 85 := by decide

/-- The chain's tree scheme over a hash of byte strings: a node is the hash of `1 ‖ left ‖ right`. -/
def chainHasherOver (hash : Bytes → Digest) : MerkleHasher Digest where
  node l r := hash ([1] ++ l.bytes ++ r.bytes)
  paddingLeaf := hash paddingBytes
  emptyRoot := hash []

/-- The bytes hashed into the leaf of a state entry. -/
def stateLeafBytes (key value : Bytes) : Bytes :=
  [0] ++ Bytes.lenPrefix32 key ++ key ++ Bytes.lenPrefix32 value ++ value

/-- The state root over a hash of byte strings. -/
def stateRootOver (hash : Bytes → Digest) (entries : List (Bytes × Bytes)) : Digest :=
  merkleRoot (chainHasherOver hash)
    ((sortEntries entries).map fun e => hash (stateLeafBytes e.1 e.2))

theorem stateRoot_eq_over (entries : List (Bytes × Bytes)) :
    stateRoot entries = stateRootOver Digest.ofBytes entries := rfl

/-- An entry whose key and value have lengths that fit the 32-bit prefixes. -/
def ShortEntry (e : Bytes × Bytes) : Prop := e.1.length < UInt32.size ∧ e.2.length < UInt32.size

/-- A short entry is read back from its leaf bytes. -/
theorem stateLeafBytes_inj {e e' : Bytes × Bytes} (hs : ShortEntry e) (hs' : ShortEntry e')
    (h : stateLeafBytes e.1 e.2 = stateLeafBytes e'.1 e'.2) : e = e' := by
  simp only [stateLeafBytes, List.append_assoc, List.cons_append, List.cons.injEq,
    true_and] at h
  obtain ⟨hk, hv⟩ := (Bytes.lenPrefixed_append_iff hs.1 hs'.1).mp h
  exact Prod.ext hk (Bytes.lenPrefixed_inj hs.2 hs'.2 hv)

/-! ## Hashes that bind -/

/-- A hash whose digests split off the front of any longer string, as digests of one width
do. -/
def DigestsPrefixFree (hash : Bytes → Digest) : Prop :=
  ∀ x y s t : Bytes, (hash x).bytes ++ s = (hash y).bytes ++ t → hash x = hash y ∧ s = t

/-- BLAKE3 digests all have 32 bytes, so they split off the front. -/
theorem digestsPrefixFree_ofBytes : DigestsPrefixFree Digest.ofBytes := by
  intro x y s t h
  have hlen : (Digest.ofBytes x).bytes.length = (Digest.ofBytes y).bytes.length := by
    simp only [Digest.ofBytes, Blake3.length_hash]
  obtain ⟨hxy, hst⟩ := List.append_inj h hlen
  exact ⟨Digest.bytes_inj hxy, hst⟩

/-- The digests a hash gives. -/
abbrev HashOutput (hash : Bytes → Digest) : Type := {d : Digest // ∃ b, hash b = d}

/-- The chain's tree scheme on the digests a hash gives. -/
def outputHasher (hash : Bytes → Digest) : MerkleHasher (HashOutput hash) where
  node l r := ⟨hash ([1] ++ l.1.bytes ++ r.1.bytes), _, rfl⟩
  paddingLeaf := ⟨hash paddingBytes, _, rfl⟩
  emptyRoot := ⟨hash [], _, rfl⟩

/-- The leaf of an entry, as a digest the hash gives. -/
def outputLeaf (hash : Bytes → Digest) (e : Bytes × Bytes) : HashOutput hash :=
  ⟨hash (stateLeafBytes e.1 e.2), _, rfl⟩

theorem stateRootOver_eq_output (hash : Bytes → Digest) (entries : List (Bytes × Bytes)) :
    stateRootOver hash entries =
      (merkleRoot (outputHasher hash) ((sortEntries entries).map (outputLeaf hash))).1 := by
  have hmap : (merkleRoot (outputHasher hash) ((sortEntries entries).map (outputLeaf hash))).1 =
      merkleRoot (chainHasherOver hash)
        (((sortEntries entries).map (outputLeaf hash)).map Subtype.val) :=
    merkleRoot_map Subtype.val (fun _ _ => rfl) rfl rfl _
  rw [hmap, List.map_map]
  rfl

/-- Lists that a map sends to one list are equal when the map separates their members. -/
theorem eq_of_map_eq_of_separates {γ δ : Type} {g : γ → δ} :
    ∀ {l₁ l₂ : List γ}, (∀ x ∈ l₁, ∀ y ∈ l₂, g x = g y → x = y) → l₁.map g = l₂.map g → l₁ = l₂
  | [], [], _, _ => rfl
  | x :: r₁, y :: r₂, hsep, h => by
    simp only [List.map_cons, List.cons.injEq] at h
    rw [hsep x List.mem_cons_self y List.mem_cons_self h.1,
      eq_of_map_eq_of_separates (fun a ha b hb => hsep a (.tail _ ha) b (.tail _ hb)) h.2]
  | [], _ :: _, _, h => by simp at h
  | _ :: _, [], _, h => by simp at h

section Binding

variable {hash : Bytes → Digest} (hinj : Function.Injective hash)
include hinj

/-- On the digests a hash gives, a node's bytes split into its two children. -/
theorem outputHasher_node_inj (hpf : DigestsPrefixFree hash) :
    ∀ a b c d : HashOutput hash,
      (outputHasher hash).node a b = (outputHasher hash).node c d → a = c ∧ b = d := by
  rintro ⟨a, x, rfl⟩ b ⟨c, y, rfl⟩ d h
  have hbytes : [1] ++ (hash x).bytes ++ b.1.bytes = [1] ++ (hash y).bytes ++ d.1.bytes :=
    hinj (congrArg Subtype.val h)
  simp only [List.append_assoc, List.cons_append, List.cons.injEq, true_and] at hbytes
  obtain ⟨hxy, hbd⟩ := hpf x y _ _ hbytes
  exact ⟨Subtype.ext hxy, Subtype.ext (Digest.bytes_inj hbd)⟩

/-- A leaf starts with `0` and a node with `1`. -/
theorem outputLeaf_ne_node (e : Bytes × Bytes) (a b : HashOutput hash) :
    outputLeaf hash e ≠ (outputHasher hash).node a b := by
  intro h
  have hbytes : stateLeafBytes e.1 e.2 = [1] ++ a.1.bytes ++ b.1.bytes :=
    hinj (congrArg Subtype.val h)
  simp [stateLeafBytes] at hbytes

/-- The padding leaf starts with `U`, a leaf with `0`. -/
theorem paddingLeaf_ne_outputLeaf (e : Bytes × Bytes) :
    (outputHasher hash).paddingLeaf ≠ outputLeaf hash e := by
  intro h
  have hbytes : paddingBytes = stateLeafBytes e.1 e.2 := hinj (congrArg Subtype.val h)
  have hhead := congrArg List.head? hbytes
  rw [head?_paddingBytes] at hhead
  simp [stateLeafBytes] at hhead

/-- **Equal roots, one table.** Over an injective hash whose digests split off the front, two
nonempty lists of short entries with equal state roots have the same sorted table. -/
theorem sortEntries_eq_of_stateRootOver_eq (hpf : DigestsPrefixFree hash)
    {e₁ e₂ : List (Bytes × Bytes)} (hne₁ : e₁ ≠ []) (hne₂ : e₂ ≠ [])
    (hs₁ : ∀ p ∈ e₁, ShortEntry p) (hs₂ : ∀ p ∈ e₂, ShortEntry p)
    (h : stateRootOver hash e₁ = stateRootOver hash e₂) : sortEntries e₁ = sortEntries e₂ := by
  rw [stateRootOver_eq_output, stateRootOver_eq_output] at h
  have hshort : ∀ {e}, (∀ p ∈ e, ShortEntry p) → ∀ p ∈ sortEntries e, ShortEntry p :=
    fun hs p hp => hs p (mem_of_lastValue ((mem_sortEntries _ p).mp hp))
  -- the leaves are no nodes and not the padding leaf, so equal roots are equal leaves
  have hleaves := merkleRoot_inj_of_leaves (outputHasher_node_inj hinj hpf)
    (by simpa using sortEntries_ne_nil hne₁) (by simpa using sortEntries_ne_nil hne₂)
    (by
      intro x hx a b
      rcases List.mem_append.mp hx with hx | hx <;>
      · obtain ⟨p, -, rfl⟩ := List.mem_map.mp hx
        exact outputLeaf_ne_node hinj p a b)
    (by
      intro hmem
      obtain ⟨p, -, hp⟩ := List.mem_map.mp hmem
      exact paddingLeaf_ne_outputLeaf hinj p hp.symm)
    (by
      intro hmem
      obtain ⟨p, -, hp⟩ := List.mem_map.mp hmem
      exact paddingLeaf_ne_outputLeaf hinj p hp.symm)
    (Subtype.ext h)
  refine eq_of_map_eq_of_separates (fun x hx y hy hxy => ?_) hleaves
  exact stateLeafBytes_inj (hshort hs₁ x hx) (hshort hs₂ y hy) (hinj (congrArg Subtype.val hxy))

/-- Over an injective hash whose digests split off the front, two nonempty lists of short
entries with equal state roots give every key the same last value. -/
theorem lastValue_eq_of_stateRootOver_eq (hpf : DigestsPrefixFree hash)
    {e₁ e₂ : List (Bytes × Bytes)} (hne₁ : e₁ ≠ []) (hne₂ : e₂ ≠ [])
    (hs₁ : ∀ p ∈ e₁, ShortEntry p) (hs₂ : ∀ p ∈ e₂, ShortEntry p)
    (h : stateRootOver hash e₁ = stateRootOver hash e₂) (k : Bytes) :
    lastValue e₁ k = lastValue e₂ k := by
  have hsort := sortEntries_eq_of_stateRootOver_eq hinj hpf hne₁ hne₂ hs₁ hs₂ h
  apply Option.ext
  intro v
  rw [← mem_sortEntries e₁ (k, v), ← mem_sortEntries e₂ (k, v), hsort]

end Binding

end StakeChain

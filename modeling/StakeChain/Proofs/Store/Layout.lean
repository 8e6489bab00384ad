import StakeChain.Proofs.KeyMap
import StakeChain.Proofs.Steps
import StakeChain.Store.Chain

/-!
# What a batch leaves in the store

A batch lands in order. A key it writes reads the last value written to it, and a key it does
not write reads as before (`MemStore.get?_foldl_insert_last`,
`MemStore.get?_foldl_insert_of_not_mem`).

The key kinds of the layout start with different bytes: `a` for accounts, `b` for blocks, `c`
for certificates, `e` for evidence, `h` for hash indexes and `m` for the two records. Heights
in keys are big-endian words, so two block keys differ when their heights do
(`Layout.blockKey_inj`). A committed block is therefore stored at its height, and the blocks
stored at other heights stay (`ChainStore.commitBlock_blocks`).
-/

set_option autoImplicit false

namespace StakeChain

/-- Reading back a big-endian word gives the word. -/
theorem Bytes.readBe_be64 (v : UInt64) : Bytes.readBe (Bytes.be64 v) = v.toNat := by
  unfold Bytes.readBe Bytes.be64
  rw [List.reverse_reverse]
  exact Bytes.readLe_le64 v

theorem Bytes.be64_inj {a b : UInt64} (h : Bytes.be64 a = Bytes.be64 b) : a = b := by
  have hread := congrArg Bytes.readBe h
  rw [Bytes.readBe_be64, Bytes.readBe_be64] at hread
  exact UInt64.toNat_inj.mp hread

namespace MemStore

theorem writeBatch_eq_ok {s s' : MemStore} {ops : List (Bytes × Bytes)}
    (h : s.writeBatch ops = .ok s') :
    s' = { s with entries := ops.foldl (fun m (k, v) => m.insert ⟨k⟩ v) s.entries } := by
  unfold writeBatch at h
  split at h
  · cases h
  · cases h
    rfl

/-- A key the batch does not write reads as before. -/
theorem get?_foldl_insert_of_not_mem (k : Bytes) :
    ∀ (ops : List (Bytes × Bytes)) (m : KeyMap StoreKey Bytes), k ∉ ops.map Prod.fst →
      (ops.foldl (fun m (k, v) => m.insert ⟨k⟩ v) m).get? ⟨k⟩ = m.get? ⟨k⟩
  | [], _, _ => rfl
  | (k', v) :: ops, m, hk => by
    have hne : k ≠ k' := fun heq => hk (by simp [heq])
    rw [List.foldl_cons, get?_foldl_insert_of_not_mem k ops _ fun h => hk (by simp [h])]
    exact KeyMap.get?_insert_of_ne _ _ fun heq => hne (congrArg StoreKey.bytes heq)

/-- A key reads the last value the batch writes to it. -/
theorem get?_foldl_insert_last (k v : Bytes) (pre post : List (Bytes × Bytes))
    (m : KeyMap StoreKey Bytes) (hk : k ∉ post.map Prod.fst) :
    ((pre ++ (k, v) :: post).foldl (fun m (k, v) => m.insert ⟨k⟩ v) m).get? ⟨k⟩ = some v := by
  rw [List.foldl_append, List.foldl_cons, get?_foldl_insert_of_not_mem k post _ hk]
  exact KeyMap.get?_insert_self _ _ _

end MemStore

namespace Layout

theorem text_acct : text "acct/" = [97, 99, 99, 116, 47] := by decide

theorem text_blk : text "blk/" = [98, 108, 107, 47] := by decide

theorem text_hash : text "hash/" = [104, 97, 115, 104, 47] := by decide

theorem text_cert : text "cert/" = [99, 101, 114, 116, 47] := by decide

theorem text_evd : text "evd/" = [101, 118, 100, 47] := by decide

@[simp] theorem head?_accountKey (a : Address) : (accountKey a).head? = some 97 := by
  simp [accountKey, text_acct]

@[simp] theorem head?_blockKey (h : UInt64) : (blockKey h).head? = some 98 := by
  simp [blockKey, text_blk]

@[simp] theorem head?_certificateKey (h : UInt64) : (certificateKey h).head? = some 99 := by
  simp [certificateKey, text_cert]

@[simp] theorem head?_evidenceKey (id : Digest) : (evidenceKey id).head? = some 101 := by
  simp [evidenceKey, text_evd]

@[simp] theorem head?_hashKey (d : Digest) : (hashKey d).head? = some 104 := by
  simp [hashKey, text_hash]

@[simp] theorem head?_ledgerKey : ledgerKey.head? = some 109 := by decide

@[simp] theorem head?_tipKey : tipKey.head? = some 109 := by decide

theorem blockKey_inj {h h' : UInt64} : blockKey h = blockKey h' ↔ h = h' := by
  constructor
  · intro heq
    exact Bytes.be64_inj (List.append_cancel_left heq)
  · rintro rfl
    rfl

end Layout

namespace ChainStore

/-- The writes of a committed block's batch after the block itself: its hash index, its
evidence, its certificate, the changed accounts, the ledger record and the tip. -/
def commitRest (b : Block) (cert : Option Certificate) (l base : Ledger) : List (Bytes × Bytes) :=
  (Layout.hashKey b.hash, Bytes.be64 b.height) ::
    (b.evidence.map (fun e => (Layout.evidenceKey e.id, e.encode)) ++
      cert.toList.map (fun c => (Layout.certificateKey c.height, c.encode)) ++
      ledgerWrites (l.changedAccounts base) l ++ [(Layout.tipKey, encodeTip b.height b.hash)])

/-- A committed block's batch starts with the block. -/
theorem commitBlock_eq_ok {s s' : ChainStore} {b : Block} {cert : Option Certificate}
    {l base : Ledger} (h : s.commitBlock b cert l base = .ok s') :
    ∃ kv, s.kv.writeBatch ((Layout.blockKey b.height, b.encode) :: commitRest b cert l base) =
      .ok kv ∧ s' = { kv := kv, cache := s.cache.put b.height b } := by
  unfold commitBlock at h
  obtain ⟨kv, hkv, hs'⟩ := Except.bind_eq_ok h
  refine ⟨kv, ?_, ?_⟩
  · cases cert <;> exact hkv
  · cases hs'
    rfl

/-- The writes after the block are of other kinds than block keys. -/
theorem head?_commitRest (b : Block) (cert : Option Certificate) (l base : Ledger) :
    ∀ x ∈ commitRest b cert l base, x.1.head? ≠ some 98 := by
  intro x hx
  simp only [commitRest, ledgerWrites, List.mem_cons, List.mem_append, List.mem_map,
    Option.mem_toList, List.not_mem_nil, or_false] at hx
  rcases hx with rfl | ((⟨e, -, rfl⟩ | ⟨c, -, rfl⟩) | ⟨⟨a, acct⟩, -, rfl⟩ | rfl) | rfl <;> simp

theorem blockKey_not_mem_commitRest (b : Block) (cert : Option Certificate) (l base : Ledger)
    (k : UInt64) : Layout.blockKey k ∉ (commitRest b cert l base).map Prod.fst := by
  intro hmem
  obtain ⟨x, hx, heq⟩ := List.mem_map.mp hmem
  have hhead := head?_commitRest b cert l base x hx
  rw [heq, Layout.head?_blockKey] at hhead
  exact hhead rfl

/-- A committed block is stored at its height, and the blocks stored at other heights stay. -/
theorem commitBlock_blocks {s s' : ChainStore} {b : Block} {cert : Option Certificate}
    {l base : Ledger} (h : s.commitBlock b cert l base = .ok s') :
    s'.kv.get? (Layout.blockKey b.height) = some b.encode ∧
      ∀ k, k ≠ b.height → s'.kv.get? (Layout.blockKey k) = s.kv.get? (Layout.blockKey k) := by
  obtain ⟨kv, hkv, rfl⟩ := commitBlock_eq_ok h
  rw [MemStore.writeBatch_eq_ok hkv]
  refine ⟨MemStore.get?_foldl_insert_last _ _ [] _ _ (blockKey_not_mem_commitRest b cert l base _),
    fun k hk => MemStore.get?_foldl_insert_of_not_mem _ _ _ ?_⟩
  rw [List.map_cons, List.mem_cons, not_or]
  exact ⟨fun heq => hk (Layout.blockKey_inj.mp heq), blockKey_not_mem_commitRest b cert l base k⟩

end ChainStore

end StakeChain

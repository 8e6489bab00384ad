import StakeChain.Proofs.Store.Layout
import StakeChain.Proofs.Ledger.Accounts

/-!
# A store that holds a final block and its ledger

`MemStore.Holds kv B l` says that the entries of `kv` hold block `B` as the tip, with ledger
`l`. The tip record names `B`, and the block is stored at its height. The ledger record is `l`
without its accounts, and the account stored under an address is the account `l` has there
(nothing where `l` has none), and every key under `cert/` is a certificate key. `ChainStore.Holds` adds the cache, which holds `B` at its height.

A committed block's batch writes the block, the ledger record, the tip and the accounts that
differ from the ledger held before (`Ledger.changedAccounts`). When the new ledger only rewrote
accounts of the held one (`Ledger.Rewrites`), an account it lacks was lacking before. The store
then holds the new block and ledger (`ChainStore.Holds.commitBlock`). Genesis is such a commit
over the empty ledger (`ChainStore.holds_commitGenesis`).

The readers give back what is held: the tip (`MemStore.Holds.tip_eq`) and the tip block from
the cache (`ChainStore.Holds.block_eq`). When the records decode, they also give the ledger with
all its accounts (`MemStore.Holds.loadLedger_eq`), the newest stored certificate
(`MemStore.Holds.latestCertificate_ok`) and the tip block read into a fresh cache
(`MemStore.Holds.block_fresh`).
-/

set_option autoImplicit false

namespace StakeChain

/-! ## Records read back -/

namespace Decoder

theorem take_append (xs rest : Bytes) : take xs.length (xs ++ rest) = some (xs, rest) := by
  unfold take
  simp

theorem u64_append (v : UInt64) (rest : Bytes) : u64 (Bytes.le64 v ++ rest) = some (v, rest) := by
  have htake : take 8 (Bytes.le64 v ++ rest) = some (Bytes.le64 v, rest) := by
    simpa using take_append (Bytes.le64 v) rest
  show ((fun n => n.toUInt64) <$> (Bytes.readLe <$> take 8)) (Bytes.le64 v ++ rest) = _
  simp only [Functor.map, StateT.map, htake]
  simp [Bytes.readLe_le64]

end Decoder

theorem Account.decoder_encode (a : Account) (rest : Bytes) :
    Account.decoder (a.encode ++ rest) = some (a, rest) := by
  simp only [Account.decoder, Account.encode, List.append_assoc]
  simp [bind, StateT.bind, Decoder.u64_append, pure, StateT.pure]

theorem Account.decode_encode (a : Account) : Account.decoder.decode a.encode = some a := by
  have h := Account.decoder_encode a []
  rw [List.append_nil] at h
  simp [Decoder.decode, StateT.run, h]

/-- A digest has 32 bytes. -/
theorem Blake3.length_hash (bs : Bytes) : (Blake3.hash bs).length = 32 := by
  simp [Blake3.hash, Blake3.Output.digest, Blake3.Words8.toBytes]

theorem Block.length_hash (b : Block) : b.hash.bytes.length = 32 :=
  Blake3.length_hash _

theorem tipDecoder_encodeTip (height : UInt64) {hash : Digest} (h : hash.bytes.length = 32) :
    tipDecoder.decode (encodeTip height hash) = some (height, hash) := by
  have htake := Decoder.take_append hash.bytes []
  rw [List.append_nil, h] at htake
  simp [Decoder.decode, StateT.run, tipDecoder, encodeTip, Encode.u64, bind, StateT.bind,
    Decoder.u64_append, Decoder.digest, htake, pure, StateT.pure, Functor.map, StateT.map]

/-! ## Keys under a lead -/

namespace Layout

theorem isPrefixOf_append (p t : Bytes) : p.isPrefixOf (p ++ t) = true :=
  List.isPrefixOf_iff_prefix.mpr (List.prefix_append p t)

/-- A key under a five-byte lead is the lead followed by the rest of the key. -/
theorem eq_append_drop {p k : Bytes} (hp : p.length = 5) (h : p.isPrefixOf k = true) :
    k = p ++ k.drop 5 := by
  obtain ⟨t, rfl⟩ := List.isPrefixOf_iff_prefix.mp h
  rw [← hp, List.drop_left]

theorem head?_of_isPrefixOf {p k : Bytes} {b : UInt8} (hb : p.head? = some b)
    (h : p.isPrefixOf k = true) : k.head? = some b := by
  obtain ⟨t, rfl⟩ := List.isPrefixOf_iff_prefix.mp h
  cases p with
  | nil => cases hb
  | cons x p => simpa using hb

theorem length_text_acct : (text "acct/").length = 5 := by rw [text_acct]; rfl

theorem length_text_cert : (text "cert/").length = 5 := by rw [text_cert]; rfl

theorem drop_accountKey (a : Address) : (accountKey a).drop 5 = a.bytes := by
  rw [accountKey, ← length_text_acct, List.drop_left]

theorem accountKey_inj {a b : Address} (h : accountKey a = accountKey b) : a = b := by
  have hdrop := congrArg (List.drop 5) h
  rw [drop_accountKey, drop_accountKey] at hdrop
  cases a
  cases b
  cases hdrop
  rfl

/-- A key under `acct/` is the account key of the address it ends in. -/
theorem eq_accountKey {k : Bytes} (h : (text "acct/").isPrefixOf k = true) :
    k = accountKey ⟨k.drop 5⟩ :=
  eq_append_drop length_text_acct h

theorem length_drop_certificateKey (h : UInt64) : ((certificateKey h).drop 5).length = 8 := by
  rw [certificateKey, ← length_text_cert, List.drop_left, Bytes.be64_length]

theorem tipKey_ne_ledgerKey : tipKey ≠ ledgerKey := by decide

end Layout

namespace MemStore

theorem mem_entriesUnder {s : MemStore} {lead k v : Bytes} :
    (k, v) ∈ s.entriesUnder lead ↔ (⟨k⟩, v) ∈ s.entries.toList ∧ lead.isPrefixOf k = true := by
  unfold entriesUnder
  constructor
  · intro h
    obtain ⟨⟨⟨k'⟩, v'⟩, hmem, heq⟩ := List.mem_map.mp h
    cases heq
    exact List.mem_filter.mp hmem
  · intro h
    exact List.mem_map.mpr ⟨(⟨k⟩, v), List.mem_filter.mpr h, rfl⟩

/-- An entry is what its key reads. -/
theorem get?_of_mem_entriesUnder {s : MemStore} {lead k v : Bytes}
    (h : (k, v) ∈ s.entriesUnder lead) : s.get? k = some v :=
  KeyMap.get?_of_mem (mem_entriesUnder.mp h).1

/-- Entries under a lead have distinct keys after the lead. -/
theorem entriesUnder_pairwise (s : MemStore) {lead : Bytes} (hlead : lead.length = 5) :
    (s.entriesUnder lead).Pairwise fun x y => x.1.drop 5 ≠ y.1.drop 5 := by
  unfold entriesUnder
  rw [List.pairwise_map]
  apply List.Pairwise.imp_of_mem _ (List.Pairwise.filter _ s.entries.sorted)
  rintro ⟨⟨kx⟩, vx⟩ ⟨⟨ky⟩, vy⟩ hx hy hlt heq
  have hx' := (List.mem_filter.mp hx).2
  have hy' := (List.mem_filter.mp hy).2
  -- equal ends under one lead are equal keys, which never compare below each other
  have hkey : kx = ky :=
    (Layout.eq_append_drop hlead hx').trans (heq ▸ (Layout.eq_append_drop hlead hy').symm)
  subst hkey
  simp at hlt

/-- An entry after a batch was there before or was written by it. -/
theorem mem_foldl_insert {e : StoreKey × Bytes} :
    ∀ (ops : List (Bytes × Bytes)) (m : KeyMap StoreKey Bytes),
      e ∈ (ops.foldl (fun m (k, v) => m.insert ⟨k⟩ v) m).toList → e ∈ m.toList ∨ (e.1.bytes, e.2) ∈ ops
  | [], _, h => .inl h
  | (k, v) :: ops, m, h => by
    rcases mem_foldl_insert ops _ h with h | h
    · rcases KeyMap.mem_insertEntry h with rfl | h
      · exact .inr List.mem_cons_self
      · exact .inl h
    · exact .inr (List.mem_cons_of_mem _ h)

/-! ## The batch of a ledger -/

section Batch

variable (P : List (Bytes × Bytes)) (accts : List (Address × Account)) (r t : Bytes)
  (m : KeyMap StoreKey Bytes)

/-- A batch that stores a ledger: some records, then accounts, the ledger record and the tip. -/
def ledgerBatch : List (Bytes × Bytes) :=
  P ++ accts.map (fun (a, acct) => (Layout.accountKey a, acct.encode)) ++
    [(Layout.ledgerKey, r)] ++ [(Layout.tipKey, t)]

theorem ne_of_head? {k k' : Bytes} {x y : UInt8} (hk : k.head? = some x) (hk' : k'.head? = some y)
    (hxy : x ≠ y) : k ≠ k' := by
  rintro rfl
  rw [hk] at hk'
  exact hxy (Option.some.inj hk')

theorem get?_foldl_ledgerBatch_tip :
    ((ledgerBatch P accts r t).foldl (fun m (k, v) => m.insert ⟨k⟩ v) m).get? ⟨Layout.tipKey⟩ =
      some t :=
  get?_foldl_insert_last _ _ _ [] m List.not_mem_nil

theorem get?_foldl_ledgerBatch_ledger :
    ((ledgerBatch P accts r t).foldl (fun m (k, v) => m.insert ⟨k⟩ v) m).get? ⟨Layout.ledgerKey⟩ =
      some r := by
  unfold ledgerBatch
  rw [List.append_assoc _ [(Layout.ledgerKey, r)]]
  refine get?_foldl_insert_last _ _ _ _ m ?_
  simpa using Layout.tipKey_ne_ledgerKey.symm

/-- The accounts of the batch are written after the records before them and are not written
again. -/
theorem foldl_ledgerBatch_account (a : Address) :
    ((ledgerBatch P accts r t).foldl (fun m (k, v) => m.insert ⟨k⟩ v) m).get? ⟨Layout.accountKey a⟩ =
      (accts.foldl (fun m x => m.insert ⟨Layout.accountKey x.1⟩ x.2.encode)
        (P.foldl (fun m (k, v) => m.insert ⟨k⟩ v) m)).get? ⟨Layout.accountKey a⟩ := by
  have hrecord : ∀ k, k.head? = some 109 → Layout.accountKey a ≠ k := fun k hk =>
    ne_of_head? (Layout.head?_accountKey a) hk (by decide)
  unfold ledgerBatch
  rw [List.foldl_append, List.foldl_append, get?_foldl_insert_of_not_mem _ _ _ (by
      simpa using hrecord _ Layout.head?_tipKey),
    get?_foldl_insert_of_not_mem _ _ _ (by simpa using hrecord _ Layout.head?_ledgerKey),
    List.foldl_append, List.foldl_map]

/-- An account of the batch is stored, when the batch writes each address once. -/
theorem get?_foldl_ledgerBatch_of_mem (hd : accts.Pairwise fun x y => x.1 ≠ y.1) {a : Address}
    {acct : Account} (h : (a, acct) ∈ accts) :
    ((ledgerBatch P accts r t).foldl (fun m (k, v) => m.insert ⟨k⟩ v) m).get? ⟨Layout.accountKey a⟩ =
      some acct.encode := by
  rw [foldl_ledgerBatch_account]
  refine KeyMap.get?_foldl_insert_of_mem (fun x => (⟨Layout.accountKey x.1⟩ : StoreKey))
    (fun x => x.2.encode) accts _ (hd.imp fun hne heq => hne (Layout.accountKey_inj ?_)) _ h
  exact congrArg StoreKey.bytes heq

/-- An address the batch writes no account for reads as before, when the records before the
accounts are of other kinds. -/
theorem get?_foldl_ledgerBatch_of_not_mem (hP : ∀ x ∈ P, x.1.head? ≠ some 97) {a : Address}
    (h : ∀ acct, (a, acct) ∉ accts) :
    ((ledgerBatch P accts r t).foldl (fun m (k, v) => m.insert ⟨k⟩ v) m).get? ⟨Layout.accountKey a⟩ =
      m.get? ⟨Layout.accountKey a⟩ := by
  rw [foldl_ledgerBatch_account, KeyMap.get?_foldl_insert_of_forall_ne _ _ _ _ _ ?_,
    get?_foldl_insert_of_not_mem]
  · intro hmem
    obtain ⟨x, hx, heq⟩ := List.mem_map.mp hmem
    exact hP x hx (heq ▸ Layout.head?_accountKey a)
  · rintro ⟨a', acct⟩ hx heq
    have ha : a' = a := Layout.accountKey_inj (congrArg StoreKey.bytes heq)
    subst ha
    exact h acct hx

end Batch

end MemStore

/-! ## What a committed block leaves -/

namespace Ledger

theorem mem_changedAccounts {l base : Ledger} {a : Address} {acct : Account} :
    (a, acct) ∈ l.changedAccounts base ↔
      l.accounts.get? a = some acct ∧ base.accounts.get? a ≠ some acct := by
  unfold changedAccounts
  rw [List.mem_filter]
  constructor
  · rintro ⟨hmem, hne⟩
    exact ⟨KeyMap.get?_of_mem hmem, by simpa using hne⟩
  · rintro ⟨hget, hne⟩
    exact ⟨KeyMap.mem_toList_of_get? hget, by simpa using hne⟩

theorem changedAccounts_pairwise (l base : Ledger) :
    (l.changedAccounts base).Pairwise fun x y => x.1 ≠ y.1 :=
  (List.Pairwise.filter _ l.accounts.sorted).imp fun hlt heq => by
    rw [heq] at hlt
    simp at hlt

end Ledger

/-- The entries of `kv` hold block `B` as the tip with ledger `l`: the tip record, the block at
its height, the ledger record and every account are those of `B` and `l`, and each key under
`cert/` is a certificate key. -/
structure MemStore.Holds (kv : MemStore) (B : Block) (l : Ledger) : Prop where
  tip : kv.get? Layout.tipKey = some (encodeTip B.height B.hash)
  block : kv.get? (Layout.blockKey B.height) = some B.encode
  ledger : kv.get? Layout.ledgerKey = some l.encodeAggregates
  accounts : ∀ a, kv.get? (Layout.accountKey a) = (l.accounts.get? a).map Account.encode
  certificates : ∀ k v, (k, v) ∈ kv.entriesUnder (Layout.text "cert/") →
    ∃ h, k = Layout.certificateKey h

/-- The store holds block `B` as the tip with ledger `l`, and its cache holds `B`. -/
structure ChainStore.Holds (s : ChainStore) (B : Block) (l : Ledger) : Prop where
  kv : s.kv.Holds B l
  cached : s.cache.peek? B.height = some B
  capacity : 0 < s.cache.capacity

namespace ChainStore

/-- A committed block's batch, as a ledger batch: the block, its hash index, evidence and
certificate come first. -/
theorem commitBatch_eq (b : Block) (cert : Option Certificate) (l base : Ledger) :
    (Layout.blockKey b.height, b.encode) :: commitRest b cert l base =
      MemStore.ledgerBatch ((Layout.blockKey b.height, b.encode) ::
        (Layout.hashKey b.hash, Bytes.be64 b.height) ::
          (b.evidence.map (fun e => (Layout.evidenceKey e.id, e.encode)) ++
            cert.toList.map (fun c => (Layout.certificateKey c.height, c.encode))))
        (l.changedAccounts base) l.encodeAggregates (encodeTip b.height b.hash) := by
  simp [commitRest, ledgerWrites, MemStore.ledgerBatch]

/-- Genesis is committed as a block with no certificate over the empty ledger, whose accounts
all differ from none. -/
theorem commitGenesis_eq (s : ChainStore) (b : Block) (l : Ledger) :
    s.commitGenesis b l = s.commitBlock b none l {} := by
  have hall : l.changedAccounts {} = l.accounts.toList := by
    unfold Ledger.changedAccounts
    exact List.filter_eq_self.mpr fun x _ => by simp
  simp only [commitGenesis, commitBlock, hall, List.append_nil]

/-- The only write of a committed block's batch whose key starts like a certificate key is
the certificate's own. -/
theorem commitBatch_certificates (b : Block) (cert : Option Certificate) (l base : Ledger) :
    ∀ x ∈ (Layout.blockKey b.height, b.encode) :: commitRest b cert l base,
      (∃ c ∈ cert, x = (Layout.certificateKey c.height, c.encode)) ∨ x.1.head? ≠ some 99 := by
  intro x hx
  simp only [commitRest, ledgerWrites, List.mem_cons, List.mem_append, List.mem_map,
    Option.mem_toList, List.not_mem_nil, or_false] at hx
  rcases hx with rfl | rfl | ((⟨e, -, rfl⟩ | ⟨c, hc, rfl⟩) | ⟨⟨a, acct⟩, -, rfl⟩ | rfl) | rfl
  · exact .inr (by simp)
  · exact .inr (by simp)
  · exact .inr (by simp)
  · exact .inl ⟨c, hc, rfl⟩
  · exact .inr (by simp)
  · exact .inr (by simp)
  · exact .inr (by simp)

/-- What a committed block's batch leaves in a store whose keys under `cert/` are certificate
keys and whose accounts are those of `base`. When the new ledger
only rewrote accounts of `base`, the entries hold the block and the new ledger. -/
theorem commitBlock_holds {s s' : ChainStore} {b : Block} {cert : Option Certificate}
    {l base : Ledger} (h : s.commitBlock b cert l base = .ok s')
    (hcert : ∀ k v, (k, v) ∈ s.kv.entriesUnder (Layout.text "cert/") →
      ∃ h, k = Layout.certificateKey h)
    (hacc : ∀ a, s.kv.get? (Layout.accountKey a) = (base.accounts.get? a).map Account.encode)
    (hrw : base.Rewrites l) :
    s'.kv.Holds b l ∧ s'.cache = s.cache.put b.height b := by
  have hblock := (commitBlock_blocks h).1
  obtain ⟨kv, hkv, rfl⟩ := commitBlock_eq_ok h
  refine ⟨⟨?_, hblock, ?_, fun a => ?_, ?_⟩, rfl⟩
  all_goals rw [MemStore.writeBatch_eq_ok hkv]
  · show MemStore.get? _ _ = _
    rw [MemStore.get?, commitBatch_eq]
    exact MemStore.get?_foldl_ledgerBatch_tip _ _ _ _ _
  · show MemStore.get? _ _ = _
    rw [MemStore.get?, commitBatch_eq]
    exact MemStore.get?_foldl_ledgerBatch_ledger _ _ _ _ _
  · show MemStore.get? _ _ = _
    rw [MemStore.get?, commitBatch_eq]
    have hP : ∀ x ∈ (Layout.blockKey b.height, b.encode) ::
        (Layout.hashKey b.hash, Bytes.be64 b.height) ::
          (b.evidence.map (fun e => (Layout.evidenceKey e.id, e.encode)) ++
            cert.toList.map (fun c => (Layout.certificateKey c.height, c.encode))),
        x.1.head? ≠ some 97 := by
      intro x hx
      simp only [List.mem_cons, List.mem_append, List.mem_map, Option.mem_toList] at hx
      rcases hx with rfl | rfl | ⟨e, -, rfl⟩ | ⟨c, -, rfl⟩ <;> simp
    cases hget : l.accounts.get? a with
    | none =>
      have hnone : ∀ acct, (a, acct) ∉ l.changedAccounts base := fun acct hmem => by
        rw [(Ledger.mem_changedAccounts.mp hmem).1] at hget
        cases hget
      rw [MemStore.get?_foldl_ledgerBatch_of_not_mem _ _ _ _ _ hP hnone]
      have hbase : base.accounts.get? a = none := by
        cases hb : base.accounts.get? a with
        | none => rfl
        | some x =>
          have hsome := hrw.isSome (a := a) (by rw [hb]; rfl)
          rw [hget] at hsome
          cases hsome
      exact (hacc a).trans (by rw [hbase])
    | some acct =>
      by_cases hsame : base.accounts.get? a = some acct
      · have hnone : ∀ acct', (a, acct') ∉ l.changedAccounts base := fun acct' hmem => by
          obtain ⟨hget', hne⟩ := Ledger.mem_changedAccounts.mp hmem
          rw [hget] at hget'
          cases hget'
          exact hne hsame
        rw [MemStore.get?_foldl_ledgerBatch_of_not_mem _ _ _ _ _ hP hnone]
        exact (hacc a).trans (by rw [hsame])
      · rw [MemStore.get?_foldl_ledgerBatch_of_mem _ _ _ _ _ (Ledger.changedAccounts_pairwise l base)
          (Ledger.mem_changedAccounts.mpr ⟨hget, hsame⟩)]
        rfl
  · intro k v hk
    obtain ⟨hmem, hpre⟩ := MemStore.mem_entriesUnder.mp hk
    rcases MemStore.mem_foldl_insert _ _ hmem with hold | hnew
    · exact hcert k v (MemStore.mem_entriesUnder.mpr ⟨hold, hpre⟩)
    · -- a key the batch wrote under `cert/` is a certificate key
      rcases commitBatch_certificates b cert l base _ hnew with ⟨c, -, hc⟩ | hhead
      · exact ⟨c.height, congrArg Prod.fst hc⟩
      · exact absurd (Layout.head?_of_isPrefixOf (by rw [Layout.text_cert]; rfl) hpre) hhead

end ChainStore

/-! ## Reading back -/

namespace RecentMap

variable {κ ν : Type} [BEq κ] [LawfulBEq κ]

omit [LawfulBEq κ] in
@[simp] theorem capacity_put (m : RecentMap κ ν) (k : κ) (v : ν) :
    (m.put k v).capacity = m.capacity := rfl

/-- An entry just put is found, in a map with room for one. -/
theorem peek?_put_self_of_pos (m : RecentMap κ ν) (k : κ) (v : ν) (h : 0 < m.capacity) :
    (m.put k v).peek? k = some v := by
  obtain ⟨n, hn⟩ : ∃ n, m.capacity = n + 1 := ⟨m.capacity - 1, by omega⟩
  simp [put, peek?, hn]

omit [LawfulBEq κ] in
theorem get?_of_peek? {m : RecentMap κ ν} {k : κ} {v : ν} (h : m.peek? k = some v) :
    m.get? k = (some v, m.put k v) := by
  unfold get?
  rw [h]

end RecentMap

namespace ChainStore

theorem loadAccounts_eq_ok (f : Bytes → Account) :
    ∀ (E : List (Bytes × Bytes)) (m : KeyMap Address Account),
      (∀ e ∈ E, (e.1.drop 5).length = 20 ∧ Account.decoder.decode e.2 = some (f e.2)) →
      loadAccounts E m = .ok (E.foldl (fun m e => m.insert ⟨e.1.drop 5⟩ (f e.2)) m)
  | [], _, _ => rfl
  | (k, v) :: E, m, h => by
    obtain ⟨hlen, hdec⟩ := h (k, v) (.head _)
    simp only [loadAccounts, hlen, ne_eq, not_true_eq_false, if_false, decodeStored, hdec]
    exact loadAccounts_eq_ok f E _ fun e he => h e (.tail _ he)

end ChainStore

namespace MemStore.Holds

variable {s : ChainStore} {B : Block} {l : Ledger}

/-- The tip read back is the held block's height and hash. -/
theorem tip_eq (h : s.kv.Holds B l) : s.tip = .ok (some (B.height, B.hash)) := by
  unfold ChainStore.tip
  rw [h.tip]
  simp [decodeStored, tipDecoder_encodeTip _ (Block.length_hash B)]

/-- Each entry under `acct/` is the account of `l` at the address its key ends in. -/
theorem entry_account (h : s.kv.Holds B l) {k v : Bytes}
    (he : (k, v) ∈ s.kv.entriesUnder (Layout.text "acct/")) :
    ∃ acct, l.accounts.get? ⟨k.drop 5⟩ = some acct ∧ v = acct.encode := by
  have hget := MemStore.get?_of_mem_entriesUnder he
  rw [Layout.eq_accountKey (MemStore.mem_entriesUnder.mp he).2, h.accounts] at hget
  obtain ⟨acct, hacct, hv⟩ := Option.map_eq_some_iff.mp hget
  exact ⟨acct, hacct, hv.symm⟩

/-- The accounts read back are those of `l`, when every address has 20 bytes. -/
theorem loadAccounts_eq (h : s.kv.Holds B l)
    (haddr : ∀ a acct, l.accounts.get? a = some acct → a.bytes.length = 20) :
    ChainStore.loadAccounts (s.kv.entriesUnder (Layout.text "acct/")) .empty = .ok l.accounts := by
  let f : Bytes → Account := fun bs => (Account.decoder.decode bs).getD {}
  have hf : ∀ acct : Account, f acct.encode = acct := fun acct => by
    simp only [f, Account.decode_encode, Option.getD_some]
  rw [ChainStore.loadAccounts_eq_ok f _ _ fun e he => by
    obtain ⟨acct, hacct, hv⟩ := h.entry_account he
    refine ⟨haddr _ _ hacct, ?_⟩
    rw [hv, hf, Account.decode_encode]]
  congr 1
  refine KeyMap.eq_of_get?_eq fun a => ?_
  have hpair := (MemStore.entriesUnder_pairwise s.kv Layout.length_text_acct).imp
    fun hne heq => hne (congrArg Address.bytes heq)
  cases hget : l.accounts.get? a with
  | none =>
    rw [KeyMap.get?_foldl_insert_of_forall_ne, KeyMap.get?_empty]
    rintro ⟨k, v⟩ he hka
    obtain ⟨acct, hacct, -⟩ := h.entry_account he
    rw [hka, hget] at hacct
    cases hacct
  | some acct =>
    have hmem : (Layout.accountKey a, acct.encode) ∈ s.kv.entriesUnder (Layout.text "acct/") := by
      refine MemStore.mem_entriesUnder.mpr ⟨KeyMap.mem_toList_of_get? ?_, Layout.isPrefixOf_append _ _⟩
      exact (h.accounts a).trans (by rw [hget]; rfl)
    have hread := KeyMap.get?_foldl_insert_of_mem (fun e : Bytes × Bytes => (⟨e.1.drop 5⟩ : Address))
      (fun e => f e.2) _ KeyMap.empty hpair _ hmem
    simp only [Layout.drop_accountKey, hf] at hread
    exact hread

/-- The ledger read back is `l`, when its record decodes and its addresses have 20 bytes. -/
theorem loadLedger_eq (h : s.kv.Holds B l)
    (haddr : ∀ a acct, l.accounts.get? a = some acct → a.bytes.length = 20)
    (hagg : Ledger.aggregatesDecoder.decode l.encodeAggregates = some { l with accounts := .empty }) :
    s.loadLedger = .ok l := by
  unfold ChainStore.loadLedger
  rw [h.ledger]
  simp only [decodeStored, hagg, Except.ok_bind, h.loadAccounts_eq haddr]
  rfl

end MemStore.Holds

namespace ChainStore

/-- The newest certificate at or below a height is found, when every key met ends in a height. -/
theorem lastCertificateAtOrBelow_ok (h : UInt64) :
    ∀ (E : List (Bytes × Bytes)) (best : Option Bytes), (∀ e ∈ E, (e.1.drop 5).length = 8) →
      ∃ r, lastCertificateAtOrBelow h E best = .ok r ∧ (r = best ∨ ∃ e ∈ E, r = some e.2)
  | [], best, _ => ⟨best, rfl, .inl rfl⟩
  | (k, v) :: E, best, hE => by
    have hk := hE (k, v) (.head _)
    unfold lastCertificateAtOrBelow
    rw [if_neg (by simpa using hk)]
    split
    · exact ⟨best, rfl, .inl rfl⟩
    · obtain ⟨r, hr, hcases⟩ :=
        lastCertificateAtOrBelow_ok h E (some v) fun e he => hE e (.tail _ he)
      refine ⟨r, hr, ?_⟩
      rcases hcases with rfl | ⟨e, he, rfl⟩
      · exact .inr ⟨(k, v), .head _, rfl⟩
      · exact .inr ⟨e, .tail _ he, rfl⟩

/-- A store that holds a block keeps holding it under a change that keeps its entries and its
cache. -/
theorem Holds.congr {s s' : ChainStore} {B : Block} {l : Ledger} (h : s.Holds B l)
    (hentries : s'.kv.entries = s.kv.entries) (hcache : s'.cache = s.cache) : s'.Holds B l := by
  have hget : ∀ k, s'.kv.get? k = s.kv.get? k := fun k => by
    unfold MemStore.get?
    rw [hentries]
  have hunder : ∀ lead, s'.kv.entriesUnder lead = s.kv.entriesUnder lead := fun lead => by
    unfold MemStore.entriesUnder
    rw [hentries]
  refine ⟨⟨?_, ?_, ?_, fun a => ?_, fun k v hk => ?_⟩, ?_, ?_⟩
  · rw [hget]
    exact h.kv.tip
  · rw [hget]
    exact h.kv.block
  · rw [hget]
    exact h.kv.ledger
  · rw [hget]
    exact h.kv.accounts a
  · rw [hunder] at hk
    exact h.kv.certificates k v hk
  · rw [hcache]
    exact h.cached
  · rw [hcache]
    exact h.capacity

/-- The held block is read from the cache. -/
theorem Holds.block_eq {s : ChainStore} {B : Block} {l : Ledger} (h : s.Holds B l) :
    s.block B.height = ({ s with cache := s.cache.put B.height B }, .ok (some B)) := by
  unfold ChainStore.block
  rw [RecentMap.get?_of_peek? h.cached]

/-- Committing a block over the held ledger holds the block and the new ledger, when the new
ledger only rewrote accounts of the held one. -/
theorem Holds.commitBlock {s s' : ChainStore} {B b : Block} {cert : Option Certificate}
    {base l : Ledger} (h : s.Holds B base) (hrw : base.Rewrites l)
    (hc : s.commitBlock b cert l base = .ok s') : s'.Holds b l := by
  obtain ⟨hkv, hcache⟩ := commitBlock_holds hc h.kv.certificates h.kv.accounts hrw
  refine ⟨hkv, ?_, ?_⟩
  · rw [hcache]
    exact RecentMap.peek?_put_self_of_pos _ _ _ h.capacity
  · rw [hcache]
    exact h.capacity

/-- Genesis written to an empty store is held there. -/
theorem holds_commitGenesis {s : ChainStore} {b : Block} {l : Ledger}
    (hc : ({ kv := {} } : ChainStore).commitGenesis b l = .ok s)
    (hrw : ({} : Ledger).Rewrites l) : s.Holds b l := by
  rw [commitGenesis_eq] at hc
  obtain ⟨hkv, hcache⟩ := commitBlock_holds hc (fun _ _ he => absurd he (by
    simp [MemStore.entriesUnder, KeyMap.empty])) (fun _ => rfl) hrw
  refine ⟨hkv, ?_, ?_⟩
  · rw [hcache]
    exact RecentMap.peek?_put_self_of_pos _ _ _ (by decide)
  · rw [hcache, RecentMap.capacity_put]
    decide

end ChainStore

namespace MemStore.Holds

variable {kv : MemStore} {B : Block} {l : Ledger}

/-- The newest stored certificate at or below a height is read, when the stored certificates
decode. -/
theorem latestCertificate_ok {s : ChainStore} (h : s.kv.Holds B l)
    (hdec : ∀ k bs, s.kv.get? (Layout.certificateKey k) = some bs →
      (Certificate.decoder.decode bs).isSome) (height : UInt64) :
    ∃ cert, s.latestCertificate height = .ok cert := by
  obtain ⟨r, hr, hcases⟩ := ChainStore.lastCertificateAtOrBelow_ok height
    (s.kv.entriesUnder (Layout.text "cert/")) none (by
      rintro ⟨k, v⟩ he
      obtain ⟨c, rfl⟩ := h.certificates k v he
      exact Layout.length_drop_certificateKey c)
  unfold ChainStore.latestCertificate
  rw [hr, Except.ok_bind]
  rcases hcases with rfl | ⟨⟨k, v⟩, he, rfl⟩
  · exact ⟨none, rfl⟩
  · obtain ⟨c, rfl⟩ := h.certificates k v he
    obtain ⟨cert, hcert⟩ := Option.isSome_iff_exists.mp
      (hdec c v (MemStore.get?_of_mem_entriesUnder he))
    exact ⟨some cert, by simp [decodeStored, hcert]⟩

/-- A store opened on the entries, with an empty cache, reads the held block from them when
its bytes decode. -/
theorem block_fresh (h : kv.Holds B l) (hdec : Block.decoder.decode B.encode = some B) :
    ({ kv := kv } : ChainStore).block B.height =
      ({ kv := kv, cache := ({ kv := kv } : ChainStore).cache.put B.height B }, .ok (some B)) := by
  unfold ChainStore.block
  simp [RecentMap.get?, RecentMap.peek?, h.block, decodeStored, hdec]

end MemStore.Holds

end StakeChain

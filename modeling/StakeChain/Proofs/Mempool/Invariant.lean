import StakeChain.Proofs.Mempool.Entries

/-!
# The representation invariant of a pool

A pool is in shape (`Mempool.Valid`) when its tables agree: each queue is nonempty, holds at
most 64 entries and keeps each entry under its
transaction's sender and nonce with the transaction's hash; the hash set holds exactly the
hashes of the entries, each once; arrival numbers are distinct and below the next one; and the
pool holds at most its capacity.

Every way a pool changes keeps it in shape: admission as a new entry, possibly after evicting
another sender's entry (`Valid.add`, `Valid.removeEntry`), replacement by fee (`Valid.replace`),
and finalization (`Valid.onFinalized`).  So every pool reachable from an empty one by `push`
and `onFinalized` is in shape, lists its entries by arrival, each once, and right after a
finalization holds nothing the finalized ledger consumed and nothing expired
(`pool_tables_consistent`).
-/

set_option autoImplicit false

namespace StakeChain

namespace Mempool

/-- A sender's queue in shape: not empty, within the per-sender bound, with each entry under its
transaction's sender and nonce and carrying the transaction's hash. -/
def QueueShape (s : Address) (q : KeyMap UInt64 PendingTx) : Prop :=
  q.toList ≠ [] ∧ q.size ≤ maxPendingPerSender ∧
    q.All fun n p => p.tx.sender = s ∧ p.tx.nonce = n ∧ p.hash = p.tx.hash

/-- The representation invariant of a pool. -/
structure Valid (m : Mempool) : Prop where
  queues : m.queues.All QueueShape
  hashes : m.hashes.keys.Perm (m.entries.map PendingTx.hash)
  seqs : (m.entries.map PendingTx.seq).Nodup
  fresh : ∀ p ∈ m.entries, p.seq < m.nextSeq
  capacity : m.size ≤ m.cap

theorem valid_new (cap : Nat) : ({ cap := cap } : Mempool).Valid where
  queues := KeyMap.all_empty _
  hashes := List.Perm.refl _
  seqs := List.nodup_nil
  fresh := fun _ h => by cases h
  capacity := Nat.zero_le _

section Valid

variable {m : Mempool}

theorem Valid.size_eq (h : m.Valid) : m.size = m.entries.length := by
  have hlen := h.hashes.length_eq
  simp only [KeyMap.keys, List.length_map] at hlen
  exact hlen

/-- The queue of a sender, or the empty one, is within the bound and keeps its entries in
place. -/
theorem Valid.queue_getD (h : m.Valid) (s : Address) :
    (m.queues.getD s .empty).size ≤ maxPendingPerSender ∧
      (m.queues.getD s .empty).All fun n p =>
        p.tx.sender = s ∧ p.tx.nonce = n ∧ p.hash = p.tx.hash := by
  rw [KeyMap.getD_eq]
  cases hget : m.queues.get? s with
  | none => exact ⟨Nat.zero_le _, KeyMap.all_empty _⟩
  | some q =>
    obtain ⟨-, hsize, hplaced⟩ := h.queues.of_get? hget
    exact ⟨hsize, hplaced⟩

/-- The invariant reads only the queues, the hashes, the next arrival number and the
capacity. -/
theorem Valid.of_eq (h : m.Valid) {m' : Mempool} (hq : m'.queues = m.queues)
    (hh : m'.hashes = m.hashes) (hn : m'.nextSeq = m.nextSeq) (hc : m'.cap = m.cap) :
    m'.Valid := by
  have he : m'.entries = m.entries := by rw [entries, entries, hq]
  refine ⟨?_, ?_, ?_, ?_, ?_⟩
  · rw [hq]
    exact h.queues
  · rw [hh, he]
    exact h.hashes
  · rw [he]
    exact h.seqs
  · rw [he, hn]
    exact h.fresh
  · rw [size, hh, hc]
    exact h.capacity

/-- The hash of a stored entry is in the hash set. -/
theorem Valid.hashes_get? (h : m.Valid) {p : PendingTx} (hp : p ∈ m.entries) :
    m.hashes.get? p.hash = some () := by
  have hmem : p.hash ∈ m.hashes.keys := h.hashes.symm.subset (List.mem_map_of_mem hp)
  obtain ⟨⟨k, u⟩, hku, hk⟩ := List.mem_map.mp hmem
  cases hk
  exact KeyMap.get?_of_mem hku

/-- Erasing the hash of a stored entry leaves the hashes of the others. -/
theorem Valid.hashes_erase (h : m.Valid) {p : PendingTx} {rest : List PendingTx}
    (hperm : m.entries.Perm (p :: rest)) :
    (m.hashes.erase p.hash).keys.Perm (rest.map PendingTx.hash) := by
  have hget := h.hashes_get? (hperm.symm.subset List.mem_cons_self)
  have hall := ((KeyMap.perm_erase hget).map Prod.fst).symm.trans
    (h.hashes.trans (hperm.map PendingTx.hash))
  exact hall.cons_inv

/-! ## Removing an entry -/

/-- Removing a stored entry keeps the pool in shape, one entry smaller. -/
theorem Valid.removeEntry (h : m.Valid) {s : Address} {n : UInt64} {p : PendingTx}
    (hp : (m.queues.getD s .empty).get? n = some p) :
    (m.removeEntry s n).Valid ∧ (m.removeEntry s n).size + 1 = m.size := by
  have hperm := entries_removeEntry m s n
  rw [hp] at hperm
  rw [KeyMap.getD_eq] at hp
  cases hq : m.queues.get? s with
  | none =>
    rw [hq] at hp
    cases hp
  | some q =>
    rw [hq, Option.getD_some] at hp
    obtain ⟨-, hsize, hplaced⟩ := h.queues.of_get? hq
    have hkeys : (m.hashes.erase p.hash).keys.Perm
        ((m.removeEntry s n).entries.map PendingTx.hash) := h.hashes_erase hperm
    have hseqs : ((m.removeEntry s n).entries.map PendingTx.seq).Nodup :=
      ((hperm.map PendingTx.seq).nodup_iff.mp h.seqs).of_cons
    have hsub : ∀ p' ∈ (m.removeEntry s n).entries, p' ∈ m.entries :=
      fun p' hp' => hperm.symm.subset (List.mem_cons_of_mem _ hp')
    have hcount : m.entries.length = (m.removeEntry s n).entries.length + 1 := by
      have := hperm.length_eq
      simp only [Option.toList_some, List.singleton_append, List.length_cons] at this
      exact this
    have hmsize := h.size_eq
    have hcap := h.capacity
    unfold Mempool.removeEntry at hkeys hseqs hsub hcount ⊢
    rw [hq] at hkeys hseqs hsub hcount ⊢
    dsimp only at hkeys hseqs hsub hcount ⊢
    rw [hp] at hkeys hseqs hsub hcount ⊢
    dsimp only at hkeys hseqs hsub hcount ⊢
    have hlen := hkeys.length_eq
    simp only [KeyMap.keys, List.length_map] at hlen
    simp only [size, KeyMap.size] at hmsize hcap ⊢
    refine ⟨⟨?_, hkeys, hseqs, fun p' hp' => h.fresh p' (hsub p' hp'),
      by simp only [size, KeyMap.size]; omega⟩, by omega⟩
    split
    · exact h.queues.erase s
    · rename_i hne
      refine h.queues.insert ⟨fun hnil => hne ?_, le_trans (List.length_filter_le _ _) hsize,
        hplaced.erase n⟩
      simp [KeyMap.isEmpty, hnil]

/-! ## Putting an entry -/

/-- A new entry numbered after all others keeps the arrival numbers distinct and bounded. -/
theorem seqs_cons {rest : List PendingTx} {ptx : PendingTx} (hnodup : (rest.map PendingTx.seq).Nodup)
    (hbelow : ∀ p ∈ rest, p.seq < ptx.seq) :
    ((ptx :: rest).map PendingTx.seq).Nodup ∧ ∀ p ∈ ptx :: rest, p.seq < ptx.seq + 1 := by
  refine ⟨List.nodup_cons.mpr ⟨fun hmem => ?_, hnodup⟩, fun p hp => ?_⟩
  · obtain ⟨p, hp, hseq⟩ := List.mem_map.mp hmem
    exact absurd hseq (Nat.ne_of_lt (hbelow p hp))
  · rcases List.mem_cons.mp hp with rfl | hp
    · exact Nat.lt_succ_self _
    · exact Nat.lt_succ_of_lt (hbelow p hp)

/-- A sender's queue with an entry put under its nonce is in shape, within the bound. -/
theorem Valid.queueShape_put (h : m.Valid) {ptx : PendingTx} (hhash : ptx.hash = ptx.tx.hash)
    (hroom : ((m.queues.getD ptx.tx.sender .empty).insert ptx.tx.nonce ptx).size ≤
      maxPendingPerSender) :
    QueueShape ptx.tx.sender ((m.queues.getD ptx.tx.sender .empty).insert ptx.tx.nonce ptx) := by
  obtain ⟨-, hplaced⟩ := h.queue_getD ptx.tx.sender
  exact ⟨KeyMap.insert_toList_ne_nil _ _ _, hroom, hplaced.insert ⟨rfl, rfl, hhash⟩⟩

/-- Admitting a transaction at a nonce its sender has no entry for, with room in the queue and
in the pool, keeps the pool in shape. -/
theorem Valid.add (h : m.Valid) (ptx : PendingTx) (hhash : ptx.hash = ptx.tx.hash)
    (hseq : ptx.seq = m.nextSeq) (hfresh : m.hashes.contains ptx.hash = false)
    (hnone : (m.queues.getD ptx.tx.sender .empty).get? ptx.tx.nonce = none)
    (hroom : (m.queues.getD ptx.tx.sender .empty).size < maxPendingPerSender)
    (hcap : m.size < m.cap) (metrics : MempoolMetrics) :
    ({ m with hashes := m.hashes.insert ptx.hash (), nextSeq := m.nextSeq + 1,
              queues := m.queues.insert ptx.tx.sender
                ((m.queues.getD ptx.tx.sender .empty).insert ptx.tx.nonce ptx),
              metrics := metrics } : Mempool).Valid := by
  obtain ⟨hold, hnew⟩ := queueEntries_put m.queues ptx.tx.sender ptx.tx.nonce ptx
  rw [hnone, Option.toList_none, List.nil_append] at hold
  have hentries := hnew.trans (hold.symm.cons ptx)
  have habsent : m.hashes.get? ptx.hash = none := by
    simpa [KeyMap.contains_eq] using hfresh
  have hkeys := (KeyMap.keys_insert_of_get?_none habsent ()).trans
    ((h.hashes.cons _).trans (hentries.map PendingTx.hash).symm)
  have hgrow := ((m.queues.getD ptx.tx.sender .empty).insert_perm ptx.tx.nonce ptx).length_eq
  rw [KeyMap.erase_of_get?_none hnone, List.length_cons] at hgrow
  obtain ⟨hseqs, hbound⟩ := seqs_cons h.seqs fun p hp => hseq ▸ h.fresh p hp
  have hlen := hkeys.length_eq
  have hmsize := h.size_eq
  simp only [KeyMap.keys, List.length_map] at hlen
  simp only [size, KeyMap.size, entries] at hmsize hcap hroom
  refine ⟨h.queues.insert (h.queueShape_put hhash (by simp only [KeyMap.size]; omega)), hkeys,
    (hentries.map PendingTx.seq).nodup_iff.mpr hseqs,
    fun p hp => hseq ▸ hbound p (hentries.subset hp), ?_⟩
  simp only [size, KeyMap.size]
  have := hentries.length_eq
  simp only [List.length_cons] at this
  omega

/-- Replacing the entry at a nonce by a new transaction with a new hash keeps the pool in
shape and its size. -/
theorem Valid.replace (h : m.Valid) (ptx : PendingTx) {existing : PendingTx} (hhash : ptx.hash = ptx.tx.hash)
    (hseq : ptx.seq = m.nextSeq) (hfresh : m.hashes.contains ptx.hash = false)
    (hold : (m.queues.getD ptx.tx.sender .empty).get? ptx.tx.nonce = some existing)
    (metrics : MempoolMetrics) :
    ({ m with hashes := (m.hashes.erase existing.hash).insert ptx.hash (),
              nextSeq := m.nextSeq + 1,
              queues := m.queues.insert ptx.tx.sender
                ((m.queues.getD ptx.tx.sender .empty).insert ptx.tx.nonce ptx),
              metrics := metrics } : Mempool).Valid := by
  obtain ⟨hqsize, -⟩ := h.queue_getD ptx.tx.sender
  obtain ⟨hprev, hnew⟩ := queueEntries_put m.queues ptx.tx.sender ptx.tx.nonce ptx
  rw [hold, Option.toList_some, List.singleton_append] at hprev
  have habsent : (m.hashes.erase existing.hash).get? ptx.hash = none := by
    rw [KeyMap.get?_erase]
    split
    · rfl
    · simpa [KeyMap.contains_eq] using hfresh
  have hkeys := (KeyMap.keys_insert_of_get?_none habsent ()).trans
    (((h.hashes_erase hprev).cons _).trans (hnew.map PendingTx.hash).symm)
  have hgrow := ((m.queues.getD ptx.tx.sender .empty).insert_perm ptx.tx.nonce ptx).length_eq
  have hwas := (KeyMap.perm_erase hold).length_eq
  simp only [List.length_cons] at hgrow hwas
  have hnodup := ((hprev.map PendingTx.seq).nodup_iff.mp h.seqs).of_cons
  obtain ⟨hseqs, hbound⟩ := seqs_cons hnodup fun p hp =>
    hseq ▸ h.fresh p (hprev.symm.subset (List.mem_cons_of_mem _ hp))
  have hlen := hkeys.length_eq
  have hmsize := h.size_eq
  have hcount := hprev.length_eq
  have hnewlen := hnew.length_eq
  have hcap := h.capacity
  simp only [KeyMap.keys, List.length_map, List.length_cons] at hlen hcount hnewlen
  simp only [size, KeyMap.size, entries] at hmsize hcap hqsize
  refine ⟨h.queues.insert (h.queueShape_put hhash (by simp only [KeyMap.size]; omega)), hkeys,
    (hnew.map PendingTx.seq).nodup_iff.mpr hseqs,
    fun p hp => hseq ▸ hbound p (hnew.subset hp), ?_⟩
  simp only [size, KeyMap.size]
  omega

/-! ## Admission -/

/-- A fold that each time keeps its choice or takes the new item ends with the first choice or
an item of the list. -/
theorem foldl_choice_mem {α : Type} (F : Option α → α → Option α)
    (hF : ∀ acc x, F acc x = some x ∨ F acc x = acc) :
    ∀ (xs : List α) (acc : Option α) (t : α), xs.foldl F acc = some t → acc = some t ∨ t ∈ xs
  | [], _, _, h => .inl h
  | x :: xs, acc, t, h => by
    rcases foldl_choice_mem F hF xs (F acc x) t h with hx | hmem
    · rcases hF acc x with hnew | hold
      · rw [hnew] at hx
        cases hx
        exact .inr List.mem_cons_self
      · rw [hold] at hx
        exact .inl hx
    · exact .inr (List.mem_cons_of_mem _ hmem)

/-- The entry chosen for eviction is a stored entry of another sender. -/
theorem evictionCandidate_stored {protect s : Address} {n : UInt64}
    (he : m.evictionCandidate protect = some (s, n)) :
    s ≠ protect ∧ ∃ p, (m.queues.getD s .empty).get? n = some p := by
  unfold Mempool.evictionCandidate at he
  obtain ⟨t, hfold, ht⟩ := Option.map_eq_some_iff.mp he
  have hpick := foldl_choice_mem _ (fun acc x => by
    cases acc with
    | none => exact .inl rfl
    | some b =>
      dsimp only
      split
      · exact .inl rfl
      · exact .inr rfl) _ none t hfold
  rcases hpick with hnone | hmem
  · cases hnone
  obtain ⟨⟨s', q⟩, hsq, hx⟩ := List.mem_filterMap.mp hmem
  dsimp only at hx
  split at hx
  · cases hx
  rename_i hne
  obtain ⟨⟨n', p⟩, hlast, hnp⟩ := Option.map_eq_some_iff.mp hx
  cases hnp
  cases ht
  have hq := KeyMap.get?_of_mem hsq
  refine ⟨hne, p, ?_⟩
  rw [KeyMap.getD_eq, hq, Option.getD_some]
  exact KeyMap.get?_of_mem (List.mem_of_getLast? hlast)

theorem removeEntry_cap (m : Mempool) (s : Address) (n : UInt64) :
    (m.removeEntry s n).cap = m.cap := by
  unfold Mempool.removeEntry
  split <;> rfl

theorem removeEntry_nextSeq (m : Mempool) (s : Address) (n : UInt64) :
    (m.removeEntry s n).nextSeq = m.nextSeq := by
  unfold Mempool.removeEntry
  split <;> rfl

/-- Removing an entry leaves the other senders' queues as they were. -/
theorem removeEntry_getD_of_ne (m : Mempool) {s s' : Address} (n : UInt64) (hne : s' ≠ s) :
    (m.removeEntry s n).queues.getD s' .empty = m.queues.getD s' .empty := by
  unfold Mempool.removeEntry
  split
  · rfl
  · dsimp only
    rw [KeyMap.getD_eq, KeyMap.getD_eq]
    split
    · rw [KeyMap.get?_erase, if_neg hne]
    · rw [KeyMap.get?_insert_of_ne _ _ hne]

/-- Removing an entry adds no hash. -/
theorem removeEntry_contains (m : Mempool) (s : Address) (n : UInt64) {hash : Digest}
    (hfresh : m.hashes.contains hash = false) : (m.removeEntry s n).hashes.contains hash = false := by
  unfold Mempool.removeEntry
  split
  · exact hfresh
  · dsimp only
    split
    · rw [KeyMap.contains_eq, KeyMap.get?_erase]
      split
      · rfl
      · exact hfresh
    · exact hfresh

/-- Admission keeps the pool in shape and its capacity: a new entry goes in after an eviction
when the pool is full, and a replacement takes the place of the entry it outbids. -/
theorem Valid.insertChecked (h : m.Valid) {tx : Transaction} {l : Ledger} {params : LedgerParams}
    {m' : Mempool} {added : Bool} (hins : m.insertChecked tx l params = .ok (m', added)) :
    m'.Valid ∧ m'.cap = m.cap := by
  unfold Mempool.insertChecked at hins
  simp only [bind, Except.bind, pure, Except.pure, throw, throwThe, MonadExceptOf.throw] at hins
  split at hins
  · cases hins
  rename_i hdup
  have hfresh : m.hashes.contains tx.hash = false := by simpa using hdup
  split at hins
  · cases hins
  split at hins
  · cases hins
  split at hins
  · cases hins
  split at hins
  · cases hins
  split at hins
  · cases hins
  split at hins
  · -- a replacement by fee
    rename_i existing hexisting
    split at hins
    · cases hins
    cases hins
    exact ⟨h.replace ⟨tx, tx.hash, m.nextSeq, m.currentHeight⟩ rfl rfl hfresh hexisting _, rfl⟩
  · rename_i hnone
    split at hins
    · cases hins
    rename_i hroom
    have hroom' := Nat.lt_of_not_le hroom
    split at hins
    · -- a full pool evicts another sender's entry first
      rename_i hfull
      split at hins
      · cases hins
      rename_i s n hcand
      cases hins
      obtain ⟨hne, p, hp⟩ := evictionCandidate_stored hcand
      obtain ⟨hvalid, hsize⟩ := h.removeEntry hp
      have hcap := h.capacity
      have hkeep := removeEntry_getD_of_ne m n (Ne.symm hne)
      refine ⟨hvalid.add ⟨tx, tx.hash, m.nextSeq, m.currentHeight⟩ rfl
        (removeEntry_nextSeq m s n).symm (removeEntry_contains m s n hfresh)
        (by rw [hkeep]; exact hnone) (by rw [hkeep]; exact hroom')
        (by rw [removeEntry_cap]; omega) _, removeEntry_cap m s n⟩
    · rename_i hcap
      cases hins
      exact ⟨h.add ⟨tx, tx.hash, m.nextSeq, m.currentHeight⟩ rfl rfl hfresh hnone hroom'
        (Nat.lt_of_not_le hcap) _, rfl⟩

/-! ## Finalization -/

/-- Removing the images of the items that fail `q`, under a map injective on the list, keeps
exactly the items that pass. -/
theorem filter_not_mem_map_filter {α β : Type} [DecidableEq β] {xs : List α} {f : α → β}
    (hnodup : (xs.map f).Nodup) (q : α → Bool) :
    xs.filter (fun a => decide (f a ∉ (xs.filter fun a => !q a).map f)) = xs.filter q := by
  refine List.filter_congr fun a ha => ?_
  cases hq : q a with
  | true =>
    refine decide_eq_true fun hmem => ?_
    obtain ⟨b, hb, hfb⟩ := List.mem_map.mp hmem
    obtain ⟨hbx, hqb⟩ := List.mem_filter.mp hb
    rw [List.inj_on_of_nodup_map hnodup hbx ha hfb, hq] at hqb
    cases hqb
  | false =>
    exact decide_eq_false (not_not.mpr (List.mem_map_of_mem (List.mem_filter.mpr ⟨ha, by simp [hq]⟩)))

theorem foldl_erase_toList {κ ν : Type} [Ord κ] [DecidableEq κ] [Std.LawfulEqOrd κ] :
    ∀ (ds : List κ) (m : KeyMap κ ν),
      (ds.foldl (fun m k => m.erase k) m).toList = m.toList.filter fun e => decide (e.1 ∉ ds)
  | [], m => by simp
  | d :: ds, m => by
    rw [List.foldl_cons, foldl_erase_toList ds, KeyMap.erase, List.filter_filter]
    refine List.filter_congr fun e _ => ?_
    rw [bne, KeyMap.compare_beq_eq]
    by_cases hd : d = e.1 <;> simp [hd, eq_comm]

/-- Finalization keeps the pool in shape and its capacity, and keeps exactly the entries that
stay. -/
theorem Valid.onFinalized (h : m.Valid) (height : UInt64) (l : Ledger) :
    (m.onFinalized height l).Valid ∧ (m.onFinalized height l).cap = m.cap ∧
      (m.onFinalized height l).entries = m.entries.filter (Stays height l) := by
  obtain ⟨hq, hd⟩ := onFinalized_eq m height l
  have hplaced : ∀ e ∈ m.queues.toList, Placed e := by
    rintro ⟨s, q⟩ he x hx
    obtain ⟨-, -, hall⟩ := h.queues s q he
    obtain ⟨hs, hn, -⟩ := hall x.1 x.2 hx
    exact ⟨hs, hn⟩
  have hentries : (m.onFinalized height l).entries = m.entries.filter (Stays height l) := by
    rw [entries, queueEntries_eq, hq, flatMap_filterMap_keptQueue height l _ hplaced,
      ← queueEntries_eq]
    rfl
  have hnodup : (m.entries.map PendingTx.hash).Nodup :=
    h.hashes.nodup_iff.mp m.hashes.keys_nodup
  have hkeys : (m.onFinalized height l).hashes.keys.Perm
      ((m.onFinalized height l).entries.map PendingTx.hash) := by
    rw [hd, KeyMap.keys, foldl_erase_toList, flatMap_droppedHashes height l _ hplaced,
      ← queueEntries_eq, ← entries, hentries, ← filter_not_mem_map_filter hnodup (Stays height l)]
    have hperm := h.hashes.filter fun k =>
      decide (k ∉ (m.entries.filter fun p => !Stays height l p).map PendingTx.hash)
    rw [KeyMap.keys, List.filter_map, List.filter_map] at hperm
    exact hperm
  have hsub : (m.onFinalized height l).entries.Sublist m.entries := by
    rw [hentries]
    exact List.filter_sublist
  have hcap : (m.onFinalized height l).cap = m.cap := rfl
  refine ⟨⟨?_, hkeys, (hsub.map _).nodup h.seqs, fun p hp => h.fresh p (hsub.subset hp),
    ?_⟩, hcap, hentries⟩
  · -- each queue kept is what stays of a queue in shape, and not empty
    rintro s' q' hmem
    rw [hq] at hmem
    obtain ⟨⟨s, q⟩, he, hkq⟩ := List.mem_filterMap.mp hmem
    obtain ⟨-, hsize, hall⟩ := h.queues s q he
    unfold keptQueue at hkq
    split at hkq
    · cases hkq
    rename_i hne
    cases hkq
    exact ⟨fun hnil => hne (List.isEmpty_iff.mpr hnil), le_trans (List.length_filter_le _ _) hsize,
      fun n p hnp => hall n p (List.mem_of_mem_filter hnp)⟩
  · have hbound := h.capacity
    simp only [size, KeyMap.size] at hbound ⊢
    rw [hcap, hd, foldl_erase_toList]
    exact le_trans (List.length_filter_le _ _) hbound

/-! ## Runs of a pool -/

/-- A push admits the transaction or leaves the pool as it was, but for its counters. -/
theorem Valid.push (h : m.Valid) (tx : Transaction) (l : Ledger) (params : LedgerParams) :
    (m.push tx l params).1.Valid ∧ (m.push tx l params).1.cap = m.cap := by
  unfold Mempool.push
  split
  · rename_i m' added hins
    exact h.insertChecked hins
  · exact ⟨h.of_eq rfl rfl rfl rfl, rfl⟩

/-- A hash is in the hash set exactly when an entry carries it. -/
theorem Valid.contains_iff (h : m.Valid) (hash : Digest) :
    m.contains hash = true ↔ ∃ p ∈ m.entries, p.hash = hash := by
  rw [contains, KeyMap.contains_eq, Option.isSome_iff_exists, ← List.mem_map]
  constructor
  · rintro ⟨u, hu⟩
    exact h.hashes.subset (List.mem_map_of_mem (KeyMap.mem_toList_of_get? hu))
  · intro hmem
    obtain ⟨⟨k, u⟩, hku, hk⟩ := List.mem_map.mp (h.hashes.symm.subset hmem)
    cases hk
    exact ⟨u, KeyMap.get?_of_mem hku⟩

/-- The candidates are the entries in order of arrival. -/
theorem Valid.candidates (h : m.Valid) :
    ∃ ps : List PendingTx, ps.Perm m.entries ∧ ps.Pairwise (fun a b => a.seq < b.seq) ∧
      m.candidates = ps.map PendingTx.tx := by
  refine ⟨m.entries.mergeSort fun a b => decide (a.seq ≤ b.seq), List.mergeSort_perm _ _, ?_, rfl⟩
  have hle : (m.entries.mergeSort fun a b => decide (a.seq ≤ b.seq)).Pairwise
      (fun a b => decide (a.seq ≤ b.seq) = true) :=
    List.pairwise_mergeSort (fun a b c hab hbc => by simp only [decide_eq_true_eq] at *; omega)
      (fun a b => by simp only [Bool.or_eq_true, decide_eq_true_eq]; omega) _
  -- arrival numbers are distinct, so the order is strict
  have hne := ((List.mergeSort_perm m.entries fun a b => decide (a.seq ≤ b.seq)).map
    PendingTx.seq).nodup_iff.mpr h.seqs
  rw [List.Nodup, List.pairwise_map] at hne
  exact (hle.and hne).imp fun h => Nat.lt_of_le_of_ne (of_decide_eq_true h.1) h.2

/-- The pools reachable from an empty one of capacity `cap` by admissions and finalizations. -/
inductive Reachable (cap : Nat) : Mempool → Prop
  | new : Reachable cap { cap := cap }
  | push {m : Mempool} (tx : Transaction) (l : Ledger) (params : LedgerParams) :
      Reachable cap m → Reachable cap (m.push tx l params).1
  | onFinalized {m : Mempool} (height : UInt64) (l : Ledger) :
      Reachable cap m → Reachable cap (m.onFinalized height l)

theorem Reachable.valid {cap : Nat} (h : Reachable cap m) : m.Valid ∧ m.cap = cap := by
  induction h with
  | new => exact ⟨valid_new cap, rfl⟩
  | push tx l params _ ih =>
    obtain ⟨hv, hc⟩ := ih.1.push tx l params
    exact ⟨hv, hc.trans ih.2⟩
  | onFinalized height l _ ih =>
    obtain ⟨hv, hc, -⟩ := ih.1.onFinalized height l
    exact ⟨hv, hc.trans ih.2⟩

/-- An entry that stays after finalization carries a nonce the ledger has not consumed and was
admitted at most the expiry span before. -/
theorem stays_spec {height : UInt64} {l : Ledger} {p : PendingTx} (hp : Stays height l p = true) :
    l.nonce p.tx.sender ≤ p.tx.nonce ∧
      height.toNat ≤ p.insertedHeight.toNat + ttlBlocks.toNat := by
  simp only [Stays, Keeps, Bool.and_eq_true, Bool.not_eq_true', decide_eq_false_iff_not] at hp
  obtain ⟨hnonce, hexp⟩ := hp
  refine ⟨UInt64.not_lt.mp hnonce, ?_⟩
  have := UInt64.not_lt.mp hexp
  rw [UInt64.le_iff_toNat_le, Word.subSat_toNat] at this
  omega

end Valid

/-- Every pool reachable from an empty one keeps its tables consistent: the hash set holds
exactly the hashes of the stored entries, each carried by one entry; each entry sits under its
transaction's sender and nonce with the transaction's hash; no queue is empty or longer than 64;
the pool holds at most its capacity; arrival numbers are distinct, and the candidates list every
entry once, by arrival.  Right after a finalization, no entry carries a nonce the finalized
ledger consumed or was admitted more than the expiry span before. -/
theorem pool_tables_consistent {cap : Nat} {m : Mempool} (hm : Reachable cap m) :
    (∀ hash, m.contains hash = true ↔ ∃ p ∈ m.entries, p.hash = hash) ∧
    (m.entries.map PendingTx.hash).Nodup ∧
    (∀ s q, m.queues.get? s = some q → q.toList ≠ [] ∧ q.size ≤ maxPendingPerSender ∧
      ∀ n p, q.get? n = some p → p.tx.sender = s ∧ p.tx.nonce = n ∧ p.hash = p.tx.hash) ∧
    m.size ≤ cap ∧
    (m.entries.map PendingTx.seq).Nodup ∧
    (∃ ps : List PendingTx, ps.Perm m.entries ∧ ps.Pairwise (fun a b => a.seq < b.seq) ∧
      m.candidates = ps.map PendingTx.tx) ∧
    (∀ height l, ∀ p ∈ (m.onFinalized height l).entries,
      l.nonce p.tx.sender ≤ p.tx.nonce ∧
        height.toNat ≤ p.insertedHeight.toNat + ttlBlocks.toNat) := by
  obtain ⟨h, hcap⟩ := hm.valid
  refine ⟨h.contains_iff, h.hashes.nodup_iff.mp m.hashes.keys_nodup, fun s q hq => ?_,
    hcap ▸ h.capacity, h.seqs, h.candidates, fun height l p hp => ?_⟩
  · obtain ⟨hne, hsize, hall⟩ := h.queues.of_get? hq
    exact ⟨hne, hsize, fun n p hp => hall.of_get? hp⟩
  · rw [(h.onFinalized height l).2.2] at hp
    exact stays_spec (List.mem_filter.mp hp).2

/-- A pool of capacity 4 after admitting one self-transfer. -/
def pushedPool : Mempool := (({ cap := 4 } : Mempool).push selfTransfer {} {}).1

theorem pool_tables_consistent_after_push :
    Reachable 4 pushedPool ∧
    (∀ hash, pushedPool.contains hash = true ↔ ∃ p ∈ pushedPool.entries, p.hash = hash) ∧
    (pushedPool.entries.map PendingTx.hash).Nodup ∧
    (∀ s q, pushedPool.queues.get? s = some q → q.toList ≠ [] ∧ q.size ≤ maxPendingPerSender ∧
      ∀ n p, q.get? n = some p → p.tx.sender = s ∧ p.tx.nonce = n ∧ p.hash = p.tx.hash) ∧
    pushedPool.size ≤ 4 ∧
    (pushedPool.entries.map PendingTx.seq).Nodup ∧
    (∃ ps : List PendingTx, ps.Perm pushedPool.entries ∧
      ps.Pairwise (fun a b => a.seq < b.seq) ∧ pushedPool.candidates = ps.map PendingTx.tx) ∧
    (∀ height l, ∀ p ∈ (pushedPool.onFinalized height l).entries,
      l.nonce p.tx.sender ≤ p.tx.nonce ∧
        height.toNat ≤ p.insertedHeight.toNat + ttlBlocks.toNat) :=
  have hreach : Reachable 4 pushedPool := .push selfTransfer {} {} .new
  ⟨hreach, pool_tables_consistent hreach⟩

end Mempool

end StakeChain

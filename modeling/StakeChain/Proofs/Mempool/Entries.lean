import StakeChain.Proofs.Ledger.Consistency
import StakeChain.Mempool

/-!
# The entries of a pool

A pool keeps its pending transactions twice: in the queue of each sender, keyed by nonce, and
in the set of their hashes.  `Mempool.entries` lists what the queues hold, sender by sender and
nonce by nonce.  Each way the pool changes moves the entries by one known step: putting an entry
under a sender and nonce replaces what was there (`entries_put`), removing one takes it out
(`entries_removeEntry`), and finalization keeps exactly the entries that are neither consumed
by the finalized ledger nor expired (`entries_onFinalized`).

The permutations of sorted maps under `insert` and `erase` carry these steps.
-/

set_option autoImplicit false

namespace StakeChain

/-- What a fold keeps of each prefix of the list it has folded, it keeps of the whole list. -/
theorem List.foldl_prefix_induction {α β : Type} (f : α → β → α) (R : List β → α → Prop)
    (init : α) (xs : List β) (hinit : R [] init)
    (hstep : ∀ pre x acc, pre ++ [x] <+: xs → R pre acc → R (pre ++ [x]) (f acc x)) {r : α}
    (h : xs.foldl f init = r) : R xs r := by
  subst h
  -- the prefixes are taken from the front: induct on the list from its end
  induction xs using List.reverseRecOn with
  | nil => exact hinit
  | append_singleton ys y ih =>
    rw [List.foldl_append, List.foldl_cons, List.foldl_nil]
    exact hstep ys y _ (List.prefix_refl _)
      (ih fun pre x acc hpre => hstep pre x acc (hpre.trans (List.prefix_append _ _)))

namespace KeyMap

variable {κ ν : Type} [Ord κ] [Std.TransOrd κ] [Std.LawfulEqOrd κ] {m : KeyMap κ ν}

omit [Std.LawfulEqOrd κ] in
/-- A key above every key of the list goes at its end. -/
theorem insertEntry_of_lt {k : κ} {v : ν} :
    ∀ {l : List (κ × ν)}, (∀ e ∈ l, compare e.1 k = .lt) → insertEntry k v l = l ++ [(k, v)]
  | [], _ => rfl
  | (k₁, v₁) :: rest, h => by
    have hgt : compare k k₁ = .gt := Std.OrientedCmp.gt_of_lt (h _ List.mem_cons_self)
    simp only [insertEntry, hgt, List.cons_append]
    rw [insertEntry_of_lt fun e he => h e (List.mem_cons_of_mem _ he)]

/-- Inserting into a map puts the new entry in place of the key's old one. -/
theorem insert_perm (m : KeyMap κ ν) (k : κ) (v : ν) :
    (m.insert k v).toList.Perm ((k, v) :: (m.erase k).toList) := by
  obtain ⟨l, hm⟩ := m
  simp only [KeyMap.insert, KeyMap.erase]
  induction l with
  | nil => simp [insertEntry]
  | cons e rest ih =>
    obtain ⟨k₁, v₁⟩ := e
    have habove : ∀ e ∈ rest, compare k₁ e.1 = .lt := fun e he => List.rel_of_pairwise_cons hm he
    simp only [insertEntry]
    cases hc : compare k k₁ with
    | lt =>
      have hkeep : ((k₁, v₁) :: rest).filter (fun p => compare k p.1 != .eq) =
          (k₁, v₁) :: rest := by
        rw [List.filter_eq_self]
        intro e he
        rcases List.mem_cons.mp he with rfl | he
        · simp [hc]
        · simp [Std.TransCmp.lt_trans hc (habove e he)]
      rw [hkeep]
    | eq =>
      obtain rfl := Std.LawfulEqCmp.eq_of_compare hc
      have hkeep : rest.filter (fun p => compare k p.1 != .eq) = rest := by
        rw [List.filter_eq_self]
        intro e he
        simp [habove e he]
      simp [hkeep]
    | gt =>
      rw [List.filter_cons_of_pos (by simp [hc])]
      exact ((ih hm.of_cons).cons _).trans (List.Perm.swap _ _ _)

theorem values_insert_perm (m : KeyMap κ ν) (k : κ) (v : ν) :
    (m.insert k v).values.Perm (v :: (m.erase k).values) :=
  (m.insert_perm k v).map Prod.snd

variable [DecidableEq κ]

/-- A stored entry and the rest of the map make up the map. -/
theorem perm_erase {k : κ} {v : ν} (h : m.get? k = some v) :
    m.toList.Perm ((k, v) :: (m.erase k).toList) := by
  have hperm := m.insert_perm k v
  rwa [insert_of_get? h] at hperm

/-- A key the map does not hold goes in front of its keys. -/
theorem keys_insert_of_get?_none {k : κ} (h : m.get? k = none) (v : ν) :
    (m.insert k v).keys.Perm (k :: m.keys) := by
  have hperm := (m.insert_perm k v).map Prod.fst
  rwa [erase_of_get?_none h] at hperm

/-- The values of a map are the one under a key, if any, and those of the rest. -/
theorem values_perm_get? (m : KeyMap κ ν) (k : κ) :
    m.values.Perm ((m.get? k).toList ++ (m.erase k).values) := by
  cases h : m.get? k with
  | none =>
    rw [erase_of_get?_none h]
    rfl
  | some v => exact (perm_erase h).map Prod.snd

end KeyMap

namespace Mempool

/-- What a table of queues holds, sender by sender and nonce by nonce. -/
def queueEntries (qs : KeyMap Address (KeyMap UInt64 PendingTx)) : List PendingTx :=
  qs.values.flatMap KeyMap.values

/-- What the pool's queues hold. -/
def entries (m : Mempool) : List PendingTx := queueEntries m.queues

/-- The entries of a table, read off its entries sender by sender. -/
theorem queueEntries_eq (qs : KeyMap Address (KeyMap UInt64 PendingTx)) :
    queueEntries qs = qs.toList.flatMap fun e => e.2.values := by
  simp only [queueEntries, KeyMap.values, List.flatMap_map]

section Queues

variable (qs : KeyMap Address (KeyMap UInt64 PendingTx))

/-- The entries of a table are a sender's queue and those of the other senders. -/
theorem queueEntries_perm_getD (s : Address) :
    (queueEntries qs).Perm ((qs.getD s .empty).values ++ queueEntries (qs.erase s)) := by
  have hperm := (qs.values_perm_get? s).flatMap_right KeyMap.values
  rw [KeyMap.getD_eq]
  cases h : qs.get? s with
  | none =>
    rw [h] at hperm
    exact hperm
  | some q =>
    rw [h] at hperm
    simpa [queueEntries] using hperm

theorem queueEntries_insert (s : Address) (q : KeyMap UInt64 PendingTx) :
    (queueEntries (qs.insert s q)).Perm (q.values ++ queueEntries (qs.erase s)) := by
  have hperm := (qs.values_insert_perm s q).flatMap_right KeyMap.values
  simpa [queueEntries] using hperm

/-- Putting an entry under a sender and nonce replaces the entry there, if any. -/
theorem queueEntries_put (s : Address) (n : UInt64) (p : PendingTx) :
    (queueEntries qs).Perm (((qs.getD s .empty).get? n).toList ++
        (((qs.getD s .empty).erase n).values ++ queueEntries (qs.erase s))) ∧
      (queueEntries (qs.insert s ((qs.getD s .empty).insert n p))).Perm
        (p :: (((qs.getD s .empty).erase n).values ++ queueEntries (qs.erase s))) := by
  constructor
  · refine (queueEntries_perm_getD qs s).trans ?_
    rw [← List.append_assoc]
    exact ((qs.getD s .empty).values_perm_get? n).append_right _
  · exact (queueEntries_insert qs s _).trans
      (((qs.getD s .empty).values_insert_perm n p).append_right _)

end Queues

/-- Removing an entry takes out the one under its sender and nonce, if any. -/
theorem entries_removeEntry (m : Mempool) (s : Address) (n : UInt64) :
    m.entries.Perm (((m.queues.getD s .empty).get? n).toList ++ (m.removeEntry s n).entries) := by
  unfold removeEntry entries
  rw [KeyMap.getD_eq]
  cases h : m.queues.get? s with
  | none => rfl
  | some q =>
    dsimp only
    have hleft : (queueEntries (if (q.erase n).isEmpty then m.queues.erase s
        else m.queues.insert s (q.erase n))).Perm
        ((q.erase n).values ++ queueEntries (m.queues.erase s)) := by
      split
      · rename_i hempty
        have hnil : (q.erase n).values = [] := by
          simp only [KeyMap.values, List.map_eq_nil_iff]
          exact List.isEmpty_iff.mp hempty
        rw [hnil]
        rfl
      · exact queueEntries_insert _ s _
    have hall := queueEntries_perm_getD m.queues s
    rw [KeyMap.getD_eq, h] at hall
    refine hall.trans ?_
    rw [Option.getD_some]
    refine (q.values_perm_get? n).append_right _ |>.trans ?_
    rw [List.append_assoc]
    exact (hleft.symm).append_left _

/-! ## Finalization -/

/-- Whether finalization at `height` against `l` keeps the entry `e` of sender `s`: the
finalized ledger has not consumed its nonce and it has not expired. -/
def Keeps (height : UInt64) (l : Ledger) (s : Address) (e : UInt64 × PendingTx) : Bool :=
  !(e.1 < l.nonce s) && !(Word.subSat height e.2.insertedHeight > ttlBlocks)

/-- What finalization keeps of a sender's queue. -/
def keptEntries (height : UInt64) (l : Ledger) (e : Address × KeyMap UInt64 PendingTx) :
    KeyMap UInt64 PendingTx :=
  e.2.filter fun n p => Keeps height l e.1 (n, p)

/-- A sender's queue after finalization: what it keeps, or no queue when it keeps nothing. -/
def keptQueue (height : UInt64) (l : Ledger) (e : Address × KeyMap UInt64 PendingTx) :
    Option (Address × KeyMap UInt64 PendingTx) :=
  if (keptEntries height l e).isEmpty then none else some (e.1, keptEntries height l e)

/-- The hashes finalization drops from a sender's queue. -/
def droppedHashes (height : UInt64) (l : Ledger) (e : Address × KeyMap UInt64 PendingTx) :
    List Digest :=
  (e.2.toList.filter fun x => !Keeps height l e.1 x).map fun x => x.2.hash

/-- Whether finalization at `height` against `l` keeps a pending transaction, read off the
transaction's own sender and nonce. -/
def Stays (height : UInt64) (l : Ledger) (p : PendingTx) : Bool :=
  Keeps height l p.tx.sender (p.tx.nonce, p)

theorem keptQueue_fst {height : UInt64} {l : Ledger} {e x : Address × KeyMap UInt64 PendingTx}
    (h : keptQueue height l e = some x) : x.1 = e.1 := by
  unfold keptQueue at h
  split at h
  · cases h
  · cases h
    rfl

/-- Finalization rebuilds the queues sender by sender, in order, from what each keeps, and
erases the hashes of what they drop. -/
theorem onFinalized_eq (m : Mempool) (height : UInt64) (l : Ledger) :
    (m.onFinalized height l).queues.toList = m.queues.toList.filterMap (keptQueue height l) ∧
      (m.onFinalized height l).hashes =
        (m.queues.toList.flatMap (droppedHashes height l)).foldl (fun hs h => hs.erase h)
          m.hashes := by
  unfold onFinalized
  dsimp only
  generalize hfold : List.foldl _ ((KeyMap.empty : KeyMap Address (KeyMap UInt64 PendingTx)), [], 0, 0)
    m.queues.toList = acc
  -- the queues so far are those of the senders folded so far, and so are the hashes dropped
  have hout := List.foldl_prefix_induction _
    (fun pre (acc : KeyMap Address (KeyMap UInt64 PendingTx) × List Digest × Nat × Nat) =>
      acc.1.toList = pre.filterMap (keptQueue height l) ∧
        acc.2.1 = pre.flatMap (droppedHashes height l))
    _ _ ⟨rfl, rfl⟩ (by
      rintro pre ⟨s, q⟩ ⟨qs, d, c, e⟩ hpre ⟨hqs, hd⟩
      dsimp only at hqs hd ⊢
      generalize hinner : List.foldl _ (d, c, e) q.toList = r
      -- within a queue, the hashes dropped so far are those of the entries folded so far
      have hin := List.foldl_prefix_induction _
        (fun pre (acc : List Digest × Nat × Nat) =>
          acc.1 = d ++ (pre.filter fun x => !Keeps height l s x).map fun x => x.2.hash)
        _ _ (by simp) (by
          rintro pre ⟨n, p⟩ ⟨d₀, c₀, e₀⟩ - hd₀
          dsimp only at hd₀ ⊢
          by_cases hn : n < l.nonce s
          · simp [hn, hd₀, Keeps]
          · by_cases hexp : Word.subSat height p.insertedHeight > ttlBlocks
            · simp [hn, hexp, hd₀, Keeps]
            · simp [hn, hexp, hd₀, Keeps])
        hinner
      refine ⟨?_, by simp [hin, hd, droppedHashes]⟩
      have hbelow : ∀ x ∈ pre.filterMap (keptQueue height l), compare x.1 s = .lt := by
        intro x hx
        obtain ⟨y, hy, hxy⟩ := List.mem_filterMap.mp hx
        have hsorted := m.queues.sorted.sublist hpre.sublist
        rw [keptQueue_fst hxy]
        exact (List.pairwise_append.mp hsorted).2.2 y hy (s, q) List.mem_cons_self
      have hkept : (q.filter fun n p => !decide (n < l.nonce s) &&
          !decide (Word.subSat height p.insertedHeight > ttlBlocks)) = keptEntries height l (s, q) :=
        rfl
      rw [List.filterMap_append, hkept]
      by_cases hk : (keptEntries height l (s, q)).isEmpty = true
      · simp only [keptQueue, hk, if_true, List.filterMap_cons, List.filterMap_nil,
          List.append_nil, hqs]
      · simp only [keptQueue, hk, Bool.false_eq_true, if_false, List.filterMap_cons,
          List.filterMap_nil, KeyMap.insert, hqs, KeyMap.insertEntry_of_lt hbelow])
    hfold
  obtain ⟨hq, hd⟩ := hout
  exact ⟨hq, by rw [hd]⟩

/-- Each entry of a queue sits under its transaction's sender and nonce. -/
def Placed (e : Address × KeyMap UInt64 PendingTx) : Prop :=
  ∀ x ∈ e.2.toList, x.2.tx.sender = e.1 ∧ x.2.tx.nonce = x.1

theorem keeps_eq_stays {height : UInt64} {l : Ledger} {e : Address × KeyMap UInt64 PendingTx}
    (he : Placed e) {x : UInt64 × PendingTx} (hx : x ∈ e.2.toList) :
    Keeps height l e.1 x = Stays height l x.2 := by
  obtain ⟨hs, hn⟩ := he x hx
  rw [Stays, hs, hn]

/-- What a queue keeps is what stays of its entries, read the same way off the sender or the
entry. -/
theorem values_keptEntries (height : UInt64) (l : Ledger)
    {e : Address × KeyMap UInt64 PendingTx}
    (he : Placed e) : (keptEntries height l e).values = e.2.values.filter (Stays height l) := by
  rw [KeyMap.values, KeyMap.values, List.filter_map]
  exact congrArg _ (List.filter_congr fun x hx => keeps_eq_stays he hx)

/-- What finalization keeps of the queues is what stays of their entries, in order. -/
theorem flatMap_filterMap_keptQueue (height : UInt64) (l : Ledger) :
    ∀ es : List (Address × KeyMap UInt64 PendingTx), (∀ e ∈ es, Placed e) →
      (es.filterMap (keptQueue height l)).flatMap (fun e => e.2.values) =
        (es.flatMap fun e => e.2.values).filter (Stays height l)
  | [], _ => rfl
  | e :: es, hplaced => by
    have ih := flatMap_filterMap_keptQueue height l es
      fun e' he' => hplaced e' (List.mem_cons_of_mem _ he')
    have hkept := values_keptEntries height l (hplaced e List.mem_cons_self)
    rw [List.flatMap_cons, List.filter_append, ← hkept, ← ih]
    by_cases hk : (keptEntries height l e).isEmpty = true
    · rw [List.filterMap_cons_none (by simp only [keptQueue, hk, if_true])]
      have hnil : (keptEntries height l e).values = [] := by
        simp only [KeyMap.values, List.map_eq_nil_iff]
        exact List.isEmpty_iff.mp hk
      rw [hnil]
      rfl
    · have hsome : keptQueue height l e = some (e.1, keptEntries height l e) := by
        simp only [keptQueue, hk, Bool.false_eq_true, if_false]
      rw [List.filterMap_cons_some hsome]
      rfl

/-- The hashes dropped by finalization are those of the entries that do not stay. -/
theorem flatMap_droppedHashes (height : UInt64) (l : Ledger) :
    ∀ es : List (Address × KeyMap UInt64 PendingTx), (∀ e ∈ es, Placed e) →
      es.flatMap (droppedHashes height l) =
        ((es.flatMap fun e => e.2.values).filter fun p => !Stays height l p).map PendingTx.hash
  | [], _ => rfl
  | e :: es, hplaced => by
    have ih := flatMap_droppedHashes height l es
      fun e' he' => hplaced e' (List.mem_cons_of_mem _ he')
    rw [List.flatMap_cons, ih, List.flatMap_cons, List.filter_append, List.map_append]
    congr 1
    rw [droppedHashes, KeyMap.values, List.filter_map, List.map_map]
    congr 1
    refine List.filter_congr fun x hx => ?_
    rw [keeps_eq_stays (hplaced e List.mem_cons_self) hx]
    rfl

end Mempool

end StakeChain

import StakeChain.Proofs.Block.Value
import StakeChain.Proofs.Block.SignatureChecks

/-!
# Selected transactions replay

Selection dry-runs the candidates on a scratch copy of the prepared ledger, and a block then
runs the picked ones, in the order they were picked, on the same prepared ledger.  The
invariant of selection (`Picked`) says that the scratch ledger is the picked transactions
replayed (`Replays`), that each picked one is a candidate whose signature verifies and whose
nonce its sender has passed, that the gas selection counted is the gas of the picked ones and
fits the block, and that their hashes are distinct.  Every step keeps it
(`selectStep_picked`), so selection ends with it (`selectTransactions_picked`), and it is
what executing the picked transactions needs to go through (`executeBlock_of_picked`).

Two assumptions stand outside the code.  The hash does not collide on the candidates: two of
them with one hash have the same signed bytes.  And no candidate carries the largest nonce:
advancing that nonce is the one way applying a transaction stops the run
(`applyVerified_abort`).
-/

set_option autoImplicit false

namespace StakeChain

namespace Ledger

/-- `l'` is `l` after `txs` were applied in order, each one successfully. -/
inductive Replays (params : LedgerParams) : Ledger → List Transaction → Ledger → Prop
  | nil (l : Ledger) : Replays params l [] l
  | cons {l l₁ l' : Ledger} {tx : Transaction} {txs : List Transaction} (r : Receipt) :
      (l.applyVerified params tx).run = .ok (.ok (l₁, r)) → Replays params l₁ txs l' →
      Replays params l (tx :: txs) l'

theorem Replays.snoc {params : LedgerParams} {l l' l'' : Ledger} {txs : List Transaction}
    {tx : Transaction} {r : Receipt} (h : Replays params l txs l')
    (happ : (l'.applyVerified params tx).run = .ok (.ok (l'', r))) :
    Replays params l (txs ++ [tx]) l'' := by
  induction h with
  | nil l => exact .cons r happ (.nil _)
  | cons r' hstep _ ih => exact .cons r' hstep (ih happ)

/-! ## Nonces -/

theorem accounts_commitKind (l : Ledger) (params : LedgerParams) (tx : Transaction)
    (sender : Address) : (l.commitKind params tx sender).accounts = l.accounts := by
  unfold commitKind
  split
  · split <;> rfl
  all_goals rfl

theorem nonce_payCredit (l : Ledger) (credit : Option (Address × UInt64)) (a : Address) :
    ((l.payCredit credit).account a).nonce = (l.account a).nonce := by
  cases credit with
  | none => rfl
  | some p =>
    obtain ⟨dest, amount⟩ := p
    simp only [payCredit, account_setAccount]
    split
    · rename_i h
      rw [h]
    · rfl

/-- A transaction that applies carried its sender's nonce and advances it by one; no other
account's nonce moves. -/
theorem applyVerified_nonce {l : Ledger} {params : LedgerParams} {tx : Transaction}
    {l' : Ledger} {r : Receipt} (h : (l.applyVerified params tx).run = .ok (.ok (l', r)))
    (a : Address) :
    (l'.account a).nonce.toNat =
      if a = tx.sender then tx.nonce.toNat + 1 else (l.account a).nonce.toNat := by
  obtain ⟨next, credit, feePool, nonce, hk, -, hn, hl', hnonce, -⟩ := applyVerified_inv h
  obtain ⟨-, hnext, -, -⟩ := checkKind_spec hk
  have hacc : (l'.account a) = ((l.setAccount tx.sender { next with nonce := nonce }).payCredit
      credit).account a := by
    rw [hl', account_eq, account_eq, accounts_commitKind]
  rw [hacc, nonce_payCredit, account_setAccount]
  split
  · rw [Word.addStrict_eq_ok hn, hnext, hnonce]
    rfl
  · rfl

/-- Applying a transaction stops the run only when the nonce it carries is the largest word. -/
theorem applyVerified_abort {l : Ledger} {params : LedgerParams} {tx : Transaction} {e : Abort}
    (h : (l.applyVerified params tx).run = .error e) : tx.nonce = Word.max := by
  unfold applyVerified at h
  dsimp only at h
  split at h
  · cases h
  split at h
  · cases h
  rename_i hnonce
  split at h
  · cases h
  cases hk : l.checkKind params tx tx.sender (l.account tx.sender) with
  | error e =>
    rw [hk] at h
    cases h
  | ok p =>
    obtain ⟨next, credit⟩ := p
    obtain ⟨-, hnext, -, -⟩ := checkKind_spec hk
    cases hf : Word.add? l.feePool tx.fee with
    | none =>
      rw [hk, hf] at h
      cases h
    | some fp =>
      cases hn : Word.addStrict next.nonce 1 with
      | error e =>
        have hover := Word.addStrict_eq_error hn
        have hsize := Word.size_eq
        have hlt := next.nonce.toNat_lt
        rw [not_not.mp hnonce, ← hnext]
        apply UInt64.toNat_inj.mp
        rw [Word.max_toNat]
        simp only [UInt64.toNat_one] at hover
        omega
      | ok n =>
        simp only [hk, hf, orOverflow, Guarded.ofExcept_ok_bind, hn, Guarded.ofAbort_ok_bind] at h
        cases h

end Ledger

/-! ## Signed bytes -/

namespace Transaction

theorem signBytes_split (tx : Transaction) :
    tx.signBytes = (domain ++ Bytes.le64 tx.chainId ++ Bytes.lenPrefix32 tx.senderKey.bytes ++
      tx.senderKey.bytes ++ Bytes.le64 tx.nonce) ++ (Bytes.le64 tx.fee ++ Bytes.le64 tx.gasLimit ++
      [tx.kind.tag] ++ tx.kind.fieldBytes ++ Bytes.lenPrefix32 tx.memo ++ tx.memo) := by
  simp only [signBytes, List.append_assoc]

theorem domain_length : domain.length = 14 := by decide

/-- The signed bytes of transactions with 32-byte keys fix the key and the nonce. -/
theorem senderKey_nonce_of_signBytes {t₁ t₂ : Transaction} (h₁ : t₁.senderKey.bytes.length = 32)
    (h₂ : t₂.senderKey.bytes.length = 32) (h : t₁.signBytes = t₂.signBytes) :
    t₁.senderKey = t₂.senderKey ∧ t₁.nonce = t₂.nonce := by
  rw [signBytes_split, signBytes_split] at h
  have hlen : ∀ t : Transaction, t.senderKey.bytes.length = 32 →
      (domain ++ Bytes.le64 t.chainId ++ Bytes.lenPrefix32 t.senderKey.bytes ++
        t.senderKey.bytes ++ Bytes.le64 t.nonce).length = 66 := by
    intro t ht
    simp [domain_length, Bytes.lenPrefix32, Bytes.leN_length, ht]
  obtain ⟨hpre, -⟩ := List.append_inj h (by rw [hlen t₁ h₁, hlen t₂ h₂])
  obtain ⟨hkey, hnonce⟩ := List.append_inj hpre (by simp [domain_length, Bytes.lenPrefix32,
    Bytes.leN_length, h₁, h₂])
  obtain ⟨-, hbytes⟩ := List.append_inj hkey (by simp [domain_length, Bytes.lenPrefix32,
    Bytes.leN_length])
  refine ⟨?_, ?_⟩
  · calc t₁.senderKey = ⟨t₁.senderKey.bytes⟩ := rfl
      _ = ⟨t₂.senderKey.bytes⟩ := by rw [hbytes]
      _ = t₂.senderKey := rfl
  · have := congrArg Bytes.readLe hnonce
    rw [Bytes.readLe_le64, Bytes.readLe_le64] at this
    exact UInt64.toNat_inj.mp this

theorem senderKey_length_of_verify {tx : Transaction} (h : tx.verifySignature = .ok ()) :
    tx.senderKey.bytes.length = 32 := by
  unfold verifySignature Ed25519.verify at h
  split at h
  · nomatch h
  · rename_i hlen
    exact not_not.mp hlen

end Transaction

namespace Ledger

theorem applyTransaction_abort {l : Ledger} {params : LedgerParams} {tx : Transaction}
    {e : Abort} (h : (l.applyTransaction params tx).run = .error e) :
    (l.applyVerified params tx).run = .error e := by
  unfold applyTransaction at h
  split at h
  · nomatch h
  · exact h

end Ledger

theorem GasSchedule.canInclude_eq_true {g : GasSchedule} {used : UInt64} {tx : Transaction}
    (h : g.canInclude used tx = true) : used.toNat + (g.cost tx).toNat ≤ g.blockGasLimit.toNat := by
  unfold GasSchedule.canInclude at h
  split at h
  · rename_i total htotal
    rw [← Word.add?_toNat htotal]
    exact UInt64.le_iff_toNat_le.mp (of_decide_eq_true h)
  · cases h

theorem GasMeter.charge_of_le {m : GasMeter} {cost : UInt64}
    (h : m.used.toNat + cost.toNat ≤ m.limit.toNat) :
    ∃ m', m.charge cost = .ok m' ∧ m'.used.toNat = m.used.toNat + cost.toNat ∧
      m'.limit = m.limit := by
  have hlt : m.used.toNat + cost.toNat < UInt64.size := Nat.lt_of_le_of_lt h m.limit.toNat_lt
  have hsum := Word.add_toNat_of_lt hlt
  unfold GasMeter.charge
  rw [Word.add?_of_lt hlt]
  dsimp only
  rw [if_pos (UInt64.le_iff_toNat_le.mpr (by rw [hsum]; exact h))]
  exact ⟨_, rfl, hsum, rfl⟩

/-! ## The selection invariant -/

/-- What selection keeps, on top of the prepared ledger `base`. -/
structure Picked (base : Ledger) (candidates : List Transaction) (params : LedgerParams)
    (s : Selection) : Prop where
  replays : Ledger.Replays params base s.picked s.scratch
  mem : ∀ t ∈ s.picked, t ∈ candidates
  signed : ∀ t ∈ s.picked, t.verifySignature = .ok ()
  passed : ∀ t ∈ s.picked, t.nonce.toNat < (s.scratch.account t.sender).nonce.toNat
  used : s.used.toNat = (s.picked.map fun t => (params.gas.cost t).toNat).sum
  fits : s.used.toNat ≤ params.gas.blockGasLimit.toNat
  distinct : (s.picked.map Transaction.hash).Nodup

section Selection

variable {base : Ledger} {candidates : List Transaction} {params : LedgerParams}

/-- The invariant reads the scratch ledger, the gas and the picked transactions only. -/
theorem Picked.congr {s s' : Selection} (h : Picked base candidates params s)
    (hscratch : s'.scratch = s.scratch) (hused : s'.used = s.used) (hpicked : s'.picked = s.picked) :
    Picked base candidates params s' := by
  obtain ⟨hrep, hmem, hsig, hpass, hu, hfit, hdist⟩ := h
  rw [← hscratch, ← hpicked] at hrep hpass
  rw [← hpicked] at hmem hsig hu hdist
  rw [← hused] at hu hfit
  exact ⟨hrep, hmem, hsig, hpass, hu, hfit, hdist⟩

theorem picked_init : Picked base candidates params
    ⟨base, 0, candidates.map fun _ => false, [], false, false⟩ :=
  ⟨.nil _, (fun _ h => nomatch h), (fun _ h => nomatch h), (fun _ h => nomatch h), rfl,
    Nat.zero_le _, List.nodup_nil⟩

/-- A candidate that fits and applies joins the picked ones. -/
theorem Picked.push
    (hhash : ∀ t₁ ∈ candidates, ∀ t₂ ∈ candidates, t₁.hash = t₂.hash → t₁.signBytes = t₂.signBytes)
    {s s' : Selection} (hs : Picked base candidates params s) {tx : Transaction}
    (hmem : tx ∈ candidates) (hinc : params.gas.canInclude s.used tx = true) {l : Ledger}
    {r : Receipt} (happ : (s.scratch.applyTransaction params tx).run = .ok (.ok (l, r)))
    (hscratch : s'.scratch = l) (hused : s'.used = s.used + r.gasUsed)
    (hpicked : s'.picked = s.picked ++ [tx]) :
    Picked base candidates params s' := by
  obtain ⟨hsig, hver⟩ := Ledger.applyTransaction_eq_ok happ
  obtain ⟨-, -, -, -, -, -, -, -, hnonce, hr⟩ := Ledger.applyVerified_inv hver
  have hnon := Ledger.applyVerified_nonce hver
  have hgas := GasSchedule.canInclude_eq_true hinc
  have hlimit := params.gas.blockGasLimit.toNat_lt
  have hcost : (s.used + r.gasUsed).toNat = s.used.toNat + (params.gas.cost tx).toNat := by
    subst hr
    have hsize := Word.size_eq
    show (s.used + params.gas.cost tx).toNat = _
    exact Word.add_toNat_of_lt (by omega)
  refine ⟨?_, ?_, ?_, ?_, ?_, ?_, ?_⟩
  · rw [hscratch, hpicked]
    exact hs.replays.snoc hver
  · intro t ht
    rw [hpicked, List.mem_append, List.mem_singleton] at ht
    rcases ht with ht | rfl
    · exact hs.mem t ht
    · exact hmem
  · intro t ht
    rw [hpicked, List.mem_append, List.mem_singleton] at ht
    rcases ht with ht | rfl
    · exact hs.signed t ht
    · exact hsig
  · -- the sender's nonce moved past the new transaction's, and no other nonce moved
    intro t ht
    rw [hpicked, List.mem_append, List.mem_singleton] at ht
    rw [hscratch, hnon]
    rcases ht with ht | rfl
    · have hlt := hs.passed t ht
      split
      · rename_i hsender
        rw [hsender, ← hnonce] at hlt
        omega
      · exact hlt
    · rw [if_pos rfl]
      omega
  · rw [hused, hcost, hpicked, List.map_append, List.sum_append, hs.used]
    simp
  · rw [hused, hcost]
    exact hgas
  · -- a hash seen before would be an earlier transaction with the same sender and nonce
    rw [hpicked, List.map_append, List.nodup_append]
    refine ⟨hs.distinct, by simp, ?_⟩
    intro a ha b hb hab
    simp only [List.map_cons, List.map_nil, List.mem_singleton] at hb
    obtain ⟨t, ht, rfl⟩ := List.mem_map.mp ha
    subst hb
    have hbytes := hhash t (hs.mem t ht) tx hmem hab
    obtain ⟨hkey, hn⟩ := Transaction.senderKey_nonce_of_signBytes
      (Transaction.senderKey_length_of_verify (hs.signed t ht))
      (Transaction.senderKey_length_of_verify hsig) hbytes
    have hlt := hs.passed t ht
    have hsender : t.sender = tx.sender := by
      unfold Transaction.sender
      rw [hkey]
    rw [hsender, ← hnonce, hn] at hlt
    omega

theorem mem_feeOrder {i : Nat} (h : i ∈ feeOrder candidates) : i < candidates.length := by
  unfold feeOrder at h
  rw [List.mem_mergeSort, List.mem_range] at h
  exact h

variable (hhash : ∀ t₁ ∈ candidates, ∀ t₂ ∈ candidates,
    t₁.hash = t₂.hash → t₁.signBytes = t₂.signBytes)
  (hnonce : ∀ t ∈ candidates, t.nonce ≠ Word.max)
include hhash hnonce

/-- One candidate: it is skipped, it ends selection, it is dropped, or it is picked; the
invariant holds after each, and nothing stops the run. -/
theorem selectStep_picked (maxTxs : Nat) {s : Selection} (hs : Picked base candidates params s)
    {i : Nat} (hi : i < candidates.length) :
    ∃ s', selectStep candidates params maxTxs s i = .ok s' ∧ Picked base candidates params s' := by
  have hmem : candidates.getD i default ∈ candidates := by
    rw [List.getD_eq_getElem?_getD, List.getElem?_eq_getElem hi, Option.getD_some]
    exact List.getElem_mem hi
  unfold selectStep
  split
  · exact ⟨s, rfl, hs⟩
  split
  · exact ⟨_, rfl, hs.congr rfl rfl rfl⟩
  dsimp only
  split
  · exact ⟨_, rfl, hs.congr rfl rfl rfl⟩
  rename_i hinc
  cases hrun : (s.scratch.applyTransaction params (candidates.getD i default)).run with
  | error e =>
    -- the run stops only at a candidate with the largest nonce
    exact absurd (Ledger.applyVerified_abort (Ledger.applyTransaction_abort hrun))
      (hnonce _ hmem)
  | ok r =>
    cases r with
    | ok p =>
      obtain ⟨l, rc⟩ := p
      refine ⟨_, rfl, ?_⟩
      exact hs.push hhash hmem (by simpa using hinc) hrun rfl rfl rfl
    | error e =>
      -- a future nonce waits for the next pass; any other failure drops the candidate
      simp only [Except.ok_bind]
      split
      · exact ⟨s, rfl, hs⟩
      · exact ⟨_, rfl, hs.congr rfl rfl rfl⟩

/-- Passes over the fee order keep the invariant, and none stops the run. -/
theorem selectPasses_picked (maxTxs : Nat) :
    ∀ (fuel : Nat) (s : Selection), Picked base candidates params s →
      ∃ s', selectPasses candidates params maxTxs (feeOrder candidates) fuel s = .ok s' ∧
        Picked base candidates params s'
  | 0, s, hs => ⟨s, rfl, hs⟩
  | fuel + 1, s, hs => by
    obtain ⟨s₁, hpass, hs₁⟩ := Except.foldlM_ok (Picked base candidates params)
      (selectStep candidates params maxTxs) (feeOrder candidates)
      (fun i hi _ ha => selectStep_picked hhash hnonce maxTxs ha (mem_feeOrder hi))
      { s with progressed := false } (hs.congr rfl rfl rfl)
    rw [selectPasses, hpass, Except.ok_bind]
    split
    · exact ⟨s₁, rfl, hs₁⟩
    · exact selectPasses_picked maxTxs fuel s₁ hs₁

/-- Selection goes through, and what it picks satisfies the invariant. -/
theorem selectTransactions_picked (maxTxs : Nat) :
    ∃ s, selectTransactions base candidates params maxTxs = .ok s.picked ∧
      Picked base candidates params s := by
  obtain ⟨s, hpasses, hs⟩ := selectPasses_picked hhash hnonce maxTxs (candidates.length + 1) _
    picked_init
  refine ⟨s, ?_, hs⟩
  unfold selectTransactions
  rw [hpasses]
  rfl

end Selection

/-! ## Executing the picked transactions -/

theorem firstDuplicate_go_eq_none :
    ∀ (hashes seen : List Digest), (hashes ++ seen).Nodup → firstDuplicate.go hashes seen = none
  | [], _, _ => rfl
  | h :: rest, seen, hnd => by
    have hfresh : h ∉ seen := fun hm => (List.nodup_cons.mp hnd).1 (List.mem_append_right _ hm)
    rw [firstDuplicate.go, if_neg (by simpa using hfresh)]
    exact firstDuplicate_go_eq_none rest (h :: seen) (List.perm_middle.nodup_iff.mpr hnd)

theorem firstDuplicate_eq_none {hashes : List Digest} (h : hashes.Nodup) :
    firstDuplicate hashes = none :=
  firstDuplicate_go_eq_none hashes [] (by simpa using h)

theorem executeTx_of_ok {params : LedgerParams} {l l' : Ledger} {m m' : GasMeter}
    {rs : List Receipt} {i : Nat} {tx : Transaction} {r : Receipt}
    (hm : m.charge (params.gas.cost tx) = .ok m')
    (happ : (l.applyVerified params tx).run = .ok (.ok (l', r))) :
    (executeTx params (l, m, rs) (i, tx)).run = .ok (.ok (l', m', rs ++ [r])) := by
  unfold executeTx
  simp only [hm, pure_bind, happ]
  rfl

/-- Transactions that replay on a ledger and whose gas fits the meter run again through the
block's fold. -/
theorem foldlM_executeTx (params : LedgerParams) :
    ∀ (pairs : List (Nat × Transaction)) {l l' : Ledger} (m : GasMeter) (rs : List Receipt),
      Ledger.Replays params l (pairs.map Prod.snd) l' →
      m.used.toNat + (pairs.map fun p => (params.gas.cost p.2).toNat).sum ≤ m.limit.toNat →
      ∃ m' rs', (pairs.foldlM (executeTx params) (l, m, rs)).run = .ok (.ok (l', m', rs'))
  | [], _, _, m, rs, hrep, _ => by
    cases hrep
    exact ⟨m, rs, rfl⟩
  | (i, tx) :: rest, _, _, m, rs, hrep, hgas => by
    rw [List.map_cons] at hrep
    cases hrep with
    | cons r happ hrest =>
      simp only [List.map_cons, List.sum_cons] at hgas
      obtain ⟨m₁, hm₁, hused, hlimit⟩ := GasMeter.charge_of_le
        (show m.used.toNat + (params.gas.cost tx).toNat ≤ m.limit.toNat by omega)
      obtain ⟨m', rs', hfold⟩ := foldlM_executeTx params rest m₁ (rs ++ [r]) hrest
        (by rw [hused, hlimit]; omega)
      refine ⟨m', rs', ?_⟩
      rw [List.foldlM_cons, Guarded.bind_run_of_ok (executeTx_of_ok hm₁ happ)]
      exact hfold

/-- A block of picked transactions executes on the ledger they were picked on. -/
theorem executeBlock_of_picked {prev : Ledger} {height : UInt64} {evidence : List Evidence}
    {params : LedgerParams} {prepared : Ledger} {penalties : List (Evidence × PenaltyOutcome)}
    (hprep : prepareBlock prev height evidence params = .ok (prepared, penalties))
    {candidates : List Transaction} {s : Selection} (hs : Picked prepared candidates params s)
    (proposer : Address) :
    ∃ out, (executeBlock prev height proposer s.picked evidence params).run = .ok (.ok out) := by
  obtain ⟨pairs, hpairs⟩ : ∃ pairs, pairs = (List.range s.picked.length).zip s.picked := ⟨_, rfl⟩
  have hsnd : pairs.map Prod.snd = s.picked := by
    rw [hpairs]
    exact List.map_snd_zip (by simp)
  have hcost : (pairs.map fun p => (params.gas.cost p.2).toNat).sum = s.used.toNat := by
    rw [hs.used, ← hsnd, List.map_map]
    rfl
  obtain ⟨m', rs', hfold⟩ := foldlM_executeTx params pairs { limit := params.gas.blockGasLimit }
    [] (by rw [hsnd]; exact hs.replays) (by rw [hcost]; exact Nat.le_trans (by simp) hs.fits)
  unfold executeBlock
  rw [firstDuplicate_eq_none hs.distinct]
  simp only [verifySignatures_eq_ok hs.signed, hprep, Guarded.ofExcept_ok_bind]
  rw [← hpairs, Guarded.bind_run_of_ok hfold]
  exact ⟨_, rfl⟩

/-- A block verifies when its header signature and roots check and its execution gives the gas
and state root its header commits to. -/
theorem verifyBlock_of_executeBlock {prev : Ledger} {b : Block} {params : LedgerParams}
    {out : BlockOutcome} (hsig : SignedHeader.verifyHeader b.header b.signature = .ok ())
    (htx : txRoot b.txs = b.header.txRoot) (hev : evidenceRoot b.evidence = b.header.evidenceRoot)
    (hexec : (executeBlock prev b.header.height b.header.proposer b.txs b.evidence params).run =
      .ok (.ok out))
    (hgas : out.gasUsed = b.header.gasUsed) (hroot : out.ledger.stateRoot = b.header.stateRoot) :
    (verifyBlock prev b params).run = .ok (.ok out) := by
  unfold verifyBlock
  simp only [hsig, htx, hev, ne_eq, not_true_eq_false, if_false, Bool.false_eq_true]
  rw [Guarded.bind_run_of_ok hexec]
  simp only [hgas, hroot, not_true_eq_false, if_false]
  rfl

/-! ## Building and verifying -/

/-- A built block is at the requested height, on the requested parent and time, under the
builder's key, and it verifies with the outcome it was built with once its header signature
does. -/
theorem buildBlock_eq_ok {signer : Keypair} {prev : Ledger} {req : BuildRequest}
    {params : LedgerParams} {b : Block} {out : BlockOutcome}
    (h : (buildBlock signer prev req params).run = .ok (.ok (b, out))) :
    b.header.height = req.height ∧ b.header.parent = req.parent ∧
      b.header.timestamp = req.timestamp ∧ b.header.proposerKey = signer.publicKey ∧
      (SignedHeader.verifyHeader b.header b.signature = .ok () →
        (verifyBlock prev b params).run = .ok (.ok out)) := by
  unfold buildBlock at h
  obtain ⟨⟨prepared, penalties⟩, -, h⟩ := Guarded.bind_eq_ok h
  obtain ⟨txs, -, h⟩ := Guarded.bind_eq_ok h
  obtain ⟨outcome, hexec, h⟩ := Guarded.bind_eq_ok h
  cases h
  exact ⟨rfl, rfl, rfl, rfl, fun hsig => verifyBlock_of_executeBlock hsig rfl rfl hexec rfl rfl⟩

/-- A block built on a ledger whose evidence prepares is built, and it verifies on the same
ledger with the outcome it was built with once its header signature verifies: selection picked
on the prepared ledger exactly what execution replays there. -/
theorem buildBlock_verifies (signer : Keypair) {prev : Ledger} {req : BuildRequest}
    {params : LedgerParams} {prepared : Ledger} {penalties : List (Evidence × PenaltyOutcome)}
    (hprep : prepareBlock prev req.height req.evidence params = .ok (prepared, penalties))
    (hhash : ∀ t₁ ∈ req.candidates, ∀ t₂ ∈ req.candidates,
      t₁.hash = t₂.hash → t₁.signBytes = t₂.signBytes)
    (hnonce : ∀ t ∈ req.candidates, t.nonce ≠ Word.max) :
    ∃ block outcome, (buildBlock signer prev req params).run = .ok (.ok (block, outcome)) ∧
      (SignedHeader.verifyHeader block.header block.signature = .ok () →
        (verifyBlock prev block params).run = .ok (.ok outcome)) := by
  obtain ⟨s, hsel, hs⟩ : ∃ s, selectTransactions prepared req.candidates params req.maxTxs =
      .ok s.picked ∧ Picked prepared req.candidates params s :=
    selectTransactions_picked hhash hnonce req.maxTxs
  obtain ⟨out, hexec⟩ := executeBlock_of_picked hprep hs signer.address
  obtain ⟨⟨block, outcome⟩, hbuild⟩ : ∃ r, (buildBlock signer prev req params).run = .ok (.ok r) := by
    unfold buildBlock
    simp only [hprep, Guarded.ofExcept_ok_bind, hsel, Guarded.ofAbort_ok_bind]
    rw [Guarded.bind_run_of_ok hexec]
    exact ⟨_, rfl⟩
  exact ⟨block, outcome, hbuild, (buildBlock_eq_ok hbuild).2.2.2.2⟩

end StakeChain

import StakeChain.Proofs.Ledger.Lifecycle
import StakeChain.Block.Execution

/-!
# Value across blocks

A block moves value between accounts, stake, delegations and the unbonding queue, and burns
what its evidence slashes; nothing else changes the sum of the supply and the burned total.
The ledger a successful block execution hands back has its parent's sum
(`executeBlock_value`), and so has the ledger of a block a validator accepts, which is the
ledger of re-executing it (`verifyBlock_eq_ok`).

Both folds of a block, over its evidence and over its transactions, are read through
`foldlM_induction` with one invariant: the ledger has the parent's sum.
-/

set_option autoImplicit false

namespace StakeChain

namespace Ledger

theorem fits_of_eq {l l' : Ledger} (hfit : l.Fits)
    (h : l'.supply + l'.burned.toNat = l.supply + l.burned.toNat) : l'.Fits := by
  unfold Fits at hfit ⊢
  omega

/-- Evidence is penalized exactly when it verifies and its penalty applies. -/
theorem penalize_eq_ok {l : Ledger} {e : Evidence} {params : LedgerParams} {height : UInt64}
    {r : Ledger × PenaltyOutcome} :
    penalize l e params height = .ok r ↔
      e.verify = .ok () ∧ l.applyPenalty e.id e.offender e.kind e.height params height = .ok r := by
  unfold penalize
  cases hv : e.verify with
  | error err => simp [throw, throwThe, MonadExceptOf.throw]
  | ok u =>
    cases hp : l.applyPenalty e.id e.offender e.kind e.height params height with
    | error err => simp [throw, throwThe, MonadExceptOf.throw]
    | ok r' => simp [pure, Except.pure]

theorem penalize_value {l : Ledger} (hfit : l.Fits) {e : Evidence}
    {params : LedgerParams} {height : UInt64} {l' : Ledger} {o : PenaltyOutcome}
    (h : penalize l e params height = .ok (l', o)) :
    l'.supply + l'.burned.toNat = l.supply + l.burned.toNat := by
  obtain ⟨hs, hb⟩ := applyPenalty_value hfit (penalize_eq_ok.mp h).2
  omega

end Ledger

open Ledger

/-- One evidence step of preparing a block: a repeated id is skipped, any other is penalized
and recorded with its outcome. -/
def penaltyStep (params : LedgerParams) (height : UInt64)
    (acc : Ledger × List (Evidence × PenaltyOutcome) × List Digest) (ie : Nat × Evidence) :
    Except BlockError (Ledger × List (Evidence × PenaltyOutcome) × List Digest) :=
  let (l, ps, seen) := acc
  let (index, e) := ie
  if seen.contains e.id then .ok acc
  else
    match penalize l e params height with
    | .error err => .error (.evidence index err)
    | .ok (l', o) => .ok (l', ps ++ [(e, o)], seen ++ [e.id])

theorem prepareBlock_eq (prev : Ledger) (height : UInt64) (evidence : List Evidence)
    (params : LedgerParams) :
    prepareBlock prev height evidence params =
      (fun acc => (acc.1, acc.2.1)) <$> ((List.range evidence.length).zip evidence).foldlM
        (penaltyStep params height) (prev.beginBlock height, [], []) := rfl

/-- An evidence step that goes through skipped a repeated id or applied the penalty. -/
theorem penaltyStep_eq_ok {params : LedgerParams} {height : UInt64} {l : Ledger}
    {ps : List (Evidence × PenaltyOutcome)} {seen : List Digest} {i : Nat} {e : Evidence}
    {acc : Ledger × List (Evidence × PenaltyOutcome) × List Digest}
    (h : penaltyStep params height (l, ps, seen) (i, e) = .ok acc) :
    (seen.contains e.id = true ∧ acc = (l, ps, seen)) ∨
      (seen.contains e.id = false ∧ ∃ l' o, penalize l e params height = .ok (l', o) ∧
        acc = (l', ps ++ [(e, o)], seen ++ [e.id])) := by
  unfold penaltyStep at h
  dsimp only at h
  split at h
  · rename_i hseen
    cases h
    exact .inl ⟨hseen, rfl⟩
  · rename_i hnew
    split at h
    · cases h
    · rename_i l' o hpen
      cases h
      exact .inr ⟨by simpa using hnew, l', o, hpen, rfl⟩

/-- What a block's start establishes and each applied penalty keeps holds of the ledger a
prepared block hands back. -/
theorem prepareBlock_induction (P : Ledger → Prop) {prev l : Ledger} {height : UInt64}
    {evidence : List Evidence} {params : LedgerParams} {ps : List (Evidence × PenaltyOutcome)}
    (hstart : P (prev.beginBlock height))
    (hpen : ∀ l e l' o, P l → penalize l e params height = .ok (l', o) → P l')
    (h : prepareBlock prev height evidence params = .ok (l, ps)) : P l := by
  rw [prepareBlock_eq] at h
  obtain ⟨acc, hfold, hacc⟩ := Except.map_eq_ok h
  have key := Except.foldlM_induction
    (fun acc : Ledger × List (Evidence × PenaltyOutcome) × List Digest => P acc.1) _
    (by
      rintro ⟨l₁, ps₁, seen⟩ ⟨i, e⟩ acc' hP hstep
      rcases penaltyStep_eq_ok hstep with ⟨-, rfl⟩ | ⟨-, l₂, o, hp, rfl⟩
      · exact hP
      · exact hpen _ _ _ _ hP hp)
    _ _ acc hstart hfold
  cases hacc
  exact key

/-- Beginning a block and penalizing its evidence keeps the supply plus the burned total. -/
theorem prepareBlock_value {prev : Ledger} (hfit : prev.Fits) {height : UInt64}
    {evidence : List Evidence} {params : LedgerParams} {l : Ledger}
    {ps : List (Evidence × PenaltyOutcome)}
    (h : prepareBlock prev height evidence params = .ok (l, ps)) :
    l.supply + l.burned.toNat = prev.supply + prev.burned.toNat := by
  obtain ⟨hs₀, hb₀⟩ := beginBlock_value hfit height
  -- every applied penalty keeps the parent's sum: it burns what it takes
  refine prepareBlock_induction
    (fun l => l.supply + l.burned.toNat = prev.supply + prev.burned.toNat)
    (by rw [hs₀, hb₀]) ?_ h
  intro l₁ e l₂ o hv hpen
  exact (penalize_value (fits_of_eq hfit hv) hpen).trans hv

/-- A block's transaction step that goes through charged the transaction's cost and applied
it. -/
theorem executeTx_eq_ok {params : LedgerParams} {l : Ledger} {m : GasMeter} {rs : List Receipt}
    {i : Nat} {tx : Transaction} {a : Ledger × GasMeter × List Receipt}
    (h : (executeTx params (l, m, rs) (i, tx)).run = .ok (.ok a)) :
    ∃ m' l' r, m.charge (params.gas.cost tx) = .ok m' ∧
      (l.applyVerified params tx).run = .ok (.ok (l', r)) ∧ a = (l', m', rs ++ [r]) := by
  unfold executeTx at h
  dsimp only at h
  split at h
  · rename_i m' hcharge
    obtain ⟨m₁, hm₁, h⟩ := Guarded.bind_eq_ok h
    cases hm₁
    obtain ⟨r, hr, h⟩ := Guarded.bind_eq_ok h
    have happ := Guarded.liftM_eq_ok hr
    split at h
    · rename_i l' rc
      cases h
      exact ⟨m', l', rc, hcharge, happ, rfl⟩
    · nomatch h
  · nomatch h

/-- A successful block execution hands back a ledger with its parent's supply plus burned
total. -/
theorem executeBlock_value {prev : Ledger} (hfit : prev.Fits) {height : UInt64}
    {proposer : Address} {txs : List Transaction} {evidence : List Evidence}
    {params : LedgerParams} {out : BlockOutcome}
    (h : (executeBlock prev height proposer txs evidence params).run = .ok (.ok out)) :
    out.ledger.supply + out.ledger.burned.toNat = prev.supply + prev.burned.toNat := by
  unfold executeBlock at h
  dsimp only at h
  split at h
  · nomatch h
  obtain ⟨_, _, h⟩ := Guarded.bind_eq_ok h
  obtain ⟨⟨working, penalties⟩, hprep, h⟩ := Guarded.bind_eq_ok h
  have hv₁ := prepareBlock_value hfit (Guarded.ofExcept_eq_ok hprep)
  obtain ⟨final, hfold, h⟩ := Guarded.bind_eq_ok h
  have key := Guarded.foldlM_induction
    (fun acc : Ledger × GasMeter × List Receipt =>
      acc.1.supply = working.supply ∧ acc.1.burned = working.burned) _
    (by
      rintro ⟨l₁, m, rs⟩ ⟨i, tx⟩ a' ⟨hs, hb⟩ hstep
      obtain ⟨_, l₂, _, -, happ, rfl⟩ := executeTx_eq_ok hstep
      obtain ⟨hs₂, hb₂⟩ := applyVerified_supply happ
      exact ⟨hs₂.trans hs, hb₂.trans hb⟩)
    _ _ final ⟨rfl, rfl⟩ hfold
  obtain ⟨hs, hb⟩ := key
  cases h
  have hfit₂ : final.1.Fits := fits_of_eq hfit (by rw [hs, hb]; exact hv₁)
  obtain ⟨hs₃, hb₃, -⟩ := payFees_value hfit₂ proposer
  rw [hs₃, hb₃, hs, hb]
  exact hv₁

/-- A block a validator accepts is one whose re-execution on the parent went through, with the
gas and the state root its header claims. -/
theorem verifyBlock_eq_ok {prev : Ledger} {b : Block} {params : LedgerParams} {out : BlockOutcome}
    (h : (verifyBlock prev b params).run = .ok (.ok out)) :
    (executeBlock prev b.header.height b.header.proposer b.txs b.evidence params).run =
        .ok (.ok out) ∧
      out.gasUsed = b.header.gasUsed ∧ out.ledger.stateRoot = b.header.stateRoot := by
  unfold verifyBlock at h
  dsimp only at h
  split at h
  · nomatch h
  split at h
  · nomatch h
  split at h
  · nomatch h
  split at h
  · nomatch h
  obtain ⟨outcome, hexec, h⟩ := Guarded.bind_eq_ok h
  split at h
  · nomatch h
  rename_i hgas
  split at h
  · nomatch h
  rename_i hroot
  cases h
  exact ⟨hexec, not_not.mp hgas, not_not.mp hroot⟩

namespace Ledger

/-- The saturating total of the delegation tables is their exact value cut at the largest
word. -/
theorem foldl_delegated_toNat :
    ∀ (ds : List (KeyMap Address UInt64)) (acc : UInt64),
      (ds.foldl (fun acc d => d.values.foldl Word.addSat acc) acc).toNat =
        min (acc.toNat + (ds.map delegatorsValue).sum) (UInt64.size - 1)
  | [], acc => by
    have hsize := Word.size_eq
    have := acc.toNat_lt
    simp only [List.foldl_nil, List.map_nil, List.sum_nil]
    omega
  | d :: rest, acc => by
    rw [List.foldl_cons, foldl_delegated_toNat rest, Word.foldl_addSat_words_toNat]
    simp only [List.map_cons, List.sum_cons, delegatorsValue]
    omega

/-- While the ledger's value fits in a word, the saturating total it reports is its supply. -/
theorem totalSupply_toNat {l : Ledger} (hfit : l.Fits) : l.totalSupply.toNat = l.supply := by
  have hacc : accountsValue l.accounts = (l.accounts.values.map fun a => a.balance.toNat).sum +
      (l.accounts.values.map fun a => a.staked.toNat).sum := by
    unfold accountsValue Account.held
    exact List.sum_map_add
  have hbal := Word.sumSat_toNat (l.accounts.values.map Account.balance)
  have hstk := Word.sumSat_toNat (l.accounts.values.map Account.staked)
  have hdel := foldl_delegated_toNat l.delegations.values 0
  have hunb := Word.sumSat_toNat (l.unbonding.map UnbondingEntry.amount)
  simp only [List.map_map, Function.comp_def, UInt64.toNat_zero, Nat.zero_add] at hbal hstk hunb hdel
  unfold Fits at hfit
  unfold totalSupply totalStaked totalDelegated
  rw [Word.addSat_toNat, Word.addSat_toNat, Word.addSat_toNat, Word.addSat_toNat, hbal, hstk,
    hdel, hunb]
  unfold supply delegationsValue unbondingValue at hfit ⊢
  omega

end Ledger

/-! ## Runs of blocks -/

/-- Ledgers reached by executing blocks one after another, each on the ledger the one before
handed back. -/
inductive BlockRun (params : LedgerParams) : Ledger → Ledger → Prop
  | done (l : Ledger) : BlockRun params l l
  | next {l l' : Ledger} (height : UInt64) (proposer : Address) (txs : List Transaction)
      (evidence : List Evidence) (out : BlockOutcome) :
      (executeBlock l height proposer txs evidence params).run = .ok (.ok out) →
      BlockRun params out.ledger l' → BlockRun params l l'

/-- Along a run of blocks the ledger keeps the supply plus the burned total of where it
started. -/
theorem BlockRun.value {params : LedgerParams} {l l' : Ledger} (hrun : BlockRun params l l') :
    l.Fits → l'.supply + l'.burned.toNat = l.supply + l.burned.toNat := by
  induction hrun with
  | done l => exact fun _ => rfl
  | next height proposer txs evidence out hexec _ ih =>
    intro hfit
    have hv := executeBlock_value hfit hexec
    exact (ih (fits_of_eq hfit hv)).trans hv

/-- Value is conserved by the ledger state machine.  While the supply and the burned total fit
in a word: a transaction of any kind and the start of a block and the payment of fees keep
both; a penalty burns exactly what it reports slashed, and a repeated one nothing; a block,
executed or accepted by a validator, keeps their sum; and so does a run of blocks, for the
word-sized totals the ledger reports as well. -/
theorem value_conserved {l : Ledger} (hfit : l.Fits) :
    (∀ params tx l' r, (l.applyTransaction params tx).run = .ok (.ok (l', r)) →
      l'.supply = l.supply ∧ l'.burned = l.burned) ∧
    (∀ params tx l' r, (l.applyVerified params tx).run = .ok (.ok (l', r)) →
      l'.supply = l.supply ∧ l'.burned = l.burned) ∧
    (∀ height, (l.beginBlock height).supply = l.supply ∧
      (l.beginBlock height).burned = l.burned) ∧
    (∀ proposer, (l.payFees proposer).1.supply = l.supply ∧
      (l.payFees proposer).1.burned = l.burned) ∧
    (∀ evidenceId offender kind offenseHeight params height l' o,
      l.applyPenalty evidenceId offender kind offenseHeight params height = .ok (l', o) →
        l'.supply + o.burnt = l.supply ∧ l'.burned.toNat = l.burned.toNat + o.burnt) ∧
    (∀ height proposer txs evidence params out,
      (executeBlock l height proposer txs evidence params).run = .ok (.ok out) →
        out.ledger.supply + out.ledger.burned.toNat = l.supply + l.burned.toNat) ∧
    (∀ b params out, (verifyBlock l b params).run = .ok (.ok out) →
      out.ledger.supply + out.ledger.burned.toNat = l.supply + l.burned.toNat) ∧
    (∀ params l', BlockRun params l l' →
      l'.totalSupply.toNat + l'.burned.toNat = l.totalSupply.toNat + l.burned.toNat) := by
  refine ⟨fun params tx l' r h => ?_, fun params tx l' r h => ?_, fun height => ?_,
    fun proposer => ?_, fun evidenceId offender kind offenseHeight params height l' o h => ?_,
    fun height proposer txs evidence params out h => ?_, fun b params out h => ?_,
    fun params l' hrun => ?_⟩
  · exact applyVerified_supply (applyTransaction_eq_ok h).2
  · exact applyVerified_supply h
  · exact beginBlock_value hfit height
  · obtain ⟨hs, hb, -⟩ := payFees_value hfit proposer
    exact ⟨hs, hb⟩
  · exact applyPenalty_value hfit h
  · exact executeBlock_value hfit h
  · exact executeBlock_value hfit (verifyBlock_eq_ok h).1
  · -- the totals are exact at both ends, since the sum they bound is the same
    have hv := hrun.value hfit
    rw [totalSupply_toNat hfit, totalSupply_toNat (fits_of_eq hfit hv)]
    exact hv

/-- A ledger holding value in every table: two balances, a validator's self-stake, a delegation
to it, an entry waiting to unbond and fees in the pool. -/
def stakedLedger : Ledger where
  accounts := (KeyMap.empty.insert ⟨[1]⟩ ⟨500, 200, 3⟩).insert ⟨[2]⟩ ⟨300, 0, 1⟩
  validators := KeyMap.empty.insert ⟨[1]⟩ { publicKey := ⟨[]⟩ }
  delegations := KeyMap.empty.insert ⟨[1]⟩ (KeyMap.empty.insert ⟨[2]⟩ 50)
  unbonding := [⟨⟨[2]⟩, ⟨[1]⟩, 25, 4, 104⟩]
  feePool := 10

theorem value_conserved_staked :
    stakedLedger.Fits ∧
      ((∀ params tx l' r, (stakedLedger.applyTransaction params tx).run = .ok (.ok (l', r)) →
        l'.supply = stakedLedger.supply ∧ l'.burned = stakedLedger.burned) ∧
      (∀ params tx l' r, (stakedLedger.applyVerified params tx).run = .ok (.ok (l', r)) →
        l'.supply = stakedLedger.supply ∧ l'.burned = stakedLedger.burned) ∧
      (∀ height, (stakedLedger.beginBlock height).supply = stakedLedger.supply ∧
        (stakedLedger.beginBlock height).burned = stakedLedger.burned) ∧
      (∀ proposer, (stakedLedger.payFees proposer).1.supply = stakedLedger.supply ∧
        (stakedLedger.payFees proposer).1.burned = stakedLedger.burned) ∧
      (∀ evidenceId offender kind offenseHeight params height l' o,
        stakedLedger.applyPenalty evidenceId offender kind offenseHeight params height =
            .ok (l', o) →
          l'.supply + o.burnt = stakedLedger.supply ∧
            l'.burned.toNat = stakedLedger.burned.toNat + o.burnt) ∧
      (∀ height proposer txs evidence params out,
        (executeBlock stakedLedger height proposer txs evidence params).run = .ok (.ok out) →
          out.ledger.supply + out.ledger.burned.toNat =
            stakedLedger.supply + stakedLedger.burned.toNat) ∧
      (∀ b params out, (verifyBlock stakedLedger b params).run = .ok (.ok out) →
        out.ledger.supply + out.ledger.burned.toNat =
          stakedLedger.supply + stakedLedger.burned.toNat) ∧
      (∀ params l', BlockRun params stakedLedger l' →
        l'.totalSupply.toNat + l'.burned.toNat =
          stakedLedger.totalSupply.toNat + stakedLedger.burned.toNat)) :=
  ⟨by decide, value_conserved (by decide)⟩

example : stakedLedger.supply = 1085 := by decide

end StakeChain

import StakeChain.Proofs.Block.Selection
import StakeChain.Config.Basic

/-!
# A ledger never removes an account

The accounts of a ledger change only through `Ledger.setAccount`, which replaces or adds the
account at one address. `Ledger.Rewrites l l'` says that the accounts of `l'` are those of `l`
after such writes. An address that held an account then still holds one (`Rewrites.isSome`).

Every step of a block is such a rewrite, and so is a block a validator accepts
(`rewrites_verifyBlock`). The genesis ledger is one of the empty ledger
(`rewrites_genesisLedger`). A store that writes only the accounts a block changed relies on
this: an address without an account after the block had none before it either.
-/

set_option autoImplicit false

namespace StakeChain

namespace Ledger

/-- The accounts of `l'` are those of `l` after some accounts were written. -/
def Rewrites (l l' : Ledger) : Prop :=
  Relation.ReflTransGen (fun m m' : KeyMap Address Account => ∃ a acct, m' = m.insert a acct)
    l.accounts l'.accounts

section Rewrites

variable {l l' l'' : Ledger}

theorem Rewrites.refl (l : Ledger) : l.Rewrites l := Relation.ReflTransGen.refl

theorem Rewrites.trans (h₁ : l.Rewrites l') (h₂ : l'.Rewrites l'') : l.Rewrites l'' :=
  Relation.ReflTransGen.trans h₁ h₂

/-- A change of the other tables writes no account. -/
theorem rewrites_of_accounts_eq (h : l'.accounts = l.accounts) : l.Rewrites l' := by
  unfold Rewrites
  rw [h]

theorem rewrites_setAccount (l : Ledger) (a : Address) (acct : Account) :
    l.Rewrites (l.setAccount a acct) :=
  Relation.ReflTransGen.single ⟨a, acct, rfl⟩

/-- An address that held an account still holds one. -/
theorem Rewrites.isSome (h : l.Rewrites l') {a : Address} (ha : (l.accounts.get? a).isSome) :
    (l'.accounts.get? a).isSome := by
  unfold Rewrites at h
  generalize l'.accounts = m at h
  induction h with
  | refl => exact ha
  | tail _ hstep ih =>
    obtain ⟨b, acct, rfl⟩ := hstep
    rw [KeyMap.get?_insert]
    split
    · rfl
    · exact ih

end Rewrites

/-! ## The steps of a block -/

theorem rewrites_foldl_credit :
    ∀ (es : List UnbondingEntry) (l : Ledger),
      l.Rewrites (es.foldl (fun l e => l.credit e.address e.amount) l)
  | [], l => .refl l
  | e :: rest, l => (rewrites_setAccount l e.address _).trans (rewrites_foldl_credit rest _)

/-- Starting a block pays matured unbonding entries into their accounts. -/
theorem rewrites_beginBlock (l : Ledger) (height : UInt64) : l.Rewrites (l.beginBlock height) := by
  obtain ⟨vs, heq⟩ := beginBlock_eq l height
  rw [heq]
  dsimp only
  refine Rewrites.trans ?_ (rewrites_of_accounts_eq (l := List.foldl _ _ _) rfl)
  refine Rewrites.trans ?_ (rewrites_foldl_credit _ _)
  exact rewrites_of_accounts_eq rfl

theorem rewrites_payFees (l : Ledger) (proposer : Address) : l.Rewrites (l.payFees proposer).1 := by
  unfold payFees
  dsimp only
  split
  · exact (rewrites_of_accounts_eq rfl).trans (rewrites_setAccount _ _ _)
  · exact rewrites_of_accounts_eq rfl

/-- A penalty writes the offender's self-stake; its cuts of delegations and unbonding entries
are in other tables. -/
theorem rewrites_applyPenalty {l l' : Ledger} {evidenceId : Digest} {offender : Address}
    {kind : EvidenceKind} {offenseHeight : UInt64} {params : LedgerParams} {height : UInt64}
    {o : PenaltyOutcome}
    (h : l.applyPenalty evidenceId offender kind offenseHeight params height = .ok (l', o)) :
    l.Rewrites l' := by
  obtain ⟨-, ⟨-, rfl, -⟩ | ⟨_, _, l₁, l₂, l₃, _, _, -, -, -, hl₁, hcd, hcu, rfl, -⟩⟩ :=
    applyPenalty_cases h
  · exact rewrites_of_accounts_eq rfl
  have h₂ : l₂.accounts = l₁.accounts := by rw [cutDelegations_frame hcd]
  have h₃ : l₃.accounts = l₂.accounts := by rw [cutUnbonding_frame hcu]
  subst hl₁
  exact (rewrites_setAccount l offender _).trans (rewrites_of_accounts_eq (h₃.trans h₂))

theorem rewrites_penalize {l l' : Ledger} {e : Evidence} {params : LedgerParams}
    {height : UInt64} {o : PenaltyOutcome} (h : penalize l e params height = .ok (l', o)) :
    l.Rewrites l' :=
  rewrites_applyPenalty (penalize_eq_ok.mp h).2

theorem rewrites_prepareBlock {prev l : Ledger} {height : UInt64} {evidence : List Evidence}
    {params : LedgerParams} {ps : List (Evidence × PenaltyOutcome)}
    (h : prepareBlock prev height evidence params = .ok (l, ps)) : prev.Rewrites l :=
  prepareBlock_induction prev.Rewrites (rewrites_beginBlock prev height)
    (fun _ _ _ _ hrw hpen => hrw.trans (rewrites_penalize hpen)) h

theorem rewrites_payCredit (l : Ledger) (credit : Option (Address × UInt64)) :
    l.Rewrites (l.payCredit credit) := by
  cases credit with
  | none => exact .refl l
  | some c => exact rewrites_setAccount l _ _

/-- A transaction writes its sender's account and the account it credits. -/
theorem rewrites_applyVerified {l l' : Ledger} {params : LedgerParams} {tx : Transaction}
    {r : Receipt} (h : (l.applyVerified params tx).run = .ok (.ok (l', r))) : l.Rewrites l' := by
  obtain ⟨next, credit, feePool, nonce, -, -, -, rfl, -⟩ := applyVerified_inv h
  have hsent := rewrites_setAccount l tx.sender { next with nonce := nonce }
  have hpaid := rewrites_payCredit (l.setAccount tx.sender { next with nonce := nonce }) credit
  exact (hsent.trans hpaid).trans (rewrites_of_accounts_eq (accounts_commitKind _ params tx tx.sender))

theorem rewrites_executeBlock {prev : Ledger} {height : UInt64} {proposer : Address}
    {txs : List Transaction} {evidence : List Evidence} {params : LedgerParams}
    {out : BlockOutcome}
    (h : (executeBlock prev height proposer txs evidence params).run = .ok (.ok out)) :
    prev.Rewrites out.ledger := by
  unfold executeBlock at h
  dsimp only at h
  split at h
  · nomatch h
  obtain ⟨_, _, h⟩ := Guarded.bind_eq_ok h
  obtain ⟨⟨working, penalties⟩, hprep, h⟩ := Guarded.bind_eq_ok h
  have hworking := rewrites_prepareBlock (Guarded.ofExcept_eq_ok hprep)
  obtain ⟨final, hfold, h⟩ := Guarded.bind_eq_ok h
  have hfinal := Guarded.foldlM_induction
    (fun acc : Ledger × GasMeter × List Receipt => prev.Rewrites acc.1) _
    (by
      rintro ⟨l₁, m, rs⟩ ⟨i, tx⟩ a' hrw hstep
      obtain ⟨_, l₂, _, -, happ, rfl⟩ := executeTx_eq_ok hstep
      exact hrw.trans (rewrites_applyVerified happ))
    _ _ final hworking hfold
  cases h
  exact hfinal.trans (rewrites_payFees _ _)

/-- The ledger of a block a validator accepts is its parent's with some accounts written. -/
theorem rewrites_verifyBlock {prev : Ledger} {b : Block} {params : LedgerParams}
    {out : BlockOutcome} (h : (verifyBlock prev b params).run = .ok (.ok out)) :
    prev.Rewrites out.ledger :=
  rewrites_executeBlock (verifyBlock_eq_ok h).1

/-! ## Genesis -/

theorem rewrites_creditGenesis {l l' : Ledger} {a : Address} {amount : UInt64}
    (h : l.creditGenesis a amount = .ok l') : l.Rewrites l' := by
  unfold creditGenesis at h
  obtain ⟨balance, -, h⟩ := Except.bind_eq_ok h
  cases h
  exact rewrites_setAccount _ _ _

theorem rewrites_bondGenesis {l l' : Ledger} {pk : PublicKey} {stake : UInt64}
    (h : l.bondGenesis pk stake = .ok l') : l.Rewrites l' := by
  unfold bondGenesis at h
  obtain ⟨staked, -, h⟩ := Except.bind_eq_ok h
  cases h
  split
  · exact rewrites_setAccount _ _ _
  · exact (rewrites_setAccount _ _ _).trans (rewrites_of_accounts_eq rfl)

end Ledger

theorem ChainConfig.genesisStep_eq_ok {r : Except LedgerError Ledger} {l : Ledger}
    (h : ChainConfig.genesisStep r = .ok l) : r = .ok l := by
  cases r with
  | error e => nomatch h
  | ok l' => cases h; rfl

open Ledger in
/-- The genesis ledger is the empty ledger with the genesis accounts and validators written. -/
theorem rewrites_genesisLedger {cfg : ChainConfig} {l : Ledger} (h : cfg.genesisLedger = .ok l) :
    ({} : Ledger).Rewrites l := by
  unfold ChainConfig.genesisLedger at h
  obtain ⟨l₀, haccounts, hvalidators⟩ := Except.bind_eq_ok h
  have h₀ := Except.foldlM_induction (fun l => ({} : Ledger).Rewrites l) _
    (by
      intro l₁ a l₂ hrw hstep
      obtain ⟨addr, -, hcredit⟩ := Except.bind_eq_ok hstep
      exact hrw.trans (rewrites_creditGenesis (ChainConfig.genesisStep_eq_ok hcredit)))
    _ _ _ (.refl _) haccounts
  exact Except.foldlM_induction (fun l => ({} : Ledger).Rewrites l) _
    (by
      intro l₁ v l₂ hrw hstep
      obtain ⟨pk, -, hstep⟩ := Except.bind_eq_ok hstep
      obtain ⟨l₃, hcredit, hbond⟩ := Except.bind_eq_ok hstep
      exact (hrw.trans (rewrites_creditGenesis (ChainConfig.genesisStep_eq_ok hcredit))).trans
        (rewrites_bondGenesis (ChainConfig.genesisStep_eq_ok hbond)))
    _ _ _ h₀ hvalidators

end StakeChain

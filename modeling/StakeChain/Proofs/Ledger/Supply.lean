import StakeChain.Proofs.KeyMap
import StakeChain.Proofs.Steps
import StakeChain.Ledger.Apply

/-!
# The value a ledger holds

`Ledger.supply` is the exact sum, in unbounded naturals, of every balance and self-stake, every
delegation, every unbonding entry and the fee pool; what penalties burn is kept apart in
`burned`.  Each table that holds value keeps one entry per key, so the sums over its values
move by exactly what an update replaces.

This file gives the algebra of the value tables (an account replaced, a delegation added or
taken back, an entry queued for unbonding) and from it the first conservation result:

* `applyVerified_supply`: a transaction that applies leaves the supply and the burned amount
  unchanged, whatever its kind, and keeps the shape of the tables.

A transaction's writes are read off once (`applyVerified_inv`), and its kind's rule once, in
exact arithmetic (`checkKind_exact`): what it takes from the sender's balance and self-stake, the
credit it pays to another account, and the room it checked.  What the rule takes in value
(`checkKind_spec`) follows: the fee, a credit to another account, and the amount it bonds into a
delegation or the unbonding queue.
-/

set_option autoImplicit false

namespace StakeChain

/-- Balance and self-stake: the value an account holds. -/
def Account.held (a : Account) : Nat := a.balance.toNat + a.staked.toNat

@[simp] theorem Account.held_default : ({} : Account).held = 0 := rfl

namespace Ledger

/-- Everything the accounts hold. -/
def accountsValue (m : KeyMap Address Account) : Nat := (m.values.map Account.held).sum

/-- Everything delegated to one validator. -/
def delegatorsValue (dels : KeyMap Address UInt64) : Nat := (dels.values.map UInt64.toNat).sum

/-- Everything in a delegation table. -/
def delegationsValue (d : KeyMap Address (KeyMap Address UInt64)) : Nat :=
  (d.values.map delegatorsValue).sum

/-- Everything waiting in an unbonding queue. -/
def unbondingValue (q : List UnbondingEntry) : Nat := (q.map fun e => e.amount.toNat).sum

/-- The exact value the ledger holds outside what was burned. -/
def supply (l : Ledger) : Nat :=
  accountsValue l.accounts + delegationsValue l.delegations + unbondingValue l.unbonding +
    l.feePool.toNat

/-- The value of the ledger, burned amount included, fits a word. -/
def Fits (l : Ledger) : Prop := l.supply + l.burned.toNat < UInt64.size

instance (l : Ledger) : Decidable l.Fits :=
  inferInstanceAs (Decidable (l.supply + l.burned.toNat < UInt64.size))

/-- The amount a delegation table records from `delegator` to `validator`. -/
def delegationIn (d : KeyMap Address (KeyMap Address UInt64)) (validator delegator : Address) :
    UInt64 :=
  ((d.get? validator).bind fun dels => dels.get? delegator).getD 0

theorem delegation_eq (l : Ledger) (validator delegator : Address) :
    l.delegation validator delegator = delegationIn l.delegations validator delegator := rfl

/-! ## Accounts -/

theorem account_eq (l : Ledger) (a : Address) : l.account a = (l.accounts.get? a).getD {} := rfl

theorem held_account (l : Ledger) (a : Address) :
    (l.account a).held = ((l.accounts.get? a).map Account.held).getD 0 := by
  rw [account_eq]
  cases l.accounts.get? a <;> rfl

theorem held_le_accountsValue (l : Ledger) (a : Address) :
    (l.account a).held ≤ accountsValue l.accounts := by
  rw [account_eq]
  cases h : l.accounts.get? a with
  | none => simp
  | some acct => exact KeyMap.le_sum_of_get? Account.held h

theorem account_setAccount (l : Ledger) (a b : Address) (acct : Account) :
    (l.setAccount a acct).account b = if b = a then acct else l.account b := by
  rw [account_eq, account_eq]
  simp only [setAccount, KeyMap.get?_insert]
  split <;> rfl

/-- Replacing an account moves the accounts' value by the new account less the old one. -/
theorem accountsValue_setAccount (l : Ledger) (a : Address) (acct : Account) :
    accountsValue (l.setAccount a acct).accounts + (l.account a).held =
      accountsValue l.accounts + acct.held := by
  rw [held_account]
  exact KeyMap.sum_insert l.accounts Account.held a acct

@[simp] theorem delegations_setAccount (l : Ledger) (a : Address) (acct : Account) :
    (l.setAccount a acct).delegations = l.delegations := rfl

@[simp] theorem unbonding_setAccount (l : Ledger) (a : Address) (acct : Account) :
    (l.setAccount a acct).unbonding = l.unbonding := rfl

@[simp] theorem burned_setAccount (l : Ledger) (a : Address) (acct : Account) :
    (l.setAccount a acct).burned = l.burned := rfl

@[simp] theorem feePool_setAccount (l : Ledger) (a : Address) (acct : Account) :
    (l.setAccount a acct).feePool = l.feePool := rfl

/-! ## Delegations -/

theorem delegatorsValue_of_isEmpty {dels : KeyMap Address UInt64} (h : dels.isEmpty = true) :
    delegatorsValue dels = 0 := by
  obtain ⟨l, _⟩ := dels
  cases l with
  | nil => rfl
  | cons e rest => cases h

theorem delegatorsValue_getD (d : KeyMap Address (KeyMap Address UInt64)) (v : Address) :
    ((d.get? v).map delegatorsValue).getD 0 = delegatorsValue (d.getD v .empty) := by
  rw [KeyMap.getD_eq]
  cases d.get? v <;> rfl

theorem toNat_getD (m : KeyMap Address UInt64) (k : Address) :
    ((m.get? k).map UInt64.toNat).getD 0 = (m.getD k 0).toNat := by
  rw [KeyMap.getD_eq]
  cases m.get? k <;> rfl

theorem delegationIn_eq (d : KeyMap Address (KeyMap Address UInt64)) (v s : Address) :
    delegationIn d v s = (d.getD v .empty).getD s 0 := by
  rw [delegationIn, KeyMap.getD_eq, KeyMap.getD_eq]
  cases d.get? v <;> rfl

/-- A validator's table put back, or dropped whole when it is empty, replaces the table's old
value by its new one. -/
theorem delegationsValue_put (d : KeyMap Address (KeyMap Address UInt64)) (v : Address)
    (dels : KeyMap Address UInt64) :
    delegationsValue (if dels.isEmpty then d.erase v else d.insert v dels) +
        ((d.get? v).map delegatorsValue).getD 0 =
      delegationsValue d + delegatorsValue dels := by
  split
  · rename_i hempty
    have := KeyMap.sum_erase d delegatorsValue v
    rw [delegatorsValue_of_isEmpty hempty]
    unfold delegationsValue
    omega
  · have := KeyMap.sum_insert d delegatorsValue v dels
    unfold delegationsValue
    omega

/-- Delegating adds the amount to the table's value. -/
theorem delegationsValue_addDelegation (d : KeyMap Address (KeyMap Address UInt64))
    (v s : Address) (amt : UInt64)
    (hfit : (delegationIn d v s).toNat + amt.toNat < UInt64.size) :
    delegationsValue (addDelegation d v s amt) = delegationsValue d + amt.toNat := by
  rw [delegationIn_eq] at hfit
  have hinner : delegatorsValue ((d.getD v .empty).insert s ((d.getD v .empty).getD s 0 + amt)) +
      ((d.getD v .empty).getD s 0).toNat =
      delegatorsValue (d.getD v .empty) + ((d.getD v .empty).getD s 0).toNat + amt.toNat := by
    have := KeyMap.sum_insert (d.getD v .empty) UInt64.toNat s
      ((d.getD v .empty).getD s 0 + amt)
    rw [Word.add_toNat_of_lt hfit, toNat_getD] at this
    unfold delegatorsValue
    omega
  have houter := KeyMap.sum_insert d delegatorsValue v
    ((d.getD v .empty).insert s ((d.getD v .empty).getD s 0 + amt))
  rw [delegatorsValue_getD] at houter
  unfold addDelegation delegationsValue
  dsimp only
  omega

/-- Taking back a recorded amount removes it from the table's value. -/
theorem delegationsValue_subDelegation (d : KeyMap Address (KeyMap Address UInt64))
    {v s : Address} {amt : UInt64}
    (hpos : 0 < amt.toNat) (hle : amt.toNat ≤ (delegationIn d v s).toNat) :
    delegationsValue (subDelegation d v s amt) + amt.toNat = delegationsValue d := by
  unfold delegationIn at hle
  cases hv : d.get? v with
  | none =>
    rw [hv] at hle
    simp at hle
    omega
  | some dels =>
    cases hs : dels.get? s with
    | none =>
      rw [hv] at hle
      simp [hs] at hle
      omega
    | some slot =>
      rw [hv] at hle
      simp only [Option.bind_some, hs, Option.getD_some] at hle
      have hsub : (slot - amt).toNat = slot.toNat - amt.toNat :=
        UInt64.toNat_sub_of_le _ _ (UInt64.le_iff_toNat_le.mpr hle)
      have hinner : delegatorsValue (if slot - amt = 0 then dels.erase s
          else dels.insert s (slot - amt)) + amt.toNat = delegatorsValue dels := by
        split
        · rename_i hzero
          have := KeyMap.sum_erase dels UInt64.toNat s
          have hz : (slot - amt).toNat = 0 := by rw [hzero]; rfl
          rw [hs] at this
          unfold delegatorsValue
          simp only [Option.map_some, Option.getD_some] at this
          omega
        · have := KeyMap.sum_insert dels UInt64.toNat s (slot - amt)
          rw [hs] at this
          unfold delegatorsValue
          simp only [Option.map_some, Option.getD_some] at this
          omega
      unfold subDelegation
      rw [hv]
      simp only [hs]
      generalize (if slot - amt = 0 then dels.erase s else dels.insert s (slot - amt)) = dels'
        at hinner ⊢
      have houter := delegationsValue_put d v dels'
      rw [hv] at houter
      simp only [Option.map_some, Option.getD_some] at houter
      omega

/-! ## Unbonding -/

@[simp] theorem delegations_startUnbonding (l : Ledger) (params : LedgerParams)
    (address validator : Address) (amount : UInt64) :
    (l.startUnbonding params address validator amount).delegations = l.delegations := rfl

theorem unbondingValue_startUnbonding (l : Ledger) (params : LedgerParams)
    (address validator : Address) (amount : UInt64) :
    unbondingValue (l.startUnbonding params address validator amount).unbonding =
      unbondingValue l.unbonding + amount.toNat := by
  simp [startUnbonding, unbondingValue]

/-! ## The rule of a transaction's kind -/

/-- The amount a kind bonds out of the sender's account: self-stake sent to the unbonding
queue, or balance delegated. -/
def bonded : TxKind → Nat
  | .unstake amount | .delegate _ amount => amount.toNat
  | _ => 0

/-- The amount a kind's rule pays to another account. -/
def creditValue : Option (Address × UInt64) → Nat
  | some (_, amount) => amount.toNat
  | none => 0

/-- What a kind's rule checked about the delegation it touches: room to add, or enough to take
back. -/
def DelegationRoom (d : KeyMap Address (KeyMap Address UInt64)) (sender : Address) :
    TxKind → Prop
  | .delegate validator amount =>
    (delegationIn d validator sender).toNat + amount.toNat < UInt64.size
  | .undelegate validator amount =>
    0 < amount.toNat ∧ amount.toNat ≤ (delegationIn d validator sender).toNat
  | _ => True

/-- What a kind's rule takes from the sender's balance: the fee, and the amount it sends to
another account, stakes or delegates. -/
def balanceTaken (sender : Address) (fee : UInt64) : TxKind → Nat
  | .transfer dest amount => if dest = sender then fee.toNat else amount.toNat + fee.toNat
  | .stake amount | .delegate _ amount | .createValidator amount _ => amount.toNat + fee.toNat
  | .unstake _ | .undelegate .. | .editValidator _ => fee.toNat

/-- What a kind's rule adds to the sender's self-stake. -/
def stakeAdded : TxKind → Nat
  | .stake amount | .createValidator amount _ => amount.toNat
  | _ => 0

/-- What a kind's rule takes from the sender's self-stake. -/
def stakeTaken : TxKind → Nat
  | .unstake amount => amount.toNat
  | _ => 0

/-- The credit a kind's rule pays: a transfer's amount, to a recipient other than the sender. -/
def creditOf (sender : Address) : TxKind → Option (Address × UInt64)
  | .transfer dest amount => if dest = sender then none else some (dest, amount)
  | _ => none

theorem orOverflow_eq_ok {v : Option UInt64} {x : UInt64} (h : orOverflow v = .ok x) :
    v = some x := by
  cases v with
  | none => nomatch h
  | some y =>
    cases h
    rfl

theorem debit_eq_ok {acct next : Account} {needed : UInt64} (h : debit acct needed = .ok next) :
    needed ≤ acct.balance ∧ next = { acct with balance := acct.balance - needed } := by
  unfold debit at h
  split at h
  · nomatch h
  · rename_i hlt
    cases h
    exact ⟨UInt64.not_lt.mp hlt, rfl⟩

/-- **The rule of each kind, in exact arithmetic.**  The sender's next balance and self-stake
differ from the old ones by exactly what the kind takes and adds: no difference goes below zero
and no sum wraps.  The nonce is left for the caller; the credit is a transfer to another
account; the recipient's balance and the delegation the kind touches have room for what is
added, or hold what is taken back. -/
theorem checkKind_exact {l : Ledger} {params : LedgerParams} {tx : Transaction}
    {sender : Address} {acct next : Account} {credit : Option (Address × UInt64)}
    (h : l.checkKind params tx sender acct = .ok (next, credit)) :
    next.balance.toNat + balanceTaken sender tx.fee tx.kind = acct.balance.toNat ∧
    next.staked.toNat + stakeTaken tx.kind = acct.staked.toNat + stakeAdded tx.kind ∧
    next.nonce = acct.nonce ∧ credit = creditOf sender tx.kind ∧
    (∀ dest amount, credit = some (dest, amount) →
      (l.balance dest).toNat + amount.toNat < UInt64.size) ∧
    DelegationRoom l.delegations sender tx.kind := by
  unfold checkKind at h
  cases hk : tx.kind with
  | transfer dest amount =>
    rw [hk] at h
    dsimp only at h
    obtain ⟨needed, hneeded, h⟩ := Except.bind_eq_ok h
    obtain ⟨debited, hdebit, h⟩ := Except.bind_eq_ok h
    have hn := Word.add?_toNat (orOverflow_eq_ok hneeded)
    obtain ⟨hle, rfl⟩ := debit_eq_ok hdebit
    have hsub := Word.sub_toNat_add hle
    split at h
    · -- paid to oneself: the amount comes back to the balance it left
      rename_i hself
      cases h
      have hback : (acct.balance - needed + amount).toNat =
          (acct.balance - needed).toNat + amount.toNat :=
        Word.add_toNat_of_lt (by have := acct.balance.toNat_lt_size; omega)
      refine ⟨?_, by simp [stakeTaken, stakeAdded], rfl, by simp [creditOf, hself],
        (fun _ _ hc => nomatch hc), trivial⟩
      simp only [balanceTaken, if_pos hself]
      omega
    · rename_i hself
      obtain ⟨_, hroom, h⟩ := Except.bind_eq_ok h
      cases h
      refine ⟨?_, by simp [stakeTaken, stakeAdded], rfl, by simp [creditOf, hself],
        fun d a hc => ?_, trivial⟩
      · simp only [balanceTaken, if_neg hself]
        omega
      · cases hc
        exact Word.lt_of_add?_eq_some (orOverflow_eq_ok hroom)
  | stake amount =>
    rw [hk] at h
    dsimp only at h
    split at h
    · nomatch h
    obtain ⟨needed, hneeded, h⟩ := Except.bind_eq_ok h
    obtain ⟨debited, hdebit, h⟩ := Except.bind_eq_ok h
    obtain ⟨staked, hstaked, h⟩ := Except.bind_eq_ok h
    cases h
    have hn := Word.add?_toNat (orOverflow_eq_ok hneeded)
    have hs := Word.add?_toNat (orOverflow_eq_ok hstaked)
    obtain ⟨hle, rfl⟩ := debit_eq_ok hdebit
    have hsub := Word.sub_toNat_add hle
    refine ⟨?_, ?_, rfl, rfl, (fun _ _ hc => nomatch hc), trivial⟩
    · simp only [balanceTaken]
      omega
    · dsimp only [stakeTaken, stakeAdded] at hs ⊢
      omega
  | unstake amount =>
    rw [hk] at h
    dsimp only at h
    split at h
    · nomatch h
    split at h
    · nomatch h
    split at h
    · nomatch h
    rename_i hfee hstake
    cases h
    have h₁ := Word.sub_toNat_add (UInt64.not_lt.mp hfee)
    have h₂ := Word.sub_toNat_add (UInt64.not_lt.mp hstake)
    refine ⟨?_, ?_, rfl, rfl, (fun _ _ hc => nomatch hc), trivial⟩
    · simp only [balanceTaken]
      omega
    · simp only [stakeTaken, stakeAdded]
      omega
  | delegate validator amount =>
    rw [hk] at h
    dsimp only at h
    split at h
    · nomatch h
    split at h
    · nomatch h
    obtain ⟨needed, hneeded, h⟩ := Except.bind_eq_ok h
    split at h
    · nomatch h
    rename_i hfunds
    obtain ⟨_, hroom, h⟩ := Except.bind_eq_ok h
    cases h
    have hn := Word.add?_toNat (orOverflow_eq_ok hneeded)
    have hsub := Word.sub_toNat_add (UInt64.not_lt.mp hfunds)
    refine ⟨?_, by simp [stakeTaken, stakeAdded], rfl, rfl, (fun _ _ hc => nomatch hc), ?_⟩
    · simp only [balanceTaken]
      omega
    · exact Word.lt_of_add?_eq_some (orOverflow_eq_ok hroom)
  | undelegate validator amount =>
    rw [hk] at h
    dsimp only at h
    split at h
    · nomatch h
    split at h
    · nomatch h
    split at h
    · nomatch h
    rename_i hzero hfee hdel
    cases h
    have hsub := Word.sub_toNat_add (UInt64.not_lt.mp hfee)
    refine ⟨?_, by simp [stakeTaken, stakeAdded], rfl, rfl, (fun _ _ hc => nomatch hc), ?_, ?_⟩
    · simp only [balanceTaken]
      omega
    · have : amount.toNat ≠ 0 := fun h0 => hzero (UInt64.toNat_inj.mp h0)
      omega
    · exact UInt64.le_iff_toNat_le.mp (UInt64.not_lt.mp hdel)
  | createValidator amount bps =>
    rw [hk] at h
    dsimp only at h
    split at h
    · nomatch h
    split at h
    · nomatch h
    split at h
    · nomatch h
    obtain ⟨needed, hneeded, h⟩ := Except.bind_eq_ok h
    obtain ⟨debited, hdebit, h⟩ := Except.bind_eq_ok h
    obtain ⟨staked, hstaked, h⟩ := Except.bind_eq_ok h
    cases h
    have hn := Word.add?_toNat (orOverflow_eq_ok hneeded)
    have hs := Word.add?_toNat (orOverflow_eq_ok hstaked)
    obtain ⟨hle, rfl⟩ := debit_eq_ok hdebit
    have hsub := Word.sub_toNat_add hle
    refine ⟨?_, ?_, rfl, rfl, (fun _ _ hc => nomatch hc), trivial⟩
    · simp only [balanceTaken]
      omega
    · dsimp only [stakeTaken, stakeAdded] at hs ⊢
      omega
  | editValidator bps =>
    rw [hk] at h
    dsimp only at h
    split at h
    · nomatch h
    split at h
    · nomatch h
    obtain ⟨debited, hdebit, h⟩ := Except.bind_eq_ok h
    cases h
    obtain ⟨hle, rfl⟩ := debit_eq_ok hdebit
    have hsub := Word.sub_toNat_add hle
    refine ⟨?_, by simp [stakeTaken, stakeAdded], rfl, rfl, (fun _ _ hc => nomatch hc), trivial⟩
    simp only [balanceTaken]
    omega

/-- What a kind's rule takes from the sender: the fee, a credit to another account and the
amount it bonds, and nothing else; the nonce is left for the caller to advance. -/
theorem checkKind_spec {l : Ledger} {params : LedgerParams} {tx : Transaction}
    {sender : Address} {acct next : Account} {credit : Option (Address × UInt64)}
    (h : l.checkKind params tx sender acct = .ok (next, credit)) :
    acct.held = next.held + tx.fee.toNat + creditValue credit + bonded tx.kind ∧
    next.nonce = acct.nonce ∧
    (∀ dest amount, credit = some (dest, amount) →
      dest ≠ sender ∧ (l.balance dest).toNat + amount.toNat < UInt64.size) ∧
    DelegationRoom l.delegations sender tx.kind := by
  obtain ⟨hbal, hstake, hnonce, hcredit, hroom, hdel⟩ := checkKind_exact h
  refine ⟨?_, hnonce, fun dest amount hc => ⟨?_, hroom dest amount hc⟩, hdel⟩
  · -- what leaves the balance and the stake is the fee, the credit and the bond
    subst hcredit
    simp only [Account.held]
    cases hk : tx.kind with
    | transfer dest amount =>
      rw [hk] at hbal hstake
      by_cases hself : dest = sender <;>
        simp only [balanceTaken, stakeTaken, stakeAdded, creditOf, creditValue, bonded, hself,
          if_true, if_false] at hbal hstake ⊢ <;> omega
    | _ =>
      rw [hk] at hbal hstake
      simp only [balanceTaken, stakeTaken, stakeAdded, creditOf, creditValue, bonded]
        at hbal hstake ⊢
      omega
  · rw [hcredit] at hc
    cases hk : tx.kind with
    | transfer d a =>
      rw [hk] at hc
      by_cases hself : d = sender
      · simp [creditOf, hself] at hc
      · simp only [creditOf, if_neg hself, Option.some.injEq, Prod.mk.injEq] at hc
        rw [← hc.1]
        exact hself
    | _ => simp [hk, creditOf] at hc

/-! ## The writes of a transaction -/

/-- The credit of a transfer to another account, as the transaction writes it. -/
def payCredit (l : Ledger) : Option (Address × UInt64) → Ledger
  | some (dest, amount) =>
    let r := l.account dest
    l.setAccount dest { r with balance := r.balance + amount }
  | none => l

@[simp] theorem delegations_payCredit (l : Ledger) (credit : Option (Address × UInt64)) :
    (l.payCredit credit).delegations = l.delegations := by
  cases credit <;> rfl

@[simp] theorem unbonding_payCredit (l : Ledger) (credit : Option (Address × UInt64)) :
    (l.payCredit credit).unbonding = l.unbonding := by
  cases credit <;> rfl

@[simp] theorem burned_payCredit (l : Ledger) (credit : Option (Address × UInt64)) :
    (l.payCredit credit).burned = l.burned := by
  cases credit <;> rfl

theorem accountsValue_payCredit (l : Ledger) (credit : Option (Address × UInt64))
    (hfit : ∀ dest amount, credit = some (dest, amount) →
      (l.account dest).balance.toNat + amount.toNat < UInt64.size) :
    accountsValue (l.payCredit credit).accounts = accountsValue l.accounts + creditValue credit := by
  cases credit with
  | none => rfl
  | some c =>
    obtain ⟨dest, amount⟩ := c
    have hback := Word.add_toNat_of_lt (hfit dest amount rfl)
    have := accountsValue_setAccount l dest
      { l.account dest with balance := (l.account dest).balance + amount }
    simp only [Account.held, hback] at this
    simp only [payCredit, creditValue] at this ⊢
    omega

/-- The writes of a transaction's kind leave the accounts, the fee pool and the burned amount
alone; what the kind bonds arrives in the delegations or the unbonding queue. -/
theorem commitKind_value (l : Ledger) (params : LedgerParams) (tx : Transaction)
    (sender : Address) (hroom : DelegationRoom l.delegations sender tx.kind) :
    (l.commitKind params tx sender).accounts = l.accounts ∧
    (l.commitKind params tx sender).feePool = l.feePool ∧
    (l.commitKind params tx sender).burned = l.burned ∧
    delegationsValue (l.commitKind params tx sender).delegations +
        unbondingValue (l.commitKind params tx sender).unbonding =
      delegationsValue l.delegations + unbondingValue l.unbonding + bonded tx.kind := by
  unfold commitKind
  cases hk : tx.kind with
  | transfer dest amount => exact ⟨rfl, rfl, rfl, rfl⟩
  | stake amount =>
    dsimp only
    split <;> exact ⟨rfl, rfl, rfl, rfl⟩
  | unstake amount =>
    refine ⟨rfl, rfl, rfl, ?_⟩
    dsimp only
    rw [unbondingValue_startUnbonding, delegations_startUnbonding]
    simp only [bonded]
    omega
  | delegate validator amount =>
    rw [hk] at hroom
    refine ⟨rfl, rfl, rfl, ?_⟩
    dsimp only
    rw [delegationsValue_addDelegation _ _ _ _ hroom]
    simp only [bonded]
    omega
  | undelegate validator amount =>
    rw [hk] at hroom
    obtain ⟨hpos, hle⟩ := hroom
    refine ⟨rfl, rfl, rfl, ?_⟩
    dsimp only
    rw [unbondingValue_startUnbonding, delegations_startUnbonding]
    have := delegationsValue_subDelegation _ hpos hle
    simp only [bonded]
    omega
  | createValidator amount bps => exact ⟨rfl, rfl, rfl, rfl⟩
  | editValidator bps => exact ⟨rfl, rfl, rfl, rfl⟩

theorem supply_commitKind (l : Ledger) (params : LedgerParams) (tx : Transaction)
    (sender : Address) (hroom : DelegationRoom l.delegations sender tx.kind) :
    (l.commitKind params tx sender).supply = l.supply + bonded tx.kind ∧
    (l.commitKind params tx sender).burned = l.burned := by
  obtain ⟨hacc, hfp, hburn, hval⟩ := commitKind_value l params tx sender hroom
  refine ⟨?_, hburn⟩
  unfold supply
  rw [hacc, hfp]
  omega

/-- What a transaction that applies has written: its kind's rule, the fee added to the pool and
the advanced nonce are all it took, and the new ledger is the sender's account replaced, the
credit paid, the pool set and the kind's writes made. -/
theorem applyVerified_inv {l : Ledger} {params : LedgerParams} {tx : Transaction} {l' : Ledger}
    {r : Receipt} (h : (l.applyVerified params tx).run = .ok (.ok (l', r))) :
    ∃ next credit feePool nonce,
      l.checkKind params tx tx.sender (l.account tx.sender) = .ok (next, credit) ∧
      Word.add? l.feePool tx.fee = some feePool ∧
      Word.addStrict next.nonce 1 = .ok nonce ∧
      l' = ({ (l.setAccount tx.sender { next with nonce := nonce }).payCredit credit with
        feePool := feePool }).commitKind params tx tx.sender ∧
      tx.nonce = (l.account tx.sender).nonce ∧ r = ⟨tx.hash, params.gas.cost tx, tx.fee⟩ := by
  unfold applyVerified at h
  dsimp only at h
  split at h
  · nomatch h
  split at h
  · nomatch h
  rename_i hnonce
  split at h
  · nomatch h
  cases hk : l.checkKind params tx tx.sender (l.account tx.sender) with
  | error e =>
    rw [hk] at h
    nomatch h
  | ok p =>
    obtain ⟨next, credit⟩ := p
    cases hf : Word.add? l.feePool tx.fee with
    | none =>
      rw [hk, hf] at h
      nomatch h
    | some fp =>
      cases hn : Word.addStrict next.nonce 1 with
      | error e =>
        simp only [hk, hf, orOverflow, Guarded.ofExcept_ok_bind, hn] at h
        nomatch h
      | ok n =>
        simp only [hk, hf, orOverflow, Guarded.ofExcept_ok_bind, hn, Guarded.ofAbort_ok_bind] at h
        injection h with h
        injection h with h
        injection h with hl hr
        exact ⟨next, credit, fp, n, rfl, rfl, hn, hl.symm, not_not.mp hnonce, hr.symm⟩

/-- A transaction that applies keeps the value of the ledger and its burned amount, whatever
its kind. -/
theorem applyVerified_supply {l : Ledger} {params : LedgerParams} {tx : Transaction}
    {l' : Ledger} {r : Receipt} (h : (l.applyVerified params tx).run = .ok (.ok (l', r))) :
    l'.supply = l.supply ∧ l'.burned = l.burned := by
  obtain ⟨next, credit, feePool, nonce, hk, hfee, -, hl', -⟩ := applyVerified_inv h
  obtain ⟨hheld, -, hcredit, hroom⟩ := checkKind_spec hk
  have hpool := Word.add?_toNat hfee
  have h₁ := accountsValue_setAccount l tx.sender { next with nonce := nonce }
  -- the credit goes to another account, whose balance was checked to have room
  have h₂ := accountsValue_payCredit (l.setAccount tx.sender { next with nonce := nonce }) credit (by
    intro dest amount hc
    obtain ⟨hne, hfit⟩ := hcredit dest amount hc
    rw [account_setAccount, if_neg hne]
    exact hfit)
  obtain ⟨l₃, hl₃⟩ : ∃ l₃ : Ledger, l₃ = { (l.setAccount tx.sender
      { next with nonce := nonce }).payCredit credit with feePool := feePool } := ⟨_, rfl⟩
  rw [← hl₃] at hl'
  have hdel₃ : l₃.delegations = l.delegations := by
    rw [hl₃]
    simp
  have hs₃ : l₃.supply = accountsValue ((l.setAccount tx.sender
      { next with nonce := nonce }).payCredit credit).accounts + delegationsValue l.delegations +
      unbondingValue l.unbonding + feePool.toNat := by
    rw [hl₃]
    simp [supply]
  have hb₃ : l₃.burned = l.burned := by
    rw [hl₃]
    simp
  obtain ⟨hs₄, hb₄⟩ := supply_commitKind l₃ params tx tx.sender (hdel₃ ▸ hroom)
  subst hl'
  refine ⟨?_, hb₄.trans hb₃⟩
  rw [hs₄, hs₃]
  simp only [Account.held] at h₁ hheld
  unfold supply
  omega

theorem applyTransaction_eq_ok {l : Ledger} {params : LedgerParams} {tx : Transaction}
    {x : Ledger × Receipt} (h : (l.applyTransaction params tx).run = .ok (.ok x)) :
    tx.verifySignature = .ok () ∧ (l.applyVerified params tx).run = .ok (.ok x) := by
  unfold applyTransaction at h
  split at h
  · nomatch h
  · rename_i hsig
    refine ⟨?_, h⟩
    cases hv : tx.verifySignature with
    | ok u => rfl
    | error e => exact absurd hv (hsig e)

end Ledger

end StakeChain

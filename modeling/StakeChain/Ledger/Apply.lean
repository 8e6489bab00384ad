import StakeChain.Ledger.Basic

/-!
# Applying transactions

A transaction is checked whole before anything is written: chain id, nonce, gas limit, then the
rule of its kind, then room in the fee pool.  Only then are the sender's account, a recipient's
balance, the fee pool and the kind's tables updated and the sender's nonce advanced.

* `Ledger.creditGenesis`, `Ledger.bondGenesis`: genesis funding and bonding;
* `Ledger.checkKind`: the rule of each kind, giving the sender's next account and a credit;
* `Ledger.applyVerified`: checks and commit, for a transaction whose signature was checked;
* `Ledger.applyTransaction`: the signature check, then `applyVerified`.

Advancing a nonce that is already the largest word stops the run (`Abort`); every other sum is
checked and refused with `LedgerError.overflow`.
-/

set_option autoImplicit false

namespace StakeChain

namespace Ledger

/-- `v`, or an overflow error. -/
def orOverflow (v : Option UInt64) : Except LedgerError UInt64 :=
  match v with
  | some x => .ok x
  | none => .error .overflow

/-- Genesis funding: adds to an account's balance, creating the account. -/
def creditGenesis (l : Ledger) (a : Address) (amount : UInt64) : Except LedgerError Ledger := do
  let acct := l.account a
  let balance ← orOverflow (Word.add? acct.balance amount)
  pure (l.setAccount a { acct with balance := balance })

/-- Genesis bonding: adds to the key's self-stake and registers it as a validator if new. -/
def bondGenesis (l : Ledger) (pk : PublicKey) (stake : UInt64) : Except LedgerError Ledger := do
  let a := pk.address
  let acct := l.account a
  let staked ← orOverflow (Word.add? acct.staked stake)
  let l := l.setAccount a { acct with staked := staked }
  pure (if l.validators.contains a then l
    else { l with validators := l.validators.insert a { publicKey := pk } })

/-- The sender's account after paying `needed`, or the shortfall. -/
def debit (acct : Account) (needed : UInt64) : Except LedgerError Account :=
  if acct.balance < needed then .error (.insufficientFunds needed acct.balance)
  else .ok { acct with balance := acct.balance - needed }

/-- The rule of a transaction's kind: the sender's next account and a credit to another
account, or the first rule that fails. -/
def checkKind (l : Ledger) (params : LedgerParams) (tx : Transaction) (sender : Address)
    (acct : Account) : Except LedgerError (Account × Option (Address × UInt64)) :=
  match tx.kind with
  | .transfer dest amount => do
    let needed ← orOverflow (Word.add? amount tx.fee)
    let next ← debit acct needed
    if dest = sender then pure ({ next with balance := next.balance + amount }, none)
    else
      let _ ← orOverflow (Word.add? (l.balance dest) amount)
      pure (next, some (dest, amount))
  | .stake amount => do
    if amount = 0 then throw .zeroAmount
    let needed ← orOverflow (Word.add? amount tx.fee)
    let next ← debit acct needed
    let staked ← orOverflow (Word.add? next.staked amount)
    pure ({ next with staked := staked }, none)
  | .unstake amount => do
    if amount = 0 then throw .zeroAmount
    if acct.balance < tx.fee then throw (.insufficientFunds tx.fee acct.balance)
    if acct.staked < amount then throw (.insufficientStake amount acct.staked)
    pure ({ acct with balance := acct.balance - tx.fee, staked := acct.staked - amount }, none)
  | .delegate validator amount => do
    if amount = 0 then throw .zeroAmount
    if !l.isValidator validator then throw (.unknownValidator validator)
    let needed ← orOverflow (Word.add? amount tx.fee)
    if acct.balance < needed then throw (.insufficientFunds needed acct.balance)
    let _ ← orOverflow (Word.add? (l.delegation validator sender) amount)
    pure ({ acct with balance := acct.balance - needed }, none)
  | .undelegate validator amount => do
    if amount = 0 then throw .zeroAmount
    if acct.balance < tx.fee then throw (.insufficientFunds tx.fee acct.balance)
    let delegated := l.delegation validator sender
    if delegated < amount then throw (.insufficientDelegation amount delegated)
    pure ({ acct with balance := acct.balance - tx.fee }, none)
  | .createValidator amount bps => do
    if l.isValidator sender then throw (.validatorExists sender)
    if bps > maxBps then throw (.invalidCommission bps)
    let minimum := max params.minValidatorStake 1
    if amount < minimum then throw (.stakeBelowMinimum minimum amount)
    let needed ← orOverflow (Word.add? amount tx.fee)
    let next ← debit acct needed
    let staked ← orOverflow (Word.add? next.staked amount)
    pure ({ next with staked := staked }, none)
  | .editValidator bps => do
    if !l.isValidator sender then throw (.unknownValidator sender)
    if bps > maxBps then throw (.invalidCommission bps)
    let next ← debit acct tx.fee
    pure (next, none)

/-- The ledger with an unbonding entry created now and released after the unbonding period. -/
def startUnbonding (l : Ledger) (params : LedgerParams) (address validator : Address)
    (amount : UInt64) : Ledger :=
  { l with unbonding := l.unbonding ++
      [⟨address, validator, amount, l.height, Word.addSat l.height params.unbondingPeriod⟩] }

/-- The delegation table with `amount` more from `delegator` to `validator`. -/
def addDelegation (d : KeyMap Address (KeyMap Address UInt64)) (validator delegator : Address)
    (amount : UInt64) : KeyMap Address (KeyMap Address UInt64) :=
  let dels := d.getD validator .empty
  d.insert validator (dels.insert delegator (dels.getD delegator 0 + amount))

/-- The delegation table with `amount` less from `delegator` to `validator`; an entry that
reaches zero is removed, and so is a validator left with no delegators. -/
def subDelegation (d : KeyMap Address (KeyMap Address UInt64)) (validator delegator : Address)
    (amount : UInt64) : KeyMap Address (KeyMap Address UInt64) :=
  match d.get? validator with
  | none => d
  | some dels =>
    let dels := match dels.get? delegator with
      | some slot => if slot - amount = 0 then dels.erase delegator
        else dels.insert delegator (slot - amount)
      | none => dels
    if dels.isEmpty then d.erase validator else d.insert validator dels

/-- The writes of a checked transaction's kind. -/
def commitKind (l : Ledger) (params : LedgerParams) (tx : Transaction) (sender : Address) :
    Ledger :=
  match tx.kind with
  | .stake _ =>
    if l.validators.contains sender then l
    else { l with validators := l.validators.insert sender { publicKey := tx.senderKey } }
  | .unstake amount => l.startUnbonding params sender sender amount
  | .delegate validator amount =>
    { l with delegations := addDelegation l.delegations validator sender amount }
  | .undelegate validator amount =>
    let l := { l with delegations := subDelegation l.delegations validator sender amount }
    l.startUnbonding params sender validator amount
  | .createValidator _ bps =>
    { l with validators :=
        l.validators.insert sender { publicKey := tx.senderKey, commissionBps := bps } }
  | .editValidator bps =>
    { l with validators := l.validators.modify sender fun r => { r with commissionBps := bps } }
  | .transfer .. => l

/-- Applies a transaction whose signature was already checked. -/
def applyVerified (l : Ledger) (params : LedgerParams) (tx : Transaction) :
    Guarded LedgerError (Ledger × Receipt) := do
  if tx.chainId ≠ params.chainId then throw (.wrongChain params.chainId tx.chainId)
  let sender := tx.sender
  let acct := l.account sender
  if tx.nonce ≠ acct.nonce then throw (.nonceMismatch acct.nonce tx.nonce)
  let gas := params.gas.cost tx
  if tx.gasLimit < gas then throw (.insufficientGas gas tx.gasLimit)
  let (next, credit) ← Guarded.ofExcept (l.checkKind params tx sender acct)
  let feePool ← Guarded.ofExcept (orOverflow (Word.add? l.feePool tx.fee))
  let nonce ← Guarded.ofAbort (Word.addStrict next.nonce 1)
  let l := l.setAccount sender { next with nonce := nonce }
  let l := match credit with
    | some (dest, amount) =>
      let r := l.account dest
      l.setAccount dest { r with balance := r.balance + amount }
    | none => l
  let l := { l with feePool := feePool }
  pure (l.commitKind params tx sender, ⟨tx.hash, gas, tx.fee⟩)

/-- Checks the signature, then applies the transaction. -/
def applyTransaction (l : Ledger) (params : LedgerParams) (tx : Transaction) :
    Guarded LedgerError (Ledger × Receipt) := do
  if tx.verifySignature matches .error _ then throw .invalidSignature
  l.applyVerified params tx

end Ledger

end StakeChain

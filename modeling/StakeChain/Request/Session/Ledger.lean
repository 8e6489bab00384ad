import StakeChain.Request.Session.Basic

/-!
# Ledger steps of a session

Genesis credits and bonds, transactions, block beginnings and fee payouts, penalties, views of
accounts and validators, and named snapshots of the ledger.
-/

set_option autoImplicit false

namespace StakeChain.Request.Step

/-- A receipt. -/
def receiptJson (r : Receipt) : Json :=
  .obj [("tx_hash", digestJson r.txHash), ("gas_used", .ofWord r.gasUsed), ("fee", .ofWord r.fee)]

/-- The snapshot saved under `name`. -/
def snapshot (name : String) : Step Ledger := do
  match (← get).snapshots.find? (fun p => p.1 == name) with
  | some (_, l) => pure l
  | none => throw (.badInput "unknown snapshot")

/-- `credit {addr, amount}`: a genesis credit. -/
def credit (j : Json) : Step Json := do
  let a ← read (readAddress (j.field "addr"))
  let amount ← read (wordAt j "amount")
  setLedger (← except LedgerError.problem ((← get).ledger.creditGenesis a amount))
  pure okJson

/-- `bond {key|pk, stake}`: a genesis validator bond. -/
def bond (j : Json) : Step Json := do
  let pk ← if (j.field "key").isNull then read (readPublicKey (j.field "pk"))
    else Keypair.publicKey <$> read (readKeypair (j.field "key"))
  let stake ← read (wordAt j "stake")
  setLedger (← except LedgerError.problem ((← get).ledger.bondGenesis pk stake))
  pure okJson

/-- `apply {tx}` checks the signature; `apply_verified {tx}` does not. -/
def apply (checkSignature : Bool) (j : Json) : Step Json := do
  let tx ← read (readTx (← scope) (j.field "tx"))
  let s ← get
  let run := if checkSignature then s.ledger.applyTransaction s.params tx
    else s.ledger.applyVerified s.params tx
  let (l, r) ← guarded LedgerError.problem run
  setLedger l
  pure (receiptJson r)

/-- `begin_block {height}`. -/
def beginBlock (j : Json) : Step Json := do
  let h ← read (wordAt j "height")
  setLedger ((← get).ledger.beginBlock h)
  pure okJson

/-- `pay_fees {proposer}`. -/
def payFees (j : Json) : Step Json := do
  let p ← read (readAddress (j.field "proposer"))
  let (l, fees) := (← get).ledger.payFees p
  setLedger l
  pure (.obj [("fees", .ofWord fees)])

/-- `penalty {evidence_id, offender, kind, offense_height, height}`. -/
def penalty (j : Json) : Step Json := do
  let id ← read (readDigest (← scope) (j.field "evidence_id"))
  let offender ← read (readAddress (j.field "offender"))
  let kind ← read (readEvidenceKind (j.field "kind"))
  let oh ← read (wordAt j "offense_height")
  let h ← read (wordAt j "height")
  let s ← get
  let (l, o) ← except LedgerError.problem (s.ledger.applyPenalty id offender kind oh s.params h)
  setLedger l
  pure (penaltyJson o)

/-- `validator_set {height, min_stake}`. -/
def validatorSet (j : Json) : Step Json := do
  let s ← get
  let h ← read (wordAt j "height")
  let m ← read (wordAtOr j "min_stake" s.params.minValidatorStake)
  pure (vsetJson (s.ledger.validatorSet h m))

/-- `account {addr}`. -/
def account (j : Json) : Step Json := do
  let a ← read (readAddress (j.field "addr"))
  let l := (← get).ledger
  pure (.obj [("balance", .ofWord (l.balance a)), ("staked", .ofWord (l.staked a)),
    ("nonce", .ofWord (l.nonce a)), ("voting_power", .ofWord (l.votingPower a)),
    ("delegated_to", .ofWord (l.delegatedTo a)), ("is_validator", .bool (l.isValidator a))])

/-- `delegation {validator, delegator}`. -/
def delegation (j : Json) : Step Json := do
  let v ← read (readAddress (j.field "validator"))
  let d ← read (readAddress (j.field "delegator"))
  pure (.obj [("amount", .ofWord ((← get).ledger.delegation v d))])

/-- `dump`: the whole ledger. -/
def dump : Step Json := do pure (ledgerJson (← get).ledger)

/-- `snapshot {name}`: sets the ledger aside. -/
def saveSnapshot (j : Json) : Step Json := do
  let name ← read (readString (j.field "name"))
  modify fun s => { s with snapshots := (name, s.ledger) :: s.snapshots }
  pure okJson

/-- `restore {name}`: puts a snapshot back. -/
def restore (j : Json) : Step Json := do
  let l ← snapshot (← read (readString (j.field "name")))
  setLedger l
  pure okJson

/-- `changed_since {name}`: the accounts that differ from the snapshot's. -/
def changedSince (j : Json) : Step Json := do
  let base ← snapshot (← read (readString (j.field "name")))
  pure (.arr (((← get).ledger.changedAccounts base).map fun (a, acct) => accountJson a acct))

/-- `equals {name}`: whether the ledger equals the snapshot. -/
def equals (j : Json) : Step Json := do
  let base ← snapshot (← read (readString (j.field "name")))
  pure (.obj [("equal", .bool (decide ((← get).ledger = base)))])

end StakeChain.Request.Step

import StakeChain.Evidence.Basic
import StakeChain.Data.KeyMap
import StakeChain.Gas

/-!
# The ledger's state

Accounts hold a spendable balance, a self-stake and a nonce.  Beside them the ledger keeps the
validator records, the delegations (validator, then delegator, to amount; empty entries are
removed), the unbonding queue, the fee pool, the amount burned by penalties, and the evidence
and offenses already punished.

* `Ledger.account`, `Ledger.delegation`, `Ledger.delegatedTo`, `Ledger.votingPower`: views;
* `LedgerError`: why a transaction or penalty is refused, with its text;
* `LedgerParams`: chain id, gas schedule, unbonding period, slash rate and minimum stake.
-/

set_option autoImplicit false

namespace StakeChain

/-- An account: spendable balance, self-stake and the next nonce. -/
structure Account where
  balance : UInt64 := 0
  staked : UInt64 := 0
  nonce : UInt64 := 0
  deriving DecidableEq, Repr, Inhabited

/-- Whether a validator may take part at a height. -/
inductive ValidatorStatus where
  | active
  /-- Jailed before height `releaseAt`. -/
  | jailed (releaseAt : UInt64)
  deriving DecidableEq, Repr, Inhabited

/-- A penalty recorded against a validator. -/
structure Infraction where
  evidenceId : Digest
  kind : EvidenceKind
  offenseHeight : UInt64
  appliedAt : UInt64
  slashed : UInt64
  deriving DecidableEq, Repr, Inhabited

/-- The commission of validators registered by staking or at genesis, in basis points. -/
def defaultCommissionBps : UInt16 := 1000

/-- The largest commission and slash rate, in basis points. -/
def maxBps : UInt16 := 10000

/-- A registered validator. -/
structure ValidatorRecord where
  publicKey : PublicKey
  status : ValidatorStatus := .active
  commissionBps : UInt16 := defaultCommissionBps
  slashedTotal : UInt64 := 0
  infractions : List Infraction := []
  deriving DecidableEq, Repr, Inhabited

/-- Whether the record is jailed at a height. -/
def ValidatorRecord.isJailedAt (r : ValidatorRecord) (height : UInt64) : Bool :=
  match r.status with
  | .jailed releaseAt => height < releaseAt
  | .active => false

/-- Stake on its way back to an account. -/
structure UnbondingEntry where
  /-- The account credited on release. -/
  address : Address
  /-- The validator the stake was bonded to; its offenses still reach the entry. -/
  validator : Address
  amount : UInt64
  createdAt : UInt64
  releaseHeight : UInt64
  deriving DecidableEq, Repr, Inhabited

/-- An offense: a validator and the height it offended at. -/
structure Offense where
  validator : Address
  height : UInt64
  deriving DecidableEq, Repr, Inhabited

instance : Ord Offense where
  compare a b := (compare a.validator b.validator).then (compare a.height b.height)

/-- Offenses are ordered by validator, then by height: the lexicographic order of the two. -/
instance : Std.TransOrd Offense :=
  inferInstanceAs
    (Std.TransCmp (compareLex (compareOn Offense.validator) (compareOn Offense.height)))

instance : Std.LawfulEqOrd Offense where
  compare_self := by
    intro a
    have hv : compare a.validator a.validator = .eq := Std.ReflOrd.compare_self
    have hh : compare a.height a.height = .eq := Std.ReflOrd.compare_self
    show (compare a.validator a.validator).then (compare a.height a.height) = .eq
    rw [hv, hh]
    rfl
  eq_of_compare := by
    rintro ⟨v, h⟩ ⟨v', h'⟩ hc
    change (compare v v').then (compare h h') = .eq at hc
    obtain ⟨hv, hh⟩ := Ordering.then_eq_eq.mp hc
    rw [Std.LawfulEqOrd.eq_of_compare hv, Std.LawfulEqOrd.eq_of_compare hh]

/-- What applying a penalty did. -/
inductive PenaltyOutcome where
  /-- The offender was slashed and jailed; `newStake` is its remaining voting power. -/
  | applied (offender : Address) (slashed newStake jailedUntil : UInt64)
  /-- The evidence or the offense was already punished; `stake` is the voting power. -/
  | alreadyApplied (offender : Address) (stake : UInt64)
  deriving DecidableEq, Repr, Inhabited

/-- The offender's voting power after the penalty. -/
def PenaltyOutcome.stake : PenaltyOutcome → UInt64
  | .applied _ _ s _ => s
  | .alreadyApplied _ s => s

/-- Parameters of transaction and penalty rules. -/
structure LedgerParams where
  chainId : UInt64 := 1
  gas : GasSchedule := {}
  unbondingPeriod : UInt64 := 100
  /-- The share of bonded stake burned per offense, in basis points. -/
  slashBps : UInt64 := 5000
  minValidatorStake : UInt64 := 1
  deriving DecidableEq, Repr, Inhabited

/-- The ledger. -/
structure Ledger where
  accounts : KeyMap Address Account := .empty
  /-- The height of the last block begun. -/
  height : UInt64 := 0
  validators : KeyMap Address ValidatorRecord := .empty
  /-- Validator, then delegator, to amount. -/
  delegations : KeyMap Address (KeyMap Address UInt64) := .empty
  unbonding : List UnbondingEntry := []
  feePool : UInt64 := 0
  burned : UInt64 := 0
  appliedEvidence : KeyMap Digest Unit := .empty
  offenses : KeyMap Offense Unit := .empty
  deriving DecidableEq, Repr, Inhabited

/-- Why a transaction or a penalty is refused. -/
inductive LedgerError where
  | invalidSignature
  | wrongChain (expected got : UInt64)
  | nonceMismatch (expected got : UInt64)
  | insufficientGas (required limit : UInt64)
  | insufficientFunds (needed available : UInt64)
  | insufficientStake (needed staked : UInt64)
  | zeroAmount
  | overflow
  | unknownValidator (a : Address)
  | validatorExists (a : Address)
  | insufficientDelegation (needed delegated : UInt64)
  | invalidCommission (bps : UInt16)
  | stakeBelowMinimum (minimum amount : UInt64)
  deriving DecidableEq, Repr, Inhabited

namespace LedgerError

def message : LedgerError → String
  | .invalidSignature => "invalid signature"
  | .wrongChain e g => s!"wrong chain id: expected {e}, got {g}"
  | .nonceMismatch e g => s!"nonce mismatch: expected {e}, got {g}"
  | .insufficientGas r l => s!"gas limit {l} below required {r}"
  | .insufficientFunds n a => s!"insufficient funds: need {n}, have {a}"
  | .insufficientStake n s => s!"insufficient stake: need {n}, staked {s}"
  | .zeroAmount => "amount must be non-zero"
  | .overflow => "balance overflow"
  | .unknownValidator a => "unknown validator " ++ a.toHex
  | .validatorExists a => "validator " ++ a.toHex ++ " already exists"
  | .insufficientDelegation n d => s!"insufficient delegation: need {n}, delegated {d}"
  | .invalidCommission c => s!"commission {c} bps above 10000"
  | .stakeBelowMinimum m a => s!"initial stake {a} below minimum {m}"

def kind : LedgerError → String
  | .invalidSignature => "InvalidSignature"
  | .wrongChain .. => "WrongChain"
  | .nonceMismatch .. => "NonceMismatch"
  | .insufficientGas .. => "InsufficientGas"
  | .insufficientFunds .. => "InsufficientFunds"
  | .insufficientStake .. => "InsufficientStake"
  | .zeroAmount => "ZeroAmount"
  | .overflow => "Overflow"
  | .unknownValidator _ => "UnknownValidator"
  | .validatorExists _ => "ValidatorExists"
  | .insufficientDelegation .. => "InsufficientDelegation"
  | .invalidCommission _ => "InvalidCommission"
  | .stakeBelowMinimum .. => "StakeBelowMinimum"

/-- A nonce already used: the transaction replays an applied one. -/
def isReplay : LedgerError → Bool
  | .nonceMismatch e g => g < e
  | _ => false

/-- A nonce ahead of the account: the transaction may apply later. -/
def isFutureNonce : LedgerError → Bool
  | .nonceMismatch e g => g > e
  | _ => false

end LedgerError

namespace Ledger

/-- An account, empty if it was never touched. -/
def account (l : Ledger) (a : Address) : Account := l.accounts.getD a {}

def balance (l : Ledger) (a : Address) : UInt64 := (l.account a).balance
def staked (l : Ledger) (a : Address) : UInt64 := (l.account a).staked
def nonce (l : Ledger) (a : Address) : UInt64 := (l.account a).nonce

/-- The amount `delegator` has delegated to `validator`. -/
def delegation (l : Ledger) (validator delegator : Address) : UInt64 :=
  ((l.delegations.get? validator).bind fun d => d.get? delegator).getD 0

/-- Everything delegated to a validator, saturating. -/
def delegatedTo (l : Ledger) (validator : Address) : UInt64 :=
  match l.delegations.get? validator with
  | some d => Word.sumSat d.values
  | none => 0

/-- Self-stake plus delegations, saturating. -/
def votingPower (l : Ledger) (v : Address) : UInt64 := Word.addSat (l.staked v) (l.delegatedTo v)

def isValidator (l : Ledger) (a : Address) : Bool := l.validators.contains a

def evidenceApplied (l : Ledger) (id : Digest) : Bool := l.appliedEvidence.contains id

/-- The ledger with an account replaced. -/
def setAccount (l : Ledger) (a : Address) (acct : Account) : Ledger :=
  { l with accounts := l.accounts.insert a acct }

end Ledger

end StakeChain

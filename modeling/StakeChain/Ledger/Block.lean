import StakeChain.Ledger.Apply
import StakeChain.Consensus.ValidatorSet

/-!
# Block lifecycle, penalties and views of the ledger

* `Ledger.beginBlock`: sets the height, pays out matured unbonding entries (in queue order)
  and lifts jails that have expired;
* `Ledger.payFees`: empties the fee pool into the proposer's balance;
* `Ledger.applyPenalty`: burns the slash rate of everything bonded to an offender (self-stake,
  delegations, and unbonding entries created at or after the offense and not yet released)
  and jails it for the unbonding period.  A second penalty for the same evidence or the same
  offense changes nothing but the record of evidence ids;
* `Ledger.validatorSet`: the validators eligible at a height;
* `Ledger.totalStaked`, `Ledger.totalSupply`: saturating totals.
-/

set_option autoImplicit false

namespace StakeChain

namespace Ledger

/-- Start-of-block housekeeping at `height`. -/
def beginBlock (l : Ledger) (height : UInt64) : Ledger :=
  let matured := l.unbonding.filter fun e => e.releaseHeight ≤ height
  let waiting := l.unbonding.filter fun e => !(e.releaseHeight ≤ height)
  let l := { l with height := height, unbonding := waiting }
  let l := matured.foldl (fun l e =>
    let acct := l.account e.address
    l.setAccount e.address { acct with balance := Word.addSat acct.balance e.amount }) l
  { l with validators := l.validators.mapValues fun _ r =>
      match r.status with
      | .jailed releaseAt => if releaseAt ≤ height then { r with status := .active } else r
      | .active => r }

/-- Pays the fee pool to the proposer; the proposer's account is touched only for a positive
pool.  Returns the fees paid. -/
def payFees (l : Ledger) (proposer : Address) : Ledger × UInt64 :=
  let fees := l.feePool
  let l := { l with feePool := 0 }
  if fees > 0 then
    let acct := l.account proposer
    (l.setAccount proposer { acct with balance := Word.addSat acct.balance fees }, fees)
  else (l, fees)

/-- The share `bps / 10000` of an amount, rounded down. -/
def cut (bps : UInt64) (amount : UInt64) : UInt64 := (amount.toNat * bps.toNat / 10000).toUInt64

/-- The delegations to `offender` cut at the rate `bps`, with the cuts added to `slashed`; a
table left empty is removed. -/
def cutDelegations (l : Ledger) (offender : Address) (bps slashed : UInt64) : Ledger × UInt64 :=
  match l.delegations.get? offender with
  | none => (l, slashed)
  | some dels =>
    let slashed := dels.values.foldl (fun s a => Word.addSat s (cut bps a)) slashed
    let dels := (dels.mapValues fun _ a => a - cut bps a).filter fun _ a => a > 0
    ({ l with delegations :=
        if dels.isEmpty then l.delegations.erase offender
        else l.delegations.insert offender dels }, slashed)

/-- The unbonding entries that `reached` selects cut at the rate `bps`, with the cuts added to
`slashed`; an entry left empty is removed. -/
def cutUnbonding (l : Ledger) (reached : UnbondingEntry → Bool) (bps slashed : UInt64) :
    Ledger × UInt64 :=
  let slashed := l.unbonding.foldl (fun s e =>
    if reached e then Word.addSat s (cut bps e.amount) else s) slashed
  let unbonding := (l.unbonding.map fun e =>
    if reached e then { e with amount := e.amount - cut bps e.amount } else e).filter
    fun e => e.amount > 0
  ({ l with unbonding := unbonding }, slashed)

/-- Applies a penalty for evidence `evidenceId` against `offender` for an offense at
`offenseHeight`, at block height `height`. -/
def applyPenalty (l : Ledger) (evidenceId : Digest) (offender : Address) (kind : EvidenceKind)
    (offenseHeight : UInt64) (params : LedgerParams) (height : UInt64) :
    Except LedgerError (Ledger × PenaltyOutcome) :=
  if !l.isValidator offender then .error (.unknownValidator offender)
  else
    let offense : Offense := ⟨offender, offenseHeight⟩
    if l.evidenceApplied evidenceId || l.offenses.contains offense then
      .ok ({ l with appliedEvidence := l.appliedEvidence.insert evidenceId () },
        .alreadyApplied offender (l.votingPower offender))
    else
      let bps := min params.slashBps maxBps.toUInt64
      let acct := l.account offender
      let selfCut := cut bps acct.staked
      let l := l.setAccount offender { acct with staked := acct.staked - selfCut }
      -- delegations to the offender
      let (l, slashed) := l.cutDelegations offender bps selfCut
      -- unbonding entries still reachable by the offense
      let reached (e : UnbondingEntry) : Bool :=
        e.validator = offender && offenseHeight ≤ e.createdAt && height < e.releaseHeight
      let (l, slashed) := l.cutUnbonding reached bps slashed
      let newStake := l.votingPower offender
      let jailedUntil := Word.addSat height params.unbondingPeriod
      let l := { l with
        burned := Word.addSat l.burned slashed
        validators := l.validators.modify offender fun r =>
          { r with status := .jailed jailedUntil
                   slashedTotal := Word.addSat r.slashedTotal slashed
                   infractions := r.infractions ++
                     [⟨evidenceId, kind, offenseHeight, height, slashed⟩] }
        appliedEvidence := l.appliedEvidence.insert evidenceId ()
        offenses := l.offenses.insert offense () }
      .ok (l, .applied offender slashed newStake jailedUntil)

/-- The validators eligible at a height: registered, not jailed, with self-stake, and with
voting power at least `minStake`. -/
def validatorSet (l : Ledger) (height minStake : UInt64) : ValidatorSet :=
  let vals := l.validators.toList.filterMap fun (a, r) =>
    if r.isJailedAt height || l.staked a = 0 then none
    else
      let power := l.votingPower a
      if power ≥ minStake then some ⟨a, r.publicKey, power⟩ else none
  ValidatorSet.ofList height vals

/-- Everything delegated, saturating. -/
def totalDelegated (l : Ledger) : UInt64 :=
  l.delegations.values.foldl (fun acc d => d.values.foldl Word.addSat acc) 0

/-- Self-stake and delegations, saturating. -/
def totalStaked (l : Ledger) : UInt64 :=
  Word.addSat (Word.sumSat (l.accounts.values.map Account.staked)) l.totalDelegated

/-- Balances, stake, delegations, unbonding and the fee pool, saturating. -/
def totalSupply (l : Ledger) : UInt64 :=
  let balances := Word.sumSat (l.accounts.values.map Account.balance)
  let unbonding := Word.sumSat (l.unbonding.map UnbondingEntry.amount)
  Word.addSat (Word.addSat (Word.addSat balances l.totalStaked) unbonding) l.feePool

end Ledger

end StakeChain

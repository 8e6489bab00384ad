import StakeChain.Proofs.Ledger.Supply
import StakeChain.Ledger.Block

/-!
# Value across the block lifecycle

Start-of-block housekeeping and the payment of fees only move value: matured unbonding
entries become balance (`beginBlock_value`) and the fee pool becomes the proposer's balance
(`payFees_value`).  Both pay through `credit`, a saturating addition to a balance that is
exact while the ledger's value fits in a word.

A penalty is the one place where value leaves the supply, and it leaves for `burned`
(`applyPenalty_value`): an applied penalty lowers the supply by exactly the amount it reports
as slashed and raises `burned` by as much, and a repeated one moves nothing.  The penalty
takes in three cuts (the offender's self-stake, the delegations to it, the unbonding entries
the offense reaches), and each cut keeps the supply plus the running slashed total.
-/

set_option autoImplicit false

namespace StakeChain

namespace Ledger

/-- Value depends on the accounts, the delegations, the unbonding queue and the fee pool
alone. -/
theorem supply_congr {l l' : Ledger} (ha : l'.accounts = l.accounts)
    (hd : l'.delegations = l.delegations) (hu : l'.unbonding = l.unbonding)
    (hf : l'.feePool = l.feePool) : l'.supply = l.supply := by
  unfold supply
  rw [ha, hd, hu, hf]

/-! ## Paying into a balance -/

/-- Adds an amount to an account's balance, saturating: how matured unbonding entries and the
fee pool are paid out. -/
def credit (l : Ledger) (a : Address) (amount : UInt64) : Ledger :=
  let acct := l.account a
  l.setAccount a { acct with balance := Word.addSat acct.balance amount }

/-- A balance stays below the ledger's value, so adding an amount that fits beside the value
never saturates. -/
theorem addSat_balance_toNat {l : Ledger} {amount : UInt64}
    (hfit : l.supply + amount.toNat < UInt64.size) (a : Address) :
    (Word.addSat (l.account a).balance amount).toNat =
      (l.account a).balance.toNat + amount.toNat := by
  have hheld := held_le_accountsValue l a
  apply Word.addSat_toNat_of_lt
  unfold supply at hfit
  unfold Account.held at hheld
  omega

theorem credit_value {l : Ledger} (a : Address) (amount : UInt64)
    (hfit : l.supply + amount.toNat < UInt64.size) :
    (l.credit a amount).supply = l.supply + amount.toNat ∧ (l.credit a amount).burned = l.burned := by
  have hbal := addSat_balance_toNat hfit a
  have hacc := accountsValue_setAccount l a
    { l.account a with balance := Word.addSat (l.account a).balance amount }
  refine ⟨?_, rfl⟩
  unfold credit supply
  simp only [Account.held, delegations_setAccount, unbonding_setAccount,
    feePool_setAccount] at hacc ⊢
  omega

/-! ## Start of block -/

/-- Paying out entries one by one moves their whole value into balances. -/
theorem foldl_credit_value :
    ∀ (es : List UnbondingEntry) (l : Ledger), l.supply + unbondingValue es < UInt64.size →
      (es.foldl (fun l e => l.credit e.address e.amount) l).supply = l.supply + unbondingValue es ∧
        (es.foldl (fun l e => l.credit e.address e.amount) l).burned = l.burned
  | [], l, _ => ⟨by simp [unbondingValue], rfl⟩
  | e :: rest, l, hfit => by
    have hcons : unbondingValue (e :: rest) = e.amount.toNat + unbondingValue rest := by
      simp [unbondingValue]
    obtain ⟨hs, hb⟩ := credit_value (l := l) e.address e.amount (by omega)
    obtain ⟨hs', hb'⟩ := foldl_credit_value rest (l.credit e.address e.amount) (by omega)
    rw [List.foldl_cons]
    exact ⟨by omega, hb'.trans hb⟩

theorem unbondingValue_filter_add (q : List UnbondingEntry) (p : UnbondingEntry → Bool) :
    unbondingValue (q.filter p) + unbondingValue (q.filter fun e => !p e) = unbondingValue q := by
  have := List.sum_map_filter_add_sum_map_filter_not (fun e => p e = true)
    (fun e => e.amount.toNat) q
  simpa [unbondingValue] using this

/-- The ledger with its matured entries taken out of the queue, and their value beside it,
hold the whole value. -/
theorem supply_waiting_add (l : Ledger) (height : UInt64) :
    ({ l with height := height,
               unbonding := l.unbonding.filter fun e => !(e.releaseHeight ≤ height) } :
        Ledger).supply +
      unbondingValue (l.unbonding.filter fun e => e.releaseHeight ≤ height) = l.supply := by
  have hsplit := unbondingValue_filter_add l.unbonding fun e => e.releaseHeight ≤ height
  unfold supply
  dsimp only at hsplit ⊢
  omega

/-- Start of block: the matured entries are paid out of the waiting queue; the rest of the
record is the validators' jails. -/
theorem beginBlock_eq (l : Ledger) (height : UInt64) :
    ∃ vs, l.beginBlock height =
      let waiting : Ledger :=
        { l with height := height,
                 unbonding := l.unbonding.filter fun e => !(e.releaseHeight ≤ height) }
      let paid := (l.unbonding.filter fun e => e.releaseHeight ≤ height).foldl
        (fun l e => l.credit e.address e.amount) waiting
      { paid with validators := vs } :=
  ⟨_, rfl⟩

theorem beginBlock_value {l : Ledger} (hfit : l.Fits) (height : UInt64) :
    (l.beginBlock height).supply = l.supply ∧ (l.beginBlock height).burned = l.burned := by
  obtain ⟨vs, heq⟩ := beginBlock_eq l height
  obtain ⟨w, hw⟩ : ∃ w : Ledger, w =
      { l with height := height,
               unbonding := l.unbonding.filter fun e => !(e.releaseHeight ≤ height) } := ⟨_, rfl⟩
  have hwait : w.supply + unbondingValue (l.unbonding.filter fun e => e.releaseHeight ≤ height) =
      l.supply := by
    rw [hw]
    exact supply_waiting_add l height
  unfold Fits at hfit
  obtain ⟨hs, hb⟩ := foldl_credit_value (l.unbonding.filter fun e => e.releaseHeight ≤ height)
    w (by omega)
  rw [heq]
  dsimp only
  rw [← hw]
  generalize List.foldl (fun (l : Ledger) (e : UnbondingEntry) => l.credit e.address e.amount) w
    _ = paid at hs hb ⊢
  exact ⟨(supply_congr (l := paid) rfl rfl rfl rfl).trans (by omega), hb.trans (by rw [hw])⟩

/-! ## Fees -/

/-- The ledger with its fee pool emptied, and the pool beside it, hold the whole value. -/
theorem supply_emptyPool_add (l : Ledger) :
    ({ l with feePool := 0 } : Ledger).supply + l.feePool.toNat = l.supply := by
  unfold supply
  simp

theorem payFees_value {l : Ledger} (hfit : l.Fits) (proposer : Address) :
    (l.payFees proposer).1.supply = l.supply ∧ (l.payFees proposer).1.burned = l.burned ∧
      (l.payFees proposer).2 = l.feePool := by
  unfold Fits at hfit
  have hempty := supply_emptyPool_add l
  unfold payFees
  dsimp only
  split
  · obtain ⟨hs, hb⟩ := credit_value (l := { l with feePool := 0 }) proposer l.feePool (by omega)
    exact ⟨hs.trans hempty, hb, rfl⟩
  · rename_i hzero
    have hpool : l.feePool.toNat = 0 := by
      rw [gt_iff_lt, UInt64.lt_iff_toNat_lt, UInt64.toNat_zero] at hzero
      omega
    refine ⟨?_, rfl, rfl⟩
    dsimp only
    omega

/-! ## Penalties -/

theorem slashRate_toNat_le (params : LedgerParams) :
    (min params.slashBps maxBps.toUInt64).toNat ≤ 10000 := by
  show (if params.slashBps ≤ maxBps.toUInt64 then params.slashBps else maxBps.toUInt64).toNat ≤
    10000
  split
  · rename_i h
    rw [UInt64.le_iff_toNat_le] at h
    exact h
  · decide

/-- A cut at a rate of at most the whole is exact: it never wraps. -/
theorem cut_toNat {bps : UInt64} (hbps : bps.toNat ≤ 10000) (a : UInt64) :
    (cut bps a).toNat = a.toNat * bps.toNat / 10000 := by
  have hle : a.toNat * bps.toNat / 10000 ≤ a.toNat :=
    calc a.toNat * bps.toNat / 10000 ≤ a.toNat * 10000 / 10000 :=
          Nat.div_le_div_right (Nat.mul_le_mul_left _ hbps)
      _ = a.toNat := Nat.mul_div_cancel _ (by decide)
  exact UInt64.toNat_ofNat_of_lt' (Nat.lt_of_le_of_lt hle a.toNat_lt)

theorem cut_le {bps : UInt64} (hbps : bps.toNat ≤ 10000) (a : UInt64) :
    (cut bps a).toNat ≤ a.toNat := by
  rw [cut_toNat hbps]
  calc a.toNat * bps.toNat / 10000 ≤ a.toNat * 10000 / 10000 :=
        Nat.div_le_div_right (Nat.mul_le_mul_left _ hbps)
    _ = a.toNat := Nat.mul_div_cancel _ (by decide)

/-- What a cut leaves and what it takes make up the amount. -/
theorem sub_cut_add {bps : UInt64} (hbps : bps.toNat ≤ 10000) (a : UInt64) :
    (a - cut bps a).toNat + (cut bps a).toNat = a.toNat := by
  have hle := cut_le hbps a
  rw [UInt64.toNat_sub_of_le _ _ (UInt64.le_iff_toNat_le.mpr hle)]
  omega

/-- Cutting every delegation to a validator takes the sum of the cuts from the table. -/
theorem delegatorsValue_cut {bps : UInt64} (hbps : bps.toNat ≤ 10000)
    (dels : KeyMap Address UInt64) :
    delegatorsValue ((dels.mapValues fun _ a => a - cut bps a).filter fun _ a => a > 0) +
        (dels.values.map fun a => (cut bps a).toNat).sum = delegatorsValue dels := by
  have hpos := Word.sum_filter_pos Prod.snd (dels.toList.map fun e => (e.1, e.2 - cut bps e.2))
  have hsplit : (dels.values.map fun a => (a - cut bps a).toNat).sum +
      (dels.values.map fun a => (cut bps a).toNat).sum = delegatorsValue dels := by
    rw [← List.sum_map_add]
    unfold delegatorsValue
    congr 1
    exact List.map_congr_left fun a _ => sub_cut_add hbps a
  simp only [delegatorsValue, KeyMap.values, KeyMap.filter, KeyMap.mapValues, List.map_map] at hpos hsplit ⊢
  rw [← hsplit]
  exact congrArg (· + _) hpos

/-- Cutting the reached unbonding entries takes the sum of their cuts from the queue. -/
theorem unbondingValue_cut {bps : UInt64} (hbps : bps.toNat ≤ 10000) (reached : UnbondingEntry → Bool) :
    ∀ q : List UnbondingEntry,
      unbondingValue ((q.map fun e =>
          if reached e then { e with amount := e.amount - cut bps e.amount } else e).filter
          fun e => e.amount > 0) +
        ((q.filter reached).map fun e => (cut bps e.amount).toNat).sum = unbondingValue q := by
  intro q
  rw [unbondingValue, Word.sum_filter_pos UnbondingEntry.amount]
  induction q with
  | nil => rfl
  | cons e rest ih =>
    have hcut := sub_cut_add hbps e.amount
    by_cases hr : reached e
    · simp only [unbondingValue, hr, List.map_cons, if_true, List.filter_cons_of_pos, List.sum_cons] at ih ⊢
      omega
    · simp only [unbondingValue, hr, List.map_cons, Bool.false_eq_true, if_false,
        List.filter_cons_of_neg, not_false_eq_true, List.sum_cons] at ih ⊢
      omega

/-- The offender's self-stake cut moves from its account to the running total. -/
theorem cutSelf_value (l : Ledger) (offender : Address) {bps : UInt64}
    (hbps : bps.toNat ≤ 10000) :
    (l.setAccount offender { l.account offender with
        staked := (l.account offender).staked - cut bps (l.account offender).staked }).supply +
      (cut bps (l.account offender).staked).toNat = l.supply := by
  have hacc := accountsValue_setAccount l offender { l.account offender with
    staked := (l.account offender).staked - cut bps (l.account offender).staked }
  have hcut := sub_cut_add hbps (l.account offender).staked
  unfold supply
  simp only [Account.held, delegations_setAccount, unbonding_setAccount,
    feePool_setAccount] at hacc ⊢
  omega

/-- Cutting the delegations to an offender writes the delegation table only. -/
theorem cutDelegations_frame {l l' : Ledger} {offender : Address} {bps slashed slashed' : UInt64}
    (h : l.cutDelegations offender bps slashed = (l', slashed')) :
    l' = { l with delegations := l'.delegations } := by
  unfold cutDelegations at h
  split at h <;> cases h <;> rfl

/-- Cutting unbonding entries writes the unbonding queue only. -/
theorem cutUnbonding_frame {l l' : Ledger} {reached : UnbondingEntry → Bool}
    {bps slashed slashed' : UInt64} (h : l.cutUnbonding reached bps slashed = (l', slashed')) :
    l' = { l with unbonding := l'.unbonding } := by
  unfold cutUnbonding at h
  cases h
  rfl

/-- Cutting the delegations moves what it takes from the supply to the running total. -/
theorem cutDelegations_value {l : Ledger} {offender : Address}
    {bps slashed : UInt64} (hbps : bps.toNat ≤ 10000)
    (hfit : l.supply + slashed.toNat < UInt64.size) {l' : Ledger} {slashed' : UInt64}
    (h : l.cutDelegations offender bps slashed = (l', slashed')) :
    l'.supply + slashed'.toNat = l.supply + slashed.toNat ∧ l'.burned = l.burned := by
  unfold cutDelegations at h
  split at h
  · -- nothing is delegated to the offender
    cases h
    exact ⟨rfl, rfl⟩
  · rename_i dels hdels
    cases h
    have hcut := delegatorsValue_cut hbps dels
    have hput := delegationsValue_put l.delegations offender
      ((dels.mapValues fun _ a => a - cut bps a).filter fun _ a => a > 0)
    rw [hdels] at hput
    simp only [Option.map_some, Option.getD_some] at hput
    -- what is delegated to the offender is part of the supply, so the total does not saturate
    have hle := KeyMap.le_sum_of_get? delegatorsValue hdels
    have hfold := Word.foldl_addSat_toNat (cut bps) dels.values slashed
    refine ⟨?_, rfl⟩
    unfold supply at hfit ⊢
    dsimp only
    rw [hfold]
    omega

/-- Cutting the reached unbonding entries moves what it takes from the supply to the running
total. -/
theorem cutUnbonding_value {l : Ledger} {reached : UnbondingEntry → Bool}
    {bps slashed : UInt64} (hbps : bps.toNat ≤ 10000)
    (hfit : l.supply + slashed.toNat < UInt64.size) {l' : Ledger} {slashed' : UInt64}
    (h : l.cutUnbonding reached bps slashed = (l', slashed')) :
    l'.supply + slashed'.toNat = l.supply + slashed.toNat ∧ l'.burned = l.burned := by
  unfold cutUnbonding at h
  cases h
  have hcut := unbondingValue_cut hbps reached l.unbonding
  have hfold := Word.foldl_addSat_filter_toNat reached (fun e => cut bps e.amount) l.unbonding
    slashed
  refine ⟨?_, rfl⟩
  unfold supply at hfit ⊢
  dsimp only
  rw [hfold]
  omega

end Ledger

/-- The value a penalty reports burnt: what an applied penalty slashed, and nothing for a
repeated one. -/
def PenaltyOutcome.burnt : PenaltyOutcome → Nat
  | .applied _ slashed _ _ => slashed.toNat
  | .alreadyApplied _ _ => 0

namespace Ledger

/-- What a penalty that goes through did.  The offender is registered.  Evidence already applied,
or a second offense at the same height, only records the evidence id.  Otherwise the penalty cuts
the offender's self-stake, then the delegations to it, then the unbonding entries the offense
reaches, and jails it with what was slashed added to its record. -/
theorem applyPenalty_cases {l l' : Ledger} {evidenceId : Digest} {offender : Address}
    {kind : EvidenceKind} {offenseHeight : UInt64} {params : LedgerParams} {height : UInt64}
    {o : PenaltyOutcome}
    (h : l.applyPenalty evidenceId offender kind offenseHeight params height = .ok (l', o)) :
    l.isValidator offender = true ∧
    ((l.evidenceApplied evidenceId || l.offenses.contains ⟨offender, offenseHeight⟩) = true ∧
        l' = { l with appliedEvidence := l.appliedEvidence.insert evidenceId () } ∧
        o = .alreadyApplied offender (l.votingPower offender) ∨
      ∃ (bps selfCut : UInt64) (l₁ l₂ l₃ : Ledger) (s₂ s₃ : UInt64),
        (l.evidenceApplied evidenceId || l.offenses.contains ⟨offender, offenseHeight⟩) = false ∧
        bps = min params.slashBps maxBps.toUInt64 ∧
        selfCut = cut bps (l.account offender).staked ∧
        l₁ = l.setAccount offender
          { l.account offender with staked := (l.account offender).staked - selfCut } ∧
        l₁.cutDelegations offender bps selfCut = (l₂, s₂) ∧
        l₂.cutUnbonding (fun e => e.validator = offender && offenseHeight ≤ e.createdAt &&
          height < e.releaseHeight) bps s₂ = (l₃, s₃) ∧
        l' = { l₃ with
          burned := Word.addSat l₃.burned s₃
          validators := l₃.validators.modify offender fun r =>
            { r with status := .jailed (Word.addSat height params.unbondingPeriod)
                     slashedTotal := Word.addSat r.slashedTotal s₃
                     infractions := r.infractions ++
                       [⟨evidenceId, kind, offenseHeight, height, s₃⟩] }
          appliedEvidence := l₃.appliedEvidence.insert evidenceId ()
          offenses := l₃.offenses.insert ⟨offender, offenseHeight⟩ () } ∧
        o = .applied offender s₃ (l₃.votingPower offender)
          (Word.addSat height params.unbondingPeriod)) := by
  unfold applyPenalty at h
  split at h
  · cases h
  rename_i hreg
  refine ⟨by simpa using hreg, ?_⟩
  extract_lets offense bps acct selfCut l₁ reached jailedUntil at h
  split at h
  · rename_i hrep
    cases h
    exact .inl ⟨hrep, rfl, rfl⟩
  rename_i hnew
  split at h
  rename_i l₂ s₂ hcd
  split at h
  rename_i l₃ s₃ hcu
  cases h
  exact .inr ⟨bps, selfCut, l₁, l₂, l₃, s₂, s₃, by simpa using hnew, rfl, rfl, rfl, hcd, hcu, rfl,
    rfl⟩

/-- A penalty moves exactly what it reports burnt from the supply to `burned`: an applied one
its slashed amount, a repeated one nothing. -/
theorem applyPenalty_value {l : Ledger} (hfit : l.Fits) {evidenceId : Digest}
    {offender : Address} {kind : EvidenceKind} {offenseHeight : UInt64} {params : LedgerParams}
    {height : UInt64} {l' : Ledger} {o : PenaltyOutcome}
    (h : l.applyPenalty evidenceId offender kind offenseHeight params height = .ok (l', o)) :
    l'.supply + o.burnt = l.supply ∧ l'.burned.toNat = l.burned.toNat + o.burnt := by
  obtain ⟨-, ⟨-, rfl, rfl⟩ | ⟨bps, selfCut, l₁, l₂, l₃, s₂, s₃, -, hbps, rfl, rfl, hcd, hcu, rfl,
    rfl⟩⟩ := applyPenalty_cases h
  · -- a repeated penalty only records the evidence id
    exact ⟨rfl, rfl⟩
  unfold Fits at hfit
  have hbps : bps.toNat ≤ 10000 := hbps ▸ slashRate_toNat_le params
  have h₁ := cutSelf_value l offender hbps
  obtain ⟨h₂, hb₂⟩ := cutDelegations_value hbps (by omega) hcd
  obtain ⟨h₃, hb₃⟩ := cutUnbonding_value hbps (by omega) hcu
  -- the slashed total is part of the old supply, so burning it does not saturate
  have hburn : (Word.addSat l₃.burned s₃).toNat = l.burned.toNat + s₃.toNat := by
    rw [hb₃, hb₂, burned_setAccount]
    exact Word.addSat_toNat_of_lt (by omega)
  refine ⟨?_, hburn⟩
  show l₃.supply + s₃.toNat = l.supply
  omega

end Ledger

end StakeChain

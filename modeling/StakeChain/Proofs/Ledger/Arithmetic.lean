import StakeChain.Proofs.Block.Selection
import StakeChain.Proofs.Ledger.Penalty

/-!
# Ledger arithmetic stays in range

Amounts are 64-bit words, and the ledger adds and subtracts them in three ways: checked sums
that refuse with an error, saturating sums, and plain sums and differences that the rules
promise never leave the range.  This file proves the promise.

* `applyVerified_exact`: a transaction is checked whole before it writes, and every write of its
  commit is covered by a check on the same ledger, so what it writes is what unbounded
  arithmetic gives (`ExactWrites`): the sender's balance and self-stake move by what its kind
  takes and adds, the nonce by one, the fee pool by the fee, a recipient's balance and a
  delegation by the amount.
* `applyVerified_ok_of_nonce_lt`: advancing the nonce is the one sum no check covers beforehand,
  so a transaction stops the run only when its sender's nonce is already the largest word.
* `cut_slashRate_exact`, `applyPenalty_cuts_exact`: a penalty cuts at the slash rate capped at
  the whole; the product fits two words, the quotient one, and no cut exceeds what it is taken
  from, so the offender's self-stake and each delegation to it lose exactly their cut.
* `beginBlock_balance`, `payFees_balance`: start of block and the payment of fees add with
  saturation, and on a ledger whose value fits a word the saturation never triggers.
-/

set_option autoImplicit false

namespace StakeChain

namespace Ledger

/-! ## The commit of a transaction -/

theorem creditOf_eq_some {sender dest : Address} {amount : UInt64} {k : TxKind}
    (h : creditOf sender k = some (dest, amount)) : k = .transfer dest amount ∧ dest ≠ sender := by
  cases k with
  | transfer d a =>
    by_cases hself : d = sender
    · simp [creditOf, hself] at h
    · simp only [creditOf, if_neg hself, Option.some.injEq, Prod.mk.injEq] at h
      obtain ⟨rfl, rfl⟩ := h
      exact ⟨rfl, hself⟩
  | _ => simp [creditOf] at h

theorem account_payCredit_some (l : Ledger) (dest : Address) (amount : UInt64) (a : Address) :
    (l.payCredit (some (dest, amount))).account a =
      if a = dest then { l.account dest with balance := l.balance dest + amount }
      else l.account a :=
  account_setAccount _ _ _ _

@[simp] theorem feePool_commitKind (l : Ledger) (params : LedgerParams) (tx : Transaction)
    (sender : Address) : (l.commitKind params tx sender).feePool = l.feePool := by
  unfold commitKind
  cases tx.kind with
  | stake amount =>
    dsimp only
    split <;> rfl
  | _ => rfl

theorem delegations_commitKind_delegate {l : Ledger} {params : LedgerParams} {tx : Transaction}
    {sender v : Address} {amount : UInt64} (hk : tx.kind = .delegate v amount) :
    (l.commitKind params tx sender).delegations = addDelegation l.delegations v sender amount := by
  simp only [commitKind, hk]

theorem delegations_commitKind_undelegate {l : Ledger} {params : LedgerParams}
    {tx : Transaction} {sender v : Address} {amount : UInt64}
    (hk : tx.kind = .undelegate v amount) :
    (l.commitKind params tx sender).delegations = subDelegation l.delegations v sender amount := by
  simp only [commitKind, hk, delegations_startUnbonding]

/-- Delegating adds the amount to the delegator's slot. -/
theorem delegationIn_addDelegation_self (d : KeyMap Address (KeyMap Address UInt64))
    (v s : Address) (amount : UInt64) :
    delegationIn (addDelegation d v s amount) v s = delegationIn d v s + amount := by
  rw [delegationIn_eq, delegationIn_eq]
  simp [addDelegation, KeyMap.getD_eq]

/-- Taking back at most what a slot holds leaves the difference; a slot emptied is dropped and
reads as zero. -/
theorem delegationIn_subDelegation_self {d : KeyMap Address (KeyMap Address UInt64)}
    {v s : Address} {amount : UInt64} (hle : amount ≤ delegationIn d v s) :
    delegationIn (subDelegation d v s amount) v s = delegationIn d v s - amount := by
  unfold delegationIn at hle ⊢
  unfold subDelegation
  cases hv : d.get? v with
  | none =>
    simp only [hv, Option.bind_none, Option.getD_none] at hle ⊢
    rw [UInt64.le_zero_iff.mp hle]
    rfl
  | some dels =>
    simp only [hv, Option.bind_some] at hle ⊢
    cases hs : dels.get? s with
    | none =>
      simp only [hs, Option.getD_none] at hle ⊢
      rw [UInt64.le_zero_iff.mp hle]
      split <;> simp [KeyMap.get?_erase, KeyMap.get?_insert_self, hs]
    | some slot =>
      simp only [hs, Option.getD_some] at hle ⊢
      by_cases h0 : slot - amount = 0
      · -- the slot is erased, and the table with it when nothing else is left
        rw [if_pos h0, h0]
        split <;> simp [KeyMap.get?_erase]
      · have hne : (dels.insert s (slot - amount)).isEmpty = false := by
          cases hem : (dels.insert s (slot - amount)).isEmpty
          · rfl
          · have := KeyMap.get?_of_isEmpty hem s
            simp at this
        simp only [if_neg h0, hne, Bool.false_eq_true, if_false, KeyMap.get?_insert_self,
          Option.bind_some, Option.getD_some]

/-! ## Transactions -/

/-- What a transaction applied to `l` wrote in `l'`, in exact arithmetic: each balance, stake,
nonce, pool and delegation it touched moved by exactly the amount its rule names, so no sum
wrapped and no difference went below zero. -/
structure ExactWrites (l : Ledger) (tx : Transaction) (l' : Ledger) : Prop where
  /-- The sender's balance loses what the kind takes: the fee, and the amount sent to another
  account, staked or delegated. -/
  balance : (l'.balance tx.sender).toNat + balanceTaken tx.sender tx.fee tx.kind =
    (l.balance tx.sender).toNat
  /-- The sender's self-stake gains what is staked and loses what is unstaked. -/
  staked : (l'.staked tx.sender).toNat + stakeTaken tx.kind =
    (l.staked tx.sender).toNat + stakeAdded tx.kind
  nonce : (l'.nonce tx.sender).toNat = (l.nonce tx.sender).toNat + 1
  feePool : l'.feePool.toNat = l.feePool.toNat + tx.fee.toNat
  /-- A transfer to another account adds its amount to the recipient's balance. -/
  credited : ∀ dest amount, creditOf tx.sender tx.kind = some (dest, amount) →
    (l'.balance dest).toNat = (l.balance dest).toNat + amount.toNat
  delegated : ∀ v amount, tx.kind = .delegate v amount →
    (l'.delegation v tx.sender).toNat = (l.delegation v tx.sender).toNat + amount.toNat
  undelegated : ∀ v amount, tx.kind = .undelegate v amount →
    (l'.delegation v tx.sender).toNat + amount.toNat = (l.delegation v tx.sender).toNat

/-- **A transaction that applies writes in exact arithmetic.**  Every addition and subtraction
of its commit is covered by a check its rule made on the same ledger: the debits by the
balance and stake checks, the recipient's credit and the delegation by their room, an
undelegation by the amount delegated, the pool by its own check, and the nonce by the strict
addition that would have stopped the run. -/
theorem applyVerified_exact {l : Ledger} {params : LedgerParams} {tx : Transaction}
    {l' : Ledger} {r : Receipt} (h : (l.applyVerified params tx).run = .ok (.ok (l', r))) :
    ExactWrites l tx l' := by
  obtain ⟨next, credit, pool, n, hk, hfee, hn, hl', -, -⟩ := applyVerified_inv h
  obtain ⟨hbal, hstake, hnext, hcredit, hroom, hdel⟩ := checkKind_exact hk
  have hacc : ∀ a, l'.account a =
      ((l.setAccount tx.sender { next with nonce := n }).payCredit credit).account a := by
    intro a
    rw [hl', account_eq, account_eq, accounts_commitKind]
  -- the sender's account is the one its rule computed: a credit goes to another account
  have hsender : l'.account tx.sender = { next with nonce := n } := by
    rw [hacc]
    cases credit with
    | none => rw [payCredit, account_setAccount, if_pos rfl]
    | some c =>
      obtain ⟨dest, amount⟩ := c
      obtain ⟨-, hne⟩ := creditOf_eq_some hcredit.symm
      rw [account_payCredit_some, if_neg (Ne.symm hne), account_setAccount, if_pos rfl]
  refine ⟨?_, ?_, ?_, ?_, fun dest amount hc => ?_, fun v amount hkind => ?_,
    fun v amount hkind => ?_⟩
  · rw [balance, hsender]
    exact hbal
  · rw [staked, hsender]
    exact hstake
  · rw [Ledger.nonce, hsender, Word.addStrict_eq_ok hn, hnext]
    rfl
  · rw [hl', feePool_commitKind]
    exact Word.add?_toNat hfee
  · rw [← hcredit] at hc
    subst hc
    obtain ⟨-, hne⟩ := creditOf_eq_some hcredit.symm
    rw [balance, hacc, account_payCredit_some, if_pos rfl, balance, account_setAccount,
      if_neg hne]
    exact Word.add_toNat_of_lt (hroom dest amount rfl)
  · rw [hkind] at hdel
    rw [delegation_eq, delegation_eq, hl', delegations_commitKind_delegate hkind]
    simp only [delegations_payCredit, delegations_setAccount]
    rw [delegationIn_addDelegation_self]
    exact Word.add_toNat_of_lt hdel
  · rw [hkind] at hdel
    obtain ⟨-, hle⟩ := hdel
    rw [delegation_eq, delegation_eq, hl', delegations_commitKind_undelegate hkind]
    simp only [delegations_payCredit, delegations_setAccount]
    rw [delegationIn_subDelegation_self (UInt64.le_iff_toNat_le.mpr hle),
      UInt64.toNat_sub_of_le _ _ (UInt64.le_iff_toNat_le.mpr hle)]
    omega

/-- Advancing the nonce is the one addition no check covers beforehand: a transaction stops the
run only when its sender's nonce is already the largest word. -/
theorem applyVerified_ok_of_nonce_lt {l : Ledger} {params : LedgerParams} {tx : Transaction}
    (hnonce : l.nonce tx.sender < Word.max) : ∃ out, (l.applyVerified params tx).run = .ok out := by
  cases hrun : (l.applyVerified params tx).run with
  | ok out => exact ⟨out, rfl⟩
  | error e =>
    -- a run that stops has passed the nonce check, with the transaction's nonce the largest word
    have hmax := applyVerified_abort hrun
    have hsame : tx.nonce = l.nonce tx.sender := by
      by_contra hne
      unfold applyVerified at hrun
      dsimp only at hrun
      split at hrun
      · cases hrun
      · rw [if_pos (show tx.nonce ≠ (l.account tx.sender).nonce from hne)] at hrun
        cases hrun
    rw [← hsame, hmax] at hnonce
    exact absurd hnonce (UInt64.lt_irrefl _)

/-! ## Penalties -/

/-- The cut at a penalty's rate, the slash rate capped at the whole: the product of an amount and
the rate fits two words, the quotient fits one, and the cut is never more than the amount it is
taken from, so what remains is exact. -/
theorem cut_slashRate_exact (params : LedgerParams) (x : UInt64) :
    x.toNat * (min params.slashBps maxBps.toUInt64).toNat < UInt64.size * UInt64.size ∧
      (cut (min params.slashBps maxBps.toUInt64) x).toNat =
        x.toNat * (min params.slashBps maxBps.toUInt64).toNat / 10000 ∧
      (x - cut (min params.slashBps maxBps.toUInt64) x).toNat +
        (cut (min params.slashBps maxBps.toUInt64) x).toNat = x.toNat := by
  have hbps := slashRate_toNat_le params
  have hprod : x.toNat * (min params.slashBps maxBps.toUInt64).toNat < UInt64.size * UInt64.size :=
    calc x.toNat * (min params.slashBps maxBps.toUInt64).toNat ≤ x.toNat * 10000 :=
          Nat.mul_le_mul_left _ hbps
      _ < UInt64.size * UInt64.size :=
          Nat.mul_lt_mul_of_lt_of_le x.toNat_lt_size (by decide) (by decide)
  exact ⟨hprod, cut_toNat hbps x, sub_cut_add hbps x⟩

/-- An applied penalty lowers the offender's self-stake and each delegation to it by exactly its
cut. -/
theorem applyPenalty_cuts_exact {l l' : Ledger} {evidenceId : Digest}
    {offender : Address} {kind : EvidenceKind} {offenseHeight : UInt64} {params : LedgerParams}
    {height : UInt64} {v : Address} {slashed newStake jailedUntil : UInt64}
    (h : l.applyPenalty evidenceId offender kind offenseHeight params height =
      .ok (l', .applied v slashed newStake jailedUntil)) :
    (l'.staked offender).toNat +
        (cut (min params.slashBps maxBps.toUInt64) (l.staked offender)).toNat =
      (l.staked offender).toNat ∧
    ∀ d, (l'.delegation offender d).toNat +
        (cut (min params.slashBps maxBps.toUInt64) (l.delegation offender d)).toNat =
      (l.delegation offender d).toNat := by
  obtain ⟨-, ⟨-, -, hrep⟩ | ⟨bps, selfCut, l₁, l₂, l₃, s₂, s₃, -, hbps, hself, hl₁, hcd, hcu,
    hl', -⟩⟩ := applyPenalty_cases h
  · cases hrep
  have hframe := cuts_frame hl₁ hcd hcu
  have hrate := slashRate_toNat_le params
  have hacc : l'.accounts = l₁.accounts := by rw [hl', hframe]
  have hdel : l'.delegations = (l₁.cutDelegations offender bps selfCut).1.delegations := by
    rw [hl', hframe, hcd]
  subst hbps hself
  refine ⟨?_, fun d => ?_⟩
  · rw [staked, account_eq, hacc, ← account_eq, hl₁, account_setAccount, if_pos rfl]
    exact sub_cut_add hrate _
  · have hd₁ : l₁.delegation offender d = l.delegation offender d := by
      rw [hl₁]
      rfl
    rw [delegation_eq, hdel, ← delegation_eq, delegation_cutDelegations, hd₁]
    exact sub_cut_add hrate _

/-! ## Start of block and fees -/

/-- A saturating credit is exact while the ledger's value and the amount fit a word. -/
theorem balance_credit {l : Ledger} {amount : UInt64}
    (hfit : l.supply + amount.toNat < UInt64.size) (a b : Address) :
    ((l.credit a amount).balance b).toNat =
      (l.balance b).toNat + if b = a then amount.toNat else 0 := by
  unfold credit
  rw [balance, account_setAccount]
  split
  · rename_i hba
    subst hba
    exact addSat_balance_toNat hfit b
  · rfl

/-- Paying out entries one by one adds to each balance exactly the entries paid to it. -/
theorem balance_foldl_credit :
    ∀ (es : List UnbondingEntry) (l : Ledger), l.supply + unbondingValue es < UInt64.size →
      ∀ a, ((es.foldl (fun l e => l.credit e.address e.amount) l).balance a).toNat =
        (l.balance a).toNat + unbondingValue (es.filter fun e => e.address = a)
  | [], l, _, a => by simp [unbondingValue]
  | e :: rest, l, hfit, a => by
    have hcons : unbondingValue (e :: rest) = e.amount.toNat + unbondingValue rest := by
      simp [unbondingValue]
    obtain ⟨hs, -⟩ := credit_value (l := l) e.address e.amount (by omega)
    rw [List.foldl_cons, balance_foldl_credit rest (l.credit e.address e.amount) (by omega) a,
      balance_credit (by omega) e.address a]
    by_cases hea : e.address = a
    · rw [if_pos hea.symm, List.filter_cons_of_pos (by simpa using hea)]
      simp only [unbondingValue, List.map_cons, List.sum_cons]
      omega
    · rw [if_neg (Ne.symm hea), List.filter_cons_of_neg (by simpa using hea)]
      omega

/-- **Start of block never saturates a balance** on a ledger whose value fits a word: each
account gains exactly the matured entries paid to it. -/
theorem beginBlock_balance {l : Ledger} (hfit : l.Fits) (height : UInt64)
    (a : Address) :
    ((l.beginBlock height).balance a).toNat = (l.balance a).toNat +
      unbondingValue ((l.unbonding.filter fun e => e.releaseHeight ≤ height).filter
        fun e => e.address = a) := by
  obtain ⟨vs, heq⟩ := beginBlock_eq l height
  obtain ⟨w, hw⟩ : ∃ w : Ledger, w =
      { l with height := height,
               unbonding := l.unbonding.filter fun e => !(e.releaseHeight ≤ height) } := ⟨_, rfl⟩
  have hwait : w.supply + unbondingValue (l.unbonding.filter fun e => e.releaseHeight ≤ height) =
      l.supply := by
    rw [hw]
    exact supply_waiting_add l height
  unfold Fits at hfit
  have hpaid := balance_foldl_credit (l.unbonding.filter fun e => e.releaseHeight ≤ height) w
    (by omega) a
  rw [heq]
  dsimp only
  rw [← hw]
  have hbal : w.balance a = l.balance a := by rw [hw]; rfl
  rw [← hbal, ← hpaid]
  rfl

/-- **Paying the fees never saturates the proposer's balance** on a ledger whose value fits a
word. -/
theorem payFees_balance {l : Ledger} (hfit : l.Fits) (proposer : Address) :
    (((l.payFees proposer).1).balance proposer).toNat =
      (l.balance proposer).toNat + l.feePool.toNat := by
  unfold Fits at hfit
  unfold payFees
  dsimp only
  split
  · have hempty := supply_emptyPool_add l
    have hroom : ({ l with feePool := 0 } : Ledger).supply + l.feePool.toNat < UInt64.size := by
      omega
    have h := balance_credit hroom proposer proposer
    rw [if_pos rfl] at h
    exact h
  · rename_i hzero
    have hpool : l.feePool.toNat = 0 := by
      rw [gt_iff_lt, UInt64.lt_iff_toNat_lt, UInt64.toNat_zero] at hzero
      omega
    rw [hpool]
    rfl

end Ledger

/-- **Ledger arithmetic stays in range.**  A transaction stops the run only when its sender's
nonce is already the largest word, and one that applies writes what unbounded arithmetic gives.
A penalty cuts at a rate whose products fit two words and whose cuts are exact and never more
than what they are taken from, and an applied penalty lowers the offender's self-stake and its
delegations by exactly their cuts.  On a ledger whose value fits a word, start of block and the
payment of fees add to balances without saturating. -/
theorem ledger_arithmetic_in_range :
    (∀ (l : Ledger) (params : LedgerParams) (tx : Transaction), l.nonce tx.sender < Word.max →
      ∃ out, (l.applyVerified params tx).run = .ok out) ∧
    (∀ (l l' : Ledger) (params : LedgerParams) (tx : Transaction) (r : Receipt),
      (l.applyVerified params tx).run = .ok (.ok (l', r)) → l.ExactWrites tx l') ∧
    (∀ (params : LedgerParams) (x : UInt64),
      x.toNat * (min params.slashBps maxBps.toUInt64).toNat < UInt64.size * UInt64.size ∧
      (Ledger.cut (min params.slashBps maxBps.toUInt64) x).toNat =
        x.toNat * (min params.slashBps maxBps.toUInt64).toNat / 10000 ∧
      (x - Ledger.cut (min params.slashBps maxBps.toUInt64) x).toNat +
        (Ledger.cut (min params.slashBps maxBps.toUInt64) x).toNat = x.toNat) ∧
    (∀ (l l' : Ledger) (evidenceId : Digest) (offender : Address) (kind : EvidenceKind)
      (offenseHeight : UInt64) (params : LedgerParams) (height : UInt64) (v : Address)
      (slashed newStake jailedUntil : UInt64),
      l.applyPenalty evidenceId offender kind offenseHeight params height =
        .ok (l', .applied v slashed newStake jailedUntil) →
      (l'.staked offender).toNat +
          (Ledger.cut (min params.slashBps maxBps.toUInt64) (l.staked offender)).toNat =
        (l.staked offender).toNat ∧
      ∀ d, (l'.delegation offender d).toNat +
          (Ledger.cut (min params.slashBps maxBps.toUInt64) (l.delegation offender d)).toNat =
        (l.delegation offender d).toNat) ∧
    (∀ (l : Ledger) (height : UInt64), l.Fits → ∀ a,
      ((l.beginBlock height).balance a).toNat = (l.balance a).toNat +
        Ledger.unbondingValue ((l.unbonding.filter fun e => e.releaseHeight ≤ height).filter
          fun e => e.address = a)) ∧
    (∀ (l : Ledger) (proposer : Address), l.Fits →
      (((l.payFees proposer).1).balance proposer).toNat =
        (l.balance proposer).toNat + l.feePool.toNat) :=
  ⟨fun _ _ _ hnonce => Ledger.applyVerified_ok_of_nonce_lt hnonce,
    fun _ _ _ _ _ h => Ledger.applyVerified_exact h,
    Ledger.cut_slashRate_exact,
    fun _ _ _ _ _ _ _ _ _ _ _ _ h => Ledger.applyPenalty_cuts_exact h,
    fun _ height hfit a => Ledger.beginBlock_balance hfit height a,
    fun _ proposer hfit => Ledger.payFees_balance hfit proposer⟩

/-- The key of an account that delegates. -/
def delegatorKey : PublicKey := ⟨List.replicate 32 7⟩

/-- The address of a registered validator. -/
def bondedValidator : Address := ⟨List.replicate 20 2⟩

/-- A delegation of 30 to `bondedValidator`, with a fee of 2. -/
def delegateTx : Transaction :=
  { chainId := 1, senderKey := delegatorKey, nonce := 0, fee := 2, gasLimit := 100000,
    kind := .delegate bondedValidator 30, memo := [], signature := [] }

/-- A ledger where the delegator holds 100 and the validator is registered. -/
def beforeDelegation : Ledger where
  accounts := ⟨[(delegatorKey.address, { balance := 100 })], List.pairwise_singleton _ _⟩
  validators := ⟨[(bondedValidator, { publicKey := ⟨List.replicate 32 9⟩ })],
    List.pairwise_singleton _ _⟩

/-- The same ledger once `delegateTx` applied. -/
def afterDelegation : Ledger :=
  { beforeDelegation with
    accounts := ⟨[(delegatorKey.address, { balance := 68, nonce := 1 })], List.pairwise_singleton _ _⟩
    delegations := ⟨[(bondedValidator, ⟨[(delegatorKey.address, 30)], List.pairwise_singleton _ _⟩)],
      List.pairwise_singleton _ _⟩
    feePool := 2 }

/-- The delegated ledger with the validator's own stake of 40 and an unbonding entry of the
delegator's that matures at height 3. -/
def bondedLedger : Ledger :=
  { afterDelegation.setAccount bondedValidator { staked := 40 } with
    unbonding := [⟨delegatorKey.address, bondedValidator, 10, 0, 3⟩] }

/-- An evidence id. -/
def offenseEvidence : Digest := ⟨List.replicate 32 5⟩

/-- `bondedLedger` after a penalty at height 5 for an offense at height 0: half of the
validator's stake and of the delegation to it burnt, the matured entry out of reach. -/
def penalizedLedger : Ledger :=
  { bondedLedger.setAccount bondedValidator { staked := 20 } with
    delegations := ⟨[(bondedValidator, ⟨[(delegatorKey.address, 15)], List.pairwise_singleton _ _⟩)],
      List.pairwise_singleton _ _⟩
    burned := 35
    validators := ⟨[(bondedValidator,
      { publicKey := ⟨List.replicate 32 9⟩, status := .jailed 105, slashedTotal := 35,
        infractions := [⟨offenseEvidence, .doubleVote, 0, 5, 35⟩] })], List.pairwise_singleton _ _⟩
    appliedEvidence := ⟨[(offenseEvidence, ())], List.pairwise_singleton _ _⟩
    offenses := ⟨[(⟨bondedValidator, 0⟩, ())], List.pairwise_singleton _ _⟩ }

theorem ledger_arithmetic_in_range_on_delegation :
    beforeDelegation.nonce delegateTx.sender < Word.max ∧
    (beforeDelegation.applyVerified {} delegateTx).run =
      .ok (.ok (afterDelegation, ⟨delegateTx.hash, GasSchedule.cost {} delegateTx, 2⟩)) ∧
    beforeDelegation.ExactWrites delegateTx afterDelegation ∧
    bondedLedger.Fits ∧
    bondedLedger.applyPenalty offenseEvidence bondedValidator .doubleVote 0 {} 5 =
      .ok (penalizedLedger, .applied bondedValidator 35 35 105) ∧
    (penalizedLedger.staked bondedValidator).toNat +
        (Ledger.cut (min ({} : LedgerParams).slashBps maxBps.toUInt64)
          (bondedLedger.staked bondedValidator)).toNat =
      (bondedLedger.staked bondedValidator).toNat ∧
    ((bondedLedger.beginBlock 5).balance delegatorKey.address).toNat =
      (bondedLedger.balance delegatorKey.address).toNat + 10 ∧
    (((bondedLedger.payFees bondedValidator).1).balance bondedValidator).toNat =
      (bondedLedger.balance bondedValidator).toNat + 2 := by
  have hnonce : beforeDelegation.nonce delegateTx.sender < Word.max := by decide +kernel
  have hrun : (beforeDelegation.applyVerified {} delegateTx).run =
      .ok (.ok (afterDelegation, ⟨delegateTx.hash, GasSchedule.cost {} delegateTx, 2⟩)) := by
    decide +kernel
  have hfit : bondedLedger.Fits := by decide +kernel
  have hpen : bondedLedger.applyPenalty offenseEvidence bondedValidator .doubleVote 0 {} 5 =
      .ok (penalizedLedger, .applied bondedValidator 35 35 105) := by decide +kernel
  obtain ⟨-, hexact, -, hcut, hbegin, hfees⟩ := ledger_arithmetic_in_range
  have hmatured : Ledger.unbondingValue ((bondedLedger.unbonding.filter
      fun e => e.releaseHeight ≤ 5).filter fun e => e.address = delegatorKey.address) = 10 := by
    decide +kernel
  have hpool : bondedLedger.feePool.toNat = 2 := by decide +kernel
  refine ⟨hnonce, hrun, hexact _ _ _ _ _ hrun, hfit, hpen,
    (hcut _ _ _ _ _ _ _ _ _ _ _ _ hpen).1, ?_, ?_⟩
  · rw [hbegin _ _ hfit, hmatured]
  · rw [hfees _ _ hfit, hpool]

end StakeChain

import StakeChain.Proofs.Ledger.Accounts

/-!
# Runs of ledger operations

A ledger is driven by seven operations: genesis funding and bonding, a transaction with or
without its signature check, the start of a block, the payment of fees and a penalty.
`LedgerOp.run` performs one.  An operation that is refused leaves the ledger as it was, and a
transaction that applies is reported.  `runOps` performs a list of them in order, stopping only
where a step stops the run (`Abort`); it hands back the last ledger and the transactions that
applied, in order.

Nonces are the ledger's replay protection.  Every operation other than a transaction that
applies keeps every nonce (`LedgerOp.run_nonce`), and a transaction that applies carried its
sender's nonce and advances it by one.  Along a run, then, each address's nonce rises by the
number of its transactions that applied, and these carry consecutive nonces from the one the
address had at the start; a transaction that applied is refused as a replay in every later
state (`nonces_along_run`).
-/

set_option autoImplicit false

namespace StakeChain

/-- An operation on a ledger. -/
inductive LedgerOp where
  | creditGenesis (a : Address) (amount : UInt64)
  | bondGenesis (pk : PublicKey) (stake : UInt64)
  /-- A transaction, its signature checked first. -/
  | transaction (params : LedgerParams) (tx : Transaction)
  /-- A transaction whose signature was checked elsewhere. -/
  | verified (params : LedgerParams) (tx : Transaction)
  | beginBlock (height : UInt64)
  | payFees (proposer : Address)
  | penalty (evidenceId : Digest) (offender : Address) (kind : EvidenceKind)
      (offenseHeight : UInt64) (params : LedgerParams) (height : UInt64)

namespace LedgerOp

/-- The ledger an operation hands back, or the one it started from when it was refused. -/
def orKeep {ε : Type} (l : Ledger) : Except ε Ledger → Ledger
  | .ok l' => l'
  | .error _ => l

/-- The outcome of a transaction: the new ledger and the transaction when it applied, the ledger
as it was when it was refused. -/
def applied (l : Ledger) (tx : Transaction) :
    Except Abort (Except LedgerError (Ledger × Receipt)) →
      Except Abort (Ledger × Option Transaction)
  | .ok (.ok (l', _)) => .ok (l', some tx)
  | .ok (.error _) => .ok (l, none)
  | .error e => .error e

/-- Performs an operation: the ledger after it, and the transaction if one applied. -/
def run (l : Ledger) : LedgerOp → Except Abort (Ledger × Option Transaction)
  | .creditGenesis a amount => .ok (orKeep l (l.creditGenesis a amount), none)
  | .bondGenesis pk stake => .ok (orKeep l (l.bondGenesis pk stake), none)
  | .transaction params tx => applied l tx (l.applyTransaction params tx).run
  | .verified params tx => applied l tx (l.applyVerified params tx).run
  | .beginBlock height => .ok (l.beginBlock height, none)
  | .payFees proposer => .ok ((l.payFees proposer).1, none)
  | .penalty id offender kind offenseHeight params height =>
    .ok (orKeep l (Prod.fst <$> l.applyPenalty id offender kind offenseHeight params height), none)

/-- What holds of the ledger given and of every ledger the operation hands back holds of the
outcome. -/
theorem orKeep_of {ε : Type} (P : Ledger → Prop) {l : Ledger} {r : Except ε Ledger} (hl : P l)
    (h : ∀ l', r = .ok l' → P l') : P (orKeep l r) := by
  cases r with
  | ok l' => exact h l' rfl
  | error e => exact hl

end LedgerOp

/-- Performs operations in order: the last ledger and the transactions that applied. -/
def runOps (l : Ledger) : List LedgerOp → Except Abort (Ledger × List Transaction)
  | [] => .ok (l, [])
  | op :: ops =>
    match op.run l with
    | .error e => .error e
    | .ok (l₁, t) =>
      match runOps l₁ ops with
      | .error e => .error e
      | .ok (l₂, ts) => .ok (l₂, t.toList ++ ts)

theorem runOps_cons_eq_ok {l l₂ : Ledger} {op : LedgerOp} {ops : List LedgerOp}
    {ts : List Transaction} (h : runOps l (op :: ops) = .ok (l₂, ts)) :
    ∃ l₁ t ts', op.run l = .ok (l₁, t) ∧ runOps l₁ ops = .ok (l₂, ts') ∧ ts = t.toList ++ ts' := by
  unfold runOps at h
  split at h
  · cases h
  · rename_i l₁ t hop
    split at h
    · cases h
    · rename_i l₂' ts' hrest
      simp only [Except.ok.injEq, Prod.mk.injEq] at h
      obtain ⟨rfl, rfl⟩ := h
      exact ⟨l₁, t, ts', hop, hrest, rfl⟩

/-- What every operation keeps, every run keeps. -/
theorem runOps_induction (P : Ledger → Prop)
    (hstep : ∀ (op : LedgerOp) (l l₁ : Ledger) (t : Option Transaction),
      op.run l = .ok (l₁, t) → P l → P l₁) :
    ∀ (ops : List LedgerOp) (l l' : Ledger) (ts : List Transaction),
      runOps l ops = .ok (l', ts) → P l → P l'
  | [], l, l', ts, h, hl => by
    simp only [runOps, Except.ok.injEq, Prod.mk.injEq] at h
    rw [← h.1]
    exact hl
  | op :: ops, l, l', ts, h, hl => by
    obtain ⟨l₁, t, ts', hop, hrest, -⟩ := runOps_cons_eq_ok h
    exact runOps_induction P hstep ops l₁ l' ts' hrest (hstep op l l₁ t hop hl)

namespace Ledger

/-! ## Nonces -/

/-- Every address has the same nonce in `l'` as in `l`. -/
def KeepsNonces (l l' : Ledger) : Prop := ∀ a, l'.nonce a = l.nonce a

section KeepsNonces

variable {l l' l'' : Ledger}

theorem KeepsNonces.refl (l : Ledger) : l.KeepsNonces l := fun _ => rfl

theorem KeepsNonces.trans (h₁ : l.KeepsNonces l') (h₂ : l'.KeepsNonces l'') :
    l.KeepsNonces l'' :=
  fun a => (h₂ a).trans (h₁ a)

theorem keepsNonces_of_accounts_eq (h : l'.accounts = l.accounts) : l.KeepsNonces l' := by
  intro a
  simp only [nonce, account, h]

theorem nonce_setAccount (l : Ledger) (a b : Address) (acct : Account) :
    (l.setAccount a acct).nonce b = if b = a then acct.nonce else l.nonce b := by
  simp only [nonce, account_setAccount]
  split <;> rfl

/-- Writing an account with the nonce it had keeps every nonce. -/
theorem keepsNonces_setAccount {a : Address} {acct : Account}
    (h : acct.nonce = (l.account a).nonce) : l.KeepsNonces (l.setAccount a acct) := by
  intro b
  rw [nonce_setAccount]
  split
  · rename_i hb
    rw [hb, h]
    rfl
  · rfl

/-- A ledger whose accounts are those of `l` with one account written with the nonce it had
has the nonces of `l`. -/
theorem keepsNonces_of_accounts_setAccount {a : Address} {acct : Account}
    (h : l'.accounts = (l.setAccount a acct).accounts) (hn : acct.nonce = (l.account a).nonce) :
    l.KeepsNonces l' :=
  (keepsNonces_setAccount hn).trans (keepsNonces_of_accounts_eq h)

end KeepsNonces

theorem keepsNonces_credit (l : Ledger) (a : Address) (amount : UInt64) :
    l.KeepsNonces (l.credit a amount) :=
  keepsNonces_setAccount rfl

theorem keepsNonces_foldl_credit :
    ∀ (es : List UnbondingEntry) (l : Ledger),
      l.KeepsNonces (es.foldl (fun l e => l.credit e.address e.amount) l)
  | [], l => .refl l
  | e :: rest, l => (keepsNonces_credit l e.address e.amount).trans (keepsNonces_foldl_credit rest _)

theorem keepsNonces_beginBlock (l : Ledger) (height : UInt64) :
    l.KeepsNonces (l.beginBlock height) := by
  obtain ⟨vs, heq⟩ := beginBlock_eq l height
  rw [heq]
  dsimp only
  intro a
  exact keepsNonces_foldl_credit _ { l with height := height, unbonding := _ } a

theorem keepsNonces_payFees (l : Ledger) (proposer : Address) :
    l.KeepsNonces (l.payFees proposer).1 := by
  unfold payFees
  dsimp only
  split
  · exact keepsNonces_of_accounts_setAccount rfl rfl
  · exact keepsNonces_of_accounts_eq rfl

theorem keepsNonces_applyPenalty {l l' : Ledger} {evidenceId : Digest} {offender : Address}
    {kind : EvidenceKind} {offenseHeight : UInt64} {params : LedgerParams} {height : UInt64}
    {o : PenaltyOutcome}
    (h : l.applyPenalty evidenceId offender kind offenseHeight params height = .ok (l', o)) :
    l.KeepsNonces l' := by
  obtain ⟨-, ⟨-, rfl, -⟩ | ⟨_, _, l₁, l₂, l₃, _, _, -, -, -, hl₁, hcd, hcu, rfl, -⟩⟩ :=
    applyPenalty_cases h
  · exact keepsNonces_of_accounts_eq rfl
  have h₂ : l₂.accounts = l₁.accounts := by rw [cutDelegations_frame hcd]
  have h₃ : l₃.accounts = l₂.accounts := by rw [cutUnbonding_frame hcu]
  subst hl₁
  exact keepsNonces_of_accounts_setAccount (h₃.trans h₂) rfl

theorem keepsNonces_creditGenesis {l l' : Ledger} {a : Address} {amount : UInt64}
    (h : l.creditGenesis a amount = .ok l') : l.KeepsNonces l' := by
  unfold creditGenesis at h
  obtain ⟨balance, -, h⟩ := Except.bind_eq_ok h
  cases h
  exact keepsNonces_setAccount rfl

theorem keepsNonces_bondGenesis {l l' : Ledger} {pk : PublicKey} {stake : UInt64}
    (h : l.bondGenesis pk stake = .ok l') : l.KeepsNonces l' := by
  unfold bondGenesis at h
  obtain ⟨staked, -, h⟩ := Except.bind_eq_ok h
  cases h
  split
  · exact keepsNonces_setAccount rfl
  · exact keepsNonces_of_accounts_setAccount rfl rfl


/-- A refused transaction is no transaction: the ledger is the one given. -/
theorem applied_eq_ok {l l' : Ledger} {tx : Transaction}
    {r : Except Abort (Except LedgerError (Ledger × Receipt))} {t : Option Transaction}
    (h : LedgerOp.applied l tx r = .ok (l', t)) :
    (t = none ∧ l' = l) ∨ (t = some tx ∧ ∃ rc, r = .ok (.ok (l', rc))) := by
  unfold LedgerOp.applied at h
  split at h
  · simp only [Except.ok.injEq, Prod.mk.injEq] at h
    obtain ⟨rfl, rfl⟩ := h
    exact .inr ⟨rfl, _, rfl⟩
  · simp only [Except.ok.injEq, Prod.mk.injEq] at h
    obtain ⟨rfl, rfl⟩ := h
    exact .inl ⟨rfl, rfl⟩
  · cases h

/-- A transaction that applies carried its sender's nonce, advances it by one and moves no
other nonce. -/
theorem applyVerified_nonce_step {l l' : Ledger} {params : LedgerParams} {tx : Transaction}
    {r : Receipt} (h : (l.applyVerified params tx).run = .ok (.ok (l', r))) (a : Address) :
    tx.nonce = l.nonce tx.sender ∧
      (l'.nonce a).toNat = (l.nonce a).toNat + ([tx].filter (·.sender = a)).length := by
  obtain ⟨-, -, -, -, -, -, -, -, hnonce, -⟩ := applyVerified_inv h
  refine ⟨hnonce, ?_⟩
  have hstep := applyVerified_nonce h a
  simp only [nonce] at hstep ⊢
  by_cases ha : a = tx.sender
  · subst ha
    rw [hstep, if_pos rfl, hnonce]
    simp
  · rw [hstep, if_neg ha]
    simp [Ne.symm ha]

end Ledger

open Ledger

/-- One operation moves a nonce only through a transaction that applied: the sender's, by one,
from the nonce the transaction carried. -/
theorem LedgerOp.run_nonce {op : LedgerOp} {l l' : Ledger} {t : Option Transaction}
    (h : op.run l = .ok (l', t)) (a : Address) :
    (l'.nonce a).toNat = (l.nonce a).toNat + (t.toList.filter (·.sender = a)).length ∧
      ∀ tx, t = some tx → tx.nonce = l.nonce tx.sender := by
  have hkeep : l.KeepsNonces l' → t = none →
      (l'.nonce a).toNat = (l.nonce a).toNat + (t.toList.filter (·.sender = a)).length ∧
        ∀ tx, t = some tx → tx.nonce = l.nonce tx.sender := by
    rintro hk rfl
    exact ⟨by simp [hk a], fun _ h => by cases h⟩
  cases op with
  | creditGenesis b amount =>
    simp only [run, Except.ok.injEq, Prod.mk.injEq] at h
    obtain ⟨rfl, rfl⟩ := h
    exact hkeep (orKeep_of l.KeepsNonces (.refl l) fun _ => keepsNonces_creditGenesis) rfl
  | bondGenesis pk stake =>
    simp only [run, Except.ok.injEq, Prod.mk.injEq] at h
    obtain ⟨rfl, rfl⟩ := h
    exact hkeep (orKeep_of l.KeepsNonces (.refl l) fun _ => keepsNonces_bondGenesis) rfl
  | transaction params tx =>
    rcases applied_eq_ok h with ⟨rfl, rfl⟩ | ⟨rfl, rc, hr⟩
    · exact hkeep (.refl _) rfl
    · obtain ⟨-, happ⟩ := applyTransaction_eq_ok hr
      obtain ⟨hn, hstep⟩ := applyVerified_nonce_step happ a
      exact ⟨hstep, fun _ ht => by cases ht; exact hn⟩
  | verified params tx =>
    rcases applied_eq_ok h with ⟨rfl, rfl⟩ | ⟨rfl, rc, hr⟩
    · exact hkeep (.refl _) rfl
    · obtain ⟨hn, hstep⟩ := applyVerified_nonce_step hr a
      exact ⟨hstep, fun _ ht => by cases ht; exact hn⟩
  | beginBlock height =>
    simp only [run, Except.ok.injEq, Prod.mk.injEq] at h
    obtain ⟨rfl, rfl⟩ := h
    exact hkeep (keepsNonces_beginBlock l height) rfl
  | payFees proposer =>
    simp only [run, Except.ok.injEq, Prod.mk.injEq] at h
    obtain ⟨rfl, rfl⟩ := h
    exact hkeep (keepsNonces_payFees l proposer) rfl
  | penalty id offender kind offenseHeight params height =>
    simp only [run, Except.ok.injEq, Prod.mk.injEq] at h
    obtain ⟨rfl, rfl⟩ := h
    refine hkeep (orKeep_of l.KeepsNonces (.refl l) fun l' hl' => ?_) rfl
    obtain ⟨⟨l₁, o⟩, hpen, rfl⟩ := Except.map_eq_ok hl'
    exact keepsNonces_applyPenalty hpen

namespace Ledger

/-- A transaction whose chain id is the parameters' and whose nonce is not its sender's is
refused with the nonce the sender is at. -/
theorem applyVerified_nonceMismatch {l : Ledger} {params : LedgerParams} {tx : Transaction}
    (hchain : params.chainId = tx.chainId) (hne : tx.nonce ≠ l.nonce tx.sender) :
    (l.applyVerified params tx).run =
      .ok (.error (.nonceMismatch (l.nonce tx.sender) tx.nonce)) := by
  have hne' : tx.nonce ≠ (l.account tx.sender).nonce := hne
  unfold applyVerified
  simp [hchain, hne']
  rfl

/-- A transaction whose signature verifies is applied as a verified one. -/
theorem applyTransaction_of_verifies {l : Ledger} {params : LedgerParams} {tx : Transaction}
    (h : tx.verifySignature = .ok ()) :
    (l.applyTransaction params tx).run = (l.applyVerified params tx).run := by
  unfold applyTransaction
  simp [h]

end Ledger

/-- Along a run, each address's nonce rises by the number of its transactions that applied,
and these carried consecutive nonces from the address's nonce at the start. -/
theorem runOps_nonce :
    ∀ (ops : List LedgerOp) (l l' : Ledger) (ts : List Transaction),
      runOps l ops = .ok (l', ts) → ∀ a,
        (l'.nonce a).toNat = (l.nonce a).toNat + (ts.filter (·.sender = a)).length ∧
        (ts.filter (·.sender = a)).map (·.nonce.toNat) =
          List.range' (l.nonce a).toNat (ts.filter (·.sender = a)).length
  | [], l, l', ts, h, a => by
    simp only [runOps, Except.ok.injEq, Prod.mk.injEq] at h
    obtain ⟨rfl, rfl⟩ := h
    simp
  | op :: ops, l, l', ts, h, a => by
    obtain ⟨l₁, t, ts', hop, hrest, rfl⟩ := runOps_cons_eq_ok h
    obtain ⟨hstep, hcarried⟩ := LedgerOp.run_nonce hop a
    obtain ⟨hcount, hrange⟩ := runOps_nonce ops l₁ l' ts' hrest a
    refine ⟨?_, ?_⟩
    · rw [List.filter_append, List.length_append]
      omega
    · -- the first operation contributes its transaction when it applied and `a` sent it
      cases t with
      | none =>
        simp only [Option.toList_none, List.filter_nil, List.length_nil, Nat.add_zero] at hstep
        simpa [hstep] using hrange
      | some tx =>
        by_cases hs : tx.sender = a
        · subst hs
          have hn := hcarried tx rfl
          simp at hstep
          simp [List.range'_succ, hrange, hstep, hn]
        · simp [hs] at hstep
          simpa [hs, hstep] using hrange

/-- Every transaction that applied along a run carried a nonce its sender has passed at the
end. -/
theorem runOps_nonce_lt :
    ∀ (ops : List LedgerOp) (l l' : Ledger) (ts : List Transaction),
      runOps l ops = .ok (l', ts) → ∀ tx ∈ ts, tx.nonce.toNat < (l'.nonce tx.sender).toNat
  | [], l, l', ts, h, tx, hmem => by
    simp only [runOps, Except.ok.injEq, Prod.mk.injEq] at h
    rw [← h.2] at hmem
    cases hmem
  | op :: ops, l, l', ts, h, tx, hmem => by
    obtain ⟨l₁, t, ts', hop, hrest, rfl⟩ := runOps_cons_eq_ok h
    rcases List.mem_append.mp hmem with hfirst | hlater
    · -- applied first: its sender's nonce moved past it, and never moves back
      have ht : t = some tx := by
        cases t with
        | none => cases hfirst
        | some t' => simpa [eq_comm] using hfirst
      obtain ⟨hstep, hcarried⟩ := LedgerOp.run_nonce hop tx.sender
      have hcount := (runOps_nonce ops l₁ l' ts' hrest tx.sender).1
      rw [hcarried tx ht]
      subst ht
      simp at hstep
      omega
    · exact runOps_nonce_lt ops l₁ l' ts' hrest tx hlater

/-- Replay protection over whole runs.  Along a run, each address's nonce rises by exactly one
for each of its transactions that applied and does not otherwise move, so these transactions
carried consecutive nonces from the address's nonce at the start; and a transaction that
applied is refused at the end of the run, and so in every later state, with a nonce mismatch
that reports a replay. -/
theorem nonces_along_run {l l' : Ledger} {ops : List LedgerOp} {ts : List Transaction}
    (h : runOps l ops = .ok (l', ts)) :
    (∀ a, (l'.nonce a).toNat = (l.nonce a).toNat + (ts.filter (·.sender = a)).length ∧
      (ts.filter (·.sender = a)).map (·.nonce.toNat) =
        List.range' (l.nonce a).toNat (ts.filter (·.sender = a)).length) ∧
    ∀ tx ∈ ts, ∀ params : LedgerParams, params.chainId = tx.chainId →
      (LedgerError.nonceMismatch (l'.nonce tx.sender) tx.nonce).isReplay = true ∧
      (l'.applyVerified params tx).run =
        .ok (.error (.nonceMismatch (l'.nonce tx.sender) tx.nonce)) ∧
      (tx.verifySignature = .ok () → (l'.applyTransaction params tx).run =
        .ok (.error (.nonceMismatch (l'.nonce tx.sender) tx.nonce))) := by
  refine ⟨runOps_nonce ops l l' ts h, fun tx hmem params hchain => ?_⟩
  have hlt := runOps_nonce_lt ops l l' ts h tx hmem
  have hne : tx.nonce ≠ l'.nonce tx.sender := by
    intro heq
    rw [heq] at hlt
    exact Nat.lt_irrefl _ hlt
  have hreject := applyVerified_nonceMismatch hchain hne
  refine ⟨?_, hreject, fun hsig => (applyTransaction_of_verifies hsig).trans hreject⟩
  simpa [LedgerError.isReplay, UInt64.lt_iff_toNat_lt] using hlt

/-- A transfer of nothing to oneself, free, at nonce 0. -/
def selfTransfer : Transaction :=
  { chainId := 1, senderKey := ⟨List.replicate 32 7⟩, nonce := 0, fee := 0, gasLimit := 100000,
    kind := .transfer (PublicKey.address ⟨List.replicate 32 7⟩) 0, memo := [], signature := [] }

/-- The ledger after `selfTransfer` applied to the empty ledger and block 1 began. -/
def afterSelfTransfer : Ledger := (({} : Ledger).setAccount selfTransfer.sender { nonce := 1 }).beginBlock 1

/-- After a free transfer to oneself and the start of a block, the sender's nonce is 1 and the
transfer is refused as a replay. -/
theorem nonces_along_run_after_selfTransfer :
    runOps {} [.verified {} selfTransfer, .beginBlock 1] = .ok (afterSelfTransfer, [selfTransfer]) ∧
    ((∀ a, (afterSelfTransfer.nonce a).toNat =
          (({} : Ledger).nonce a).toNat + ([selfTransfer].filter (·.sender = a)).length ∧
        ([selfTransfer].filter (·.sender = a)).map (·.nonce.toNat) =
          List.range' (({} : Ledger).nonce a).toNat ([selfTransfer].filter (·.sender = a)).length) ∧
      ∀ tx ∈ [selfTransfer], ∀ params : LedgerParams, params.chainId = tx.chainId →
        (LedgerError.nonceMismatch (afterSelfTransfer.nonce tx.sender) tx.nonce).isReplay = true ∧
        (afterSelfTransfer.applyVerified params tx).run =
          .ok (.error (.nonceMismatch (afterSelfTransfer.nonce tx.sender) tx.nonce)) ∧
        (tx.verifySignature = .ok () → (afterSelfTransfer.applyTransaction params tx).run =
          .ok (.error (.nonceMismatch (afterSelfTransfer.nonce tx.sender) tx.nonce)))) := by
  have hrun : runOps {} [.verified {} selfTransfer, .beginBlock 1] =
      .ok (afterSelfTransfer, [selfTransfer]) := by
    decide +kernel
  exact ⟨hrun, nonces_along_run hrun⟩

end StakeChain

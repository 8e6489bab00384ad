import StakeChain.Proofs.Ledger.Runs

/-!
# The representation invariant of a ledger's tables

The tables of a ledger keep a shape that the rest of the chain relies on (`Ledger.Consistent`):

* every account with self-stake belongs to a registered validator;
* every validator's commission is at most the whole (10000 basis points);
* every validator a delegation names is registered, its table of delegators is not empty, and
  every amount in it is positive;
* every unbonding entry holds a positive amount.

Records are never dropped either: every operation keeps each validator record under its address,
with the same key and its infractions at the front (`Ledger.KeepsRecords`).

Both hold along every run from the empty ledger, through genesis funding and bonding,
transactions that apply or are refused, the start of blocks, fee payments and penalties
(`ledger_tables_consistent`).  Each operation is taken once (`LedgerOp.run_consistent`); the
tables other than the accounts are handled by `Ledger.Tidy`, and self-stake by following which
accounts an operation writes.
-/

set_option autoImplicit false

namespace StakeChain

namespace KeyMap

variable {κ ν : Type} [Ord κ]

/-- Every entry of the map satisfies `P`. -/
def All (P : κ → ν → Prop) (m : KeyMap κ ν) : Prop := ∀ k v, (k, v) ∈ m.toList → P k v

section All

variable {P Q : κ → ν → Prop} {m : KeyMap κ ν}

theorem all_empty (P : κ → ν → Prop) : (empty : KeyMap κ ν).All P := fun _ _ h => by cases h

theorem All.mono (h : m.All P) (hPQ : ∀ k v, P k v → Q k v) : m.All Q :=
  fun k v hkv => hPQ k v (h k v hkv)

theorem All.filter (h : m.All P) (p : κ → ν → Bool) : (m.filter p).All P :=
  fun k' v' hmem => h k' v' (List.mem_of_mem_filter hmem)

theorem All.mapValues {μ : Type} {R : κ → μ → Prop} (h : m.All P) (f : κ → ν → μ)
    (hf : ∀ k v, P k v → R k (f k v)) : (m.mapValues f).All R := by
  intro k' v' hmem
  obtain ⟨⟨k, v⟩, hkv, heq⟩ := List.mem_map.mp hmem
  cases heq
  exact hf k v (h k v hkv)

theorem All.insert [Std.TransOrd κ] (h : m.All P) {k : κ} {v : ν} (hkv : P k v) : (m.insert k v).All P := by
  intro k' v' hmem
  rcases mem_insertEntry hmem with heq | hold
  · cases heq
    exact hkv
  · exact h k' v' hold

theorem All.erase (h : m.All P) (k : κ) : (m.erase k).All P :=
  fun k' v' hmem => h k' v' (List.mem_of_mem_filter hmem)

variable [DecidableEq κ] [Std.LawfulEqOrd κ]

theorem All.of_get? (h : m.All P) {k : κ} {v : ν} (hget : m.get? k = some v) : P k v :=
  h k v (mem_toList_of_get? hget)

theorem All.modify [Std.TransOrd κ] (h : m.All P) (k : κ) {f : ν → ν} (hf : ∀ v, P k v → P k (f v)) :
    (m.modify k f).All P := by
  rw [modify_eq]
  cases hget : m.get? k with
  | none => exact h
  | some v => exact h.insert (hf v (h.of_get? hget))

end All

end KeyMap

/-! ## Validator records -/

theorem Word.le_addSat (a b : UInt64) : a ≤ Word.addSat a b := by
  rw [UInt64.le_iff_toNat_le, Word.addSat_toNat]
  have := a.toNat_lt
  have := Word.size_eq
  omega

/-- `r'` carries `r` forward: the same key, at least the slashed total of `r`, and the
infractions of `r` at the front.  A record replaced by a fresh one loses its slashing history. -/
def ValidatorRecord.Continues (r r' : ValidatorRecord) : Prop :=
  r'.publicKey = r.publicKey ∧ r.slashedTotal ≤ r'.slashedTotal ∧ r.infractions <+: r'.infractions

theorem ValidatorRecord.Continues.refl (r : ValidatorRecord) : r.Continues r :=
  ⟨rfl, UInt64.le_refl _, List.prefix_refl _⟩

theorem ValidatorRecord.Continues.trans {r r' r'' : ValidatorRecord} (h₁ : r.Continues r')
    (h₂ : r'.Continues r'') : r.Continues r'' :=
  ⟨h₂.1.trans h₁.1, UInt64.le_trans h₁.2.1 h₂.2.1, h₁.2.2.trans h₂.2.2⟩

/-- A record whose status or commission changes carries itself forward. -/
theorem ValidatorRecord.Continues.of_history {r r' : ValidatorRecord}
    (hk : r'.publicKey = r.publicKey) (hs : r'.slashedTotal = r.slashedTotal)
    (hi : r'.infractions = r.infractions) : r.Continues r' :=
  ⟨hk, hs ▸ UInt64.le_refl _, hi ▸ List.prefix_refl _⟩

/-- Every record of `vs` is carried forward in `vs'` under its address. -/
def RecordsKept (vs vs' : KeyMap Address ValidatorRecord) : Prop :=
  ∀ (a : Address) (r : ValidatorRecord), vs.get? a = some r →
    ∃ r' : ValidatorRecord, vs'.get? a = some r' ∧ r.Continues r'

namespace RecordsKept

variable {vs vs' vs'' : KeyMap Address ValidatorRecord}

theorem refl (vs : KeyMap Address ValidatorRecord) : RecordsKept vs vs :=
  fun _ r h => ⟨r, h, .refl r⟩

theorem trans (h₁ : RecordsKept vs vs') (h₂ : RecordsKept vs' vs'') : RecordsKept vs vs'' := by
  intro a r h
  obtain ⟨r', h', hc'⟩ := h₁ a r h
  obtain ⟨r'', h'', hc''⟩ := h₂ a r' h'
  exact ⟨r'', h'', hc'.trans hc''⟩

/-- A registered validator stays registered. -/
theorem contains (h : RecordsKept vs vs') {a : Address} (ha : vs.contains a = true) :
    vs'.contains a = true := by
  rw [KeyMap.contains_eq, Option.isSome_iff_exists] at ha ⊢
  obtain ⟨r, hr⟩ := ha
  obtain ⟨r', hr', -⟩ := h a r hr
  exact ⟨r', hr'⟩

/-- Registering a new address keeps every record. -/
theorem insert_fresh {a : Address} (hfresh : vs.get? a = none) (r : ValidatorRecord) :
    RecordsKept vs (vs.insert a r) := by
  intro b r₀ hb
  refine ⟨r₀, ?_, .refl r₀⟩
  rw [KeyMap.get?_insert, if_neg]
  · exact hb
  · rintro rfl
    rw [hfresh] at hb
    cases hb

theorem modify (vs : KeyMap Address ValidatorRecord) (a : Address)
    {f : ValidatorRecord → ValidatorRecord} (hf : ∀ r : ValidatorRecord, r.Continues (f r)) :
    RecordsKept vs (vs.modify a f) := by
  intro b r hb
  rw [KeyMap.modify_eq]
  cases ha : vs.get? a with
  | none => exact ⟨r, hb, .refl r⟩
  | some r₀ =>
    dsimp only
    rw [KeyMap.get?_insert]
    split
    · rename_i hab
      subst hab
      rw [ha] at hb
      cases hb
      exact ⟨f r, rfl, hf r⟩
    · exact ⟨r, hb, .refl r⟩

theorem mapValues (vs : KeyMap Address ValidatorRecord)
    {f : Address → ValidatorRecord → ValidatorRecord}
    (hf : ∀ (a : Address) (r : ValidatorRecord), r.Continues (f a r)) :
    RecordsKept vs (vs.mapValues f) := by
  intro b r hb
  rw [KeyMap.get?_mapValues, hb]
  exact ⟨f b r, rfl, hf b r⟩

end RecordsKept

theorem KeyMap.all_filter_self {κ ν : Type} [Ord κ] (m : KeyMap κ ν) (p : κ → ν → Bool) :
    (m.filter p).All fun k v => p k v = true :=
  fun _ _ hmem => (List.mem_filter.mp hmem).2

theorem KeyMap.mem_insertEntry_self {κ ν : Type} [Ord κ] (k : κ) (v : ν) :
    ∀ l : List (κ × ν), (k, v) ∈ KeyMap.insertEntry k v l
  | [] => by simp [KeyMap.insertEntry]
  | (k', v') :: rest => by
    simp only [KeyMap.insertEntry]
    split
    · exact List.mem_cons_self
    · exact List.mem_cons_self
    · exact List.mem_cons_of_mem _ (mem_insertEntry_self k v rest)

theorem KeyMap.insert_toList_ne_nil {κ ν : Type} [Ord κ] [Std.TransOrd κ] (m : KeyMap κ ν) (k : κ)
    (v : ν) :
    (m.insert k v).toList ≠ [] :=
  List.ne_nil_of_mem (mem_insertEntry_self k v m.toList)

theorem UInt64.pos_iff_toNat_pos (x : UInt64) : 0 < x ↔ 0 < x.toNat := by
  rw [UInt64.lt_iff_toNat_lt, UInt64.toNat_zero]

namespace Ledger

/-! ## Delegation tables -/

/-- A delegation table in shape: every validator it names satisfies `registered` and holds a
nonempty table of positive amounts. -/
def DelegationsTidy (registered : Address → Prop) (d : KeyMap Address (KeyMap Address UInt64)) :
    Prop :=
  d.All fun v dels => registered v ∧ dels.toList ≠ [] ∧ dels.All fun _ amt => 0 < amt

section DelegationsTidy

variable {R R' : Address → Prop} {d : KeyMap Address (KeyMap Address UInt64)}

theorem DelegationsTidy.mono (h : DelegationsTidy R d) (hR : ∀ v, R v → R' v) :
    DelegationsTidy R' d :=
  KeyMap.All.mono h fun v _ hv => ⟨hR v hv.1, hv.2⟩

/-- A validator's table put back, or dropped when it is empty. -/
theorem DelegationsTidy.put (h : DelegationsTidy R d) {v : Address} (hv : R v)
    {dels : KeyMap Address UInt64} (hpos : dels.All fun _ amt => 0 < amt) :
    DelegationsTidy R (if dels.isEmpty then d.erase v else d.insert v dels) := by
  split
  · exact h.erase v
  · rename_i hne
    refine h.insert ⟨hv, fun hnil => hne ?_, hpos⟩
    obtain ⟨l, _⟩ := dels
    cases hnil
    rfl

/-- Delegating a positive amount, with room, to a registered validator. -/
theorem DelegationsTidy.addDelegation (h : DelegationsTidy R d) {v s : Address} {amt : UInt64}
    (hv : R v) (hamt : 0 < amt)
    (hfit : (delegationIn d v s).toNat + amt.toNat < UInt64.size) :
    DelegationsTidy R (Ledger.addDelegation d v s amt) := by
  rw [delegationIn_eq] at hfit
  have hold : (d.getD v .empty).All fun _ amt => 0 < amt := by
    rw [KeyMap.getD_eq]
    cases hget : d.get? v with
    | none => exact KeyMap.all_empty _
    | some dels => exact (h.of_get? hget).2.2
  have hnew : 0 < (d.getD v .empty).getD s 0 + amt := by
    rw [UInt64.pos_iff_toNat_pos, Word.add_toNat_of_lt hfit]
    rw [UInt64.pos_iff_toNat_pos] at hamt
    omega
  exact h.insert ⟨hv, KeyMap.insert_toList_ne_nil _ _ _, hold.insert hnew⟩

/-- Taking back a delegation: an entry left at zero is removed, and so is an emptied table. -/
theorem DelegationsTidy.subDelegation (h : DelegationsTidy R d) (v s : Address) (amt : UInt64) :
    DelegationsTidy R (Ledger.subDelegation d v s amt) := by
  unfold Ledger.subDelegation
  cases hv : d.get? v with
  | none => exact h
  | some dels =>
    obtain ⟨hreg, -, hpos⟩ := h.of_get? hv
    dsimp only
    refine h.put hreg ?_
    cases hs : dels.get? s with
    | none => exact hpos
    | some slot =>
      dsimp only
      split
      · exact hpos.erase s
      · rename_i hne
        refine hpos.insert ?_
        rw [UInt64.pos_iff_toNat_pos]
        rw [← UInt64.toNat_inj, UInt64.toNat_zero] at hne
        omega

end DelegationsTidy

/-! ## The invariant -/

/-- The tables other than the accounts in shape: commissions at most the whole, delegations to
registered validators in nonempty tables of positive amounts, positive unbonding entries. -/
structure Tidy (l : Ledger) : Prop where
  commissions : l.validators.All fun _ r => r.commissionBps ≤ maxBps
  delegations : DelegationsTidy (fun v => l.isValidator v = true) l.delegations
  unbonding : ∀ e ∈ l.unbonding, 0 < e.amount

/-- The representation invariant of a ledger: tidy tables, and every account with self-stake
belongs to a registered validator. -/
structure Consistent (l : Ledger) : Prop extends l.Tidy where
  stakers : l.accounts.All fun a acct => 0 < acct.staked → l.isValidator a = true

/-- Every validator record of `l` is carried forward in `l'` under its address. -/
def KeepsRecords (l l' : Ledger) : Prop := RecordsKept l.validators l'.validators

theorem KeepsRecords.refl (l : Ledger) : l.KeepsRecords l := RecordsKept.refl _

theorem KeepsRecords.trans {l l' l'' : Ledger} (h₁ : l.KeepsRecords l') (h₂ : l'.KeepsRecords l'') :
    l.KeepsRecords l'' :=
  RecordsKept.trans h₁ h₂

theorem consistent_empty : ({} : Ledger).Consistent :=
  ⟨⟨KeyMap.all_empty _, KeyMap.all_empty _, fun _ h => by cases h⟩, KeyMap.all_empty _⟩

section Invariant

variable {l l' : Ledger}

theorem KeepsRecords.isValidator (h : l.KeepsRecords l') {a : Address}
    (ha : l.isValidator a = true) : l'.isValidator a = true :=
  RecordsKept.contains h ha

theorem Tidy.congr (h : l.Tidy) (hv : l'.validators = l.validators)
    (hd : l'.delegations = l.delegations) (hu : l'.unbonding = l.unbonding) : l'.Tidy := by
  obtain ⟨hc, hdel, hunb⟩ := h
  refine ⟨hv ▸ hc, ?_, hu ▸ hunb⟩
  rw [hd]
  exact hdel.mono fun v hreg => by rw [isValidator, hv]; exact hreg

theorem Consistent.congr (h : l.Consistent) (ha : l'.accounts = l.accounts)
    (hv : l'.validators = l.validators) (hd : l'.delegations = l.delegations)
    (hu : l'.unbonding = l.unbonding) : l'.Consistent := by
  refine ⟨h.toTidy.congr hv hd hu, ?_⟩
  rw [ha]
  exact h.stakers.mono fun a _ hs hpos => by rw [isValidator, hv]; exact hs hpos

theorem Tidy.withValidators (h : l.Tidy) {vs : KeyMap Address ValidatorRecord}
    (hkeep : RecordsKept l.validators vs) (hcomm : vs.All fun _ r => r.commissionBps ≤ maxBps) :
    ({ l with validators := vs } : Ledger).Tidy :=
  ⟨hcomm, h.delegations.mono fun _ hv => hkeep.contains hv, h.unbonding⟩

/-- A validator table that carries every record forward, with commissions at most the whole,
keeps the invariant. -/
theorem Consistent.withValidators (h : l.Consistent) {vs : KeyMap Address ValidatorRecord}
    (hkeep : RecordsKept l.validators vs) (hcomm : vs.All fun _ r => r.commissionBps ≤ maxBps) :
    ({ l with validators := vs } : Ledger).Consistent :=
  ⟨h.toTidy.withValidators hkeep hcomm, h.stakers.mono fun _ _ hs hpos => hkeep.contains (hs hpos)⟩

theorem validators_get?_of_not_isValidator {a : Address} (h : l.isValidator a = false) :
    l.validators.get? a = none := by
  rw [isValidator, KeyMap.contains_eq, Option.isSome_eq_false_iff, Option.isNone_iff_eq_none] at h
  exact h

theorem isValidator_insert_self (a : Address) (r : ValidatorRecord) :
    ({ l with validators := l.validators.insert a r } : Ledger).isValidator a = true := by
  simp [isValidator, KeyMap.contains_eq]

theorem Consistent.isValidator_of_staked (h : l.Consistent) {a : Address}
    (hs : 0 < (l.account a).staked) : l.isValidator a = true := by
  rw [account_eq] at hs
  cases hget : l.accounts.get? a with
  | none =>
    rw [hget] at hs
    exact absurd hs (by decide)
  | some acct =>
    rw [hget] at hs
    exact h.stakers.of_get? hget hs

/-- Writing an account keeps the invariant when its self-stake, if any, belongs to a registered
validator. -/
theorem Consistent.setAccount (h : l.Consistent) {a : Address} {acct : Account}
    (hs : 0 < acct.staked → l.isValidator a = true) : (l.setAccount a acct).Consistent :=
  ⟨h.toTidy.congr rfl rfl rfl, h.stakers.insert hs⟩

/-- Writing an account with the self-stake it had keeps the invariant. -/
theorem Consistent.setAccount_staked (h : l.Consistent) {a : Address} {acct : Account}
    (hs : acct.staked = (l.account a).staked) : (l.setAccount a acct).Consistent :=
  h.setAccount fun hpos => h.isValidator_of_staked (hs ▸ hpos)

end Invariant

/-! ## Genesis, blocks and fees -/

section Operations

variable {l l' : Ledger}

theorem consistent_creditGenesis (h : l.Consistent) {a : Address} {amount : UInt64}
    (hc : l.creditGenesis a amount = .ok l') : l'.Consistent ∧ l.KeepsRecords l' := by
  unfold creditGenesis at hc
  obtain ⟨balance, -, hc⟩ := Except.bind_eq_ok hc
  cases hc
  exact ⟨h.setAccount_staked rfl, .refl _⟩

theorem defaultCommission_le : defaultCommissionBps ≤ maxBps := by decide

/-- Bonding at genesis registers the key's address, unless it is registered already. -/
theorem consistent_bondGenesis (h : l.Consistent) {pk : PublicKey} {stake : UInt64}
    (hb : l.bondGenesis pk stake = .ok l') : l'.Consistent ∧ l.KeepsRecords l' := by
  unfold bondGenesis at hb
  obtain ⟨staked, -, hb⟩ := Except.bind_eq_ok hb
  cases hb
  split
  · rename_i hreg
    exact ⟨h.setAccount fun _ => hreg, .refl _⟩
  · rename_i hfresh
    have hnone : l.validators.get? pk.address = none := by
      simp only [KeyMap.contains_eq, Option.not_isSome_iff_eq_none] at hfresh
      exact hfresh
    have hkeep := RecordsKept.insert_fresh hnone { publicKey := pk }
    have hreg := h.withValidators hkeep (h.commissions.insert defaultCommission_le)
    refine ⟨hreg.setAccount fun _ => ?_, hkeep⟩
    simp [isValidator, KeyMap.contains_eq]

theorem consistent_payFees (h : l.Consistent) (proposer : Address) :
    (l.payFees proposer).1.Consistent ∧ l.KeepsRecords (l.payFees proposer).1 := by
  unfold payFees
  dsimp only
  have hpool : ({ l with feePool := 0 } : Ledger).Consistent := h.congr rfl rfl rfl rfl
  split
  · exact ⟨hpool.setAccount_staked rfl, .refl _⟩
  · exact ⟨hpool, .refl _⟩

theorem consistent_foldl_credit :
    ∀ (es : List UnbondingEntry) (l : Ledger), l.Consistent →
      (es.foldl (fun l e => l.credit e.address e.amount) l).Consistent ∧
        l.KeepsRecords (es.foldl (fun l e => l.credit e.address e.amount) l)
  | [], l, h => ⟨h, .refl l⟩
  | e :: rest, l, h => by
    obtain ⟨hc, hk⟩ := consistent_foldl_credit rest (l.credit e.address e.amount)
      (h.setAccount_staked rfl)
    exact ⟨hc, KeepsRecords.trans (.refl l) hk⟩

/-- Lifting an expired jail changes a record's status only. -/
theorem continues_liftJail {r x : ValidatorRecord} (h : x = r ∨ x = { r with status := .active }) :
    r.Continues x ∧ x.commissionBps = r.commissionBps := by
  rcases h with rfl | rfl
  · exact ⟨.refl _, rfl⟩
  · exact ⟨.of_history rfl rfl rfl, rfl⟩

/-- Starting a block pays out matured unbonding entries, keeps the waiting ones and lifts
expired jails. -/
theorem consistent_beginBlock (h : l.Consistent) (height : UInt64) :
    (l.beginBlock height).Consistent ∧ l.KeepsRecords (l.beginBlock height) := by
  have hwait : ({ l with height := height,
                         unbonding := l.unbonding.filter fun e => !(e.releaseHeight ≤ height) } :
      Ledger).Consistent :=
    ⟨⟨h.commissions, h.delegations, fun e he => h.unbonding e (List.mem_of_mem_filter he)⟩,
      h.stakers⟩
  obtain ⟨hpaid, hkeep⟩ := consistent_foldl_credit
    (l.unbonding.filter (fun e => e.releaseHeight ≤ height)) _ hwait
  unfold beginBlock
  refine ⟨hpaid.withValidators (RecordsKept.mapValues _ fun _ r => ?_)
    (hpaid.commissions.mapValues _ fun _ r hr => ?_),
    KeepsRecords.trans hkeep (RecordsKept.mapValues _ fun _ r => ?_)⟩
  · split <;> (try split) <;> exact (continues_liftJail (by simp)).1
  · split <;> (try split) <;> exact (continues_liftJail (by simp)).2.trans_le hr
  · split <;> (try split) <;> exact (continues_liftJail (by simp)).1

/-! ## Penalties -/

/-- Cutting the delegations to an offender keeps the positive amounts and drops an emptied
table. -/
theorem consistent_cutDelegations (h : l.Consistent) {offender : Address}
    {bps slashed slashed' : UInt64} (hcd : l.cutDelegations offender bps slashed = (l', slashed')) :
    l'.Consistent := by
  unfold cutDelegations at hcd
  split at hcd
  · cases hcd
    exact h
  · rename_i dels hdels
    cases hcd
    have hreg := (h.delegations.of_get? hdels).1
    have hpos : ((dels.mapValues fun _ a => a - cut bps a).filter fun _ a => a > 0).All
        fun _ amt => 0 < amt :=
      (KeyMap.all_filter_self _ _).mono fun _ _ hgt => of_decide_eq_true hgt
    exact ⟨⟨h.commissions, h.delegations.put hreg hpos, h.unbonding⟩, h.stakers⟩

/-- Cutting unbonding entries drops the ones left empty. -/
theorem consistent_cutUnbonding (h : l.Consistent) {reached : UnbondingEntry → Bool}
    {bps slashed slashed' : UInt64} (hcu : l.cutUnbonding reached bps slashed = (l', slashed')) :
    l'.Consistent := by
  unfold cutUnbonding at hcu
  cases hcu
  exact ⟨⟨h.commissions, h.delegations, fun _ he => of_decide_eq_true (List.mem_filter.mp he).2⟩,
    h.stakers⟩

/-- A penalty cuts the offender's self-stake, the delegations to it and the unbonding entries
its offense reaches, and jails it; a repeated one only records the evidence id. -/
theorem consistent_applyPenalty (h : l.Consistent) {evidenceId : Digest} {offender : Address}
    {kind : EvidenceKind} {offenseHeight : UInt64} {params : LedgerParams} {height : UInt64}
    {o : PenaltyOutcome}
    (hp : l.applyPenalty evidenceId offender kind offenseHeight params height = .ok (l', o)) :
    l'.Consistent ∧ l.KeepsRecords l' := by
  obtain ⟨hoffender, ⟨-, rfl, -⟩ | ⟨_, _, l₁, l₂, l₃, _, s₃, -, -, -, hl₁, hcd, hcu, rfl, -⟩⟩ :=
    applyPenalty_cases hp
  · exact ⟨h.congr rfl rfl rfl rfl, .refl _⟩
  -- the offender is registered, so its account may keep self-stake
  have h₁ : l₁.Consistent := hl₁ ▸ h.setAccount fun _ => hoffender
  have h₃ : l₃.Consistent := consistent_cutUnbonding (consistent_cutDelegations h₁ hcd) hcu
  have hv : l.validators = l₃.validators := by
    rw [cutUnbonding_frame hcu, cutDelegations_frame hcd, hl₁]
    rfl
  have hjail : RecordsKept l₃.validators (l₃.validators.modify offender fun r =>
      { r with status := .jailed (Word.addSat height params.unbondingPeriod)
               slashedTotal := Word.addSat r.slashedTotal s₃
               infractions := r.infractions ++
                 [⟨evidenceId, kind, offenseHeight, height, s₃⟩] }) :=
    RecordsKept.modify _ _ fun r => ⟨rfl, Word.le_addSat _ _, List.prefix_append _ _⟩
  refine ⟨(h₃.withValidators hjail (h₃.commissions.modify _ fun _ hr => hr)).congr rfl rfl rfl rfl,
    ?_⟩
  show RecordsKept l.validators _
  rw [hv]
  exact hjail

/-! ## Transactions -/

/-- What a kind's rule checked that the tables rely on: amounts moved are positive, a delegation
goes to a registered validator, a commission is within the whole and a validator is created only
at a fresh address.  It also says where the sender's next account can hold self-stake it did not
hold before: only for the kinds that register the sender. -/
def KindChecked (l : Ledger) (sender : Address) (acct next : Account) : TxKind → Prop
  | .transfer .. => next.staked = acct.staked
  | .stake _ => True
  | .unstake amount => 0 < amount ∧ (0 < next.staked → 0 < acct.staked)
  | .delegate validator amount =>
    0 < amount ∧ l.isValidator validator = true ∧ next.staked = acct.staked
  | .undelegate _ amount => 0 < amount ∧ next.staked = acct.staked
  | .createValidator _ bps => l.isValidator sender = false ∧ bps ≤ maxBps
  | .editValidator bps => bps ≤ maxBps ∧ next.staked = acct.staked

theorem checkKind_checked {params : LedgerParams} {tx : Transaction} {sender : Address}
    {acct next : Account} {credit : Option (Address × UInt64)}
    (h : l.checkKind params tx sender acct = .ok (next, credit)) :
    KindChecked l sender acct next tx.kind := by
  unfold checkKind at h
  cases hk : tx.kind with
  | transfer dest amount =>
    rw [hk] at h
    dsimp only at h
    obtain ⟨needed, -, h⟩ := Except.bind_eq_ok h
    obtain ⟨debited, hdebit, h⟩ := Except.bind_eq_ok h
    obtain ⟨-, rfl⟩ := debit_eq_ok hdebit
    split at h
    · cases h
      rfl
    · obtain ⟨_, -, h⟩ := Except.bind_eq_ok h
      cases h
      rfl
  | stake amount => trivial
  | unstake amount =>
    rw [hk] at h
    dsimp only at h
    split at h
    · cases h
    rename_i hzero
    split at h
    · cases h
    split at h
    · cases h
    rename_i hstake
    cases h
    refine ⟨UInt64.pos_iff_ne_zero.mpr hzero, fun hpos => ?_⟩
    have hle := UInt64.not_lt.mp hstake
    rw [UInt64.pos_iff_toNat_pos] at hpos ⊢
    rw [UInt64.toNat_sub_of_le _ _ hle] at hpos
    omega
  | delegate validator amount =>
    rw [hk] at h
    dsimp only at h
    split at h
    · cases h
    rename_i hzero
    split at h
    · cases h
    rename_i hreg
    obtain ⟨needed, -, h⟩ := Except.bind_eq_ok h
    split at h
    · cases h
    obtain ⟨_, -, h⟩ := Except.bind_eq_ok h
    cases h
    exact ⟨UInt64.pos_iff_ne_zero.mpr hzero, by simpa using hreg, rfl⟩
  | undelegate validator amount =>
    rw [hk] at h
    dsimp only at h
    split at h
    · cases h
    rename_i hzero
    split at h
    · cases h
    split at h
    · cases h
    cases h
    exact ⟨UInt64.pos_iff_ne_zero.mpr hzero, rfl⟩
  | createValidator amount bps =>
    rw [hk] at h
    dsimp only at h
    split at h
    · cases h
    rename_i hfresh
    split at h
    · cases h
    rename_i hbps
    exact ⟨by simpa using hfresh, UInt16.not_lt.mp hbps⟩
  | editValidator bps =>
    rw [hk] at h
    dsimp only at h
    split at h
    · cases h
    split at h
    · cases h
    rename_i hbps
    obtain ⟨debited, hdebit, h⟩ := Except.bind_eq_ok h
    cases h
    obtain ⟨-, rfl⟩ := debit_eq_ok hdebit
    exact ⟨UInt16.not_lt.mp hbps, rfl⟩

theorem Tidy.startUnbonding (h : l.Tidy) (params : LedgerParams) (address validator : Address)
    {amount : UInt64} (hamt : 0 < amount) :
    (l.startUnbonding params address validator amount).Tidy := by
  refine ⟨h.commissions, h.delegations, fun e he => ?_⟩
  rcases List.mem_append.mp he with hold | hnew
  · exact h.unbonding e hold
  · rw [List.mem_singleton] at hnew
    subst hnew
    exact hamt

/-- The writes of a kind whose rule passed keep the tables tidy and every record, and self-stake
in the sender's next account was held before or belongs to a now registered validator. -/
theorem Tidy.commitKind (h : l.Tidy) {params : LedgerParams} {tx : Transaction}
    {sender : Address} {acct next : Account} (hk : KindChecked l sender acct next tx.kind)
    (hroom : DelegationRoom l.delegations sender tx.kind) :
    (l.commitKind params tx sender).Tidy ∧ l.KeepsRecords (l.commitKind params tx sender) ∧
      (0 < next.staked →
        0 < acct.staked ∨ (l.commitKind params tx sender).isValidator sender = true) := by
  unfold Ledger.commitKind
  cases hkind : tx.kind with
  | transfer dest amount =>
    rw [hkind] at hk
    exact ⟨h, .refl _, fun hpos => .inl (hk ▸ hpos)⟩
  | stake amount =>
    dsimp only
    split
    · rename_i hreg
      exact ⟨h, .refl _, fun _ => .inr hreg⟩
    · rename_i hfresh
      have hkeep := RecordsKept.insert_fresh
        (validators_get?_of_not_isValidator (by simpa [isValidator] using hfresh)) { publicKey := tx.senderKey }
      exact ⟨h.withValidators hkeep (h.commissions.insert defaultCommission_le), hkeep,
        fun _ => .inr (isValidator_insert_self _ _)⟩
  | unstake amount =>
    rw [hkind] at hk
    exact ⟨h.startUnbonding _ _ _ hk.1, .refl _, fun hpos => .inl (hk.2 hpos)⟩
  | delegate validator amount =>
    rw [hkind] at hk hroom
    exact ⟨⟨h.commissions, h.delegations.addDelegation hk.2.1 hk.1 hroom, h.unbonding⟩, .refl _,
      fun hpos => .inl (hk.2.2 ▸ hpos)⟩
  | undelegate validator amount =>
    rw [hkind] at hk
    have hsub : ({ l with delegations := subDelegation l.delegations validator sender amount } :
        Ledger).Tidy :=
      ⟨h.commissions, h.delegations.subDelegation _ _ _, h.unbonding⟩
    exact ⟨hsub.startUnbonding _ _ _ hk.1, .refl _, fun hpos => .inl (hk.2 ▸ hpos)⟩
  | createValidator amount bps =>
    rw [hkind] at hk
    have hkeep := RecordsKept.insert_fresh (validators_get?_of_not_isValidator hk.1)
      { publicKey := tx.senderKey, commissionBps := bps }
    exact ⟨h.withValidators hkeep (h.commissions.insert hk.2), hkeep,
      fun _ => .inr (isValidator_insert_self _ _)⟩
  | editValidator bps =>
    rw [hkind] at hk
    have hkeep : RecordsKept l.validators
        (l.validators.modify sender fun r => { r with commissionBps := bps }) :=
      RecordsKept.modify _ _ fun r => .of_history rfl rfl rfl
    exact ⟨h.withValidators hkeep (h.commissions.modify _ fun _ _ => hk.1), hkeep,
      fun hpos => .inl (hk.2 ▸ hpos)⟩

theorem KindChecked.congr {l₀ : Ledger} {sender : Address} {acct next : Account} {kind : TxKind}
    (hk : KindChecked l sender acct next kind) (hv : l₀.validators = l.validators) :
    KindChecked l₀ sender acct next kind := by
  cases kind <;> simp only [KindChecked, isValidator, hv] at hk ⊢ <;> exact hk

theorem validators_payCredit (l : Ledger) (credit : Option (Address × UInt64)) :
    (l.payCredit credit).validators = l.validators := by
  cases credit <;> rfl

/-- Paying a credit moves balance only. -/
theorem Consistent.payCredit (h : l.Consistent) (credit : Option (Address × UInt64)) :
    (l.payCredit credit).Consistent := by
  cases credit with
  | none => exact h
  | some p => exact h.setAccount_staked rfl

/-- A transaction that applies keeps the invariant and every record. -/
theorem consistent_applyVerified (h : l.Consistent) {params : LedgerParams} {tx : Transaction}
    {r : Receipt} (hv : (l.applyVerified params tx).run = .ok (.ok (l', r))) :
    l'.Consistent ∧ l.KeepsRecords l' := by
  obtain ⟨next, credit, feePool, nonce, hk, -, -, hl', -⟩ := applyVerified_inv hv
  obtain ⟨-, -, -, hroom⟩ := checkKind_spec hk
  obtain ⟨l₃, hl₃⟩ : ∃ l₃ : Ledger, l₃ = { (l.setAccount tx.sender
      { next with nonce := nonce }).payCredit credit with feePool := feePool } := ⟨_, rfl⟩
  rw [← hl₃] at hl'
  have hv₃ : l₃.validators = l.validators := by
    rw [hl₃]
    exact validators_payCredit _ credit
  have hd₃ : l₃.delegations = l.delegations := by
    rw [hl₃]
    simp
  have hu₃ : l₃.unbonding = l.unbonding := by
    rw [hl₃]
    simp
  obtain ⟨htidy, hkeep₃, hsender⟩ := (h.toTidy.congr hv₃ hd₃ hu₃).commitKind
    ((checkKind_checked hk).congr hv₃) (hd₃ ▸ hroom)
  rw [← hl'] at htidy hkeep₃ hsender
  have hkeep : l.KeepsRecords l' := by
    unfold KeepsRecords
    rw [← hv₃]
    exact hkeep₃
  let M : Ledger := { l with validators := l'.validators, delegations := l'.delegations,
                             unbonding := l'.unbonding }
  have hM : M.Consistent :=
    ⟨htidy.congr rfl rfl rfl, h.stakers.mono fun _ _ hs hpos => hkeep.isValidator (hs hpos)⟩
  have hM₁ : (M.setAccount tx.sender { next with nonce := nonce }).Consistent :=
    hM.setAccount fun hpos =>
      (hsender hpos).elim (fun hs => hkeep.isValidator (h.isValidator_of_staked hs)) id
  have hM₂ := hM₁.payCredit credit
  refine ⟨hM₂.congr ?_ ?_ ?_ ?_, hkeep⟩
  · rw [hl', accounts_commitKind, hl₃]
    cases credit <;> rfl
  · rw [validators_payCredit]
    rfl
  · simp [M]
  · simp [M]

end Operations

end Ledger

open Ledger LedgerOp

/-- Every operation keeps the invariant and carries every validator record forward. -/
theorem LedgerOp.run_consistent {op : LedgerOp} {l l' : Ledger} {t : Option Transaction}
    (h : op.run l = .ok (l', t)) (hl : l.Consistent) : l'.Consistent ∧ l.KeepsRecords l' := by
  have hkeep : ∀ {ε : Type} {r : Except ε Ledger},
      (∀ l₁, r = .ok l₁ → l₁.Consistent ∧ l.KeepsRecords l₁) →
        (orKeep l r).Consistent ∧ l.KeepsRecords (orKeep l r) :=
    fun hr => orKeep_of (fun l₁ => l₁.Consistent ∧ l.KeepsRecords l₁) ⟨hl, .refl l⟩ hr
  cases op with
  | creditGenesis a amount =>
    simp only [run, Except.ok.injEq, Prod.mk.injEq] at h
    obtain ⟨rfl, -⟩ := h
    exact hkeep fun _ => consistent_creditGenesis hl
  | bondGenesis pk stake =>
    simp only [run, Except.ok.injEq, Prod.mk.injEq] at h
    obtain ⟨rfl, -⟩ := h
    exact hkeep fun _ => consistent_bondGenesis hl
  | transaction params tx =>
    rcases applied_eq_ok h with ⟨-, rfl⟩ | ⟨-, rc, hr⟩
    · exact ⟨hl, .refl _⟩
    · exact consistent_applyVerified hl (applyTransaction_eq_ok hr).2
  | verified params tx =>
    rcases applied_eq_ok h with ⟨-, rfl⟩ | ⟨-, rc, hr⟩
    · exact ⟨hl, .refl _⟩
    · exact consistent_applyVerified hl hr
  | beginBlock height =>
    simp only [run, Except.ok.injEq, Prod.mk.injEq] at h
    obtain ⟨rfl, -⟩ := h
    exact consistent_beginBlock hl height
  | payFees proposer =>
    simp only [run, Except.ok.injEq, Prod.mk.injEq] at h
    obtain ⟨rfl, -⟩ := h
    exact consistent_payFees hl proposer
  | penalty id offender kind offenseHeight params height =>
    simp only [run, Except.ok.injEq, Prod.mk.injEq] at h
    obtain ⟨rfl, -⟩ := h
    refine hkeep fun l₁ hl₁ => ?_
    obtain ⟨⟨l₂, o⟩, hpen, rfl⟩ := Except.map_eq_ok hl₁
    exact consistent_applyPenalty hl hpen

/-- Along a run the invariant holds and every validator record is carried forward. -/
theorem runOps_consistent {ops : List LedgerOp} {l l' : Ledger} {ts : List Transaction}
    (h : runOps l ops = .ok (l', ts)) (hl : l.Consistent) : l'.Consistent ∧ l.KeepsRecords l' :=
  runOps_induction (fun l₁ => l₁.Consistent ∧ l.KeepsRecords l₁)
    (fun _ _ _ _ hop hP =>
      have hstep := LedgerOp.run_consistent hop hP.1
      ⟨hstep.1, hP.2.trans hstep.2⟩)
    ops l l' ts h ⟨hl, .refl l⟩

/-- Every ledger reached from the empty one, through genesis funding and bonding and any
transactions, blocks, fee payments and penalties, has consistent tables, and every later run
from it carries each of its validator records forward. -/
theorem ledger_tables_consistent {ops ops' : List LedgerOp} {l l' : Ledger}
    {ts ts' : List Transaction} (h : runOps {} ops = .ok (l, ts))
    (h' : runOps l ops' = .ok (l', ts')) : l'.Consistent ∧ l.KeepsRecords l' :=
  runOps_consistent h' (runOps_consistent h consistent_empty).1

/-- A ledger with one validator bonded at genesis. -/
def genesisBonded : Ledger :=
  orKeep {} (({} : Ledger).bondGenesis ⟨List.replicate 32 7⟩ 5)

theorem ledger_tables_consistent_after_genesisBond :
    runOps {} [.bondGenesis ⟨List.replicate 32 7⟩ 5] = .ok (genesisBonded, []) ∧
      runOps genesisBonded [.beginBlock 1] = .ok (genesisBonded.beginBlock 1, []) ∧
      (genesisBonded.beginBlock 1).Consistent ∧
      genesisBonded.KeepsRecords (genesisBonded.beginBlock 1) := by
  have h : runOps {} [.bondGenesis ⟨List.replicate 32 7⟩ 5] = .ok (genesisBonded, []) := by
    decide +kernel
  have h' : runOps genesisBonded [.beginBlock 1] = .ok (genesisBonded.beginBlock 1, []) := by
    decide +kernel
  exact ⟨h, h', ledger_tables_consistent h h'⟩

end StakeChain

import StakeChain.Proofs.Ledger.Penalty

/-!
# Each offense is penalized once

A penalty is keyed twice: by its evidence id, which the ledger remembers in `appliedEvidence`,
and by its offense, the offender with the height it offended at, remembered in `offenses`.  A
call whose id or offense is remembered answers `alreadyApplied` and records the id, nothing else
(`applyPenalty_of_remembered`).  Nothing a ledger does forgets a registered validator, an applied
id or a recorded offense (`Ledger.Remembers`), so once a penalty went through, the same evidence
is refused for good, and once it was applied, any other evidence of the same offense is refused
too.  Evidence repeated under another offense height is refused for its id but leaves that
offense open, and a later id for it is applied (`repeated_evidence_leaves_offense_open`).

The validator records keep the history of penalties (`Ledger.OffensesRecorded`): the recorded
offenses are exactly the infractions on record, no validator has two infractions at one offense
height, every infraction's evidence is applied, and each slashed total is the sum of the
infractions' amounts, saturated.  An operation other than a penalty keeps every record's history
and adds fresh records only (`Ledger.KeepsHistory`), and a penalty adds one infraction together
with its offense and its id (`applyPenalty_records`).  A block is a run of operations
(`executeBlock_induction`), so the invariant holds along any mix of operations and blocks from
the empty ledger.
-/

set_option autoImplicit false

namespace StakeChain

namespace KeyMap

variable {κ ν : Type} [Ord κ] [Std.LawfulEqOrd κ]

/-- Inserting an entry again where it was just inserted changes nothing: the walk stops at the
same place, now on the entry itself. -/
theorem insertEntry_insertEntry_self (k : κ) (v : ν) :
    ∀ l : List (κ × ν), insertEntry k v (insertEntry k v l) = insertEntry k v l
  | [] => by
    have hself : compare k k = .eq := Std.ReflOrd.compare_self
    simp only [insertEntry, hself]
  | (k', v') :: rest => by
    have hself : compare k k = .eq := Std.ReflOrd.compare_self
    cases h : compare k k' with
    | lt => simp only [insertEntry, h, hself]
    | eq => simp only [insertEntry, h, hself]
    | gt => simp only [insertEntry, h, insertEntry_insertEntry_self k v rest]

theorem insert_insert_self [Std.TransOrd κ] (m : KeyMap κ ν) (k : κ) (v : ν) :
    (m.insert k v).insert k v = m.insert k v :=
  KeyMap.ext (insertEntry_insertEntry_self k v m.toList)

theorem contains_insert [Std.TransOrd κ] [DecidableEq κ] (m : KeyMap κ ν) (k : κ) (v : ν) (k' : κ) :
    (m.insert k v).contains k' = (k' = k || m.contains k') := by
  rw [contains_eq, contains_eq, get?_insert]
  by_cases h : k' = k <;> simp [h]

end KeyMap

/-- The heights at which a validator's recorded infractions were committed. -/
def ValidatorRecord.offenseHeights (r : ValidatorRecord) : List UInt64 :=
  r.infractions.map Infraction.offenseHeight

/-- What the recorded infractions slashed, added up exactly. -/
def ValidatorRecord.slashedSum (r : ValidatorRecord) : Nat :=
  (r.infractions.map fun i => i.slashed.toNat).sum

theorem ValidatorRecord.offenseHeights_of_infractions {r r' : ValidatorRecord} {i : Infraction}
    (h : r'.infractions = r.infractions ++ [i]) :
    r'.offenseHeights = r.offenseHeights ++ [i.offenseHeight] := by
  simp [offenseHeights, h]

theorem ValidatorRecord.slashedSum_of_infractions {r r' : ValidatorRecord} {i : Infraction}
    (h : r'.infractions = r.infractions ++ [i]) : r'.slashedSum = r.slashedSum + i.slashed.toNat := by
  simp [slashedSum, h]

namespace Ledger

/-- Runs the same fold over ledgers and a field that no step of it writes. -/
theorem foldl_field {β γ : Type} (g : Ledger → γ) (f : Ledger → β → Ledger)
    (hf : ∀ l b, g (f l b) = g l) : ∀ (bs : List β) (l : Ledger), g (bs.foldl f l) = g l
  | [], _ => rfl
  | b :: rest, l => (foldl_field g f hf rest (f l b)).trans (hf l b)

/-! ## What a ledger remembers of penalties -/

/-- `l'` keeps what `l` remembers of penalties: its registered validators, its applied evidence
and its recorded offenses. -/
structure Remembers (l l' : Ledger) : Prop where
  validators : ∀ a, l.isValidator a = true → l'.isValidator a = true
  evidence : ∀ id, l.evidenceApplied id = true → l'.evidenceApplied id = true
  offenses : ∀ x, l.offenses.contains x = true → l'.offenses.contains x = true

theorem Remembers.refl (l : Ledger) : l.Remembers l :=
  ⟨fun _ h => h, fun _ h => h, fun _ h => h⟩

theorem Remembers.trans {l l' l'' : Ledger} (h₁ : l.Remembers l') (h₂ : l'.Remembers l'') :
    l.Remembers l'' :=
  ⟨fun a h => h₂.validators a (h₁.validators a h), fun id h => h₂.evidence id (h₁.evidence id h),
    fun x h => h₂.offenses x (h₁.offenses x h)⟩

/-! ## Penalty history -/

/-- `l'` keeps the penalty history of `l`: the same applied evidence and recorded offenses, each
record of `l` carried on with its infractions and slashed total, and every record new in `l'`
fresh, with no infraction and nothing slashed. -/
structure KeepsHistory (l l' : Ledger) : Prop where
  evidence : l'.appliedEvidence = l.appliedEvidence
  offenses : l'.offenses = l.offenses
  kept : ∀ a r, l.validators.get? a = some r → ∃ r', l'.validators.get? a = some r' ∧
    r'.infractions = r.infractions ∧ r'.slashedTotal = r.slashedTotal
  fresh : ∀ a r', l'.validators.get? a = some r' → l.validators.get? a = none →
    r'.infractions = [] ∧ r'.slashedTotal = 0

section KeepsHistory

variable {l l' l'' : Ledger}

theorem KeepsHistory.refl (l : Ledger) : l.KeepsHistory l :=
  ⟨rfl, rfl, fun _ r h => ⟨r, h, rfl, rfl⟩, fun _ _ h hnone => by rw [hnone] at h; cases h⟩

/-- Each record of `l'` either carries on one of `l` with its history or is fresh. -/
theorem KeepsHistory.origin (h : l.KeepsHistory l') {a : Address} {r' : ValidatorRecord}
    (hr' : l'.validators.get? a = some r') :
    (∃ r, l.validators.get? a = some r ∧ r'.infractions = r.infractions ∧
      r'.slashedTotal = r.slashedTotal) ∨ (r'.infractions = [] ∧ r'.slashedTotal = 0) := by
  cases hr : l.validators.get? a with
  | none => exact .inr (h.fresh a r' hr' hr)
  | some r =>
    obtain ⟨r'', hr'', hi, hs⟩ := h.kept a r hr
    rw [hr'] at hr''
    cases hr''
    exact .inl ⟨r, rfl, hi, hs⟩

theorem KeepsHistory.trans (h₁ : l.KeepsHistory l') (h₂ : l'.KeepsHistory l'') :
    l.KeepsHistory l'' := by
  refine ⟨h₂.evidence.trans h₁.evidence, h₂.offenses.trans h₁.offenses, fun a r hr => ?_,
    fun a r₂ hr₂ hnone => ?_⟩
  · obtain ⟨r₁, hr₁, hi₁, hs₁⟩ := h₁.kept a r hr
    obtain ⟨r₂, hr₂, hi₂, hs₂⟩ := h₂.kept a r₁ hr₁
    exact ⟨r₂, hr₂, hi₂.trans hi₁, hs₂.trans hs₁⟩
  · -- a record new in `l''` is new in `l'` or was added fresh to `l'` and carried on
    cases hr₁ : l'.validators.get? a with
    | none => exact h₂.fresh a r₂ hr₂ hr₁
    | some r₁ =>
      obtain ⟨hi₁, hs₁⟩ := h₁.fresh a r₁ hr₁ hnone
      obtain ⟨r₃, hr₃, hi, hs⟩ := h₂.kept a r₁ hr₁
      rw [hr₂] at hr₃
      cases hr₃
      exact ⟨hi.trans hi₁, hs.trans hs₁⟩

theorem KeepsHistory.remembers (h : l.KeepsHistory l') : l.Remembers l' := by
  refine ⟨fun a ha => ?_, fun id hid => ?_, fun x hx => ?_⟩
  · simp only [isValidator, KeyMap.contains_eq, Option.isSome_iff_exists] at ha ⊢
    obtain ⟨r, hr⟩ := ha
    obtain ⟨r', hr', -⟩ := h.kept a r hr
    exact ⟨r', hr'⟩
  · rw [evidenceApplied, h.evidence]
    exact hid
  · rw [h.offenses]
    exact hx

/-- A step that rewrites each record by a map that keeps its history keeps the history. -/
theorem keepsHistory_of_map (g : Address → ValidatorRecord → ValidatorRecord)
    (hg : ∀ a r, (g a r).infractions = r.infractions ∧ (g a r).slashedTotal = r.slashedTotal)
    (hv : ∀ a, l'.validators.get? a = (l.validators.get? a).map (g a))
    (he : l'.appliedEvidence = l.appliedEvidence) (ho : l'.offenses = l.offenses) :
    l.KeepsHistory l' := by
  refine ⟨he, ho, fun a r hr => ⟨g a r, by rw [hv, hr]; rfl, hg a r⟩, fun a r' hr' hnone => ?_⟩
  rw [hv, hnone] at hr'
  cases hr'

theorem keepsHistory_of_validators_eq (hv : l'.validators = l.validators)
    (he : l'.appliedEvidence = l.appliedEvidence) (ho : l'.offenses = l.offenses) :
    l.KeepsHistory l' :=
  keepsHistory_of_map (fun _ r => r) (fun _ _ => ⟨rfl, rfl⟩)
    (fun a => by rw [hv, Option.map_id']) he ho

/-- Registering a validator that was not registered, with a fresh record, keeps the history. -/
theorem keepsHistory_insert_fresh {a : Address} {r₀ : ValidatorRecord}
    (hnew : l.validators.contains a = false) (hr₀ : r₀.infractions = [] ∧ r₀.slashedTotal = 0)
    (hv : l'.validators = l.validators.insert a r₀)
    (he : l'.appliedEvidence = l.appliedEvidence) (ho : l'.offenses = l.offenses) :
    l.KeepsHistory l' := by
  have hnone : l.validators.get? a = none := by
    simpa [KeyMap.contains_eq] using hnew
  refine ⟨he, ho, fun b r hr => ?_, fun b r' hr' hb => ?_⟩
  · have hba : b ≠ a := by
      rintro rfl
      rw [hnone] at hr
      cases hr
    exact ⟨r, by rw [hv, KeyMap.get?_insert_of_ne _ _ hba, hr], rfl, rfl⟩
  · rw [hv, KeyMap.get?_insert] at hr'
    split at hr'
    · cases hr'
      exact hr₀
    · rw [hb] at hr'
      cases hr'

/-- Changing a record by a map that keeps its history keeps the history. -/
theorem keepsHistory_modify {a : Address} {f : ValidatorRecord → ValidatorRecord}
    (hf : ∀ r, (f r).infractions = r.infractions ∧ (f r).slashedTotal = r.slashedTotal)
    (hv : l'.validators = l.validators.modify a f)
    (he : l'.appliedEvidence = l.appliedEvidence) (ho : l'.offenses = l.offenses) :
    l.KeepsHistory l' := by
  refine keepsHistory_of_map (fun b => if b = a then f else id) (fun b r => ?_) (fun b => ?_) he ho
  · by_cases hb : b = a
    · simp only [hb, if_true]
      exact hf r
    · simp [hb]
  · rw [hv, KeyMap.get?_modify]
    by_cases hb : b = a
    · subst hb
      simp
    · simp [hb]

theorem keepsHistory_mapValues (l : Ledger) (g : Address → ValidatorRecord → ValidatorRecord)
    (hg : ∀ a r, (g a r).infractions = r.infractions ∧ (g a r).slashedTotal = r.slashedTotal) :
    l.KeepsHistory { l with validators := l.validators.mapValues g } :=
  keepsHistory_of_map g hg (fun _ => KeyMap.get?_mapValues _ _ _) rfl rfl

end KeepsHistory

/-! ## Each operation but a penalty keeps the history -/

section Operations

variable {l l' : Ledger}

theorem keepsHistory_setAccount (l : Ledger) (a : Address) (acct : Account) :
    l.KeepsHistory (l.setAccount a acct) :=
  keepsHistory_of_validators_eq rfl rfl rfl

theorem keepsHistory_creditGenesis {a : Address} {amount : UInt64}
    (h : l.creditGenesis a amount = .ok l') : l.KeepsHistory l' := by
  unfold creditGenesis at h
  obtain ⟨balance, -, h⟩ := Except.bind_eq_ok h
  cases h
  exact keepsHistory_setAccount _ _ _

theorem keepsHistory_bondGenesis {pk : PublicKey} {stake : UInt64}
    (h : l.bondGenesis pk stake = .ok l') : l.KeepsHistory l' := by
  unfold bondGenesis at h
  obtain ⟨staked, -, h⟩ := Except.bind_eq_ok h
  cases h
  split
  · exact keepsHistory_setAccount _ _ _
  · rename_i hnew
    exact keepsHistory_insert_fresh (by simpa [setAccount] using hnew) ⟨rfl, rfl⟩ rfl rfl rfl

/-- Starting a block pays out matured entries into accounts and lifts expired jails. -/
theorem keepsHistory_beginBlock (l : Ledger) (height : UInt64) :
    l.KeepsHistory (l.beginBlock height) := by
  unfold beginBlock
  dsimp only
  refine KeepsHistory.trans ?_ (keepsHistory_mapValues _ _ fun _ r => ?_)
  · exact keepsHistory_of_validators_eq (foldl_field Ledger.validators _ (fun _ _ => by rfl) _ _)
      (foldl_field Ledger.appliedEvidence _ (fun _ _ => by rfl) _ _)
      (foldl_field Ledger.offenses _ (fun _ _ => by rfl) _ _)
  · split
    · split <;> exact ⟨rfl, rfl⟩
    · exact ⟨rfl, rfl⟩

theorem keepsHistory_payFees (l : Ledger) (proposer : Address) :
    l.KeepsHistory (l.payFees proposer).1 := by
  unfold payFees
  dsimp only
  split <;> exact keepsHistory_of_validators_eq rfl rfl rfl

theorem keepsHistory_startUnbonding (l : Ledger) (params : LedgerParams) (a v : Address)
    (amount : UInt64) : l.KeepsHistory (l.startUnbonding params a v amount) :=
  keepsHistory_of_validators_eq rfl rfl rfl

/-- A transaction kind's write keeps the history; a new validator is registered fresh, and only
when it was not registered. -/
theorem keepsHistory_commitKind {params : LedgerParams} {tx : Transaction} {sender : Address}
    {acct next : Account} (hk : KindChecked l sender acct next tx.kind) :
    l.KeepsHistory (l.commitKind params tx sender) := by
  unfold commitKind
  cases hkind : tx.kind with
  | stake amount =>
    dsimp only
    split
    · exact .refl l
    · rename_i hnew
      exact keepsHistory_insert_fresh (by simpa using hnew) ⟨rfl, rfl⟩ rfl rfl rfl
  | unstake amount => exact keepsHistory_startUnbonding l params sender sender amount
  | delegate validator amount => exact keepsHistory_of_validators_eq rfl rfl rfl
  | undelegate validator amount =>
    dsimp only
    exact (keepsHistory_of_validators_eq (by rfl) (by rfl) (by rfl)).trans
      (keepsHistory_startUnbonding _ params sender validator amount)
  | createValidator pk bps =>
    rw [hkind] at hk
    exact keepsHistory_insert_fresh hk.1 ⟨rfl, rfl⟩ rfl rfl rfl
  | editValidator bps =>
    dsimp only
    exact keepsHistory_modify (fun _ => ⟨by rfl, by rfl⟩) rfl rfl rfl
  | transfer dest amount => exact .refl l

theorem keepsHistory_applyVerified {params : LedgerParams} {tx : Transaction} {r : Receipt}
    (h : (l.applyVerified params tx).run = .ok (.ok (l', r))) : l.KeepsHistory l' := by
  obtain ⟨next, credit, feePool, nonce, hk, -, -, rfl, -⟩ := applyVerified_inv h
  have hpaid : l.KeepsHistory { (l.setAccount tx.sender { next with nonce := nonce }).payCredit
      credit with feePool := feePool } :=
    keepsHistory_of_validators_eq (validators_payCredit _ credit) (by cases credit <;> rfl)
      (by cases credit <;> rfl)
  exact hpaid.trans (keepsHistory_commitKind
    ((checkKind_checked hk).congr (validators_payCredit _ credit)))

end Operations

/-! ## A penalty -/

section Penalty

variable {l l' : Ledger} {id : Digest} {v : Address} {kind : EvidenceKind} {o H : UInt64}
  {params : LedgerParams} {out : PenaltyOutcome}

/-- A call against a registered validator whose evidence or offense is remembered answers
`alreadyApplied` with the validator's voting power and records the id, nothing else. -/
theorem applyPenalty_of_remembered (hreg : l.isValidator v = true)
    (hrem : (l.evidenceApplied id || l.offenses.contains ⟨v, o⟩) = true) (kind : EvidenceKind)
    (params : LedgerParams) (H : UInt64) :
    l.applyPenalty id v kind o params H =
      .ok ({ l with appliedEvidence := l.appliedEvidence.insert id () },
        .alreadyApplied v (l.votingPower v)) := by
  unfold applyPenalty
  rw [if_neg (by simp [hreg])]
  dsimp only
  rw [if_pos hrem]

/-- What a penalty that goes through does to what the ledger remembers: it records the id, and
either finds the evidence or the offense remembered and does nothing more, or records the
offense and adds one infraction to the offender's record. -/
theorem applyPenalty_records (hp : l.applyPenalty id v kind o params H = .ok (l', out)) :
    l.isValidator v = true ∧ l'.appliedEvidence = l.appliedEvidence.insert id () ∧
    ((l.evidenceApplied id || l.offenses.contains ⟨v, o⟩) = true ∧
        l' = { l with appliedEvidence := l.appliedEvidence.insert id () } ∧
        out = .alreadyApplied v (l.votingPower v) ∨
      (l.evidenceApplied id || l.offenses.contains ⟨v, o⟩) = false ∧
        l'.offenses = l.offenses.insert ⟨v, o⟩ () ∧
        ∃ slashed newStake jailedUntil : UInt64, out = .applied v slashed newStake jailedUntil ∧
          l'.validators = l.validators.modify v fun r =>
            { r with status := .jailed jailedUntil
                     slashedTotal := Word.addSat r.slashedTotal slashed
                     infractions := r.infractions ++ [⟨id, kind, o, H, slashed⟩] }) := by
  obtain ⟨hreg, ⟨hrem, rfl, rfl⟩ | ⟨_, _, l₁, l₂, l₃, _, s₃, hfresh, -, -, hl₁, hcd, hcu, rfl,
    rfl⟩⟩ := applyPenalty_cases hp
  · exact ⟨hreg, rfl, .inl ⟨hrem, rfl, rfl⟩⟩
  have hl₃ := cuts_frame hl₁ hcd hcu
  refine ⟨hreg, ?_, .inr ⟨hfresh, ?_, s₃, _, _, rfl, ?_⟩⟩
  · show l₃.appliedEvidence.insert id () = _
    rw [hl₃]
  · show l₃.offenses.insert ⟨v, o⟩ () = _
    rw [hl₃]
  · show l₃.validators.modify v _ = _
    rw [hl₃]

theorem evidenceApplied_of_insert (hae : l'.appliedEvidence = l.appliedEvidence.insert id ())
    (x : Digest) : l'.evidenceApplied x = (x = id || l.evidenceApplied x) := by
  rw [evidenceApplied, hae, KeyMap.contains_insert]
  rfl

theorem remembers_applyPenalty (hp : l.applyPenalty id v kind o params H = .ok (l', out)) :
    l.Remembers l' := by
  obtain ⟨-, hae, hcases⟩ := applyPenalty_records hp
  refine ⟨fun a ha => by rw [isValidator_applyPenalty hp]; exact ha,
    fun x hx => by simp [evidenceApplied_of_insert hae, hx], fun x hx => ?_⟩
  rcases hcases with ⟨-, rfl, -⟩ | ⟨-, hoff, -⟩
  · exact hx
  · simp [hoff, KeyMap.contains_insert, hx]

end Penalty

/-! ## The records of penalties agree -/

/-- The ledger's records of penalties agree: an offense is recorded exactly when its validator's
record holds an infraction at its height, no validator has two infractions at one height, every
infraction's evidence is applied, and each slashed total is the sum of its infractions' amounts
saturated at the largest word. -/
structure OffensesRecorded (l : Ledger) : Prop where
  offenses : ∀ v h, l.offenses.contains ⟨v, h⟩ = true ↔
    ∃ r, l.validators.get? v = some r ∧ h ∈ r.offenseHeights
  heights_nodup : ∀ v r, l.validators.get? v = some r → r.offenseHeights.Nodup
  evidence : ∀ v r, l.validators.get? v = some r → ∀ i ∈ r.infractions,
    l.evidenceApplied i.evidenceId = true
  slashed : ∀ v r, l.validators.get? v = some r →
    r.slashedTotal.toNat = min r.slashedSum (UInt64.size - 1)

theorem offensesRecorded_empty : ({} : Ledger).OffensesRecorded :=
  ⟨fun _ _ => by simp [KeyMap.contains_eq], fun _ _ h => by simp at h, fun _ _ h => by simp at h,
    fun _ _ h => by simp at h⟩

section Invariant

variable {l l' : Ledger}

/-- A step that keeps the history keeps the records in agreement: each record it leaves either
carries on one with the same infractions and total, or is fresh. -/
theorem OffensesRecorded.keepsHistory (hinv : l.OffensesRecorded) (h : l.KeepsHistory l') :
    l'.OffensesRecorded := by
  refine ⟨fun w ht => ?_, fun w r' hr' => ?_, fun w r' hr' i hi => ?_, fun w r' hr' => ?_⟩
  · rw [h.offenses, hinv.offenses]
    constructor
    · rintro ⟨r, hr, hmem⟩
      obtain ⟨r', hr', hi, -⟩ := h.kept w r hr
      exact ⟨r', hr', by simpa [ValidatorRecord.offenseHeights, hi] using hmem⟩
    · rintro ⟨r', hr', hmem⟩
      rcases h.origin hr' with ⟨r, hr, hi, -⟩ | ⟨hi, -⟩
      · exact ⟨r, hr, by simpa [ValidatorRecord.offenseHeights, hi] using hmem⟩
      · simp [ValidatorRecord.offenseHeights, hi] at hmem
  · rcases h.origin hr' with ⟨r, hr, hi, -⟩ | ⟨hi, -⟩
    · simpa [ValidatorRecord.offenseHeights, hi] using hinv.heights_nodup w r hr
    · simp [ValidatorRecord.offenseHeights, hi]
  · rw [evidenceApplied, h.evidence]
    rcases h.origin hr' with ⟨r, hr, hr'i, -⟩ | ⟨hr'i, -⟩
    · exact hinv.evidence w r hr i (hr'i ▸ hi)
    · simp [hr'i] at hi
  · rcases h.origin hr' with ⟨r, hr, hi, hs⟩ | ⟨hi, hs⟩
    · rw [hs, hinv.slashed w r hr, ValidatorRecord.slashedSum, ValidatorRecord.slashedSum, hi]
    · simp [hs, ValidatorRecord.slashedSum, hi]

/-- A penalty keeps the records in agreement: a new offense enters the offenses together with
one infraction at its height, which its validator did not have, and the id of its evidence. -/
theorem OffensesRecorded.applyPenalty (hinv : l.OffensesRecorded) {id : Digest} {v : Address}
    {kind : EvidenceKind} {o H : UInt64} {params : LedgerParams} {out : PenaltyOutcome}
    (hp : l.applyPenalty id v kind o params H = .ok (l', out)) : l'.OffensesRecorded := by
  obtain ⟨hreg, hae, ⟨-, rfl, -⟩ | ⟨hfresh, hoff, s, n, j, -, hvals⟩⟩ := applyPenalty_records hp
  · refine ⟨hinv.offenses, hinv.heights_nodup, fun w r hr i hi => ?_, hinv.slashed⟩
    simp [evidenceApplied_of_insert hae, hinv.evidence w r hr i hi]
  have hnew : l.evidenceApplied id = false ∧ l.offenses.contains ⟨v, o⟩ = false := by
    simpa using hfresh
  obtain ⟨r, hr⟩ : ∃ r, l.validators.get? v = some r := by
    simpa [isValidator, KeyMap.contains_eq, Option.isSome_iff_exists] using hreg
  -- the offense was not recorded, so its height is not among the offender's infractions
  have hfreshHeight : o ∉ r.offenseHeights := fun hmem =>
    absurd ((hinv.offenses v o).mpr ⟨r, hr, hmem⟩) (by simp [hnew.2])
  obtain ⟨r₁, hr₁i, hr₁s, hget⟩ : ∃ r₁ : ValidatorRecord,
      r₁.infractions = r.infractions ++ [⟨id, kind, o, H, s⟩] ∧
      r₁.slashedTotal = Word.addSat r.slashedTotal s ∧
      ∀ w, l'.validators.get? w = if w = v then some r₁ else l.validators.get? w :=
    ⟨_, rfl, rfl, fun w => by rw [hvals, KeyMap.get?_modify, hr]; rfl⟩
  have hcases : ∀ {w r'}, l'.validators.get? w = some r' →
      (w = v ∧ r' = r₁) ∨ (w ≠ v ∧ l.validators.get? w = some r') := by
    intro w r' hr'
    rw [hget] at hr'
    split at hr'
    · exact .inl ⟨‹_›, (Option.some.inj hr').symm⟩
    · exact .inr ⟨‹_›, hr'⟩
  refine ⟨fun w h => ?_, fun w r' hr' => ?_, fun w r' hr' i hi => ?_, fun w r' hr' => ?_⟩
  · rw [hoff, KeyMap.contains_insert, hget]
    by_cases hw : w = v
    · subst hw
      simp only [Offense.mk.injEq, true_and, if_true, Option.some.injEq, exists_eq_left',
        Bool.or_eq_true, decide_eq_true_eq, hinv.offenses, hr,
        ValidatorRecord.offenseHeights_of_infractions hr₁i]
      simp [or_comm]
    · simp only [Offense.mk.injEq, hw, false_and, decide_false, Bool.false_or, if_false]
      exact hinv.offenses w h
  · rcases hcases hr' with ⟨-, rfl⟩ | ⟨-, hold⟩
    · rw [ValidatorRecord.offenseHeights_of_infractions hr₁i, List.nodup_append_comm,
        List.singleton_append]
      exact List.nodup_cons.mpr ⟨hfreshHeight, hinv.heights_nodup v r hr⟩
    · exact hinv.heights_nodup w r' hold
  · rw [evidenceApplied_of_insert hae]
    rcases hcases hr' with ⟨-, rfl⟩ | ⟨-, hold⟩
    · rcases List.mem_append.mp (hr₁i ▸ hi) with hprev | hlast
      · simp [hinv.evidence v r hr i hprev]
      · simp [List.mem_singleton.mp hlast]
    · simp [hinv.evidence w r' hold i hi]
  · rcases hcases hr' with ⟨-, rfl⟩ | ⟨-, hold⟩
    · -- saturating the running total at each step saturates the sum once
      have hsum := hinv.slashed v r hr
      have hsize := Word.size_eq
      rw [ValidatorRecord.slashedSum_of_infractions hr₁i, hr₁s]
      simp only [Word.addSat_toNat] at hsum ⊢
      omega
    · exact hinv.slashed w r' hold

end Invariant

end Ledger

/-! ## Operations and blocks -/

namespace LedgerOp

variable {op : LedgerOp} {l l' : Ledger} {t : Option Transaction}

/-- What an operation does to the penalty history: it keeps it, or it is a penalty that went
through. -/
theorem run_history (h : op.run l = .ok (l', t)) :
    l.KeepsHistory l' ∨ ∃ id v kind o params H out,
      l.applyPenalty id v kind o params H = .ok (l', out) := by
  cases op with
  | creditGenesis a amount =>
    simp only [run, Except.ok.injEq, Prod.mk.injEq] at h
    obtain ⟨rfl, -⟩ := h
    exact .inl (orKeep_of l.KeepsHistory (.refl l) fun _ hc => Ledger.keepsHistory_creditGenesis hc)
  | bondGenesis pk stake =>
    simp only [run, Except.ok.injEq, Prod.mk.injEq] at h
    obtain ⟨rfl, -⟩ := h
    exact .inl (orKeep_of l.KeepsHistory (.refl l) fun _ hb => Ledger.keepsHistory_bondGenesis hb)
  | transaction params tx =>
    rcases Ledger.applied_eq_ok h with ⟨-, rfl⟩ | ⟨-, rc, hr⟩
    · exact .inl (.refl _)
    · exact .inl (Ledger.keepsHistory_applyVerified (Ledger.applyTransaction_eq_ok hr).2)
  | verified params tx =>
    rcases Ledger.applied_eq_ok h with ⟨-, rfl⟩ | ⟨-, rc, hr⟩
    · exact .inl (.refl _)
    · exact .inl (Ledger.keepsHistory_applyVerified hr)
  | beginBlock height =>
    simp only [run, Except.ok.injEq, Prod.mk.injEq] at h
    obtain ⟨rfl, -⟩ := h
    exact .inl (Ledger.keepsHistory_beginBlock l height)
  | payFees proposer =>
    simp only [run, Except.ok.injEq, Prod.mk.injEq] at h
    obtain ⟨rfl, -⟩ := h
    exact .inl (Ledger.keepsHistory_payFees l proposer)
  | penalty id offender kind offenseHeight params height =>
    simp only [run, Except.ok.injEq, Prod.mk.injEq] at h
    obtain ⟨rfl, -⟩ := h
    cases hp : l.applyPenalty id offender kind offenseHeight params height with
    | error e => exact .inl (.refl l)
    | ok r => exact .inr ⟨id, offender, kind, offenseHeight, params, height, r.2, by rw [hp]; rfl⟩

theorem run_remembers (h : op.run l = .ok (l', t)) : l.Remembers l' := by
  rcases run_history h with hk | ⟨_, _, _, _, _, _, _, hp⟩
  · exact hk.remembers
  · exact Ledger.remembers_applyPenalty hp

theorem run_offensesRecorded (h : op.run l = .ok (l', t)) (hinv : l.OffensesRecorded) :
    l'.OffensesRecorded := by
  rcases run_history h with hk | ⟨_, _, _, _, _, _, _, hp⟩
  · exact hinv.keepsHistory hk
  · exact hinv.applyPenalty hp

end LedgerOp

/-- A block is a run of operations, a `beginBlock`, a penalty per evidence, a verified
transaction per transaction and a `payFees`: what every operation keeps, a block keeps. -/
theorem executeBlock_induction (P : Ledger → Prop)
    (hop : ∀ (op : LedgerOp) (l l' : Ledger) (t : Option Transaction),
      op.run l = .ok (l', t) → P l → P l')
    {prev : Ledger} {height : UInt64} {proposer : Address} {txs : List Transaction}
    {evidence : List Evidence} {params : LedgerParams} {out : BlockOutcome}
    (h : (executeBlock prev height proposer txs evidence params).run = .ok (.ok out))
    (hprev : P prev) : P out.ledger := by
  unfold executeBlock at h
  dsimp only at h
  split at h
  · nomatch h
  obtain ⟨_, _, h⟩ := Guarded.bind_eq_ok h
  obtain ⟨⟨working, penalties⟩, hprep, h⟩ := Guarded.bind_eq_ok h
  have hworking : P working := prepareBlock_induction P
    (hop (.beginBlock height) prev _ none rfl hprev)
    (fun l e l' o hP hpen => hop (.penalty e.id e.offender e.kind e.height params height) l l' none
      (by simp [LedgerOp.run, (Ledger.penalize_eq_ok.mp hpen).2, LedgerOp.orKeep]) hP)
    (Guarded.ofExcept_eq_ok hprep)
  obtain ⟨final, hfold, h⟩ := Guarded.bind_eq_ok h
  have hfinal := Guarded.foldlM_induction
    (fun acc : Ledger × GasMeter × List Receipt => P acc.1) _
    (by
      rintro ⟨l₁, m, rs⟩ ⟨i, tx⟩ a' hP hstep
      obtain ⟨_, l₂, rc, -, happ, rfl⟩ := executeTx_eq_ok hstep
      exact hop (.verified params tx) l₁ l₂ (some tx)
        (by simp [LedgerOp.run, happ, LedgerOp.applied]) hP)
    _ _ final hworking hfold
  cases h
  exact hop (.payFees proposer) _ _ none rfl hfinal

/-- One move of a ledger: an operation, or a whole block executed over it. -/
inductive LedgerMove : Ledger → Ledger → Prop
  | op {l l' : Ledger} {t : Option Transaction} (op : LedgerOp) :
      op.run l = .ok (l', t) → LedgerMove l l'
  | block {prev : Ledger} {height : UInt64} {proposer : Address} {txs : List Transaction}
      {evidence : List Evidence} {params : LedgerParams} {out : BlockOutcome} :
      (executeBlock prev height proposer txs evidence params).run = .ok (.ok out) →
      LedgerMove prev out.ledger

/-- What every operation keeps, every sequence of moves keeps. -/
theorem LedgerMove.induction (P : Ledger → Prop)
    (hop : ∀ (op : LedgerOp) (l l' : Ledger) (t : Option Transaction),
      op.run l = .ok (l', t) → P l → P l')
    {l l' : Ledger} (h : Relation.ReflTransGen LedgerMove l l') (hl : P l) : P l' := by
  induction h with
  | refl => exact hl
  | tail _ hmove ih =>
    cases hmove with
    | op op hrun => exact hop op _ _ _ hrun ih
    | block hblock => exact executeBlock_induction P hop hblock ih

/-- **Each offense is penalized once.**  After a penalty goes through, calling it again leaves
the ledger as it is; after any further operations and blocks, a penalty against the same
validator with the same evidence is refused, at any offense height and any block height, and so
is one with other evidence for the same offense once the offense is recorded: when the first
call applied it or found it recorded.  A refused call records its id and changes nothing else.
Along any operations and blocks from the empty ledger, the recorded offenses, the validators'
infractions, the applied evidence and the slashed totals agree. -/
theorem offense_penalized_once :
    (∀ (l l₁ : Ledger) (id : Digest) (v : Address) (kind : EvidenceKind) (o : UInt64)
        (params : LedgerParams) (H : UInt64) (out : PenaltyOutcome),
      l.applyPenalty id v kind o params H = .ok (l₁, out) →
        l₁.applyPenalty id v kind o params H = .ok (l₁, .alreadyApplied v (l₁.votingPower v)) ∧
        ∀ l₂, Relation.ReflTransGen LedgerMove l₁ l₂ →
          (∀ kind' o' params' H', l₂.applyPenalty id v kind' o' params' H' =
            .ok ({ l₂ with appliedEvidence := l₂.appliedEvidence.insert id () },
              .alreadyApplied v (l₂.votingPower v))) ∧
          ((∃ slashed newStake jailedUntil, out = .applied v slashed newStake jailedUntil) ∨
              l.offenses.contains ⟨v, o⟩ = true →
            ∀ id' kind' params' H', l₂.applyPenalty id' v kind' o params' H' =
              .ok ({ l₂ with appliedEvidence := l₂.appliedEvidence.insert id' () },
                .alreadyApplied v (l₂.votingPower v)))) ∧
    ∀ l, Relation.ReflTransGen LedgerMove {} l → l.OffensesRecorded := by
  refine ⟨fun l l₁ id v kind o params H out hp => ?_, fun l hl =>
    LedgerMove.induction Ledger.OffensesRecorded (fun _ _ _ _ hrun hinv =>
      LedgerOp.run_offensesRecorded hrun hinv) hl Ledger.offensesRecorded_empty⟩
  obtain ⟨hreg, hae, hcases⟩ := Ledger.applyPenalty_records hp
  have hreg₁ : l₁.isValidator v = true := by
    rw [Ledger.isValidator_applyPenalty hp]
    exact hreg
  have happ₁ : l₁.evidenceApplied id = true := by
    simp [Ledger.evidenceApplied_of_insert hae]
  refine ⟨?_, fun l₂ hmoves => ?_⟩
  · -- the id is recorded already, and recording it again changes nothing
    rw [Ledger.applyPenalty_of_remembered hreg₁ (by simp [happ₁]), hae,
      KeyMap.insert_insert_self, ← hae]
  have hrem : l₁.Remembers l₂ := LedgerMove.induction l₁.Remembers
    (fun _ _ _ _ hrun hP => hP.trans (LedgerOp.run_remembers hrun)) hmoves (.refl l₁)
  refine ⟨fun kind' o' params' H' => Ledger.applyPenalty_of_remembered
      (hrem.validators v hreg₁) (by simp [hrem.evidence id happ₁]) kind' params' H',
    fun hcond id' kind' params' H' => ?_⟩
  have hoff₁ : l₁.offenses.contains ⟨v, o⟩ = true := by
    rcases hcond with ⟨s, n, j, rfl⟩ | hrec
    · rcases hcases with ⟨-, -, hout⟩ | ⟨-, hoff, -⟩
      · cases hout
      · simp [hoff, KeyMap.contains_insert]
    · exact (Ledger.remembers_applyPenalty hp).offenses _ hrec
  exact Ledger.applyPenalty_of_remembered (hrem.validators v hreg₁)
    (by simp [hrem.offenses _ hoff₁]) kind' params' H'

/-- Validator `⟨[1]⟩` with self-stake 1000, at height 6. -/
def offenseLedger : Ledger where
  accounts := KeyMap.empty.insert ⟨[1]⟩ { staked := 1000 }
  height := 6
  validators := KeyMap.empty.insert ⟨[1]⟩ { publicKey := ⟨[]⟩ }

/-- Evidence `⟨[9]⟩` penalizes the offense of `⟨[1]⟩` at height 5; afterwards other evidence
`⟨[8]⟩` of that offense, of another kind and a block later, is refused. -/
theorem offense_penalized_once_second_evidence :
    ∃ l₁ : Ledger, offenseLedger.applyPenalty ⟨[9]⟩ ⟨[1]⟩ .doubleVote 5 {} 6 =
        .ok (l₁, .applied ⟨[1]⟩ 500 500 106) ∧
      l₁.applyPenalty ⟨[8]⟩ ⟨[1]⟩ .doubleProposal 5 {} 7 =
        .ok ({ l₁ with appliedEvidence := l₁.appliedEvidence.insert ⟨[8]⟩ () },
          .alreadyApplied ⟨[1]⟩ (l₁.votingPower ⟨[1]⟩)) := by
  obtain ⟨l₁, h⟩ : ∃ l₁, offenseLedger.applyPenalty ⟨[9]⟩ ⟨[1]⟩ .doubleVote 5 {} 6 =
      .ok (l₁, .applied ⟨[1]⟩ 500 500 106) := ⟨_, rfl⟩
  exact ⟨l₁, h, ((offense_penalized_once.1 _ _ _ _ _ _ _ _ _ h).2 l₁ .refl).2
    (.inl ⟨_, _, _, rfl⟩) _ _ _ _⟩

/-- Evidence `⟨[9]⟩` penalizes the offense of `⟨[1]⟩` at height 5.  Named again for an offense at
height 7 it is refused for its id, which leaves that offense unrecorded, and evidence `⟨[8]⟩`
for the offense at height 7 is then applied. -/
theorem repeated_evidence_leaves_offense_open :
    (offenseLedger.applyPenalty ⟨[9]⟩ ⟨[1]⟩ .doubleVote 5 {} 6 >>= fun r =>
        r.1.applyPenalty ⟨[9]⟩ ⟨[1]⟩ .doubleVote 7 {} 6).toOption.map Prod.snd =
      some (.alreadyApplied ⟨[1]⟩ 500) ∧
    (offenseLedger.applyPenalty ⟨[9]⟩ ⟨[1]⟩ .doubleVote 5 {} 6 >>= fun r =>
        r.1.applyPenalty ⟨[9]⟩ ⟨[1]⟩ .doubleVote 7 {} 6 >>= fun r =>
        r.1.applyPenalty ⟨[8]⟩ ⟨[1]⟩ .doubleVote 7 {} 6).toOption.map Prod.snd =
      some (.applied ⟨[1]⟩ 250 250 106) := by
  constructor <;> decide

end StakeChain

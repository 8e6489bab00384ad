import StakeChain.Proofs.Slashing.Inclusion

/-!
# What a penalty takes, and what it leaves

A penalty for a new offense by a registered validator burns the slash rate, capped at the whole,
of everything bonded to the offender when it offended: its self-stake, each delegation to it,
and each unbonding entry that left it at or after the offense and is not yet released
(`Ledger.Reaches`).  Each part loses the floor of `b · x / 10000` (`Ledger.burnOf`), and a
delegation or an entry left at zero is dropped.  The offender is jailed for the unbonding
period, its record gains the infraction and the amount slashed, and the evidence id and the
offense are recorded.

Nothing else moves (`penalty_reach_and_frame`): every balance and nonce, every other account's
stake, every other validator's delegations and record, and every unbonding entry the offense
does not reach stay as they were.  Stake that left the offender before the offense escapes the
penalty, and stake that left it at or after the offense does not.  The amount reported slashed
is the sum of the parts saturated at the largest word, and a sum beyond it is cut there
(`penalty_slashed_saturates`).

The penalty is taken apart by `applyPenalty_cases`; each of its three cuts gets its own view
lemma (`account_setAccount`, `delegation_cutDelegations`, `cutUnbonding_unbonding`), and the
slashed total is the two saturating folds read as exact sums cut at the largest word.
-/

set_option autoImplicit false

namespace StakeChain

namespace KeyMap

variable {κ ν : Type} [Ord κ]

theorem get?_of_isEmpty {m : KeyMap κ ν} (h : m.isEmpty = true) (k : κ) : m.get? k = none := by
  obtain ⟨l, _⟩ := m
  cases l with
  | nil => rfl
  | cons _ _ => cases h

variable [DecidableEq κ] [Std.LawfulEqOrd κ]

/-- Filtering ascending entries on keys and values keeps each lookup that passes. -/
theorem lookup_filter (p : κ → ν → Bool) (k : κ) :
    ∀ {l : List (κ × ν)}, (l.Pairwise fun a b => compare a.1 b.1 = .lt) →
      lookup (l.filter fun e => p e.1 e.2) k = (lookup l k).filter (p k)
  | [], _ => rfl
  | (k₁, v₁) :: rest, hl => by
    have ih := lookup_filter p k hl.of_cons
    simp only [List.filter_cons]
    by_cases hk : k = k₁
    · subst hk
      cases hp : p k v₁
      · rw [if_neg (by simp), ih, lookup_tail hl, lookup_cons, if_pos rfl,
          Option.filter_some_neg hp]
        rfl
      · rw [if_pos rfl, lookup_cons, if_pos rfl, lookup_cons, if_pos rfl, Option.filter_some_pos hp]
    · split
      · rw [lookup_cons, if_neg hk, lookup_cons, if_neg hk, ih]
      · rw [ih, lookup_cons, if_neg hk]

/-- Filtering on keys and values keeps each lookup that passes. -/
theorem get?_filter_entries (m : KeyMap κ ν) (p : κ → ν → Bool) (k : κ) :
    (m.filter p).get? k = (m.get? k).filter (p k) :=
  lookup_filter p k m.sorted

theorem get?_modify [Std.TransOrd κ] (m : KeyMap κ ν) (k : κ) (f : ν → ν) (k' : κ) :
    (m.modify k f).get? k' = if k' = k then (m.get? k).map f else m.get? k' := by
  rw [modify_eq]
  split
  · rename_i v hk
    rw [get?_insert, hk]
    rfl
  · rename_i hk
    rw [hk]
    split
    · rename_i h
      rw [h, hk]
      rfl
    · rfl

end KeyMap

namespace Ledger

/-- What a penalty burns from an amount: the floor of `b · x / 10000`, with `b` the slash rate
capped at the whole. -/
def burnOf (params : LedgerParams) (x : UInt64) : Nat :=
  x.toNat * min params.slashBps.toNat 10000 / 10000

/-- Whether a penalty at `height` for an offense at `offenseHeight` reaches an unbonding entry:
the entry left the offender at or after the offense and is not yet released. -/
def Reaches (offender : Address) (offenseHeight height : UInt64) (e : UnbondingEntry) : Bool :=
  e.validator = offender && offenseHeight ≤ e.createdAt && height < e.releaseHeight

/-- An unbonding entry after a penalty: cut by what the penalty burns from it when the offense
reaches it, and dropped when nothing is left; any other entry as it was. -/
def penalizedEntry (params : LedgerParams) (offender : Address) (offenseHeight height : UInt64)
    (e : UnbondingEntry) : Option UnbondingEntry :=
  if Reaches offender offenseHeight height e then
    if e.amount.toNat - burnOf params e.amount = 0 then none
    else some { e with amount := (e.amount.toNat - burnOf params e.amount).toUInt64 }
  else some e

/-! ## The rate and the cut -/

theorem slashRate_toNat (params : LedgerParams) :
    (min params.slashBps maxBps.toUInt64).toNat = min params.slashBps.toNat 10000 := by
  show (if params.slashBps ≤ maxBps.toUInt64 then params.slashBps else maxBps.toUInt64).toNat =
    min params.slashBps.toNat 10000
  have hmax : maxBps.toUInt64.toNat = 10000 := rfl
  split
  · rename_i h
    rw [UInt64.le_iff_toNat_le, hmax] at h
    omega
  · rename_i h
    rw [UInt64.le_iff_toNat_le, hmax] at h
    omega

/-- The cut at the capped slash rate is what the penalty burns. -/
theorem cut_slashRate (params : LedgerParams) (x : UInt64) :
    (cut (min params.slashBps maxBps.toUInt64) x).toNat = burnOf params x := by
  rw [cut_toNat (slashRate_toNat_le params), slashRate_toNat]
  rfl

/-- What the cut leaves of an amount. -/
theorem sub_cut_slashRate (params : LedgerParams) (x : UInt64) :
    x - cut (min params.slashBps maxBps.toUInt64) x = (x.toNat - burnOf params x).toUInt64 := by
  have hle := cut_le (slashRate_toNat_le params) x
  apply UInt64.toNat_inj.mp
  rw [UInt64.toNat_sub_of_le _ _ (UInt64.le_iff_toNat_le.mpr hle), cut_slashRate,
    Nat.toUInt64_eq, UInt64.toNat_ofNat_of_lt' (Nat.lt_of_le_of_lt (Nat.sub_le _ _) x.toNat_lt_size)]

/-! ## The delegations to the offender -/

section Delegations

variable {l : Ledger} {v : Address} {bps slashed : UInt64}

theorem cut_zero (bps : UInt64) : cut bps 0 = 0 := by
  simp [cut]

/-- The total the delegation cut carries on from `slashed`: each delegation's cut, added in
turn. -/
theorem cutDelegations_slashed (l : Ledger) (v : Address) (bps slashed : UInt64) :
    (l.cutDelegations v bps slashed).2 =
      (l.delegations.getD v .empty).values.foldl (fun s a => Word.addSat s (cut bps a)) slashed := by
  unfold cutDelegations
  rw [KeyMap.getD_eq]
  split <;> rename_i h <;> rw [h] <;> rfl

/-- A validator's table after its cut: each amount less its cut, the emptied ones dropped. -/
theorem getD_cutTable (dels : KeyMap Address UInt64) (bps : UInt64) (d : Address) :
    (((dels.mapValues fun _ a => a - cut bps a).filter fun _ a => a > 0).get? d).getD 0 =
      (dels.get? d).getD 0 - cut bps ((dels.get? d).getD 0) := by
  rw [KeyMap.get?_filter_entries, KeyMap.get?_mapValues]
  cases dels.get? d with
  | none => simp [cut_zero]
  | some a =>
    simp only [Option.map_some, Option.filter_some, Option.getD_some]
    split
    · rfl
    · rename_i hpos
      simp only [gt_iff_lt, decide_eq_true_eq, UInt64.pos_iff_ne_zero, not_not] at hpos
      simp [hpos]

/-- Each delegation to the offender loses its cut, one that never was stays at zero. -/
theorem delegation_cutDelegations (d : Address) :
    (l.cutDelegations v bps slashed).1.delegation v d = l.delegation v d - cut bps (l.delegation v d) := by
  unfold cutDelegations
  split
  · rename_i h
    simp [delegation, h, cut_zero]
  · rename_i dels h
    have hcut := getD_cutTable dels bps d
    dsimp only
    split
    · -- an emptied table has no entry left, so every amount in it was cut to zero
      rename_i hempty
      rw [KeyMap.get?_of_isEmpty hempty] at hcut
      simp only [delegation, KeyMap.get?_erase, if_true, Option.bind_none, Option.getD_none, h,
        Option.bind_some]
      exact hcut
    · simp only [delegation, KeyMap.get?_insert_self, Option.bind_some, h]
      exact hcut

theorem get?_cutDelegations_of_ne {w : Address} (hw : w ≠ v) :
    (l.cutDelegations v bps slashed).1.delegations.get? w = l.delegations.get? w := by
  unfold cutDelegations
  split
  · rfl
  · dsimp only
    split
    · rw [KeyMap.get?_erase, if_neg hw]
    · rw [KeyMap.get?_insert_of_ne _ _ hw]

/-- The offender keeps a table only if some delegation survives, all of them positive. -/
theorem cutDelegations_table {tbl : KeyMap Address UInt64}
    (h : (l.cutDelegations v bps slashed).1.delegations.get? v = some tbl) :
    tbl.toList ≠ [] ∧ tbl.All fun _ a => 0 < a := by
  unfold cutDelegations at h
  split at h
  · rename_i hnone
    rw [hnone] at h
    cases h
  · dsimp only at h
    split at h
    · rw [KeyMap.get?_erase, if_pos rfl] at h
      cases h
    · rename_i hne
      rw [KeyMap.get?_insert_self, Option.some.injEq] at h
      subst h
      refine ⟨fun hnil => hne ?_, (KeyMap.all_filter_self _ _).mono fun _ _ hgt =>
        of_decide_eq_true hgt⟩
      simp [KeyMap.isEmpty, hnil]

end Delegations

/-! ## The unbonding queue -/

/-- Cutting the reached entries and dropping the emptied ones, over a queue of positive entries,
touches no entry the offense does not reach. -/
theorem filter_map_cut_eq_filterMap (params : LedgerParams) (v : Address) (o H : UInt64) :
    ∀ q : List UnbondingEntry, (∀ e ∈ q, 0 < e.amount) →
      (q.map fun e => if Reaches v o H e then
          { e with amount := e.amount - cut (min params.slashBps maxBps.toUInt64) e.amount }
        else e).filter (fun e => e.amount > 0) = q.filterMap (penalizedEntry params v o H)
  | [], _ => rfl
  | e :: rest, hpos => by
    have ih := filter_map_cut_eq_filterMap params v o H rest
      fun e' he' => hpos e' (List.mem_cons_of_mem _ he')
    rw [List.map_cons, List.filterMap_cons, List.filter_cons, ih]
    unfold penalizedEntry
    by_cases hr : Reaches v o H e = true
    · rw [if_pos hr, if_pos hr, sub_cut_slashRate]
      have hlt : e.amount.toNat - burnOf params e.amount < UInt64.size :=
        Nat.lt_of_le_of_lt (Nat.sub_le _ _) e.amount.toNat_lt_size
      by_cases hz : e.amount.toNat - burnOf params e.amount = 0
      · rw [if_neg, if_pos hz]
        simp [hz]
      · rw [if_pos, if_neg hz]
        simp only [gt_iff_lt, decide_eq_true_eq, UInt64.lt_iff_toNat_lt, UInt64.toNat_zero,
          Nat.toUInt64_eq, UInt64.toNat_ofNat_of_lt' hlt]
        omega
    · have he := hpos e List.mem_cons_self
      rw [if_neg hr, if_neg hr, if_pos (by simpa using he)]

/-- The total the unbonding cut carries on from `slashed`: the cut of each reached entry. -/
theorem cutUnbonding_slashed (l : Ledger) (reached : UnbondingEntry → Bool) (bps slashed : UInt64) :
    (l.cutUnbonding reached bps slashed).2 =
      l.unbonding.foldl (fun s e => if reached e then Word.addSat s (cut bps e.amount) else s)
        slashed := rfl

theorem cutUnbonding_unbonding (l : Ledger) (reached : UnbondingEntry → Bool)
    (bps slashed : UInt64) :
    (l.cutUnbonding reached bps slashed).1.unbonding =
      (l.unbonding.map fun e =>
        if reached e then { e with amount := e.amount - cut bps e.amount } else e).filter
      fun e => e.amount > 0 := rfl

/-! ## The whole penalty -/

/-- What a penalty for the offense of `v` at `o`, applied at `H` with evidence `id`, did to `l`,
giving `l'` and reporting `slashed`. -/
structure PenaltyEffect (params : LedgerParams) (id : Digest) (v : Address) (kind : EvidenceKind)
    (o H : UInt64) (r : ValidatorRecord) (l l' : Ledger) (slashed : UInt64) : Prop where
  /-- The parts' burns added up, saturated at the largest word. -/
  slashed_eq : slashed.toNat = min (burnOf params (l.account v).staked +
      ((l.delegations.getD v .empty).values.map (burnOf params)).sum +
      ((l.unbonding.filter (Reaches v o H)).map fun e => burnOf params e.amount).sum)
    (UInt64.size - 1)
  /-- The offender's self-stake loses its burn; every other account field stays. -/
  accounts : ∀ a, l'.account a = if a = v then
      { l.account v with
        staked := ((l.account v).staked.toNat - burnOf params (l.account v).staked).toUInt64 }
    else l.account a
  /-- Each delegation to the offender loses its burn. -/
  delegation : ∀ d, (l'.delegation v d).toNat =
    (l.delegation v d).toNat - burnOf params (l.delegation v d)
  /-- A delegation brought to zero is dropped, and so is a table left empty. -/
  table : ∀ tbl, l'.delegations.get? v = some tbl → tbl.toList ≠ [] ∧ tbl.All fun _ a => 0 < a
  /-- Every other validator keeps its delegations. -/
  delegations_other : ∀ w, w ≠ v → l'.delegations.get? w = l.delegations.get? w
  /-- The reached entries lose their burn, the emptied ones are dropped, the rest stay. -/
  unbonding : l'.unbonding = l.unbonding.filterMap (penalizedEntry params v o H)
  /-- The offender is jailed for the unbonding period and its record gains the infraction. -/
  record : l'.validators.get? v = some { r with
    status := .jailed (Word.addSat H params.unbondingPeriod)
    slashedTotal := Word.addSat r.slashedTotal slashed
    infractions := r.infractions ++ [⟨id, kind, o, H, slashed⟩] }
  /-- Every other validator keeps its record. -/
  records_other : ∀ w, w ≠ v → l'.validators.get? w = l.validators.get? w
  /-- Nothing else changes but the burned total and the records of evidence and offenses. -/
  frame : ∃ accounts delegations unbonding validators, l' = { l with
    accounts := accounts, delegations := delegations, unbonding := unbonding,
    validators := validators, burned := Word.addSat l.burned slashed,
    appliedEvidence := l.appliedEvidence.insert id (),
    offenses := l.offenses.insert ⟨v, o⟩ () }

/-- The three cuts of a penalty write the offender's account, the delegations and the queue, and
nothing else. -/
theorem cuts_frame {l l₁ l₂ l₃ : Ledger} {v : Address} {acct : Account} {bps s s₂ s₃ : UInt64}
    {reached : UnbondingEntry → Bool} (hl₁ : l₁ = l.setAccount v acct)
    (hcd : l₁.cutDelegations v bps s = (l₂, s₂))
    (hcu : l₂.cutUnbonding reached bps s₂ = (l₃, s₃)) :
    l₃ = { l with
      accounts := l₁.accounts, delegations := l₂.delegations, unbonding := l₃.unbonding } := by
  subst hl₁
  have h₃ := cutUnbonding_frame hcu
  rw [cutDelegations_frame hcd] at h₃
  exact h₃

/-- The slashed total of the two saturating folds is the exact sum of the cuts, saturated. -/
theorem slashed_of_cuts {params : LedgerParams} {v : Address} {o H : UInt64} {l l₁ l₂ l₃ : Ledger}
    {s₂ s₃ : UInt64} (hd : l₁.delegations = l.delegations) (hu : l₁.unbonding = l.unbonding)
    (hcd : l₁.cutDelegations v (min params.slashBps maxBps.toUInt64)
      (cut (min params.slashBps maxBps.toUInt64) (l.account v).staked) = (l₂, s₂))
    (hcu : l₂.cutUnbonding (Reaches v o H) (min params.slashBps maxBps.toUInt64) s₂ = (l₃, s₃)) :
    s₃.toNat = min (burnOf params (l.account v).staked +
      ((l.delegations.getD v .empty).values.map (burnOf params)).sum +
      ((l.unbonding.filter (Reaches v o H)).map fun e => burnOf params e.amount).sum)
    (UInt64.size - 1) := by
  have hs₂ := cutDelegations_slashed l₁ v (min params.slashBps maxBps.toUInt64)
    (cut (min params.slashBps maxBps.toUInt64) (l.account v).staked)
  rw [hcd, hd] at hs₂
  have hs₃ := cutUnbonding_slashed l₂ (Reaches v o H) (min params.slashBps maxBps.toUInt64) s₂
  rw [hcu] at hs₃
  dsimp only at hs₂ hs₃
  have hu₂ : l₂.unbonding = l.unbonding := by
    rw [cutDelegations_frame hcd]
    exact hu
  -- each fold is its exact sum saturated, and saturating twice is saturating once
  have hfold₂ := Word.foldl_addSat_toNat (cut (min params.slashBps maxBps.toUInt64))
    (l.delegations.getD v .empty).values (cut (min params.slashBps maxBps.toUInt64)
      (l.account v).staked)
  have hfold₃ := Word.foldl_addSat_filter_toNat (Reaches v o H)
    (fun e => cut (min params.slashBps maxBps.toUInt64) e.amount) l.unbonding s₂
  simp only [cut_slashRate] at hfold₂ hfold₃
  rw [show (fun a => burnOf params a) = burnOf params from rfl] at hfold₂
  rw [hs₃, hu₂, hfold₃, hs₂, hfold₂]
  omega

/-- **Penalty reach and frame.**  In a ledger in shape, a penalty for an offense not yet
recorded, by a registered validator, with evidence not yet applied, goes through at any height
and any rate.  It burns the rate's share of the offender's self-stake, of each delegation to it
and of each unbonding entry the offense reaches, reports the sum of the burns (saturated) and
the offender's remaining voting power, drops what it emptied, jails the offender for the
unbonding period with one more infraction on record, and changes nothing else. -/
theorem penalty_reach_and_frame {l : Ledger} (htidy : l.Tidy) {v : Address}
    {r : ValidatorRecord} (hv : l.validators.get? v = some r) {id : Digest}
    (hid : l.evidenceApplied id = false) {o : UInt64} (ho : l.offenses.contains ⟨v, o⟩ = false)
    (kind : EvidenceKind) (params : LedgerParams) (H : UInt64) :
    ∃ l' slashed, l.applyPenalty id v kind o params H =
        .ok (l', .applied v slashed (l'.votingPower v) (Word.addSat H params.unbondingPeriod)) ∧
      PenaltyEffect params id v kind o H r l l' slashed := by
  have hreg : l.isValidator v = true := by
    simp [isValidator, KeyMap.contains_eq, hv]
  obtain ⟨⟨l', out⟩, hres⟩ := applyPenalty_ok_of_isValidator hreg id kind o params H
  obtain ⟨-, ⟨hrep, -, -⟩ | ⟨bps, selfCut, l₁, l₂, l₃, s₂, s₃, -, rfl, rfl, hl₁, hcd, hcu, hl',
    rfl⟩⟩ := applyPenalty_cases hres
  · -- the evidence and the offense are new, so the penalty is not a repeat
    simp [hid, ho] at hrep
  have hreach : (fun e : UnbondingEntry => e.validator = v && o ≤ e.createdAt &&
      H < e.releaseHeight) = Reaches v o H := rfl
  rw [hreach] at hcu
  have hl₃ := cuts_frame hl₁ hcd hcu
  have hl₂ : l₂ = (l₁.cutDelegations v (min params.slashBps maxBps.toUInt64)
      (cut (min params.slashBps maxBps.toUInt64) (l.account v).staked)).1 := by
    rw [hcd]
  have hacc : l'.accounts = l₁.accounts := by rw [hl', hl₃]
  have hdels : l'.delegations = l₂.delegations := by rw [hl', hl₃]
  have hvals : l₃.validators = l.validators := by rw [hl₃]
  have hd₁ : l₁.delegations = l.delegations := by rw [hl₁]; rfl
  have hu₁ : l₁.unbonding = l.unbonding := by rw [hl₁]; rfl
  have hpow : l'.votingPower v = l₃.votingPower v := by
    rw [hl']
    rfl
  refine ⟨l', s₃, by rw [hpow]; exact hres, ⟨slashed_of_cuts hd₁ hu₁ hcd hcu, fun a => ?_,
    fun d => ?_, fun tbl htbl => ?_, fun w hw => ?_, ?_, ?_, fun w hw => ?_, ?_⟩⟩
  · -- accounts: only the offender's self-stake was written
    have ha : l'.account a = l₁.account a := by rw [account_eq, account_eq, hacc]
    rw [ha, hl₁, account_setAccount, sub_cut_slashRate]
  · have hd : l'.delegation v d = l₂.delegation v d := by
      rw [delegation_eq, delegation_eq, hdels]
    have hd' : l₁.delegation v d = l.delegation v d := by
      rw [delegation_eq, delegation_eq, hd₁]
    rw [hd, hl₂, delegation_cutDelegations, hd', sub_cut_slashRate,
      Nat.toUInt64_eq, UInt64.toNat_ofNat_of_lt'
        (Nat.lt_of_le_of_lt (Nat.sub_le _ _) (l.delegation v d).toNat_lt_size)]
  · rw [hdels, hl₂] at htbl
    exact cutDelegations_table htbl
  · rw [hdels, hl₂, get?_cutDelegations_of_ne hw, hd₁]
  · -- the queue: the reached entries are cut, the others are positive and stay
    have hu₂ : l₂.unbonding = l.unbonding := by rw [cutDelegations_frame hcd, hu₁]
    have hq := cutUnbonding_unbonding l₂ (Reaches v o H) (min params.slashBps maxBps.toUInt64) s₂
    rw [hcu, hu₂] at hq
    rw [hl']
    dsimp only
    rw [hq]
    exact filter_map_cut_eq_filterMap params v o H l.unbonding htidy.unbonding
  · rw [hl']
    dsimp only
    rw [KeyMap.get?_modify, if_pos rfl, hvals, hv]
    rfl
  · rw [hl']
    dsimp only
    rw [KeyMap.get?_modify, if_neg hw, hvals]
  · -- the rest: the height and the fee pool are untouched, the totals and records grow by one
    refine ⟨l'.accounts, l'.delegations, l'.unbonding, l'.validators, ?_⟩
    rw [hl', hl₃]

/-- An unbonding entry the offense does not reach survives the penalty as it was. -/
theorem PenaltyEffect.mem_unbonding_of_not_reaches {params : LedgerParams} {id : Digest}
    {v : Address} {kind : EvidenceKind} {o H : UInt64} {r : ValidatorRecord} {l l' : Ledger}
    {slashed : UInt64} (h : PenaltyEffect params id v kind o H r l l' slashed)
    {e : UnbondingEntry} (he : e ∈ l.unbonding) (hr : Reaches v o H e = false) :
    e ∈ l'.unbonding := by
  rw [h.unbonding]
  exact List.mem_filterMap.mpr ⟨e, he, by simp [penalizedEntry, hr]⟩

/-- Validator `⟨[1]⟩` with self-stake 1000 and 400 delegated to it by `⟨[2]⟩`, at height 6,
with two entries unbonding from it: one created at height 2 and one at height 5. -/
def penaltyLedger : Ledger where
  accounts := ⟨[(⟨[1]⟩, { staked := 1000 }), (⟨[2]⟩, { balance := 50 })], by decide⟩
  height := 6
  validators := ⟨[(⟨[1]⟩, { publicKey := ⟨[]⟩ })], by decide⟩
  delegations := ⟨[(⟨[1]⟩, ⟨[(⟨[2]⟩, 400)], by decide⟩)], by decide⟩
  unbonding := [⟨⟨[1]⟩, ⟨[1]⟩, 200, 2, 12⟩, ⟨⟨[2]⟩, ⟨[1]⟩, 800, 5, 15⟩]

theorem penaltyLedger_tidy : penaltyLedger.Tidy := by
  refine ⟨fun k r hk => ?_, fun k dels hk => ?_, by decide⟩
  · obtain ⟨-, rfl⟩ : k = ⟨[1]⟩ ∧ r = { publicKey := ⟨[]⟩ } := by
      simpa [penaltyLedger] using hk
    decide
  · obtain ⟨rfl, rfl⟩ : k = ⟨[1]⟩ ∧ dels = ⟨[(⟨[2]⟩, 400)], by decide⟩ := by
      simpa [penaltyLedger] using hk
    refine ⟨by decide, by decide, fun d a hd => ?_⟩
    obtain ⟨-, rfl⟩ : d = ⟨[2]⟩ ∧ a = 400 := by simpa using hd
    decide

/-- A double vote of `⟨[1]⟩` at height 4, penalized at height 6 at the default rate: the entry
created at height 2 escapes, the one created at height 5 does not. -/
theorem penalty_reach_and_frame_offense_at_four :
    penaltyLedger.Tidy ∧
      penaltyLedger.validators.get? ⟨[1]⟩ = some { publicKey := ⟨[]⟩ } ∧
      penaltyLedger.evidenceApplied ⟨[9]⟩ = false ∧
      penaltyLedger.offenses.contains ⟨⟨[1]⟩, 4⟩ = false ∧
      ∃ l' slashed, penaltyLedger.applyPenalty ⟨[9]⟩ ⟨[1]⟩ .doubleVote 4 {} 6 =
          .ok (l', .applied ⟨[1]⟩ slashed (l'.votingPower ⟨[1]⟩)
            (Word.addSat 6 ({} : LedgerParams).unbondingPeriod)) ∧
        PenaltyEffect {} ⟨[9]⟩ ⟨[1]⟩ .doubleVote 4 6 { publicKey := ⟨[]⟩ } penaltyLedger l'
          slashed := by
  have hv : penaltyLedger.validators.get? ⟨[1]⟩ = some { publicKey := ⟨[]⟩ } := by decide
  exact ⟨penaltyLedger_tidy, hv, by decide, by decide,
    penalty_reach_and_frame penaltyLedger_tidy hv (by decide) (by decide) .doubleVote {} 6⟩

/-- Half of 1000, of 400 and of the reached 800: 1100 slashed, 700 of voting power left, and
jailed until height 106. -/
example : (penaltyLedger.applyPenalty ⟨[9]⟩ ⟨[1]⟩ .doubleVote 4 {} 6).toOption.map
    (fun r => r.2) = some (.applied ⟨[1]⟩ 1100 700 106) := by
  decide

/-- Validator `⟨[1]⟩` with the largest self-stake and 1 delegated to it by `⟨[2]⟩`. -/
def saturatedLedger : Ledger where
  accounts := ⟨[(⟨[1]⟩, { staked := Word.max })], by decide⟩
  validators := ⟨[(⟨[1]⟩, { publicKey := ⟨[]⟩ })], by decide⟩
  delegations := ⟨[(⟨[1]⟩, ⟨[(⟨[2]⟩, 1)], by decide⟩)], by decide⟩

/-- At the full rate the two cuts add up to one past the largest word, and the penalty reports
the largest word slashed. -/
theorem penalty_slashed_saturates :
    (saturatedLedger.applyPenalty ⟨[9]⟩ ⟨[1]⟩ .doubleVote 1 { slashBps := 10000 } 1).toOption.map
        (fun r => r.2) = some (.applied ⟨[1]⟩ Word.max 0 101) ∧
      Word.max.toNat < burnOf { slashBps := 10000 } Word.max + burnOf { slashBps := 10000 } 1 := by
  constructor <;> decide

end Ledger

end StakeChain

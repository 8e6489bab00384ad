import StakeChain.Proofs.Mempool.Entries
import StakeChain.Ledger.Block
import Mathlib

/-!
# Validator snapshots are canonical

A snapshot keeps the validators of positive power and sorts them by `Validator.canonicalLe`:
higher power first, then the smaller address.  That comparison is a total preorder
(`canonicalLe_trans`, `canonicalLe_total`), and two validators it ranks both ways have one power
and one address (`canonicalLe_antisymm`).  So once the addresses of a list are distinct, the
sorted list is strictly ordered (`Validator.CanonicalLt`), and it is the one strictly ordered
arrangement of the list's positive-power entries: every permutation of the list gives the same
snapshot, and with it the same hash and the same proposer for every seed (`ofList_perm_eq`).

A ledger's snapshot at a height takes each registered validator that is not jailed there and
holds self-stake, with its record's public key and its voting power as power, when that power
reaches the minimum and is positive (`Ledger.mem_validatorSet`).  The validator table holds one
record per address, so no address is taken twice (`Ledger.validatorSet_addresses_nodup`).
-/

set_option autoImplicit false

namespace StakeChain

/-- Strictly before in canonical order: more power, or as much power and a smaller address. -/
def Validator.CanonicalLt (a b : Validator) : Prop :=
  b.power < a.power ∨ (a.power = b.power ∧ compare a.address b.address = .lt)

namespace Validator

theorem canonicalLe_iff (a b : Validator) :
    a.canonicalLe b = true ↔ b.power.toNat < a.power.toNat ∨
      (a.power.toNat = b.power.toNat ∧ (compare a.address b.address).isLE = true) := by
  have hne : (compare a.address b.address != .gt) = (compare a.address b.address).isLE := by
    cases compare a.address b.address <;> rfl
  simp only [canonicalLe, Bool.or_eq_true, Bool.and_eq_true, beq_iff_eq, hne, decide_eq_true_eq,
    UInt64.lt_iff_toNat_lt, ← UInt64.toNat_inj]

theorem canonicalLe_trans (a b c : Validator) :
    a.canonicalLe b = true → b.canonicalLe c = true → a.canonicalLe c = true := by
  simp only [canonicalLe_iff]
  rintro (hab | ⟨hab, hab'⟩) (hbc | ⟨hbc, hbc'⟩)
  · omega
  · omega
  · omega
  · exact .inr ⟨hab.trans hbc, Std.TransCmp.isLE_trans hab' hbc'⟩

theorem canonicalLe_total (a b : Validator) : (a.canonicalLe b || b.canonicalLe a) = true := by
  rw [Bool.or_eq_true, canonicalLe_iff, canonicalLe_iff]
  rcases Nat.lt_trichotomy a.power.toNat b.power.toNat with hlt | heq | hgt
  · exact .inr (.inl hlt)
  · -- equal powers: the addresses decide, one way or the other
    have hswap : compare b.address a.address = (compare a.address b.address).swap :=
      Std.OrientedCmp.eq_swap
    rw [hswap]
    cases compare a.address b.address
    · exact .inl (.inr ⟨heq, rfl⟩)
    · exact .inl (.inr ⟨heq, rfl⟩)
    · exact .inr (.inr ⟨heq.symm, rfl⟩)
  · exact .inl (.inl hgt)

/-- Two validators ranked both ways have one power and one address. -/
theorem canonicalLe_antisymm {a b : Validator} (hab : a.canonicalLe b = true)
    (hba : b.canonicalLe a = true) : a.power = b.power ∧ a.address = b.address := by
  rw [canonicalLe_iff] at hab hba
  rcases hab with hab | ⟨hpow, hab⟩
  · omega
  rcases hba with hba | ⟨-, hba⟩
  · omega
  have hswap : compare b.address a.address = (compare a.address b.address).swap :=
    Std.OrientedCmp.eq_swap
  refine ⟨UInt64.toNat_inj.mp hpow, ?_⟩
  rw [hswap] at hba
  cases h : compare a.address b.address with
  | eq => exact Std.LawfulEqCmp.eq_of_compare h
  | lt => simp [h] at hba
  | gt => simp [h] at hab

/-- Ranked first and at another address is strictly first. -/
theorem canonicalLt_of_le {a b : Validator} (hab : a.canonicalLe b = true)
    (hne : a.address ≠ b.address) : a.CanonicalLt b := by
  rw [canonicalLe_iff] at hab
  rcases hab with hlt | ⟨hpow, hle⟩
  · exact .inl (UInt64.lt_iff_toNat_lt.mpr hlt)
  · refine .inr ⟨UInt64.toNat_inj.mp hpow, ?_⟩
    cases h : compare a.address b.address with
    | lt => rfl
    | eq => exact absurd (Std.LawfulEqCmp.eq_of_compare h) hne
    | gt => simp [h] at hle

end Validator

namespace ValidatorSet

/-- A snapshot holds the given entries of positive power, rearranged. -/
theorem ofList_vals_perm (height : UInt64) (vals : List Validator) :
    (ofList height vals).vals.Perm (vals.filter fun v => v.power > 0) :=
  List.mergeSort_perm _ _

theorem ofList_sorted (height : UInt64) (vals : List Validator) :
    (ofList height vals).vals.Pairwise fun a b => a.canonicalLe b = true :=
  List.pairwise_mergeSort Validator.canonicalLe_trans Validator.canonicalLe_total _

theorem ofList_addresses_nodup {height : UInt64} {vals : List Validator}
    (hd : (vals.map Validator.address).Nodup) :
    ((ofList height vals).vals.map Validator.address).Nodup :=
  ((ofList_vals_perm height vals).map _).nodup_iff.mpr (hd.sublist (List.filter_sublist.map _))

/-- With distinct addresses, a snapshot is strictly ordered: power descending, then address
ascending. -/
theorem ofList_strictly_sorted {height : UInt64} {vals : List Validator}
    (hd : (vals.map Validator.address).Nodup) :
    (ofList height vals).vals.Pairwise Validator.CanonicalLt :=
  ((ofList_sorted height vals).and (List.pairwise_map.mp (ofList_addresses_nodup hd))).imp
    fun h => Validator.canonicalLt_of_le h.1 h.2

/-- With distinct addresses, the snapshot does not depend on the order of the list.  Both sorted
lists arrange the same entries, and the only entries the order ranks both ways are equal. -/
theorem ofList_perm_eq {height : UInt64} {vals perm : List Validator}
    (hd : (vals.map Validator.address).Nodup) (hp : perm.Perm vals) :
    ofList height perm = ofList height vals := by
  have hsame : (ofList height perm).vals.Perm (ofList height vals).vals :=
    ((ofList_vals_perm height perm).trans (hp.filter _)).trans (ofList_vals_perm height vals).symm
  have hmem : ∀ {v}, v ∈ (ofList height vals).vals → v ∈ vals := fun hv =>
    List.mem_of_mem_filter ((ofList_vals_perm height vals).subset hv)
  have heq : (ofList height perm).vals = (ofList height vals).vals := by
    refine hsame.eq_of_pairwise (fun a b ha hb hab hba => ?_) (ofList_sorted height perm)
      (ofList_sorted height vals)
    exact List.inj_on_of_nodup_map hd (hmem (hsame.subset ha)) (hmem hb)
      (Validator.canonicalLe_antisymm hab hba).2
  simp only [ofList] at heq ⊢
  rw [heq]

end ValidatorSet

namespace Ledger

variable {l : Ledger} {height minStake : UInt64}

/-- The least power a snapshot with minimum `minStake` keeps is `max minStake 1`. -/
theorem max_one_le_iff (minStake p : UInt64) : max minStake 1 ≤ p ↔ minStake ≤ p ∧ 0 < p := by
  rw [show max minStake 1 = if minStake ≤ 1 then 1 else minStake from rfl]
  simp only [UInt64.le_iff_toNat_le, UInt64.lt_iff_toNat_lt, UInt64.toNat_one, UInt64.toNat_zero]
  split <;> simp_all <;> omega

/-- The candidate a validator record gives: its address, key and voting power, unless it is
jailed, holds no self-stake or falls below the minimum. -/
theorem validatorSet_eq (l : Ledger) (height minStake : UInt64) :
    l.validatorSet height minStake = ValidatorSet.ofList height
      (l.validators.toList.filterMap fun p =>
        if p.2.isJailedAt height || l.staked p.1 = 0 then none
        else if l.votingPower p.1 ≥ minStake then some ⟨p.1, p.2.publicKey, l.votingPower p.1⟩
        else none) := rfl

/-- **Membership in a ledger's snapshot.** A validator is in the snapshot exactly when its
address holds a record that is not jailed at the height, holds self-stake, and has voting power
at least `max minStake 1`; it then carries that power and the record's key. -/
theorem mem_validatorSet {v : Validator} :
    v ∈ (l.validatorSet height minStake).vals ↔
      ∃ r, l.validators.get? v.address = some r ∧ r.isJailedAt height = false ∧
        0 < l.staked v.address ∧ max minStake 1 ≤ l.votingPower v.address ∧
        v.power = l.votingPower v.address ∧ v.publicKey = r.publicKey := by
  rw [validatorSet_eq, ValidatorSet.ofList, List.mem_mergeSort, List.mem_filter,
    List.mem_filterMap]
  constructor
  · rintro ⟨⟨⟨a, r⟩, hmem, hv⟩, hpos⟩
    simp only [Bool.or_eq_true] at hv
    split at hv
    · cases hv
    rename_i hkeep
    split at hv
    · rename_i hmin
      cases hv
      simp only [not_or, Bool.not_eq_true] at hkeep
      refine ⟨r, KeyMap.get?_of_mem hmem, hkeep.1,
        UInt64.pos_iff_ne_zero.mpr (by simpa using hkeep.2),
        (max_one_le_iff _ _).mpr ⟨hmin, by simpa using hpos⟩, rfl, rfl⟩
    · cases hv
  · rintro ⟨r, hget, hjail, hstaked, hmin, hpow, hpk⟩
    obtain ⟨hmin, hpos⟩ := (max_one_le_iff _ _).mp hmin
    refine ⟨⟨(v.address, r), KeyMap.mem_toList_of_get? hget, ?_⟩, by simpa [hpow] using hpos⟩
    have hkeep : ¬(r.isJailedAt height || decide (l.staked v.address = 0)) = true := by
      simp [hjail, UInt64.pos_iff_ne_zero.mp hstaked]
    dsimp only
    rw [if_neg hkeep, if_pos hmin, ← hpow, ← hpk]

/-- Each candidate carries the address of its record. -/
theorem map_address_filterMap_sublist (ps : List (Address × ValidatorRecord))
    (f : Address × ValidatorRecord → Option Validator)
    (hf : ∀ p v, f p = some v → v.address = p.1) :
    ((ps.filterMap f).map Validator.address).Sublist (ps.map Prod.fst) := by
  induction ps with
  | nil => simp
  | cons p rest ih =>
    rw [List.filterMap_cons, List.map_cons]
    cases hp : f p with
    | none => exact ih.cons _
    | some v =>
      rw [List.map_cons, hf p v hp]
      exact ih.cons_cons _

/-- No address is in a ledger's snapshot twice. -/
theorem validatorSet_addresses_nodup :
    ((l.validatorSet height minStake).vals.map Validator.address).Nodup := by
  rw [validatorSet_eq]
  refine ValidatorSet.ofList_addresses_nodup (l.validators.keys_nodup.sublist ?_)
  refine map_address_filterMap_sublist _ _ fun p v hv => ?_
  split at hv
  · cases hv
  split at hv
  · cases hv
    rfl
  · cases hv

end Ledger

/-- **Validator snapshots are canonical.** For a list of validators with distinct addresses:
every permutation of it gives the same snapshot, so the same hash and the same proposer for
every height and seed; the snapshot is strictly ordered, power descending then address
ascending; and it holds exactly the list's entries of positive power.  A ledger's snapshot at a
height holds, once each, exactly the registered validators that are not jailed there, hold
self-stake and have voting power at least `max minStake 1`, each with that power and its
record's key. -/
theorem validator_snapshots_canonical :
    (∀ (height : UInt64) (vals perm : List Validator), (vals.map Validator.address).Nodup →
      perm.Perm vals →
        ValidatorSet.ofList height perm = ValidatorSet.ofList height vals ∧
        (ValidatorSet.ofList height perm).hash = (ValidatorSet.ofList height vals).hash ∧
        ∀ (h : UInt64) (seed : Digest), (ValidatorSet.ofList height perm).selectProposer h seed =
          (ValidatorSet.ofList height vals).selectProposer h seed) ∧
    (∀ (height : UInt64) (vals : List Validator), (vals.map Validator.address).Nodup →
      (ValidatorSet.ofList height vals).vals.Pairwise Validator.CanonicalLt ∧
      (ValidatorSet.ofList height vals).vals.Perm (vals.filter fun v => v.power > 0)) ∧
    (∀ (l : Ledger) (height minStake : UInt64),
      (∀ v : Validator, v ∈ (l.validatorSet height minStake).vals ↔
        ∃ r, l.validators.get? v.address = some r ∧ r.isJailedAt height = false ∧
          0 < l.staked v.address ∧ max minStake 1 ≤ l.votingPower v.address ∧
          v.power = l.votingPower v.address ∧ v.publicKey = r.publicKey) ∧
      ((l.validatorSet height minStake).vals.map Validator.address).Nodup) := by
  refine ⟨fun height vals perm hd hp => ?_, fun height vals hd => ?_, fun l height minStake => ?_⟩
  · have heq : ValidatorSet.ofList height perm = ValidatorSet.ofList height vals :=
      ValidatorSet.ofList_perm_eq hd hp
    exact ⟨heq, by rw [heq], fun _ _ => by rw [heq]⟩
  · exact ⟨ValidatorSet.ofList_strictly_sorted hd, ValidatorSet.ofList_vals_perm height vals⟩
  · exact ⟨fun _ => Ledger.mem_validatorSet, Ledger.validatorSet_addresses_nodup⟩

/-- Three validators, two of equal power, given in two orders. -/
def snapshotTrio : List Validator :=
  [⟨⟨[1]⟩, ⟨[]⟩, 7⟩, ⟨⟨[2]⟩, ⟨[]⟩, 7⟩, ⟨⟨[3]⟩, ⟨[]⟩, 9⟩]

/-- A ledger with one registered validator, staked and unjailed. -/
def snapshotLedger : Ledger where
  accounts := KeyMap.empty.insert ⟨[1]⟩ { staked := 5 }
  validators := KeyMap.empty.insert ⟨[1]⟩ { publicKey := ⟨[]⟩ }

theorem validator_snapshots_canonical_on_trio :
    (snapshotTrio.map Validator.address).Nodup ∧ snapshotTrio.reverse.Perm snapshotTrio ∧
      ValidatorSet.ofList 3 snapshotTrio.reverse = ValidatorSet.ofList 3 snapshotTrio ∧
      (ValidatorSet.ofList 3 snapshotTrio).vals.Pairwise Validator.CanonicalLt ∧
      (⟨⟨[1]⟩, ⟨[]⟩, 5⟩ ∈ (snapshotLedger.validatorSet 1 5).vals ↔
        ∃ r, snapshotLedger.validators.get? ⟨[1]⟩ = some r ∧ r.isJailedAt 1 = false ∧
          0 < snapshotLedger.staked ⟨[1]⟩ ∧ max 5 1 ≤ snapshotLedger.votingPower ⟨[1]⟩ ∧
          (5 : UInt64) = snapshotLedger.votingPower ⟨[1]⟩ ∧ (⟨[]⟩ : PublicKey) = r.publicKey) := by
  have hd : (snapshotTrio.map Validator.address).Nodup := by decide
  have hp : snapshotTrio.reverse.Perm snapshotTrio := List.reverse_perm _
  exact ⟨hd, hp, (validator_snapshots_canonical.1 3 snapshotTrio _ hd hp).1,
    (validator_snapshots_canonical.2.1 3 snapshotTrio hd).1,
    (validator_snapshots_canonical.2.2 snapshotLedger 1 5).1 ⟨⟨[1]⟩, ⟨[]⟩, 5⟩⟩

end StakeChain

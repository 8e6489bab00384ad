import StakeChain.Proofs.Consensus.Equivocation

/-!
# Where the tracker's arithmetic leaves the word range

The finality tracker adds to a height in two places, both with exact (aborting) additions:
parking a vote measures the window `F + 64` above the final height `F`, and finalizing a
height `h` moves the parked votes on from the split point `h + 1`.  Neither is guarded, so a
tracker final near the top of the word range stops the run.

* `recordVote_eq_error`: recording a vote stops the run only for a vote above the final height,
  parked at a height without a snapshot while the window end leaves the range, or counted at the
  largest height;
* `recordVote_overflow_iff`: at a height without a snapshot, a signed vote above the final
  height stops the run exactly when the window end leaves the range;
* `tryFinalize_overflow_iff`: finalizing stops the run exactly at the largest height, above the
  final height, when its best block has the quorum;
* `registerValidatorSet_eq_error`: registering a snapshot, with the parked votes filed under
  their heights, stops the run only at the largest height above the final one.
-/

set_option autoImplicit false

namespace StakeChain

namespace Word

/-- An exact sum stops the run, with an addition overflow, exactly when it leaves the range. -/
theorem addStrict_eq_error_iff {a b : UInt64} {e : Abort} :
    addStrict a b = .error e ↔ e = .addOverflow ∧ UInt64.size ≤ a.toNat + b.toNat := by
  unfold addStrict
  split
  · rename_i h
    exact ⟨nofun, fun ⟨_, h'⟩ => absurd h (Nat.not_lt.mpr h')⟩
  · rename_i h
    exact ⟨fun he => ⟨(Except.error.inj he).symm, Nat.not_lt.mp h⟩,
      fun ⟨he, _⟩ => he ▸ rfl⟩

/-- Adding one leaves the range exactly at the largest word. -/
theorem size_le_succ_iff (h : UInt64) : UInt64.size ≤ h.toNat + 1 ↔ h = max := by
  have hlt := h.toNat_lt_size
  constructor
  · intro hle
    apply UInt64.toNat_inj.mp
    rw [max_toNat]
    omega
  · rintro rfl
    rw [max_toNat]
    omega

end Word

namespace FinalityManager

variable {fm : FinalityManager}

/-! ## The split point -/

/-- Finalizing stops the run only at the largest height, above the final one, when the best
block there has the quorum; the abort is the addition of the split point. -/
theorem tryFinalize_eq_error {h : UInt64} {a : Abort} (herr : fm.tryFinalize h = .error a) :
    a = .addOverflow ∧ fm.finalizedHeight < h ∧ h = Word.max ∧
      ∃ hv block power, fm.heights.get? h = some hv ∧ hv.tally.best = some (block, power) ∧
        quorumThreshold hv.vset.totalPower ≤ power := by
  unfold tryFinalize at herr
  split at herr
  · cases herr
  rename_i habove
  split at herr
  · cases herr
  rename_i hv hget
  dsimp only at herr
  split at herr
  · cases herr
  rename_i block power hbest
  split at herr
  · cases herr
  rename_i hquorum
  obtain ⟨rfl, hsize⟩ : a = .addOverflow ∧ UInt64.size ≤ h.toNat + (1 : UInt64).toNat := by
    cases hnext : Word.addStrict h 1 with
    | ok next =>
      rw [hnext] at herr
      cases herr
    | error e =>
      rw [hnext] at herr
      cases herr
      exact Word.addStrict_eq_error_iff.mp hnext
  exact ⟨rfl, UInt64.not_le.mp habove, (Word.size_le_succ_iff h).mp hsize, hv, block, power,
    hget, hbest, UInt64.not_lt.mp hquorum⟩

/-- Finalizing the largest height above the final one, when its best block has the quorum,
stops the run. -/
theorem tryFinalize_overflow {hv : HeightVotes} {block : Digest} {power : UInt64}
    (habove : fm.finalizedHeight < Word.max) (hget : fm.heights.get? Word.max = some hv)
    (hbest : hv.tally.best = some (block, power))
    (hquorum : quorumThreshold hv.vset.totalPower ≤ power) :
    fm.tryFinalize Word.max = .error .addOverflow := by
  have hnext : Word.addStrict Word.max 1 = .error .addOverflow :=
    Word.addStrict_eq_error_iff.mpr ⟨rfl, (Word.size_le_succ_iff _).mpr rfl⟩
  unfold tryFinalize
  rw [if_neg (UInt64.not_le.mpr habove)]
  simp only [hget, hbest, if_neg (UInt64.not_lt.mpr hquorum), hnext]
  rfl

theorem tryFinalize_overflow_iff (h : UInt64) :
    fm.tryFinalize h = .error .addOverflow ↔ fm.finalizedHeight < h ∧ h = Word.max ∧
      ∃ hv block power, fm.heights.get? h = some hv ∧ hv.tally.best = some (block, power) ∧
        quorumThreshold hv.vset.totalPower ≤ power := by
  constructor
  · intro herr
    exact (tryFinalize_eq_error herr).2
  · rintro ⟨habove, rfl, hv, block, power, hget, hbest, hquorum⟩
    exact tryFinalize_overflow habove hget hbest hquorum

/-- Counting a vote stops the run only when it finalizes the largest height. -/
theorem countVote_eq_error {hv : HeightVotes} {v : Vote} {a : Abort}
    (herr : fm.countVote hv v = .error a) :
    fm.finalizedHeight < v.height ∧ v.height = Word.max := by
  unfold countVote at herr
  dsimp only at herr
  split at herr
  · cases herr
  · cases hfin : FinalityManager.tryFinalize
        { fm with heights := fm.heights.insert v.height (hv.record v) } v.height with
    | ok r =>
      rw [hfin] at herr
      cases herr
    | error e =>
      obtain ⟨-, hlt, hmax, -⟩ := tryFinalize_eq_error hfin
      exact ⟨hlt, hmax⟩

/-! ## The parking window -/

/-- Recording a vote stops the run only for a signed vote above the final height: parked at a
height without a snapshot while the window end leaves the range, or counted at the largest
height. -/
theorem recordVote_eq_error {v : Vote} {a : Abort} (herr : fm.recordVote v = .error a) :
    v.verify = .ok () ∧ fm.finalizedHeight < v.height ∧
      ((fm.heights.get? v.height = none ∧
          UInt64.size ≤ fm.finalizedHeight.toNat + maxParkAhead.toNat) ∨
        ((fm.heights.get? v.height).isSome ∧ v.height = Word.max)) := by
  unfold recordVote at herr
  cases hver : v.verify with
  | error e =>
    simp only [hver] at herr
    cases herr
  | ok u =>
    simp only [hver, Bool.false_eq_true, if_false] at herr
    refine ⟨rfl, ?_⟩
    split at herr
    · -- no snapshot: only the window end is a sum
      rename_i hnone
      split at herr
      · rename_i habove
        cases hend : Word.addStrict fm.finalizedHeight maxParkAhead with
        | error e => exact ⟨habove, .inl ⟨hnone, (Word.addStrict_eq_error_iff.mp hend).2⟩⟩
        | ok windowEnd =>
          rw [hend, Except.ok_bind] at herr
          split at herr <;> cases herr
      · cases herr
    · -- a snapshot: only counting the vote can stop the run
      rename_i hv hget
      have hsome : (fm.heights.get? v.height).isSome := by rw [hget]; rfl
      split at herr
      · cases herr
      split at herr
      · split at herr <;> cases herr
      split at herr
      · split at herr
        · cases herr
        · exact (countVote_eq_error herr).imp_right fun hmax => .inr ⟨hsome, hmax⟩
      · exact (countVote_eq_error herr).imp_right fun hmax => .inr ⟨hsome, hmax⟩

/-- At a height without a snapshot, a vote stops the run exactly when it is signed, above the
final height, and the window end leaves the range. -/
theorem recordVote_overflow_iff {v : Vote} (hnone : fm.heights.get? v.height = none) :
    fm.recordVote v = .error .addOverflow ↔
      v.verify = .ok () ∧ fm.finalizedHeight < v.height ∧
        UInt64.size ≤ fm.finalizedHeight.toNat + maxParkAhead.toNat := by
  constructor
  · intro herr
    obtain ⟨hver, habove, hcase⟩ := recordVote_eq_error herr
    rcases hcase with ⟨-, hsize⟩ | ⟨hsome, -⟩
    · exact ⟨hver, habove, hsize⟩
    · rw [hnone] at hsome
      cases hsome
  · rintro ⟨hver, habove, hsize⟩
    unfold recordVote
    simp only [hver, Bool.false_eq_true, if_false, hnone]
    rw [if_pos habove, Word.addStrict_eq_error_iff.mpr ⟨rfl, hsize⟩]
    rfl

/-! ## Registering a snapshot -/

/-- Recording a vote keeps every snapshot and never lowers the final height. -/
theorem recordVote_keeps_snapshot {v : Vote} {fm' : FinalityManager}
    {r : Except FinalityError Bool} (h : fm.recordVote v = .ok (fm', r)) {k : UInt64}
    (hk : (fm.heights.get? k).isSome) :
    (fm'.heights.get? k).isSome ∧ fm.finalizedHeight ≤ fm'.finalizedHeight := by
  have hinsert : ∀ hv', ((fm.heights.insert v.height hv').get? k).isSome := by
    intro hv'
    rw [KeyMap.get?_insert]
    split
    · rfl
    · exact hk
  rcases recordVote_cases h with ⟨rfl, _⟩ | ⟨_, _, _, _, rfl⟩ | ⟨_, _, _, _, _, _, _, rfl, _⟩ |
      ⟨hv, -, -, -, -, ⟨-, rfl⟩ | hcount⟩
  · exact ⟨hk, UInt64.le_refl _⟩
  · exact ⟨hk, UInt64.le_refl _⟩
  · exact ⟨hk, UInt64.le_refl _⟩
  · exact ⟨hinsert _, UInt64.le_refl _⟩
  · rcases countVote_eq_ok hcount with ⟨-, -, rfl⟩ | ⟨_habove, _done, _hr, hfin⟩
    · exact ⟨hinsert _, UInt64.le_refl _⟩
    · rcases tryFinalize_eq_ok hfin with ⟨-, rfl⟩ | ⟨-, hlt, -, -, -, -, -, -, -, rfl⟩
      · exact ⟨hinsert _, UInt64.le_refl _⟩
      · exact ⟨hinsert _, UInt64.le_of_lt hlt⟩

/-- A list of recorded votes that stops the run stops it at one of its votes, recorded from a
tracker that an invariant of every recorded vote still describes. -/
theorem recordAll_eq_error (P : FinalityManager → Prop)
    (hstep : ∀ {fm fm' : FinalityManager} {v : Vote} {r : Except FinalityError Bool}, P fm →
      fm.recordVote v = .ok (fm', r) → P fm') :
    ∀ (votes : List Vote) {fm : FinalityManager} {a : Abort}, P fm →
      fm.recordAll votes = .error a → ∃ s, P s ∧ ∃ v ∈ votes, s.recordVote v = .error a
  | [], _, _, _, h => by cases h
  | v :: rest, fm, a, hP, h => by
    rw [recordAll_cons] at h
    cases hrec : fm.recordVote v with
    | error e =>
      rw [hrec] at h
      cases h
      exact ⟨fm, hP, v, List.mem_cons_self, hrec⟩
    | ok p =>
      obtain ⟨fm', r⟩ := p
      rw [hrec] at h
      obtain ⟨s, hs, w, hw, hws⟩ := recordAll_eq_error P hstep rest (hstep hP hrec) h
      exact ⟨s, hs, w, List.mem_cons_of_mem _ hw, hws⟩

/-- Installing a snapshot puts a record at its height and keeps the final height. -/
theorem install_snapshot (fm : FinalityManager) (vset : ValidatorSet) :
    ((fm.install vset).heights.get? vset.height).isSome ∧
      (fm.install vset).finalizedHeight = fm.finalizedHeight := by
  unfold install
  split
  · rename_i hv hget
    split
    · exact ⟨by rw [hget]; rfl, rfl⟩
    · exact ⟨by simp, rfl⟩
  · exact ⟨by simp, rfl⟩

/-- Registering a snapshot whose parked votes are filed under its height stops the run only at
the largest height above the final one: the parked votes meet a snapshot, so only finalizing
the height adds to it. -/
theorem registerValidatorSet_eq_error {vset : ValidatorSet}
    (hparked : ∀ vs, fm.parked.get? vset.height = some vs →
      ∀ v ∈ vs, v.height = vset.height)
    {a : Abort} (herr : fm.registerValidatorSet vset = .error a) :
    fm.finalizedHeight < vset.height ∧ vset.height = Word.max := by
  let P : FinalityManager → Prop := fun s =>
    (s.heights.get? vset.height).isSome ∧ fm.finalizedHeight ≤ s.finalizedHeight
  have hkeep : ∀ {s s' : FinalityManager} {v : Vote} {r : Except FinalityError Bool}, P s →
      s.recordVote v = .ok (s', r) → P s' := by
    intro s s' v r hs hrec
    obtain ⟨hsnap, hle⟩ := recordVote_keeps_snapshot hrec hs.1
    exact ⟨hsnap, UInt64.le_trans hs.2 hle⟩
  have hstart : P (fm.install vset) := by
    obtain ⟨hsnap, hF⟩ := install_snapshot fm vset
    exact ⟨hsnap, by rw [hF]; exact UInt64.le_refl _⟩
  -- from such a tracker, only the largest height above the final one stops the run
  have hfinal : ∀ s, P s → s.tryFinalize vset.height = .error a →
      fm.finalizedHeight < vset.height ∧ vset.height = Word.max := by
    intro s hs h
    obtain ⟨-, hlt, hmax, -⟩ := tryFinalize_eq_error h
    exact ⟨UInt64.lt_of_le_of_lt hs.2 hlt, hmax⟩
  have hvote : ∀ s, P s → ∀ v, v.height = vset.height → s.recordVote v = .error a →
      fm.finalizedHeight < vset.height ∧ vset.height = Word.max := by
    intro s hs v hv h
    obtain ⟨-, hlt, hcase⟩ := recordVote_eq_error h
    rw [hv] at hlt hcase
    rcases hcase with ⟨hnone, -⟩ | ⟨-, hmax⟩
    · have hsnap := hs.1
      rw [hnone] at hsnap
      cases hsnap
    · exact ⟨UInt64.lt_of_le_of_lt hs.2 hlt, hmax⟩
  unfold registerValidatorSet at herr
  dsimp only at herr
  split at herr
  · rw [pure_bind] at herr
    exact hfinal _ hstart herr
  · rename_i votes hvotes
    rw [install_parked] at hvotes
    have hstart' :
        P { fm.install vset with parked := (fm.install vset).parked.erase vset.height } := hstart
    cases hrep : FinalityManager.replay
        { fm.install vset with parked := (fm.install vset).parked.erase vset.height } votes with
    | error e =>
      rw [hrep] at herr
      cases herr
      have hall : FinalityManager.recordAll
          { fm.install vset with parked := (fm.install vset).parked.erase vset.height } votes =
            .error a := by
        rw [← replay_fst, hrep]
        rfl
      obtain ⟨s, hs, v, hv, hvs⟩ := recordAll_eq_error P hkeep votes hstart' hall
      exact hvote s hs v (hparked votes hvotes v hv) hvs
    | ok p =>
      obtain ⟨s, fin⟩ := p
      rw [hrep, Except.ok_bind] at herr
      have hs : P s := recordAll_induction P hkeep (by rw [← replay_fst, hrep]; rfl) hstart'
      cases fin with
      | true => cases herr
      | false => exact hfinal s hs herr

/-! ## The tracker's overflows -/

/-- The tracker's two sums leave the word range exactly at the top of it.  Recording a vote
stops the run only for a signed vote above the final height `F`, parked while the window end
`F + 64` leaves the range, or counted at the largest height; at a height without a snapshot it
stops exactly in the first case.  Finalizing stops exactly at the largest height above `F`
whose best block has the quorum, where the split point leaves the range.  Registering a
snapshot, with the parked votes filed under their heights, stops only at the largest height
above `F`.  Below these heights both calls always return. -/
theorem tracker_overflows_only_at_top (fm : FinalityManager) (hacc : fm.Accounting) :
    (∀ v a, fm.recordVote v = .error a → fm.finalizedHeight < v.height ∧
      (UInt64.size ≤ fm.finalizedHeight.toNat + maxParkAhead.toNat ∨ v.height = Word.max)) ∧
    (∀ v, fm.heights.get? v.height = none →
      (fm.recordVote v = .error .addOverflow ↔ v.verify = .ok () ∧
        fm.finalizedHeight < v.height ∧
        UInt64.size ≤ fm.finalizedHeight.toNat + maxParkAhead.toNat)) ∧
    (∀ h, fm.tryFinalize h = .error .addOverflow ↔ fm.finalizedHeight < h ∧ h = Word.max ∧
      ∃ hv block power, fm.heights.get? h = some hv ∧ hv.tally.best = some (block, power) ∧
        quorumThreshold hv.vset.totalPower ≤ power) ∧
    (∀ vset a, fm.registerValidatorSet vset = .error a →
      fm.finalizedHeight < vset.height ∧ vset.height = Word.max) := by
  refine ⟨fun v a herr => ?_, fun v hnone => recordVote_overflow_iff hnone,
    tryFinalize_overflow_iff,
    fun vset a herr => registerValidatorSet_eq_error (hacc.parked _) herr⟩
  obtain ⟨-, habove, hcase⟩ := recordVote_eq_error herr
  exact ⟨habove, hcase.imp And.right And.right⟩

/-- A tracker restored final just below the largest height. -/
def restoredBelowMax : FinalityManager := init (Word.max - 1) Digest.zero

theorem tracker_overflows_only_at_top_below_max :
    restoredBelowMax.Accounting ∧
    (∀ v a, restoredBelowMax.recordVote v = .error a →
      restoredBelowMax.finalizedHeight < v.height ∧
        (UInt64.size ≤ restoredBelowMax.finalizedHeight.toNat + maxParkAhead.toNat ∨
          v.height = Word.max)) ∧
    (∀ v, restoredBelowMax.heights.get? v.height = none →
      (restoredBelowMax.recordVote v = .error .addOverflow ↔ v.verify = .ok () ∧
        restoredBelowMax.finalizedHeight < v.height ∧
        UInt64.size ≤ restoredBelowMax.finalizedHeight.toNat + maxParkAhead.toNat)) ∧
    (∀ h, restoredBelowMax.tryFinalize h = .error .addOverflow ↔
      restoredBelowMax.finalizedHeight < h ∧ h = Word.max ∧
        ∃ hv block power, restoredBelowMax.heights.get? h = some hv ∧
          hv.tally.best = some (block, power) ∧ quorumThreshold hv.vset.totalPower ≤ power) ∧
    (∀ vset a, restoredBelowMax.registerValidatorSet vset = .error a →
      restoredBelowMax.finalizedHeight < vset.height ∧ vset.height = Word.max) :=
  ⟨accounting_init _ _, tracker_overflows_only_at_top _ (accounting_init _ _)⟩

end FinalityManager

end StakeChain

import StakeChain.Proofs.Consensus.Accounting

/-!
# Parked votes

A vote for a height above the final one that has no snapshot yet is parked, and registering the
snapshot replays the parked votes in order.  Parking keeps one copy of each vote, so a vote
given twice before the snapshot is replayed once; given twice after it, the second copy is
recorded again, and when the voter switched blocks in between, it is reported again.

The main result, `parked_votes_replay_transparently`: votes for a height in the parking window,
recorded before its snapshot is registered, leave the tracker where registering first and then
recording the votes that repeat neither an earlier one nor a parked one leaves it.

* `recordAll_parks`: before the snapshot, recording votes for the height only extends its slot
  by the new validly signed votes;
* `registerValidatorSet_fst`: registering a fresh snapshot installs it and records the parked
  votes.  The last attempt to finalize adds nothing, because every vote counted at the height
  was followed by one (`Settled`);
* `recordAll_filter_verifies`: votes that fail their signature check change nothing.
-/

set_option autoImplicit false

namespace StakeChain

/-- Whether the signature of a vote checks. -/
def Vote.verifies (v : Vote) : Bool := v.verify.toBool

theorem Vote.verifies_of_ok {v : Vote} (h : v.verify = .ok ()) : v.verifies = true := by
  simp [Vote.verifies, h, Except.toBool]

theorem Vote.verifies_of_error {v : Vote} {e : CryptoError} (h : v.verify = .error e) :
    v.verifies = false := by
  simp [Vote.verifies, h, Except.toBool]

/-- The votes of a list that repeat neither a vote of `seen` nor an earlier vote of the list, in
order: what parking adds to a slot that holds `seen`, room allowing. -/
def newVotes (seen : List Vote) : List Vote → List Vote
  | [] => []
  | v :: rest => if v ∈ seen then newVotes seen rest else v :: newVotes (seen ++ [v]) rest

theorem length_newVotes_le (seen votes : List Vote) :
    (newVotes seen votes).length ≤ votes.length := by
  induction votes generalizing seen with
  | nil => simp [newVotes]
  | cons v rest ih =>
    by_cases hv : v ∈ seen
    · simpa [newVotes, hv] using Nat.le_succ_of_le (ih seen)
    · simpa [newVotes, hv] using ih (seen ++ [v])

/-- Only which votes of the list were seen matters. -/
theorem newVotes_congr : ∀ (votes : List Vote) {seen seen' : List Vote},
    (∀ w ∈ votes, w ∈ seen ↔ w ∈ seen') → newVotes seen votes = newVotes seen' votes
  | [], _, _, _ => rfl
  | v :: rest, seen, seen', hseen => by
    have hrest : ∀ w ∈ rest, w ∈ seen ↔ w ∈ seen' := fun w hw => hseen w (List.mem_cons_of_mem _ hw)
    by_cases hv : v ∈ seen
    · simp only [newVotes, hv, if_true, (hseen v List.mem_cons_self).mp hv]
      exact newVotes_congr rest hrest
    · have hv' : v ∉ seen' := fun h => hv ((hseen v List.mem_cons_self).mpr h)
      simp only [newVotes, hv, hv', if_false, List.cons.injEq, true_and]
      refine newVotes_congr rest fun w hw => ?_
      simp only [List.mem_append, List.mem_singleton, hrest w hw]

/-- The new votes that verify are the new votes among those that verify: a vote that fails its
check equals none that passes, so seeing it changes nothing for them. -/
theorem newVotes_filter_verifies : ∀ (seen votes : List Vote),
    (newVotes seen votes).filter Vote.verifies = newVotes seen (votes.filter Vote.verifies)
  | _, [] => rfl
  | seen, v :: rest => by
    by_cases hv : v ∈ seen
    · cases hver : v.verifies <;>
        simp [newVotes, hv, hver, newVotes_filter_verifies seen rest]
    · cases hver : v.verifies with
      | true =>
        simp [newVotes, hv, hver, newVotes_filter_verifies (seen ++ [v]) rest]
      | false =>
        -- the failed vote is seen from now on, but no vote that passes equals it
        have hsame : newVotes (seen ++ [v]) (rest.filter Vote.verifies) =
            newVotes seen (rest.filter Vote.verifies) := by
          refine newVotes_congr _ fun w hw => ?_
          have hw' : w ≠ v := by
            rintro rfl
            simp [hver] at hw
          simp [hw']
        simp [newVotes, hv, hver, newVotes_filter_verifies (seen ++ [v]) rest,
          hsame]

namespace FinalityManager

/-- Records votes in order and keeps the tracker; the answers are dropped. -/
def recordAll (fm : FinalityManager) (votes : List Vote) : Except Abort FinalityManager :=
  votes.foldlM (fun fm v => Prod.fst <$> fm.recordVote v) fm

theorem recordAll_cons (fm : FinalityManager) (v : Vote) (votes : List Vote) :
    fm.recordAll (v :: votes) = (Prod.fst <$> fm.recordVote v) >>= fun fm' => fm'.recordAll votes :=
  rfl

theorem recordAll_append (fm : FinalityManager) (votes votes' : List Vote) :
    fm.recordAll (votes ++ votes') = fm.recordAll votes >>= fun fm' => fm'.recordAll votes' :=
  List.foldlM_append

/-- A property that every recorded vote keeps holds after a list of votes is recorded. -/
theorem recordAll_induction (P : FinalityManager → Prop)
    (hstep : ∀ {fm fm' : FinalityManager} {v : Vote} {r : Except FinalityError Bool}, P fm →
      fm.recordVote v = .ok (fm', r) → P fm')
    {fm fm' : FinalityManager} {votes : List Vote} (hrun : fm.recordAll votes = .ok fm')
    (hP : P fm) : P fm' :=
  Except.foldlM_induction P _
    (fun _ v _ hP₁ hrec => by
      obtain ⟨⟨fm₂, r⟩, hrec₂, rfl⟩ := Except.map_eq_ok hrec
      exact hstep hP₁ hrec₂)
    votes fm fm' hP hrun

/-! ## Votes that fail their signature check -/

theorem recordVote_of_verify_error {fm : FinalityManager} {v : Vote} {e : CryptoError}
    (h : v.verify = .error e) : fm.recordVote v = .ok (fm, .error .badSignature) := by
  unfold recordVote
  rw [h]
  rfl

theorem recordAll_filter_verifies (fm : FinalityManager) (votes : List Vote) :
    fm.recordAll (votes.filter Vote.verifies) = fm.recordAll votes := by
  induction votes generalizing fm with
  | nil => rfl
  | cons v rest ih =>
    cases hver : v.verify with
    | error e =>
      rw [List.filter_cons_of_neg (by simp [Vote.verifies_of_error hver]), ih, recordAll_cons,
        recordVote_of_verify_error hver]
      rfl
    | ok u =>
      rw [List.filter_cons_of_pos (Vote.verifies_of_ok hver), recordAll_cons, recordAll_cons]
      cases fm.recordVote v with
      | error e => rfl
      | ok r => exact ih r.1

/-! ## Parking -/

/-- Votes for `h` are parked: `h` has no snapshot and lies above the final height, within the
parking window, whose end is a word. -/
structure Parks (fm : FinalityManager) (h : UInt64) : Prop where
  fresh : fm.heights.get? h = none
  above : fm.finalizedHeight < h
  window : h.toNat ≤ fm.finalizedHeight.toNat + maxParkAhead.toNat
  room : fm.finalizedHeight.toNat + maxParkAhead.toNat < UInt64.size

/-- Parking reads neither the slots nor the evidence. -/
theorem Parks.withParked {fm : FinalityManager} {h : UInt64} (hp : fm.Parks h)
    (parked : KeyMap UInt64 (List Vote)) :
    ({ fm with parked := parked } : FinalityManager).Parks h :=
  ⟨hp.fresh, hp.above, hp.window, hp.room⟩

/-- A validly signed vote for a height that parks joins the slot of its height, unless the slot
holds it already. -/
theorem recordVote_parks {fm : FinalityManager} {v : Vote} (hver : v.verify = .ok ())
    (hp : fm.Parks v.height)
    (hspace : v ∉ fm.parked.getD v.height [] →
      (fm.parked.getD v.height []).length < maxParkedPerHeight) :
    fm.recordVote v = .ok ({ fm with
      parked := fm.parked.insert v.height (if v ∈ fm.parked.getD v.height [] then
        fm.parked.getD v.height [] else fm.parked.getD v.height [] ++ [v]) }, .ok false) := by
  have hend : v.height ≤ fm.finalizedHeight + maxParkAhead := by
    rw [UInt64.le_iff_toNat_le, Word.add_toNat_of_lt hp.room]
    exact hp.window
  unfold recordVote
  rw [hver]
  dsimp only
  rw [hp.fresh]
  dsimp only
  rw [if_pos hp.above, Word.addStrict_of_lt hp.room, Except.ok_bind, if_pos hend]
  by_cases hmem : v ∈ fm.parked.getD v.height []
  · simp [hmem]
    rfl
  · simp [hmem, hspace hmem]
    rfl

/-- Before the snapshot of a height that parks, recording votes for it changes the tracker only
in the slot of that height, which gains the validly signed votes it did not hold. -/
theorem recordAll_parks {h : UInt64} : ∀ (votes : List Vote) (fm : FinalityManager), fm.Parks h →
    (∀ v ∈ votes, v.height = h) →
    (fm.parked.getD h []).length +
      (newVotes (fm.parked.getD h []) (votes.filter Vote.verifies)).length ≤ maxParkedPerHeight →
    ∃ parked, fm.recordAll votes = .ok { fm with parked := parked } ∧
      parked.erase h = fm.parked.erase h ∧
      parked.getD h [] =
        fm.parked.getD h [] ++ newVotes (fm.parked.getD h []) (votes.filter Vote.verifies)
  | [], fm, _, _, _ => ⟨fm.parked, rfl, rfl, by simp [newVotes]⟩
  | v :: rest, fm, hp, hheight, hcap => by
    have hv : v.height = h := hheight v List.mem_cons_self
    have hrest : ∀ w ∈ rest, w.height = h := fun w hw => hheight w (List.mem_cons_of_mem _ hw)
    cases hver : v.verify with
    | error e =>
      rw [List.filter_cons_of_neg (by simp [Vote.verifies_of_error hver])] at hcap ⊢
      obtain ⟨parked, hrun, herase, hget⟩ := recordAll_parks rest fm hp hrest hcap
      refine ⟨parked, ?_, herase, hget⟩
      rw [recordAll_cons, recordVote_of_verify_error hver]
      exact hrun
    | ok u =>
      rw [List.filter_cons_of_pos (Vote.verifies_of_ok hver)] at hcap ⊢
      subst hv
      have hrec := recordVote_parks hver hp fun hmem => by
        simp only [newVotes, hmem, if_false, List.length_cons] at hcap
        omega
      generalize hslot₁ : (if v ∈ fm.parked.getD v.height [] then fm.parked.getD v.height []
        else fm.parked.getD v.height [] ++ [v]) = slot₁ at hrec
      have hslot : ({ fm with parked := fm.parked.insert v.height slot₁ } :
          FinalityManager).parked.getD v.height [] = slot₁ := by
        simp [KeyMap.getD_eq]
      obtain ⟨parked, hrun, herase, hget⟩ :=
        recordAll_parks rest _ (hp.withParked (fm.parked.insert v.height slot₁)) hrest (by
          rw [hslot, ← hslot₁]
          by_cases hmem : v ∈ fm.parked.getD v.height []
          · simpa [newVotes, hmem] using hcap
          · simp only [newVotes, hmem, if_false, List.length_cons] at hcap
            simp only [hmem, if_false, List.length_append, List.length_singleton]
            omega)
      refine ⟨parked, ?_, ?_, ?_⟩
      · rw [recordAll_cons, hrec]
        exact hrun
      · rw [herase]
        exact KeyMap.erase_insert_self _ _ _
      · rw [hget, hslot, ← hslot₁]
        by_cases hmem : v ∈ fm.parked.getD v.height [] <;> simp [newVotes, hmem]

/-! ## Heights that a finalization attempt leaves alone -/

/-- Trying to finalize `h` does nothing: `h` is final already, or its best block is short of the
quorum of its snapshot. -/
def Settled (fm : FinalityManager) (h : UInt64) : Prop :=
  h ≤ fm.finalizedHeight ∨ ∀ hv, fm.heights.get? h = some hv →
    ∀ block power, hv.tally.best = some (block, power) → power < quorumThreshold hv.vset.totalPower

theorem Settled.tryFinalize {fm : FinalityManager} {h : UInt64} (hs : fm.Settled h) :
    fm.tryFinalize h = .ok (fm, false) := by
  unfold FinalityManager.tryFinalize
  split
  · rfl
  rename_i habove
  split
  · rfl
  rename_i hv hget
  dsimp only
  split
  · rfl
  rename_i block power hbest
  rcases hs with hle | hshort
  · exact absurd hle habove
  · rw [if_pos (hshort hv hget block power hbest)]

theorem settled_of_tryFinalize {fm fm' : FinalityManager} {h : UInt64}
    (hfin : fm.tryFinalize h = .ok (fm', false)) : fm.Settled h := by
  by_cases hle : h ≤ fm.finalizedHeight
  · exact .inl hle
  refine .inr fun hv hget block power hbest => ?_
  unfold FinalityManager.tryFinalize at hfin
  rw [if_neg hle, hget] at hfin
  dsimp only at hfin
  rw [hbest] at hfin
  dsimp only at hfin
  by_contra hq
  rw [if_neg hq] at hfin
  obtain ⟨next, -, hfin⟩ := Except.bind_eq_ok hfin
  simp [pure, Except.pure] at hfin

/-- A height stays settled while the final height does not fall and its tally and snapshot stay. -/
theorem Settled.mono {fm fm' : FinalityManager} {h : UInt64} (hs : fm.Settled h)
    (hF : fm.finalizedHeight ≤ fm'.finalizedHeight)
    (hget : ∀ hv', fm'.heights.get? h = some hv' →
      ∃ hv, fm.heights.get? h = some hv ∧ hv'.tally = hv.tally ∧ hv'.vset = hv.vset) :
    fm'.Settled h := by
  rcases hs with hle | hshort
  · exact .inl (UInt64.le_trans hle hF)
  · refine .inr fun hv' hget' block power hbest => ?_
    obtain ⟨hv, hget₀, htally, hvset⟩ := hget hv' hget'
    rw [hvset]
    exact hshort hv hget₀ block power (htally ▸ hbest)

theorem Settled.of_insert_ne {fm fm' : FinalityManager} {h k : UInt64} (hs : fm.Settled h)
    (hk : k ≠ h) (hF : fm.finalizedHeight ≤ fm'.finalizedHeight) {hv : HeightVotes}
    (hheights : fm'.heights = fm.heights.insert k hv) : fm'.Settled h :=
  hs.mono hF fun hv' hget' =>
    ⟨hv', by rwa [hheights, KeyMap.get?_insert_of_ne _ _ (Ne.symm hk)] at hget', rfl, rfl⟩

/-- Recording any vote keeps a height settled: a vote counted at the height is followed by an
attempt to finalize it, and a vote at another height can only raise the final height. -/
theorem Settled.recordVote {fm fm' : FinalityManager} {h : UInt64} (hs : fm.Settled h)
    {v : Vote} {r : Except FinalityError Bool} (hrec : fm.recordVote v = .ok (fm', r)) :
    fm'.Settled h := by
  rcases recordVote_cases hrec with ⟨rfl, -⟩ | ⟨-, -, slot, -, rfl⟩ |
    ⟨_, _, -, -, -, -, -, rfl, -⟩ | ⟨hv, hget, -, -, -, ⟨-, rfl⟩ | hcount⟩
  · exact hs
  · exact hs
  · exact hs
  · by_cases hh : v.height = h
    · refine hs.mono (UInt64.le_refl _) fun hv' hget' => ?_
      rw [hh, KeyMap.get?_insert_self] at hget'
      cases hget'
      exact ⟨hv, hh ▸ hget, rfl, rfl⟩
    · exact hs.of_insert_ne hh (UInt64.le_refl _) rfl
  · rcases countVote_eq_ok hcount with ⟨hle, -, rfl⟩ | ⟨habove, done, -, hfin⟩
    · by_cases hh : v.height = h
      · exact .inl (hh ▸ hle)
      · exact hs.of_insert_ne hh (UInt64.le_refl _) rfl
    · rcases tryFinalize_eq_ok hfin with ⟨rfl, rfl⟩ |
        ⟨-, -, hv₂, block, power, next, -, -, -, rfl⟩
      · by_cases hh : v.height = h
        · subst hh
          exact settled_of_tryFinalize hfin
        · exact hs.of_insert_ne hh (UInt64.le_refl _) rfl
      · by_cases hh : v.height = h
        · exact .inl (hh ▸ UInt64.le_refl _)
        · exact hs.of_insert_ne hh (UInt64.le_of_lt habove) rfl

theorem Settled.recordAll {fm fm' : FinalityManager} {h : UInt64} (hs : fm.Settled h)
    {votes : List Vote} (hrun : fm.recordAll votes = .ok fm') : fm'.Settled h :=
  recordAll_induction (fun fm => fm.Settled h) (fun hs₁ hrec => hs₁.recordVote hrec) hrun hs

/-! ## Registering a snapshot -/

/-- A fold that carries a flag beside its state computes, on the state, the fold without it. -/
theorem foldlM_map_fst {ε σ β : Type} (g : σ × Bool → β → Except ε (σ × Bool))
    (f : σ → β → Except ε σ) (hg : ∀ acc b, Prod.fst <$> g acc b = f acc.1 b) :
    ∀ (xs : List β) (acc : σ × Bool), Prod.fst <$> xs.foldlM g acc = xs.foldlM f acc.1
  | [], _ => rfl
  | b :: rest, acc => by
    rw [List.foldlM_cons, List.foldlM_cons, ← hg acc b]
    cases g acc b with
    | error e => rfl
    | ok acc' => exact foldlM_map_fst g f hg rest acc'

theorem replay_fst (fm : FinalityManager) (votes : List Vote) :
    Prod.fst <$> fm.replay votes = fm.recordAll votes := by
  unfold replay recordAll
  refine foldlM_map_fst _ _ (fun acc v => ?_) votes (fm, false)
  cases acc.1.recordVote v with
  | error e => rfl
  | ok r => rfl

theorem install_withParked (fm : FinalityManager) (parked : KeyMap UInt64 (List Vote))
    (vset : ValidatorSet) :
    ({ fm with parked := parked } : FinalityManager).install vset =
      { fm.install vset with parked := parked } := by
  unfold FinalityManager.install
  dsimp only
  split
  · split <;> rfl
  · rfl

/-- Registering a snapshot for a height without one installs it and records the votes parked for
the height, in order, with the slot emptied. -/
theorem registerValidatorSet_fst {fm : FinalityManager} {vset : ValidatorSet}
    (hfresh : fm.heights.get? vset.height = none) :
    Prod.fst <$> fm.registerValidatorSet vset =
      ({ fm.install vset with parked := fm.parked.erase vset.height } : FinalityManager).recordAll
        (fm.parked.getD vset.height []) := by
  -- the new height starts with no tally, so it is settled, and every recorded vote keeps it so
  have hstart : ({ fm.install vset with parked := fm.parked.erase vset.height } :
      FinalityManager).Settled vset.height := by
    refine .inr fun hv hget block power hbest => ?_
    unfold FinalityManager.install at hget
    rw [hfresh] at hget
    dsimp only at hget
    rw [KeyMap.get?_insert_self] at hget
    cases hget
    cases hbest
  have hlast : ∀ x : Except Abort (FinalityManager × Bool),
      (∀ r, x = .ok r → r.1.Settled vset.height) →
      (x >>= fun r => Prod.fst <$>
        (if r.2 = true then pure (r.1, true) else r.1.tryFinalize vset.height)) =
        Prod.fst <$> x := by
    intro x hx
    cases x with
    | error e => rfl
    | ok r =>
      have hs := hx r rfl
      obtain ⟨fm₁, fin⟩ := r
      cases fin with
      | true => rfl
      | false =>
        rw [Except.ok_bind, if_neg Bool.false_ne_true, hs.tryFinalize]
  unfold registerValidatorSet
  dsimp only
  rw [install_parked]
  split
  · rename_i hp
    rw [map_bind, hlast _ ?settled, KeyMap.getD_eq, hp, Option.getD_none,
      KeyMap.erase_of_get?_none hp, ← install_parked fm vset]
    · rfl
    · intro r hr
      simp only [pure, Except.pure, Except.ok.injEq] at hr
      subst hr
      exact hstart
  · rename_i votes hp
    rw [map_bind, KeyMap.getD_eq, hp, Option.getD_some, ← replay_fst]
    exact hlast _ fun r hr => hstart.recordAll (by rw [← replay_fst, hr]; rfl)

/-! ## Parking then registering -/

/-- Votes recorded for a height in the parking window before its snapshot is registered leave
the tracker where registering first and then recording them leaves it, once the votes that
repeat an earlier or an already parked one are dropped: parking keeps one copy of each vote. -/
theorem parked_votes_replay_transparently (fm : FinalityManager) (vset : ValidatorSet)
    (votes : List Vote) (habove : fm.finalizedHeight < vset.height)
    (hwindow : vset.height.toNat ≤ fm.finalizedHeight.toNat + maxParkAhead.toNat)
    (hroom : fm.finalizedHeight.toNat + maxParkAhead.toNat < UInt64.size)
    (hfresh : fm.heights.get? vset.height = none) (hheight : ∀ v ∈ votes, v.height = vset.height)
    (hcap : (fm.parked.getD vset.height []).length +
      (newVotes (fm.parked.getD vset.height []) votes).length ≤ maxParkedPerHeight) :
    (fm.recordAll votes >>= fun fm' => Prod.fst <$> fm'.registerValidatorSet vset) =
      (fm.registerValidatorSet vset >>= fun r =>
        r.1.recordAll (newVotes (fm.parked.getD vset.height []) votes)) := by
  -- parking extends the slot by the new votes that verify, and nothing else
  have hcap' : (fm.parked.getD vset.height []).length + (newVotes (fm.parked.getD vset.height [])
      (votes.filter Vote.verifies)).length ≤ maxParkedPerHeight := by
    rw [← newVotes_filter_verifies]
    exact Nat.le_trans (Nat.add_le_add_left (List.length_filter_le _ _) _) hcap
  obtain ⟨parked, hrun, herase, hget⟩ :=
    recordAll_parks votes fm ⟨hfresh, habove, hwindow, hroom⟩ hheight hcap'
  -- so both orders install the snapshot over the same tracker and record the old slot first
  have hA :
      Prod.fst <$> ({ fm with parked := parked } : FinalityManager).registerValidatorSet vset =
      ({ fm.install vset with parked := fm.parked.erase vset.height } : FinalityManager).recordAll
        (fm.parked.getD vset.height [] ++
          newVotes (fm.parked.getD vset.height []) (votes.filter Vote.verifies)) := by
    rw [@registerValidatorSet_fst { fm with parked := parked } vset hfresh, install_withParked,
      herase, hget]
  have hB : (fm.registerValidatorSet vset >>= fun r =>
      r.1.recordAll (newVotes (fm.parked.getD vset.height []) votes)) =
      (Prod.fst <$> fm.registerValidatorSet vset) >>= fun fm' =>
        fm'.recordAll (newVotes (fm.parked.getD vset.height []) votes) :=
    (bind_map_left Prod.fst (fm.registerValidatorSet vset) fun fm' =>
      fm'.recordAll (newVotes (fm.parked.getD vset.height []) votes)).symm
  rw [hrun, Except.ok_bind, hA, hB, registerValidatorSet_fst hfresh, recordAll_append]
  congr 1
  funext fm'
  rw [← newVotes_filter_verifies, recordAll_filter_verifies]

/-- The vote of the validator of `oneValidatorSet` at a height, for the block whose hash is the
digest of `block`. -/
def oneVote (height : UInt64) (block : String) : Vote :=
  Vote.signWith (Keypair.ofLabel "validator-0") height (Digest.ofText block)

/-- Parking is not transparent as such.  A validator that votes for one block and then twice for
another before the snapshot of height 1: parked, the repeated vote is kept once and the
equivocation reported once, while recorded after the snapshot each copy is reported.  And a
vote whose parking window ends past the largest word stops the run, while recorded after the
snapshot it finalizes its height. -/
theorem parking_differs_from_recording_after :
    ((init 0 Digest.zero).recordAll [oneVote 1 "x", oneVote 1 "y", oneVote 1 "y"] >>= fun fm =>
        Prod.fst <$> fm.registerValidatorSet oneValidatorSet).map (fun fm => fm.evidence.length) =
      .ok 1 ∧
    ((init 0 Digest.zero).registerValidatorSet oneValidatorSet >>= fun r =>
        r.1.recordAll [oneVote 1 "x", oneVote 1 "y", oneVote 1 "y"]).map
      (fun fm => fm.evidence.length) = .ok 2 ∧
    ((init 18446744073709551605 Digest.zero).recordAll [oneVote 18446744073709551610 "x"] >>=
        fun fm => Prod.fst <$> fm.registerValidatorSet
          ⟨18446744073709551610, oneValidatorSet.vals⟩).toBool = false ∧
    ((init 18446744073709551605 Digest.zero).registerValidatorSet
        ⟨18446744073709551610, oneValidatorSet.vals⟩ >>= fun r =>
          r.1.recordAll [oneVote 18446744073709551610 "x"]).map
      (fun fm => fm.finalizedHeight) = .ok 18446744073709551610 := by
  decide +kernel

/-- The repeated vote of `parking_differs_from_recording_after`, parked at height 1, meets the
conditions of `parked_votes_replay_transparently`. -/
theorem parked_votes_replay_on_repeated_vote :
    (init 0 Digest.zero).finalizedHeight < oneValidatorSet.height ∧
    oneValidatorSet.height.toNat ≤
      (init 0 Digest.zero).finalizedHeight.toNat + maxParkAhead.toNat ∧
    (init 0 Digest.zero).finalizedHeight.toNat + maxParkAhead.toNat < UInt64.size ∧
    (init 0 Digest.zero).heights.get? oneValidatorSet.height = none ∧
    (∀ v ∈ [oneVote 1 "x", oneVote 1 "y", oneVote 1 "y"], v.height = oneValidatorSet.height) ∧
    ((init 0 Digest.zero).parked.getD oneValidatorSet.height []).length +
      (newVotes ((init 0 Digest.zero).parked.getD oneValidatorSet.height [])
        [oneVote 1 "x", oneVote 1 "y", oneVote 1 "y"]).length ≤ maxParkedPerHeight ∧
    ((init 0 Digest.zero).recordAll [oneVote 1 "x", oneVote 1 "y", oneVote 1 "y"] >>= fun fm =>
        Prod.fst <$> fm.registerValidatorSet oneValidatorSet) =
      ((init 0 Digest.zero).registerValidatorSet oneValidatorSet >>= fun r =>
        r.1.recordAll (newVotes ((init 0 Digest.zero).parked.getD oneValidatorSet.height [])
          [oneVote 1 "x", oneVote 1 "y", oneVote 1 "y"])) := by
  have hheight : ∀ v ∈ [oneVote 1 "x", oneVote 1 "y", oneVote 1 "y"],
      v.height = oneValidatorSet.height := by
    decide
  have hcap : ((init 0 Digest.zero).parked.getD oneValidatorSet.height []).length +
      (newVotes ((init 0 Digest.zero).parked.getD oneValidatorSet.height [])
        [oneVote 1 "x", oneVote 1 "y", oneVote 1 "y"]).length ≤ maxParkedPerHeight :=
    Nat.le_trans (Nat.add_le_add_left (length_newVotes_le _ _) _) (by decide)
  exact ⟨by decide, by decide, by decide, rfl, hheight, hcap,
    parked_votes_replay_transparently _ _ _ (by decide) (by decide) (by decide) rfl hheight hcap⟩

end FinalityManager

end StakeChain

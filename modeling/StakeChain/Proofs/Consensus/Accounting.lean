import StakeChain.Proofs.Consensus.Certificate
import StakeChain.Proofs.Consensus.Finality
import StakeChain.Proofs.KeyMap

/-!
# Vote accounting of the finality tracker

The tracker keeps, per height with a snapshot, the votes by voter and a tally of power per
block.  The tally is a cache: it is moved by counting a new vote, rebuilt when the snapshot is
replaced, and never read back from the votes.  This module proves that it always agrees with
them.

`HeightVotes.Sound` is what one height's record keeps: the votes are keyed by their voter,
are for that height, verify and come from members of the snapshot, and each block's tally is
the saturating sum of its voters' powers.  `FinalityManager.Accounting` asks it of every
height, and that parked votes are filed under their own height.  Each operation of the tracker
keeps `Accounting` (`Sound.record`, `Sound.retally`, `Accounting.recordVote`, ...), so it holds
along every run.

On top of the accounting, a height finalizes only with a certificate that verifies against the
height's snapshot (`tryFinalize_certified`): its votes are the stored votes for the best block,
and their voters' power is the tally.  How an input moves finality is `Finalizes`: without a
finalization the final height, hash and certificates stay; with one the final height rises, and
the only certificate that changed is the new final height's.

## Results

* `Sound.record`, `Sound.retally`: counting a vote and recounting against a new snapshot keep a
  height's record sound;
* `recordVote_cases`: the five things recording a vote can do, which every later proof about a
  recorded vote splits on;
* `tryFinalize_certified`, `recordVote_spec`, `registerValidatorSet_spec`, `apply_spec`: what
  each input does to the accounting and to finality;
* `finality_vote_accounting`: along every run from a tracker started at a final height, every
  stored vote is in order and every tally is the sum of its voters' powers; every input that
  finalizes raises the final height and leaves a certificate that verifies against the
  snapshot of that height, and no input lowers the final height.
-/

set_option autoImplicit false

namespace StakeChain

/-! ## Tallies -/

namespace Tally

@[simp] theorem powerFor_empty (b : Digest) : ({} : Tally).powerFor b = 0 := rfl

theorem powerFor_addVote (t : Tally) (vset : ValidatorSet) (a : Address) (b' b : Digest) :
    (t.addVote vset a b').1.powerFor b =
      if b = b' then Word.addSat (t.powerFor b') (vset.powerOf a) else t.powerFor b := by
  unfold addVote powerFor KeyMap.getD
  rw [KeyMap.get?_insert]
  by_cases hb : b = b'
  · subst hb
    simp
  · simp [hb]

/-- Votes counted one after another: each block's power is what it had plus the powers of the
voters for it, saturating. -/
theorem powerFor_foldl_addVote (vset : ValidatorSet) (b : Digest) :
    ∀ (l : List (Address × Vote)) (t : Tally),
      ((l.foldl (fun t (a, v) => (t.addVote vset a v.blockHash).1) t).powerFor b).toNat =
        min ((t.powerFor b).toNat +
          (l.map fun e => if e.2.blockHash = b then (vset.powerOf e.1).toNat else 0).sum)
          (UInt64.size - 1)
  | [], t => by
    have := (t.powerFor b).toNat_lt_size
    simp only [List.foldl_nil, List.map_nil, List.sum_nil, Nat.add_zero]
    omega
  | (a, v) :: rest, t => by
    rw [List.foldl_cons, powerFor_foldl_addVote vset b rest, powerFor_addVote]
    by_cases hb : b = v.blockHash
    · subst hb
      simp only [if_true, Word.addSat_toNat, List.map_cons, List.sum_cons]
      omega
    · simp [hb, Ne.symm hb]

/-- A fold whose step returns the element it is given or keeps its accumulator ends on an
element of the list or on its start. -/
theorem foldl_eq_some_mem {α : Type} {f : Option α → α → Option α}
    (hf : ∀ acc x b, f acc x = some b → b = x ∨ acc = some b) :
    ∀ (l : List α) (acc : Option α) {e : α}, l.foldl f acc = some e → e ∈ l ∨ acc = some e
  | [], _, _, h => .inr h
  | x :: xs, acc, e, h => by
    rcases foldl_eq_some_mem hf xs (f acc x) h with hmem | hstep
    · exact .inl (List.mem_cons_of_mem _ hmem)
    · rcases hf acc x e hstep with rfl | hacc
      · exact .inl List.mem_cons_self
      · exact .inr hacc

/-- The best entry of a tally is one of its entries. -/
theorem best_mem {t : Tally} {e : Digest × UInt64} (h : t.best = some e) : e ∈ t.perBlock.toList := by
  unfold best at h
  refine (foldl_eq_some_mem ?_ _ none h).resolve_right (by simp)
  intro acc x b hb
  cases acc with
  | none => exact .inl (Option.some.inj hb).symm
  | some c =>
    dsimp only at hb
    split at hb
    · exact .inl (Option.some.inj hb).symm
    · exact .inr hb

/-- The best entry's power is that block's power: a tally has one entry per block. -/
theorem powerFor_of_best {t : Tally} {b : Digest} {p : UInt64}
    (h : t.best = some (b, p)) : t.powerFor b = p := by
  unfold powerFor KeyMap.getD
  rw [KeyMap.get?_of_mem (best_mem h)]
  rfl

end Tally

/-! ## One height's record -/

namespace HeightVotes

/-- The exact power of the voters whose stored vote is for `b`. -/
def powerBehind (hv : HeightVotes) (b : Digest) : Nat :=
  ((hv.byVoter.values.filter fun v => v.blockHash = b).map fun v => (hv.vset.powerOf v.voter).toNat).sum

theorem powerBehind_eq (hv : HeightVotes) (b : Digest) :
    hv.powerBehind b =
      (hv.byVoter.values.map fun v => if v.blockHash = b then (hv.vset.powerOf v.voter).toNat else 0).sum := by
  rw [powerBehind, List.sum_map_ite]
  simp

/-- What the tracker keeps about the votes of height `h`. -/
structure Sound (hv : HeightVotes) (h : UInt64) : Prop where
  /-- Each vote is stored under its voter, is for the height, verifies and comes from a member
  of the snapshot. -/
  votes : ∀ e ∈ hv.byVoter.toList,
    e.2.voter = e.1 ∧ e.2.height = h ∧ e.2.verify = .ok () ∧ hv.vset.contains e.1 = true
  /-- Each block's tally is its voters' power, saturating. -/
  tally : ∀ b, (hv.tally.powerFor b).toNat = min (hv.powerBehind b) (UInt64.size - 1)

theorem Sound.empty (vset : ValidatorSet) (h : UInt64) : ({ vset := vset } : HeightVotes).Sound h where
  votes := by simp [KeyMap.empty]
  tally := fun b => by
    simp [powerBehind, KeyMap.values, KeyMap.empty, Tally.powerFor, KeyMap.getD, KeyMap.get?]

theorem Sound.withConflicting {hv : HeightVotes} {h : UInt64} (hs : hv.Sound h)
    (conflicting : KeyMap Address Vote) : ({ hv with conflicting := conflicting }).Sound h :=
  ⟨hs.votes, hs.tally⟩

/-- The voters of the stored votes are distinct. -/
theorem Sound.voters_nodup {hv : HeightVotes} {h : UInt64} (hs : hv.Sound h) :
    (hv.byVoter.values.map Vote.voter).Nodup := by
  have hkeys : hv.byVoter.values.map Vote.voter = hv.byVoter.keys := by
    rw [KeyMap.values, KeyMap.keys, List.map_map]
    exact List.map_congr_left fun e he => (hs.votes e he).1
  rw [hkeys]
  exact hv.byVoter.keys_nodup

/-- Counting a new member's vote keeps the record sound: the tally of its block grows by its
power, saturating, and no other tally moves. -/
theorem Sound.record {hv : HeightVotes} {h : UInt64} (hs : hv.Sound h) {v : Vote}
    (hh : v.height = h) (hver : v.verify = .ok ()) (hmem : hv.vset.contains v.voter = true)
    (hnew : hv.byVoter.get? v.voter = none) : (hv.record v).Sound h where
  votes := by
    intro e he
    rcases KeyMap.mem_insertEntry he with rfl | he
    · exact ⟨rfl, hh, hver, hmem⟩
    · exact hs.votes e he
  tally := by
    intro b
    have hsum := KeyMap.sum_insert hv.byVoter
      (fun w => if w.blockHash = b then (hv.vset.powerOf w.voter).toNat else 0) v.voter v
    rw [hnew, Option.map_none, Option.getD_none, Nat.add_zero] at hsum
    have hold := hs.tally b
    rw [powerBehind_eq] at hold
    rw [powerBehind_eq]
    show ((hv.tally.addVote hv.vset v.voter v.blockHash).1.powerFor b).toNat =
      min ((hv.byVoter.insert v.voter v).values.map fun w =>
        if w.blockHash = b then (hv.vset.powerOf w.voter).toNat else 0).sum (UInt64.size - 1)
    rw [hsum, Tally.powerFor_addVote]
    by_cases hb : b = v.blockHash
    · subst hb
      simp only [if_true, Word.addSat_toNat, hold]
      omega
    · simp only [hb, if_false, Ne.symm hb, Nat.add_zero]
      exact hold

/-- Recounting against a new snapshot keeps the record sound: the votes of members stay and
are counted again with the new powers. -/
theorem Sound.retally {hv : HeightVotes} {h : UInt64} (hs : hv.Sound h) (vset : ValidatorSet) :
    ({ hv with vset := vset }.retally).Sound h := by
  let kept := hv.byVoter.filter fun a _ => vset.contains a
  have hkept : ∀ e ∈ kept.toList, e ∈ hv.byVoter.toList ∧ vset.contains e.1 = true := by
    intro e he
    simpa [kept, KeyMap.filter] using he
  refine ⟨fun e he => ?_, fun b => ?_⟩
  · obtain ⟨he, hmem⟩ := hkept e he
    obtain ⟨hvoter, hh, hver, -⟩ := hs.votes e he
    exact ⟨hvoter, hh, hver, hmem⟩
  · show ((kept.toList.foldl (fun (t : Tally) (a, v) => (t.addVote vset a v.blockHash).1) {}).powerFor
      b).toNat = _
    rw [Tally.powerFor_foldl_addVote, Tally.powerFor_empty, UInt64.toNat_zero, Nat.zero_add,
      powerBehind_eq]
    -- each kept vote is stored under its voter, so the entries and the values count alike
    congr 1
    show _ = (kept.values.map _).sum
    rw [KeyMap.values, List.map_map]
    refine congrArg List.sum (List.map_congr_left fun e he => ?_)
    rw [Function.comp_apply, (hs.votes e (hkept e he).1).1]
    rfl

/-- The vote a height holds for a voter: the counted one, else the one kept as conflicting with
a certificate. -/
def held (hv : HeightVotes) (a : Address) : Option Vote :=
  (hv.byVoter.get? a).or (hv.conflicting.get? a)

theorem held_eq_none {hv : HeightVotes} {a : Address} :
    hv.held a = none ↔ hv.byVoter.get? a = none ∧ hv.conflicting.get? a = none := by
  simp [held]

end HeightVotes

/-! ## The tracker's accounting -/

namespace FinalityManager

/-- Every height's record is sound, and parked votes are filed under their own height. -/
structure Accounting (fm : FinalityManager) : Prop where
  heights : ∀ h hv, fm.heights.get? h = some hv → hv.Sound h
  parked : ∀ h vs, fm.parked.get? h = some vs → ∀ v ∈ vs, v.height = h

theorem accounting_init (F : UInt64) (hash : Digest) : (init F hash).Accounting where
  heights := by simp [init]
  parked := by simp [init]

/-- The final height is above `F`, and its certificate is for the final block and verifies
against the height's snapshot with the quorum of that snapshot's power. -/
def CertifiedAbove (fm : FinalityManager) (F : UInt64) : Prop :=
  F < fm.finalizedHeight ∧ ∃ c vset, fm.certificate fm.finalizedHeight = some c ∧
    fm.validatorSet fm.finalizedHeight = some vset ∧ c.height = fm.finalizedHeight ∧
    c.blockHash = fm.finalizedHash ∧ c.totalPower = vset.totalPower ∧
    quorumThreshold c.totalPower ≤ c.signedPower ∧ c.verify vset = .ok ()

/-- How an input that reports `fin` moves finality: without a finalization the final height,
its hash and the certificates stay; a finalization raises the final height with a verifying
certificate, and no other height's certificate changes. -/
def Finalizes (fm fm' : FinalityManager) (fin : Bool) : Prop :=
  (fin = false → fm'.finalizedHeight = fm.finalizedHeight ∧
    fm'.finalizedHash = fm.finalizedHash ∧ fm'.certificates = fm.certificates) ∧
  (fin = true → fm'.CertifiedAbove fm.finalizedHeight ∧
    ∀ h, fm'.certificate h ≠ fm.certificate h → h = fm'.finalizedHeight)

theorem finalizes_refl (fm : FinalityManager) : fm.Finalizes fm false :=
  ⟨fun _ => ⟨rfl, rfl, rfl⟩, fun h => (nomatch h)⟩

/-- Finality moved from `fm₀` to `fm₁` and not after, or not until after. -/
theorem Finalizes.trans {fm₀ fm₁ fm₂ : FinalityManager} {a b : Bool}
    (h₁ : fm₀.Finalizes fm₁ a) (h₂ : fm₁.Finalizes fm₂ b) (hab : a = false ∨ b = false)
    (hset : fm₂.validatorSet fm₂.finalizedHeight = fm₁.validatorSet fm₂.finalizedHeight) :
    fm₀.Finalizes fm₂ (a || b) := by
  rcases hab with rfl | rfl
  · obtain ⟨hF, hH, hC⟩ := h₁.1 rfl
    refine ⟨fun hb => ?_, fun hb => ?_⟩
    · obtain ⟨hF', hH', hC'⟩ := h₂.1 (by simpa using hb)
      exact ⟨hF'.trans hF, hH'.trans hH, hC'.trans hC⟩
    · obtain ⟨hcert, hone⟩ := h₂.2 (by simpa using hb)
      refine ⟨hF ▸ hcert, fun h hne => hone h ?_⟩
      unfold certificate at hne ⊢
      rw [hC]
      exact hne
  · obtain ⟨hF', hH', hC'⟩ := h₂.1 rfl
    refine ⟨fun ha => ?_, fun ha => ?_⟩
    · obtain ⟨hF, hH, hC⟩ := h₁.1 (by simpa using ha)
      exact ⟨hF'.trans hF, hH'.trans hH, hC'.trans hC⟩
    · obtain ⟨⟨hlt, c, vset, hc, hv, hrest⟩, hone⟩ := h₁.2 (by simpa using ha)
      refine ⟨⟨hF' ▸ hlt, c, vset, ?_, ?_, hF' ▸ hH' ▸ hrest⟩, fun h hne => ?_⟩
      · unfold certificate at hc ⊢
        rw [hC', hF']
        exact hc
      · rw [hset, hF']
        exact hv
      · rw [hF']
        refine hone h ?_
        unfold certificate at hne ⊢
        rw [← hC']
        exact hne

/-! ### Finalizing a height -/

/-- What finalizing can do: nothing, or finalize the height above the final one for its best
block, with the stored votes for that block as certificate. -/
theorem tryFinalize_eq_ok {fm fm' : FinalityManager} {height : UInt64} {done : Bool}
    (h : fm.tryFinalize height = .ok (fm', done)) :
    (done = false ∧ fm' = fm) ∨
    (done = true ∧ fm.finalizedHeight < height ∧ ∃ hv block power next,
      fm.heights.get? height = some hv ∧ hv.tally.best = some (block, power) ∧
      quorumThreshold hv.vset.totalPower ≤ power ∧
      fm' = { fm with
        certificates := fm.certificates.insert height
          ⟨height, block, hv.byVoter.values.filter fun v => v.blockHash = block, power,
            hv.vset.totalPower⟩
        finalizedHeight := height
        finalizedHash := block
        parked := fm.parked.keysFrom next }) := by
  unfold tryFinalize at h
  split at h
  · cases h
    exact .inl ⟨rfl, rfl⟩
  rename_i habove
  split at h
  · cases h
    exact .inl ⟨rfl, rfl⟩
  rename_i hv hget
  dsimp only at h
  split at h
  · cases h
    exact .inl ⟨rfl, rfl⟩
  rename_i block power hbest
  split at h
  · cases h
    exact .inl ⟨rfl, rfl⟩
  rename_i hq
  obtain ⟨next, -, h⟩ := Except.bind_eq_ok h
  simp only [pure, Except.pure, Except.ok.injEq, Prod.mk.injEq] at h
  obtain ⟨rfl, rfl⟩ := h
  refine .inr ⟨rfl, ?_, hv, block, power, next, hget, hbest, ?_, rfl⟩
  · rw [UInt64.lt_iff_toNat_lt]
    rw [UInt64.le_iff_toNat_le] at habove
    omega
  · rw [UInt64.le_iff_toNat_le]
    rw [UInt64.lt_iff_toNat_lt] at hq
    omega

theorem Accounting.tryFinalize {fm fm' : FinalityManager} (hacc : fm.Accounting) {height : UInt64}
    {done : Bool} (h : fm.tryFinalize height = .ok (fm', done)) : fm'.Accounting := by
  rcases tryFinalize_eq_ok h with ⟨-, rfl⟩ | ⟨-, -, hv, block, power, next, -, -, -, rfl⟩
  · exact hacc
  · refine ⟨hacc.heights, fun h vs hget => ?_⟩
    rw [KeyMap.get?_keysFrom] at hget
    split at hget
    · exact hacc.parked h vs hget
    · cases hget

/-- A finalization happens only with a certificate that verifies against the snapshot of the
finalized height: its votes are the stored votes for the best block, their voters are distinct
members, and their power is the tally, at least the quorum. -/
theorem tryFinalize_certified {fm fm' : FinalityManager} (hacc : fm.Accounting) {height : UInt64}
    (h : fm.tryFinalize height = .ok (fm', true)) :
    fm.Finalizes fm' true ∧ fm'.finalizedHeight = height ∧ fm'.heights = fm.heights := by
  rcases tryFinalize_eq_ok h with ⟨hdone, -⟩ | ⟨-, habove, hv, block, power, next, hget, hbest, hq, rfl⟩
  · cases hdone
  have hs := hacc.heights height hv hget
  let votes := hv.byVoter.values.filter fun v => v.blockHash = block
  have hok : ∀ w ∈ votes, (⟨height, block, votes, power, hv.vset.totalPower⟩ : Certificate).VoteOk
      hv.vset w := by
    intro w hw
    obtain ⟨hwv, hwb⟩ := List.mem_filter.mp hw
    obtain ⟨e, he, rfl⟩ := List.mem_map.mp hwv
    obtain ⟨hvoter, hh, hver, hmem⟩ := hs.votes e he
    refine ⟨hh, by simpa using hwb, hver, ?_⟩
    rw [hvoter]
    simpa [ValidatorSet.contains] using hmem
  have hweight : hv.vset.weight ((votes.map Vote.voter).toFinset) = hv.powerBehind block := by
    have hnodup : (votes.map Vote.voter).Nodup :=
      hs.voters_nodup.sublist (List.filter_sublist.map _)
    rw [ValidatorSet.weight, List.sum_toFinset _ hnodup, List.map_map]
    rfl
  have hpower : power.toNat = min (hv.powerBehind block) (UInt64.size - 1) := by
    rw [← Tally.powerFor_of_best hbest]
    exact hs.tally block
  have hverify : (⟨height, block, votes, power, hv.vset.totalPower⟩ : Certificate).verify hv.vset =
      .ok () := by
    refine (Certificate.verify_eq_ok_iff _ _).mpr ⟨hok, ?_⟩
    rw [Certificate.voters, hweight, ← hpower]
    exact UInt64.le_iff_toNat_le.mp hq
  refine ⟨⟨fun hf => (by cases hf), fun _ => ⟨⟨habove, ⟨height, block, votes, power,
    hv.vset.totalPower⟩, hv.vset, ?_, ?_, rfl, rfl, rfl, hq, hverify⟩, fun h' hne => ?_⟩⟩, rfl, rfl⟩
  · exact KeyMap.get?_insert_self _ _ _
  · simp only [validatorSet, hget, Option.map_some]
  · by_contra hh
    exact hne (KeyMap.get?_insert_of_ne _ _ hh)

/-! ### Recording a vote -/

/-- What recording a vote can do: leave the tracker as it was (a bad signature, a height with no
snapshot at or below the final height or past the parking window, a non-member, a repeat of the
held vote); park it; refuse a member's vote for another block than its held one, adding the
pair as evidence; or, for a member without a held vote, keep the vote as conflicting with a
certificate or count it.  Only counting can report a finalization. -/
theorem recordVote_cases {fm fm' : FinalityManager} {v : Vote} {r : Except FinalityError Bool}
    (h : fm.recordVote v = .ok (fm', r)) :
    (fm' = fm ∧ r ≠ .ok true ∧
      (v.verify ≠ .ok () ∨ fm.heights.get? v.height = none ∨
        ∃ hv, fm.heights.get? v.height = some hv ∧ (hv.vset.contains v.voter = false ∨
          ∃ p, hv.held v.voter = some p ∧ p.blockHash = v.blockHash))) ∨
    (r = .ok false ∧ fm.heights.get? v.height = none ∧
      ∃ slot : List Vote, (∀ w ∈ slot, w ∈ fm.parked.getD v.height [] ∨ w = v) ∧
        fm' = { fm with parked := fm.parked.insert v.height slot }) ∨
    (∃ hv p, fm.heights.get? v.height = some hv ∧ hv.vset.contains v.voter = true ∧
      hv.held v.voter = some p ∧ v.verify = .ok () ∧ p.blockHash ≠ v.blockHash ∧
      fm' = { fm with evidence := fm.evidence ++ [Evidence.ofVotes p v] } ∧
      r = .error (.equivocation v.voter v.height)) ∨
    (∃ hv, fm.heights.get? v.height = some hv ∧ hv.vset.contains v.voter = true ∧
      hv.held v.voter = none ∧ v.verify = .ok () ∧
      ((r ≠ .ok true ∧ fm' = { fm with
          heights := fm.heights.insert v.height
            { hv with conflicting := hv.conflicting.insert v.voter v } }) ∨
        fm.countVote hv v = .ok (fm', r))) := by
  unfold recordVote at h
  cases hver : v.verify with
  | error e =>
    simp only [hver] at h
    cases h
    exact .inl ⟨rfl, by simp, .inl (by simp)⟩
  | ok u =>
    simp only [hver, Bool.false_eq_true, if_false] at h
    split at h
    · -- no snapshot: the vote is parked or refused
      rename_i hnone
      split at h
      · obtain ⟨windowEnd, -, h⟩ := Except.bind_eq_ok h
        split at h
        · cases h
          refine .inr (.inl ⟨rfl, hnone, _, fun w hw => ?_, rfl⟩)
          split at hw
          · rcases List.mem_append.mp hw with hw | hw
            · exact .inl hw
            · exact .inr (List.mem_singleton.mp hw)
          · exact .inl hw
        · cases h
          exact .inl ⟨rfl, by simp, .inr (.inl hnone)⟩
      · cases h
        exact .inl ⟨rfl, by simp, .inr (.inl hnone)⟩
    · rename_i hv hget
      split at h
      · rename_i hout
        cases h
        exact .inl ⟨rfl, by simp, .inr (.inr ⟨hv, hget, .inl (by simpa using hout)⟩)⟩
      rename_i hmem
      have hcontains : hv.vset.contains v.voter = true := by simpa using hmem
      split at h
      · rename_i p hprev
        have hheld : hv.held v.voter = some p := by
          revert hprev
          unfold HeightVotes.held
          cases hv.byVoter.get? v.voter <;> simp
        split at h
        · rename_i hsame
          cases h
          exact .inl ⟨rfl, by simp, .inr (.inr ⟨hv, hget, .inr ⟨p, hheld, hsame⟩⟩)⟩
        · rename_i hne
          cases h
          exact .inr (.inr (.inl ⟨hv, p, hget, hcontains, hheld, rfl, hne, rfl, rfl⟩))
      · rename_i hprev
        have hheld : hv.held v.voter = none := by
          revert hprev
          unfold HeightVotes.held
          cases hv.byVoter.get? v.voter <;> simp
        split at h
        · split at h
          · cases h
            exact .inr (.inr (.inr ⟨hv, hget, hcontains, hheld, rfl, .inl ⟨by simp, rfl⟩⟩))
          · exact .inr (.inr (.inr ⟨hv, hget, hcontains, hheld, rfl, .inr h⟩))
        · exact .inr (.inr (.inr ⟨hv, hget, hcontains, hheld, rfl, .inr h⟩))

theorem countVote_eq_ok {fm fm' : FinalityManager} {hv : HeightVotes} {v : Vote}
    {r : Except FinalityError Bool} (h : fm.countVote hv v = .ok (fm', r)) :
    (v.height ≤ fm.finalizedHeight ∧ r = .ok false ∧
      fm' = { fm with heights := fm.heights.insert v.height (hv.record v) }) ∨
    (fm.finalizedHeight < v.height ∧ ∃ done, r = .ok done ∧
      FinalityManager.tryFinalize { fm with heights := fm.heights.insert v.height (hv.record v) }
        v.height = .ok (fm', done)) := by
  unfold countVote at h
  dsimp only at h
  split at h
  · cases h
    exact .inl ⟨by assumption, rfl, rfl⟩
  · rename_i habove
    obtain ⟨⟨fm₁, done⟩, hfin, h⟩ := Except.bind_eq_ok h
    simp only [pure, Except.pure, Except.ok.injEq, Prod.mk.injEq] at h
    obtain ⟨rfl, rfl⟩ := h
    refine .inr ⟨?_, done, rfl, hfin⟩
    rw [UInt64.lt_iff_toNat_lt]
    rw [UInt64.le_iff_toNat_le] at habove
    omega

/-- Whether recording a vote reported that the vote finalized its height. -/
def reportsFinal (r : Except FinalityError Bool) : Bool := r matches .ok true

theorem reportsFinal_iff (r : Except FinalityError Bool) : reportsFinal r = true ↔ r = .ok true := by
  rcases r with _ | _ | _ <;> simp [reportsFinal]

theorem reportsFinal_of_ne {r : Except FinalityError Bool} (hr : r ≠ .ok true) :
    reportsFinal r = false := by
  cases hm : reportsFinal r
  · rfl
  · exact absurd ((reportsFinal_iff r).mp hm) hr

/-- Recording a vote keeps the accounting, never changes a snapshot, and moves finality only by
finalizing the vote's height. -/
theorem recordVote_spec {fm fm' : FinalityManager} (hacc : fm.Accounting) {v : Vote}
    {r : Except FinalityError Bool} (h : fm.recordVote v = .ok (fm', r)) :
    fm'.Accounting ∧ (∀ h, fm'.validatorSet h = fm.validatorSet h) ∧
      fm.Finalizes fm' (reportsFinal r) ∧ (r = .ok true → fm'.finalizedHeight = v.height) := by
  have hkeep : ∀ fm'', r ≠ .ok true → fm''.finalizedHeight = fm.finalizedHeight →
      fm''.finalizedHash = fm.finalizedHash → fm''.certificates = fm.certificates →
      fm.Finalizes fm'' (reportsFinal r) ∧ (r = .ok true → fm''.finalizedHeight = v.height) := by
    intro fm'' hr hF hH hC
    rw [reportsFinal_of_ne hr]
    exact ⟨⟨fun _ => ⟨hF, hH, hC⟩, fun hf => (nomatch hf)⟩, fun hr' => absurd hr' hr⟩
  have hset : ∀ hv hv', fm.heights.get? v.height = some hv → hv'.vset = hv.vset → ∀ h,
      ({ fm with heights := fm.heights.insert v.height hv' } : FinalityManager).validatorSet h =
        fm.validatorSet h := by
    intro hv hv' hget hvset h
    unfold validatorSet
    rw [KeyMap.get?_insert]
    split
    · rename_i hh
      rw [hh, hget]
      exact congrArg some hvset
    · rfl
  rcases recordVote_cases h with ⟨rfl, hr, -⟩ | ⟨rfl, hnone, slot, hslot, rfl⟩ |
      ⟨_, _, -, -, -, -, -, rfl, rfl⟩ | ⟨hv, hget, hmem, hheld, hver, ⟨hr, rfl⟩ | hcount⟩
  · exact ⟨hacc, fun _ => rfl, hkeep _ hr (by rfl) (by rfl) (by rfl)⟩
  · refine ⟨⟨hacc.heights, fun h vs hvs w hw => ?_⟩, fun _ => rfl,
      hkeep _ nofun (by rfl) (by rfl) (by rfl)⟩
    rw [KeyMap.get?_insert] at hvs
    split at hvs
    · rename_i hh
      cases hvs
      rcases hslot w hw with hw | rfl
      · rw [KeyMap.getD_eq] at hw
        cases hold : fm.parked.get? v.height with
        | none => simp [hold] at hw
        | some old =>
          rw [hold] at hw
          rw [hh]
          exact hacc.parked _ old hold w hw
      · exact hh.symm
    · exact hacc.parked h vs hvs w hw
  · exact ⟨⟨hacc.heights, hacc.parked⟩, fun _ => rfl, hkeep _ nofun (by rfl) (by rfl) (by rfl)⟩
  · -- a conflicting vote is kept aside; the record of the height is otherwise the same
    refine ⟨⟨fun h hv' hget' => ?_, hacc.parked⟩, hset hv _ hget rfl,
      hkeep _ hr (by rfl) (by rfl) (by rfl)⟩
    rw [KeyMap.get?_insert] at hget'
    split at hget'
    · rename_i hh
      cases hget'
      exact hh ▸ (hacc.heights _ hv hget).withConflicting _
    · exact hacc.heights h hv' hget'
  · have hs := (hacc.heights _ hv hget).record rfl hver hmem (HeightVotes.held_eq_none.mp hheld).1
    have hacc₁ : ({ fm with heights := fm.heights.insert v.height (hv.record v) } :
        FinalityManager).Accounting := by
      refine ⟨fun h hv' hget' => ?_, hacc.parked⟩
      rw [KeyMap.get?_insert] at hget'
      split at hget'
      · rename_i hh
        cases hget'
        exact hh ▸ hs
      · exact hacc.heights h hv' hget'
    have hset₁ := hset hv (hv.record v) hget rfl
    rcases countVote_eq_ok hcount with ⟨-, rfl, rfl⟩ | ⟨-, done, rfl, hfin⟩
    · exact ⟨hacc₁, hset₁, hkeep _ nofun (by rfl) (by rfl) (by rfl)⟩
    · cases done with
      | false =>
        rcases tryFinalize_eq_ok hfin with ⟨-, rfl⟩ | ⟨hd, -⟩
        · exact ⟨hacc₁, hset₁, hkeep _ nofun (by rfl) (by rfl) (by rfl)⟩
        · cases hd
      | true =>
        obtain ⟨hstep, hF, hheights⟩ := tryFinalize_certified hacc₁ hfin
        refine ⟨hacc₁.tryFinalize hfin, fun h => ?_, hstep, fun _ => hF⟩
        rw [← hset₁ h]
        unfold validatorSet
        rw [hheights]

/-- A vote at or below the final height never finalizes: it is counted, if at all, without
trying its height. -/
theorem recordVote_not_final_below {fm fm' : FinalityManager} {v : Vote}
    {r : Except FinalityError Bool} (hv : v.height ≤ fm.finalizedHeight)
    (h : fm.recordVote v = .ok (fm', r)) : r ≠ .ok true := by
  rcases recordVote_cases h with ⟨-, hr, -⟩ | ⟨rfl, -⟩ | ⟨_, _, -, -, -, -, -, -, rfl⟩ |
      ⟨_, -, -, -, -, ⟨hr, -⟩ | hcount⟩
  · exact hr
  · exact nofun
  · exact nofun
  · exact hr
  · rcases countVote_eq_ok hcount with ⟨-, rfl, -⟩ | ⟨habove, -⟩
    · exact nofun
    · exact absurd hv (by
        rw [UInt64.le_iff_toNat_le]
        rw [UInt64.lt_iff_toNat_lt] at habove
        omega)

/-! ### Registering a snapshot -/

theorem install_eq (fm : FinalityManager) (vset : ValidatorSet) :
    ∃ heights, fm.install vset = { fm with heights := heights } := by
  unfold install
  split
  · split
    · exact ⟨fm.heights, rfl⟩
    · exact ⟨_, rfl⟩
  · exact ⟨_, rfl⟩

/-- Installing a snapshot keeps the accounting: a new height starts empty, and a replaced
snapshot recounts the votes of its members. -/
theorem Accounting.install {fm : FinalityManager} (hacc : fm.Accounting) (vset : ValidatorSet) :
    (fm.install vset).Accounting := by
  refine ⟨fun h hv hget => ?_, by rw [install_parked]; exact hacc.parked⟩
  unfold FinalityManager.install at hget
  split at hget
  · rename_i hv₀ hget₀
    split at hget
    · exact hacc.heights h hv hget
    · rw [KeyMap.get?_insert] at hget
      split at hget
      · rename_i hh
        cases hget
        exact hh ▸ (hacc.heights _ hv₀ hget₀).retally vset
      · exact hacc.heights h hv hget
  · rw [KeyMap.get?_insert] at hget
    split at hget
    · cases hget
      exact HeightVotes.Sound.empty vset h
    · exact hacc.heights h hv hget

/-- Replaying votes of one height keeps the accounting and the snapshots, and moves finality
at most once, by finalizing that height: once it is final, the rest of its votes are counted
below the final height. -/
theorem replay_spec {fm fm' : FinalityManager} (hacc : fm.Accounting) {votes : List Vote}
    {H : UInt64} (hvotes : ∀ v ∈ votes, v.height = H) {fin : Bool}
    (h : fm.replay votes = .ok (fm', fin)) :
    fm'.Accounting ∧ (∀ h, fm'.validatorSet h = fm.validatorSet h) ∧ fm.Finalizes fm' fin ∧
      (fin = true → fm'.finalizedHeight = H) := by
  unfold replay at h
  refine Except.foldlM_induction_mem
    (fun acc : FinalityManager × Bool => acc.1.Accounting ∧
      (∀ h, acc.1.validatorSet h = fm.validatorSet h) ∧ fm.Finalizes acc.1 acc.2 ∧
      (acc.2 = true → acc.1.finalizedHeight = H))
    _ votes (fun acc v acc' hv hP hstep => ?_) (fm, false) (fm', fin)
    ⟨hacc, fun _ => rfl, finalizes_refl fm, nofun⟩ h
  obtain ⟨hacc₁, hset₁, hfin₁, hH₁⟩ := hP
  obtain ⟨⟨fm₂, r⟩, hrec, hacc'⟩ := Except.bind_eq_ok hstep
  have hacc'' : acc' = (fm₂, acc.2 || reportsFinal r) := by
    simp only [pure, Except.pure, Except.ok.injEq] at hacc'
    exact hacc'.symm
  subst hacc''
  dsimp only
  obtain ⟨hacc₂, hset₂, hfin₂, hH₂⟩ := recordVote_spec hacc₁ hrec
  have hone : acc.2 = false ∨ reportsFinal r = false := by
    cases hd : acc.2
    · exact .inl rfl
    · exact .inr (reportsFinal_of_ne (recordVote_not_final_below
        (by rw [hH₁ hd, hvotes v hv]; exact UInt64.le_refl _) hrec))
  refine ⟨hacc₂, fun h => (hset₂ h).trans (hset₁ h), ?_, fun hd => ?_⟩
  · exact hfin₁.trans hfin₂ hone (hset₂ _)
  · rcases hone with hprev | hnow
    · rw [hprev, Bool.false_or] at hd
      rw [hH₂ ((reportsFinal_iff r).mp hd), hvotes v hv]
    · rw [hnow, Bool.or_false] at hd
      rw [(hfin₂.1 hnow).1, hH₁ hd]

/-- Registering a snapshot keeps the accounting and moves finality only by finalizing the
snapshot's height. -/
theorem registerValidatorSet_spec {fm fm' : FinalityManager} (hacc : fm.Accounting)
    {vset : ValidatorSet} {fin : Bool} (h : fm.registerValidatorSet vset = .ok (fm', fin)) :
    fm'.Accounting ∧ fm.Finalizes fm' fin ∧ (fin = true → fm'.finalizedHeight = vset.height) := by
  obtain ⟨heights, hinst⟩ := install_eq fm vset
  have hacc₁ := hacc.install vset
  suffices hlast : ∀ fm₂ fin₂, fm₂.Accounting → fm.Finalizes fm₂ fin₂ →
      (fin₂ = true → fm₂.finalizedHeight = vset.height) →
      (if fin₂ = true then pure (fm₂, true) else fm₂.tryFinalize vset.height) = .ok (fm', fin) →
      fm'.Accounting ∧ fm.Finalizes fm' fin ∧ (fin = true → fm'.finalizedHeight = vset.height) by
    unfold registerValidatorSet at h
    dsimp only at h
    split at h
    · obtain ⟨⟨fm₂, fin₂⟩, hrep, h⟩ := Except.bind_eq_ok h
      simp only [pure, Except.pure, Except.ok.injEq, Prod.mk.injEq] at hrep
      obtain ⟨rfl, rfl⟩ := hrep
      refine hlast _ false hacc₁ ?_ nofun h
      rw [hinst]
      exact finalizes_refl _
    · rename_i votes hvotes
      obtain ⟨⟨fm₂, fin₂⟩, hrep, h⟩ := Except.bind_eq_ok h
      rw [install_parked] at hvotes
      have hacc₀ : ({ fm.install vset with parked := (fm.install vset).parked.erase vset.height } :
          FinalityManager).Accounting := by
        refine ⟨hacc₁.heights, fun h vs hget => ?_⟩
        rw [KeyMap.get?_erase] at hget
        split at hget
        · cases hget
        · exact hacc₁.parked h vs hget
      obtain ⟨hacc₂, -, hfin₂, hH₂⟩ := replay_spec hacc₀ (hacc.parked _ votes hvotes) hrep
      rw [hinst] at hfin₂
      exact hlast fm₂ fin₂ hacc₂ hfin₂ hH₂ h
  intro fm₂ fin₂ hacc₂ hfin₂ hH₂ h
  cases fin₂ with
  | true =>
    simp only [if_true, pure, Except.pure, Except.ok.injEq, Prod.mk.injEq] at h
    obtain ⟨rfl, rfl⟩ := h
    exact ⟨hacc₂, hfin₂, hH₂⟩
  | false =>
    simp only [Bool.false_eq_true, if_false] at h
    cases fin with
    | false =>
      rcases tryFinalize_eq_ok h with ⟨-, rfl⟩ | ⟨hd, -⟩
      · exact ⟨hacc₂, hfin₂, nofun⟩
      · cases hd
    | true =>
      obtain ⟨hfin, hF, hheights⟩ := tryFinalize_certified hacc₂ h
      refine ⟨hacc₂.tryFinalize h, hfin₂.trans hfin (.inl rfl) ?_, fun _ => hF⟩
      unfold validatorSet
      rw [hheights]

/-! ## Runs of the tracker -/

end FinalityManager

/-- An input of the finality tracker. -/
inductive FinalityInput where
  | vote (v : Vote)
  | register (vset : ValidatorSet)
  | prune (keep : UInt64)
  | takeEvidence
  | restore (c : Certificate)

namespace FinalityManager

/-- The tracker after an input, and whether the input finalized a height. -/
def apply (fm : FinalityManager) : FinalityInput → Except Abort (FinalityManager × Bool)
  | .vote v => (fun p => (p.1, reportsFinal p.2)) <$> fm.recordVote v
  | .register vset => fm.registerValidatorSet vset
  | .prune keep => .ok (fm.prune keep, false)
  | .takeEvidence => .ok (fm.takeEvidence.1, false)
  | .restore c => .ok (fm.restoreCertificate c, false)

/-- Every input keeps the accounting.  One that reports no finalization keeps the final height;
one that does raises it with a certificate verifying against the snapshot of the new final
height.  A certificate changes only by restoring or pruning, or as that new certificate. -/
theorem apply_spec {fm fm' : FinalityManager} (hacc : fm.Accounting) {i : FinalityInput}
    {fin : Bool} (h : fm.apply i = .ok (fm', fin)) :
    fm'.Accounting ∧ (fin = false → fm'.finalizedHeight = fm.finalizedHeight) ∧
      (fin = true → fm'.CertifiedAbove fm.finalizedHeight) ∧
      ∀ h, fm'.certificate h ≠ fm.certificate h →
        (∃ c, i = .restore c) ∨ (∃ keep, i = .prune keep) ∨ (fin = true ∧ h = fm'.finalizedHeight) := by
  have hmoved : ∀ fm'', fm''.Accounting → fm.Finalizes fm'' fin → fm'' = fm' →
      fm'.Accounting ∧ (fin = false → fm'.finalizedHeight = fm.finalizedHeight) ∧
      (fin = true → fm'.CertifiedAbove fm.finalizedHeight) ∧
      ∀ h, fm'.certificate h ≠ fm.certificate h →
        (∃ c, i = .restore c) ∨ (∃ keep, i = .prune keep) ∨ (fin = true ∧ h = fm'.finalizedHeight) := by
    rintro fm'' hacc'' hfin rfl
    refine ⟨hacc'', fun hf => (hfin.1 hf).1, fun ht => (hfin.2 ht).1, fun k hne => ?_⟩
    cases fin with
    | false =>
      obtain ⟨-, -, hC⟩ := hfin.1 rfl
      exact absurd (by unfold certificate; rw [hC]) hne
    | true => exact .inr (.inr ⟨rfl, (hfin.2 rfl).2 k hne⟩)
  cases i with
  | vote v =>
    obtain ⟨⟨fm₁, r⟩, hrec, heq⟩ := Except.map_eq_ok h
    simp only [Prod.mk.injEq] at heq
    obtain ⟨rfl, rfl⟩ := heq
    obtain ⟨hacc₁, -, hfin, -⟩ := recordVote_spec hacc hrec
    exact hmoved fm₁ hacc₁ hfin rfl
  | register vset =>
    obtain ⟨hacc₁, hfin, -⟩ := registerValidatorSet_spec hacc h
    exact hmoved fm' hacc₁ hfin rfl
  | prune keep =>
    simp only [apply, Except.ok.injEq, Prod.mk.injEq] at h
    obtain ⟨rfl, rfl⟩ := h
    refine ⟨⟨fun h hv hget => ?_, hacc.parked⟩, fun _ => rfl, nofun,
      fun _ _ => .inr (.inl ⟨keep, rfl⟩)⟩
    rw [prune, KeyMap.get?_keysFrom] at hget
    split at hget
    · exact hacc.heights h hv hget
    · cases hget
  | takeEvidence =>
    simp only [apply, Except.ok.injEq, Prod.mk.injEq] at h
    obtain ⟨rfl, rfl⟩ := h
    exact ⟨⟨hacc.heights, hacc.parked⟩, fun _ => rfl, nofun, fun _ hne => absurd rfl hne⟩
  | restore c =>
    simp only [apply, Except.ok.injEq, Prod.mk.injEq] at h
    obtain ⟨rfl, rfl⟩ := h
    exact ⟨⟨hacc.heights, hacc.parked⟩, fun _ => rfl, nofun, fun _ _ => .inl ⟨c, rfl⟩⟩

/-- An input that reports no finalization keeps the final height and block. -/
theorem apply_keeps_final {fm fm' : FinalityManager} (hacc : fm.Accounting) {i : FinalityInput}
    (h : fm.apply i = .ok (fm', false)) :
    fm'.finalizedHeight = fm.finalizedHeight ∧ fm'.finalizedHash = fm.finalizedHash := by
  cases i with
  | vote v =>
    obtain ⟨⟨fm₁, r⟩, hrec, heq⟩ := Except.map_eq_ok h
    simp only [Prod.mk.injEq] at heq
    obtain ⟨rfl, hr⟩ := heq
    obtain ⟨-, -, hfin, -⟩ := recordVote_spec hacc hrec
    obtain ⟨hF, hhash, -⟩ := hfin.1 hr
    exact ⟨hF, hhash⟩
  | register vset =>
    obtain ⟨-, hfin, -⟩ := registerValidatorSet_spec hacc h
    obtain ⟨hF, hhash, -⟩ := hfin.1 rfl
    exact ⟨hF, hhash⟩
  | prune keep =>
    simp only [apply, Except.ok.injEq, Prod.mk.injEq] at h
    obtain ⟨rfl, -⟩ := h
    exact ⟨rfl, rfl⟩
  | takeEvidence =>
    simp only [apply, Except.ok.injEq, Prod.mk.injEq] at h
    obtain ⟨rfl, -⟩ := h
    exact ⟨rfl, rfl⟩
  | restore c =>
    simp only [apply, Except.ok.injEq, Prod.mk.injEq] at h
    obtain ⟨rfl, -⟩ := h
    exact ⟨rfl, rfl⟩

theorem apply_vote {fm fm' : FinalityManager} {v : Vote} {r : Except FinalityError Bool}
    (h : fm.recordVote v = .ok (fm', r)) : fm.apply (.vote v) = .ok (fm', reportsFinal r) := by
  simp only [apply, h]
  rfl

/-- The trackers a run reaches from one started final at height `F` with block `hash`. -/
inductive Reachable (F : UInt64) (hash : Digest) : FinalityManager → Prop
  | init : Reachable F hash (init F hash)
  | step {fm fm' : FinalityManager} {fin : Bool} (i : FinalityInput) :
      Reachable F hash fm → fm.apply i = .ok (fm', fin) → Reachable F hash fm'

theorem Reachable.accounting {F : UInt64} {hash : Digest} {fm : FinalityManager}
    (hr : Reachable F hash fm) : fm.Accounting := by
  induction hr with
  | init => exact accounting_init F hash
  | step i _ happly ih => exact (apply_spec ih happly).1

/-- The tracker after a list of inputs, or the abort that stopped the run. -/
def applyAll (fm : FinalityManager) : List FinalityInput → Except Abort FinalityManager
  | [] => .ok fm
  | i :: rest => do
    let (fm', _) ← fm.apply i
    applyAll fm' rest

theorem Reachable.applyAll {F : UInt64} {hash : Digest} :
    ∀ {fm fm' : FinalityManager} (inputs : List FinalityInput), Reachable F hash fm →
      fm.applyAll inputs = .ok fm' → Reachable F hash fm'
  | _, _, [], hr, h => by
    cases h
    exact hr
  | fm, _, i :: rest, hr, h => by
    obtain ⟨⟨fm₁, fin⟩, happly, hrest⟩ := Except.bind_eq_ok h
    exact Reachable.applyAll rest (hr.step i happly) hrest

/-- Vote accounting along every run of the tracker.  For every height with a snapshot, each
stored vote verifies, is for that height, is stored under its voter and comes from a member of
the snapshot; no voter is stored twice; and the tally of every block is the saturating sum of
the snapshot powers of the voters whose stored vote is for it.  Every input keeps the final
height or raises it, it raises it exactly when it reports a finalization, and then the
certificate of the new final height verifies against that height's snapshot with the quorum;
apart from restoring and pruning, that certificate is the only one an input changes. -/
theorem finality_vote_accounting {F : UInt64} {hash : Digest} {fm : FinalityManager}
    (hr : Reachable F hash fm) :
    (∀ h hv, fm.heights.get? h = some hv →
      (∀ a v, hv.byVoter.get? a = some v →
        v.verify = .ok () ∧ v.height = h ∧ v.voter = a ∧ hv.vset.contains a = true) ∧
      hv.byVoter.keys.Nodup ∧
      ∀ b, fm.tally h b = Word.sumSat
        ((hv.byVoter.values.filter fun v => v.blockHash = b).map fun v => hv.vset.powerOf v.voter)) ∧
    ∀ i fm' fin, fm.apply i = .ok (fm', fin) →
      fm.finalizedHeight ≤ fm'.finalizedHeight ∧
      (fin = true ↔ fm.finalizedHeight < fm'.finalizedHeight) ∧
      (fin = true → fm'.CertifiedAbove fm.finalizedHeight) ∧
      ∀ h, fm'.certificate h ≠ fm.certificate h →
        (∃ c, i = .restore c) ∨ (∃ keep, i = .prune keep) ∨ (fin = true ∧ h = fm'.finalizedHeight) := by
  have hacc := hr.accounting
  refine ⟨fun h hv hget => ?_, fun i fm' fin happly => ?_⟩
  · have hs := hacc.heights h hv hget
    refine ⟨fun a v hav => ?_, hv.byVoter.keys_nodup, fun b => ?_⟩
    · obtain ⟨hvoter, hh, hver, hmem⟩ := hs.votes (a, v) (KeyMap.mem_toList_of_get? hav)
      exact ⟨hver, hh, hvoter, hmem⟩
    · -- the tally is the cached sum; both sides are read as exact sums cut at the largest word
      apply UInt64.toNat_inj.mp
      rw [tally, hget, hs.tally b, Word.sumSat_toNat, List.map_map]
      rfl
  · obtain ⟨-, hkeep, hcert, hchange⟩ := apply_spec hacc happly
    have hlt : fin = true → fm.finalizedHeight < fm'.finalizedHeight := fun ht => (hcert ht).1
    refine ⟨?_, ⟨hlt, fun hgt => ?_⟩, hcert, hchange⟩
    · cases fin with
      | false => exact UInt64.le_of_eq (hkeep rfl).symm
      | true => exact UInt64.le_of_lt (hlt rfl)
    · cases fin with
      | false =>
        rw [hkeep rfl] at hgt
        exact absurd hgt (UInt64.lt_irrefl _)
      | true => rfl

/-- The tracker after a one-validator snapshot for height 1 and that validator's vote there. -/
def oneVoteTracker : FinalityManager :=
  match (init 0 Digest.zero).applyAll [.register oneValidatorSet,
      .vote (Vote.signWith (Keypair.ofLabel "validator-0") 1 (Digest.ofText "x"))] with
  | .ok fm => fm
  | .error _ => init 0 Digest.zero

theorem vote_accounting_after_one_vote :
    Reachable 0 Digest.zero oneVoteTracker ∧
    ((∀ h hv, oneVoteTracker.heights.get? h = some hv →
      (∀ a v, hv.byVoter.get? a = some v →
        v.verify = .ok () ∧ v.height = h ∧ v.voter = a ∧ hv.vset.contains a = true) ∧
      hv.byVoter.keys.Nodup ∧
      ∀ b, oneVoteTracker.tally h b = Word.sumSat
        ((hv.byVoter.values.filter fun v => v.blockHash = b).map fun v => hv.vset.powerOf v.voter)) ∧
    ∀ i fm' fin, oneVoteTracker.apply i = .ok (fm', fin) →
      oneVoteTracker.finalizedHeight ≤ fm'.finalizedHeight ∧
      (fin = true ↔ oneVoteTracker.finalizedHeight < fm'.finalizedHeight) ∧
      (fin = true → fm'.CertifiedAbove oneVoteTracker.finalizedHeight) ∧
      ∀ h, fm'.certificate h ≠ oneVoteTracker.certificate h →
        (∃ c, i = .restore c) ∨ (∃ keep, i = .prune keep) ∨
          (fin = true ∧ h = fm'.finalizedHeight)) := by
  have hrun : (init 0 Digest.zero).applyAll [.register oneValidatorSet,
      .vote (Vote.signWith (Keypair.ofLabel "validator-0") 1 (Digest.ofText "x"))] =
      .ok oneVoteTracker := by
    decide +kernel
  have hr : Reachable 0 Digest.zero oneVoteTracker := Reachable.applyAll _ .init hrun
  exact ⟨hr, finality_vote_accounting hr⟩

end FinalityManager

end StakeChain

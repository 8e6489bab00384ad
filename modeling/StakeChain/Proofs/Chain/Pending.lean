import StakeChain.Proofs.Chain.Commit

/-!
# The pending chain

The blocks a chain holds above its final block form a chain of their own. Each one is one
height above the block before it, links to that block's hash and is not earlier than it. It was
executed from that block's ledger to the outcome it holds. It was proposed by the proposer that
the snapshot stored for its height selects (`Tip.Extends`, `Chain.Coherent`). The chain's final
height never passes the tracker's, and where the two are equal the final blocks agree.

Every input keeps all of this (`Coherent.step`). An input also never lowers the final height.
When an input raises it, the new final block is the tracker's final block, or a pending block
at the tracker's final height carries the tracker's block, so the new final block is one of its
ancestors (`Chain.OnTrackerChain`, `pending_chain_coherent`).
-/

set_option autoImplicit false

namespace StakeChain

/-- What the next block is checked against: a block's height, hash, time and ledger. -/
structure Tip where
  height : UInt64
  hash : Digest
  timestamp : UInt64
  ledger : Ledger

/-- The tip a pending block leaves. -/
def PendingBlock.tip (p : PendingBlock) : Tip :=
  ⟨p.block.height, p.hash, p.block.header.timestamp, p.outcome.ledger⟩

namespace Tip

/-- `p` is built on `t`. It is one height above `t`, links to its hash and is not earlier than
it. It is held under its own hash and was executed from `t`'s ledger to its outcome. -/
def Precedes (params : LedgerParams) (t : Tip) (p : PendingBlock) : Prop :=
  p.block.header.parent = t.hash ∧ p.block.height.toNat = t.height.toNat + 1 ∧
    t.timestamp ≤ p.block.header.timestamp ∧ p.hash = p.block.hash ∧
    (verifyBlock t.ledger p.block params).run = .ok (.ok p.outcome)

/-- Blocks built one on another, the first on `t`. -/
def Extends (params : LedgerParams) : Tip → List PendingBlock → Prop
  | _, [] => True
  | t, p :: rest => t.Precedes params p ∧ Extends params p.tip rest

/-- The tip after blocks built on `t`. -/
def last (t : Tip) (l : List PendingBlock) : Tip := (l.getLast?.map PendingBlock.tip).getD t

variable {params : LedgerParams}

@[simp] theorem extends_nil (t : Tip) : t.Extends params [] := trivial

@[simp] theorem extends_cons {t : Tip} {p : PendingBlock} {rest : List PendingBlock} :
    t.Extends params (p :: rest) ↔ t.Precedes params p ∧ p.tip.Extends params rest := Iff.rfl

@[simp] theorem last_nil (t : Tip) : t.last [] = t := rfl

theorem last_cons (t : Tip) (p : PendingBlock) (rest : List PendingBlock) :
    t.last (p :: rest) = p.tip.last rest := by
  unfold last
  rw [List.getLast?_cons]
  cases rest.getLast? <;> rfl

theorem extends_append_single {p : PendingBlock} :
    ∀ {t : Tip} {l : List PendingBlock},
      t.Extends params (l ++ [p]) ↔ t.Extends params l ∧ (t.last l).Precedes params p
  | t, [] => by simp [Extends]
  | t, q :: l => by
    rw [List.cons_append, extends_cons, extends_cons, extends_append_single, last_cons, and_assoc]

theorem Extends.take : ∀ {t : Tip} {l : List PendingBlock}, t.Extends params l →
    ∀ k, t.Extends params (l.take k)
  | _, [], _, k => by simp
  | _, _ :: _, h, 0 => by simp
  | _, _ :: _, h, k + 1 => ⟨h.1, h.2.take k⟩

/-- The `i`-th block built on `t` is `i + 1` heights above it. -/
theorem Extends.height_getElem : ∀ {t : Tip} {l : List PendingBlock}, t.Extends params l →
    ∀ i (hi : i < l.length), l[i].block.height.toNat = t.height.toNat + i + 1
  | _, [], _, i, hi => absurd hi (Nat.not_lt_zero i)
  | _, _ :: _, h, 0, _ => h.1.2.1
  | _, p :: rest, h, i + 1, hi => by
    rw [List.getElem_cons_succ, h.2.height_getElem i (by simpa using hi)]
    simp only [PendingBlock.tip]
    rw [h.1.2.1]
    omega

theorem Extends.height_lt {t : Tip} {l : List PendingBlock} (h : t.Extends params l)
    {p : PendingBlock} (hp : p ∈ l) : t.height.toNat < p.block.height.toNat := by
  obtain ⟨i, hi, rfl⟩ := List.getElem_of_mem hp
  rw [h.height_getElem i hi]
  omega

theorem Extends.last_height : ∀ {t : Tip} {l : List PendingBlock}, t.Extends params l →
    (t.last l).height.toNat = t.height.toNat + l.length
  | _, [], _ => rfl
  | _, p :: rest, h => by
    rw [last_cons, h.2.last_height]
    simp only [PendingBlock.tip, List.length_cons]
    rw [h.1.2.1]
    omega

/-- Blocks built one on another have distinct heights, so a block is the first held at its
height. -/
theorem Extends.find?_height : ∀ {t : Tip} {l : List PendingBlock}, t.Extends params l →
    ∀ {p : PendingBlock}, p ∈ l → l.find? (fun x => x.block.height = p.block.height) = some p
  | _, [], _, _, hp => absurd hp List.not_mem_nil
  | _, q :: rest, h, p, hp => by
    rcases List.mem_cons.mp hp with rfl | hp
    · simp
    · have hlt := h.2.height_lt hp
      have hne : q.block.height ≠ p.block.height := by
        intro heq
        simp only [PendingBlock.tip, heq] at hlt
        omega
      rw [List.find?_cons_of_neg (by simpa using hne)]
      exact h.2.find?_height hp

end Tip

/-- A tracker final at least as high as `F`, with block `H` at an equal height, stays so after
any of its inputs: its final height only moves up, and keeps its block when it does not move. -/
theorem FinalityManager.ahead_apply {fm fm' : FinalityManager} (hacc : fm.Accounting)
    {i : FinalityInput} {fin : Bool} (h : fm.apply i = .ok (fm', fin)) {F : UInt64} {H : Digest}
    (hle : F ≤ fm.finalizedHeight) (hagree : F = fm.finalizedHeight → H = fm.finalizedHash) :
    F ≤ fm'.finalizedHeight ∧ (F = fm'.finalizedHeight → H = fm'.finalizedHash) := by
  cases fin with
  | false =>
    obtain ⟨hF, hhash⟩ := FinalityManager.apply_keeps_final hacc h
    rw [hF, hhash]
    exact ⟨hle, hagree⟩
  | true =>
    have hlt := UInt64.lt_of_le_of_lt hle ((FinalityManager.apply_spec hacc h).2.2.1 rfl).1
    exact ⟨UInt64.le_of_lt hlt, fun heq => absurd (heq ▸ hlt) (UInt64.lt_irrefl _)⟩

/-- Keys at or above the floor keep their entries. -/
theorem KeyMap.get?_keysFrom_of_le {ν : Type} (m : KeyMap UInt64 ν) {floor k : UInt64}
    (h : floor ≤ k) : (m.keysFrom floor).get? k = m.get? k := by
  rw [KeyMap.get?_keysFrom, if_pos]
  simpa [Std.compare_eq_lt] using UInt64.not_lt.mpr h

namespace Chain

/-- The tip of the final block. -/
def finalTip (c : Chain) : Tip :=
  ⟨c.finalizedHeight, c.finalizedHash, c.finalized.header.timestamp, c.ledger⟩

/-- The tip of the newest known block. -/
def headTip (c : Chain) : Tip := c.finalTip.last c.pending

theorem head_eq_headTip (c : Chain) :
    c.head = (c.headTip.height, c.headTip.hash, c.headTip.timestamp) := by
  unfold head headTip Tip.last
  cases c.pending.getLast? <;> rfl

theorem headLedger_eq_headTip (c : Chain) : c.headLedger = c.headTip.ledger := by
  unfold headLedger headTip Tip.last
  cases c.pending.getLast? <;> rfl

/-- The proposer of a pending block is the one that the snapshot stored for its height selects
with its parent's seed. -/
def ProposedBy (snapshots : KeyMap UInt64 ValidatorSet) (p : PendingBlock) : Prop :=
  ∃ vset v, snapshots.get? p.block.height = some vset ∧
    vset.selectProposer p.block.height (proposerSeed p.block.header.parent p.block.height) = some v ∧
    v.address = p.block.header.proposer

/-- The pending blocks extend the final block as `Tip.Extends` says, each by its snapshot's
proposer. The tracker keeps its accounting, is final at least as high as the chain, and agrees
with the chain's final block at an equal height. -/
structure Coherent (c : Chain) : Prop where
  pending : c.finalTip.Extends c.params c.pending
  proposers : ∀ p ∈ c.pending, ProposedBy c.snapshots p
  accounting : c.finality.Accounting
  behind : c.finalizedHeight ≤ c.finality.finalizedHeight
  agrees : c.finalizedHeight = c.finality.finalizedHeight → c.finalizedHash = c.finality.finalizedHash

/-- The chain's final block is the tracker's, or a pending block at the tracker's final height
carries the tracker's block, so that the final block is one of its ancestors. -/
def OnTrackerChain (c : Chain) : Prop :=
  (c.finalizedHeight = c.finality.finalizedHeight ∧ c.finalizedHash = c.finality.finalizedHash) ∨
    ∃ p ∈ c.pending, p.block.height = c.finality.finalizedHeight ∧ p.hash = c.finality.finalizedHash

section Coherent

variable {c : Chain}

/-- A change that leaves the pending blocks, the final block, the snapshots and the tracker
keeps the invariant. -/
theorem Coherent.frame (h : c.Coherent) {c' : Chain} (hpending : c'.pending = c.pending)
    (hfinal : c'.finalized = c.finalized) (hhash : c'.finalizedHash = c.finalizedHash)
    (hledger : c'.ledger = c.ledger) (hparams : c'.params = c.params)
    (hsnap : c'.snapshots = c.snapshots) (hfm : c'.finality = c.finality) : c'.Coherent := by
  have htip : c'.finalTip = c.finalTip := by
    unfold finalTip finalizedHeight
    rw [hfinal, hhash, hledger]
  have hF : c'.finalizedHeight = c.finalizedHeight := by
    unfold finalizedHeight
    rw [hfinal]
  refine ⟨?_, ?_, ?_, ?_, ?_⟩
  · rw [htip, hpending, hparams]
    exact h.pending
  · rw [hpending, hsnap]
    exact h.proposers
  · rw [hfm]
    exact h.accounting
  · rw [hF, hfm]
    exact h.behind
  · rw [hF, hhash, hfm]
    exact h.agrees

theorem Coherent.setStatus (h : c.Coherent) (hash : Digest) (s : BlockStatus) :
    (c.setStatus hash s).Coherent :=
  h.frame rfl rfl rfl rfl rfl rfl rfl

theorem Coherent.submitEvidence (h : c.Coherent) (e : Evidence) : (c.submitEvidence e).1.Coherent :=
  h.frame rfl rfl rfl rfl rfl rfl rfl

theorem Coherent.emit (h : c.Coherent) (e : ChainEvent) : (c.emit e).Coherent :=
  h.frame rfl rfl rfl rfl rfl rfl rfl

/-- A tracker changed by one of its inputs keeps the invariant: its accounting, and a final
height that only moves up, keeping its block when it does not move. -/
theorem Coherent.withFinality (h : c.Coherent) {i : FinalityInput} {fm : FinalityManager}
    {fin : Bool} (happly : c.finality.apply i = .ok (fm, fin)) : { c with finality := fm }.Coherent := by
  obtain ⟨hle, hagree⟩ := FinalityManager.ahead_apply h.accounting happly h.behind h.agrees
  exact ⟨h.pending, h.proposers, (FinalityManager.apply_spec h.accounting happly).1, hle, hagree⟩

theorem Coherent.forwardFinalityEvidence (h : c.Coherent) : c.forwardFinalityEvidence.Coherent := by
  have hfm : ({ c with finality := c.finality.takeEvidence.1 } : Chain).Coherent :=
    h.withFinality (show c.finality.apply .takeEvidence = .ok (c.finality.takeEvidence.1, false)
      from rfl)
  obtain ⟨sl, hsl⟩ := forwardFinalityEvidence_eq c
  rw [hsl]
  exact hfm.frame rfl rfl rfl rfl rfl rfl rfl

theorem Coherent.revertToFinalized (h : c.Coherent) : c.revertToFinalized.Coherent := by
  obtain ⟨st, hst⟩ := revertToFinalized_eq c
  rw [hst]
  exact ⟨trivial, fun p hp => absurd hp List.not_mem_nil, h.accounting, h.behind, h.agrees⟩

/-- The newest known block's hash is the hash held at its height. -/
theorem Coherent.hashAt_head (h : c.Coherent) : c.hashAt c.head.1 = some c.head.2.1 := by
  rw [head_eq_headTip]
  unfold hashAt headTip Tip.last
  cases hlast : c.pending.getLast? with
  | none => simp [finalTip]
  | some q =>
    have hq := List.mem_of_getLast? hlast
    have hlt := h.pending.height_lt hq
    have hne : q.block.height ≠ c.finalizedHeight := by
      intro heq
      simp only [finalTip, heq] at hlt
      omega
    simp only [Option.map_some, Option.getD_some, PendingBlock.tip, hne, if_false]
    unfold pendingAt
    rw [h.pending.find?_height hq]

/-- The selected proposer of a height comes from the snapshot of that height and the seed of
the hash held one height below. -/
theorem proposerFor_eq_some {h : UInt64} {v : Validator} (hv : c.proposerFor h = some v) :
    h ≠ 0 ∧ ∃ parent vset, c.hashAt (h - 1) = some parent ∧ c.snapshots.get? h = some vset ∧
      vset.selectProposer h (proposerSeed parent h) = some v := by
  unfold proposerFor at hv
  split at hv
  · cases hv
  · rename_i hne
    simp only [bind, Option.bind_eq_some_iff] at hv
    obtain ⟨parent, hparent, vset, hvset, hsel⟩ := hv
    exact ⟨hne, parent, vset, hparent, hvset, hsel⟩

/-- A block that extends the head and verifies, appended to the pending blocks with the next
height's snapshot, keeps the invariant. -/
theorem Coherent.accept (h : c.Coherent) {b : Block} {outcome : BlockOutcome} {next : UInt64}
    {vset : ValidatorSet}
    (hheight : b.height.toNat = c.head.1.toNat + 1) (hparent : b.header.parent = c.head.2.1)
    (hts : c.head.2.2 ≤ b.header.timestamp)
    (hprop : ∃ v, c.proposerFor b.height = some v ∧ v.address = b.header.proposer)
    (hver : (verifyBlock c.headLedger b c.params).run = .ok (.ok outcome))
    (hnext : next.toNat = b.height.toNat + 1) :
    ({ c with snapshots := c.snapshots.insert next vset,
              pending := c.pending ++ [({ block := b, hash := b.hash, outcome := outcome } :
                PendingBlock)] } : Chain).Coherent := by
  rw [head_eq_headTip] at hheight hparent hts
  dsimp only at hheight hparent hts
  rw [headLedger_eq_headTip] at hver
  have hbelow : ∀ p ∈ c.pending, p.block.height.toNat < b.height.toNat := by
    intro p hp
    obtain ⟨i, hi, rfl⟩ := List.getElem_of_mem hp
    have hlast := h.pending.last_height
    rw [h.pending.height_getElem i hi, hheight]
    unfold headTip
    omega
  have hsnap : ∀ k, k.toNat < next.toNat →
      (c.snapshots.insert next vset).get? k = c.snapshots.get? k := by
    intro k hk
    refine KeyMap.get?_insert_of_ne _ _ fun heq => ?_
    rw [heq] at hk
    omega
  refine ⟨?_, ?_, h.accounting, h.behind, h.agrees⟩
  · exact Tip.extends_append_single.mpr ⟨h.pending, hparent, hheight, hts, rfl, hver⟩
  · intro p hp
    rcases List.mem_append.mp hp with hp | hp
    · obtain ⟨vs, v, hget, hsel, haddr⟩ := h.proposers p hp
      have hlt := hbelow p hp
      exact ⟨vs, v, (hsnap _ (by omega)).trans hget, hsel, haddr⟩
    · rw [List.mem_singleton] at hp
      subst hp
      obtain ⟨v, hv, haddr⟩ := hprop
      obtain ⟨hne, parent, vs, hhash, hget, hsel⟩ := proposerFor_eq_some hv
      -- the seed comes from the head's hash, which is the block's parent
      have hbelow' : b.height - 1 = c.head.1 := by
        rw [head_eq_headTip]
        apply UInt64.toNat_inj.mp
        rw [UInt64.toNat_sub_of_le _ _ (by rw [UInt64.le_iff_toNat_le]; simp; omega)]
        simp only [UInt64.toNat_one]
        omega
      rw [hbelow', h.hashAt_head, head_eq_headTip] at hhash
      cases hhash
      refine ⟨vs, v, (hsnap b.height (by omega)).trans hget, ?_, haddr⟩
      rw [hparent]
      exact hsel

/-- Pruning below the retention window keeps the invariant: every pending block is above the
final height, so above the window's floor. -/
theorem Coherent.pruneRetained (h : c.Coherent) : c.pruneRetained.Coherent := by
  have hfloor : ∀ p ∈ c.pending, Word.subSat c.finalizedHeight c.consensus.voteRetentionHeights ≤
      p.block.height := by
    intro p hp
    have hlt := h.pending.height_lt hp
    rw [UInt64.le_iff_toNat_le, Word.subSat_toNat]
    simp only [finalTip] at hlt
    omega
  have hs : ({ c with
      snapshots := c.snapshots.keysFrom (Word.subSat c.finalizedHeight c.consensus.voteRetentionHeights)
      recentHeaders := c.recentHeaders.keysFrom
        (Word.subSat c.finalizedHeight c.consensus.voteRetentionHeights)
      ownVotes := c.ownVotes.keysFrom
        (Word.subSat c.finalizedHeight c.consensus.voteRetentionHeights) } : Chain).Coherent := by
    refine ⟨h.pending, fun p hp => ?_, h.accounting, h.behind, h.agrees⟩
    obtain ⟨vs, v, hget, hsel, haddr⟩ := h.proposers p hp
    exact ⟨vs, v, (KeyMap.get?_keysFrom_of_le _ (hfloor p hp)).trans hget, hsel, haddr⟩
  exact hs.withFinality (show c.finality.apply (.prune c.consensus.voteRetentionHeights) =
    .ok (c.finality.prune c.consensus.voteRetentionHeights, false) from rfl)

/-- A chain part way through writing its pending blocks up to the final block of `c`'s tracker,
with `m` writes left. It keeps `c`'s tracker, parameters and snapshots and the pending chain's
part of the invariant, and its final height lies between `c`'s and the tracker's. After the last
write it holds the tracker's final block; before it, that block waits as the `m`-th pending
block. -/
structure Draining (c : Chain) (m : Nat) (d : Chain) : Prop where
  finality : d.finality = c.finality
  params : d.params = c.params
  snapshots : d.snapshots = c.snapshots
  pending : d.finalTip.Extends d.params d.pending
  proposers : ∀ p ∈ d.pending, ProposedBy d.snapshots p
  above : c.finalizedHeight.toNat ≤ d.finalizedHeight.toNat
  below : d.finalizedHeight.toNat ≤ c.finality.finalizedHeight.toNat
  done : m = 0 → d.finalizedHeight = c.finality.finalizedHeight ∧
    d.finalizedHash = c.finality.finalizedHash
  waiting : ∀ k, m = k + 1 → ∃ q, d.pending[k]? = some q ∧
    q.block.height = c.finality.finalizedHeight ∧ q.hash = c.finality.finalizedHash

/-- Writing the oldest pending block is one write closer: the tracker's block moves one place
forward, or was the block written. -/
theorem Draining.commitOldest {m : Nat} {d d' : Chain} (hP : c.Draining (m + 1) d)
    (hcommit : d.commitOldest c.finality.finalizedHeight
      (c.finality.certificate c.finality.finalizedHeight) = .ok d') : c.Draining m d' := by
  obtain ⟨q, hq, hqF, hqhash⟩ := hP.waiting m rfl
  have hext := hP.pending
  have hprop := hP.proposers
  rcases commitOldest_eq_ok hcommit with ⟨hnil, -⟩ | ⟨p, rest, store, hcons, -, rfl⟩
  · rw [hnil] at hq
    cases hq
  rw [hcons] at hext hprop hq
  obtain ⟨hpre, hrest⟩ := hext
  obtain ⟨hqlt, hqget⟩ := List.getElem?_eq_some_iff.mp hq
  have hqh : (p :: rest)[m].block.height.toNat = d.finalTip.height.toNat + m + 1 :=
    (Tip.extends_cons.mpr ⟨hpre, hrest⟩).height_getElem m hqlt
  rw [hqget] at hqh
  have hph : p.block.height.toNat = d.finalTip.height.toNat + 1 := hpre.2.1
  have hqF' := congrArg UInt64.toNat hqF
  have hlo := hP.above
  refine ⟨hP.finality, hP.params, hP.snapshots, hrest,
    fun x hx => hprop x (List.mem_cons_of_mem _ hx), ?_, ?_, ?_, ?_⟩
  · show c.finalizedHeight.toNat ≤ p.block.height.toNat
    simp only [finalTip] at hph
    omega
  · show p.block.height.toNat ≤ c.finality.finalizedHeight.toNat
    omega
  · rintro rfl
    cases hqget
    exact ⟨hqF, hqhash⟩
  · rintro k rfl
    exact ⟨q, hq, hqF, hqhash⟩

/-- Before the last write the tracker's block is still pending, above the final height. -/
theorem Draining.waiting_mem {m k : Nat} {d : Chain} (hP : c.Draining m d) (hk : m = k + 1) :
    ∃ q ∈ d.pending, q.block.height = c.finality.finalizedHeight ∧
      q.hash = c.finality.finalizedHash ∧ d.finalizedHeight ≠ c.finality.finalizedHeight := by
  obtain ⟨q, hq, hqF, hqhash⟩ := hP.waiting k hk
  have hmem := List.mem_of_getElem? hq
  have hlt := hP.pending.height_lt hmem
  refine ⟨q, hmem, hqF, hqhash, fun heq => ?_⟩
  simp only [finalTip, heq, hqF] at hlt
  omega

/-- A coherent chain part way through its writes is still coherent: its final block is the
tracker's once all writes are done, and below the tracker's before. -/
theorem Draining.coherent {m : Nat} {d : Chain} (h : c.Coherent) (hP : c.Draining m d) :
    d.Coherent := by
  refine ⟨hP.pending, hP.proposers, hP.finality ▸ h.accounting, ?_, fun heq => ?_⟩
  · rw [hP.finality, UInt64.le_iff_toNat_le]
    exact hP.below
  · rw [hP.finality] at heq ⊢
    cases m with
    | zero => exact (hP.done rfl).2
    | succ k =>
      obtain ⟨q, -, -, -, hne⟩ := hP.waiting_mem rfl
      exact absurd heq hne

theorem Draining.onTrackerChain {m : Nat} {d : Chain} (hP : c.Draining m d) :
    d.OnTrackerChain := by
  unfold OnTrackerChain
  rw [hP.finality]
  cases m with
  | zero => exact .inl (hP.done rfl)
  | succ k =>
    obtain ⟨q, hq, hqF, hqhash, -⟩ := hP.waiting_mem rfl
    exact .inr ⟨q, hq, hqF, hqhash⟩

/-- Committing keeps the invariant and never lowers the final height; a commit that raises it
leaves the final block on the tracker's chain. -/
theorem Coherent.tryCommit (h : c.Coherent) :
    c.tryCommit.1.Coherent ∧ c.finalizedHeight ≤ c.tryCommit.1.finalizedHeight ∧
      (c.finalizedHeight < c.tryCommit.1.finalizedHeight → c.tryCommit.1.OnTrackerChain) := by
  rcases tryCommit_cases c with heq | ⟨idx, st, hgt, hidx, hne, heq⟩ | ⟨idx, hgt, hidx, hhash, hres⟩
  · rw [heq]
    exact ⟨h, UInt64.le_refl _, fun hlt => absurd hlt (UInt64.lt_irrefl _)⟩
  · -- the local fork is dropped: the blocks kept are below the tracker's final height
    obtain ⟨hidxlt, hpidx, -⟩ := List.findIdx?_eq_some_iff_getElem.mp hidx
    have hF : c.pending[idx].block.height = c.finality.finalizedHeight := by simpa using hpidx
    rw [heq]
    refine ⟨⟨h.pending.take idx, fun p hp => ?_, h.accounting, h.behind, h.agrees⟩,
      UInt64.le_refl _, fun hlt => absurd hlt (UInt64.lt_irrefl _)⟩
    obtain ⟨j, hj, rfl⟩ := List.mem_take_iff_getElem.mp hp
    have hjlt : j < idx := lt_of_lt_of_le hj (Nat.min_le_left _ _)
    have hlt : c.pending[j].block.height.toNat < c.finality.finalizedHeight.toNat := by
      rw [← hF, h.pending.height_getElem j, h.pending.height_getElem idx hidxlt]
      omega
    obtain ⟨vs, v, hget, hsel, haddr⟩ := h.proposers _ (List.getElem_mem _)
    refine ⟨vs, v, ?_, hsel, haddr⟩
    show (c.snapshots.filter fun k _ => decide (k ≤ c.finality.finalizedHeight)).get? _ = _
    rw [KeyMap.get?_filter _ (fun k => decide (k ≤ c.finality.finalizedHeight)), if_pos]
    · exact hget
    · simpa [UInt64.le_iff_toNat_le] using Nat.le_of_lt hlt
  · obtain ⟨hidxlt, hpidx, -⟩ := List.findIdx?_eq_some_iff_getElem.mp hidx
    have hFidx : c.pending[idx].block.height = c.finality.finalizedHeight := by simpa using hpidx
    have hHidx : c.pending[idx].hash = c.finality.finalizedHash := by
      rw [List.head?_drop, List.getElem?_eq_getElem hidxlt] at hhash
      simpa using hhash
    -- the writes start with the tracker's block as the `idx`-th pending block
    have hstart : c.Draining (idx + 1) c :=
      ⟨rfl, rfl, rfl, h.pending, h.proposers, le_refl _, UInt64.le_iff_toNat_le.mp h.behind, nofun,
        fun k hk => ⟨c.pending[idx], by rw [← Nat.succ.inj hk, List.getElem?_eq_getElem hidxlt],
          hFidx, hHidx⟩⟩
    obtain ⟨m, hP, hm⟩ :=
      commitOldestN_induction c.Draining (fun _ _ _ => Draining.commitOldest) (idx + 1) c hstart
    generalize commitOldestN c.finality.finalizedHeight
      (c.finality.certificate c.finality.finalizedHeight) (idx + 1) c = r at hP hm hres
    have hle : c.finalizedHeight ≤ r.1.finalizedHeight := UInt64.le_iff_toNat_le.mpr hP.above
    rcases hres with ⟨e, -, heq⟩ | ⟨hok, heq⟩
    · rw [heq]
      exact ⟨hP.coherent h, hle, fun _ => hP.onTrackerChain⟩
    · -- a complete commit wrote the tracker's block, and pruning keeps the tracker's final block
      obtain rfl := hm hok
      rw [heq]
      refine ⟨(hP.coherent h).pruneRetained, hle, fun _ => .inl ?_⟩
      show r.1.finalizedHeight = (r.1.finality.prune _).finalizedHeight ∧
        r.1.finalizedHash = (r.1.finality.prune _).finalizedHash
      rw [hP.finality]
      exact hP.done rfl

/-- The tracker of an opened chain: started final at the chain's final block, with a stored
certificate restored or not, then given the snapshot of the next height. -/
theorem Opened.tracker (h : c.Opened) : ∃ (restored : FinalityManager) (i : FinalityInput) (fin : Bool),
    restored.Accounting ∧
    restored.finalizedHeight = c.finalizedHeight ∧ restored.finalizedHash = c.finalizedHash ∧
    (∀ cert, i ≠ .restore cert) ∧ restored.apply i = .ok (c.finality, fin) := by
  obtain ⟨cfg, kv, signer, hopen⟩ := h
  obtain ⟨store, ledger, tip, restored, next, fm, fin, -, hrestored, -, hreg, rfl⟩ :=
    ofStore_eq_ok hopen
  refine ⟨restored, .register (ledger.validatorSet next cfg.ledgerParams.minValidatorStake), fin,
    ?_, ?_, ?_, nofun, hreg⟩
  all_goals rcases hrestored with rfl | ⟨cert, rfl⟩
  · exact FinalityManager.accounting_init _ _
  · have happ : (FinalityManager.init tip.height tip.hash).apply (.restore cert) =
        .ok ((FinalityManager.init tip.height tip.hash).restoreCertificate cert, false) := rfl
    exact (FinalityManager.apply_spec (FinalityManager.accounting_init _ _) happ).1
  all_goals rfl

/-- An opened chain has no pending block, and its tracker is final at the chain's final block
or above it. -/
theorem Coherent.opened (h : c.Opened) : c.Coherent := by
  have hnil : c.pending = [] := by
    obtain ⟨cfg, kv, signer, hopen⟩ := h
    obtain ⟨-, -, -, -, -, -, -, -, -, -, -, rfl⟩ := ofStore_eq_ok hopen
    rfl
  obtain ⟨restored, i, fin, hacc, hF, hhash, -, happ⟩ := h.tracker
  obtain ⟨hle, hagree⟩ := FinalityManager.ahead_apply hacc happ (F := c.finalizedHeight)
    (H := c.finalizedHash) (by rw [hF]; exact UInt64.le_refl _) (fun _ => hhash.symm)
  refine ⟨?_, ?_, (FinalityManager.apply_spec hacc happ).1, hle, hagree⟩
  · rw [hnil]
    trivial
  · rw [hnil]
    exact fun p hp => absurd hp List.not_mem_nil

/-- The local vote, when it is cast, keeps the invariant and the final height. -/
theorem Coherent.ownVote (h : c.Coherent) {height : UInt64} {hash : Digest}
    {voters : Option ValidatorSet} {c' : Chain}
    (hvote : (ChainM.ownVote height hash voters).runOn c = .ok (.ok (), c')) :
    c'.Coherent ∧ c'.finalizedHeight = c.finalizedHeight := by
  rcases (ChainM.ownVote_cases hvote).2 with rfl | ⟨signer, -, -, -, -, -, hcast⟩
  · exact ⟨h, rfl⟩
  obtain ⟨fm, res, hrec, -, rfl⟩ := ChainM.castVote_state hcast
  have h₀ : ({ c with ownVotes := c.ownVotes.insert height hash } : Chain).Coherent :=
    h.frame rfl rfl rfl rfl rfl rfl rfl
  have h₁ := h₀.setStatus hash .voted
  exact ⟨(h₁.withFinality (FinalityManager.apply_vote hrec)).emit _, rfl⟩

/-- A validated block made pending, with the next snapshot registered and the local vote cast
when due, keeps the invariant and the final height once the tracker's evidence is forwarded. -/
theorem Coherent.accepted (h : c.Coherent) {b : Block} {outcome : BlockOutcome} {next : UInt64}
    {fm : FinalityManager} {fin : Bool} {c₃ : Chain}
    (hval : (ChainM.validate b b.hash).runOn c = .ok (.ok outcome, c))
    (hnext : Word.addStrict b.height 1 = .ok next)
    (hreg : c.finality.registerValidatorSet
      (outcome.ledger.validatorSet next c.params.minValidatorStake) = .ok (fm, fin))
    (hvote : (ChainM.ownVote b.height b.hash (c.snapshots.get? b.height)).runOn
      { ({ c with
            snapshots := c.snapshots.insert next
              (outcome.ledger.validatorSet next c.params.minValidatorStake)
            pending := c.pending ++ [({ block := b, hash := b.hash, outcome := outcome } :
              PendingBlock)] }.setStatus b.hash .validated) with
        finality := fm } = .ok (.ok (), c₃)) :
    c₃.forwardFinalityEvidence.Coherent ∧
      c₃.forwardFinalityEvidence.finalizedHeight = c.finalizedHeight := by
  rcases ChainM.validate_cases hval with
    ⟨o, ho, -, hheight, hparent, hts, hprop, hver⟩ | ⟨_, hr, -⟩ | ⟨_, hr, -⟩
  · cases ho
    have h₀ : ({ c with
        snapshots := c.snapshots.insert next (outcome.ledger.validatorSet next c.params.minValidatorStake)
        pending := c.pending ++ [({ block := b, hash := b.hash, outcome := outcome } : PendingBlock)] } :
          Chain).Coherent :=
      h.accept hheight hparent hts hprop hver (by rw [Word.addStrict_eq_ok hnext, UInt64.toNat_one])
    have h₁ := (h₀.setStatus b.hash .validated).withFinality (i := .register _) hreg
    obtain ⟨h₃, hF₃⟩ := h₁.ownVote hvote
    obtain ⟨sl, hsl⟩ := forwardFinalityEvidence_eq c₃
    refine ⟨h₃.forwardFinalityEvidence, ?_⟩
    rw [hsl]
    exact hF₃
  · nomatch hr
  · nomatch hr

/-- An accepted block keeps the invariant up to the commit, and the final height with it. -/
theorem Coherent.acceptBlock (h : c.Coherent) {b : Block} {outcome : BlockOutcome}
    {r : Except ChainError BlockStatus} {c' : Chain}
    (hval : (ChainM.validate b b.hash).runOn c = .ok (.ok outcome, c))
    (hacc : (ChainM.acceptBlock b b.hash outcome).runOn c = .ok (r, c')) :
    ∃ d : Chain, d.Coherent ∧ d.finalizedHeight = c.finalizedHeight ∧ c' = d.tryCommit.1 := by
  obtain ⟨next, fm, fin, c₃, hnext, hreg, hvote, rfl⟩ := ChainM.acceptBlock_cases hacc
  obtain ⟨hd, hF⟩ := h.accepted hval hnext hreg hvote
  exact ⟨c₃.forwardFinalityEvidence, hd, hF, rfl⟩

/-- A commit after changes that kept the final height: the step never lowers it, and a raised
final block is on the tracker's chain. -/
theorem Coherent.advance_tryCommit {d : Chain} (h : d.Coherent)
    (hF : d.finalizedHeight = c.finalizedHeight) :
    d.tryCommit.1.Coherent ∧ c.finalizedHeight ≤ d.tryCommit.1.finalizedHeight ∧
      (c.finalizedHeight < d.tryCommit.1.finalizedHeight → d.tryCommit.1.OnTrackerChain) := by
  rw [← hF]
  exact h.tryCommit

/-- Every input keeps the invariant and never lowers the final height; an input that raises it
leaves the new final block on the tracker's chain. -/
theorem Coherent.step (h : c.Coherent) {i : ChainInput} {c' : Chain} (hs : c.step i = .ok c') :
    c'.Coherent ∧ c.finalizedHeight ≤ c'.finalizedHeight ∧
      (c.finalizedHeight < c'.finalizedHeight → c'.OnTrackerChain) := by
  have hkeep : ∀ d : Chain, d = c' → d.Coherent → d.finalizedHeight = c.finalizedHeight →
      c'.Coherent ∧ c.finalizedHeight ≤ c'.finalizedHeight ∧
        (c.finalizedHeight < c'.finalizedHeight → c'.OnTrackerChain) := by
    rintro d rfl hd hF
    rw [hF]
    exact ⟨hd, UInt64.le_refl _, fun hlt => absurd hlt (UInt64.lt_irrefl _)⟩
  cases i with
  | submit tx =>
    obtain ⟨r, hrun⟩ := step_eq_ok hs
    exact hkeep _ (ChainM.submit_state hrun).symm (h.frame rfl rfl rfl rfl rfl rfl rfl) rfl
  | propose kp ts =>
    obtain ⟨r, hrun⟩ := step_eq_ok hs
    rcases ChainM.propose_state hrun with rfl | ⟨d, rfl⟩
    · exact hkeep _ rfl h rfl
    · exact hkeep _ rfl (h.setStatus _ _) rfl
  | block b =>
    obtain ⟨r, hrun⟩ := step_eq_ok hs
    rcases ChainM.receiveBlock_cases hrun with ⟨d, hd, hc'⟩ | ⟨outcome, hval, hacc⟩
    · -- a refused block: evidence, perhaps a revert, perhaps a mark; the final block stays
      have hdc : d.Coherent ∧ d.finalizedHeight = c.finalizedHeight := by
        rcases hd with rfl | ⟨ev, rfl | rfl⟩
        · exact ⟨h, rfl⟩
        · exact ⟨h.submitEvidence ev, rfl⟩
        · obtain ⟨st, hst⟩ := revertToFinalized_eq (c.submitEvidence ev).1
          refine ⟨(h.submitEvidence ev).revertToFinalized, ?_⟩
          rw [hst]
          rfl
      rcases hc' with rfl | rfl
      · exact hkeep _ rfl hdc.1 hdc.2
      · exact hkeep _ rfl (hdc.1.setStatus _ _) hdc.2
    · obtain ⟨d, hd, hF, rfl⟩ := h.acceptBlock hval hacc
      exact hd.advance_tryCommit hF
  | vote v =>
    obtain ⟨r, hrun⟩ := step_eq_ok hs
    obtain ⟨fm, res, hrec, hcases⟩ := ChainM.receiveVote_cases hrun
    have hd := (h.withFinality (FinalityManager.apply_vote hrec)).forwardFinalityEvidence
    obtain ⟨sl, hsl⟩ := forwardFinalityEvidence_eq { c with finality := fm }
    have hF : (Chain.forwardFinalityEvidence { c with finality := fm }).finalizedHeight =
        c.finalizedHeight := by
      rw [hsl]
      rfl
    rcases hcases with ⟨-, rfl⟩ | ⟨-, rfl⟩
    · exact hkeep _ rfl hd hF
    · exact hd.advance_tryCommit hF
  | evidence e =>
    obtain ⟨r, hrun⟩ := step_eq_ok hs
    exact hkeep _ (ChainM.receiveEvidence_state hrun).symm (h.submitEvidence e) rfl
  | failWrites on =>
    cases hs
    exact hkeep _ rfl (h.frame rfl rfl rfl rfl rfl rfl rfl) rfl

end Coherent

/-- Every chain a run reaches is coherent. -/
theorem Reachable.coherent {c : Chain} (hr : c.Reachable) : c.Coherent :=
  Reachable.induction (fun _ h => Coherent.opened h) (fun _ _ _ h hs => (h.step hs).1) hr

end Chain

/-- The structure of every chain a run reaches. The pending blocks extend the final block one
height at a time. Each links to the hash of the block before it and is not earlier than it. Each
was executed from the previous ledger to the outcome it holds, and was proposed by the proposer
that the snapshot stored for its height selects. The chain's final height is at most the
tracker's, and where the two are equal the final blocks are the same. No input lowers the final
height. An input that raises it leaves the new final block equal to the tracker's final block or
below a pending block that carries it. -/
theorem pending_blocks_extend_finalized {c : Chain} (hr : c.Reachable) :
    c.finalTip.Extends c.params c.pending ∧
    (∀ p ∈ c.pending, Chain.ProposedBy c.snapshots p) ∧
    c.finalizedHeight ≤ c.finality.finalizedHeight ∧
    (c.finalizedHeight = c.finality.finalizedHeight → c.finalizedHash = c.finality.finalizedHash) ∧
    ∀ i c', c.step i = .ok c' → c.finalizedHeight ≤ c'.finalizedHeight ∧
      (c.finalizedHeight < c'.finalizedHeight → c'.OnTrackerChain) := by
  have h := hr.coherent
  exact ⟨h.pending, h.proposers, h.behind, h.agrees, fun _ _ hs => (h.step hs).2⟩

/-- The devnet's node, once it has committed its first block, meets the guarantee. -/
theorem pending_blocks_extend_finalized_after_commit :
    soloCommitted.Reachable ∧ soloCommitted.finalizedHeight = 1 ∧
    (soloCommitted.finalTip.Extends soloCommitted.params soloCommitted.pending ∧
    (∀ p ∈ soloCommitted.pending, Chain.ProposedBy soloCommitted.snapshots p) ∧
    soloCommitted.finalizedHeight ≤ soloCommitted.finality.finalizedHeight ∧
    (soloCommitted.finalizedHeight = soloCommitted.finality.finalizedHeight →
      soloCommitted.finalizedHash = soloCommitted.finality.finalizedHash) ∧
    ∀ i c', soloCommitted.step i = .ok c' → soloCommitted.finalizedHeight ≤ c'.finalizedHeight ∧
      (soloCommitted.finalizedHeight < c'.finalizedHeight → c'.OnTrackerChain)) :=
  ⟨soloCommitted_reachable, soloCommitted_finalizedHeight,
    pending_blocks_extend_finalized soloCommitted_reachable⟩

end StakeChain

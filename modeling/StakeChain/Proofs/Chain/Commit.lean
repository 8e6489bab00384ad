import StakeChain.Proofs.Chain.Inputs

/-!
# What committing does

Committing works through the pending blocks one at a time. `commitOldest_eq_ok` states the
whole chain after one written block: the block leaves the pending list and becomes the final
block with its ledger. The evidence pool records its penalties. The chain reports one
`penalized` event per applied penalty (`penaltyRecords`) and then the block, with the
certificate when the block is at the certified height. `commitOldestN_induction` carries a
property along the blocks written before the first failed write. `tryCommit_cases` separates
the three things `tryCommit` can do: nothing, drop a local fork, or commit up to the tracker's
final height and then prune (`pruneRetained`).
-/

set_option autoImplicit false

namespace StakeChain

namespace Chain

/-- The penalty records of a block committed at `height`: one per applied penalty, in the
block's order. -/
def penaltyRecords (height : UInt64) (ps : List (Evidence × PenaltyOutcome)) : List PenaltyRecord :=
  ps.filterMap fun (e, o) =>
    match o with
    | .applied offender slashed newStake jailedUntil =>
      some ⟨e.id, offender, height, slashed, newStake, jailedUntil⟩
    | .alreadyApplied .. => none

/-- The evidence pool after recording a committed block's penalties. -/
def recordedSlashing (m : SlashingManager) (ps : List (Evidence × PenaltyOutcome)) :
    SlashingManager :=
  ps.foldl (fun m (e, o) => m.recordCommitted e o) m

/-- One penalty of a committed block, recorded with the evidence pool. -/
def recordPenalty (height : UInt64) (acc : Chain × List PenaltyRecord) :
    Evidence × PenaltyOutcome → Chain × List PenaltyRecord
  | (e, o) =>
    let c := { acc.1 with slashing := acc.1.slashing.recordCommitted e o }
    match o with
    | .applied offender slashed newStake jailedUntil =>
      (c, acc.2 ++ [⟨e.id, offender, height, slashed, newStake, jailedUntil⟩])
    | .alreadyApplied .. => (c, acc.2)

theorem foldl_recordPenalty (height : UInt64) :
    ∀ (ps : List (Evidence × PenaltyOutcome)) (c : Chain) (rs : List PenaltyRecord),
      ps.foldl (recordPenalty height) (c, rs) =
        ({ c with slashing := recordedSlashing c.slashing ps }, rs ++ penaltyRecords height ps)
  | [], c, rs => by simp [recordedSlashing, penaltyRecords]
  | (e, o) :: ps, c, rs => by
    rw [List.foldl_cons]
    cases o with
    | applied offender slashed newStake jailedUntil =>
      rw [show recordPenalty height (c, rs) (e, .applied offender slashed newStake jailedUntil) =
        ({ c with slashing := c.slashing.recordCommitted e (.applied offender slashed newStake jailedUntil) },
          rs ++ [⟨e.id, offender, height, slashed, newStake, jailedUntil⟩]) from rfl,
        foldl_recordPenalty height ps]
      simp [recordedSlashing, penaltyRecords]
    | alreadyApplied offender stake =>
      rw [show recordPenalty height (c, rs) (e, .alreadyApplied offender stake) =
        ({ c with slashing := c.slashing.recordCommitted e (.alreadyApplied offender stake) }, rs) from rfl,
        foldl_recordPenalty height ps]
      simp [recordedSlashing, penaltyRecords]

/-- Recording a block's penalties touches the evidence pool only, and gives the records of the
applied ones. -/
theorem recordPenalties_eq (c : Chain) (height : UInt64) (ps : List (Evidence × PenaltyOutcome)) :
    c.recordPenalties height ps =
      ({ c with slashing := recordedSlashing c.slashing ps }, penaltyRecords height ps) :=
  foldl_recordPenalty height ps c []

theorem foldl_emit_penalized :
    ∀ (rs : List PenaltyRecord) (c : Chain),
      rs.foldl (fun c r => c.emit (.penalized r)) c =
        { c with events := c.events ++ rs.map ChainEvent.penalized }
  | [], c => by simp
  | r :: rs, c => by
    rw [List.foldl_cons, foldl_emit_penalized rs]
    simp [emit]

/-- Writing the oldest pending block: when there is one and the store takes the batch, the
block becomes the final one with its ledger, and the chain reports its applied penalties and
then the block, with the certificate if it is at the certified height. -/
theorem commitOldest_eq_ok {c c' : Chain} {certified : UInt64} {cert : Option Certificate}
    (h : c.commitOldest certified cert = .ok c') :
    (c.pending = [] ∧ c' = c) ∨
    ∃ p rest store, c.pending = p :: rest ∧
      c.store.commitBlock p.block (if p.block.height = certified then cert else none)
        p.outcome.ledger c.ledger = .ok store ∧
      c' = { c with
        store := store, pending := rest, ledger := p.outcome.ledger,
        finalized := p.block.signedHeader, finalizedHash := p.hash,
        recentHeaders := c.recentHeaders.insert p.block.height p.block.signedHeader,
        statuses := c.statuses.put p.hash .finalized,
        mempool := c.mempool.onFinalized p.block.height p.outcome.ledger,
        slashing := recordedSlashing c.slashing p.outcome.penalties,
        events := c.events ++ (penaltyRecords p.block.height p.outcome.penalties).map .penalized ++
          [.finalized p.block (if p.block.height = certified then cert else none)] } := by
  unfold commitOldest at h
  split at h
  · rename_i hnil
    cases h
    exact .inl ⟨hnil, rfl⟩
  · rename_i p rest hcons
    dsimp only at h
    split at h
    · cases h
    · rename_i store hstore
      rw [recordPenalties_eq] at h
      dsimp only at h
      rw [foldl_emit_penalized] at h
      cases h
      exact .inr ⟨p, rest, store, hcons, hstore, rfl⟩

/-- A property of the chain that every written block moves one block down carries along a run
of `commitOldestN`: after the blocks written before the first failure, it holds with as many
blocks left as were not written, and with none left when all were written. -/
theorem commitOldestN_induction {certified : UInt64} {cert : Option Certificate}
    (P : Nat → Chain → Prop)
    (hstep : ∀ n c c', P (n + 1) c → c.commitOldest certified cert = .ok c' → P n c') :
    ∀ (n : Nat) (c : Chain), P n c → ∃ m, P m (commitOldestN certified cert n c).1 ∧
      ((commitOldestN certified cert n c).2 = .ok () → m = 0)
  | 0, c, hc => ⟨0, hc, fun _ => rfl⟩
  | n + 1, c, hc => by
    unfold commitOldestN
    split
    · exact ⟨n + 1, hc, nofun⟩
    · rename_i c' hc'
      exact commitOldestN_induction P hstep n c' (hstep n c c' hc hc')

/-- The chain after a complete commit: snapshots, headers and own votes below the retention
window are dropped, and the tracker keeps the window too. -/
def pruneRetained (c : Chain) : Chain :=
  let retain := c.consensus.voteRetentionHeights
  let floor := Word.subSat c.finalizedHeight retain
  { c with snapshots := c.snapshots.keysFrom floor, recentHeaders := c.recentHeaders.keysFrom floor,
           ownVotes := c.ownVotes.keysFrom floor, finality := c.finality.prune retain }

/-- Marking blocks leaves everything but the marks. -/
theorem foldl_setStatus_eq {α : Type} (f : α → Digest) (s : BlockStatus) :
    ∀ (xs : List α) (c : Chain), ∃ st, xs.foldl (fun c x => c.setStatus (f x) s) c =
      { c with statuses := st }
  | [], c => ⟨c.statuses, rfl⟩
  | x :: xs, c => by
    obtain ⟨st, hst⟩ := foldl_setStatus_eq f s xs (c.setStatus (f x) s)
    exact ⟨st, hst⟩

/-- Submitting evidence, one piece after another, touches the evidence pool only. -/
theorem foldl_submitEvidence_eq :
    ∀ (es : List Evidence) (c : Chain), ∃ sl, es.foldl (fun c e => (c.submitEvidence e).1) c =
      { c with slashing := sl }
  | [], c => ⟨c.slashing, rfl⟩
  | e :: es, c => by
    obtain ⟨sl, hsl⟩ := foldl_submitEvidence_eq es (c.submitEvidence e).1
    exact ⟨sl, hsl⟩

/-- Forwarding the tracker's evidence empties the tracker's list and touches the evidence pool
only. -/
theorem forwardFinalityEvidence_eq (c : Chain) : ∃ sl, c.forwardFinalityEvidence =
    { c with finality := c.finality.takeEvidence.1, slashing := sl } := by
  unfold forwardFinalityEvidence FinalityManager.takeEvidence
  exact foldl_submitEvidence_eq _ _

/-- Reverting to the final block drops the pending blocks, marking them, and the snapshots
beyond the next height. -/
theorem revertToFinalized_eq (c : Chain) : ∃ st, c.revertToFinalized =
    { c with pending := [], statuses := st,
             snapshots := c.snapshots.filter fun k _ => k.toNat < c.finalizedHeight.toNat + 2 } := by
  obtain ⟨st, hst⟩ := foldl_setStatus_eq PendingBlock.hash .rejected c.pending { c with pending := [] }
  refine ⟨st, ?_⟩
  unfold revertToFinalized
  dsimp only
  rw [hst]
  rfl

/-- What committing does: nothing; or, when the tracker finalized another block than the
pending one at its final height, drop the local fork from that height and the snapshots above
it; or write the pending blocks up to that height, stopping at the first failed write, and
prune after a complete commit. -/
theorem tryCommit_cases (c : Chain) :
    c.tryCommit.1 = c ∨
    (∃ idx st, c.finalizedHeight < c.finality.finalizedHeight ∧
      c.pending.findIdx? (fun p => p.block.height = c.finality.finalizedHeight) = some idx ∧
      (c.pending.drop idx).head?.map PendingBlock.hash ≠ some c.finality.finalizedHash ∧
      c.tryCommit.1 = { c with
        pending := c.pending.take idx
        statuses := st
        snapshots := c.snapshots.filter fun k _ => k ≤ c.finality.finalizedHeight }) ∨
    (∃ idx, c.finalizedHeight < c.finality.finalizedHeight ∧
      c.pending.findIdx? (fun p => p.block.height = c.finality.finalizedHeight) = some idx ∧
      (c.pending.drop idx).head?.map PendingBlock.hash = some c.finality.finalizedHash ∧
      ((∃ e, (commitOldestN c.finality.finalizedHeight
          (c.finality.certificate c.finality.finalizedHeight) (idx + 1) c).2 = .error e ∧
        c.tryCommit.1 = (commitOldestN c.finality.finalizedHeight
          (c.finality.certificate c.finality.finalizedHeight) (idx + 1) c).1) ∨
       ((commitOldestN c.finality.finalizedHeight
          (c.finality.certificate c.finality.finalizedHeight) (idx + 1) c).2 = .ok () ∧
        c.tryCommit.1 = (commitOldestN c.finality.finalizedHeight
          (c.finality.certificate c.finality.finalizedHeight) (idx + 1) c).1.pruneRetained))) := by
  unfold tryCommit
  dsimp only
  split
  · exact .inl rfl
  rename_i hgt
  split
  · exact .inl rfl
  rename_i idx hidx
  split
  · rename_i hne
    obtain ⟨st, hst⟩ := foldl_setStatus_eq PendingBlock.hash .rejected (c.pending.drop idx)
      { c with pending := c.pending.take idx }
    refine .inr (.inl ⟨idx, st, UInt64.not_le.mp hgt, hidx, hne, ?_⟩)
    rw [hst]
  · rename_i heq
    refine .inr (.inr ⟨idx, UInt64.not_le.mp hgt, hidx, not_not.mp heq, ?_⟩)
    split
    · rename_i c' e hrun
      rw [hrun]
      exact .inl ⟨e, rfl, rfl⟩
    · rename_i c' hrun
      rw [hrun]
      exact .inr ⟨rfl, rfl⟩

end Chain

end StakeChain

import StakeChain.Proofs.Chain.OwnVotes
import StakeChain.Proofs.Store.Mirror

/-!
# Receiving a block again

A node answers a block it has a status for with that status, and leaves the chain as it is.
A block it has no status for, or only `Proposed`, is validated afresh, and a refusal marks it
`Rejected` unless the refusal only reflects the current head (`receiveBlock_of_refusal`).

The statuses are a cache of the 4096 most recently touched blocks, and an opened chain knows
only its tip (`Opened.blockStatus`, `Opened.headerAt`).  A final block that has left the cache
is validated afresh when it comes again: it is at or below the final height, so the answer is
`AlreadyFinalized`, and that refusal does not depend on the head, so the final block is marked
`Rejected` (`final_block_redelivery_rejected`).

Refusals leave no other trace: a refused block changes at most its own status
(`receiveBlock_refusal_and_redelivery`).  Receiving a block twice in a row changes nothing the
second time.  After a refusal, the block is marked `Rejected` or the chain is as it was.  After
an acceptance, the block holds a status other than `Proposed`, or it is still the newest
pending block (`acceptBlock_settles`), whose second validation fails on the head
(`receiveBlock_newest_pending`).  Both need the cache to keep room for a status, which every
reachable chain does (`Chain.Reachable.capacity`).
-/

set_option autoImplicit false

namespace StakeChain

/-- Whether a refusal only reflects the receiving node's head: such a block gets no mark, so it
is validated afresh once its parent arrives. -/
def ChainError.dependsOnHead : ChainError → Bool
  | .block e => e.dependsOnHead
  | _ => false

namespace Chain

variable {c : Chain}

/-- A status just put is read back, in a cache with room for one. -/
theorem blockStatus_setStatus_of_pos (hcap : 0 < c.statuses.capacity) (h : Digest)
    (s : BlockStatus) : (c.setStatus h s).blockStatus h = some s :=
  RecentMap.peek?_put_self_of_pos c.statuses h s hcap

@[simp] theorem capacity_setStatus (h : Digest) (s : BlockStatus) :
    (c.setStatus h s).statuses.capacity = c.statuses.capacity := rfl

theorem capacity_foldl_setStatus {α : Type} (f : α → Digest) (s : BlockStatus) :
    ∀ (xs : List α) (c : Chain),
      (xs.foldl (fun c x => c.setStatus (f x) s) c).statuses.capacity = c.statuses.capacity
  | [], _ => rfl
  | x :: xs, c => capacity_foldl_setStatus f s xs (c.setStatus (f x) s)

/-- Of blocks marked one after another, the last holds its mark. -/
theorem blockStatus_foldl_setStatus_last {α : Type} (f : α → Digest) (s : BlockStatus)
    (xs : List α) (x : α) (hcap : 0 < c.statuses.capacity) :
    ((xs ++ [x]).foldl (fun c y => c.setStatus (f y) s) c).blockStatus (f x) = some s := by
  rw [List.foldl_append, List.foldl_cons, List.foldl_nil]
  apply blockStatus_setStatus_of_pos
  rw [capacity_foldl_setStatus]
  exact hcap

/-- No double proposal is found when the header held at the block's height, if any, has the
block's hash. -/
theorem doubleProposal_eq_none {b : Block} {hash : Digest}
    (h : ∀ sh, c.headerAt b.height = some sh → sh.hash = hash) : c.doubleProposal b hash = none := by
  unfold doubleProposal
  cases hheader : c.headerAt b.height with
  | none => rfl
  | some sh => simp [h sh hheader]

/-! ## What an opened chain remembers -/

/-- An opened chain has no pending block, knows the status of its tip only, in a cache of
4096, and holds the header of its tip only. -/
theorem Opened.fresh (hopen : c.Opened) :
    c.pending = [] ∧
      c.statuses = ({ capacity := 4096 } : RecentMap Digest BlockStatus).put c.finalizedHash .finalized ∧
      c.recentHeaders = KeyMap.empty.insert c.finalizedHeight c.finalized := by
  obtain ⟨cfg, kv, signer, h⟩ := hopen
  obtain ⟨store, ledger, tip, restored, next, fm, fin, _hres, _hrestored, _hnext, _hreg, rfl⟩ :=
    ofStore_eq_ok h
  exact ⟨rfl, rfl, rfl⟩

theorem Opened.blockStatus (hopen : c.Opened) (hash : Digest) :
    c.blockStatus hash = if hash = c.finalizedHash then some .finalized else none := by
  unfold Chain.blockStatus
  rw [hopen.fresh.2.1]
  by_cases hh : hash = c.finalizedHash
  · subst hh
    simp [RecentMap.put, RecentMap.peek?]
  · simp [RecentMap.put, RecentMap.peek?, hh, Ne.symm hh]

theorem Opened.headerAt (hopen : c.Opened) (k : UInt64) :
    c.headerAt k = if k = c.finalizedHeight then some c.finalized else none := by
  unfold Chain.headerAt pendingAt
  rw [hopen.fresh.1, hopen.fresh.2.2]
  simp only [List.find?_nil, KeyMap.get?_insert, KeyMap.get?_empty]

theorem Opened.capacity (hopen : c.Opened) : c.statuses.capacity = 4096 := by
  rw [hopen.fresh.2.1]
  rfl

end Chain

namespace ChainM

variable {c c' : Chain} {b : Block}

theorem tryCatch_runOn_of_error {α : Type} {x : ChainM α} {c c' : Chain} {e : ChainError}
    (h : x.runOn c = .ok (.error e, c')) (handler : ChainError → ChainM α) :
    (tryCatch x handler).runOn c = (handler e).runOn c' := by
  have hx : StateT.run x c = .ok (.error e, c') := h
  show (ExceptT.run (ExceptT.tryCatch x handler)).run c = _
  simp only [ExceptT.tryCatch, ExceptT.run_mk, StateT.run_bind, hx]
  rfl

theorem guarded_runOn_error {α ε : Type} {toError : ε → ChainError} {g : Guarded ε α}
    {e : ChainError} (h : (guarded toError g).runOn c = .ok (.error e, c')) :
    c' = c ∧ ∃ x, e = toError x := by
  unfold guarded at h
  rcases bind_runOn_eq h with ⟨e', hx, he⟩ | ⟨r, c₁, hx, h⟩
  · nomatch (orAbort_runOn_eq hx).2
  · obtain ⟨rfl, -⟩ := orAbort_runOn_eq hx
    cases r with
    | ok a => nomatch h
    | error x =>
      cases h
      exact ⟨rfl, x, rfl⟩

/-! ## Answers from the status cache -/

/-- A block with a status other than `Proposed` is answered with it, and nothing changes. -/
theorem receiveBlock_known {s : BlockStatus} (hs : c.blockStatus b.hash = some s)
    (hne : s ≠ .proposed) : (receiveBlock b).runOn c = .ok (.ok s, c) := by
  unfold receiveBlock
  rw [bind_runOn_of_ok rfl]
  dsimp only
  rw [hs]
  cases s with
  | proposed => exact absurd rfl hne
  | validated => rfl
  | voted => rfl
  | finalized => rfl
  | rejected => rfl

/-- A block with no status, or only `Proposed`, that validation refuses is marked `Rejected`,
unless the refusal only reflects the head. -/
theorem receiveBlock_of_refusal {e : ChainError} {c₁ : Chain}
    (hs : c.blockStatus b.hash = none ∨ c.blockStatus b.hash = some .proposed)
    (hval : (validate b b.hash).runOn c = .ok (.error e, c₁)) :
    (receiveBlock b).runOn c =
      .ok (.error e, if e.dependsOnHead then c₁ else c₁.setStatus b.hash .rejected) := by
  unfold receiveBlock
  rw [bind_runOn_of_ok rfl]
  dsimp only
  rcases hs with hs | hs <;> rw [hs] <;> dsimp only
  all_goals
    refine bind_runOn_of_error ?_
    rw [tryCatch_runOn_of_error hval]
    -- the handler keeps the chain exactly for a block error that depends on the head
    cases e with
    | block be => cases hd : be.dependsOnHead <;> simp only [ChainError.dependsOnHead, hd] <;> rfl
    | _ => rfl

/-- Validation refuses a block at or below the final height, when no other block by the same
proposer is held at its height: it is already final, and nothing changes. -/
theorem validate_already_finalized {hash : Digest} (hle : b.height ≤ c.finalizedHeight)
    (hhead : c.finalizedHeight.toNat ≤ c.head.1.toNat) (hdp : c.doubleProposal b hash = none) :
    (validate b hash).runOn c = .ok (.error (.block (.alreadyFinalized b.height)), c) := by
  unfold validate
  rw [bind_runOn_of_ok rfl]
  dsimp only
  rw [if_pos (by rw [UInt64.le_iff_toNat_le] at hle ⊢; omega), hdp]
  dsimp only
  rw [if_pos hle]
  rfl

/-- Validation refuses a block at or below the head and above the final height, when no other
block by the same proposer is held at its height: it is not the next height, and nothing
changes. -/
theorem validate_unexpected_height {hash : Digest} {next : UInt64}
    (hle : b.height ≤ c.head.1) (hfin : c.finalizedHeight < b.height)
    (hdp : c.doubleProposal b hash = none) (hnext : Word.addStrict c.head.1 1 = .ok next) :
    (validate b hash).runOn c = .ok (.error (.block (.unexpectedHeight next b.height)), c) := by
  unfold validate
  rw [bind_runOn_of_ok rfl]
  dsimp only
  rw [if_pos hle, hdp]
  dsimp only
  rw [if_neg (UInt64.not_le.mpr hfin), bind_runOn_of_ok (orAbort_runOn_of_ok hnext c)]
  rfl

end ChainM

open ChainM in
/-- A final block is marked `Rejected` when it comes again after its status left the cache.  A
block with a status other than `Proposed` is answered with it.  A block at or below the final
height with no status, or only `Proposed`, and no other header held at its height, is refused
as already final and marked `Rejected`, the final block of that height included.  An opened
chain knows only its tip, so after a restart every block below the tip is marked `Rejected`
when it comes again. -/
theorem final_block_redelivery_rejected {c : Chain} (hr : c.Reachable) (b : Block) :
    (∀ s, c.blockStatus b.hash = some s → s ≠ .proposed →
      (receiveBlock b).runOn c = .ok (.ok s, c)) ∧
    (b.height ≤ c.finalizedHeight → (∀ sh, c.headerAt b.height = some sh → sh.hash = b.hash) →
      (c.blockStatus b.hash = none ∨ c.blockStatus b.hash = some .proposed) →
      (receiveBlock b).runOn c =
        .ok (.error (.block (.alreadyFinalized b.height)), c.setStatus b.hash .rejected)) ∧
    (c.Opened → b.height < c.finalizedHeight → b.hash ≠ c.finalizedHash →
      ∃ c', c.step (.block b) = .ok c' ∧ c'.blockStatus b.hash = some .rejected) := by
  have hrefuse : b.height ≤ c.finalizedHeight →
      (∀ sh, c.headerAt b.height = some sh → sh.hash = b.hash) →
      (c.blockStatus b.hash = none ∨ c.blockStatus b.hash = some .proposed) →
      (receiveBlock b).runOn c =
        .ok (.error (.block (.alreadyFinalized b.height)), c.setStatus b.hash .rejected) := by
    intro hle hheld hs
    rw [receiveBlock_of_refusal hs (validate_already_finalized hle
      hr.coherent.finalizedHeight_le_head (Chain.doubleProposal_eq_none hheld))]
    rfl
  refine ⟨fun s hs hne => receiveBlock_known hs hne, hrefuse, fun hopen hlt hne => ?_⟩
  have hheld : ∀ sh, c.headerAt b.height = some sh → sh.hash = b.hash := by
    intro sh hsh
    rw [hopen.headerAt, if_neg (UInt64.ne_of_lt hlt)] at hsh
    cases hsh
  have hs : c.blockStatus b.hash = none := by
    rw [hopen.blockStatus, if_neg hne]
  refine ⟨c.setStatus b.hash .rejected, ?_, ?_⟩
  · exact Chain.snd_runOn_of_eq_ok (hrefuse (UInt64.le_of_lt hlt) hheld (.inl hs))
  · exact Chain.blockStatus_setStatus_of_pos (by rw [hopen.capacity]; decide) _ _

/-- Two blocks are final on the devnet and a node is opened again over its store: block 1,
delivered again, is marked `Rejected`. -/
theorem final_block_redelivery_rejected_after_restart :
    soloSecondCommitted.Reachable ∧ soloReopened.Reachable ∧ soloReopened.Opened ∧
    soloBlock.height < soloReopened.finalizedHeight ∧ soloBlock.hash ≠ soloReopened.finalizedHash ∧
    ∃ c', soloReopened.step (.block soloBlock) = .ok c' ∧
      c'.blockStatus soloBlock.hash = some .rejected := by
  obtain ⟨_, _, _, _, _, hfinal, hone, hne, _⟩ := soloRuns_compute
  have hlt : soloBlock.height < soloReopened.finalizedHeight := by
    rw [hfinal, hone]
    decide
  have hr : soloReopened.Reachable := ⟨_, soloReopened_opened, .refl⟩
  exact ⟨soloSecondCommitted_reachable, hr, soloReopened_opened, hlt, hne,
    (final_block_redelivery_rejected hr soloBlock).2.2 soloReopened_opened hlt hne⟩

/-! ## Refusals leave no trace -/

namespace Chain

variable {c : Chain}

/-- A block has no status, or only `Proposed`, or another status. -/
theorem blockStatus_cases (c : Chain) (hash : Digest) :
    (c.blockStatus hash = none ∨ c.blockStatus hash = some .proposed) ∨
      ∃ s, c.blockStatus hash = some s ∧ s ≠ .proposed := by
  cases h : c.blockStatus hash with
  | none => exact .inl (.inl rfl)
  | some s =>
    by_cases hs : s = .proposed
    · subst hs
      exact .inl (.inr rfl)
    · exact .inr ⟨s, rfl, hs⟩

theorem commitOldestN_nil (certified : UInt64) (cert : Option Certificate) :
    ∀ (n : Nat) (c : Chain), c.pending = [] → commitOldestN certified cert n c = (c, .ok ())
  | 0, _, _ => rfl
  | n + 1, c, h => by
    have hnone : c.commitOldest certified cert = .ok c := by
      unfold commitOldest
      rw [h]
    unfold commitOldestN
    rw [hnone]
    exact commitOldestN_nil certified cert n c h

/-- Writing blocks oldest first either writes the newest pending block, last, marking it final,
or leaves it the newest pending block. -/
theorem commitOldestN_last (certified : UInt64) (cert : Option Certificate) {p : PendingBlock} :
    ∀ (n : Nat) (c : Chain) (ps : List PendingBlock), c.pending = ps ++ [p] →
      0 < c.statuses.capacity →
      (commitOldestN certified cert n c).1.blockStatus p.hash = some .finalized ∨
        ∃ qs, (commitOldestN certified cert n c).1.pending = qs ++ [p]
  | 0, _, ps, hlast, _ => .inr ⟨ps, hlast⟩
  | n + 1, c, ps, hlast, hcap => by
    unfold commitOldestN
    split
    · exact .inr ⟨ps, hlast⟩
    · rename_i c' hc'
      rcases commitOldest_eq_ok hc' with ⟨hnil, _hc⟩ | ⟨q, rest, store, hcons, _hstore, rfl⟩
      · rw [hlast] at hnil
        simp at hnil
      rw [hlast] at hcons
      cases ps with
      | nil =>
        simp only [List.nil_append, List.cons.injEq] at hcons
        obtain ⟨rfl, rfl⟩ := hcons
        left
        rw [commitOldestN_nil certified cert n _ rfl]
        exact RecentMap.peek?_put_self_of_pos _ _ _ hcap
      | cons q' ps' =>
        simp only [List.cons_append, List.cons.injEq] at hcons
        obtain ⟨rfl, rfl⟩ := hcons
        exact commitOldestN_last certified cert n _ ps' rfl hcap

/-- Committing either marks the newest pending block final or rejected, last, or leaves it the
newest pending block. -/
theorem tryCommit_last {ps : List PendingBlock} {p : PendingBlock} (hlast : c.pending = ps ++ [p])
    (hcap : 0 < c.statuses.capacity) :
    (∃ s, c.tryCommit.1.blockStatus p.hash = some s ∧ s ≠ .proposed) ∨
      ∃ qs, c.tryCommit.1.pending = qs ++ [p] := by
  unfold tryCommit
  dsimp only
  split
  · exact .inr ⟨ps, hlast⟩
  split
  · exact .inr ⟨ps, hlast⟩
  rename_i idx hidx
  have hlt : idx < ps.length + 1 := by
    have := (List.findIdx?_eq_some_iff_findIdx_eq.mp hidx).1
    rw [hlast, List.length_append, List.length_singleton] at this
    exact this
  split
  · -- a fork: the pending blocks from that height on are rejected, the newest last
    left
    refine ⟨.rejected, ?_, by decide⟩
    have hdrop : c.pending.drop idx = ps.drop idx ++ [p] := by
      rw [hlast, List.drop_append_of_le_length (by omega)]
    show ((c.pending.drop idx).foldl (fun (d : Chain) (q : PendingBlock) => d.setStatus q.hash .rejected)
      { c with pending := c.pending.take idx }).blockStatus p.hash = some .rejected
    rw [hdrop]
    exact blockStatus_foldl_setStatus_last PendingBlock.hash .rejected _ p hcap
  · have hrun := commitOldestN_last c.finality.finalizedHeight
      (c.finality.certificate c.finality.finalizedHeight) (idx + 1) c ps hlast hcap
    split
    · rename_i c' e heq
      rw [heq] at hrun
      rcases hrun with hfin | hpend
      · exact .inl ⟨.finalized, hfin, by decide⟩
      · exact .inr hpend
    · rename_i c' heq
      rw [heq] at hrun
      rcases hrun with hfin | hpend
      · exact .inl ⟨.finalized, hfin, by decide⟩
      · exact .inr hpend

/-! The cache keeps its room: statuses are only ever put. -/

theorem capacity_revertToFinalized (c : Chain) :
    c.revertToFinalized.statuses.capacity = c.statuses.capacity :=
  capacity_foldl_setStatus PendingBlock.hash .rejected c.pending _

theorem capacity_commitOldestN (certified : UInt64) (cert : Option Certificate) (n : Nat)
    (c : Chain) : (commitOldestN certified cert n c).1.statuses.capacity = c.statuses.capacity := by
  have hstep : ∀ (n : Nat) (d d' : Chain), d.statuses.capacity = c.statuses.capacity →
      d.commitOldest certified cert = .ok d' → d'.statuses.capacity = c.statuses.capacity := by
    intro _ d d' hd hcommit
    rcases commitOldest_eq_ok hcommit with ⟨_hnil, rfl⟩ | ⟨p, rest, store, _hcons, _hstore, rfl⟩
    · exact hd
    · exact hd
  obtain ⟨m, hm, _hdone⟩ := commitOldestN_induction (fun _ d => d.statuses.capacity = c.statuses.capacity)
    hstep n c rfl
  exact hm

theorem capacity_tryCommit (c : Chain) : c.tryCommit.1.statuses.capacity = c.statuses.capacity := by
  unfold tryCommit
  dsimp only
  split
  · rfl
  split
  · rfl
  rename_i idx hidx
  split
  · exact capacity_foldl_setStatus PendingBlock.hash .rejected _ _
  · have hN := capacity_commitOldestN c.finality.finalizedHeight
      (c.finality.certificate c.finality.finalizedHeight) (idx + 1) c
    split
    · rename_i c' e heq
      rw [heq] at hN
      exact hN
    · rename_i c' heq
      rw [heq] at hN
      exact hN

end Chain

namespace ChainM

variable {c c' : Chain} {b : Block}

/-- The local vote changes neither the pending blocks nor the cache's room, and marks no block
proposed. -/
theorem ownVote_frame {height : UInt64} {hash : Digest} {voters : Option ValidatorSet}
    {r : Except ChainError Unit} (h : (ownVote height hash voters).runOn c = .ok (r, c')) :
    c'.pending = c.pending ∧ c'.statuses.capacity = c.statuses.capacity ∧
      ∀ h', c.blockStatus h' ≠ some .proposed → c'.blockStatus h' ≠ some .proposed := by
  rcases (ownVote_cases h).2 with rfl | ⟨signer, vset, _hsigner, _hvoters, _hin, _hprior, hcast⟩
  · exact ⟨rfl, rfl, fun _ hc => hc⟩
  · obtain ⟨fm, res, _hrec, _hr, rfl⟩ := castVote_state hcast
    exact ⟨rfl, rfl, fun _ hc => Chain.blockStatus_setStatus_ne hc (by decide)⟩

theorem capacity_acceptBlock {hash : Digest} {outcome : BlockOutcome}
    {r : Except ChainError BlockStatus} (h : (acceptBlock b hash outcome).runOn c = .ok (r, c')) :
    c'.statuses.capacity = c.statuses.capacity := by
  obtain ⟨next, fm, fin, c₃, _hnext, _hreg, hvote, rfl⟩ := acceptBlock_cases h
  rw [Chain.capacity_tryCommit, Chain.statuses_forwardFinalityEvidence, (ownVote_frame hvote).2.1]
  rfl

/-- Validation refuses a block with a block error, leaving the chain as it is, or reports a
double proposal. -/
theorem validate_error {hash : Digest} {e : ChainError}
    (h : (validate b hash).runOn c = .ok (.error e, c')) :
    (∃ be, e = .block be ∧ c' = c) ∨ e = .equivocation hash := by
  have hthrow : ∀ {e' : ChainError} {d : Chain},
      (throw e' : ChainM BlockOutcome).runOn d = .ok (.error e, c') → e = e' ∧ c' = d :=
    fun h => ⟨Except.error.inj (throw_runOn_eq h).2, (throw_runOn_eq h).1⟩
  have hblock : ∀ {be : BlockError},
      (throw (.block be) : ChainM BlockOutcome).runOn c = .ok (.error e, c') →
      (∃ be, e = .block be ∧ c' = c) ∨ e = .equivocation hash :=
    fun h => .inl ⟨_, (hthrow h).1, (hthrow h).2⟩
  unfold validate at h
  rw [bind_runOn_of_ok rfl] at h
  simp only [↓throw_bind_eq] at h
  split at h
  · -- at or below the head: a double proposal, or a refusal
    split at h
    · rw [bind_runOn_of_ok rfl] at h
      split at h
      · rw [bind_runOn_of_ok rfl] at h
        exact .inr (hthrow h).1
      · exact .inr (hthrow h).1
    · split at h
      · exact hblock h
      · rcases bind_runOn_eq h with ⟨e', hx, _he⟩ | ⟨a, c₁, hx, hrest⟩
        · nomatch (orAbort_runOn_eq hx).2
        · obtain ⟨rfl, -⟩ := orAbort_runOn_eq hx
          exact hblock hrest
  · rcases bind_runOn_eq h with ⟨e', hx, _he⟩ | ⟨next, c₁, hx, h⟩
    · nomatch (orAbort_runOn_eq hx).2
    obtain ⟨rfl, -⟩ := orAbort_runOn_eq hx
    split at h
    · exact hblock h
    split at h
    · exact hblock h
    split at h
    · exact hblock h
    split at h
    · split at h
      · exact hblock h
      · obtain ⟨rfl, x, rfl⟩ := guarded_runOn_error h
        exact .inl ⟨x, rfl, rfl⟩
    · exact hblock h

/-- Accepting a block fails only in the store, when committing. -/
theorem acceptBlock_error {hash : Digest} {outcome : BlockOutcome} {e : ChainError}
    (h : (acceptBlock b hash outcome).runOn c = .ok (.error e, c')) : ∃ se, e = .storage se := by
  unfold acceptBlock at h
  rw [bind_runOn_of_ok rfl] at h
  rcases bind_runOn_eq h with ⟨e', hx, _he⟩ | ⟨next, c₁, hx, h⟩
  · nomatch (orAbort_runOn_eq hx).2
  obtain ⟨rfl, -⟩ := orAbort_runOn_eq hx
  rw [bind_runOn_of_ok rfl, bind_runOn_of_ok rfl] at h
  rcases bind_runOn_eq h with ⟨e', hx, _he⟩ | ⟨⟨fm, fin⟩, c₂, hx, h⟩
  · nomatch (orAbort_runOn_eq hx).2
  obtain ⟨rfl, -⟩ := orAbort_runOn_eq hx
  rw [bind_runOn_of_ok rfl] at h
  rcases bind_runOn_eq h with ⟨e', hx, _he⟩ | ⟨u, c₃, hvote, h⟩
  · nomatch (ownVote_cases hx).1
  have hst : c₃.forwardFinalityEvidence.blockStatus hash ≠ some .proposed := by
    rw [Chain.blockStatus_of_statuses (Chain.statuses_forwardFinalityEvidence c₃)]
    exact (ownVote_frame hvote).2.2 hash (Chain.blockStatus_setStatus_self_ne _ _ (by decide))
  rw [bind_runOn_of_ok rfl] at h
  rcases bind_runOn_eq h with ⟨e', hx, he⟩ | ⟨u, c₄, hx, h⟩
  · rw [commit_runOn] at hx
    simp only [Except.ok.injEq, Prod.mk.injEq] at hx
    obtain ⟨se, hse⟩ := (c₃.forwardFinalityEvidence.tryCommit_spec hst).2 e' hx.1
    exact ⟨se, (Except.error.inj he).trans hse⟩
  · rw [bind_runOn_of_ok rfl] at h
    nomatch (pure_runOn_eq h).2

/-- A block with no status, or only `Proposed`, is refused as validation refuses it, or passes
validation and is accepted. -/
theorem receiveBlock_fresh_cases {r : Except ChainError BlockStatus}
    (hs : c.blockStatus b.hash = none ∨ c.blockStatus b.hash = some .proposed)
    (h : (receiveBlock b).runOn c = .ok (r, c')) :
    (∃ e c₁, (validate b b.hash).runOn c = .ok (.error e, c₁) ∧ r = .error e ∧
      c' = if e.dependsOnHead then c₁ else c₁.setStatus b.hash .rejected) ∨
    ∃ outcome, (validate b b.hash).runOn c = .ok (.ok outcome, c) ∧
      (acceptBlock b b.hash outcome).runOn c = .ok (r, c') := by
  have h₀ := h
  have hs₀ := hs
  unfold receiveBlock at h
  rw [bind_runOn_of_ok rfl] at h
  dsimp only at h
  rcases hs with hs | hs <;> rw [hs] at h <;> dsimp only at h
  all_goals
    rcases bind_runOn_eq h with ⟨e, hx, _he⟩ | ⟨outcome, c₁, hx, hrest⟩
    · rcases tryCatch_runOn_eq hx with ⟨a, _hval, hr⟩ | ⟨e', c₁, hval, _hhandle⟩
      · nomatch hr
      · rw [receiveBlock_of_refusal hs₀ hval] at h₀
        simp only [Except.ok.injEq, Prod.mk.injEq] at h₀
        exact .inl ⟨e', c₁, hval, h₀.1.symm, h₀.2.symm⟩
    · rcases tryCatch_runOn_eq hx with ⟨a, hval, hr⟩ | ⟨e', c₂, _hval, hhandle⟩
      · cases hr
        rcases validate_cases hval with ⟨_, hr, rfl, -⟩ | ⟨_, hr, -⟩ | ⟨_, hr, -⟩
        · exact .inr ⟨outcome, hval, hrest⟩
        · nomatch hr
        · nomatch hr
      · nomatch (refusal_runOn_eq hhandle).2

/-- A refused block changes nothing but, for a refusal that does not depend on the head, its own
status; the errors that can leave more changed are a double proposal and a failed write. -/
theorem receiveBlock_refused {e : ChainError} (h : (receiveBlock b).runOn c = .ok (.error e, c'))
    (hequiv : ∀ hash, e ≠ .equivocation hash) (hstore : ∀ se, e ≠ .storage se) :
    ∃ be, e = .block be ∧ c' = if be.dependsOnHead then c else c.setStatus b.hash .rejected := by
  rcases Chain.blockStatus_cases c b.hash with hs | ⟨s, hs, hne⟩
  · rcases receiveBlock_fresh_cases hs h with ⟨e', c₁, hval, he, rfl⟩ | ⟨outcome, _hval, hacc⟩
    · cases he
      rcases validate_error hval with ⟨be, rfl, rfl⟩ | rfl
      · exact ⟨be, rfl, rfl⟩
      · exact absurd rfl (hequiv _)
    · obtain ⟨se, rfl⟩ := acceptBlock_error hacc
      exact absurd rfl (hstore se)
  · rw [receiveBlock_known hs hne] at h
    cases h

/-- After an acceptance the block holds a status other than `Proposed`, or it is the newest
pending block, one height below the top of the word range at least. -/
theorem acceptBlock_settles {outcome : BlockOutcome} {r : Except ChainError BlockStatus}
    (hcap : 0 < c.statuses.capacity) (h : (acceptBlock b b.hash outcome).runOn c = .ok (r, c')) :
    (∃ s, c'.blockStatus b.hash = some s ∧ s ≠ .proposed) ∨
      (∃ qs, c'.pending = qs ++ [{ block := b, hash := b.hash, outcome := outcome }]) ∧
        ∃ next, Word.addStrict b.height 1 = .ok next := by
  obtain ⟨next, fm, fin, c₃, hnext, _hreg, hvote, rfl⟩ := acceptBlock_cases h
  obtain ⟨hpend, hcap₃, -⟩ := ownVote_frame hvote
  obtain ⟨sl, hfw⟩ := Chain.forwardFinalityEvidence_eq c₃
  rw [hfw]
  have hlast : ({ c₃ with finality := c₃.finality.takeEvidence.1, slashing := sl } : Chain).pending =
      c.pending ++ [{ block := b, hash := b.hash, outcome := outcome }] := hpend
  have hcap' : 0 < c₃.statuses.capacity := by
    rw [hcap₃]
    exact hcap
  rcases Chain.tryCommit_last hlast hcap' with hst | hnewest
  · exact .inl hst
  · exact .inr ⟨hnewest, next, hnext⟩

end ChainM

namespace Chain

open ChainM

theorem step_capacity {c c' : Chain} {i : ChainInput} (h : c.step i = .ok c') :
    c'.statuses.capacity = c.statuses.capacity := by
  cases i with
  | submit tx =>
    obtain ⟨r, hr⟩ := step_eq_ok h
    rw [submit_state hr]
  | propose kp ts =>
    obtain ⟨r, hr⟩ := step_eq_ok h
    rcases propose_state hr with rfl | ⟨d, rfl⟩ <;> rfl
  | block b =>
    obtain ⟨r, hr⟩ := step_eq_ok h
    rcases receiveBlock_cases hr with ⟨d, hd, hc'⟩ | ⟨outcome, _hval, hacc⟩
    · -- reported evidence and dropped pending blocks keep the cache's room, and so does a mark
      have hdcap : d.statuses.capacity = c.statuses.capacity := by
        rcases hd with rfl | ⟨ev, rfl | rfl⟩
        · rfl
        · rfl
        · exact capacity_revertToFinalized _
      rcases hc' with rfl | rfl <;> exact hdcap
    · exact capacity_acceptBlock hacc
  | vote v =>
    obtain ⟨r, hr⟩ := step_eq_ok h
    obtain ⟨fm, res, _hrec, ⟨_hres, rfl⟩ | ⟨_hres, rfl⟩⟩ := receiveVote_cases hr
    · rw [statuses_forwardFinalityEvidence]
    · rw [capacity_tryCommit, statuses_forwardFinalityEvidence]
  | evidence e =>
    obtain ⟨r, hr⟩ := step_eq_ok h
    rw [receiveEvidence_state hr]
    rfl
  | failWrites on =>
    cases h
    rfl

/-- Every chain a run reaches caches the statuses of 4096 blocks. -/
theorem Reachable.capacity {c : Chain} (hr : c.Reachable) : c.statuses.capacity = 4096 :=
  Reachable.induction (P := fun c => c.statuses.capacity = 4096) (fun _ hopen => hopen.capacity)
    (fun _ _ _ hc hs => (step_capacity hs).trans hc) hr

end Chain

namespace ChainM

/-- The newest pending block of a coherent chain is answered with its status, or refused as not
the next height; either way nothing changes.  It is at the head, above the final height, and
the header held at its height is its own. -/
theorem receiveBlock_newest_pending {c₁ : Chain} (hcoh : c₁.Coherent) {b : Block} {outcome : BlockOutcome}
    {qs : List PendingBlock} (hq : c₁.pending = qs ++ [{ block := b, hash := b.hash, outcome := outcome }])
    {next : UInt64} (hnext : Word.addStrict b.height 1 = .ok next) :
    ∃ r, (receiveBlock b).runOn c₁ = .ok (r, c₁) := by
  have hmem : ({ block := b, hash := b.hash, outcome := outcome } : PendingBlock) ∈ c₁.pending := by
    rw [hq]
    exact List.mem_append_right _ (List.mem_singleton_self _)
  have hhead : c₁.head.1 = b.height := by
    unfold Chain.head
    rw [hq, List.getLast?_concat]
  have hfin : c₁.finalizedHeight < b.height :=
    UInt64.lt_iff_toNat_lt.mpr (hcoh.pending.height_lt hmem)
  have hheld : ∀ sh, c₁.headerAt b.height = some sh → sh.hash = b.hash := by
    intro sh hsh
    unfold Chain.headerAt Chain.pendingAt at hsh
    rw [hcoh.pending.find?_height hmem] at hsh
    cases hsh
    rfl
  have hval : (validate b b.hash).runOn c₁ =
      .ok (.error (.block (.unexpectedHeight next b.height)), c₁) :=
    validate_unexpected_height (hhead ▸ UInt64.le_refl b.height) hfin
      (Chain.doubleProposal_eq_none hheld) (by rw [hhead]; exact hnext)
  rcases Chain.blockStatus_cases c₁ b.hash with hs | ⟨s, hs, hne⟩
  · exact ⟨_, receiveBlock_of_refusal hs hval⟩
  · exact ⟨_, receiveBlock_known hs hne⟩

/-- Receiving a block a second time, right after the first, leaves the chain as the first left
it.  After a refusal the block is marked `Rejected`, or the chain is as it was and is refused
again.  After an acceptance the block holds a status, or it is the newest pending block and is
refused again as not the next height. -/
theorem receiveBlock_twice {c c₁ : Chain} (hr : c.Reachable) (b : Block)
    (h : c.step (.block b) = .ok c₁) : c₁.step (.block b) = .ok c₁ := by
  have hr₁ : c₁.Reachable := hr.step _ h
  have hcap₁ : 0 < c₁.statuses.capacity := by
    rw [hr₁.capacity]
    decide
  obtain ⟨r, hrun⟩ := Chain.step_eq_ok h
  suffices hsame : ∃ r', (receiveBlock b).runOn c₁ = .ok (r', c₁) by
    obtain ⟨r', hr'⟩ := hsame
    exact Chain.snd_runOn_of_eq_ok hr'
  rcases Chain.blockStatus_cases c b.hash with hs | ⟨s, hs, hne⟩
  · rcases receiveBlock_fresh_cases hs hrun with ⟨e, c₂, hval, -, rfl⟩ | ⟨outcome, _hval, hacc⟩
    · by_cases hdep : e.dependsOnHead = true
      · -- a refusal on the head left the chain, and is made again
        rw [if_pos hdep]
        rcases validate_error hval with ⟨be, rfl, rfl⟩ | rfl
        · refine ⟨.error (.block be), ?_⟩
          rw [receiveBlock_of_refusal hs hval, if_pos hdep]
        · cases hdep
      · -- any other refusal marked the block rejected
        rw [if_neg hdep] at hcap₁ ⊢
        exact ⟨_, receiveBlock_known
          (Chain.blockStatus_setStatus_of_pos (c := c₂) hcap₁ b.hash .rejected) (by decide)⟩
    · have hcap : 0 < c.statuses.capacity := by
        rw [hr.capacity]
        decide
      rcases acceptBlock_settles hcap hacc with ⟨s, hs₁, hne⟩ | ⟨⟨qs, hq⟩, next, hnext⟩
      · exact ⟨_, receiveBlock_known hs₁ hne⟩
      exact receiveBlock_newest_pending hr₁.coherent hq hnext
  · rw [receiveBlock_known hs hne] at hrun
    simp only [Except.ok.injEq, Prod.mk.injEq] at hrun
    obtain ⟨_hr, rfl⟩ := hrun
    exact ⟨_, receiveBlock_known hs hne⟩

end ChainM

open ChainM in
/-- A refused block leaves no trace but its status, and receiving a block twice in a row is
receiving it once.  When receiving `b` fails with an error other than a double proposal or a
failed write, the error is a block error and the chain is as it was, except that `b` is marked
`Rejected` when the refusal does not depend on the head; a block refused on the head gets no
mark and is validated afresh once its parent arrives.  On every chain a run reaches, a second
delivery of `b` right after the first leaves the chain as the first left it. -/
theorem receiveBlock_refusal_and_redelivery {c : Chain} (hr : c.Reachable) (b : Block) :
    (∀ e c', (receiveBlock b).runOn c = .ok (.error e, c') → (∀ hash, e ≠ .equivocation hash) →
      (∀ se, e ≠ .storage se) →
      ∃ be, e = .block be ∧ c' = if be.dependsOnHead then c else c.setStatus b.hash .rejected) ∧
    (∀ c₁, c.step (.block b) = .ok c₁ → c₁.step (.block b) = .ok c₁) :=
  ⟨fun _ _ h hequiv hstore => receiveBlock_refused h hequiv hstore,
    fun _ h => receiveBlock_twice hr b h⟩

/-- Another timestamp leaves a block at its height. -/
theorem Block.height_retimed (b : Block) (t : UInt64) :
    ({ b with header := { b.header with timestamp := t } } : Block).height = b.height :=
  rfl

/-- After the devnet committed its first block, a copy of it with another timestamp is refused
as already final and marked `Rejected`, and delivered again it changes nothing more. -/
theorem receiveBlock_refusal_and_redelivery_after_commit :
    soloCommitted.Reachable ∧
    (ChainM.receiveBlock soloBlockRetimed).runOn soloCommitted =
      .ok (.error (.block (.alreadyFinalized 1)),
        soloCommitted.setStatus soloBlockRetimed.hash .rejected) ∧
    (soloCommitted.setStatus soloBlockRetimed.hash .rejected).step (.block soloBlockRetimed) =
      .ok (soloCommitted.setStatus soloBlockRetimed.hash .rejected) ∧
    (∀ e c', (ChainM.receiveBlock soloBlockRetimed).runOn soloCommitted = .ok (.error e, c') →
      (∀ hash, e ≠ .equivocation hash) → (∀ se, e ≠ .storage se) →
      ∃ be, e = .block be ∧ c' = if be.dependsOnHead then soloCommitted
        else soloCommitted.setStatus soloBlockRetimed.hash .rejected) ∧
    (∀ c₁, soloCommitted.step (.block soloBlockRetimed) = .ok c₁ →
      c₁.step (.block soloBlockRetimed) = .ok c₁) := by
  obtain ⟨_, _, _, _, _, _, hone, _, hstatus, hdp⟩ := soloRuns_compute
  have hr := soloCommitted_reachable
  have hheight : soloBlockRetimed.height = 1 := (Block.height_retimed soloBlock 2).trans hone
  have hle : soloBlockRetimed.height ≤ soloCommitted.finalizedHeight := by
    rw [hheight, soloCommitted_finalizedHeight]
    decide
  have hrefused := ChainM.receiveBlock_of_refusal (.inl hstatus)
    (ChainM.validate_already_finalized hle hr.coherent.finalizedHeight_le_head hdp)
  rw [hheight, if_neg (by decide)] at hrefused
  have hstep : soloCommitted.step (.block soloBlockRetimed) =
      .ok (soloCommitted.setStatus soloBlockRetimed.hash .rejected) :=
    Chain.snd_runOn_of_eq_ok hrefused
  have hthm := receiveBlock_refusal_and_redelivery hr soloBlockRetimed
  exact ⟨hr, hrefused, hthm.2 _ hstep, hthm⟩

end StakeChain

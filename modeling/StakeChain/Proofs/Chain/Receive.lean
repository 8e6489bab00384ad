import StakeChain.Proofs.Block.Selection
import StakeChain.Proofs.Consensus.Finality
import StakeChain.Chain.Receive
import StakeChain.Chain.Devnet

/-!
# A proposed block is received

A node proposes the next block on its head and then receives it like any other block.  The
block passes validation on the chain the proposal left: it is one height above the head, on
the head's hash, not earlier than it, by the selected proposer, and it verifies with the
outcome it was built with (`validate_proposed`).  Receiving it then goes through and answers
a status other than `Proposed`, or a storage error from committing (`receiveBlock_proposed`).
The status may be `Rejected`: when the finality tracker has already finalized another block at
that height, committing drops the local fork, the new block with it.

Receiving adds to the block's height in three places (the next height, the finalization of the
next height, the parking window of the node's own vote), so the head is taken below the top of
the word range by the parking window, and so are the votes parked with the tracker.

`proposed_block_accepted` joins the builder's side (`buildBlock_verifies`) and the node's.  On
the one-validator devnet the `Rejected` answer happens
(`proposal_rejected_after_conflicting_finality`), and the hypotheses of the main theorem all
hold at its first proposal (`proposed_block_accepted_on_devnet`).
-/

set_option autoImplicit false

namespace StakeChain

/-! ## Running chain operations -/

namespace ChainM

variable {α β : Type}

theorem bind_runOn_of_ok {x : ChainM α} {f : α → ChainM β} {c c' : Chain} {a : α}
    (h : x.runOn c = .ok (.ok a, c')) : (x >>= f).runOn c = (f a).runOn c' := by
  unfold runOn at h ⊢
  simp only [ExceptT.run_bind, StateT.run_bind, h]
  rfl

/-- A step that went through: the first operation gave a value and the rest went through from
it, on the chain it left. -/
theorem bind_eq_ok {x : ChainM α} {f : α → ChainM β} {c c'' : Chain} {b : β}
    (h : (x >>= f).runOn c = .ok (.ok b, c'')) :
    ∃ a c', x.runOn c = .ok (.ok a, c') ∧ (f a).runOn c' = .ok (.ok b, c'') := by
  unfold runOn at h ⊢
  simp only [ExceptT.run_bind, StateT.run_bind] at h
  cases hx : (ExceptT.run x).run c with
  | error e =>
    rw [hx] at h
    nomatch h
  | ok p =>
    obtain ⟨r, c'⟩ := p
    cases r with
    | error e =>
      rw [hx] at h
      nomatch h
    | ok a =>
      rw [hx] at h
      exact ⟨a, c', rfl, h⟩

theorem orAbort_eq_ok {r : Except Abort α} {c c' : Chain} {a : α}
    (h : (orAbort r).runOn c = .ok (.ok a, c')) : r = .ok a ∧ c' = c := by
  cases r with
  | error e => nomatch h
  | ok x =>
    cases h
    exact ⟨rfl, rfl⟩

theorem guarded_eq_ok {ε : Type} {toError : ε → ChainError} {g : Guarded ε α} {c c' : Chain}
    {a : α} (h : (guarded toError g).runOn c = .ok (.ok a, c')) :
    g.run = .ok (.ok a) ∧ c' = c := by
  unfold guarded at h
  obtain ⟨r, c₁, hr, h⟩ := bind_eq_ok h
  obtain ⟨hg, rfl⟩ := orAbort_eq_ok hr
  cases r with
  | error e => nomatch h
  | ok x =>
    cases h
    exact ⟨hg, rfl⟩

theorem guarded_runOn_of_ok {ε : Type} (toError : ε → ChainError) {g : Guarded ε α} {a : α}
    (h : g.run = .ok (.ok a)) (c : Chain) : (guarded toError g).runOn c = .ok (.ok a, c) := by
  unfold guarded
  rw [bind_runOn_of_ok (show (orAbort g.run).runOn c = .ok (.ok (.ok a), c) by rw [h]; rfl)]
  rfl

end ChainM

/-! ## Block statuses -/

namespace RecentMap

variable {κ ν : Type} [BEq κ] [LawfulBEq κ]

theorem find?_take_eq_some {α : Type} {p : α → Bool} {a : α} :
    ∀ {l : List α} {n : Nat}, (l.take n).find? p = some a → l.find? p = some a
  | [], _, h => by simp at h
  | _ :: _, 0, h => by simp at h
  | x :: xs, n + 1, h => by
    rw [List.take_succ_cons, List.find?_cons] at h
    rw [List.find?_cons]
    split
    · rename_i hx
      rw [hx] at h
      exact h
    · rename_i hx
      rw [hx] at h
      exact find?_take_eq_some h

/-- A key just put holds its value, unless the map holds nothing. -/
theorem peek?_put_self (m : RecentMap κ ν) (k : κ) (v : ν) :
    (m.put k v).peek? k = some v ∨ (m.put k v).peek? k = none := by
  unfold put peek?
  cases m.capacity with
  | zero => exact .inr rfl
  | succ n =>
    left
    simp

/-- A value read after a put was the one put, or was there before. -/
theorem peek?_put_eq_some {m : RecentMap κ ν} {k k' : κ} {v w : ν}
    (h : (m.put k v).peek? k' = some w) : (k = k' ∧ w = v) ∨ m.peek? k' = some w := by
  unfold put peek? at h
  obtain ⟨p, hp, rfl⟩ := Option.map_eq_some_iff.mp h
  have hfull := find?_take_eq_some hp
  rw [List.find?_cons] at hfull
  split at hfull
  · rename_i hk
    cases hfull
    exact .inl ⟨eq_of_beq hk, rfl⟩
  · rename_i hk
    -- the put key is not the one read, so dropping it changes nothing read
    right
    rw [List.find?_filter] at hfull
    have hne : k' ≠ k := fun h => by simp [h] at hk
    have hfind : m.entries.find? (fun p => p.1 == k') = some p := by
      rw [← hfull]
      congr 1
      funext a
      by_cases ha : a.1 = k' <;> simp [ha, hne]
    unfold peek?
    rw [hfind]
    rfl

end RecentMap

namespace Chain

/-! The status of a block is the only thing `setStatus` changes. -/

@[simp] theorem head_setStatus (c : Chain) (h : Digest) (s : BlockStatus) :
    (c.setStatus h s).head = c.head := rfl

@[simp] theorem headLedger_setStatus (c : Chain) (h : Digest) (s : BlockStatus) :
    (c.setStatus h s).headLedger = c.headLedger := rfl

@[simp] theorem proposerFor_setStatus (c : Chain) (h : Digest) (s : BlockStatus) :
    (c.setStatus h s).proposerFor = c.proposerFor := rfl

@[simp] theorem params_setStatus (c : Chain) (h : Digest) (s : BlockStatus) :
    (c.setStatus h s).params = c.params := rfl

@[simp] theorem finality_setStatus (c : Chain) (h : Digest) (s : BlockStatus) :
    (c.setStatus h s).finality = c.finality := rfl

/-- Marking a block with any status but `w` keeps every block that was not `w` so. -/
theorem blockStatus_setStatus_ne {c : Chain} {hash h : Digest} {s w : BlockStatus}
    (hc : c.blockStatus hash ≠ some w) (hs : s ≠ w) : (c.setStatus h s).blockStatus hash ≠ some w := by
  intro heq
  rcases RecentMap.peek?_put_eq_some heq with ⟨-, rfl⟩ | hold
  · exact hs rfl
  · exact hc hold

/-- A block just marked holds its mark, unless no mark is kept at all. -/
theorem blockStatus_setStatus_self (c : Chain) (h : Digest) (s : BlockStatus) :
    (c.setStatus h s).blockStatus h = some s ∨ (c.setStatus h s).blockStatus h = none :=
  RecentMap.peek?_put_self c.statuses h s

theorem blockStatus_setStatus_self_ne (c : Chain) (h : Digest) {s w : BlockStatus} (hs : s ≠ w) :
    (c.setStatus h s).blockStatus h ≠ some w := by
  rcases blockStatus_setStatus_self c h s with hput | hput
  · rw [hput]
    simpa using hs
  · rw [hput]
    simp

theorem blockStatus_of_statuses {c c' : Chain} (h : c'.statuses = c.statuses) :
    c'.blockStatus = c.blockStatus := by
  unfold blockStatus
  rw [h]

/-- Marking blocks with any status but `w`, one after another, keeps every block that was not
`w` so. -/
theorem foldl_setStatus_ne {α : Type} (f : α → Digest) {s w : BlockStatus} (hs : s ≠ w)
    {hash : Digest} :
    ∀ (xs : List α) (c : Chain), c.blockStatus hash ≠ some w →
      (xs.foldl (fun c x => c.setStatus (f x) s) c).blockStatus hash ≠ some w
  | [], _, hc => hc
  | _ :: xs, _, hc => foldl_setStatus_ne f hs xs _ (blockStatus_setStatus_ne hc hs)

/-- A fold whose every step leaves the statuses leaves them. -/
theorem statuses_foldl {α β : Type} (g : α → β → α) (view : α → Chain)
    (hg : ∀ a b, (view (g a b)).statuses = (view a).statuses) :
    ∀ (xs : List β) (a : α), (view (xs.foldl g a)).statuses = (view a).statuses
  | [], _ => rfl
  | x :: xs, a => (statuses_foldl g view hg xs (g a x)).trans (hg a x)

@[simp] theorem statuses_emit (c : Chain) (e : ChainEvent) : (c.emit e).statuses = c.statuses :=
  rfl

@[simp] theorem statuses_foldl_emit {α : Type} (f : α → ChainEvent) (xs : List α) (c : Chain) :
    (xs.foldl (fun c x => c.emit (f x)) c).statuses = c.statuses := by
  refine statuses_foldl _ id (fun _ _ => ?_) xs c
  rfl

theorem statuses_recordPenalties (c : Chain) (height : UInt64)
    (ps : List (Evidence × PenaltyOutcome)) :
    (c.recordPenalties height ps).1.statuses = c.statuses :=
  statuses_foldl _ Prod.fst (fun _ p => by obtain ⟨e, o⟩ := p; cases o <;> rfl) ps (c, [])

theorem statuses_forwardFinalityEvidence (c : Chain) :
    c.forwardFinalityEvidence.statuses = c.statuses := by
  unfold forwardFinalityEvidence FinalityManager.takeEvidence
  refine statuses_foldl _ id (fun _ _ => ?_) _ _
  rfl

/-- Writing the oldest pending block marks it final, and no other block. -/
theorem commitOldest_blockStatus {c c' : Chain} {certified : UInt64} {cert : Option Certificate}
    {hash : Digest} (h : c.commitOldest certified cert = .ok c')
    (hc : c.blockStatus hash ≠ some .proposed) : c'.blockStatus hash ≠ some .proposed := by
  unfold commitOldest at h
  split at h
  · cases h
    exact hc
  · dsimp only at h
    split at h
    · nomatch h
    · cases h
      simp only [blockStatus, statuses_emit, statuses_foldl_emit, statuses_recordPenalties,
        setStatus]
      exact blockStatus_setStatus_ne hc (by decide)

/-- Writing a block fails only in the store. -/
theorem commitOldest_error {c : Chain} {certified : UInt64} {cert : Option Certificate}
    {e : ChainError} (h : c.commitOldest certified cert = .error e) : ∃ se, e = .storage se := by
  unfold commitOldest at h
  split at h
  · nomatch h
  · dsimp only at h
    split at h
    · cases h
      exact ⟨_, rfl⟩
    · nomatch h

theorem commitOldestN_spec (certified : UInt64) (cert : Option Certificate) {hash : Digest} :
    ∀ (n : Nat) (c : Chain), c.blockStatus hash ≠ some .proposed →
      (commitOldestN certified cert n c).1.blockStatus hash ≠ some .proposed ∧
        ∀ e, (commitOldestN certified cert n c).2 = .error e → ∃ se, e = .storage se
  | 0, _, hc => ⟨hc, fun _ h => nomatch h⟩
  | n + 1, c, hc => by
    unfold commitOldestN
    split
    · rename_i e he
      exact ⟨hc, fun e' h => by cases h; exact commitOldest_error he⟩
    · rename_i c' hc'
      exact commitOldestN_spec certified cert n c' (commitOldest_blockStatus hc' hc)

/-- Committing marks blocks final or rejected, never proposed, and fails only in the store. -/
theorem tryCommit_spec (c : Chain) {hash : Digest} (hc : c.blockStatus hash ≠ some .proposed) :
    c.tryCommit.1.blockStatus hash ≠ some .proposed ∧
      ∀ e, c.tryCommit.2 = .error e → ∃ se, e = .storage se := by
  unfold tryCommit
  dsimp only
  split
  · exact ⟨hc, fun _ h => nomatch h⟩
  split
  · exact ⟨hc, fun _ h => nomatch h⟩
  split
  · -- the tracker finalized another block: the local fork from that height is rejected
    exact ⟨foldl_setStatus_ne PendingBlock.hash (by decide) _ _ hc, fun _ h => nomatch h⟩
  · obtain ⟨hst, herr⟩ := commitOldestN_spec c.finality.finalizedHeight
      (c.finality.certificate c.finality.finalizedHeight) _ c hc
    split
    · rename_i c' e heq
      rw [heq] at hst herr
      exact ⟨hst, fun e' h => herr e' (by cases h; rfl)⟩
    · rename_i c' heq
      rw [heq] at hst
      exact ⟨hst, fun _ h => nomatch h⟩

end Chain

/-! ## Proposing and validating -/

namespace ChainM

/-- What a successful proposal did: it built the block on the head ledger at the height above
the head, as that height's selected proposer, and only marked the block proposed. -/
theorem propose_eq_ok {c c₁ : Chain} {kp : Keypair} {ts : UInt64} {b : Block}
    (h : (propose kp ts).runOn c = .ok (.ok b, c₁)) :
    ∃ height expected req outcome,
      Word.addStrict c.head.1 1 = .ok height ∧ c.proposerFor height = some expected ∧
      expected.address = kp.address ∧ req.height = height ∧ req.parent = c.head.2.1 ∧
      req.timestamp = max ts c.head.2.2 ∧
      (buildBlock kp c.headLedger req c.params).run = .ok (.ok (b, outcome)) ∧
      c₁ = c.setStatus b.hash .proposed := by
  unfold propose at h
  rw [bind_runOn_of_ok rfl] at h
  dsimp only at h
  obtain ⟨height, c₂, hheight, h⟩ := bind_eq_ok h
  obtain ⟨hh, hc₂⟩ := orAbort_eq_ok hheight
  rw [hc₂] at h
  split at h
  · rename_i expected hexp
    split at h
    · obtain ⟨_, _, hthrow, -⟩ := bind_eq_ok h
      nomatch hthrow
    · rename_i haddr
      obtain ⟨⟨blk, out⟩, c₃, hbuild, h⟩ := bind_eq_ok h
      obtain ⟨hb, hc₃⟩ := guarded_eq_ok hbuild
      rw [hc₃] at h
      have hres : (Except.ok (Except.ok blk, c.setStatus blk.hash .proposed) :
          Except Abort (Except ChainError Block × Chain)) = .ok (.ok b, c₁) := h
      simp only [Except.ok.injEq, Prod.mk.injEq] at hres
      obtain ⟨rfl, rfl⟩ := hres
      exact ⟨height, expected, _, out, hh, hexp, not_not.mp haddr, rfl, rfl, rfl, hb, rfl⟩
  · nomatch h

/-- A proposed block passes validation on the chain its proposal left, and leaves that chain as
it is, once its header signature verifies. -/
theorem validate_proposed {c c₁ : Chain} {kp : Keypair} {ts : UInt64} {b : Block}
    (hprop : (propose kp ts).runOn c = .ok (.ok b, c₁))
    (hsig : SignedHeader.verifyHeader b.header b.signature = .ok ()) :
    ∃ outcome, (validate b b.hash).runOn c₁ = .ok (.ok outcome, c₁) := by
  obtain ⟨height, expected, req, outcome, hh, hexp, haddr, hreqh, hreqp, hreqt, hbuild, rfl⟩ :=
    propose_eq_ok hprop
  obtain ⟨hbh, hbp, hbt, hbk, hver⟩ := buildBlock_eq_ok hbuild
  have hnext : height.toNat = c.head.1.toNat + 1 := by simpa using Word.addStrict_eq_ok hh
  have hheight : b.height = height := hbh.trans hreqh
  have hproposer : b.header.proposer = expected.address := by
    rw [haddr]
    unfold BlockHeader.proposer Keypair.address
    rw [hbk]
  refine ⟨outcome, ?_⟩
  unfold validate
  rw [bind_runOn_of_ok rfl]
  dsimp only
  simp only [Chain.head_setStatus, Chain.proposerFor_setStatus, Chain.headLedger_setStatus,
    Chain.params_setStatus, hheight]
  rw [if_neg (by rw [UInt64.le_iff_toNat_le]; omega),
    bind_runOn_of_ok (show (orAbort (Word.addStrict c.head.1 1)).runOn _ = .ok (.ok height, _)
      by rw [hh]; rfl),
    if_neg (show ¬height > height by rw [gt_iff_lt, UInt64.lt_iff_toNat_lt]; omega), hbp, hreqp, if_neg (not_not.mpr rfl), hbt, hreqt,
    if_neg (Word.not_max_lt ts _), hexp]
  dsimp only
  rw [hproposer, if_neg (not_not.mpr rfl)]
  exact guarded_runOn_of_ok _ (hver hsig) _

theorem orAbort_runOn_of_ok {α : Type} {r : Except Abort α} {a : α} (h : r = .ok a) (c : Chain) :
    (orAbort r).runOn c = .ok (.ok a, c) := by
  rw [h]
  rfl

/-- Casting the local vote stops the run only for a height within the parking window of the
top of the word range, and marks only the voted block. -/
theorem castVote_ok (c : Chain) (signer : Keypair) {height : UInt64} (hash : Digest)
    (hroom : height.toNat + maxParkAhead.toNat < UInt64.size) {h : Digest}
    (hc : c.blockStatus h ≠ some .proposed) :
    ∃ c', (castVote signer height hash).runOn c = .ok (.ok (), c') ∧
      c'.blockStatus h ≠ some .proposed := by
  obtain ⟨r, hr⟩ := c.finality.recordVote_ok (v := Vote.signWith signer height hash) hroom
  unfold castVote
  dsimp only
  rw [bind_runOn_of_ok rfl, bind_runOn_of_ok rfl]
  simp only [Chain.finality_setStatus]
  rw [bind_runOn_of_ok (orAbort_runOn_of_ok hr _)]
  exact ⟨_, rfl, Chain.blockStatus_setStatus_ne hc (by decide)⟩

/-- The local vote, when due, stops the run only for a height within the parking window of the
top of the word range, and marks only the voted block. -/
theorem ownVote_ok (c : Chain) {height : UInt64} (hash : Digest) (voters : Option ValidatorSet)
    (hroom : height.toNat + maxParkAhead.toNat < UInt64.size) {h : Digest}
    (hc : c.blockStatus h ≠ some .proposed) :
    ∃ c', (ownVote height hash voters).runOn c = .ok (.ok (), c') ∧
      c'.blockStatus h ≠ some .proposed := by
  unfold ownVote
  rw [bind_runOn_of_ok rfl]
  dsimp only
  split
  · rename_i signer _
    split
    · split
      · exact ⟨c, rfl, hc⟩
      · split
        · exact castVote_ok c signer hash hroom hc
        · exact ⟨c, rfl, hc⟩
    · split
      · exact castVote_ok c signer hash hroom hc
      · exact ⟨c, rfl, hc⟩
  · exact ⟨c, rfl, hc⟩

theorem bind_runOn_of_error {α β : Type} {x : ChainM α} {f : α → ChainM β} {c c' : Chain} {e : ChainError}
    (h : x.runOn c = .ok (.error e, c')) : (x >>= f).runOn c = .ok (.error e, c') := by
  unfold runOn at h ⊢
  simp only [ExceptT.run_bind, StateT.run_bind, h]
  rfl

/-- A step that goes through, to a chain with `Q`, followed by one that answers with `P` from
every chain with `Q`, answers with `P`. -/
theorem bind_of_ok {α β : Type} {x : ChainM α} {f : α → ChainM β} {c : Chain} {a : α}
    {Q : Chain → Prop} {P : Except ChainError β → Chain → Prop}
    (hx : ∃ c', x.runOn c = .ok (.ok a, c') ∧ Q c')
    (hf : ∀ c', Q c' → ∃ r c'', (f a).runOn c' = .ok (r, c'') ∧ P r c'') :
    ∃ r c'', (x >>= f).runOn c = .ok (r, c'') ∧ P r c'' := by
  obtain ⟨c', hrun, hq⟩ := hx
  rw [bind_runOn_of_ok hrun]
  exact hf c' hq

theorem commit_runOn (c : Chain) : commit.runOn c = .ok (c.tryCommit.2, c.tryCommit.1) := by
  unfold commit
  rw [bind_runOn_of_ok rfl]
  dsimp only
  rcases c.tryCommit with ⟨c', r⟩
  cases r <;> rfl

/-- Accepting a block stops the run only near the top of the word range; otherwise it answers
a status other than `Proposed`, or a storage error from committing. -/
theorem acceptBlock_ok (c : Chain) (b : Block) (outcome : BlockOutcome)
    (hroom : b.height.toNat + maxParkAhead.toNat < UInt64.size)
    (hparked : ∀ h vs, c.finality.parked.get? h = some vs →
      ∀ v ∈ vs, v.height.toNat + maxParkAhead.toNat < UInt64.size) :
    ∃ r c', (acceptBlock b b.hash outcome).runOn c = .ok (r, c') ∧
      ((∃ s, r = .ok s ∧ s ≠ .proposed) ∨ ∃ e, r = .error (.storage e)) := by
  have hwindow : maxParkAhead.toNat = 64 := rfl
  have hnext : (b.height + 1).toNat = b.height.toNat + 1 :=
    Word.add_toNat_of_lt (by rw [UInt64.toNat_one]; omega)
  unfold acceptBlock
  dsimp only
  rw [bind_runOn_of_ok rfl,
    bind_runOn_of_ok (orAbort_runOn_of_ok (Word.addStrict_of_lt (by rw [UInt64.toNat_one]; omega)) _),
    bind_runOn_of_ok rfl, bind_runOn_of_ok rfl]
  simp only [Chain.finality_setStatus]
  obtain ⟨⟨fm, finalized⟩, hreg⟩ := c.finality.registerValidatorSet_ok
    (show (outcome.ledger.validatorSet (b.height + 1) c.params.minValidatorStake).height.toNat + 1 <
      UInt64.size by show (b.height + 1).toNat + 1 < UInt64.size; omega)
    (fun vs hvs => hparked _ vs hvs)
  rw [bind_runOn_of_ok (orAbort_runOn_of_ok hreg _), bind_runOn_of_ok rfl]
  refine bind_of_ok (ownVote_ok _ _ _ hroom (h := b.hash) ?_) fun c₄ hst₄ => ?_
  · exact Chain.blockStatus_setStatus_self_ne _ _ (by decide)
  have hst₅ : c₄.forwardFinalityEvidence.blockStatus b.hash ≠ some .proposed := by
    rw [Chain.blockStatus_of_statuses (Chain.statuses_forwardFinalityEvidence c₄)]
    exact hst₄
  obtain ⟨hst₆, herr⟩ := c₄.forwardFinalityEvidence.tryCommit_spec hst₅
  rw [bind_runOn_of_ok rfl]
  cases hres : c₄.forwardFinalityEvidence.tryCommit.2 with
  | error e =>
    obtain ⟨se, rfl⟩ := herr e hres
    refine ⟨.error (.storage se), c₄.forwardFinalityEvidence.tryCommit.1,
      bind_runOn_of_error ?_, .inr ⟨se, rfl⟩⟩
    rw [commit_runOn, hres]
  | ok u =>
    rw [bind_runOn_of_ok (show commit.runOn _ = .ok (.ok (), c₄.forwardFinalityEvidence.tryCommit.1)
      by rw [commit_runOn, hres])]
    refine ⟨_, _, rfl, .inl ⟨_, rfl, ?_⟩⟩
    -- a block the chain forgot reads as validated
    cases hread : c₄.forwardFinalityEvidence.tryCommit.1.blockStatus b.hash with
    | none => decide
    | some s =>
      rw [hread] at hst₆
      exact fun hs => hst₆ (congrArg some hs)

theorem tryCatch_runOn_of_ok {α : Type} {x : ChainM α} {c c' : Chain} {a : α}
    (h : x.runOn c = .ok (.ok a, c')) (handler : ChainError → ChainM α) :
    (tryCatch x handler).runOn c = .ok (.ok a, c') := by
  have hx : StateT.run x c = .ok (.ok a, c') := h
  show (ExceptT.run (ExceptT.tryCatch x handler)).run c = _
  simp only [ExceptT.tryCatch, ExceptT.run_mk, StateT.run_bind, hx]
  rfl

/-- Receiving a proposed block goes through and answers a status other than `Proposed`, or a
storage error from committing. -/
theorem receiveBlock_proposed {c c₁ : Chain} {kp : Keypair} {ts : UInt64} {b : Block}
    (hprop : (propose kp ts).runOn c = .ok (.ok b, c₁))
    (hsig : SignedHeader.verifyHeader b.header b.signature = .ok ())
    (hroom : c.head.1.toNat + maxParkAhead.toNat + 1 < UInt64.size)
    (hparked : ∀ h vs, c.finality.parked.get? h = some vs →
      ∀ v ∈ vs, v.height.toNat + maxParkAhead.toNat < UInt64.size) :
    ∃ r c₂, (receiveBlock b).runOn c₁ = .ok (r, c₂) ∧
      ((∃ s, r = .ok s ∧ s ≠ .proposed) ∨ ∃ e, r = .error (.storage e)) := by
  obtain ⟨outcome, hval⟩ := validate_proposed hprop hsig
  obtain ⟨height, _, req, _, hh, -, -, hreqh, -, -, hbuild, rfl⟩ := propose_eq_ok hprop
  have hheight : b.height.toNat = c.head.1.toNat + 1 := by
    rw [show b.height = height from (buildBlock_eq_ok hbuild).1.trans hreqh]
    simpa using Word.addStrict_eq_ok hh
  unfold receiveBlock
  rw [bind_runOn_of_ok rfl]
  dsimp only
  rcases Chain.blockStatus_setStatus_self c b.hash .proposed with hst | hst
  all_goals
    rw [hst]
    dsimp only
    rw [bind_runOn_of_ok (tryCatch_runOn_of_ok hval _)]
    exact acceptBlock_ok _ b outcome (by omega) hparked

end ChainM

/-! ## The proposer's block is accepted -/

open ChainM in
/-- A block its proposer builds is accepted on the same parent.  Building on a ledger whose
evidence prepares goes through, and the block verifies there with the outcome it was built with
once its header signature verifies, as long as no two candidates share a hash over different
contents and none has the last nonce.  On a node, the block a proposal returns passes validation
on the chain the proposal left, which it leaves as it is, and receiving it answers a status
other than `Proposed`, or a storage error, as long as the head and every vote parked with the
tracker are a parking window below the top of the word range. -/
theorem proposed_block_accepted :
    (∀ (signer : Keypair) (prev : Ledger) (req : BuildRequest) (params : LedgerParams)
        (prepared : Ledger) (penalties : List (Evidence × PenaltyOutcome)),
      prepareBlock prev req.height req.evidence params = .ok (prepared, penalties) →
      (∀ t₁ ∈ req.candidates, ∀ t₂ ∈ req.candidates,
        t₁.hash = t₂.hash → t₁.signBytes = t₂.signBytes) →
      (∀ t ∈ req.candidates, t.nonce ≠ Word.max) →
      ∃ block outcome, (buildBlock signer prev req params).run = .ok (.ok (block, outcome)) ∧
        (SignedHeader.verifyHeader block.header block.signature = .ok () →
          (verifyBlock prev block params).run = .ok (.ok outcome))) ∧
    (∀ (c c₁ : Chain) (kp : Keypair) (ts : UInt64) (b : Block),
      (propose kp ts).runOn c = .ok (.ok b, c₁) →
      SignedHeader.verifyHeader b.header b.signature = .ok () →
      c.head.1.toNat + maxParkAhead.toNat + 1 < UInt64.size →
      (∀ h vs, c.finality.parked.get? h = some vs →
        ∀ v ∈ vs, v.height.toNat + maxParkAhead.toNat < UInt64.size) →
      (∃ outcome, (validate b b.hash).runOn c₁ = .ok (.ok outcome, c₁)) ∧
      ∃ r c₂, (receiveBlock b).runOn c₁ = .ok (r, c₂) ∧
        ((∃ s, r = .ok s ∧ s ≠ .proposed) ∨ ∃ e, r = .error (.storage e))) :=
  ⟨fun signer _ _ _ _ _ hprep hhash hnonce => buildBlock_verifies signer hprep hhash hnonce,
    fun _ _ _ _ _ hprop hsig hroom hparked =>
      ⟨validate_proposed hprop hsig, receiveBlock_proposed hprop hsig hroom hparked⟩⟩

/-! ## The one-validator devnet -/

/-- The key of the devnet's only validator, which its node holds. -/
def soloKey : Keypair := Keypair.ofLabel "validator-0"

/-- The one-validator devnet, opened as its validator's node. -/
def soloOpened : Option Chain :=
  (Chain.ofStore (Devnet.withValidators {} 1) {} (some soloKey)).run.toOption.bind Except.toOption

/-- A proposal can be answered `Rejected`.  On the one-validator devnet, once the tracker has
counted the validator's vote for another block at height 1, which alone is a quorum, the block
the validator then proposes at that height is received and rejected: committing finds the
height finalized for the other block and drops the local fork. -/
theorem proposal_rejected_after_conflicting_finality :
    (do
      let c ← soloOpened
      let (r, _) ← ((do
          let _ ← ChainM.receiveVote (Vote.signWith soloKey 1 (Digest.ofText "x"))
          let b ← ChainM.propose soloKey 1
          ChainM.receiveBlock b : ChainM BlockStatus).runOn c).toOption
      r.toOption) = some .rejected := by
  decide +kernel

theorem soloOpened_isSome : soloOpened.isSome := by
  decide +kernel

/-- The node of the one-validator devnet at genesis. -/
def soloNode : Chain := soloOpened.get soloOpened_isSome

/-- The first block the devnet's validator proposes, at timestamp 1. -/
def soloBlock : Block :=
  match (ChainM.propose soloKey 1).runOn soloNode with
  | .ok (.ok b, _) => b
  | _ => default

/-- The chain that first proposal leaves. -/
def soloProposed : Chain :=
  match (ChainM.propose soloKey 1).runOn soloNode with
  | .ok (.ok _, c₁) => c₁
  | _ => soloNode

theorem propose_soloNode :
    (ChainM.propose soloKey 1).runOn soloNode = .ok (.ok soloBlock, soloProposed) := by
  have h : ((ChainM.propose soloKey 1).runOn soloNode matches .ok (.ok _, _)) = true := by
    decide +kernel
  unfold soloBlock soloProposed
  revert h
  generalize (ChainM.propose soloKey 1).runOn soloNode = r
  rcases r with _ | ⟨_ | b, c₁⟩ <;> simp

/-- A request for the block above the devnet's genesis, with the faucet's first transfer twice
and a second transfer at the same nonce. -/
def soloRequest : BuildRequest :=
  { height := 1, parent := soloNode.finalizedHash, timestamp := 1,
    candidates := [Devnet.drip soloNode 0, Devnet.drip soloNode 0, Devnet.drip soloNode 1],
    evidence := [], maxTxs := 16 }

theorem proposed_block_accepted_on_devnet :
    (prepareBlock soloNode.ledger soloRequest.height soloRequest.evidence soloNode.params =
        .ok (soloNode.ledger.beginBlock 1, []) ∧
      (∀ t₁ ∈ soloRequest.candidates, ∀ t₂ ∈ soloRequest.candidates,
        t₁.hash = t₂.hash → t₁.signBytes = t₂.signBytes) ∧
      (∀ t ∈ soloRequest.candidates, t.nonce ≠ Word.max) ∧
      ∃ block outcome,
        (buildBlock soloKey soloNode.ledger soloRequest soloNode.params).run =
          .ok (.ok (block, outcome)) ∧
        (SignedHeader.verifyHeader block.header block.signature = .ok () →
          (verifyBlock soloNode.ledger block soloNode.params).run = .ok (.ok outcome))) ∧
    ((ChainM.propose soloKey 1).runOn soloNode = .ok (.ok soloBlock, soloProposed) ∧
      SignedHeader.verifyHeader soloBlock.header soloBlock.signature = .ok () ∧
      soloNode.head.1.toNat + maxParkAhead.toNat + 1 < UInt64.size ∧
      (∀ h vs, soloNode.finality.parked.get? h = some vs →
        ∀ v ∈ vs, v.height.toNat + maxParkAhead.toNat < UInt64.size) ∧
      (∃ outcome, (ChainM.validate soloBlock soloBlock.hash).runOn soloProposed =
        .ok (.ok outcome, soloProposed)) ∧
      ∃ r c₂, (ChainM.receiveBlock soloBlock).runOn soloProposed = .ok (r, c₂) ∧
        ((∃ s, r = .ok s ∧ s ≠ .proposed) ∨ ∃ e, r = .error (.storage e))) := by
  have hprep : prepareBlock soloNode.ledger soloRequest.height soloRequest.evidence
      soloNode.params = .ok (soloNode.ledger.beginBlock 1, []) := rfl
  -- the closed facts are decided together, so that the devnet is opened only once
  obtain ⟨hhash, hnonce, hsig, hroom, hnone⟩ :
      (∀ t₁ ∈ soloRequest.candidates, ∀ t₂ ∈ soloRequest.candidates,
        t₁.hash = t₂.hash → t₁.signBytes = t₂.signBytes) ∧
      (∀ t ∈ soloRequest.candidates, t.nonce ≠ Word.max) ∧
      SignedHeader.verifyHeader soloBlock.header soloBlock.signature = .ok () ∧
      soloNode.head.1.toNat + maxParkAhead.toNat + 1 < UInt64.size ∧
      soloNode.finality.parked.toList = [] := by
    decide +kernel
  have hparked : ∀ h vs, soloNode.finality.parked.get? h = some vs →
      ∀ v ∈ vs, v.height.toNat + maxParkAhead.toNat < UInt64.size := by
    intro h vs hget
    simp [KeyMap.get?, hnone] at hget
  exact ⟨⟨hprep, hhash, hnonce,
      proposed_block_accepted.1 soloKey _ soloRequest _ _ _ hprep hhash hnonce⟩,
    propose_soloNode, hsig, hroom, hparked,
      proposed_block_accepted.2 _ _ _ _ _ propose_soloNode hsig hroom hparked⟩

end StakeChain

import StakeChain.Chain.Commit

/-!
# Inputs of a chain

* `ChainM.submit`: a transaction for the pool, admitted against the finalized ledger;
* `ChainM.propose`: the next block on the head, built by the height's selected proposer from
  the pool and the pending evidence; the block is not applied, only marked `Proposed`;
* `ChainM.receiveBlock`: a block from a peer or from the node itself.  A block already
  validated, voted, finalized or rejected is answered with its status.  Otherwise it must
  extend the head: one height above it, on its hash, not earlier than it, by the selected
  proposer, and verify.  A second validly signed block by the proposer of a block held at the
  same height is equivocation: the pair becomes evidence and, above the final height, every
  pending block is dropped.  A refused block is marked `Rejected` unless the refusal only
  reflects the current head.  An accepted block becomes pending, the snapshot of the next
  height is registered, and the local validator votes for it once per height if it is a
  member of the block's snapshot;
* `ChainM.receiveVote`: a vote for the finality tracker; equivocation found on the way is
  passed to the evidence pool, and a finalized height is committed;
* `ChainM.receiveEvidence`: evidence for the evidence pool, judged on the head ledger.
-/

set_option autoImplicit false

namespace StakeChain

namespace Chain

/-- Submits evidence to the evidence pool, judged on the head ledger. -/
def submitEvidence (c : Chain) (e : Evidence) : Chain × SubmitOutcome :=
  let (m, o) := c.slashing.submit e c.headLedger
  ({ c with slashing := m }, o)

/-- Passes the tracker's new equivocation evidence to the evidence pool. -/
def forwardFinalityEvidence (c : Chain) : Chain :=
  let (fm, ev) := c.finality.takeEvidence
  ev.foldl (fun c e => (c.submitEvidence e).1) { c with finality := fm }

/-- Drops every pending block as rejected, and the snapshots beyond the next height. -/
def revertToFinalized (c : Chain) : Chain :=
  let c := c.pending.foldl (fun c p => c.setStatus p.hash .rejected) { c with pending := [] }
  { c with snapshots := c.snapshots.filter fun k _ => k.toNat < c.finalizedHeight.toNat + 2 }

/-- Evidence when `b` is a second, validly signed block by the proposer of the block held at
its height. -/
def doubleProposal (c : Chain) (b : Block) (hash : Digest) : Option Evidence := do
  let ours ← c.headerAt b.height
  if ours.hash = hash ∨ ours.header.proposerKey ≠ b.header.proposerKey then none
  if SignedHeader.verifyHeader b.header b.signature matches .error _ then none
  pure (Evidence.ofHeaders ours b.signedHeader)

end Chain

namespace ChainM

/-- Admits a transaction to the pool; a refusal is counted by the pool. -/
def submit (tx : Transaction) : ChainM Unit := do
  let c ← get
  let (m, r) := c.mempool.push tx c.ledger c.params
  set { c with mempool := m }
  discard (except ChainError.mempool r)

/-- Builds and signs the next block on the head. -/
def propose (kp : Keypair) (timestamp : UInt64) : ChainM Block := do
  let c ← get
  let (head, parent, parentTs) := c.head
  let height ← orAbort (Word.addStrict head 1)
  let some expected := c.proposerFor height | throw (.block (.noValidators height))
  if expected.address ≠ kp.address then throw (.notProposer height kp.address)
  let req : BuildRequest :=
    { height := height, parent := parent, timestamp := max timestamp parentTs,
      candidates := c.mempool.candidates,
      evidence := c.slashing.pending c.headLedger c.consensus.maxEvidencePerBlock.toNat,
      maxTxs := c.consensus.maxTxsPerBlock.toNat }
  let (block, _) ← guarded ChainError.block (buildBlock kp c.headLedger req c.params)
  modify fun c => c.setStatus block.hash .proposed
  pure block

/-- Checks that a block extends the head and verifies, giving its execution outcome. -/
def validate (b : Block) (hash : Digest) : ChainM BlockOutcome := do
  let c ← get
  let height := b.height
  let (head, headHash, headTs) := c.head
  if height ≤ head then
    if let some ev := c.doubleProposal b hash then
      modify fun c => (c.submitEvidence ev).1
      if height > c.finalizedHeight then modify Chain.revertToFinalized
      throw (.equivocation hash)
    if height ≤ c.finalizedHeight then throw (.block (.alreadyFinalized height))
    throw (.block (.unexpectedHeight (← orAbort (Word.addStrict head 1)) height))
  let next ← orAbort (Word.addStrict head 1)
  if height > next then throw (.block (.unknownParent height))
  if b.header.parent ≠ headHash then throw (.block (.parentMismatch headHash b.header.parent))
  if b.header.timestamp < headTs then throw (.block (.timestampRegression headTs b.header.timestamp))
  let some expected := c.proposerFor height | throw (.block (.noValidators height))
  let got := b.header.proposer
  if expected.address ≠ got then throw (.block (.wrongProposer expected.address got))
  guarded ChainError.block (verifyBlock c.headLedger b c.params)

/-- The local validator's vote: kept as its vote at the height, counted by the tracker and
broadcast. -/
def castVote (signer : Keypair) (height : UInt64) (hash : Digest) : ChainM Unit := do
  let vote := Vote.signWith signer height hash
  modify fun c => { c with ownVotes := c.ownVotes.insert height hash }.setStatus hash .voted
  let (fm, _) ← orAbort ((← get).finality.recordVote vote)
  modify fun c => { c with finality := fm }.emit (.broadcast vote)

/-- The local validator's vote for an accepted block, when it is due. -/
def ownVote (height : UInt64) (hash : Digest) (voters : Option ValidatorSet) : ChainM Unit := do
  let c ← get
  let some signer := c.signer | pure ()
  let inSet := (voters.map fun v => v.contains signer.address).getD false
  match c.ownVotes.get? height with
  | some prior => if prior ≠ hash then return
  | none => pure ()
  if inSet then castVote signer height hash

/-- Accepts a validated block: it becomes pending, the snapshot of the next height is
registered, the local validator votes for it when due, and what the tracker finalized is
committed; the block's status afterwards. -/
def acceptBlock (b : Block) (hash : Digest) (outcome : BlockOutcome) : ChainM BlockStatus := do
  let height := b.height
  let c ← get
  let nextHeight ← orAbort (Word.addStrict height 1)
  let next := outcome.ledger.validatorSet nextHeight c.params.minValidatorStake
  let voters := c.snapshots.get? height
  set ({ c with snapshots := c.snapshots.insert nextHeight next,
                pending := c.pending ++ [({ block := b, hash := hash, outcome := outcome } : PendingBlock)] }.setStatus hash .validated)
  let (fm, _) ← orAbort ((← get).finality.registerValidatorSet next)
  modify fun c => { c with finality := fm }
  ownVote height hash voters
  modify Chain.forwardFinalityEvidence
  commit
  pure (((← get).blockStatus hash).getD .validated)

/-- Receives a block: the block's status afterwards. -/
def receiveBlock (b : Block) : ChainM BlockStatus := do
  let hash := b.hash
  match (← get).blockStatus hash with
  | none | some .proposed => pure ()
  | some known => return known
  let outcome ← tryCatch (validate b hash) fun e => do
    if let .block be := e then
      if be.dependsOnHead then throw e
    modify fun c => c.setStatus hash .rejected
    throw e
  acceptBlock b hash outcome

/-- Receives a vote: whether it finalized its height. -/
def receiveVote (v : Vote) : ChainM Bool := do
  let (fm, r) ← orAbort ((← get).finality.recordVote v)
  modify fun c => Chain.forwardFinalityEvidence { c with finality := fm }
  match r with
  | .ok true =>
    commit
    pure true
  | .ok false => pure false
  | .error e => throw (.finality e)

/-- Receives evidence. -/
def receiveEvidence (e : Evidence) : ChainM SubmitOutcome := do
  let (c, o) := (← get).submitEvidence e
  set c
  pure o

end ChainM

end StakeChain

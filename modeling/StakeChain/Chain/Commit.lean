import StakeChain.Chain.Basic

/-!
# Committing final blocks

When the finality tracker has finalized a height above the chain's, the pending blocks up to
that height are written to the store one block per batch, oldest first.  Each written block
becomes the finalized block: its ledger replaces the finalized ledger, the transaction pool
drops what it consumed, the evidence pool learns its penalties, and the chain reports the
applied penalties and then the block.  A failed write stops the commit; the blocks written
before it stay committed.

If the tracker finalized a different block than the pending one at that height, the local fork
from that height on is dropped and rejected.  After a complete commit, snapshots, headers, own
votes and the tracker's records older than the retention window are pruned.
-/

set_option autoImplicit false

namespace StakeChain

namespace Chain

/-- Records a committed block's penalties with the evidence pool; the applied ones, as
penalty records. -/
def recordPenalties (c : Chain) (height : UInt64) (penalties : List (Evidence × PenaltyOutcome)) :
    Chain × List PenaltyRecord :=
  penalties.foldl (fun (acc : Chain × List PenaltyRecord) (e, o) =>
    let c := { acc.1 with slashing := acc.1.slashing.recordCommitted e o }
    match o with
    | .applied offender slashed newStake jailedUntil =>
      (c, acc.2 ++ [⟨e.id, offender, height, slashed, newStake, jailedUntil⟩])
    | .alreadyApplied .. => (c, acc.2)) (c, [])

/-- Writes the oldest pending block and makes it the finalized block; `cert` is stored with it
when it is the block at the certified height. -/
def commitOldest (c : Chain) (certified : UInt64) (cert : Option Certificate) :
    Except ChainError Chain :=
  match c.pending with
  | [] => .ok c
  | p :: rest =>
    let certRef := if p.block.height = certified then cert else none
    match c.store.commitBlock p.block certRef p.outcome.ledger c.ledger with
    | .error e => .error (.storage e)
    | .ok store =>
      let h := p.block.height
      let c := { c with store := store, pending := rest, ledger := p.outcome.ledger,
                        finalized := p.block.signedHeader, finalizedHash := p.hash,
                        recentHeaders := c.recentHeaders.insert h p.block.signedHeader }
      let c := c.setStatus p.hash .finalized
      let c := { c with mempool := c.mempool.onFinalized h c.ledger }
      let (c, records) := c.recordPenalties h p.outcome.penalties
      let c := records.foldl (fun c r => c.emit (.penalized r)) c
      .ok (c.emit (.finalized p.block certRef))

/-- Commits the `n` oldest pending blocks, stopping at the first failed write. -/
def commitOldestN (certified : UInt64) (cert : Option Certificate) :
    Nat → Chain → Chain × Except ChainError Unit
  | 0, c => (c, .ok ())
  | n + 1, c =>
    match c.commitOldest certified cert with
    | .error e => (c, .error e)
    | .ok c => commitOldestN certified cert n c

/-- Commits the pending blocks up to the tracker's final height. -/
def tryCommit (c : Chain) : Chain × Except ChainError Unit :=
  let height := c.finality.finalizedHeight
  let hash := c.finality.finalizedHash
  let cert := c.finality.certificate height
  if height ≤ c.finalizedHeight then (c, .ok ())
  else
    match c.pending.findIdx? (fun p => p.block.height = height) with
    | none => (c, .ok ())
    | some idx =>
      if ((c.pending.drop idx).head?.map PendingBlock.hash) ≠ some hash then
        let c := (c.pending.drop idx).foldl (fun c p => c.setStatus p.hash .rejected)
          { c with pending := c.pending.take idx }
        ({ c with snapshots := c.snapshots.filter fun k _ => k ≤ height }, .ok ())
      else
        match commitOldestN height cert (idx + 1) c with
        | (c, .error e) => (c, .error e)
        | (c, .ok ()) =>
          let retain := c.consensus.voteRetentionHeights
          let floor := Word.subSat c.finalizedHeight retain
          ({ c with snapshots := c.snapshots.keysFrom floor,
                    recentHeaders := c.recentHeaders.keysFrom floor,
                    ownVotes := c.ownVotes.keysFrom floor,
                    finality := c.finality.prune retain }, .ok ())

end Chain

namespace ChainM

/-- Commits what the tracker finalized. -/
def commit : ChainM Unit := do
  let (c, r) := (← get).tryCommit
  set c
  match r with
  | .ok () => pure ()
  | .error e => throw e

end ChainM

end StakeChain

import StakeChain.Store.Chain
import StakeChain.Config.Basic
import StakeChain.Mempool

/-!
# A node's chain

A chain holds the finalized ledger and the blocks validated on top of it but not yet final
(pending), each with the ledger it leads to.  Next to them it keeps the validator snapshot of
every upcoming height, the headers of recent final blocks, the blocks the local validator voted
for, the transaction pool, the store, the finality tracker, the evidence pool, and a status per
block hash (`Proposed`, `Validated`, `Voted`, `Finalized`, `Rejected`) for the 4096 most recently
touched blocks.

What the chain tells the outside (its votes, penalties and finalized blocks) is kept as a log
of `ChainEvent`s, newest last.

* `Chain.head`: the newest known block, pending or final;
* `Chain.hashAt`, `Chain.headerAt`: a block at a height among the final and pending ones;
* `Chain.proposerFor`: the proposer the snapshot and the parent hash select for a height.
-/

set_option autoImplicit false

namespace StakeChain

/-- Where a block stands. -/
inductive BlockStatus where
  | proposed
  | validated
  | voted
  | finalized
  | rejected
  deriving DecidableEq, Repr

def BlockStatus.name : BlockStatus → String
  | .proposed => "Proposed"
  | .validated => "Validated"
  | .voted => "Voted"
  | .finalized => "Finalized"
  | .rejected => "Rejected"

/-- Why the chain refused an input. -/
inductive ChainError where
  | block (e : BlockError)
  | storage (e : StorageError)
  | finality (e : FinalityError)
  | mempool (e : MempoolError)
  | config (e : ConfigError)
  | notProposer (height : UInt64) (signer : Address)
  /-- A second block at a known height by the same proposer. -/
  | equivocation (hash : Digest)
  deriving DecidableEq, Repr

namespace ChainError

def message : ChainError → String
  | .block e => e.message
  | .storage e => e.message
  | .finality e => e.message
  | .mempool e => e.message
  | .config e => e.message
  | .notProposer h s => s.toHex ++ s!" is not the proposer for height {h}"
  | .equivocation d => "block " ++ d.toHex ++ " equivocates with a known block at its height"

def kind : ChainError → String
  | .block e => "Block." ++ e.kind
  | .storage e => "Storage." ++ e.kind
  | .finality e => "Finality." ++ e.kind
  | .mempool e => "Mempool." ++ e.kind
  | .config e => "Config." ++ e.kind
  | .notProposer .. => "NotProposer"
  | .equivocation _ => "Equivocation"

end ChainError

/-- What the chain reports to the outside. -/
inductive ChainEvent where
  /-- The local validator's vote, to be sent to peers. -/
  | broadcast (v : Vote)
  | penalized (r : PenaltyRecord)
  /-- A block became final; the certificate is given for the block the finality tracker
  certified, not for ancestors committed with it. -/
  | finalized (b : Block) (cert : Option Certificate)
  deriving Repr

/-- A validated block that is not final yet, with the result of executing it. -/
structure PendingBlock where
  block : Block
  hash : Digest
  outcome : BlockOutcome

/-- A node's chain. -/
structure Chain where
  params : LedgerParams
  consensus : ConsensusSection
  /-- The local validator's key, if the node is a validator. -/
  signer : Option Keypair
  ledger : Ledger
  finalized : SignedHeader
  finalizedHash : Digest
  pending : List PendingBlock := []
  statuses : RecentMap Digest BlockStatus := { capacity := 4096 }
  snapshots : KeyMap UInt64 ValidatorSet
  recentHeaders : KeyMap UInt64 SignedHeader
  /-- The block the local validator voted for, per height. -/
  ownVotes : KeyMap UInt64 Digest := .empty
  mempool : Mempool
  store : ChainStore
  finality : FinalityManager
  slashing : SlashingManager := {}
  events : List ChainEvent := []

namespace Chain

def finalizedHeight (c : Chain) : UInt64 := c.finalized.header.height

/-- Height, hash and timestamp of the newest known block. -/
def head (c : Chain) : UInt64 × Digest × UInt64 :=
  match c.pending.getLast? with
  | some p => (p.block.height, p.hash, p.block.header.timestamp)
  | none => (c.finalizedHeight, c.finalizedHash, c.finalized.header.timestamp)

/-- The ledger after the newest known block. -/
def headLedger (c : Chain) : Ledger :=
  match c.pending.getLast? with
  | some p => p.outcome.ledger
  | none => c.ledger

/-- The pending block at a height. -/
def pendingAt (c : Chain) (h : UInt64) : Option PendingBlock :=
  c.pending.find? fun p => p.block.height = h

/-- The hash of the final or pending block at a height. -/
def hashAt (c : Chain) (h : UInt64) : Option Digest :=
  if h = c.finalizedHeight then some c.finalizedHash
  else
    match c.pendingAt h with
    | some p => some p.hash
    | none => (c.recentHeaders.get? h).map SignedHeader.hash

/-- The signed header of the pending or recent final block at a height. -/
def headerAt (c : Chain) (h : UInt64) : Option SignedHeader :=
  match c.pendingAt h with
  | some p => some p.block.signedHeader
  | none => c.recentHeaders.get? h

/-- The proposer of a height: selected from the height's snapshot with a seed drawn from the
parent's hash. -/
def proposerFor (c : Chain) (h : UInt64) : Option Validator := do
  if h = 0 then none
  let parent ← c.hashAt (h - 1)
  let vset ← c.snapshots.get? h
  vset.selectProposer h (proposerSeed parent h)

def setStatus (c : Chain) (hash : Digest) (s : BlockStatus) : Chain :=
  { c with statuses := c.statuses.put hash s }

def blockStatus (c : Chain) (hash : Digest) : Option BlockStatus := c.statuses.peek? hash

def emit (c : Chain) (e : ChainEvent) : Chain := { c with events := c.events ++ [e] }

def isFinalized (c : Chain) (h : UInt64) : Bool := h ≤ c.finalizedHeight

/-- The block at a height: pending, else stored. -/
def blockAt (c : Chain) (h : UInt64) : Chain × Except ChainError (Option Block) :=
  match c.pendingAt h with
  | some p => (c, .ok (some p.block))
  | none =>
    let (store, r) := c.store.block h
    ({ c with store := store }, r.mapError ChainError.storage)

/-- The certificate of a height: held by the finality tracker, else stored. -/
def certificateAt (c : Chain) (h : UInt64) : Except ChainError (Option Certificate) :=
  match c.finality.certificate h with
  | some cert => .ok (some cert)
  | none => (c.store.certificate h).mapError ChainError.storage

/-- Evidence carried by a finalized block. -/
def committedEvidence (c : Chain) (id : Digest) : Except ChainError (Option Evidence) :=
  (c.store.evidence id).mapError ChainError.storage

end Chain

/-- An operation on a chain: it may fail with a chain error (keeping what it changed so far) or
stop the run with an abort. -/
abbrev ChainM := ExceptT ChainError (StateT Chain (Except Abort))

namespace ChainM

variable {α ε : Type}

/-- A computation that may abort the run. -/
def orAbort (r : Except Abort α) : ChainM α := ExceptT.lift (StateT.lift r)

/-- A computation that may fail, its error turned into a chain error. -/
def except (toError : ε → ChainError) (r : Except ε α) : ChainM α :=
  match r with
  | .ok a => pure a
  | .error e => throw (toError e)

/-- A guarded computation, its error turned into a chain error. -/
def guarded (toError : ε → ChainError) (g : Guarded ε α) : ChainM α := do
  match ← orAbort g.run with
  | .ok a => pure a
  | .error e => throw (toError e)

/-- The result of an operation on a chain and the chain after it. -/
def runOn (op : ChainM α) (c : Chain) : Except Abort (Except ChainError α × Chain) :=
  (ExceptT.run op).run c

end ChainM

end StakeChain

import StakeChain.Ledger.Basic

/-!
# The pool of pending transactions

Pending transactions wait in one queue per sender, ordered by nonce.  Admission checks, in
order: the hash is not already pending, the chain id, the gas allowance, a nonce not below the
sender's finalized nonce, and the signature.  A transaction with the nonce of a pending one
replaces it if its fee is at least ten percent higher (and at least one more); a sender may
have at most 64 pending transactions; a full pool makes room by dropping, among the other
senders' highest-nonce transactions, one with the lowest fee.

Transactions stay until a finalized block consumes their nonce or they are older than 300
finalized heights.

* `Mempool.push`, `Mempool.candidates` (arrival order), `Mempool.onFinalized`.
-/

set_option autoImplicit false

namespace StakeChain

/-- Blocks after which a pending transaction expires. -/
def ttlBlocks : UInt64 := 300

/-- The most pending transactions per sender. -/
def maxPendingPerSender : Nat := 64

/-- Why a transaction is not admitted. -/
inductive MempoolError where
  | invalidSignature
  | wrongChain (got : UInt64)
  | duplicate
  | staleNonce (expected got : UInt64)
  | insufficientGas (required limit : UInt64)
  | feeTooLow (required : UInt64)
  | senderLimit
  | full
  deriving DecidableEq, Repr, Inhabited

namespace MempoolError

def message : MempoolError → String
  | .invalidSignature => "invalid signature"
  | .wrongChain c => s!"wrong chain id {c}"
  | .duplicate => "transaction already pending"
  | .staleNonce e g => s!"stale nonce {g}, account is at {e}"
  | .insufficientGas r l => s!"gas limit {l} below required {r}"
  | .feeTooLow r => s!"replacement fee too low: need at least {r}"
  | .senderLimit => "sender queue full"
  | .full => "mempool full"

def kind : MempoolError → String
  | .invalidSignature => "InvalidSignature"
  | .wrongChain _ => "WrongChain"
  | .duplicate => "Duplicate"
  | .staleNonce .. => "StaleNonce"
  | .insufficientGas .. => "InsufficientGas"
  | .feeTooLow _ => "FeeTooLow"
  | .senderLimit => "SenderLimit"
  | .full => "Full"

end MempoolError

/-- A pending transaction with its hash, arrival number and the height it arrived at. -/
structure PendingTx where
  tx : Transaction
  hash : Digest
  seq : Nat
  insertedHeight : UInt64
  deriving DecidableEq, Repr, Inhabited

/-- Counters of what happened to transactions. -/
structure MempoolMetrics where
  admitted : Nat := 0
  rejected : Nat := 0
  evicted : Nat := 0
  expired : Nat := 0
  rbfReplaced : Nat := 0
  committed : Nat := 0
  deriving DecidableEq, Repr, Inhabited

/-- The pool. -/
structure Mempool where
  cap : Nat
  currentHeight : UInt64 := 0
  nextSeq : Nat := 0
  /-- Sender, then nonce, to the pending transaction. -/
  queues : KeyMap Address (KeyMap UInt64 PendingTx) := .empty
  hashes : KeyMap Digest Unit := .empty
  metrics : MempoolMetrics := {}
  deriving DecidableEq, Repr, Inhabited

namespace Mempool

def size (m : Mempool) : Nat := m.hashes.size

def contains (m : Mempool) (h : Digest) : Bool := m.hashes.contains h

/-- The fee a replacement must reach: ten percent more, and at least one more. -/
def replacementFee (old : UInt64) : UInt64 := Word.addSat old (max (Word.mulSat old 10 / 100) 1)

/-- The pool without one pending transaction. -/
def removeEntry (m : Mempool) (sender : Address) (nonce : UInt64) : Mempool :=
  match m.queues.get? sender with
  | none => m
  | some q =>
    let hashes := match q.get? nonce with
      | some p => m.hashes.erase p.hash
      | none => m.hashes
    let q := q.erase nonce
    { m with hashes := hashes,
             queues := if q.isEmpty then m.queues.erase sender else m.queues.insert sender q }

/-- The entry to evict for room: among other senders' highest-nonce entries, the first with the
lowest fee in sender order. -/
def evictionCandidate (m : Mempool) (protect : Address) : Option (Address × UInt64) :=
  let tops := m.queues.toList.filterMap fun (s, q) =>
    if s = protect then none
    else (q.toList.getLast?).map fun (n, p) => (p.tx.fee, s, n)
  (tops.foldl (fun best t =>
    match best with
    | none => some t
    | some b => if t.1 < b.1 then some t else some b) none).map fun (_, s, n) => (s, n)

/-- Admission without the rejection counter. -/
def insertChecked (m : Mempool) (tx : Transaction) (l : Ledger) (params : LedgerParams) :
    Except MempoolError (Mempool × Bool) := do
  let hash := tx.hash
  if m.hashes.contains hash then throw .duplicate
  if tx.chainId ≠ params.chainId then throw (.wrongChain tx.chainId)
  let required := params.gas.cost tx
  if tx.gasLimit < required then throw (.insufficientGas required tx.gasLimit)
  let sender := tx.sender
  let expected := l.nonce sender
  if tx.nonce < expected then throw (.staleNonce expected tx.nonce)
  if tx.verifySignature matches .error _ then throw .invalidSignature
  let ptx : PendingTx := ⟨tx, hash, m.nextSeq, m.currentHeight⟩
  let q := m.queues.getD sender .empty
  match q.get? tx.nonce with
  | some existing =>
    let req := replacementFee existing.tx.fee
    if tx.fee < req then throw (.feeTooLow req)
    pure ({ m with hashes := (m.hashes.erase existing.hash).insert hash ()
                   nextSeq := m.nextSeq + 1
                   queues := m.queues.insert sender (q.insert tx.nonce ptx)
                   metrics := { m.metrics with rbfReplaced := m.metrics.rbfReplaced + 1 } },
      false)
  | none =>
    if q.size ≥ maxPendingPerSender then throw .senderLimit
    let m ← if m.size ≥ m.cap then
        match m.evictionCandidate sender with
        | none => throw .full
        | some (s, n) =>
          let m := m.removeEntry s n
          pure { m with metrics := { m.metrics with evicted := m.metrics.evicted + 1 } }
      else pure m
    let q := m.queues.getD sender .empty
    pure ({ m with hashes := m.hashes.insert hash ()
                   nextSeq := m.nextSeq + 1
                   queues := m.queues.insert sender (q.insert tx.nonce ptx)
                   metrics := { m.metrics with admitted := m.metrics.admitted + 1 } }, true)

/-- Admits a transaction against the finalized ledger: `true` for a new entry, `false` when it
replaced a pending one.  Every refusal is counted. -/
def push (m : Mempool) (tx : Transaction) (l : Ledger) (params : LedgerParams) :
    Mempool × Except MempoolError Bool :=
  match m.insertChecked tx l params with
  | .ok (m', b) => (m', .ok b)
  | .error e => ({ m with metrics := { m.metrics with rejected := m.metrics.rejected + 1 } },
      .error e)

/-- Every pending transaction in arrival order. -/
def candidates (m : Mempool) : List Transaction :=
  let all := m.queues.values.flatMap KeyMap.values
  (all.mergeSort fun a b => a.seq ≤ b.seq).map PendingTx.tx

/-- Drops what the finalized ledger consumed and what expired, at a finalized height. -/
def onFinalized (m : Mempool) (height : UInt64) (l : Ledger) : Mempool :=
  let step (acc : KeyMap Address (KeyMap UInt64 PendingTx) × List Digest × Nat × Nat)
      (e : Address × KeyMap UInt64 PendingTx) :=
    let (qs, dropped, committed, expired) := acc
    let (sender, q) := e
    let floor := l.nonce sender
    let (dropped, committed, expired) := q.toList.foldl (fun acc2 (n, p) =>
      let (dropped, committed, expired) := acc2
      if n < floor then (dropped ++ [p.hash], committed + 1, expired)
      else if Word.subSat height p.insertedHeight > ttlBlocks then
        (dropped ++ [p.hash], committed, expired + 1)
      else (dropped, committed, expired)) (dropped, committed, expired)
    let kept := q.filter fun n p =>
      !(n < floor) && !(Word.subSat height p.insertedHeight > ttlBlocks)
    let qs := if kept.isEmpty then qs else qs.insert sender kept
    (qs, dropped, committed, expired)
  let (queues, dropped, committed, expired) := m.queues.toList.foldl step (.empty, [], 0, 0)
  { m with currentHeight := height, queues := queues,
           hashes := dropped.foldl (fun hs h => hs.erase h) m.hashes,
           metrics := { m.metrics with committed := m.metrics.committed + committed,
                                       expired := m.metrics.expired + expired } }

end Mempool

end StakeChain

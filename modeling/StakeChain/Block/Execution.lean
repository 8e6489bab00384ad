import StakeChain.Slashing
import StakeChain.Ledger.StateRoot

/-!
# Executing, building and verifying blocks

A block runs on a copy of its parent ledger in a fixed order: the block is begun (matured
unbonding released, expired jails lifted), its evidence is penalized in block order (a repeated
evidence id is skipped), its transactions are applied in block order under the block gas
limit, and the fee pool is paid to the proposer.  The new ledger is handed back only when the
whole block succeeded.

* `executeBlock`: duplicate transactions and every signature are checked first, the signatures
  in parallel above 16 transactions (`verifySignaturesWith`), where the schedule decides which
  of several failures is reported; blocks are run with the parts of the parallel check met in
  order (`ParallelSchedule.first`), so the first failure is the one reported;
* `selectTransactions`: candidates by fee (highest first, ties by arrival), dry-run in passes
  on a scratch ledger; a future nonce waits for the next pass, any other failure drops the
  candidate, and selection ends at the first candidate that does not fit the gas limit;
* `buildBlock`, `verifyBlock`.
-/

set_option autoImplicit false

namespace StakeChain

/-- Why a block is refused. -/
inductive BlockError where
  | unexpectedHeight (expected got : UInt64)
  | parentMismatch (expected got : Digest)
  | timestampRegression (parent got : UInt64)
  | noValidators (height : UInt64)
  | wrongProposer (expected got : Address)
  | badProposerSignature
  | txRootMismatch (header computed : Digest)
  | evidenceRootMismatch (header computed : Digest)
  | stateRootMismatch (header computed : Digest)
  | gasUsedMismatch (header computed : UInt64)
  | gas (e : GasError)
  | duplicateTransaction (hash : Digest)
  | transaction (index : Nat) (e : LedgerError)
  | evidence (index : Nat) (e : SlashingError)
  | alreadyFinalized (height : UInt64)
  | unknownParent (height : UInt64)
  deriving DecidableEq, Repr, Inhabited

namespace BlockError

def message : BlockError → String
  | .unexpectedHeight e g => s!"unexpected height: expected {e}, got {g}"
  | .parentMismatch e g => "parent mismatch: expected " ++ e.toHex ++ ", got " ++ g.toHex
  | .timestampRegression p g => s!"timestamp {g} is before parent timestamp {p}"
  | .noValidators h => s!"no eligible validators at height {h}"
  | .wrongProposer e g =>
    "proposer " ++ g.toHex ++ " is not the selected proposer " ++ e.toHex
  | .badProposerSignature => "proposer signature invalid"
  | .txRootMismatch h c => "tx root mismatch: header " ++ h.toHex ++ ", computed " ++ c.toHex
  | .evidenceRootMismatch h c =>
    "evidence root mismatch: header " ++ h.toHex ++ ", computed " ++ c.toHex
  | .stateRootMismatch h c =>
    "state root mismatch: header " ++ h.toHex ++ ", computed " ++ c.toHex
  | .gasUsedMismatch h c => s!"gas used mismatch: header {h}, computed {c}"
  | .gas e => e.message
  | .duplicateTransaction h => "duplicate transaction " ++ h.toHex ++ " in block"
  | .transaction i e => s!"transaction {i} invalid: " ++ e.message
  | .evidence i e => s!"evidence {i} invalid: " ++ e.message
  | .alreadyFinalized h => s!"height {h} is already finalized"
  | .unknownParent h => s!"unknown parent for height {h}"

/-- The dotted kind path of the error. -/
def kind : BlockError → String
  | .unexpectedHeight .. => "UnexpectedHeight"
  | .parentMismatch .. => "ParentMismatch"
  | .timestampRegression .. => "TimestampRegression"
  | .noValidators _ => "NoValidators"
  | .wrongProposer .. => "WrongProposer"
  | .badProposerSignature => "BadProposerSignature"
  | .txRootMismatch .. => "TxRootMismatch"
  | .evidenceRootMismatch .. => "EvidenceRootMismatch"
  | .stateRootMismatch .. => "StateRootMismatch"
  | .gasUsedMismatch .. => "GasUsedMismatch"
  | .gas _ => "Gas.LimitExceeded"
  | .duplicateTransaction _ => "DuplicateTransaction"
  | .transaction _ e => "Transaction." ++ e.kind
  | .evidence _ e => "Evidence." ++ e.kind
  | .alreadyFinalized _ => "AlreadyFinalized"
  | .unknownParent _ => "UnknownParent"

/-- Errors that only reflect the receiver's current head; the same block may be valid later. -/
def dependsOnHead : BlockError → Bool
  | .unknownParent _ | .unexpectedHeight .. | .parentMismatch .. | .noValidators _ => true
  | _ => false

end BlockError

/-- The result of executing a block body on a parent ledger. -/
structure BlockOutcome where
  ledger : Ledger
  receipts : List Receipt
  gasUsed : UInt64
  fees : UInt64
  penalties : List (Evidence × PenaltyOutcome)
  deriving Inhabited

/-- Begins the block and penalizes its evidence in order, skipping repeated ids. -/
def prepareBlock (prev : Ledger) (height : UInt64) (evidence : List Evidence)
    (params : LedgerParams) : Except BlockError (Ledger × List (Evidence × PenaltyOutcome)) :=
  let start := prev.beginBlock height
  let step (acc : Ledger × List (Evidence × PenaltyOutcome) × List Digest) (ie : Nat × Evidence) :
      Except BlockError (Ledger × List (Evidence × PenaltyOutcome) × List Digest) :=
    let (l, ps, seen) := acc
    let (index, e) := ie
    let id := e.id
    if seen.contains id then .ok acc
    else
      match penalize l e params height with
      | .error err => .error (.evidence index err)
      | .ok (l', o) => .ok (l', ps ++ [(e, o)], seen ++ [id])
  (fun (l, ps, _) => (l, ps)) <$> ((List.range evidence.length).zip evidence).foldlM step
    (start, [], [])

/-- The first repeated transaction hash of a list. -/
def firstDuplicate (hashes : List Digest) : Option Digest :=
  let rec go : List Digest → List Digest → Option Digest
    | [], _ => none
    | h :: rest, seen => if seen.contains h then some h else go rest (h :: seen)
  go hashes []

/-- Above this many transactions, a block's signatures are checked in parallel. -/
def parallelVerifyThreshold : Nat := 16

/-- What the schedule of a parallel check decides: when several signatures fail, which failing
position is reported.  Given the failing positions in order, it names one of them. -/
structure ParallelSchedule where
  pick : List Nat → Nat
  pick_mem : ∀ l, l ≠ [] → pick l ∈ l

/-- The schedule of a pool that runs the parts of the check one after another: the left part
meets its failure first and stops the parts not yet begun, so the first failing position is
reported.  With parts running side by side a part to the right can stop the left one before it
meets its failure, and another failing position is reported. -/
def ParallelSchedule.first : ParallelSchedule where
  pick l := l.headD 0
  pick_mem l hl := by
    cases l with
    | nil => exact absurd rfl hl
    | cons i rest => exact List.mem_cons_self

/-- The positions of the transactions whose signature does not verify, in order. -/
def badSignatures (txs : List Transaction) : List Nat :=
  ((List.range txs.length).zip txs).filterMap fun (i, tx) =>
    match tx.verifySignature with
    | .ok () => none
    | .error _ => some i

/-- The signatures checked one after another: the first failure is reported. -/
def verifySignaturesInOrder (txs : List Transaction) : Except BlockError Unit :=
  ((List.range txs.length).zip txs).forM fun (i, tx) =>
    match tx.verifySignature with
    | .ok () => .ok ()
    | .error _ => .error (.transaction i .invalidSignature)

/-- The signatures checked in parallel: a failure is reported at the position the schedule
picks among the failing ones. -/
def verifySignaturesInParallel (sch : ParallelSchedule) (txs : List Transaction) :
    Except BlockError Unit :=
  match badSignatures txs with
  | [] => .ok ()
  | bad => .error (.transaction (sch.pick bad) .invalidSignature)

/-- A block's signature checks: in parallel above the threshold, one after another up to it. -/
def verifySignaturesWith (sch : ParallelSchedule) (txs : List Transaction) :
    Except BlockError Unit :=
  if txs.length > parallelVerifyThreshold then verifySignaturesInParallel sch txs
  else verifySignaturesInOrder txs

/-- A block's signature checks as blocks are run, the parts of the parallel check met in
order. -/
def verifySignatures (txs : List Transaction) : Except BlockError Unit :=
  verifySignaturesWith .first txs

/-- The `i`-th transaction of a block: its cost is charged to the meter, then it is applied. -/
def executeTx (params : LedgerParams) (acc : Ledger × GasMeter × List Receipt)
    (itx : Nat × Transaction) : Guarded BlockError (Ledger × GasMeter × List Receipt) := do
  let (l, m, rs) := acc
  let (i, tx) := itx
  let m ← match m.charge (params.gas.cost tx) with
    | .ok m' => pure m'
    | .error e => throw (BlockError.gas e)
  let r ← (l.applyVerified params tx).run
  match r with
  | .ok (l', rc) => pure (l', m, rs ++ [rc])
  | .error e => throw (BlockError.transaction i e)

/-- Executes a block body on its parent ledger. -/
def executeBlock (prev : Ledger) (height : UInt64) (proposer : Address) (txs : List Transaction)
    (evidence : List Evidence) (params : LedgerParams) : Guarded BlockError BlockOutcome := do
  if let some h := firstDuplicate (txs.map Transaction.hash) then
    throw (.duplicateTransaction h)
  Guarded.ofExcept (verifySignatures txs)
  let (working, penalties) ← Guarded.ofExcept (prepareBlock prev height evidence params)
  let meter : GasMeter := { limit := params.gas.blockGasLimit }
  let (working, meter, receipts) ← ((List.range txs.length).zip txs).foldlM
    (executeTx params) (working, meter, [])
  let (working, fees) := working.payFees proposer
  pure ⟨working, receipts, meter.used, fees, penalties⟩

/-- One pass of selection over the candidates in fee order. -/
structure Selection where
  scratch : Ledger
  used : UInt64
  done : List Bool
  picked : List Transaction
  /-- Set when selection must end: the block is full or a candidate does not fit. -/
  stopped : Bool
  progressed : Bool

/-- The fee order of the candidates: highest fee first, ties by arrival. -/
def feeOrder (candidates : List Transaction) : List Nat :=
  (List.range candidates.length).mergeSort fun a b =>
    let fa := (candidates.getD a default).fee
    let fb := (candidates.getD b default).fee
    fb < fa || (fa == fb && a ≤ b)

/-- One candidate in a pass. -/
def selectStep (candidates : List Transaction) (params : LedgerParams) (maxTxs : Nat)
    (s : Selection) (i : Nat) : Except Abort Selection :=
  if s.stopped || s.done.getD i false then .ok s
  else if s.picked.length ≥ maxTxs then .ok { s with stopped := true }
  else
    let tx := candidates.getD i default
    if !params.gas.canInclude s.used tx then .ok { s with stopped := true }
    else do
      match ← (s.scratch.applyTransaction params tx).run with
      | .ok (l, r) =>
        pure { s with scratch := l, used := s.used + r.gasUsed, done := s.done.set i true,
                      picked := s.picked ++ [tx], progressed := true }
      | .error e =>
        if e.isFutureNonce then pure s else pure { s with done := s.done.set i true }

/-- Passes until one makes no progress or selection stops; `fuel` bounds the passes. -/
def selectPasses (candidates : List Transaction) (params : LedgerParams) (maxTxs : Nat)
    (order : List Nat) : Nat → Selection → Except Abort Selection
  | 0, s => .ok s
  | fuel + 1, s => do
    let s' ← order.foldlM (selectStep candidates params maxTxs) { s with progressed := false }
    if s'.stopped || !s'.progressed then pure s'
    else selectPasses candidates params maxTxs order fuel s'

/-- The transactions chosen for a new block from candidates in arrival order. -/
def selectTransactions (base : Ledger) (candidates : List Transaction) (params : LedgerParams)
    (maxTxs : Nat) : Except Abort (List Transaction) := do
  let s ← selectPasses candidates params maxTxs (feeOrder candidates) (candidates.length + 1)
    ⟨base, 0, candidates.map fun _ => false, [], false, false⟩
  pure s.picked

/-- What a proposer needs to assemble a block. -/
structure BuildRequest where
  height : UInt64
  parent : Digest
  timestamp : UInt64
  candidates : List Transaction
  evidence : List Evidence
  maxTxs : Nat

/-- Builds and signs a block on `prev`, with the transactions selected on the prepared ledger. -/
def buildBlock (signer : Keypair) (prev : Ledger) (req : BuildRequest) (params : LedgerParams) :
    Guarded BlockError (Block × BlockOutcome) := do
  let (prepared, _) ← Guarded.ofExcept (prepareBlock prev req.height req.evidence params)
  let txs ← Guarded.ofAbort (selectTransactions prepared req.candidates params req.maxTxs)
  let outcome ← executeBlock prev req.height signer.address txs req.evidence params
  let header : BlockHeader :=
    { height := req.height, parent := req.parent, txRoot := txRoot txs,
      evidenceRoot := evidenceRoot req.evidence, stateRoot := outcome.ledger.stateRoot,
      gasUsed := outcome.gasUsed, proposerKey := signer.publicKey, timestamp := req.timestamp }
  pure (⟨header, SignedHeader.signatureOf signer header, txs, req.evidence⟩, outcome)

/-- Checks a block's signature and roots, re-executes it, then checks gas used and state root. -/
def verifyBlock (prev : Ledger) (b : Block) (params : LedgerParams) :
    Guarded BlockError BlockOutcome := do
  if SignedHeader.verifyHeader b.header b.signature matches .error _ then
    throw .badProposerSignature
  let txr := txRoot b.txs
  if txr ≠ b.header.txRoot then throw (.txRootMismatch b.header.txRoot txr)
  let evr := evidenceRoot b.evidence
  if evr ≠ b.header.evidenceRoot then throw (.evidenceRootMismatch b.header.evidenceRoot evr)
  let outcome ← executeBlock prev b.header.height b.header.proposer b.txs b.evidence params
  if outcome.gasUsed ≠ b.header.gasUsed then
    throw (.gasUsedMismatch b.header.gasUsed outcome.gasUsed)
  let sr := outcome.ledger.stateRoot
  if sr ≠ b.header.stateRoot then throw (.stateRootMismatch b.header.stateRoot sr)
  pure outcome

/-- The height-0 block: it commits to the genesis ledger's state root, over no transactions
and no evidence, with no proposer and no signature. -/
def Block.genesis (l : Ledger) (timestamp : UInt64) : Block :=
  { header := { height := 0, parent := Digest.zero, txRoot := chainHasher.emptyRoot,
                evidenceRoot := chainHasher.emptyRoot, stateRoot := l.stateRoot, gasUsed := 0,
                proposerKey := ⟨[]⟩, timestamp := timestamp }
    signature := [], txs := [], evidence := [] }

end StakeChain

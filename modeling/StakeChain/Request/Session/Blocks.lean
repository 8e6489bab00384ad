import StakeChain.Request.Session.Ledger

/-!
# Block steps of a session

Selecting transactions, executing, building and verifying blocks on the session ledger, and
penalizing evidence directly.  A block step with `commit` replaces the session ledger by the
block's resulting ledger; a built block may be saved by name.

A saved block may be altered before it is verified: header fields first, then its
transactions and evidence, then (with `fix_roots`) both body roots recomputed, then a fresh
proposer signature by `resign`, then raw `signature` bytes.
-/

set_option autoImplicit false

namespace StakeChain.Request.Step

/-- Replaces the ledger by a block's resulting ledger when `commit` is set. -/
def commitIf (j : Json) (o : BlockOutcome) : Step Unit := do
  if ← read (readBoolOr (j.field "commit") false) then setLedger o.ledger

/-- `select {candidates, max_txs}`: the transactions a block on the ledger would take. -/
def select (j : Json) : Step Json := do
  let sc ← scope
  let cands ← read (readList (readTx sc) (j.field "candidates"))
  let maxTxs ← read ((fun w => w.toNat) <$> wordAtOr j "max_txs" 4096)
  let s ← get
  let picked ← orAbort (selectTransactions s.ledger cands s.params maxTxs)
  pure (.arr (picked.map txJson))

/-- `execute {height, proposer, txs, evidence, commit}`. -/
def execute (j : Json) : Step Json := do
  let sc ← scope
  let h ← read (wordAt j "height")
  let p ← read (readAddress (j.field "proposer"))
  let txs ← read (readList (readTx sc) (j.field "txs"))
  let ev ← read (readList (readEvidence sc) (j.field "evidence"))
  let s ← get
  let o ← guarded BlockError.problem (executeBlock s.ledger h p txs ev s.params)
  commitIf j o
  pure (outcomeJson o)

/-- `build {key, height, parent, timestamp, candidates, evidence, max_txs, save, commit}`. -/
def build (j : Json) : Step Json := do
  let name ← read (textAtOpt j "save")
  let sc ← scope
  let kp ← read (readKeypair (j.field "key"))
  let req : BuildRequest :=
    { height := ← read (wordAt j "height")
      parent := ← read (readDigestOr sc (j.field "parent") Digest.zero)
      timestamp := ← read (wordAtOr j "timestamp" 0)
      candidates := ← read (readList (readTx sc) (j.field "candidates"))
      evidence := ← read (readList (readEvidence sc) (j.field "evidence"))
      maxTxs := (← read (wordAtOr j "max_txs" 4096)).toNat }
  let s ← get
  let (b, o) ← guarded BlockError.problem (buildBlock kp s.ledger req s.params)
  if let some name := name then
    modify fun s => { s with saved := (name, b) :: s.saved }
  commitIf j o
  pure (.obj [("block", blockJson b), ("outcome", outcomeJson o)])

/-- A saved block altered as `m` says. -/
def mutateBlock (sc : Scope) (m : Json) (b : Block) : Read Block := do
  let header ← overwriteHeader sc m b.header
  let txs ← if (m.field "txs").isNull then pure b.txs else readList (readTx sc) (m.field "txs")
  let ev ← if (m.field "evidence").isNull then pure b.evidence
    else readList (readEvidence sc) (m.field "evidence")
  let header := if ← readBoolOr (m.field "fix_roots") false then
      { header with txRoot := txRoot txs, evidenceRoot := evidenceRoot ev }
    else header
  let sig ← if (m.field "resign").isNull then pure b.signature
    else (fun kp => SignedHeader.signatureOf kp header) <$> readKeypair (m.field "resign")
  let sig ← if (m.field "signature").isNull then pure sig else readBytes (m.field "signature")
  pure ⟨header, sig, txs, ev⟩

/-- `verify_block {block, mutate, commit}`. -/
def verify (j : Json) : Step Json := do
  let sc ← scope
  let b ← read (do
    let b ← match j.field "block" with
      | .str s =>
        match s.toList with
        | '$' :: rest => savedBlock sc (String.ofList rest)
        | _ => throw (.badInput "bad block")
      | _ => throw (.badInput "bad block")
    if (j.field "mutate").isNull then pure b else mutateBlock sc (j.field "mutate") b)
  let s ← get
  let o ← guarded BlockError.problem (verifyBlock s.ledger b s.params)
  commitIf j o
  pure (outcomeJson o)

/-- `penalize {evidence, height}`: verifies evidence and penalizes its offender. -/
def penalizeEvidence (j : Json) : Step Json := do
  let e ← read (readEvidence (← scope) (j.field "evidence"))
  let h ← read (wordAt j "height")
  let s ← get
  let (l, o) ← except SlashingError.problem (penalize s.ledger e s.params h)
  setLedger l
  pure (penaltyJson o)

end StakeChain.Request.Step

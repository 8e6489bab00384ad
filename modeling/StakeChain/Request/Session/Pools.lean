import StakeChain.Request.Session.Basic

/-!
# Evidence and transaction pool steps of a session

The evidence pool decides against the session ledger; evidence is named by the evidence itself
(`evidence`) or by its id (`id`).  The transaction pool admits against the session ledger.
-/

set_option autoImplicit false

namespace StakeChain.Request.Step

/-- The evidence id a step names. -/
def evidenceId (j : Json) : Step Digest := do
  let sc ← scope
  if (j.field "evidence").isNull then read (readDigest sc (j.field "id"))
  else Evidence.id <$> read (readEvidence sc (j.field "evidence"))

/-- Replaces the evidence pool. -/
def setSlashing (m : SlashingManager) : Step Unit := modify fun s => { s with slashing := m }

/-- `sm_submit {evidence}`. -/
def smSubmit (j : Json) : Step Json := do
  let e ← read (readEvidence (← scope) (j.field "evidence"))
  let s ← get
  let (m, o) := s.slashing.submit e s.ledger
  setSlashing m
  pure (submitJson o)

/-- `sm_status {evidence|id}`. -/
def smStatus (j : Json) : Step Json := do
  let id ← evidenceId j
  pure (evidenceStatusJson ((← get).slashing.status id))

/-- `sm_pending {max}`: the ids of pending evidence. -/
def smPending (j : Json) : Step Json := do
  let max ← read (wordAtOr j "max" 16)
  let s ← get
  pure (.arr ((s.slashing.pending s.ledger max.toNat).map fun e => digestJson e.id))

/-- `sm_apply_penalty {evidence|id, height}`. -/
def smApplyPenalty (j : Json) : Step Json := do
  let id ← evidenceId j
  let h ← read (wordAt j "height")
  let s ← get
  let (m, l, stake) ← except SlashingError.problem (s.slashing.applyPenalty id s.ledger s.params h)
  setSlashing m
  setLedger l
  pure (.obj [("stake", .ofWord stake)])

/-- `sm_record_committed {evidence, outcome}`. -/
def smRecordCommitted (j : Json) : Step Json := do
  let e ← read (readEvidence (← scope) (j.field "evidence"))
  let o ← read (readPenaltyOutcome (j.field "outcome"))
  setSlashing ((← get).slashing.recordCommitted e o)
  pure okJson

/-- `sm_mark {evidence|id, outcome}`. -/
def smMark (j : Json) : Step Json := do
  let id ← evidenceId j
  let o ← read (readPenaltyOutcome (j.field "outcome"))
  setSlashing ((← get).slashing.markPenalized id o)
  pure okJson

/-- `sm_queued`. -/
def smQueued : Step Json := do pure (.obj [("queued", .num (← get).slashing.queued)])

/-- `mp_push {tx}`: a refusal is counted even though it is answered as a problem. -/
def mpPush (j : Json) : Step Json := do
  let tx ← read (readTx (← scope) (j.field "tx"))
  let s ← get
  let (m, r) := s.mempool.push tx s.ledger s.params
  modify fun s => { s with mempool := m }
  let added ← except MempoolError.problem r
  pure (.obj [("new", .bool added)])

/-- `mp_candidates`: pending transactions in arrival order. -/
def mpCandidates : Step Json := do pure (.arr ((← get).mempool.candidates.map txJson))

/-- `mp_finalized {height}`: prunes against the session ledger. -/
def mpFinalized (j : Json) : Step Json := do
  let h ← read (wordAt j "height")
  let s ← get
  let m := s.mempool.onFinalized h s.ledger
  modify fun s => { s with mempool := m }
  pure (.obj [("len", .num m.size)])

/-- `mp_contains {tx|hash}`. -/
def mpContains (j : Json) : Step Json := do
  let sc ← scope
  let h ← if (j.field "tx").isNull then read (readDigest sc (j.field "hash"))
    else Transaction.hash <$> read (readTx sc (j.field "tx"))
  pure (.obj [("contains", .bool ((← get).mempool.contains h))])

/-- `mp_len`. -/
def mpLen : Step Json := do
  let m := (← get).mempool
  pure (.obj [("len", .num m.size), ("is_empty", .bool (m.size == 0))])

/-- `mp_metrics`. -/
def mpMetrics : Step Json := do
  let k := (← get).mempool.metrics
  pure (.obj [("admitted", .num k.admitted), ("rejected", .num k.rejected),
    ("evicted", .num k.evicted), ("expired", .num k.expired),
    ("rbf_replaced", .num k.rbfReplaced), ("committed", .num k.committed)])

end StakeChain.Request.Step

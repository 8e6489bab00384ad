import StakeChain.Request.Session.Blocks
import StakeChain.Request.Session.Pools
import StakeChain.Request.Session.Finality

/-!
# Running a session

Each step is answered in order.  A step's answer carries the ledger's state root after the
step: an object answer gains a `root` field, any other value is wrapped as `value` beside it,
and a problem is answered as its error object with `root`.  An abort in any step makes the
whole answer a panic.
-/

set_option autoImplicit false

namespace StakeChain.Request

/-- The step an operation name stands for. -/
def Step.ofOp (op : String) (j : Json) : Step Json :=
  match op with
  | "credit" => Step.credit j
  | "bond" => Step.bond j
  | "apply" => Step.apply true j
  | "apply_verified" => Step.apply false j
  | "begin_block" => Step.beginBlock j
  | "pay_fees" => Step.payFees j
  | "penalty" => Step.penalty j
  | "validator_set" => Step.validatorSet j
  | "account" => Step.account j
  | "delegation" => Step.delegation j
  | "dump" => Step.dump
  | "snapshot" => Step.saveSnapshot j
  | "restore" => Step.restore j
  | "changed_since" => Step.changedSince j
  | "equals" => Step.equals j
  | "select" => Step.select j
  | "execute" => Step.execute j
  | "build" => Step.build j
  | "verify_block" => Step.verify j
  | "penalize" => Step.penalizeEvidence j
  | "sm_submit" => Step.smSubmit j
  | "sm_status" => Step.smStatus j
  | "sm_pending" => Step.smPending j
  | "sm_apply_penalty" => Step.smApplyPenalty j
  | "sm_record_committed" => Step.smRecordCommitted j
  | "sm_mark" => Step.smMark j
  | "sm_queued" => Step.smQueued
  | "mp_push" => Step.mpPush j
  | "mp_candidates" => Step.mpCandidates
  | "mp_finalized" => Step.mpFinalized j
  | "mp_contains" => Step.mpContains j
  | "mp_len" => Step.mpLen
  | "mp_metrics" => Step.mpMetrics
  | "fm_reset" => Step.fmReset j
  | "fm_register" => Step.fmRegister j
  | "fm_vote" => Step.fmVote j
  | "fm_take_evidence" => Step.fmTakeEvidence
  | "fm_tally" => Step.fmTally j
  | "fm_cert" => Step.fmCert j
  | "fm_cert_verify" => Step.fmCertVerify j
  | "fm_prune" => Step.fmPrune j
  | "fm_status" => Step.fmStatus j
  | other => throw (.badInput ("unknown step " ++ other))

/-- The step a request value names. -/
def Step.ofJson (j : Json) : Step Json :=
  match j.field "op" with
  | .str op => Step.ofOp op j
  | _ => throw (.badInput "missing step op")

/-- A step answer with the state root attached. -/
def withRoot (root : Digest) (r : Except Problem Json) : Json :=
  match r with
  | .ok (.obj fields) => .obj (fields ++ [("root", digestJson root)])
  | .ok v => .obj [("value", v), ("root", digestJson root)]
  | .error p => withFields p.toJson [("root", digestJson root)]

/-- Runs the steps in order from `s`, answering each. -/
def Session.runSteps : List Json → Session → Except Abort (List Json)
  | [], _ => .ok []
  | j :: rest, s => do
    let (r, s) ← ((Step.ofJson j).run).run s
    let more ← Session.runSteps rest s
    pure (withRoot s.ledger.stateRoot r :: more)

/-- `session {params, mempool_cap, fm_height, steps}`. -/
def sessionOp (j : Json) : Read Json := do
  let params ← if (j.field "params").isNull then pure {} else readParams (j.field "params")
  let cap ← wordAtOr j "mempool_cap" 50000
  let height ← wordAtOr j "fm_height" 0
  let steps ← readList pure (j.field "steps")
  match Session.runSteps steps (Session.start params cap.toNat height) with
  | .ok answers => pure (.obj [("result", .arr answers)])
  | .error a => pure (panicJson a)

end StakeChain.Request

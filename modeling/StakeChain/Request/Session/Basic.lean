import StakeChain.Request.Report
import StakeChain.Request.Pure

/-!
# Sessions

A session runs a list of steps against one ledger, one evidence pool, one transaction pool and
one finality tracker, which all steps share.  Blocks built in a session may be saved by name and
ledgers may be set aside as named snapshots.

A step reads its fields, may change the session, and answers a value or a problem.  A refused
operation may still change the session (a rejected transaction is counted, an equivocating vote
is kept as evidence), so the session after a step is kept whether it answered a value or a
problem.  A word overflow (`Abort`) ends the whole session.

* `Session.start`: the empty ledger and pools of a session;
* `Step`: the step monad, with `Step.read`, `Step.orAbort`, `Step.guarded` and `Step.scope`.
-/

set_option autoImplicit false

namespace StakeChain.Request

/-- The state a session's steps share. -/
structure Session where
  params : LedgerParams
  ledger : Ledger := {}
  slashing : SlashingManager := {}
  mempool : Mempool
  finality : FinalityManager
  /-- Blocks saved by name, newest first. -/
  saved : List (String × Block) := []
  /-- Ledgers set aside by name, newest first. -/
  snapshots : List (String × Ledger) := []

/-- A fresh session: an empty ledger, a pool of `cap` transactions and a finality tracker with
`height` already final at the zero digest. -/
def Session.start (params : LedgerParams) (cap : Nat) (height : UInt64) : Session :=
  { params := params, mempool := { cap := cap }, finality := FinalityManager.init height Digest.zero }

/-- A session step: it may fail with a problem (keeping what it changed so far) or stop the
session with an abort. -/
abbrev Step := ExceptT Problem (StateT Session (Except Abort))

namespace Step

variable {α ε : Type}

/-- A read request value, or its problem. -/
def read (r : Read α) : Step α :=
  match r with
  | .ok a => pure a
  | .error p => throw p

/-- A computation that may abort the session. -/
def orAbort (r : Except Abort α) : Step α := ExceptT.lift (StateT.lift r)

/-- A guarded computation, its error answered as `toProblem` says. -/
def guarded (toProblem : ε → Problem) (g : Guarded ε α) : Step α := do
  match ← orAbort g.run with
  | .ok a => pure a
  | .error e => throw (toProblem e)

/-- A computation that may fail, its error answered as `toProblem` says. -/
def except (toProblem : ε → Problem) (r : Except ε α) : Step α :=
  match r with
  | .ok a => pure a
  | .error e => throw (toProblem e)

/-- What the step's fields may refer to: the saved blocks and the session ledger's nonces. -/
def scope : Step Scope := do
  let s ← get
  pure { saved := s.saved, nonceOf := s.ledger.nonce }

/-- Replaces the session ledger. -/
def setLedger (l : Ledger) : Step Unit := modify fun s => { s with ledger := l }

end Step

/-- The answer of a step that only acknowledges. -/
def okJson : Json := .obj [("ok", .bool true)]

/-- The answer of a panic. -/
def panicJson (a : Abort) : Json := .obj [("error", .str "Panic"), ("message", .str a.message)]

/-- Ledger parameters with every absent field at its default. -/
def readParams (j : Json) : Read LedgerParams := do
  pure { chainId := ← wordAtOr j "chain_id" 1
         gas := ← readGasOr (j.field "gas")
         unbondingPeriod := ← wordAtOr j "unbonding_period_blocks" 100
         slashBps := ← wordAtOr j "slash_bps" 5000
         minValidatorStake := ← wordAtOr j "min_validator_stake" 1 }

/-- An evidence kind by name. -/
def readEvidenceKind (j : Json) : Read EvidenceKind := do
  match ← readString j with
  | "DoubleVote" => pure .doubleVote
  | "DoubleProposal" => pure .doubleProposal
  | other => throw (.badInput ("unknown evidence kind " ++ other))

/-- A penalty outcome written as its answer shape. -/
def readPenaltyOutcome (j : Json) : Read PenaltyOutcome := do
  let offender ← readAddress (j.field "offender")
  match ← readString (j.field "type") with
  | "Applied" =>
    pure (.applied offender (← wordAt j "slashed") (← wordAt j "new_stake")
      (← wordAt j "jailed_until"))
  | "AlreadyApplied" => pure (.alreadyApplied offender (← wordAt j "stake"))
  | other => throw (.badInput ("unknown penalty outcome " ++ other))

end StakeChain.Request

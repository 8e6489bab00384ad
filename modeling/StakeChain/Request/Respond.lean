import StakeChain.Request.Pure
import StakeChain.Request.Session
import StakeChain.Request.Config
import StakeChain.Request.Chain
import StakeChain.Chain.Devnet
import StakeChain.Config.Load
import StakeChain.Json.Parse
import StakeChain.Json.Render

/-!
# Answering a request line

One JSON request in, one JSON answer out.  The request's `op` names the operation; an error of
the operation is answered as an error object.

`node {blocks, validators, toml}` runs the devnet for `blocks` rounds (10 if absent).  The
configuration is read from `toml` (parsed and validated) or is the default one; `validators: n`
then replaces the genesis validators by development ones.  The answer is the run's summary, or
the exit code a failed run ends the node with.
-/

set_option autoImplicit false

namespace StakeChain.Request

/-- The summary of a devnet run. -/
def summaryJson (s : DevnetSummary) : Json :=
  .obj [("finalized_height", .ofWord s.finalizedHeight), ("finalized_hash", digestJson s.finalizedHash),
    ("total_supply", .ofWord s.totalSupply), ("total_staked", .ofWord s.totalStaked),
    ("burned", .ofWord s.burned), ("mempool", .num s.mempool),
    ("founder_balance", .ofWord s.founderBalance)]

/-- The configuration a devnet starts from and its run. -/
def devnetRun (toml : Option String) (validators : Option Nat) (blocks : Nat) :
    Except DevnetFailure DevnetSummary := do
  let cfg ← match toml with
    | some s => (ChainConfig.ofToml s).mapError DevnetFailure.config
    | none => pure {}
  let cfg := match validators with
    | some n => Devnet.withValidators cfg n
    | none => cfg
  (Devnet.run cfg {} blocks).result

/-- `node {blocks, validators, toml}`. -/
def nodeOp (j : Json) : Read Json := do
  let blocks ← wordAtOr j "blocks" 10
  let validators ← if (j.field "validators").isNull then pure none
    else some <$> natAt j "validators"
  let toml ← textAtOpt j "toml"
  pure <| match devnetRun toml validators blocks.toNat with
    | .ok s => summaryJson s
    | .error f => .obj [("error", .str "NodeFailed"), ("exit", .num f.exitCode)]

/-- The answer to a request value. -/
def answer (j : Json) : Json :=
  match j.field "op" with
  | .str op =>
    let run := match op with
      | "session" => some (sessionOp j)
      | "config" => some (configOp j)
      | "chain" => some (chainOp j)
      | "node" => some (nodeOp j)
      | _ => pureOp? op j
    match run with
    | some (.ok a) => a
    | some (.error p) => p.toJson
    | none => (Problem.badInput ("unknown op " ++ op)).toJson
  | _ => (Problem.badInput "missing op").toJson

/-- The answer line to a request line; a line that is not JSON is a `BadInput` naming the
reason. -/
def respond (line : String) : String :=
  match Json.parse line with
  | .ok j => (answer j).render
  | .error e => (Problem.badInput ("bad json: " ++ e.message)).toJson.render

end StakeChain.Request

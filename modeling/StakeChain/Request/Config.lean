import StakeChain.Config.Load
import StakeChain.Request.Report
import StakeChain.Request.Decode

/-!
# Configuration requests

A request describes a configuration by a TOML text (`toml`, validated on reading), a JSON value
(`config`, read by the rules of `Record.read` with strict sequences, not validated), or neither
(the defaults); `validators: n` then replaces the genesis
validators by `n` development validators of `stake` each.  A TOML text that fails to read or to
validate is the answer before `validators` is looked at.

The answer shows the configuration, its validation, the ledger parameters, the genesis ledger
with the hash of the genesis block, and the local validator's address.
-/

set_option autoImplicit false

namespace StakeChain

/-- A configuration error as answered; a reading error has no text. -/
def ConfigError.problem : ConfigError → Problem
  | .parse => ⟨"Config.Parse", none⟩
  | e => ⟨"Config." ++ e.kind, some e.message⟩

mutual

/-- A JSON value as a `Datum`. -/
def Json.toDatum : Json → Datum
  | .null => .null
  | .bool b => .bool b
  | .num n => .int n
  | .float f => .float f
  | .str s => .str s
  | .arr items => .seq (Json.itemsToDatum items)
  | .obj fs => .map (Json.fieldsToDatum fs)

def Json.itemsToDatum : List Json → List Datum
  | [] => []
  | v :: rest => v.toDatum :: Json.itemsToDatum rest

def Json.fieldsToDatum : List (String × Json) → List (String × Datum)
  | [] => []
  | (k, v) :: rest => (k, v.toDatum) :: Json.fieldsToDatum rest

end

/-- JSON refuses a sequence with items beyond a record's fields. -/
def Json.format : Format := ⟨true⟩

namespace Request

/-- An optional text. -/
def optTextJson : Option String → Json
  | some s => .str s
  | none => .null

/-- A gas schedule. -/
def gasJson (g : GasSchedule) : Json :=
  .obj [("transfer_base", .ofWord g.transferBase), ("stake_base", .ofWord g.stakeBase),
    ("unstake_base", .ofWord g.unstakeBase), ("delegate_base", .ofWord g.delegateBase),
    ("validator_base", .ofWord g.validatorBase), ("per_memo_byte", .ofWord g.perMemoByte),
    ("block_gas_limit", .ofWord g.blockGasLimit)]

/-- A configuration, field for field. -/
def configJson (c : ChainConfig) : Json :=
  .obj [("node", .obj [("data_dir", .str c.node.dataDir), ("log_level", .str c.node.logLevel),
      ("validator_seed", optTextJson c.node.validatorSeed),
      ("validator_label", optTextJson c.node.validatorLabel)]),
    ("consensus", .obj [("chain_id", .ofWord c.consensus.chainId),
      ("min_validator_stake", .ofWord c.consensus.minValidatorStake),
      ("slash_double_sign_bps", .ofWord c.consensus.slashDoubleSignBps),
      ("unbonding_period_blocks", .ofWord c.consensus.unbondingPeriodBlocks),
      ("max_txs_per_block", .ofWord c.consensus.maxTxsPerBlock),
      ("max_evidence_per_block", .ofWord c.consensus.maxEvidencePerBlock),
      ("vote_retention_heights", .ofWord c.consensus.voteRetentionHeights)]),
    ("gas", gasJson c.gas),
    ("mempool", .obj [("capacity", .ofWord c.mempool.capacity)]),
    ("genesis", .obj [("timestamp", .ofWord c.genesis.timestamp),
      ("accounts", .arr (c.genesis.accounts.map fun a => .obj [("address", optTextJson a.address),
        ("label", optTextJson a.label), ("balance", .ofWord a.balance)])),
      ("validators", .arr (c.genesis.validators.map fun v =>
        .obj [("public_key", optTextJson v.publicKey), ("label", optTextJson v.label),
          ("stake", .ofWord v.stake), ("balance", .ofWord v.balance)]))])]

/-- Ledger parameters. -/
def paramsJson (p : LedgerParams) : Json :=
  .obj [("chain_id", .ofWord p.chainId), ("unbonding_period_blocks", .ofWord p.unbondingPeriod),
    ("slash_bps", .ofWord p.slashBps), ("min_validator_stake", .ofWord p.minValidatorStake),
    ("gas", gasJson p.gas)]

/-- The configuration a request describes, or the error of its TOML text. -/
def readConfig (j : Json) : Read (Except ConfigError ChainConfig) := do
  let base ← match ← textAtOpt j "toml", j.field "config" with
    | some s, _ => pure (ChainConfig.ofToml s)
    | none, .null => pure (.ok {})
    | none, cj =>
      match ChainConfig.ofDatum Json.format cj.toDatum with
      | .ok c => pure (.ok c)
      | .error e => throw (.badInput ("bad config: " ++ e.message))
  match base with
  | .error e => pure (.error e)
  | .ok c =>
    if (j.field "validators").isNull then pure (.ok c)
    else
      let n ← natAt j "validators"
      let stake ← wordAtOr j "stake" 1000000
      pure (.ok (c.withDevValidators n stake))

/-- `config {toml|config, validators, stake}`. -/
def configOp (j : Json) : Read Json := do
  match ← readConfig j with
  | .error e => pure e.problem.toJson
  | .ok c =>
    let genesis := match c.genesisLedger with
      | .ok l => withFields (ledgerJson l)
          [("genesis_hash", digestJson (Block.genesis l c.genesis.timestamp).hash)]
      | .error e => e.problem.toJson
    let key := match c.validatorKey with
      | .ok (some kp) => addressJson kp.address
      | .ok none => .null
      | .error e => e.problem.toJson
    pure (.obj [("config", configJson c), ("validate", unitAnswer ConfigError.problem c.validate),
      ("params", paramsJson c.ledgerParams), ("genesis_ledger", genesis), ("validator_key", key)])

end Request

end StakeChain

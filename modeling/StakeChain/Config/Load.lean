import StakeChain.Config.Basic
import StakeChain.Config.Datum
import StakeChain.Toml.Parse

/-!
# Reading a configuration

A configuration is a record of five sections, each a record with defaults for its fields; a
genesis account needs its `balance` and a genesis validator its `stake`, and their other
fields default to absent (or a zero balance).  A whole section left out takes its default.
The reading rules are those of `Record.read`, so a section may also be written as a sequence
of its fields in order.

Counts (`max_txs_per_block`, `max_evidence_per_block`, `capacity`) are named `usize` in
errors, other words `u64`.

A TOML document is read as a `Datum`: its tables are maps, its arrays sequences, and a
date-time is a map with the single key `$__toml_private_datetime` holding its text, which no
section takes as a field.  TOML sequences may have items beyond a record's fields.

`ChainConfig.ofToml` reads a TOML text and validates the result; a text that is not TOML, or
not a configuration, is a `ConfigError.parse`.
-/

set_option autoImplicit false

namespace StakeChain

namespace ConfigRecord

open Decode

variable (fmt : Format)

def node : Record NodeSection where
  name := "NodeSection"
  fields := [("data_dir", check text), ("log_level", check text),
    ("validator_seed", check (optional text)), ("validator_label", check (optional text))]
  build src := do
    let d : NodeSection := {}
    pure { dataDir := ← src.opt 0 "data_dir" d.dataDir text
           logLevel := ← src.opt 1 "log_level" d.logLevel text
           validatorSeed := ← src.opt 2 "validator_seed" d.validatorSeed (optional text)
           validatorLabel := ← src.opt 3 "validator_label" d.validatorLabel (optional text) }

def consensus : Record ConsensusSection where
  name := "ConsensusSection"
  fields := [("chain_id", check (word "u64")), ("min_validator_stake", check (word "u64")),
    ("slash_double_sign_bps", check (word "u64")), ("unbonding_period_blocks", check (word "u64")),
    ("max_txs_per_block", check (word "usize")), ("max_evidence_per_block", check (word "usize")),
    ("vote_retention_heights", check (word "u64"))]
  build src := do
    let d : ConsensusSection := {}
    pure { chainId := ← src.opt 0 "chain_id" d.chainId (word "u64")
           minValidatorStake := ← src.opt 1 "min_validator_stake" d.minValidatorStake (word "u64")
           slashDoubleSignBps := ← src.opt 2 "slash_double_sign_bps" d.slashDoubleSignBps
             (word "u64")
           unbondingPeriodBlocks := ← src.opt 3 "unbonding_period_blocks" d.unbondingPeriodBlocks
             (word "u64")
           maxTxsPerBlock := ← src.opt 4 "max_txs_per_block" d.maxTxsPerBlock (word "usize")
           maxEvidencePerBlock := ← src.opt 5 "max_evidence_per_block" d.maxEvidencePerBlock
             (word "usize")
           voteRetentionHeights := ← src.opt 6 "vote_retention_heights" d.voteRetentionHeights
             (word "u64") }

def gas : Record GasSchedule where
  name := "GasSchedule"
  fields := ["transfer_base", "stake_base", "unstake_base", "delegate_base", "validator_base",
    "per_memo_byte", "block_gas_limit"].map fun k => (k, check (word "u64"))
  build src := do
    let d : GasSchedule := {}
    pure { transferBase := ← src.opt 0 "transfer_base" d.transferBase (word "u64")
           stakeBase := ← src.opt 1 "stake_base" d.stakeBase (word "u64")
           unstakeBase := ← src.opt 2 "unstake_base" d.unstakeBase (word "u64")
           delegateBase := ← src.opt 3 "delegate_base" d.delegateBase (word "u64")
           validatorBase := ← src.opt 4 "validator_base" d.validatorBase (word "u64")
           perMemoByte := ← src.opt 5 "per_memo_byte" d.perMemoByte (word "u64")
           blockGasLimit := ← src.opt 6 "block_gas_limit" d.blockGasLimit (word "u64") }

def mempool : Record MempoolSection where
  name := "MempoolSection"
  fields := [("capacity", check (word "usize"))]
  build src := do
    pure { capacity := ← src.opt 0 "capacity" ({} : MempoolSection).capacity (word "usize") }

def account : Record GenesisAccount where
  name := "GenesisAccount"
  fields := [("address", check (optional text)), ("label", check (optional text)),
    ("balance", check (word "u64"))]
  build src := do
    pure { address := ← src.opt 0 "address" none (optional text)
           label := ← src.opt 1 "label" none (optional text)
           balance := ← src.req 2 "balance" (word "u64") }

def validator : Record GenesisValidator where
  name := "GenesisValidator"
  fields := [("public_key", check (optional text)), ("label", check (optional text)),
    ("stake", check (word "u64")), ("balance", check (word "u64"))]
  build src := do
    pure { publicKey := ← src.opt 0 "public_key" none (optional text)
           label := ← src.opt 1 "label" none (optional text)
           stake := ← src.req 2 "stake" (word "u64")
           balance := ← src.opt 3 "balance" 0 (word "u64") }

def genesis : Record GenesisSection where
  name := "GenesisSection"
  fields := [("timestamp", check (word "u64")),
    ("accounts", check (list ((account).read fmt))),
    ("validators", check (list ((validator).read fmt)))]
  build src := do
    let d : GenesisSection := {}
    pure { timestamp := ← src.opt 0 "timestamp" d.timestamp (word "u64")
           accounts := ← src.opt 1 "accounts" d.accounts (list ((account).read fmt))
           validators := ← src.opt 2 "validators" d.validators (list ((validator).read fmt)) }

def config : Record ChainConfig where
  name := "ChainConfig"
  fields := [("node", check ((node).read fmt)), ("consensus", check ((consensus).read fmt)),
    ("gas", check ((gas).read fmt)), ("mempool", check ((mempool).read fmt)),
    ("genesis", check ((genesis fmt).read fmt))]
  build src := do
    pure { node := ← src.opt 0 "node" {} ((node).read fmt)
           consensus := ← src.opt 1 "consensus" {} ((consensus).read fmt)
           gas := ← src.opt 2 "gas" {} ((gas).read fmt)
           mempool := ← src.opt 3 "mempool" {} ((mempool).read fmt)
           genesis := ← src.opt 4 "genesis" {} ((genesis fmt).read fmt) }

end ConfigRecord

/-- A configuration read from a value. -/
def ChainConfig.ofDatum (fmt : Format) (d : Datum) : Decode ChainConfig :=
  (ConfigRecord.config fmt).read fmt d

namespace Toml

/-- The key under which a date-time shows its text. -/
def datetimeKey : String := "$__toml_private_datetime"

/-- The binary64 value of a float's text. -/
def floatOf (text : String) : Float :=
  let (negative, body) := match text.toList with
    | '-' :: rest => (true, rest)
    | '+' :: rest => (false, rest)
    | cs => (false, cs)
  let magnitude :=
    if body = ['i', 'n', 'f'] then 1 / 0
    else if body = ['n', 'a', 'n'] then 0 / 0
    else
      let (m, e) := floatValue body
      Float.ofScientific m (e < 0) e.natAbs
  if negative then -magnitude else magnitude

mutual

/-- A TOML value as a `Datum`. -/
def toDatum : Toml → Datum
  | .str s => .str s
  | .int n => .int n
  | .float text => .float (floatOf text)
  | .bool b => .bool b
  | .datetime text => .map [(datetimeKey, .str text)]
  | .arr items => .seq (itemsToDatum items)
  | .table fs => .map (fieldsToDatum fs)

def itemsToDatum : List Toml → List Datum
  | [] => []
  | v :: rest => toDatum v :: itemsToDatum rest

def fieldsToDatum : List (String × Toml) → List (String × Datum)
  | [] => []
  | (k, v) :: rest => (k, toDatum v) :: fieldsToDatum rest

end

end Toml

/-- TOML sequences may run past a record's fields. -/
def Toml.format : Format := ⟨false⟩

/-- The configuration a TOML text gives, validated. -/
def ChainConfig.ofToml (s : String) : Except ConfigError ChainConfig := do
  let some doc := Toml.parse? s | throw .parse
  let .ok c := ChainConfig.ofDatum Toml.format doc.toDatum | throw .parse
  c.validate
  pure c

end StakeChain

import StakeChain.Config.Basic

/-!
# The annotated example configuration

The text the node writes as a starting configuration: every setting at its default value, with
comments.  Reading it back gives the default configuration.
-/

set_option autoImplicit false

namespace StakeChain

/-- The lines of the example configuration. -/
def ChainConfig.exampleLines : List String :=
  ["# Unicrium node configuration",
   "# All values shown are defaults.",
   "",
   "[node]",
   "data_dir        = \"./data/unicrium\"",
   "log_level       = \"info\"",
   "validator_label = \"validator-0\"       # dev key; use validator_seed = \"<64 hex>\" otherwise",
   "",
   "[consensus]",
   "chain_id                = 1",
   "min_validator_stake     = 1",
   "slash_double_sign_bps   = 5000        # 50% of stake burned per offense",
   "unbonding_period_blocks = 100         # also the jail length",
   "max_txs_per_block       = 4096",
   "max_evidence_per_block  = 16",
   "vote_retention_heights  = 256",
   "",
   "[gas]",
   "transfer_base   = 21000",
   "stake_base      = 40000",
   "unstake_base    = 40000",
   "delegate_base   = 40000",
   "validator_base  = 60000",
   "per_memo_byte   = 16",
   "block_gas_limit = 10000000",
   "",
   "[mempool]",
   "capacity = 50000",
   "",
   "[genesis]",
   "timestamp = 0",
   "",
   "[[genesis.accounts]]",
   "label   = \"faucet\"",
   "balance = 1000000",
   "",
   "[[genesis.accounts]]",
   "label   = \"founder\"",
   "balance = 10000000",
   "",
   "[[genesis.accounts]]",
   "label   = \"treasury\"",
   "balance = 89000000",
   "",
   "[[genesis.validators]]",
   "label = \"validator-0\"",
   "stake = 1000000"]

/-- The example configuration, one line after another, ending in a newline. -/
def ChainConfig.exampleToml : String :=
  String.join (ChainConfig.exampleLines.map fun l => l ++ "\n")

end StakeChain

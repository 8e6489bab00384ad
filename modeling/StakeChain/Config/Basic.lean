import StakeChain.Block.Execution

/-!
# Node configuration

A configuration has five sections: the node (data directory, log level, the local validator's
seed or development label), consensus constants, the gas schedule, the transaction pool's
capacity, and the genesis accounts and validators.  Every field has a default, and the
defaults describe a single-validator development network.

A genesis entry names its holder by exactly one of an address (or public key) and a
development label.

* `ChainConfig.validate`: the slash rate is at most 10000 basis points, there is a genesis
  validator, and every genesis entry resolves, checked in that order;
* `ChainConfig.genesisLedger`: credits the accounts, then credits and bonds the validators;
* `ChainConfig.validatorKey`: the local signing key, from the seed if one is set.
-/

set_option autoImplicit false

namespace StakeChain

/-- The local node. -/
structure NodeSection where
  dataDir : String := "./data/unicrium"
  logLevel : String := "info"
  /-- Hexadecimal seed of the local validator's key. -/
  validatorSeed : Option String := none
  /-- Development label of the local validator's key; ignored when a seed is set. -/
  validatorLabel : Option String := some "validator-0"
  deriving DecidableEq, Repr

/-- Consensus constants. -/
structure ConsensusSection where
  chainId : UInt64 := 1
  minValidatorStake : UInt64 := 1
  slashDoubleSignBps : UInt64 := 5000
  unbondingPeriodBlocks : UInt64 := 100
  maxTxsPerBlock : UInt64 := 4096
  maxEvidencePerBlock : UInt64 := 16
  /-- Finalized heights of vote history kept. -/
  voteRetentionHeights : UInt64 := 256
  deriving DecidableEq, Repr

/-- The transaction pool. -/
structure MempoolSection where
  capacity : UInt64 := 50000
  deriving DecidableEq, Repr

/-- A funded genesis account. -/
structure GenesisAccount where
  address : Option String := none
  label : Option String := none
  balance : UInt64
  deriving DecidableEq, Repr

/-- A bonded genesis validator. -/
structure GenesisValidator where
  publicKey : Option String := none
  label : Option String := none
  stake : UInt64
  balance : UInt64 := 0
  deriving DecidableEq, Repr

/-- The development network's accounts. -/
def devnetAccounts : List GenesisAccount :=
  [{ label := some "faucet", balance := 1000000 },
   { label := some "founder", balance := 10000000 },
   { label := some "treasury", balance := 89000000 }]

/-- The genesis state. -/
structure GenesisSection where
  timestamp : UInt64 := 0
  accounts : List GenesisAccount := devnetAccounts
  validators : List GenesisValidator := [{ label := some "validator-0", stake := 1000000 }]
  deriving DecidableEq, Repr

/-- A node configuration. -/
structure ChainConfig where
  node : NodeSection := {}
  consensus : ConsensusSection := {}
  gas : GasSchedule := {}
  mempool : MempoolSection := {}
  genesis : GenesisSection := {}
  deriving DecidableEq, Repr

/-- Why a configuration is refused. -/
inductive ConfigError where
  /-- The text is not a configuration. -/
  | parse
  | invalidAddress (text : String)
  | invalidKey (reason : String)
  /-- A genesis entry names its holder by both or neither of `field` and a label. -/
  | identity (field : String)
  | slashBps (bps : UInt64)
  | noValidators
  | genesis (e : LedgerError)
  deriving DecidableEq, Repr

namespace ConfigError

def message : ConfigError → String
  | .parse => "parse error"
  | .invalidAddress t => "invalid address " ++ Text.quoteString t
  | .invalidKey r => "invalid key: " ++ r
  | .identity f => "genesis entry needs exactly one of " ++ "\x60" ++ f ++ "\x60 or \x60label\x60"
  | .slashBps b => s!"slash_double_sign_bps must be <= 10000, got {b}"
  | .noValidators => "genesis has no validators"
  | .genesis e => "genesis: " ++ e.message

def kind : ConfigError → String
  | .parse => "Parse"
  | .invalidAddress _ => "InvalidAddress"
  | .invalidKey _ => "InvalidKey"
  | .identity _ => "Identity"
  | .slashBps _ => "SlashBps"
  | .noValidators => "NoValidators"
  | .genesis e => "Genesis." ++ e.kind

end ConfigError

/-- The address of a genesis account. -/
def GenesisAccount.resolve (a : GenesisAccount) : Except ConfigError Address :=
  match a.address, a.label with
  | some text, none =>
    match Address.ofHex? text with
    | some addr => .ok addr
    | none => .error (.invalidAddress text)
  | none, some l => .ok (Keypair.ofLabel l).address
  | _, _ => .error (.identity "address")

/-- The public key of a genesis validator: 32 bytes. -/
def GenesisValidator.resolve (v : GenesisValidator) : Except ConfigError PublicKey :=
  match v.publicKey, v.label with
  | some text, none =>
    match PublicKey.ofHex text with
    | .error e => .error (.invalidKey (CryptoError.key e).message)
    | .ok pk =>
      let n := pk.bytes.length
      if n = 32 then .ok pk else .error (.invalidKey s!"expected 32 bytes, got {n}")
  | none, some l => .ok (Keypair.ofLabel l).publicKey
  | _, _ => .error (.identity "public_key")

namespace ChainConfig

/-- Checks the slash rate, the presence of validators and every genesis entry, in order. -/
def validate (c : ChainConfig) : Except ConfigError Unit := do
  if c.consensus.slashDoubleSignBps > 10000 then throw (.slashBps c.consensus.slashDoubleSignBps)
  if c.genesis.validators.isEmpty then throw .noValidators
  c.genesis.accounts.forM fun a => discard a.resolve
  c.genesis.validators.forM fun v => discard v.resolve

/-- The ledger parameters the configuration sets. -/
def ledgerParams (c : ChainConfig) : LedgerParams :=
  { chainId := c.consensus.chainId, gas := c.gas,
    unbondingPeriod := c.consensus.unbondingPeriodBlocks,
    slashBps := c.consensus.slashDoubleSignBps,
    minValidatorStake := c.consensus.minValidatorStake }

/-- A genesis credit or bond, its overflow a configuration error. -/
def genesisStep (r : Except LedgerError Ledger) : Except ConfigError Ledger :=
  r.mapError ConfigError.genesis

/-- The genesis ledger: the accounts credited in order, then each validator credited its
balance and bonded its stake. -/
def genesisLedger (c : ChainConfig) : Except ConfigError Ledger := do
  let l ← c.genesis.accounts.foldlM (fun (l : Ledger) a => do
    genesisStep (l.creditGenesis (← a.resolve) a.balance)) {}
  c.genesis.validators.foldlM (fun (l : Ledger) v => do
    let pk ← v.resolve
    let l ← genesisStep (l.creditGenesis pk.address v.balance)
    genesisStep (l.bondGenesis pk v.stake)) l

/-- The local validator's key: from the seed if one is set, else from the label if one is. -/
def validatorKey (c : ChainConfig) : Except ConfigError (Option Keypair) :=
  match c.node.validatorSeed with
  | some seed =>
    match Keypair.ofSeedHex seed with
    | .ok kp => .ok (some kp)
    | .error e => .error (.invalidKey e.message)
  | none => .ok (c.node.validatorLabel.map Keypair.ofLabel)

/-- The configuration with `n` development validators `validator-0` … of `stake` each. -/
def withDevValidators (c : ChainConfig) (n : Nat) (stake : UInt64) : ChainConfig :=
  { c with genesis := { c.genesis with
      validators := (List.range n).map fun i => { label := some s!"validator-{i}", stake := stake } } }

end ChainConfig

end StakeChain

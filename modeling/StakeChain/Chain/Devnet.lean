import StakeChain.Chain.Open
import StakeChain.Chain.Receive

/-!
# A local development network

The devnet runs one chain with the keys of its genesis validators (those named by a label) and
of the local validator held in one place, over a given store.  Round `r` (counted from zero):

1. the faucet sends the founder `1 + r % 10` with fee 1 through the pool, at the faucet's
   nonce on the finalized ledger; a refused transfer is ignored;
2. the proposer the chain selects for the height above its head builds the next block, with
   `r + 1` as its timestamp, and the chain receives it;
3. every other member of that height's snapshot whose key is held votes for the block.

The run stops early when no proposer is selected or the proposer's key is not held, and fails
on the first error of a proposal, a received block or a vote.  Its result is a summary of the
finalized state.
-/

set_option autoImplicit false

namespace StakeChain

/-- Why a devnet run failed. -/
inductive DevnetFailure where
  | config (e : ConfigError)
  | chain (e : ChainError)
  | abort (a : Abort)
  deriving Repr

namespace DevnetFailure

/-- The process exit code of a failure: 101 for an abort, 1 for an error. -/
def exitCode : DevnetFailure → Nat
  | .abort _ => 101
  | _ => 1

def message : DevnetFailure → String
  | .config e => e.message
  | .chain e => e.message
  | .abort a => a.message

end DevnetFailure

/-- What a devnet run reports: the finalized height and hash, the finalized ledger's supply
figures, the pool's size and the founder's balance. -/
structure DevnetSummary where
  finalizedHeight : UInt64
  finalizedHash : Digest
  totalSupply : UInt64
  totalStaked : UInt64
  burned : UInt64
  mempool : Nat
  founderBalance : UInt64
  deriving Repr

namespace Devnet

def faucet : Keypair := Keypair.ofLabel "faucet"

def founder : Address := (Keypair.ofLabel "founder").address

/-- The configuration with `n` development validators (at least one), each bonding the stake of
the first configured validator, or 1000000 if there is none. -/
def withValidators (cfg : ChainConfig) (n : Nat) : ChainConfig :=
  let stake := (cfg.genesis.validators.head?.map GenesisValidator.stake).getD 1000000
  cfg.withDevValidators (max n 1) stake

/-- The keys the devnet holds: those of the labelled genesis validators, then the local one. -/
def keys (cfg : ChainConfig) (signer : Option Keypair) : List Keypair :=
  cfg.genesis.validators.filterMap (fun v => v.label.map Keypair.ofLabel) ++ signer.toList

/-- The held key of an address. -/
def keyOf (keys : List Keypair) (a : Address) : Option Keypair :=
  keys.find? fun kp => kp.address = a

/-- The faucet's transfer of round `r`. -/
def drip (c : Chain) (r : UInt64) : Transaction :=
  Transaction.signWith faucet
    { chainId := c.params.chainId, senderKey := ⟨[]⟩,
      nonce := (c.ledger.account faucet.address).nonce, fee := 1,
      gasLimit := c.params.gas.transferBase, kind := .transfer founder (1 + r % 10),
      memo := [], signature := [] }

/-- The votes for a block of the given members, except the local validator and those whose key
is not held. -/
def voteFor (keys : List Keypair) (own : Option Address) (height : UInt64) (hash : Digest) :
    List Validator → ChainM Unit
  | [] => pure ()
  | v :: rest => do
    if own ≠ some v.address then
      if let some k := keyOf keys v.address then
        discard (ChainM.receiveVote (Vote.signWith k height hash))
    voteFor keys own height hash rest

/-- Round `r`; `false` when the run stops. -/
def round (keys : List Keypair) (own : Option Address) (r : UInt64) : ChainM Bool := do
  tryCatch (ChainM.submit (drip (← get) r)) fun _ => pure ()
  let (head, _, _) := (← get).head
  let height ← ChainM.orAbort (Word.addStrict head 1)
  let some proposer := (← get).proposerFor height | return false
  let some key := keyOf keys proposer.address | return false
  let block ← ChainM.propose key (r + 1)
  let hash := block.hash
  discard (ChainM.receiveBlock block)
  if let some vset := (← get).snapshots.get? height then
    voteFor keys own height hash vset.vals
  return true

/-- Rounds `r`, `r + 1`, … up to `n` of them, until one stops the run. -/
def rounds (keys : List Keypair) (own : Option Address) (r : UInt64) : Nat → ChainM Unit
  | 0 => pure ()
  | n + 1 => do
    if ← round keys own r then rounds keys own (r + 1) n

def summary (c : Chain) : DevnetSummary :=
  { finalizedHeight := c.finalizedHeight, finalizedHash := c.finalizedHash,
    totalSupply := c.ledger.totalSupply, totalStaked := c.ledger.totalStaked,
    burned := c.ledger.burned, mempool := c.mempool.size,
    founderBalance := (c.ledger.account founder).balance }

end Devnet

/-- A devnet run: the store as the run left it, and the summary or the failure. -/
structure DevnetRun where
  store : MemStore
  result : Except DevnetFailure DevnetSummary

/-- Runs `blocks` rounds of the devnet configured by `cfg` over the store `kv`. -/
def Devnet.run (cfg : ChainConfig) (kv : MemStore) (blocks : Nat) : DevnetRun :=
  match cfg.validatorKey with
  | .error e => ⟨kv, .error (.config e)⟩
  | .ok signer =>
    match (Chain.ofStore cfg kv signer).run with
    | .error a => ⟨kv, .error (.abort a)⟩
    | .ok (.error e) => ⟨kv, .error (.chain e)⟩
    | .ok (.ok chain) =>
      let own := signer.map Keypair.address
      match ChainM.runOn (Devnet.rounds (Devnet.keys cfg signer) own 0 blocks) chain with
      | .error a => ⟨chain.store.kv, .error (.abort a)⟩
      | .ok (.error e, c) => ⟨c.store.kv, .error (.chain e)⟩
      | .ok (.ok (), c) => ⟨c.store.kv, .ok (Devnet.summary c)⟩

end StakeChain

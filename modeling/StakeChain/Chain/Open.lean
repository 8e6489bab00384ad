import StakeChain.Chain.Basic

/-!
# Opening a chain

A chain opens over a store.  An empty store receives the genesis block and ledger of the
configuration.  A store that holds a chain is resumed from its tip, after three checks: the tip
block is stored, its hash is the tip's hash, and the stored ledger has the tip block's state
root.  The finality tracker starts final at the tip, with the newest stored certificate at or
below it, and with the snapshot of the next height registered.
-/

set_option autoImplicit false

namespace StakeChain

namespace Chain

/-- The ledger and tip block of the chain a store holds, or of a fresh genesis written to an
empty store. -/
def resume (cfg : ChainConfig) (store : ChainStore) : Except ChainError (ChainStore × Ledger × Block) := do
  match ← (store.tip).mapError ChainError.storage with
  | some (height, hash) =>
    let ledger ← store.loadLedger.mapError ChainError.storage
    let (store, found) := store.block height
    let some block ← found.mapError ChainError.storage
      | throw (.storage (.corrupt s!"tip block {height} missing"))
    if block.hash ≠ hash then throw (.storage (.corrupt s!"tip hash mismatch at {height}"))
    if ledger.stateRoot ≠ block.header.stateRoot then
      throw (.storage (.corrupt s!"ledger does not match state root at {height}"))
    pure (store, ledger, block)
  | none =>
    let ledger ← cfg.genesisLedger.mapError ChainError.config
    let genesis := Block.genesis ledger cfg.genesis.timestamp
    let store ← (store.commitGenesis genesis ledger).mapError ChainError.storage
    pure (store, ledger, genesis)

/-- Opens a chain over a store, with the local validator's key if the node is a validator. -/
def ofStore (cfg : ChainConfig) (kv : MemStore) (signer : Option Keypair) : Guarded ChainError Chain := do
  Guarded.ofExcept (cfg.validate.mapError ChainError.config)
  let params := cfg.ledgerParams
  let (store, ledger, tip) ← Guarded.ofExcept (resume cfg { kv := kv })
  let height := tip.height
  let hash := tip.hash
  let fm := FinalityManager.init height hash
  let fm := match ← Guarded.ofExcept ((store.latestCertificate height).mapError ChainError.storage) with
    | some cert => fm.restoreCertificate cert
    | none => fm
  let nextHeight ← Guarded.ofAbort (Word.addStrict height 1)
  let next := ledger.validatorSet nextHeight params.minValidatorStake
  let (fm, _) ← Guarded.ofAbort (fm.registerValidatorSet next)
  pure { params := params, consensus := cfg.consensus, signer := signer, ledger := ledger,
         finalized := tip.signedHeader, finalizedHash := hash,
         statuses := ({ capacity := 4096 } : RecentMap Digest BlockStatus).put hash .finalized,
         snapshots := KeyMap.empty.insert nextHeight next,
         recentHeaders := KeyMap.empty.insert height tip.signedHeader,
         mempool := { cap := cfg.mempool.capacity.toNat }, store := store, finality := fm }

end Chain

end StakeChain

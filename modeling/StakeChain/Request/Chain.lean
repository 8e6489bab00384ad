import StakeChain.Chain.Open
import StakeChain.Chain.Receive
import StakeChain.Request.Config
import StakeChain.Request.Session.Blocks

/-!
# Chain requests

A chain request opens a node's chain over a fresh in-memory store and runs steps against it:
transactions, proposals, blocks, votes and evidence go in; queries read the chain; the store can
be made to fail, written to directly, and reopened.  Blocks can be saved by name and fed back,
possibly altered, also to a second chain opened later in the same request.

The keyring holds the signing keys the steps may use: the request's `keys`, the local
validator's key, and the key of every genesis validator named by a label.

Each step is answered with its result, the events the chain reported during the step, the head
and the final height.
-/

set_option autoImplicit false

namespace StakeChain

/-- A chain error as answered; storage decoding and configuration reading errors have no text. -/
def ChainError.problem : ChainError → Problem
  | .storage .codec => ⟨"Storage.Codec", none⟩
  | .config e => e.problem
  | e => ⟨e.kind, some e.message⟩

namespace Request

/-- A chain request's state between steps. -/
structure ChainRun where
  config : ChainConfig
  signer : Option Keypair
  keyring : List Keypair
  chain : Chain
  saved : List (String × Block) := []

/-- A chain step: it may fail with a problem (keeping what it changed so far) or abort. -/
abbrev ChainStep := ExceptT Problem (StateT ChainRun (Except Abort))

namespace ChainStep

variable {α : Type}

def read (r : Read α) : ChainStep α :=
  match r with
  | .ok a => pure a
  | .error p => throw p

def orAbort (r : Except Abort α) : ChainStep α := ExceptT.lift (StateT.lift r)

/-- An operation on the chain, its error answered as a problem. -/
def onChain (op : ChainM α) : ChainStep α := do
  let s ← get
  let (r, c) ← orAbort (ChainM.runOn op s.chain)
  set { s with chain := c }
  match r with
  | .ok a => pure a
  | .error e => throw e.problem

/-- What fields may refer to: saved blocks and the finalized ledger's nonces. -/
def scope : ChainStep Scope := do
  let s ← get
  pure { saved := s.saved, nonceOf := s.chain.ledger.nonce }

def save (name : String) (b : Block) : ChainStep Unit :=
  modify fun s => { s with saved := (name, b) :: s.saved }

/-- Saves `b` under `name`, if there is one. -/
def saveAs (name : Option String) (b : Block) : ChainStep Unit := do
  if let some name := name then save name b

/-- A saved block, named as `name` or `$name`. -/
def savedRef (j : Json) : ChainStep Block := do
  let sc ← scope
  match j with
  | .str s => read (savedBlock sc s)
  | _ => throw (.badInput "bad block reference")

/-- The block named by `block`, altered by `mutate`. -/
def mutatedBlock (j : Json) : ChainStep Block := do
  let b ← savedRef (j.field "block")
  if (j.field "mutate").isNull then pure b
  else read (Step.mutateBlock (← scope) (j.field "mutate") b)

/-- The first keyring key whose address is the next height's proposer, else the first key. -/
def autoKey : ChainStep Keypair := do
  let s ← get
  let (head, _, _) := s.chain.head
  let expected := (s.chain.proposerFor (head + 1)).map Validator.address
  match s.keyring.find? (fun kp => some kp.address = expected) with
  | some kp => pure kp
  | none =>
    match s.keyring with
    | kp :: _ => pure kp
    | [] => throw (.badInput "empty keyring")

/-- The proposing key a step names by its label, or the automatic choice when it names none
(or `auto`). -/
def proposingKey (j : Json) : ChainStep Keypair :=
  match j with
  | .str "auto" => autoKey
  | .str label => pure (Keypair.ofLabel label)
  | _ => autoKey

/-- An evidence id named by `evidence` or `id`. -/
def evidenceId (j : Json) : ChainStep Digest := do
  let sc ← scope
  if (j.field "evidence").isNull then read (readDigest sc (j.field "id"))
  else Evidence.id <$> read (readEvidence sc (j.field "evidence"))

/-- The result of an operation, as an answer value or an error object. -/
def attempt (op : ChainStep Json) : ChainStep Json :=
  tryCatch op fun p => pure p.toJson

end ChainStep

open ChainStep

/-- Every snapshot member with a keyring key votes for a saved block, in canonical order. -/
def voteAll (b : Block) (excludeLocal : Bool) : ChainStep Json := do
  let s ← get
  match s.chain.snapshots.get? b.height with
  | none => pure (.arr [])
  | some vset =>
    let own := s.signer.map Keypair.address
    let results ← vset.vals.filterMapM fun v => do
      if excludeLocal && own = some v.address then return none
      let some kp := (← get).keyring.find? (fun kp => kp.address = v.address) | return none
      let vote := Vote.signWith kp b.height b.hash
      let r ← attempt (do
        let done ← onChain (ChainM.receiveVote vote)
        pure (.obj [("finalized", .bool done)]))
      pure (some (.obj [("voter", addressJson v.address), ("result", r)] : Json))
    pure (.arr results)

def proposeStep (j : Json) : ChainStep Json := do
  let name ← read (textAtOpt j "save")
  let kp ← proposingKey (j.field "key")
  let ts ← read (wordAtOr j "timestamp" 0)
  let b ← onChain (ChainM.propose kp ts)
  saveAs name b
  pure (blockJson b)

def receiveStep (j : Json) : ChainStep Json := do
  let name ← read (textAtOpt j "save_as")
  let b ← mutatedBlock j
  saveAs name b
  let status ← onChain (ChainM.receiveBlock b)
  pure (.obj [("status", .str status.name), ("hash", digestJson b.hash)])

/-- `step`: propose with the automatic key, receive the block, then let the keyring vote. -/
def fullStep (j : Json) : ChainStep Json := do
  let name ← read (textAtOpt j "save")
  let ts ← read (wordAtOr j "timestamp" 0)
  let kp ← autoKey
  match ← tryCatch (Except.ok <$> onChain (ChainM.propose kp ts)) (fun p => pure (.error p)) with
  | .error p => pure (.obj [("propose", p.toJson)])
  | .ok b =>
    saveAs name b
    let status ← attempt (do
      let st ← onChain (ChainM.receiveBlock b)
      pure (.str st.name))
    let votes ← voteAll b true
    pure (.obj [("block", blockJson b), ("status", status), ("votes", votes)])

def handleStep (j : Json) : ChainStep Json := do
  let msg := j.field "msg"
  let sc ← scope
  if !(msg.field "Block").isNull then
    discard (onChain (ChainM.receiveBlock (← mutatedBlock (msg.field "Block"))))
  else if !(msg.field "Vote").isNull then
    discard (onChain (ChainM.receiveVote (← read (readVote sc (msg.field "Vote")))))
  else if !(msg.field "Evidence").isNull then
    discard (onChain (ChainM.receiveEvidence (← read (readEvidence sc (msg.field "Evidence")))))
  else throw (.badInput "bad message")
  pure okJson

/-- `build`: a block built on the configuration's genesis ledger. -/
def buildStep (j : Json) : ChainStep Json := do
  let name ← read (textAtOpt j "save")
  let sc ← scope
  let s ← get
  let kp ← read (readKeypair (j.field "key"))
  let req : BuildRequest :=
    { height := ← read (wordAt j "height")
      parent := ← read (readDigestOr sc (j.field "parent") Digest.zero)
      timestamp := ← read (wordAtOr j "timestamp" 0)
      candidates := ← read (readList (readTx sc) (j.field "candidates"))
      evidence := ← read (readList (readEvidence sc) (j.field "evidence"))
      maxTxs := (← read (wordAtOr j "max_txs" 16)).toNat }
  let genesis ← match s.config.genesisLedger with
    | .ok l => pure l
    | .error e => throw e.problem
  let (b, _) ← onChain (ChainM.guarded ChainError.block (buildBlock kp genesis req s.chain.params))
  saveAs name b
  pure (blockJson b)

/-- Reopens the chain over a store; the chain stays as it was if opening fails. -/
def reopen (kv : MemStore) : ChainStep Json := do
  let s ← get
  match ← orAbort (Chain.ofStore s.config kv s.signer).run with
  | .ok c =>
    set { s with chain := c }
    pure okJson
  | .error e => throw e.problem

/-- The answer of a query step. -/
def queryStep (op : String) (j : Json) : ChainStep Json := do
  let sc ← scope
  let c := (← get).chain
  match op with
  | "head" =>
    let (h, hash, _) := c.head
    pure (.obj [("height", .ofWord h), ("hash", digestJson hash)])
  | "finalized" =>
    let isFinal ← if (j.field "height").isNull then pure Json.null
      else (fun h => Json.bool (c.isFinalized h)) <$> read (wordAt j "height")
    pure (.obj [("height", .ofWord c.finalizedHeight), ("hash", digestJson c.finalizedHash),
      ("is_finalized", isFinal)])
  | "account" =>
    let a ← read (readAddress (j.field "addr"))
    let acct := c.ledger.account a
    pure (.obj [("balance", .ofWord acct.balance), ("staked", .ofWord acct.staked),
      ("nonce", .ofWord acct.nonce), ("balance_q", .ofWord (c.ledger.balance a))])
  | "validator" =>
    let a ← read (readAddress (j.field "addr"))
    pure (optJson (fun (r : ValidatorRecord) => .obj [("pk", hexJson r.publicKey.bytes),
        ("status", statusJson r.status), ("commission_bps", .num r.commissionBps.toNat),
        ("slashed_total", .ofWord r.slashedTotal), ("infractions", .num r.infractions.length)])
      (c.ledger.validators.get? a))
  | "supply" =>
    pure (.obj [("total_supply", .ofWord c.ledger.totalSupply),
      ("total_staked", .ofWord c.ledger.totalStaked), ("burned", .ofWord c.ledger.burned),
      ("fee_pool", .ofWord c.ledger.feePool)])
  | "validator_set" =>
    let h ← read (wordAt j "height")
    pure (optJson vsetJson (c.snapshots.get? h))
  | "expected_proposer" =>
    let h ← read (wordAt j "height")
    pure (.obj [("proposer", optJson (fun (v : Validator) => addressJson v.address) (c.proposerFor h))])
  | "block" =>
    let h ← read (wordAt j "height")
    let (c', r) := c.blockAt h
    modify fun s => { s with chain := c' }
    match r with
    | .ok b => pure (optJson blockJson b)
    | .error e => throw e.problem
  | "block_status" =>
    let hash ← read (readDigest sc (j.field "hash"))
    pure (optJson (fun (st : BlockStatus) => .str st.name) (c.blockStatus hash))
  | "certificate" =>
    let h ← read (wordAt j "height")
    match c.certificateAt h with
    | .ok cert => pure (optJson certJson cert)
    | .error e => throw e.problem
  | "evidence_status" =>
    pure (evidenceStatusJson (c.slashing.status (← evidenceId j)))
  | "committed_evidence" =>
    match c.committedEvidence (← evidenceId j) with
    | .ok e => pure (optJson evidenceJson e)
    | .error e => throw e.problem
  | "mempool_len" => pure (.obj [("len", .num c.mempool.size)])
  | other => throw (.badInput ("unknown step " ++ other))

/-- The answer of one step. -/
def chainStep (j : Json) : ChainStep Json := do
  let sc ← scope
  match j.field "op" with
  | .str "submit" =>
    onChain (ChainM.submit (← read (readTx sc (j.field "tx"))))
    pure okJson
  | .str "propose" => proposeStep j
  | .str "receive" => receiveStep j
  | .str "vote" =>
    let done ← onChain (ChainM.receiveVote (← read (readVote sc (j.field "vote"))))
    pure (.obj [("finalized", .bool done)])
  | .str "vote_all" =>
    voteAll (← savedRef (j.field "block")) (← read (readBoolOr (j.field "exclude_local") true))
  | .str "step" => fullStep j
  | .str "evidence" =>
    submitJson <$> onChain (ChainM.receiveEvidence (← read (readEvidence sc (j.field "evidence"))))
  | .str "handle" => handleStep j
  | .str "build" => buildStep j
  | .str "fail_writes" =>
    let on ← read (readBoolOr (j.field "on") true)
    modify fun s => { s with chain := { s.chain with store := { s.chain.store with
      kv := { s.chain.store.kv with failWrites := on } } } }
    pure okJson
  | .str "kv_put" =>
    let k ← read (readBytes (j.field "key"))
    let v ← read (readBytes (j.field "value"))
    let s ← get
    match s.chain.store.kv.put k v with
    | .ok kv =>
      set { s with chain := { s.chain with store := { s.chain.store with kv := kv } } }
      pure okJson
    | .error e => throw (ChainError.storage e).problem
  | .str "restart" => reopen (← get).chain.store.kv
  | .str "reset" => reopen {}
  | .str op => queryStep op j
  | _ => throw (.badInput "missing step op")

/-- Runs the steps in order, answering each with its events, head and final height. -/
def ChainRun.runSteps : List Json → ChainRun → Except Abort (List Json)
  | [], _ => .ok []
  | j :: rest, s => do
    let s := { s with chain := { s.chain with events := [] } }
    let (r, s) ← ((attempt (chainStep j)).run).run s
    let result := match r with
      | .ok v => v
      | .error p => p.toJson
    let (h, hash, _) := s.chain.head
    let events := s.chain.events.map fun
      | .broadcast v => .obj [("broadcast", voteJson v)]
      | .penalized p => .obj [("penalized", addressJson p.offender),
          ("evidence_id", digestJson p.evidenceId), ("height", .ofWord p.height),
          ("slashed", .ofWord p.slashed), ("new_stake", .ofWord p.newStake),
          ("jailed_until", .ofWord p.jailedUntil)]
      | .finalized b cert => .obj [("finalized", .ofWord b.height), ("hash", digestJson b.hash),
          ("cert_power", optJson (fun (c : Certificate) => .ofWord c.signedPower) cert)]
    let answer : Json := .obj [("result", result), ("events", .arr events),
      ("head", .arr [.ofWord h, digestJson hash]), ("final", .ofWord s.chain.finalizedHeight)]
    let more ← ChainRun.runSteps rest s
    pure (answer :: more)

/-- `chain {toml|config, validators, stake, local, keys, steps}`. -/
def chainOp (j : Json) : Read Json := do
  match ← readConfig j with
  | .error e => pure e.problem.toJson
  | .ok cfg =>
    let signer ← if (j.field "local").isNull then pure none
      else some <$> readKeypair (j.field "local")
    let keys ← readList readKeypair (j.field "keys")
    let labelled := cfg.genesis.validators.filterMap fun v => v.label.map Keypair.ofLabel
    let keyring := keys ++ signer.toList ++ labelled
    let steps ← readList pure (j.field "steps")
    match (Chain.ofStore cfg {} signer).run with
    | .error a => pure (panicJson a)
    | .ok (.error e) => pure e.problem.toJson
    | .ok (.ok c) =>
      match ChainRun.runSteps steps ⟨cfg, signer, keyring, c, []⟩ with
      | .ok answers => pure (.obj [("result", .arr answers)])
      | .error a => pure (panicJson a)

end Request

end StakeChain

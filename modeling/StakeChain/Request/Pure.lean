import StakeChain.Request.Decode
import StakeChain.Request.Encode
import StakeChain.Merkle.Roots
import StakeChain.Consensus.Finality

/-!
# Stateless requests

Requests that compute one value from their input: digests, keys and signatures, signed bytes
of transactions, headers and votes, Merkle trees and proofs, validator sets, tallies, gas and
evidence checks.
-/

set_option autoImplicit false

namespace StakeChain.Request

/-- `{"ok": true}` or a crypto error. -/
def cryptoAnswer (r : Except CryptoError Unit) : Json := unitAnswer CryptoError.problem r

def hashOp (j : Json) : Read Json := do
  let data ← if (j.field "text").isNull then readBytes (j.field "data")
    else (fun s => s.toUTF8.data.toList) <$> readString (j.field "text")
  pure (.obj [("hash", digestJson (Digest.ofBytes data))])

def keyOp (j : Json) : Read Json := do
  let kp ← readKeypair (j.field "key")
  pure (.obj [("pk", hexJson kp.publicKey.bytes), ("address", addressJson kp.address),
    ("short", .str kp.address.short), ("seed", hexJson kp.seed)])

def signOp (j : Json) : Read Json := do
  let kp ← readKeypair (j.field "key")
  pure (.obj [("signature", hexJson (kp.sign (← readBytes (j.field "msg"))))])

def verifyOp (j : Json) : Read Json := do
  let pk ← readPublicKey (j.field "pk")
  pure (cryptoAnswer (Ed25519.verify pk.bytes (← readBytes (j.field "msg"))
    (← readBytes (j.field "sig"))))

def parseHexOp (j : Json) : Read Json := do
  let s ← readString (j.field "s")
  match ← readString (j.field "kind") with
  | "hash" => pure (.obj [("result", optJson digestJson (Digest.ofHex? s))])
  | "address" => pure (.obj [("result", optJson addressJson (Address.ofHex? s))])
  | "pk" =>
    match PublicKey.ofHex s with
    | .ok pk => pure (.obj [("pk", hexJson pk.bytes), ("address", addressJson pk.address)])
    | .error e => pure (CryptoError.problem (.key e)).toJson
  | "seed" =>
    match Keypair.ofSeedHex s with
    | .ok kp => pure (.obj [("address", addressJson kp.address)])
    | .error e => pure e.problem.toJson
  | other => throw (.badInput ("unknown kind " ++ other))

/-- A gas schedule field, defaults when absent. -/
def readGasOr (j : Json) : Read GasSchedule := if j.isNull then .ok {} else readGas j

def txOp (j : Json) : Read Json := do
  let tx ← readTx {} (j.field "tx")
  let g ← readGasOr (j.field "gas")
  pure (.obj [("sign_bytes", hexJson tx.signBytes), ("hash", digestJson tx.hash),
    ("sender", addressJson tx.sender), ("tag", .num tx.kind.tag.toNat),
    ("amount", .ofWord tx.kind.amount), ("signature", hexJson tx.signature),
    ("verify", cryptoAnswer tx.verifySignature), ("base_cost", .ofWord (g.baseCost tx.kind)),
    ("cost", .ofWord (g.cost tx))])

def headerOp (j : Json) : Read Json := do
  let sh ← readSignedHeader {} (j.field "header")
  pure (.obj [("hash_bytes", hexJson sh.header.hashBytes), ("hash", digestJson sh.hash),
    ("proposer", addressJson sh.header.proposer),
    ("proposal_sign_bytes", hexJson (proposalSignBytes sh.header.height sh.hash)),
    ("signature", hexJson sh.signature), ("verify", cryptoAnswer sh.verify)])

def voteOp (j : Json) : Read Json := do
  let v ← readVote {} (j.field "vote")
  pure (withFields (voteJson v) [("sign_bytes", hexJson v.signBytes),
    ("signature", hexJson v.signature), ("verify", cryptoAnswer v.verify)])

def merkleOp (j : Json) : Read Json := do
  let leaves ← readList (readDigest {}) (j.field "leaves")
  let tree := MerkleTree.build chainHasher leaves
  let root := tree.root chainHasher
  let proofs ← readList (readNat "proofs") (j.field "proofs")
  let proofJson (i : Nat) : Json :=
    match tree.proof i with
    | none => .null
    | some p => .obj [("leaf_count", .ofWord p.leafCount),
        ("siblings", .arr (p.siblings.map digestJson)),
        ("verifies", .bool (p.verify chainHasher root (leaves.getD i default) i.toUInt64))]
  pure (.obj [("root", digestJson root), ("merkle_root", digestJson (merkleRoot chainHasher leaves)),
    ("leaf_count", .num tree.leafCount), ("depth", .num (proofDepth leaves.length)),
    ("proofs", .arr (proofs.map proofJson))])

def merkleVerifyOp (j : Json) : Read Json := do
  let p : MerkleProof Digest :=
    ⟨← wordAt j "leaf_count", ← readList (readDigest {}) (j.field "siblings")⟩
  let ok := p.verify chainHasher (← readDigest {} (j.field "root"))
    (← readDigest {} (j.field "leaf")) (← wordAt j "index")
  pure (.obj [("valid", .bool ok)])

def proofDepthOp (j : Json) : Read Json := do
  pure (.obj [("depth", .num (proofDepth (← wordAt j "n").toNat))])

def stateRootOp (j : Json) : Read Json := do
  let entries ← readList (fun e => do
      match e with
      | .arr [k, v] => pure (← readBytes k, ← readBytes v)
      | _ => throw (.badInput "bad entry")) (j.field "entries")
  let sorted := sortEntries entries
  pure (.obj [("root", digestJson (stateRootSorted sorted)), ("entries", .num sorted.length)])

def rootsOp (j : Json) : Read Json := do
  let txs ← readList (readTx {}) (j.field "txs")
  let ev ← readList (readEvidence {}) (j.field "evidence")
  pure (.obj [("tx_root", digestJson (txRoot txs)), ("evidence_root", digestJson (evidenceRoot ev)),
    ("empty_root", digestJson chainHasher.emptyRoot),
    ("empty_leaf", digestJson chainHasher.paddingLeaf)])

def quorumOp (j : Json) : Read Json := do
  pure (.obj [("threshold", .ofWord (quorumThreshold (← wordAt j "total")))])

def tallyOp (j : Json) : Read Json := do
  let vset := ValidatorSet.ofList (← wordAtOr j "height" 0)
    (← readList readValidator (j.field "vals"))
  let votes ← readList (fun v => do
    pure (← readAddress (v.field "voter"), ← readDigest {} (v.field "block"))) (j.field "votes")
  let (t, after) := votes.foldl (fun (acc : Tally × List UInt64) (voter, block) =>
      let (t', p) := acc.1.addVote vset voter block
      (t', acc.2 ++ [p])) (({} : Tally), [])
  pure (.obj [("after_each", .arr (after.map Json.ofWord)),
    ("per_block", .arr (t.perBlock.toList.map fun (h, p) => .arr [digestJson h, .ofWord p])),
    ("best", optJson (fun (h, p) => .arr [digestJson h, .ofWord p]) t.best)])

def vsetOp (j : Json) : Read Json := do
  let vset := ValidatorSet.ofList (← wordAtOr j "height" 0)
    (← readList readValidator (j.field "vals"))
  let selects ← readList (fun s => do
      let h ← wordAt s "height"
      let seed ← if (s.field "seed").isNull then
          (fun p => proposerSeed p h) <$> readDigest {} (s.field "parent")
        else readDigest {} (s.field "seed")
      pure (.obj [("seed", digestJson seed),
        ("proposer", optJson (fun (v : Validator) => addressJson v.address)
          (vset.selectProposer h seed))] : Json)) (j.field "select")
  let queries ← readList (fun a => do
      let addr ← readAddress a
      pure (.obj [("power", .ofWord (vset.powerOf addr)), ("contains", .bool (vset.contains addr))]
        : Json)) (j.field "query")
  pure (withFields (vsetJson vset) [("len", .num vset.size), ("is_empty", .bool vset.isEmpty),
    ("select", .arr selects), ("query", .arr queries)])

def proposerSeedOp (j : Json) : Read Json := do
  pure (.obj [("seed", digestJson (proposerSeed (← readDigest {} (j.field "parent"))
    (← wordAt j "height")))])

def gasOp (j : Json) : Read Json := do
  let g ← readGasOr (j.field "gas")
  let tx ← readTx {} (j.field "tx")
  let used ← readList (readWord "used") (j.field "used")
  pure (.obj [("base_cost", .ofWord (g.baseCost tx.kind)), ("cost", .ofWord (g.cost tx)),
    ("can_include", .arr (used.map fun u => .bool (g.canInclude u tx)))])

def gasMeterOp (j : Json) : Read Json := do
  let charges ← readList (readWord "charges") (j.field "charges")
  let m0 : GasMeter := { limit := ← wordAt j "limit" }
  let (_, out) := charges.foldl (fun (acc : GasMeter × List Json) c =>
      let (m, r) := match acc.1.charge c with
        | .ok m' => (m', Json.obj [("ok", .bool true)])
        | .error e => (acc.1, e.problem.toJson)
      (m, acc.2 ++ [.obj [("result", r), ("used", .ofWord m.used),
        ("remaining", .ofWord m.remaining)]])) (m0, [])
  pure (.obj [("result", .arr out)])

def evidenceOp (j : Json) : Read Json := do
  let e ← readEvidence {} (j.field "evidence")
  pure (withFields (evidenceJson e) [("verify", unitAnswer EvidenceError.problem e.verify)])

/-- The stateless request named `op`, if it is one. -/
def pureOp? (op : String) (j : Json) : Option (Read Json) :=
  match op with
  | "hash" => some (hashOp j)
  | "key" => some (keyOp j)
  | "sign" => some (signOp j)
  | "verify" => some (verifyOp j)
  | "parse_hex" => some (parseHexOp j)
  | "tx" => some (txOp j)
  | "header" => some (headerOp j)
  | "vote" => some (voteOp j)
  | "merkle" => some (merkleOp j)
  | "merkle_verify" => some (merkleVerifyOp j)
  | "proof_depth" => some (proofDepthOp j)
  | "state_root" => some (stateRootOp j)
  | "roots" => some (rootsOp j)
  | "quorum" => some (quorumOp j)
  | "tally" => some (tallyOp j)
  | "vset" => some (vsetOp j)
  | "proposer_seed" => some (proposerSeedOp j)
  | "gas" => some (gasOp j)
  | "gas_meter" => some (gasMeterOp j)
  | "evidence" => some (evidenceOp j)
  | _ => none

end StakeChain.Request

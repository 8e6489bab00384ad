import StakeChain.Request.Problem
import StakeChain.Consensus.ValidatorSet

/-!
# Writing answer values

The JSON shapes of chain objects in answers: digests, addresses, keys and byte strings as
lowercase hexadecimal, words as integers, absent values as `null`.
-/

set_option autoImplicit false

namespace StakeChain.Request

def hexJson (b : Bytes) : Json := .str (Bytes.toHex b)

def digestJson (d : Digest) : Json := .str d.toHex

def addressJson (a : Address) : Json := .str a.toHex

def optJson {α : Type} (f : α → Json) : Option α → Json
  | some a => f a
  | none => .null

/-- A vote: its voter, height, block and id. -/
def voteJson (v : Vote) : Json :=
  .obj [("voter", addressJson v.voter), ("height", .ofWord v.height),
    ("block", digestJson v.blockHash), ("id", digestJson v.id)]

/-- A transaction: its hash, sender, nonce and fee. -/
def txJson (tx : Transaction) : Json :=
  .obj [("hash", digestJson tx.hash), ("sender", addressJson tx.sender),
    ("nonce", .ofWord tx.nonce), ("fee", .ofWord tx.fee)]

/-- A block: its header fields, signature, transaction hashes and evidence ids. -/
def blockJson (b : Block) : Json :=
  let h := b.header
  .obj [("hash", digestJson b.hash), ("height", .ofWord h.height),
    ("parent", digestJson h.parent), ("tx_root", digestJson h.txRoot),
    ("evidence_root", digestJson h.evidenceRoot), ("state_root", digestJson h.stateRoot),
    ("gas_used", .ofWord h.gasUsed), ("proposer", addressJson h.proposer),
    ("timestamp", .ofWord h.timestamp), ("signature", hexJson b.signature),
    ("txs", .arr (b.txs.map fun t => digestJson t.hash)),
    ("evidence", .arr (b.evidence.map fun e => digestJson e.id))]

/-- A signed header inside evidence: its hash, height and proposer. -/
def headerJson (s : SignedHeader) : Json :=
  .obj [("hash", digestJson s.hash), ("height", .ofWord s.header.height),
    ("proposer", addressJson s.header.proposer)]

/-- Evidence: id, kind, offender, height and both artifacts. -/
def evidenceJson (e : Evidence) : Json :=
  let (a, b) := match e with
    | .doubleVote x y => (voteJson x, voteJson y)
    | .doubleProposal x y => (headerJson x, headerJson y)
  .obj [("id", digestJson e.id), ("kind", .str e.kind.name),
    ("offender", addressJson e.offender), ("height", .ofWord e.height), ("a", a), ("b", b)]

/-- A validator set in canonical order with its total power and hash. -/
def vsetJson (s : ValidatorSet) : Json :=
  .obj [("height", .ofWord s.height),
    ("vals", .arr (s.vals.map fun v => .obj [("address", addressJson v.address),
      ("pk", hexJson v.publicKey.bytes), ("power", .ofWord v.power)])),
    ("total_power", .ofWord s.totalPower), ("hash", digestJson s.hash)]

/-- The fields of an object value, none for anything else. -/
def fieldsOf : Json → List (String × Json)
  | .obj fs => fs
  | _ => []

/-- An object with more fields. -/
def withFields (j : Json) (more : List (String × Json)) : Json := .obj (fieldsOf j ++ more)

end StakeChain.Request

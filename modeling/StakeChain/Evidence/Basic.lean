import StakeChain.Block.Header
import StakeChain.Consensus.Vote

/-!
# Equivocation evidence, and blocks

Evidence is two conflicting signed artifacts of one validator at one height: two votes, or two
signed headers.  The canonical constructors store the pair with the smaller artifact id first,
and the evidence id hashes `UNICRIUM_EVD_V1`, the kind and both artifact ids in ascending order,
so the same two artifacts always give the same id whichever arrived first.

* `Evidence.ofVotes`, `Evidence.ofHeaders`: canonical pairs;
* `Evidence.id`, `Evidence.offender`, `Evidence.height`;
* `Evidence.verify`: one signer, one height, two different blocks, then both signatures.

A `Block` is a signed header with its transactions and evidence.  Its hash is the header's
hash, which covers neither the signature nor the bodies directly: the bodies are bound through
the header's Merkle roots.
-/

set_option autoImplicit false

namespace StakeChain

/-- Why evidence is not valid. -/
inductive EvidenceError where
  | badSignature
  | differentSigners
  | differentHeights
  | noConflict
  deriving DecidableEq, Repr

namespace EvidenceError

def message : EvidenceError → String
  | .badSignature => "artifact signature invalid"
  | .differentSigners => "artifacts signed by different validators"
  | .differentHeights => "artifacts are for different heights"
  | .noConflict => "artifacts do not conflict"

def kind : EvidenceError → String
  | .badSignature => "BadSignature"
  | .differentSigners => "DifferentSigners"
  | .differentHeights => "DifferentHeights"
  | .noConflict => "NoConflict"

end EvidenceError

/-- The two kinds of offense. -/
inductive EvidenceKind where
  | doubleVote
  | doubleProposal
  deriving DecidableEq, Repr, Inhabited

def EvidenceKind.name : EvidenceKind → String
  | .doubleVote => "DoubleVote"
  | .doubleProposal => "DoubleProposal"

/-- Two conflicting artifacts of one validator. -/
inductive Evidence where
  | doubleVote (a b : Vote)
  | doubleProposal (a b : SignedHeader)
  deriving DecidableEq, Repr, Inhabited

/-- Whether one digest is at most another in byte order. -/
def Digest.le (x y : Digest) : Bool := compare x y != .gt

namespace Evidence

/-- Double-vote evidence with the vote of smaller id first. -/
def ofVotes (x y : Vote) : Evidence :=
  if Digest.le x.id y.id then .doubleVote x y else .doubleVote y x

/-- Double-proposal evidence with the header of smaller hash first. -/
def ofHeaders (x y : SignedHeader) : Evidence :=
  if Digest.le x.hash y.hash then .doubleProposal x y else .doubleProposal y x

def kind : Evidence → EvidenceKind
  | .doubleVote .. => .doubleVote
  | .doubleProposal .. => .doubleProposal

/-- The domain tag of evidence ids. -/
def domain : Bytes := "UNICRIUM_EVD_V1".toUTF8.data.toList

/-- The canonical id: the kind and both artifact ids, smaller first. -/
def id (e : Evidence) : Digest :=
  let (tag, x, y) : UInt8 × Digest × Digest := match e with
    | .doubleVote a b => (0, a.id, b.id)
    | .doubleProposal a b => (1, a.hash, b.hash)
  let (lo, hi) := if Digest.le x y then (x, y) else (y, x)
  Digest.ofBytes (domain ++ [tag] ++ lo.bytes ++ hi.bytes)

/-- The validator the evidence accuses: the signer of the first artifact. -/
def offender : Evidence → Address
  | .doubleVote a _ => a.voter
  | .doubleProposal a _ => a.header.proposer

/-- The height of the offense: that of the first artifact. -/
def height : Evidence → UInt64
  | .doubleVote a _ => a.height
  | .doubleProposal a _ => a.header.height

/-- The stateless check: one signer, one height, two different blocks, both signatures. -/
def verify : Evidence → Except EvidenceError Unit
  | .doubleVote a b =>
    if a.voterKey ≠ b.voterKey then .error .differentSigners
    else if a.height ≠ b.height then .error .differentHeights
    else if a.blockHash = b.blockHash then .error .noConflict
    else if (a.verify matches .error _) then .error .badSignature
    else if (b.verify matches .error _) then .error .badSignature
    else .ok ()
  | .doubleProposal a b =>
    if a.header.proposerKey ≠ b.header.proposerKey then .error .differentSigners
    else if a.header.height ≠ b.header.height then .error .differentHeights
    else if a.hash = b.hash then .error .noConflict
    else if (a.verify matches .error _) then .error .badSignature
    else if (b.verify matches .error _) then .error .badSignature
    else .ok ()

end Evidence

/-- A block. -/
structure Block where
  header : BlockHeader
  signature : Bytes
  txs : List Transaction
  evidence : List Evidence
  deriving DecidableEq, Repr, Inhabited

namespace Block

def hash (b : Block) : Digest := b.header.hash

def height (b : Block) : UInt64 := b.header.height

def signedHeader (b : Block) : SignedHeader := ⟨b.header, b.signature⟩

end Block

end StakeChain

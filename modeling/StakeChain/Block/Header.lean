import StakeChain.Transaction.Basic

/-!
# Block headers

A header commits to its parent, the roots of its transactions, evidence and resulting state,
the gas used, the proposer's key and a timestamp.  Its hash is the digest of `UNICRIUM_BLK_V1`
followed by every field; the proposer signs `PROP`, the height and the hash.

* `BlockHeader.hashBytes`, `BlockHeader.hash`, `BlockHeader.proposer`;
* `proposalSignBytes`, `SignedHeader.verify`.
-/

set_option autoImplicit false

namespace StakeChain

/-- A block header. -/
structure BlockHeader where
  height : UInt64
  parent : Digest
  txRoot : Digest
  evidenceRoot : Digest
  stateRoot : Digest
  gasUsed : UInt64
  proposerKey : PublicKey
  timestamp : UInt64
  deriving DecidableEq, Repr, Inhabited

namespace BlockHeader

/-- The domain tag of header hashes. -/
def domain : Bytes := "UNICRIUM_BLK_V1".toUTF8.data.toList

/-- The bytes whose digest is the block hash. -/
def hashBytes (h : BlockHeader) : Bytes :=
  domain ++ Bytes.le64 h.height ++ h.parent.bytes ++ h.txRoot.bytes ++ h.evidenceRoot.bytes ++
    h.stateRoot.bytes ++ Bytes.le64 h.gasUsed ++ Bytes.lenPrefix32 h.proposerKey.bytes ++
    h.proposerKey.bytes ++ Bytes.le64 h.timestamp

/-- The block hash. -/
def hash (h : BlockHeader) : Digest := Digest.ofBytes h.hashBytes

/-- The proposer's address. -/
def proposer (h : BlockHeader) : Address := h.proposerKey.address

end BlockHeader

/-- The bytes a proposer signs for a block: `PROP`, the height and the block hash. -/
def proposalSignBytes (height : UInt64) (hash : Digest) : Bytes :=
  "PROP".toUTF8.data.toList ++ Bytes.le64 height ++ hash.bytes

/-- A header with its proposer's signature. -/
structure SignedHeader where
  header : BlockHeader
  signature : Bytes
  deriving DecidableEq, Repr, Inhabited

namespace SignedHeader

def hash (s : SignedHeader) : Digest := s.header.hash

/-- The signature of a header by its proposer. -/
def signatureOf (kp : Keypair) (h : BlockHeader) : Bytes :=
  kp.sign (proposalSignBytes h.height h.hash)

/-- Whether a signature over a header verifies under the header's proposer key. -/
def verifyHeader (h : BlockHeader) (sig : Bytes) : Except CryptoError Unit :=
  Ed25519.verify h.proposerKey.bytes (proposalSignBytes h.height h.hash) sig

def verify (s : SignedHeader) : Except CryptoError Unit := verifyHeader s.header s.signature

end SignedHeader

end StakeChain

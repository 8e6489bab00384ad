import StakeChain.Identity.Keypair

/-!
# Finality votes

A vote is a validator's signed statement that it accepts a block at a height.  It signs `FVOT`,
the height and the block hash; the domain tag keeps a vote signature from ever verifying as a
proposal signature.  The vote id is the digest of the signed bytes followed by the voter's key,
so two votes with one id are the same statement.
-/

set_option autoImplicit false

namespace StakeChain

/-- The bytes a voter signs: `FVOT`, the height and the block hash. -/
def voteSignBytes (height : UInt64) (hash : Digest) : Bytes :=
  "FVOT".toUTF8.data.toList ++ Bytes.le64 height ++ hash.bytes

/-- A signed vote for a block. -/
structure Vote where
  voterKey : PublicKey
  height : UInt64
  blockHash : Digest
  signature : Bytes
  deriving DecidableEq, Repr, Inhabited

namespace Vote

/-- The vote of `kp` for a block. -/
def signWith (kp : Keypair) (height : UInt64) (hash : Digest) : Vote :=
  ⟨kp.publicKey, height, hash, kp.sign (voteSignBytes height hash)⟩

def voter (v : Vote) : Address := v.voterKey.address

def signBytes (v : Vote) : Bytes := voteSignBytes v.height v.blockHash

def verify (v : Vote) : Except CryptoError Unit :=
  Ed25519.verify v.voterKey.bytes v.signBytes v.signature

/-- The content id of a vote. -/
def id (v : Vote) : Digest := Digest.ofBytes (v.signBytes ++ v.voterKey.bytes)

end Vote

end StakeChain

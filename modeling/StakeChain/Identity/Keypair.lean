import StakeChain.Identity.Basic

/-!
# Signing keys

A signing key is held with its expanded secret and its public key, so that signing needs one
scalar multiplication.  Development keys come from a label: their seed is the digest of
`UNICRIUM_DEV_KEY` followed by the label.
-/

set_option autoImplicit false

namespace StakeChain

/-- An Ed25519 signing key. -/
structure Keypair where
  seed : Bytes
  scalar : Nat
  noncePrefix : Bytes
  publicKey : PublicKey

namespace Keypair

/-- The key of a 32-byte seed. -/
def ofSeed (seed : Bytes) : Keypair :=
  let (a, pre) := Ed25519.expand seed
  { seed := seed, scalar := a, noncePrefix := pre,
    publicKey := ⟨(Edwards.baseMul a).compress⟩ }

/-- The seed of the development key with a label. -/
def labelSeed (label : String) : Bytes :=
  Blake3.hash ("UNICRIUM_DEV_KEY".toUTF8.data.toList ++ label.toUTF8.data.toList)

/-- The development key with a label. -/
def ofLabel (label : String) : Keypair := ofSeed (labelSeed label)

/-- The key of a hexadecimal seed: leading `0x` markers are stripped and exactly 32 bytes are
required. -/
def ofSeedHex (s : String) : Except CryptoError Keypair :=
  match Bytes.ofHex (stripHexMarker s) with
  | .error e => .error (.key (.seedHex e))
  | .ok b => if b.length = 32 then .ok (ofSeed b) else .error (.key .seedLength)

/-- The address of the key. -/
def address (kp : Keypair) : Address := kp.publicKey.address

/-- The signature of a message. -/
def sign (kp : Keypair) (msg : Bytes) : Bytes :=
  Ed25519.signExpanded kp.scalar kp.noncePrefix kp.publicKey.bytes msg

end Keypair

end StakeChain

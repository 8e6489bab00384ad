import StakeChain.Curve.Edwards
import StakeChain.Hash.Sha512
import StakeChain.Bytes.Hex

/-!
# Ed25519 signatures

Deterministic signing and strict verification.

A 32-byte seed expands through SHA-512 into a clamped secret scalar `a` and a nonce prefix;
the public key is the encoding of `a B`.  A signature is `R ‖ s` with `R = r B` for the nonce
`r = H(prefix ‖ m)` and `s = r + H(R ‖ A ‖ m) a` modulo the group order.

Verification is strict: `s` must be below the group order, `R` must decode, neither `R` nor the
key may have small order, and the encoding of `s B - k A` must equal the 32 bytes of `R`.

* `publicKeyOf`, `sign`: key derivation and signing;
* `verify`: the checks in order, with the error each one raises.
-/

set_option autoImplicit false

namespace StakeChain

/-- What is wrong with key or signature material. -/
inductive KeyError where
  /-- A public key that is not 32 bytes long. -/
  | publicKeyLength
  /-- A signature that is not 64 bytes long. -/
  | signatureLength
  /-- 32 bytes that encode no curve point. -/
  | notOnCurve
  /-- A seed that is not hexadecimal. -/
  | seedHex (e : HexError)
  /-- A seed of the wrong length. -/
  | seedLength
  /-- A public key that is not hexadecimal. -/
  | publicKeyHex (e : HexError)
  deriving DecidableEq, Repr

/-- The text of a key error. -/
def KeyError.message : KeyError → String
  | .publicKeyLength => "bad pk bytes"
  | .signatureLength => "bad sig bytes"
  | .notOnCurve => "signature error: Cannot decompress Edwards point"
  | .seedHex e => "bad seed hex: " ++ e.message
  | .seedLength => "seed must be 32 bytes"
  | .publicKeyHex e => "bad pk hex: " ++ e.message

/-- Why a signature is not accepted. -/
inductive CryptoError where
  /-- The material is well formed but the signature does not verify. -/
  | invalidSignature
  /-- The key or signature material is malformed. -/
  | key (e : KeyError)
  deriving DecidableEq, Repr

/-- The text of a signature error. -/
def CryptoError.message : CryptoError → String
  | .invalidSignature => "invalid signature"
  | .key e => "key error: " ++ e.message

/-- The name of the error's variant. -/
def CryptoError.kind : CryptoError → String
  | .invalidSignature => "InvalidSignature"
  | .key _ => "Key"

namespace Ed25519

open Edwards

/-- The clamped secret scalar and the nonce prefix of a seed. -/
def expand (seed : Bytes) : Nat × Bytes :=
  let h := Sha512.hash seed
  let lo := Bytes.readLe (h.take 32)
  (((lo / 8 * 8) % Nat.pow 2 255) ||| Nat.pow 2 254, h.drop 32)

/-- The 32-byte public key of a seed. -/
def publicKeyOf (seed : Bytes) : Bytes :=
  (baseMul (expand seed).1).compress

/-- The 64-byte signature of a message under the expanded secret `a`, `pre` and public key
`pk` of a seed. -/
def signExpanded (a : Nat) (pre pk msg : Bytes) : Bytes :=
  let r := Bytes.readLe (Sha512.hash (pre ++ msg)) % groupOrder
  let rEnc := (baseMul r).compress
  let k := Bytes.readLe (Sha512.hash (rEnc ++ pk ++ msg)) % groupOrder
  rEnc ++ Bytes.leN 32 ((r + k * a) % groupOrder)

/-- The 64-byte signature of a message under a seed. -/
def sign (seed : Bytes) (msg : Bytes) : Bytes :=
  let (a, pre) := expand seed
  signExpanded a pre (baseMul a).compress msg

/-- The strict verification equation, for a key that decoded to `A`. -/
def verifyStrict (pk : Bytes) (A : Point) (msg sig : Bytes) : Bool :=
  let rEnc := sig.take 32
  let s := Bytes.readLe (sig.drop 32)
  if s ≥ groupOrder then false
  else
    match decompress rEnc with
    | none => false
    | some R =>
      if R.isSmallOrder || A.isSmallOrder then false
      else
        let k := Bytes.readLe (Sha512.hash (rEnc ++ pk ++ msg)) % groupOrder
        ((baseMul s).add (Point.smul k A.negate)).compress == rEnc

/-- Verification of a signature over a message: the key length, the key's decoding and the
signature length are checked first, each with its own error; then the strict equation. -/
def verify (pk msg sig : Bytes) : Except CryptoError Unit :=
  if pk.length ≠ 32 then .error (.key .publicKeyLength)
  else
    match decompress pk with
    | none => .error (.key .notOnCurve)
    | some A =>
      if sig.length ≠ 64 then .error (.key .signatureLength)
      else if verifyStrict pk A msg sig then .ok ()
      else .error .invalidSignature

end Ed25519

end StakeChain

import StakeChain.Identity.Keypair
import StakeChain.Word

/-!
# Transactions

A transaction moves or bonds value on behalf of the holder of `senderKey`.  Its kind is one of
seven actions, each with its own fields.

The signed bytes of a transaction are `UNICRIUM_TX_V1`, the chain id, the length-prefixed
sender key, nonce, fee and gas limit, the kind's tag and fields, and the length-prefixed memo;
every integer is little-endian of fixed width.  The signature is not part of them, so the
transaction hash (the digest of the signed bytes) does not depend on it.

* `TxKind.tag`, `TxKind.amount`, `TxKind.fieldBytes`: the kind's wire data;
* `Transaction.signBytes`, `Transaction.hash`, `Transaction.sender`, `Transaction.signWith`.
-/

set_option autoImplicit false

namespace StakeChain

/-- What a transaction does. -/
inductive TxKind where
  /-- Pay `amount` to `recipient`. -/
  | transfer (recipient : Address) (amount : UInt64)
  /-- Bond `amount` of the sender's balance as the sender's own stake. -/
  | stake (amount : UInt64)
  /-- Start unbonding `amount` of the sender's own stake. -/
  | unstake (amount : UInt64)
  /-- Bond `amount` of the sender's balance to `validator`. -/
  | delegate (validator : Address) (amount : UInt64)
  /-- Start unbonding `amount` delegated to `validator`. -/
  | undelegate (validator : Address) (amount : UInt64)
  /-- Register the sender as a validator with a first self-stake and a commission. -/
  | createValidator (amount : UInt64) (commissionBps : UInt16)
  /-- Change the sender's commission. -/
  | editValidator (commissionBps : UInt16)
  deriving DecidableEq, Repr, Inhabited

namespace TxKind

/-- The one-byte tag of the kind in signed bytes. -/
def tag : TxKind → UInt8
  | .transfer .. => 1
  | .stake .. => 2
  | .unstake .. => 3
  | .delegate .. => 4
  | .undelegate .. => 5
  | .createValidator .. => 6
  | .editValidator .. => 7

/-- The amount a kind moves; editing a commission moves none. -/
def amount : TxKind → UInt64
  | .transfer _ a | .stake a | .unstake a | .delegate _ a | .undelegate _ a
  | .createValidator a _ => a
  | .editValidator _ => 0

/-- The kind's fields in signed bytes: addresses raw, amounts and commissions little-endian. -/
def fieldBytes : TxKind → Bytes
  | .transfer dest a => dest.bytes ++ Bytes.le64 a
  | .stake a | .unstake a => Bytes.le64 a
  | .delegate v a | .undelegate v a => v.bytes ++ Bytes.le64 a
  | .createValidator a bps => Bytes.le64 a ++ Bytes.le16 bps
  | .editValidator bps => Bytes.le16 bps

end TxKind

/-- A transaction. -/
structure Transaction where
  chainId : UInt64
  senderKey : PublicKey
  nonce : UInt64
  fee : UInt64
  gasLimit : UInt64
  kind : TxKind
  memo : Bytes
  signature : Bytes
  deriving DecidableEq, Repr, Inhabited

namespace Transaction

/-- The domain tag of transaction signatures. -/
def domain : Bytes := "UNICRIUM_TX_V1".toUTF8.data.toList

/-- The bytes the sender signs. -/
def signBytes (tx : Transaction) : Bytes :=
  domain ++ Bytes.le64 tx.chainId ++ Bytes.lenPrefix32 tx.senderKey.bytes ++
    tx.senderKey.bytes ++ Bytes.le64 tx.nonce ++ Bytes.le64 tx.fee ++ Bytes.le64 tx.gasLimit ++
    [tx.kind.tag] ++ tx.kind.fieldBytes ++ Bytes.lenPrefix32 tx.memo ++ tx.memo

/-- The transaction hash: the digest of the signed bytes. -/
def hash (tx : Transaction) : Digest := Digest.ofBytes tx.signBytes

/-- The sending account: the address of the sender key. -/
def sender (tx : Transaction) : Address := tx.senderKey.address

/-- The transaction with `kp` as its sender key and `kp`'s signature over its signed bytes. -/
def signWith (kp : Keypair) (tx : Transaction) : Transaction :=
  let unsigned := { tx with senderKey := kp.publicKey, signature := [] }
  { unsigned with signature := kp.sign unsigned.signBytes }

/-- Whether the signature verifies under the sender key. -/
def verifySignature (tx : Transaction) : Except CryptoError Unit :=
  Ed25519.verify tx.senderKey.bytes tx.signBytes tx.signature

end Transaction

/-- What a successfully applied transaction used and paid. -/
structure Receipt where
  txHash : Digest
  gasUsed : UInt64
  fee : UInt64
  deriving DecidableEq, Repr

end StakeChain

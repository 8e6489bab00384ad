import StakeChain.Request.Problem
import StakeChain.Consensus.ValidatorSet

/-!
# Reading request values

Requests name chain objects in a compact notation:

* bytes: hexadecimal text;
* a digest: 64 hexadecimal digits, `#text` for the digest of a text, or `$name` for the hash of
  a block saved under `name`;
* an address: 40 hexadecimal digits or `@label` for the address of a development key;
* a public key: hexadecimal of any length or `@label`;
* a signing key: a label, or `{"seed": hex}`;
* transactions, votes, signed headers and evidence as objects whose optional fields take
  defaults, signed when a signer is named, then overwritten by the fields of `after`.

A malformed value is a `BadInput` problem; a bad seed is the key error it raises.
-/

set_option autoImplicit false

namespace StakeChain.Request

/-- What a request may refer to: blocks saved under names and the current nonce of an account. -/
structure Scope where
  saved : List (String × Block) := []
  nonceOf : Address → UInt64 := fun _ => 0

/-- The result of reading a request value. -/
abbrev Read := Except Problem

/-- A hexadecimal byte string. -/
def readBytes (j : Json) : Read Bytes :=
  match j with
  | .str s =>
    match Bytes.ofHex s with
    | .ok b => .ok b
    | .error e => .error (.badInput ("bad hex: " ++ e.message))
  | _ => .error (.badInput "expected a hex string")

/-- Hexadecimal bytes, empty when absent. -/
def readBytesOr (j : Json) : Read Bytes := if j.isNull then .ok [] else readBytes j

/-- The problem of a field `k` that is not a number of the kind `what` names. -/
def notNumber (k what : String) : Problem := .badInput ("field " ++ k ++ " must be a " ++ what)

/-- A 64-bit word, the value of field `k`. -/
def readWord (k : String) (j : Json) : Read UInt64 :=
  match j.nat? with
  | some n => if n < UInt64.size then .ok n.toUInt64 else .error (notNumber k "u64")
  | none => .error (notNumber k "u64")

/-- A 64-bit word, `d` when absent. -/
def readWordOr (k : String) (j : Json) (d : UInt64) : Read UInt64 :=
  if j.isNull then .ok d else readWord k j

/-- A 16-bit word. -/
def readWord16 (k : String) (j : Json) : Read UInt16 :=
  match j.nat? with
  | some n => if n < UInt16.size then .ok n.toUInt16 else .error (notNumber k "u16")
  | none => .error (notNumber k "u16")

/-- A count: a natural number that fits 64 bits. -/
def readNat (k : String) (j : Json) : Read Nat := (fun w => w.toNat) <$> readWord k j

/-- The word in field `k`. -/
def wordAt (j : Json) (k : String) : Read UInt64 := readWord k (j.field k)

/-- The word in field `k`, `d` when absent. -/
def wordAtOr (j : Json) (k : String) (d : UInt64) : Read UInt64 := readWordOr k (j.field k) d

/-- The 16-bit word in field `k`. -/
def word16At (j : Json) (k : String) : Read UInt16 := readWord16 k (j.field k)

/-- The count in field `k`. -/
def natAt (j : Json) (k : String) : Read Nat := readNat k (j.field k)

def readString (j : Json) : Read String :=
  match j with
  | .str s => .ok s
  | _ => .error (.badInput "expected a string")

/-- The text in field `k`, if the field is present. -/
def textAtOpt (j : Json) (k : String) : Read (Option String) :=
  match j.field k with
  | .null => .ok none
  | .str s => .ok (some s)
  | _ => .error (.badInput (k ++ " must be a string"))

def readBool (j : Json) : Read Bool :=
  match j with
  | .bool b => .ok b
  | _ => .error (.badInput "expected a boolean")

/-- A boolean, `d` when absent. -/
def readBoolOr (j : Json) (d : Bool) : Read Bool := if j.isNull then .ok d else readBool j

/-- The items of an array, each read. -/
def readList {α : Type} (f : Json → Read α) (j : Json) : Read (List α) :=
  match j with
  | .arr xs => xs.mapM f
  | .null => .ok []
  | _ => .error (.badInput "expected an array")

/-- A saved block, named with any number of leading `$` marks. -/
def savedBlock (sc : Scope) (name : String) : Read Block :=
  let name := String.ofList (name.toList.dropWhile (· = '$'))
  match sc.saved.find? (fun p => p.1 == name) with
  | some (_, b) => .ok b
  | none => .error (.badInput ("unknown block " ++ name))

/-- A digest in any of its notations. -/
def readDigest (sc : Scope) (j : Json) : Read Digest := do
  let s ← readString j
  match s.toList with
  | '#' :: rest => pure (Digest.ofText (String.ofList rest))
  | '$' :: rest => pure (← savedBlock sc (String.ofList rest)).hash
  | _ =>
    match Digest.ofHex? s with
    | some d => pure d
    | none => throw (.badInput "bad digest")

/-- A signing key: a development label or a hexadecimal seed. -/
def readKeypair (j : Json) : Read Keypair :=
  match j with
  | .str label => .ok (Keypair.ofLabel label)
  | .obj _ =>
    match j.field "seed" with
    | .str s =>
      match Keypair.ofSeedHex s with
      | .ok kp => .ok kp
      | .error e => .error e.problem
    | _ => .error (.badInput "bad key")
  | _ => .error (.badInput "bad key")

/-- An address in either notation. -/
def readAddress (j : Json) : Read Address := do
  let s ← readString j
  match s.toList with
  | '@' :: rest => pure (Keypair.ofLabel (String.ofList rest)).address
  | _ =>
    match Address.ofHex? s with
    | some a => pure a
    | none => throw (.badInput "bad address")

/-- A public key in either notation. -/
def readPublicKey (j : Json) : Read PublicKey := do
  let s ← readString j
  match s.toList with
  | '@' :: rest => pure (Keypair.ofLabel (String.ofList rest)).publicKey
  | _ => pure ⟨← readBytes j⟩

/-- A public key, empty when absent. -/
def readPublicKeyOr (j : Json) : Read PublicKey := if j.isNull then .ok ⟨[]⟩ else readPublicKey j

/-- A transaction kind. -/
def readTxKind (j : Json) : Read TxKind := do
  match ← readString (j.field "type") with
  | "Transfer" => pure (.transfer (← readAddress (j.field "to")) (← wordAt j "amount"))
  | "Stake" => pure (.stake (← wordAt j "amount"))
  | "Unstake" => pure (.unstake (← wordAt j "amount"))
  | "Delegate" =>
    pure (.delegate (← readAddress (j.field "validator")) (← wordAt j "amount"))
  | "Undelegate" =>
    pure (.undelegate (← readAddress (j.field "validator")) (← wordAt j "amount"))
  | "CreateValidator" =>
    pure (.createValidator (← wordAt j "amount") (← word16At j "commission_bps"))
  | "EditValidator" => pure (.editValidator (← word16At j "commission_bps"))
  | other => throw (.badInput ("unknown kind " ++ other))

/-- A nonce: a number, or `auto` / `auto+N` for the account's current nonce plus `N`. -/
def readNonce (sc : Scope) (sender : Address) (j : Json) (d : UInt64) : Read UInt64 :=
  match j with
  | .str "auto" => .ok (sc.nonceOf sender)
  | .str s =>
    match s.toList with
    | 'a' :: 'u' :: 't' :: 'o' :: '+' :: rest =>
      match (String.ofList rest).toNat? with
      | some n => .ok (sc.nonceOf sender + n.toUInt64)
      | none => .error (.badInput "bad nonce")
    | _ => .error (.badInput "bad nonce")
  | other => readWordOr "nonce" other d

/-- The transaction with the fields present in `j` overwritten. -/
def overwriteTx (sc : Scope) (j : Json) (tx : Transaction) : Read Transaction := do
  let senderKey ← if (j.field "sender_pk").isNull then pure tx.senderKey
    else readPublicKey (j.field "sender_pk")
  let kind ← if (j.field "kind").isNull then pure tx.kind else readTxKind (j.field "kind")
  let memo ← if (j.field "memo").isNull then pure tx.memo else readBytes (j.field "memo")
  let signature ← if (j.field "signature").isNull then pure tx.signature
    else readBytes (j.field "signature")
  pure { chainId := ← wordAtOr j "chain_id" tx.chainId
         senderKey := senderKey
         nonce := ← readNonce sc senderKey.address (j.field "nonce") tx.nonce
         fee := ← wordAtOr j "fee" tx.fee
         gasLimit := ← wordAtOr j "gas_limit" tx.gasLimit
         kind := kind, memo := memo, signature := signature }

/-- A transaction: built from its fields, signed by `signer` if one is named, then overwritten
by the fields of `after`. -/
def readTx (sc : Scope) (j : Json) : Read Transaction := do
  let signer ← if (j.field "signer").isNull then pure none
    else some <$> readKeypair (j.field "signer")
  let senderKey ← readPublicKeyOr (j.field "sender_pk")
  let sender := match signer with
    | some kp => kp.address
    | none => senderKey.address
  let tx : Transaction :=
    { chainId := ← wordAtOr j "chain_id" 1
      senderKey := senderKey
      nonce := ← readNonce sc sender (j.field "nonce") 0
      fee := ← wordAtOr j "fee" 0
      gasLimit := ← wordAtOr j "gas_limit" 100000
      kind := ← readTxKind (j.field "kind")
      memo := ← readBytesOr (j.field "memo")
      signature := ← readBytesOr (j.field "signature") }
  let tx := match signer with
    | some kp => tx.signWith kp
    | none => tx
  if (j.field "after").isNull then pure tx else overwriteTx sc (j.field "after") tx

/-- A vote's height: a number or `$name` for the height of a saved block. -/
def readHeight (sc : Scope) (j : Json) : Read UInt64 :=
  match j with
  | .str s =>
    match s.toList with
    | '$' :: rest => (savedBlock sc (String.ofList rest)).map Block.height
    | _ => readWord "height" j
  | other => readWord "height" other

/-- A vote: signed by `key` if one is named, else taken as given; then overwritten by the
fields of `after`. -/
def readVote (sc : Scope) (j : Json) : Read Vote := do
  let height ← readHeight sc (j.field "height")
  let block ← readDigest sc (j.field "block")
  let v ← if (j.field "key").isNull then
      pure ⟨← readPublicKeyOr (j.field "voter_pk"), height, block,
        ← readBytesOr (j.field "signature")⟩
    else pure (Vote.signWith (← readKeypair (j.field "key")) height block)
  let a := j.field "after"
  if a.isNull then pure v
  else
    pure { voterKey := ← if (a.field "voter_pk").isNull then pure v.voterKey
             else readPublicKey (a.field "voter_pk")
           height := ← if (a.field "height").isNull then pure v.height
             else readHeight sc (a.field "height")
           blockHash := ← if (a.field "block").isNull then pure v.blockHash
             else readDigest sc (a.field "block")
           signature := ← if (a.field "signature").isNull then pure v.signature
             else readBytes (a.field "signature") }

/-- A digest field, `d` when absent. -/
def readDigestOr (sc : Scope) (j : Json) (d : Digest) : Read Digest :=
  if j.isNull then .ok d else readDigest sc j

/-- The header with the fields present in `j` overwritten. -/
def overwriteHeader (sc : Scope) (j : Json) (h : BlockHeader) : Read BlockHeader := do
  pure { height := ← wordAtOr j "height" h.height
         parent := ← readDigestOr sc (j.field "parent") h.parent
         txRoot := ← readDigestOr sc (j.field "tx_root") h.txRoot
         evidenceRoot := ← readDigestOr sc (j.field "evidence_root") h.evidenceRoot
         stateRoot := ← readDigestOr sc (j.field "state_root") h.stateRoot
         gasUsed := ← wordAtOr j "gas_used" h.gasUsed
         proposerKey := ← if (j.field "proposer_pk").isNull then pure h.proposerKey
           else readPublicKey (j.field "proposer_pk")
         timestamp := ← wordAtOr j "timestamp" h.timestamp }

/-- The header of no fields: zeros, zero digests and an empty key. -/
def blankHeader : BlockHeader :=
  ⟨0, Digest.zero, Digest.zero, Digest.zero, Digest.zero, 0, ⟨[]⟩, 0⟩

/-- A signed header: a saved block's, or built from fields, signed by `signer` if one is named
(whose key is then the default proposer key), then overwritten by `after`. -/
def readSignedHeader (sc : Scope) (j : Json) : Read SignedHeader := do
  match j with
  | .str s =>
    match s.toList with
    | '$' :: rest => pure (← savedBlock sc (String.ofList rest)).signedHeader
    | _ => throw (.badInput "bad signed header")
  | _ =>
    let signer ← if (j.field "signer").isNull then pure none
      else some <$> readKeypair (j.field "signer")
    let base := match signer with
      | some kp => { blankHeader with proposerKey := kp.publicKey }
      | none => blankHeader
    let header ← overwriteHeader sc (j.field "header") base
    let signature ← match signer with
      | some kp => pure (SignedHeader.signatureOf kp header)
      | none => readBytesOr (j.field "signature")
    let a := j.field "after"
    if a.isNull then pure ⟨header, signature⟩
    else
      pure ⟨← overwriteHeader sc a header,
        ← if (a.field "signature").isNull then pure signature else readBytes (a.field "signature")⟩

/-- Evidence: canonical order unless `raw` is set, when `x` and `y` are kept as given. -/
def readEvidence (sc : Scope) (j : Json) : Read Evidence := do
  let raw ← readBoolOr (j.field "raw") false
  match ← readString (j.field "type") with
  | "DoubleVote" =>
    let x ← readVote sc (j.field "x")
    let y ← readVote sc (j.field "y")
    pure (if raw then .doubleVote x y else Evidence.ofVotes x y)
  | "DoubleProposal" =>
    let x ← readSignedHeader sc (j.field "x")
    let y ← readSignedHeader sc (j.field "y")
    pure (if raw then .doubleProposal x y else Evidence.ofHeaders x y)
  | other => throw (.badInput ("unknown evidence " ++ other))

/-- A validator entry: a key with a power, or an address with an optional key and a power. -/
def readValidator (j : Json) : Read Validator := do
  let power ← wordAt j "power"
  if (j.field "key").isNull then
    pure ⟨← readAddress (j.field "address"), ← readPublicKeyOr (j.field "pk"), power⟩
  else
    let kp ← readKeypair (j.field "key")
    pure ⟨kp.address, kp.publicKey, power⟩

/-- A gas schedule with every absent field at its default. -/
def readGas (j : Json) : Read GasSchedule := do
  let d : GasSchedule := {}
  pure { transferBase := ← wordAtOr j "transfer_base" d.transferBase
         stakeBase := ← wordAtOr j "stake_base" d.stakeBase
         unstakeBase := ← wordAtOr j "unstake_base" d.unstakeBase
         delegateBase := ← wordAtOr j "delegate_base" d.delegateBase
         validatorBase := ← wordAtOr j "validator_base" d.validatorBase
         perMemoByte := ← wordAtOr j "per_memo_byte" d.perMemoByte
         blockGasLimit := ← wordAtOr j "block_gas_limit" d.blockGasLimit }

end StakeChain.Request

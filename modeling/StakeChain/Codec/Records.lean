import StakeChain.Codec.Basic
import StakeChain.Block.Execution
import StakeChain.Consensus.Finality

/-!
# Stored records

The binary form of every record the chain stores: accounts, the ledger's other state, blocks
with their transactions and evidence, finality certificates and the tip.  Each record has an
`encode` and a `decoder`; the decoder reads exactly what `encode` writes.

Maps and sets are written as lists of entries in key order; reading them back inserts the
entries one by one, so a repeated key keeps its last entry.
-/

set_option autoImplicit false

namespace StakeChain

namespace Decoder

/-- A 32-byte digest. -/
def digest : Decoder Digest := Digest.mk <$> take 32

/-- A 20-byte address. -/
def address : Decoder Address := Address.mk <$> take 20

/-- A public key of any length. -/
def publicKey : Decoder PublicKey := PublicKey.mk <$> bytes

/-- A map written as a list of entries. -/
def keyMap {κ ν : Type} [Ord κ] [Std.TransOrd κ] (k : Decoder κ) (v : Decoder ν) : Decoder (KeyMap κ ν) := do
  let entries ← list (do pure (← k, ← v))
  pure (entries.foldl (fun m (a, b) => m.insert a b) .empty)

end Decoder

namespace Account

/-- Reads what `Account.encode` writes. -/
def decoder : Decoder Account := do
  pure { balance := ← Decoder.u64, staked := ← Decoder.u64, nonce := ← Decoder.u64 }

end Account

namespace EvidenceKind

def index : EvidenceKind → Nat
  | .doubleVote => 0
  | .doubleProposal => 1

def decoder : Decoder EvidenceKind := do
  match ← Decoder.u32 with
  | 0 => pure .doubleVote
  | 1 => pure .doubleProposal
  | _ => Decoder.fail

end EvidenceKind

namespace ValidatorStatus

def encode : ValidatorStatus → Bytes
  | .active => Encode.tag 0
  | .jailed t => Encode.tag 1 ++ Encode.u64 t

def decoder : Decoder ValidatorStatus := do
  match ← Decoder.u32 with
  | 0 => pure .active
  | 1 => pure (.jailed (← Decoder.u64))
  | _ => Decoder.fail

end ValidatorStatus

namespace Infraction

def encode (i : Infraction) : Bytes :=
  i.evidenceId.bytes ++ Encode.tag i.kind.index ++ Encode.u64 i.offenseHeight ++
    Encode.u64 i.appliedAt ++ Encode.u64 i.slashed

def decoder : Decoder Infraction := do
  pure { evidenceId := ← Decoder.digest, kind := ← EvidenceKind.decoder,
         offenseHeight := ← Decoder.u64, appliedAt := ← Decoder.u64, slashed := ← Decoder.u64 }

end Infraction

namespace ValidatorRecord

/-- The stored form of a validator record. -/
def store (r : ValidatorRecord) : Bytes :=
  Encode.bytes r.publicKey.bytes ++ r.status.encode ++ Encode.u16 r.commissionBps ++
    Encode.u64 r.slashedTotal ++ Encode.list Infraction.encode r.infractions

def decoder : Decoder ValidatorRecord := do
  pure { publicKey := ← Decoder.publicKey, status := ← ValidatorStatus.decoder,
         commissionBps := ← Decoder.u16, slashedTotal := ← Decoder.u64,
         infractions := ← Decoder.list Infraction.decoder }

end ValidatorRecord

namespace UnbondingEntry

/-- Reads what `UnbondingEntry.encode` writes. -/
def decoder : Decoder UnbondingEntry := do
  pure { address := ← Decoder.address, validator := ← Decoder.address, amount := ← Decoder.u64,
         createdAt := ← Decoder.u64, releaseHeight := ← Decoder.u64 }

end UnbondingEntry

namespace Ledger

/-- The stored form of everything in a ledger but its accounts. -/
def encodeAggregates (l : Ledger) : Bytes :=
  Encode.u64 l.height ++
  Encode.list (fun (a, r) => a.bytes ++ r.store) l.validators.toList ++
  Encode.list (fun (v, dels) => v.bytes ++
    Encode.list (fun (d, amount) => d.bytes ++ Encode.u64 amount) dels.toList) l.delegations.toList ++
  Encode.list UnbondingEntry.encode l.unbonding ++
  Encode.u64 l.feePool ++ Encode.u64 l.burned ++
  Encode.list (fun (id, ()) => id.bytes) l.appliedEvidence.toList ++
  Encode.list (fun (o, ()) => o.validator.bytes ++ Encode.u64 o.height) l.offenses.toList

/-- A ledger without accounts, read from its stored aggregates. -/
def aggregatesDecoder : Decoder Ledger := do
  pure { height := ← Decoder.u64
         validators := ← Decoder.keyMap Decoder.address ValidatorRecord.decoder
         delegations := ← Decoder.keyMap Decoder.address (Decoder.keyMap Decoder.address Decoder.u64)
         unbonding := ← Decoder.list UnbondingEntry.decoder
         feePool := ← Decoder.u64
         burned := ← Decoder.u64
         appliedEvidence := ← Decoder.keyMap Decoder.digest (pure ())
         offenses := ← Decoder.keyMap (do pure ⟨← Decoder.address, ← Decoder.u64⟩) (pure ()) }

end Ledger

namespace TxKind

def encode : TxKind → Bytes
  | .transfer dest a => Encode.tag 0 ++ dest.bytes ++ Encode.u64 a
  | .stake a => Encode.tag 1 ++ Encode.u64 a
  | .unstake a => Encode.tag 2 ++ Encode.u64 a
  | .delegate v a => Encode.tag 3 ++ v.bytes ++ Encode.u64 a
  | .undelegate v a => Encode.tag 4 ++ v.bytes ++ Encode.u64 a
  | .createValidator a bps => Encode.tag 5 ++ Encode.u64 a ++ Encode.u16 bps
  | .editValidator bps => Encode.tag 6 ++ Encode.u16 bps

def decoder : Decoder TxKind := do
  match ← Decoder.u32 with
  | 0 => pure (.transfer (← Decoder.address) (← Decoder.u64))
  | 1 => pure (.stake (← Decoder.u64))
  | 2 => pure (.unstake (← Decoder.u64))
  | 3 => pure (.delegate (← Decoder.address) (← Decoder.u64))
  | 4 => pure (.undelegate (← Decoder.address) (← Decoder.u64))
  | 5 => pure (.createValidator (← Decoder.u64) (← Decoder.u16))
  | 6 => pure (.editValidator (← Decoder.u16))
  | _ => Decoder.fail

end TxKind

namespace Transaction

def encode (tx : Transaction) : Bytes :=
  Encode.u64 tx.chainId ++ Encode.bytes tx.senderKey.bytes ++ Encode.u64 tx.nonce ++
    Encode.u64 tx.fee ++ Encode.u64 tx.gasLimit ++ tx.kind.encode ++ Encode.bytes tx.memo ++
    Encode.bytes tx.signature

def decoder : Decoder Transaction := do
  pure { chainId := ← Decoder.u64, senderKey := ← Decoder.publicKey, nonce := ← Decoder.u64,
         fee := ← Decoder.u64, gasLimit := ← Decoder.u64, kind := ← TxKind.decoder,
         memo := ← Decoder.bytes, signature := ← Decoder.bytes }

end Transaction

namespace BlockHeader

def encode (h : BlockHeader) : Bytes :=
  Encode.u64 h.height ++ h.parent.bytes ++ h.txRoot.bytes ++ h.evidenceRoot.bytes ++
    h.stateRoot.bytes ++ Encode.u64 h.gasUsed ++ Encode.bytes h.proposerKey.bytes ++
    Encode.u64 h.timestamp

def decoder : Decoder BlockHeader := do
  pure { height := ← Decoder.u64, parent := ← Decoder.digest, txRoot := ← Decoder.digest,
         evidenceRoot := ← Decoder.digest, stateRoot := ← Decoder.digest,
         gasUsed := ← Decoder.u64, proposerKey := ← Decoder.publicKey,
         timestamp := ← Decoder.u64 }

end BlockHeader

namespace SignedHeader

def encode (s : SignedHeader) : Bytes := s.header.encode ++ Encode.bytes s.signature

def decoder : Decoder SignedHeader := do
  pure { header := ← BlockHeader.decoder, signature := ← Decoder.bytes }

end SignedHeader

namespace Vote

def encode (v : Vote) : Bytes :=
  Encode.bytes v.voterKey.bytes ++ Encode.u64 v.height ++ v.blockHash.bytes ++
    Encode.bytes v.signature

def decoder : Decoder Vote := do
  pure { voterKey := ← Decoder.publicKey, height := ← Decoder.u64,
         blockHash := ← Decoder.digest, signature := ← Decoder.bytes }

end Vote

namespace Evidence

def encode : Evidence → Bytes
  | .doubleVote a b => Encode.tag 0 ++ a.encode ++ b.encode
  | .doubleProposal a b => Encode.tag 1 ++ a.encode ++ b.encode

def decoder : Decoder Evidence := do
  match ← Decoder.u32 with
  | 0 => pure (.doubleVote (← Vote.decoder) (← Vote.decoder))
  | 1 => pure (.doubleProposal (← SignedHeader.decoder) (← SignedHeader.decoder))
  | _ => Decoder.fail

end Evidence

namespace Block

def encode (b : Block) : Bytes :=
  b.header.encode ++ Encode.bytes b.signature ++ Encode.list Transaction.encode b.txs ++
    Encode.list Evidence.encode b.evidence

def decoder : Decoder Block := do
  pure { header := ← BlockHeader.decoder, signature := ← Decoder.bytes,
         txs := ← Decoder.list Transaction.decoder, evidence := ← Decoder.list Evidence.decoder }

end Block

namespace Certificate

def encode (c : Certificate) : Bytes :=
  Encode.u64 c.height ++ c.blockHash.bytes ++ Encode.list Vote.encode c.votes ++
    Encode.u64 c.signedPower ++ Encode.u64 c.totalPower

def decoder : Decoder Certificate := do
  pure { height := ← Decoder.u64, blockHash := ← Decoder.digest,
         votes := ← Decoder.list Vote.decoder, signedPower := ← Decoder.u64,
         totalPower := ← Decoder.u64 }

end Certificate

/-- The stored tip: a height and a block hash. -/
def encodeTip (height : UInt64) (hash : Digest) : Bytes := Encode.u64 height ++ hash.bytes

def tipDecoder : Decoder (UInt64 × Digest) := do
  pure (← Decoder.u64, ← Decoder.digest)

end StakeChain

import StakeChain.Store.Memory
import StakeChain.Codec.Records

/-!
# The chain's stored layout

| key                  | value                                   |
|----------------------|-----------------------------------------|
| `acct/<address>`     | an account                              |
| `blk/<height>`       | a block                                 |
| `hash/<block hash>`  | its height                              |
| `cert/<height>`      | a finality certificate                  |
| `evd/<evidence id>`  | evidence carried by a finalized block   |
| `meta/ledger`        | the ledger without its accounts         |
| `meta/tip`           | the height and hash of the newest block |

Heights in keys are big-endian, so that key order is height order.  Each finalized block is
written in one batch with the accounts it changed, the ledger record and the new tip.  The
last 256 blocks read or written are kept in memory and read from there first.

That cache is a `RecentMap`: it holds at most `capacity` entries, most recently used first.
Putting an entry or reading it with `get?` makes it the most recent; `peek?` reads without
touching the order.  Putting a new key into a full map drops the least recently used entry.
-/

set_option autoImplicit false

namespace StakeChain

/-- A map of at most `capacity` entries, most recently used first. -/
structure RecentMap (κ : Type) (ν : Type) where
  capacity : Nat
  entries : List (κ × ν) := []
  deriving DecidableEq, Repr

namespace RecentMap

variable {κ ν : Type} [BEq κ]

/-- The value under `k`, leaving the order as it is. -/
def peek? (m : RecentMap κ ν) (k : κ) : Option ν :=
  (m.entries.find? fun p => p.1 == k).map Prod.snd

/-- The map with `k` bound to `v` as its most recent entry. -/
def put (m : RecentMap κ ν) (k : κ) (v : ν) : RecentMap κ ν :=
  { m with entries := ((k, v) :: m.entries.filter fun p => !(p.1 == k)).take m.capacity }

/-- The value under `k`, which becomes the most recent entry. -/
def get? (m : RecentMap κ ν) (k : κ) : Option ν × RecentMap κ ν :=
  match m.peek? k with
  | some v => (some v, m.put k v)
  | none => (none, m)

end RecentMap

namespace Layout

/-- The bytes of a text key part. -/
def text (s : String) : Bytes := s.toUTF8.data.toList

def accountKey (a : Address) : Bytes := text "acct/" ++ a.bytes

def blockKey (h : UInt64) : Bytes := text "blk/" ++ Bytes.be64 h

def hashKey (d : Digest) : Bytes := text "hash/" ++ d.bytes

def certificateKey (h : UInt64) : Bytes := text "cert/" ++ Bytes.be64 h

def evidenceKey (id : Digest) : Bytes := text "evd/" ++ id.bytes

def ledgerKey : Bytes := text "meta/ledger"

def tipKey : Bytes := text "meta/tip"

end Layout

/-- Stored bytes decoded, or a codec error. -/
def decodeStored {α : Type} (d : Decoder α) (bs : Bytes) : Except StorageError α :=
  match d.decode bs with
  | some a => .ok a
  | none => .error .codec

/-- A store with the chain's layout and its cache of recent blocks. -/
structure ChainStore where
  kv : MemStore
  cache : RecentMap UInt64 Block := { capacity := 256 }

namespace ChainStore

/-- The height and hash of the newest stored block. -/
def tip (s : ChainStore) : Except StorageError (Option (UInt64 × Digest)) :=
  match s.kv.get? Layout.tipKey with
  | none => .ok none
  | some bs => some <$> decodeStored tipDecoder bs

/-- The writes that store a block: the block, its hash index and its evidence. -/
def blockWrites (b : Block) : List (Bytes × Bytes) :=
  [(Layout.blockKey b.height, b.encode), (Layout.hashKey b.hash, Bytes.be64 b.height)] ++
    b.evidence.map fun e => (Layout.evidenceKey e.id, e.encode)

/-- The writes that store accounts and the ledger record. -/
def ledgerWrites (accounts : List (Address × Account)) (l : Ledger) : List (Bytes × Bytes) :=
  accounts.map (fun (a, acct) => (Layout.accountKey a, acct.encode)) ++
    [(Layout.ledgerKey, l.encodeAggregates)]

/-- Stores the genesis block and the whole genesis ledger. -/
def commitGenesis (s : ChainStore) (b : Block) (l : Ledger) : Except StorageError ChainStore := do
  let kv ← s.kv.writeBatch (blockWrites b ++ ledgerWrites l.accounts.toList l ++
    [(Layout.tipKey, encodeTip b.height b.hash)])
  pure { kv := kv, cache := s.cache.put b.height b }

/-- Stores a finalized block, its certificate if given, and the ledger after it; only the
accounts that differ from `base` are written. -/
def commitBlock (s : ChainStore) (b : Block) (cert : Option Certificate) (l base : Ledger) :
    Except StorageError ChainStore := do
  let certWrites := match cert with
    | some c => [(Layout.certificateKey c.height, c.encode)]
    | none => []
  let kv ← s.kv.writeBatch (blockWrites b ++ certWrites ++ ledgerWrites (l.changedAccounts base) l ++
    [(Layout.tipKey, encodeTip b.height b.hash)])
  pure { kv := kv, cache := s.cache.put b.height b }

/-- The accounts stored under `acct/`, each key checked to end in an address. -/
def loadAccounts : List (Bytes × Bytes) → KeyMap Address Account →
    Except StorageError (KeyMap Address Account)
  | [], m => .ok m
  | (k, v) :: rest, m => do
    let suffix := k.drop 5
    if suffix.length ≠ 20 then throw (.corrupt "bad account key")
    let acct ← decodeStored Account.decoder v
    loadAccounts rest (m.insert ⟨suffix⟩ acct)

/-- The stored ledger. -/
def loadLedger (s : ChainStore) : Except StorageError Ledger := do
  let some record := s.kv.get? Layout.ledgerKey | throw (.corrupt "missing ledger record")
  let l ← decodeStored Ledger.aggregatesDecoder record
  let accounts ← loadAccounts (s.kv.entriesUnder (Layout.text "acct/")) .empty
  pure { l with accounts := accounts }

/-- The block stored at a height, from the cache first; a block read from the store joins the
cache. -/
def block (s : ChainStore) (h : UInt64) : ChainStore × Except StorageError (Option Block) :=
  match s.cache.get? h with
  | (some b, cache) => ({ s with cache := cache }, .ok (some b))
  | (none, _) =>
    match s.kv.get? (Layout.blockKey h) with
    | none => (s, .ok none)
    | some bs =>
      match decodeStored Block.decoder bs with
      | .ok b => ({ s with cache := s.cache.put h b }, .ok (some b))
      | .error e => (s, .error e)

def certificate (s : ChainStore) (h : UInt64) : Except StorageError (Option Certificate) :=
  match s.kv.get? (Layout.certificateKey h) with
  | none => .ok none
  | some bs => some <$> decodeStored Certificate.decoder bs

def evidence (s : ChainStore) (id : Digest) : Except StorageError (Option Evidence) :=
  match s.kv.get? (Layout.evidenceKey id) with
  | none => .ok none
  | some bs => some <$> decodeStored Evidence.decoder bs

/-- The bytes of the last certificate entry at or below `h`, scanning in key order; every key
met on the way must end in an 8-byte height. -/
def lastCertificateAtOrBelow (h : UInt64) : List (Bytes × Bytes) → Option Bytes →
    Except StorageError (Option Bytes)
  | [], best => .ok best
  | (k, v) :: rest, best =>
    let suffix := k.drop 5
    if suffix.length ≠ 8 then .error (.corrupt "bad cert key")
    else if Bytes.readBe suffix > h.toNat then .ok best
    else lastCertificateAtOrBelow h rest (some v)

/-- The certificate of the greatest height at or below `h`. -/
def latestCertificate (s : ChainStore) (h : UInt64) : Except StorageError (Option Certificate) := do
  match ← lastCertificateAtOrBelow h (s.kv.entriesUnder (Layout.text "cert/")) none with
  | none => pure none
  | some bs => some <$> decodeStored Certificate.decoder bs

end ChainStore

end StakeChain

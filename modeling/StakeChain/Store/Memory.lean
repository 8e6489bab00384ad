import StakeChain.Data.KeyMap
import StakeChain.Bytes.Basic
import StakeChain.Codec.Basic

/-!
# In-memory key-value stores

A store maps byte-string keys to byte-string values, in key order.  Writes come in batches that
land together or not at all; a switch makes every write fail, so that callers meet the failure
of storage.

* `MemStore.writeBatch`: all writes of a batch, or `StorageError.unavailable`;
* `MemStore.entriesUnder`: the entries whose key starts with given bytes, in key order.

A store is kept on disk as one image (`MemStore.image`): the number of entries, then each
entry's key and value as byte strings (a 64-bit length, then the bytes), in key order.  Reading
an image (`MemStore.ofImage`) ignores bytes after its last entry; a key given twice keeps its
later value.
-/

set_option autoImplicit false

namespace StakeChain

/-- Why the store could not serve a request. -/
inductive StorageError where
  /-- Stored bytes that do not decode. -/
  | codec
  | corrupt (what : String)
  | unavailable (what : String)
  deriving DecidableEq, Repr

namespace StorageError

def message : StorageError → String
  | .codec => "codec error"
  | .corrupt w => "corrupt store: " ++ w
  | .unavailable w => "store unavailable: " ++ w

def kind : StorageError → String
  | .codec => "Codec"
  | .corrupt _ => "Corrupt"
  | .unavailable _ => "Unavailable"

end StorageError

/-- A key of the store, ordered bytewise. -/
structure StoreKey where
  bytes : Bytes
  deriving DecidableEq, Repr

instance : Ord StoreKey := ⟨fun a b => Bytes.lexCompare a.bytes b.bytes⟩

theorem StoreKey.compare_eq (a b : StoreKey) :
    compare a b = List.compareLex compare a.bytes b.bytes :=
  Bytes.lexCompare_eq a.bytes b.bytes

instance : Std.TransOrd StoreKey := transOrd_of_bytes StoreKey.bytes StoreKey.compare_eq

instance : Std.LawfulEqOrd StoreKey :=
  lawfulEqOrd_of_bytes StoreKey.bytes (fun a b h => by cases a; cases b; cases h; rfl)
    StoreKey.compare_eq

/-- An in-memory store. -/
structure MemStore where
  entries : KeyMap StoreKey Bytes := .empty
  /-- Set to make every write fail. -/
  failWrites : Bool := false
  deriving DecidableEq, Repr

namespace MemStore

def get? (s : MemStore) (k : Bytes) : Option Bytes := s.entries.get? ⟨k⟩

/-- Applies the writes in order, or none of them when writes fail. -/
def writeBatch (s : MemStore) (ops : List (Bytes × Bytes)) : Except StorageError MemStore :=
  if s.failWrites then .error (.unavailable "writes disabled")
  else .ok { s with entries := ops.foldl (fun m (k, v) => m.insert ⟨k⟩ v) s.entries }

/-- Writes one entry. -/
def put (s : MemStore) (k v : Bytes) : Except StorageError MemStore := s.writeBatch [(k, v)]

/-- The entries whose key starts with `lead`, in key order. -/
def entriesUnder (s : MemStore) (lead : Bytes) : List (Bytes × Bytes) :=
  (s.entries.toList.filter fun e => lead.isPrefixOf e.1.bytes).map fun e => (e.1.bytes, e.2)

end MemStore

namespace MemStore

/-- The image of a store's entries. -/
def image (s : MemStore) : Bytes :=
  Encode.list (fun (e : StoreKey × Bytes) => Encode.bytes e.1.bytes ++ Encode.bytes e.2)
    s.entries.toList

def imageDecoder : Decoder MemStore := do
  let entries ← Decoder.list (do
    let k ← Decoder.bytes
    let v ← Decoder.bytes
    pure ((⟨k⟩ : StoreKey), v))
  pure { entries := KeyMap.ofList entries }

/-- The store an image holds, if it is one. -/
def ofImage (bs : Bytes) : Option MemStore := imageDecoder.decode bs

end MemStore

end StakeChain

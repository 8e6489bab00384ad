import StakeChain.Bytes.Hex
import StakeChain.Hash.Blake3
import StakeChain.Signature.Ed25519

/-!
# Digests, addresses and public keys

* `Digest`: a 32-byte BLAKE3 digest, the identity of transactions, blocks, votes and evidence;
* `Address`: the first 20 bytes of the digest of a public key, the identity of an account;
* `PublicKey`: the bytes of a public key as given, of any length (only 32-byte keys verify).

Digests and addresses are ordered lexicographically by their bytes, which is the order of every
sorted table keyed by them.  Reading them from hexadecimal strips leading `0x` markers, accepts
either letter case and requires the exact length.
-/

set_option autoImplicit false

namespace StakeChain

/-- A 32-byte digest. -/
structure Digest where
  bytes : Bytes
  deriving DecidableEq, Repr, Inhabited

/-- A 20-byte account address. -/
structure Address where
  bytes : Bytes
  deriving DecidableEq, Repr, Inhabited

/-- The bytes of a public key. -/
structure PublicKey where
  bytes : Bytes
  deriving DecidableEq, Repr, Inhabited

namespace Digest

/-- The digest of a byte string. -/
def ofBytes (b : Bytes) : Digest := ⟨Blake3.hash b⟩

/-- The digest of the UTF-8 bytes of a text. -/
def ofText (s : String) : Digest := ofBytes s.toUTF8.data.toList

/-- The all-zero digest, the parent of the genesis block. -/
def zero : Digest := ⟨List.replicate 32 0⟩

def toHex (d : Digest) : String := Bytes.toHex d.bytes

/-- A digest from hexadecimal text, if it spells exactly 32 bytes. -/
def ofHex? (s : String) : Option Digest :=
  match Bytes.ofHex (stripHexMarker s) with
  | .ok b => if b.length = 32 then some ⟨b⟩ else none
  | .error _ => none

instance : Ord Digest := ⟨fun a b => Bytes.lexCompare a.bytes b.bytes⟩

theorem compare_eq (a b : Digest) : compare a b = List.compareLex compare a.bytes b.bytes :=
  Bytes.lexCompare_eq a.bytes b.bytes

instance : Std.TransOrd Digest := transOrd_of_bytes Digest.bytes compare_eq

instance : Std.LawfulEqOrd Digest :=
  lawfulEqOrd_of_bytes Digest.bytes (fun a b h => by cases a; cases b; cases h; rfl) compare_eq

end Digest

namespace Address

def toHex (a : Address) : String := Bytes.toHex a.bytes

/-- The first four bytes in hexadecimal, a short form for display. -/
def short (a : Address) : String := Bytes.toHex (a.bytes.take 4)

/-- An address from hexadecimal text, if it spells exactly 20 bytes. -/
def ofHex? (s : String) : Option Address :=
  match Bytes.ofHex (stripHexMarker s) with
  | .ok b => if b.length = 20 then some ⟨b⟩ else none
  | .error _ => none

instance : Ord Address := ⟨fun a b => Bytes.lexCompare a.bytes b.bytes⟩

theorem compare_eq (a b : Address) : compare a b = List.compareLex compare a.bytes b.bytes :=
  Bytes.lexCompare_eq a.bytes b.bytes

instance : Std.TransOrd Address := transOrd_of_bytes Address.bytes compare_eq

instance : Std.LawfulEqOrd Address :=
  lawfulEqOrd_of_bytes Address.bytes (fun a b h => by cases a; cases b; cases h; rfl) compare_eq

end Address

namespace PublicKey

/-- The address of a key: the first 20 bytes of its digest. -/
def address (pk : PublicKey) : Address := ⟨(Blake3.hash pk.bytes).take 20⟩

def toHex (pk : PublicKey) : String := Bytes.toHex pk.bytes

/-- A key from hexadecimal text; any length is accepted. -/
def ofHex (s : String) : Except KeyError PublicKey :=
  match Bytes.ofHex (stripHexMarker s) with
  | .ok b => .ok ⟨b⟩
  | .error e => .error (.publicKeyHex e)

instance : Ord PublicKey := ⟨fun a b => Bytes.lexCompare a.bytes b.bytes⟩

end PublicKey

end StakeChain

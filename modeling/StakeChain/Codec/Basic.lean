import StakeChain.Bytes.Basic

/-!
# The store's binary format

Stored records are written field after field with no separators:

* an unsigned integer in its full width, little-endian (`u16`, `u32` for variant tags, `u64`);
* a fixed-size byte array (a digest, an address) as its raw bytes;
* a byte string or a list as its length (`u64`) followed by its items;
* a variant as its index (`u32`) followed by its fields.

`Decoder α` reads a value from the front of the bytes and hands back the rest; it fails when
the bytes end early or a variant index is unknown.  Bytes after a complete value are ignored.
-/

set_option autoImplicit false

namespace StakeChain

/-- A reader of a value from the front of a byte string. -/
abbrev Decoder (α : Type) := StateT Bytes Option α

namespace Encode

/-- A 16-bit word. -/
def u16 (v : UInt16) : Bytes := Bytes.le16 v

/-- A 64-bit word. -/
def u64 (v : UInt64) : Bytes := Bytes.le64 v

/-- The index of a variant. -/
def tag (n : Nat) : Bytes := Bytes.leN 4 n

/-- A length: the number of items, as a 64-bit word. -/
def len (n : Nat) : Bytes := Bytes.leN 8 n

/-- A byte string: its length, then its bytes. -/
def bytes (b : Bytes) : Bytes := len b.length ++ b

/-- A list: its length, then each item. -/
def list {α : Type} (f : α → Bytes) (xs : List α) : Bytes := len xs.length ++ xs.flatMap f

end Encode

namespace Decoder

variable {α : Type}

/-- The value read from the front of `bs`, whatever follows it. -/
def decode (d : Decoder α) (bs : Bytes) : Option α := (StateT.run d bs).map Prod.fst

/-- The next `n` bytes. -/
def take (n : Nat) : Decoder Bytes := fun bs =>
  if n ≤ bs.length then some (bs.take n, bs.drop n) else none

/-- A little-endian word of `n` bytes. -/
def word (n : Nat) : Decoder Nat := Bytes.readLe <$> take n

def u16 : Decoder UInt16 := (fun n => n.toUInt16) <$> word 2

def u32 : Decoder Nat := word 4

def u64 : Decoder UInt64 := (fun n => n.toUInt64) <$> word 8

/-- A byte string: its length, then its bytes. -/
def bytes : Decoder Bytes := do
  let n ← word 8
  take n

/-- Exactly `n` values. -/
def many (d : Decoder α) : Nat → Decoder (List α)
  | 0 => pure []
  | n + 1 => do
    let x ← d
    let xs ← many d n
    pure (x :: xs)

/-- A list: its length, then each item. -/
def list (d : Decoder α) : Decoder (List α) := do
  let n ← word 8
  many d n

/-- A decoder that fails. -/
def fail : Decoder α := fun _ => none

end Decoder

end StakeChain

import StakeChain.Bytes.Basic
import StakeChain.Text.Escape

/-!
# Hexadecimal text

Byte strings are shown as lowercase hexadecimal, two digits a byte.  Reading hexadecimal works
on the bytes of the text's UTF-8 encoding: an odd number of bytes is refused first, then the
first byte that is no hexadecimal digit (of either case) is reported with its position.

* `Bytes.toHex`, `Bytes.ofHex`: writing and reading;
* `stripHexMarker`: the leading `0x` markers that identifiers may carry.
-/

set_option autoImplicit false

namespace StakeChain

/-- Why a text is not hexadecimal. -/
inductive HexError where
  /-- The text has an odd number of bytes. -/
  | oddLength
  /-- The byte at `index` is no hexadecimal digit; `c` is that byte read as a code point. -/
  | invalidChar (c : Char) (index : Nat)
  deriving DecidableEq, Repr

/-- The text of a hexadecimal error. -/
def HexError.message : HexError → String
  | .oddLength => "Odd number of digits"
  | .invalidChar c i =>
    let quoted := Text.quoteChar c
    s!"Invalid character {quoted} at position {i}"

namespace Bytes

/-- The hexadecimal digit of a number below 16. -/
def hexDigit (n : Nat) : Char :=
  if n < 10 then Char.ofNat (48 + n) else Char.ofNat (87 + n)

/-- Two lowercase hexadecimal digits of a byte. -/
def byteHex (b : UInt8) : List Char :=
  [hexDigit (b.toNat / 16), hexDigit (b.toNat % 16)]

/-- Lowercase hexadecimal text of a byte string. -/
def toHex (b : Bytes) : String :=
  String.ofList (b.flatMap byteHex)

/-- The value of one hexadecimal digit, given as a byte of the text. -/
def digitValue (b : UInt8) : Option Nat :=
  if 48 ≤ b.toNat ∧ b.toNat ≤ 57 then some (b.toNat - 48)
  else if 97 ≤ b.toNat ∧ b.toNat ≤ 102 then some (b.toNat - 87)
  else if 65 ≤ b.toNat ∧ b.toNat ≤ 70 then some (b.toNat - 55)
  else none

/-- The value of the digit at position `i`, or the error that names it. -/
def digitAt (b : UInt8) (i : Nat) : Except HexError Nat :=
  match digitValue b with
  | some v => .ok v
  | none => .error (.invalidChar (Char.ofNat b.toNat) i)

/-- Pairs of digits from position `i` on, read as bytes. -/
def ofHexDigits : List UInt8 → Nat → Except HexError Bytes
  | hi :: lo :: rest, i => do
    let h ← digitAt hi i
    let l ← digitAt lo (i + 1)
    let tail ← ofHexDigits rest (i + 2)
    pure ((16 * h + l).toUInt8 :: tail)
  | _, _ => .ok []

/-- The bytes that a hexadecimal text spells. -/
def ofHex (s : String) : Except HexError Bytes :=
  let raw := s.toUTF8.data.toList
  if raw.length % 2 = 1 then .error .oddLength else ofHexDigits raw 0

end Bytes

/-- The text with every leading `0x` removed (the marker is lowercase only). -/
def stripHexMarker (s : String) : String :=
  go s.toList
where
  /-- Removes leading `0x` pairs. -/
  go : List Char → String
    | '0' :: 'x' :: rest => go rest
    | cs => String.ofList cs

end StakeChain

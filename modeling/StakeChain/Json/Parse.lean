import StakeChain.Json.Basic

/-!
# Reading JSON

JSON text is read over its UTF-8 bytes, and a text that is not JSON is refused with the reason
and the place where reading stopped (`SyntaxError`): its line, and its column counted in bytes
from the start of the line.  Where a reason concerns the byte about to be read, the place is
that byte; otherwise it is the last byte read.

* Whitespace is space, tab, line feed and carriage return.
* A number without fraction or exponent whose value fits 64 bits (unsigned, or signed when
  negative) is an integer; `-0` and every other number is a binary64 float.  Its digits are
  collected into a 64-bit significand (later digits only move the decimal exponent), and the
  float is the significand's nearest binary64 value multiplied or divided by the nearest
  binary64 value of a power of ten (`floatOfParts`).  A product that reaches infinity, or a
  positive exponent beyond 32 bits, is out of range.
* Strings decode the standard escapes; a `\u` escape of a surrogate must be a leading one
  followed by a `\u` escape of a trailing one.  Control characters must be escaped.
* An object keeps the last value of a repeated key, and its keys in byte order.
* Arrays and objects nest fewer than 128 deep.

Every step of the readers consumes input, so a fuel of twice the text's length bounds them.
-/

set_option autoImplicit false

namespace StakeChain.Json

/-- Why a text is not JSON. -/
inductive SyntaxCode where
  | eofWhileParsingList
  | eofWhileParsingObject
  | eofWhileParsingString
  | eofWhileParsingValue
  | expectedColon
  | expectedListCommaOrEnd
  | expectedObjectCommaOrEnd
  | expectedSomeIdent
  | expectedSomeValue
  | invalidEscape
  | invalidNumber
  | numberOutOfRange
  | controlCharacterWhileParsingString
  | keyMustBeAString
  | loneLeadingSurrogateInHexEscape
  | trailingComma
  | trailingCharacters
  | unexpectedEndOfHexEscape
  | recursionLimitExceeded
  deriving DecidableEq, Repr

/-- The text of a reason. -/
def SyntaxCode.text : SyntaxCode → String
  | .eofWhileParsingList => "EOF while parsing a list"
  | .eofWhileParsingObject => "EOF while parsing an object"
  | .eofWhileParsingString => "EOF while parsing a string"
  | .eofWhileParsingValue => "EOF while parsing a value"
  | .expectedColon => "expected \x60:\x60"
  | .expectedListCommaOrEnd => "expected \x60,\x60 or \x60]\x60"
  | .expectedObjectCommaOrEnd => "expected \x60,\x60 or \x60\x7d\x60"
  | .expectedSomeIdent => "expected ident"
  | .expectedSomeValue => "expected value"
  | .invalidEscape => "invalid escape"
  | .invalidNumber => "invalid number"
  | .numberOutOfRange => "number out of range"
  | .controlCharacterWhileParsingString =>
    "control character (\\u0000-\\u001F) found while parsing a string"
  | .keyMustBeAString => "key must be a string"
  | .loneLeadingSurrogateInHexEscape => "lone leading surrogate in hex escape"
  | .trailingComma => "trailing comma"
  | .trailingCharacters => "trailing characters"
  | .unexpectedEndOfHexEscape => "unexpected end of hex escape"
  | .recursionLimitExceeded => "recursion limit exceeded"

/-- A reason with its place. -/
structure SyntaxError where
  code : SyntaxCode
  line : Nat
  column : Nat
  deriving DecidableEq, Repr

/-- The text of an error: the reason, then the place. -/
def SyntaxError.message (e : SyntaxError) : String :=
  e.code.text ++ " at line " ++ toString e.line ++ " column " ++ toString e.column

/-- The bytes still to read and the place of the last byte read. -/
structure Cursor where
  rest : List UInt8
  line : Nat
  column : Nat

namespace Cursor

/-- The cursor past one byte. -/
def next (c : Cursor) : Cursor :=
  match c.rest with
  | [] => c
  | b :: r => if b = 10 then ⟨r, c.line + 1, 0⟩ else ⟨r, c.line, c.column + 1⟩

/-- The cursor past all bytes of `bs`, which start its rest. -/
def skip (c : Cursor) : List UInt8 → Cursor
  | [] => c
  | _ :: bs => skip c.next bs

/-- The cursor past whitespace. -/
def skipBlankFrom : List UInt8 → Nat → Nat → Cursor
  | b :: r, line, col =>
    if b = 32 ∨ b = 9 ∨ b = 13 then skipBlankFrom r line (col + 1)
    else if b = 10 then skipBlankFrom r (line + 1) 0
    else ⟨b :: r, line, col⟩
  | [], line, col => ⟨[], line, col⟩

def skipBlank (c : Cursor) : Cursor := skipBlankFrom c.rest c.line c.column

/-- An error at the last byte read. -/
def here (c : Cursor) (code : SyntaxCode) : SyntaxError := ⟨code, c.line, c.column⟩

/-- An error at the byte about to be read. -/
def ahead (c : Cursor) (code : SyntaxCode) : SyntaxError :=
  match c.rest with
  | [] => ⟨code, c.line, c.column⟩
  | b :: _ => if b = 10 then ⟨code, c.line + 1, 0⟩ else ⟨code, c.line, c.column + 1⟩

end Cursor

/-- A reader of JSON text. -/
abbrev Reader := StateT Cursor (Except SyntaxError)

namespace Reader

def peek : Reader (Option UInt8) := do return (← get).rest.head?

def bump : Reader Unit := modify Cursor.next

/-- The next byte, read. -/
def nextByte : Reader (Option UInt8) := do
  let b ← peek
  bump
  return b

def failHere {α : Type} (code : SyntaxCode) : Reader α := do throw ((← get).here code)

def failAhead {α : Type} (code : SyntaxCode) : Reader α := do throw ((← get).ahead code)

def skipBlank : Reader Unit := modify Cursor.skipBlank

end Reader

open Reader

/-- Whether a byte is a decimal digit. -/
def isDigit (b : UInt8) : Bool := 48 ≤ b && b ≤ 57

/-- The value of a digit byte. -/
def digitOf (b : UInt8) : Nat := b.toNat - 48

/-- The largest 64-bit unsigned word. -/
def wordMax : Nat := 18446744073709551615

/-- The largest 32-bit signed integer. -/
def int32Max : Nat := 2147483647

/-- An integer clamped to 32 signed bits. -/
def clampInt32 (n : Int) : Int := max (-2147483648) (min 2147483647 n)

/-- The nearest binary64 value of `10^k`. -/
def pow10 (k : Nat) : Float := Float.ofScientific 1 false k

/-- `f / 10^k`, dividing by `10^308` while more than 308 places are left, and stopping at
zero. -/
def divideDown (f : Float) (k : Nat) : Float :=
  if k ≤ 308 then f / pow10 k
  else if f == 0 then f
  else divideDown (f / pow10 308) (k - 308)
termination_by k

/-- The float of a significand and a decimal exponent, or `none` when it is out of range. -/
def floatOfParts (significand : Nat) (exponent : Int) : Option Float :=
  let f := Float.ofNat significand
  if exponent ≥ 0 then
    if exponent ≤ 308 then
      let g := f * pow10 exponent.toNat
      if g.isInf then none else some g
    else if f == 0 then some f
    else none
  else some (divideDown f (-exponent).toNat)

/-- A float with its sign. -/
def signed (positive : Bool) (f : Float) : Json := .float (if positive then f else -f)

/-- The float of a number's parts, or the error that it is out of range. -/
def finishFloat (positive : Bool) (significand : Nat) (exponent : Int) : Reader Json :=
  match floatOfParts significand exponent with
  | some f => pure (signed positive f)
  | none => failHere .numberOutOfRange

/-- Skips digits. -/
def skipDigits : Nat → Reader Unit
  | 0 => pure ()
  | fuel + 1 => do
    match ← peek with
    | some b => if isDigit b then do bump; skipDigits fuel else pure ()
    | none => pure ()

/-- The digits of an exponent after its first, gathered into `e`. -/
def exponentDigits (positive : Bool) (significand : Nat) (start : Int) (up : Bool) :
    Nat → Nat → Reader Json
  | 0, _ => failHere .invalidNumber
  | fuel + 1, e => do
    let finish := finishFloat positive significand (clampInt32 (if up then start + e else start - e))
    match ← peek with
    | some b =>
      if isDigit b then do
        bump
        if e * 10 + digitOf b > int32Max then
          -- the exponent is beyond 32 bits: the number is out of range or zero
          if significand ≠ 0 && up then failHere .numberOutOfRange
          else do
            skipDigits fuel
            pure (signed positive 0)
        else exponentDigits positive significand start up fuel (e * 10 + digitOf b)
      else finish
    | none => finish

/-- An exponent, from its `e`, of a number whose digits so far give `significand · 10^start`. -/
def exponentPart (positive : Bool) (significand : Nat) (start : Int) (fuel : Nat) :
    Reader Json := do
  bump
  let up ← match ← peek with
    | some 43 => do bump; pure true
    | some 45 => do bump; pure false
    | _ => pure true
  match ← nextByte with
  | none => failHere .eofWhileParsingValue
  | some b =>
    if isDigit b then exponentDigits positive significand start up fuel (digitOf b)
    else failHere .invalidNumber

/-- Whether a byte starts an exponent. -/
def isExponentMark (b : Option UInt8) : Bool := b = some 101 || b = some 69

/-- The rest of a number after digits the significand had no room for. -/
def afterOverflow (positive : Bool) (significand : Nat) (exponent : Int) (fuel : Nat) :
    Reader Json := do
  skipDigits fuel
  if isExponentMark (← peek) then exponentPart positive significand exponent fuel
  else finishFloat positive significand exponent

/-- The digits of a fraction after its point, gathered into `significand`; `after` counts
them (negated) and `before` is the exponent the integer part left. -/
def fractionDigits (positive : Bool) (before : Int) : Nat → Nat → Int → Reader Json
  | 0, _, _ => failHere .invalidNumber
  | fuel + 1, significand, after => do
    match ← peek with
    | some b =>
      if isDigit b then
        if significand * 10 + digitOf b > wordMax then
          afterOverflow positive significand (before + after) fuel
        else do
          bump
          fractionDigits positive before fuel (significand * 10 + digitOf b) (after - 1)
      else if after = 0 then failAhead .invalidNumber
      else if isExponentMark (some b) then exponentPart positive significand (before + after) fuel
      else finishFloat positive significand (before + after)
    | none =>
      if after = 0 then failAhead .eofWhileParsingValue
      else finishFloat positive significand (before + after)

/-- The digits of an integer part beyond the significand's room: each raises the exponent. -/
def longDigits (positive : Bool) (significand : Nat) : Nat → Int → Reader Json
  | 0, _ => failHere .invalidNumber
  | fuel + 1, exponent => do
    match ← peek with
    | some b =>
      if isDigit b then do
        bump
        longDigits positive significand fuel (exponent + 1)
      else if b = 46 then do
        bump
        fractionDigits positive exponent fuel significand 0
      else if isExponentMark (some b) then exponentPart positive significand exponent fuel
      else finishFloat positive significand exponent
    | none => finishFloat positive significand exponent

/-- A number whose integer part is read: a fraction or an exponent may follow. -/
def numberTail (positive : Bool) (significand : Nat) (fuel : Nat) : Reader Json := do
  match ← peek with
  | some 46 => do
    bump
    fractionDigits positive 0 fuel significand 0
  | b =>
    if isExponentMark b then exponentPart positive significand 0 fuel
    else if positive then pure (.num significand)
    else if significand = 0 then pure (signed false 0)
    else if significand ≤ 9223372036854775808 then pure (.num (-(significand : Int)))
    else pure (signed false (Float.ofNat significand))

/-- The digits of an integer part after its first, gathered into `significand`. -/
def integerDigits (positive : Bool) : Nat → Nat → Reader Json
  | 0, _ => failHere .invalidNumber
  | fuel + 1, significand => do
    match ← peek with
    | some b =>
      if isDigit b then
        if significand * 10 + digitOf b > wordMax then longDigits positive significand fuel 0
        else do
          bump
          integerDigits positive fuel (significand * 10 + digitOf b)
      else numberTail positive significand fuel
    | none => numberTail positive significand fuel

/-- A number after its sign. -/
def number (positive : Bool) (fuel : Nat) : Reader Json := do
  match ← nextByte with
  | none => failHere .eofWhileParsingValue
  | some 48 =>
    match ← peek with
    | some b => if isDigit b then failAhead .invalidNumber else numberTail positive 0 fuel
    | none => numberTail positive 0 fuel
  | some b =>
    if isDigit b then integerDigits positive fuel (digitOf b) else failHere .invalidNumber

/-- The value of a hexadecimal digit byte. -/
def hexValue (b : UInt8) : Option Nat :=
  if 48 ≤ b ∧ b ≤ 57 then some (b.toNat - 48)
  else if 97 ≤ b ∧ b ≤ 102 then some (b.toNat - 87)
  else if 65 ≤ b ∧ b ≤ 70 then some (b.toNat - 55)
  else none

/-- The four hexadecimal digits of a `\u` escape. -/
def hexQuad : Reader Nat := do
  let c ← get
  match c.rest with
  | a :: b :: d :: e :: _ =>
    set (c.skip [a, b, d, e])
    match hexValue a, hexValue b, hexValue d, hexValue e with
    | some va, some vb, some vd, some ve => pure (((va * 16 + vb) * 16 + vd) * 16 + ve)
    | _, _, _, _ => failHere .invalidEscape
  | bs =>
    set (c.skip bs)
    failHere .eofWhileParsingString

/-- The UTF-8 bytes of a code point. -/
def utf8 (n : Nat) : List UInt8 := (Char.ofNat n).toString.toUTF8.data.toList

/-- The byte after a leading surrogate's escape, which must be `expected`. -/
def expectByte (expected : UInt8) : Reader Unit := do
  match ← peek with
  | none => failHere .eofWhileParsingString
  | some b =>
    bump
    if b ≠ expected then failHere .unexpectedEndOfHexEscape

/-- A `\u` escape after its `u`, added (reversed) to the bytes read so far. -/
def unicodeEscape (acc : List UInt8) : Reader (List UInt8) := do
  let n ← hexQuad
  if 0xDC00 ≤ n ∧ n ≤ 0xDFFF then failHere .loneLeadingSurrogateInHexEscape
  else if n < 0xD800 ∨ 0xDBFF < n then pure ((utf8 n).reverse ++ acc)
  else do
    expectByte 92
    expectByte 117
    let low ← hexQuad
    if low < 0xDC00 ∨ 0xDFFF < low then failHere .loneLeadingSurrogateInHexEscape
    else pure ((utf8 (0x10000 + (n - 0xD800) * 0x400 + (low - 0xDC00))).reverse ++ acc)

/-- An escape after its backslash, added (reversed) to the bytes read so far. -/
def escape (acc : List UInt8) : Reader (List UInt8) := do
  match ← nextByte with
  | none => failHere .eofWhileParsingString
  | some b =>
    match b with
    | 34 | 92 | 47 => pure (b :: acc)
    | 98 => pure (8 :: acc)
    | 102 => pure (12 :: acc)
    | 110 => pure (10 :: acc)
    | 114 => pure (13 :: acc)
    | 116 => pure (9 :: acc)
    | 117 => unicodeEscape acc
    | _ => failHere .invalidEscape

/-- The bytes of a string after its opening quote, up to and past the closing quote. -/
def stringBytes : Nat → List UInt8 → Reader (List UInt8)
  | 0, _ => failHere .eofWhileParsingString
  | fuel + 1, acc => do
    match ← nextByte with
    | none => failHere .eofWhileParsingString
    | some 34 => pure acc.reverse
    | some 92 => stringBytes fuel (← escape acc)
    | some b =>
      if b < 32 then failHere .controlCharacterWhileParsingString
      else stringBytes fuel (b :: acc)

/-- A string after its opening quote. -/
def string (fuel : Nat) : Reader String := do
  let bytes ← stringBytes fuel []
  pure ((String.fromUTF8? (ByteArray.mk bytes.toArray)).getD "")

/-- The fixed letters of `null`, `true` or `false` after their first. -/
def ident : List UInt8 → Reader Unit
  | [] => pure ()
  | b :: bs => do
    match ← nextByte with
    | none => failHere .eofWhileParsingValue
    | some x => if x = b then ident bs else failHere .expectedSomeIdent

/-- Whether key `a` sorts before key `b` in byte order. -/
def keyLt (a b : String) : Bool := decide (a.toUTF8.data.toList < b.toUTF8.data.toList)

/-- An object's fields with one more, in key order; a repeated key takes the new value. -/
def insertField (k : String) (v : Json) : List (String × Json) → List (String × Json)
  | [] => [(k, v)]
  | (k', v') :: rest =>
    if k = k' then (k, v) :: rest
    else if keyLt k k' then (k, v) :: (k', v') :: rest
    else (k', v') :: insertField k v rest

/-- The colon after an object's key. -/
def colon : Reader Unit := do
  skipBlank
  match ← peek with
  | some 58 => bump
  | some _ => failAhead .expectedColon
  | none => failAhead .eofWhileParsingObject

mutual

/-- A value; `depth` is the nesting still allowed, counting the arrays and objects around. -/
def value : Nat → Nat → Reader Json
  | 0, _ => failAhead .recursionLimitExceeded
  | fuel + 1, depth => do
    skipBlank
    match ← peek with
    | none => failAhead .eofWhileParsingValue
    | some 110 => do bump; ident [117, 108, 108]; pure .null
    | some 116 => do bump; ident [114, 117, 101]; pure (.bool true)
    | some 102 => do bump; ident [97, 108, 115, 101]; pure (.bool false)
    | some 45 => do bump; number false fuel
    | some 34 => do bump; pure (.str (← string fuel))
    | some 91 =>
      if depth ≤ 1 then failAhead .recursionLimitExceeded
      else do bump; arrayItems fuel (depth - 1) true []
    | some 123 =>
      if depth ≤ 1 then failAhead .recursionLimitExceeded
      else do bump; objectFields fuel (depth - 1) true []
    | some b => if isDigit b then number true fuel else failAhead .expectedSomeValue

/-- The items of an array after its opening bracket, up to and past the closing bracket. -/
def arrayItems : Nat → Nat → Bool → List Json → Reader Json
  | 0, _, _, _ => failAhead .eofWhileParsingList
  | fuel + 1, depth, first, acc => do
    skipBlank
    match ← peek with
    | none => failAhead .eofWhileParsingList
    | some 93 => do bump; pure (.arr acc.reverse)
    | some b =>
      if first then arrayItems fuel depth false ((← value fuel depth) :: acc)
      else if b = 44 then do
        bump
        skipBlank
        match ← peek with
        | some 93 => failAhead .trailingComma
        | some _ => arrayItems fuel depth false ((← value fuel depth) :: acc)
        | none => failAhead .eofWhileParsingValue
      else failAhead .expectedListCommaOrEnd

/-- The fields of an object after its opening brace, up to and past the closing brace. -/
def objectFields : Nat → Nat → Bool → List (String × Json) → Reader Json
  | 0, _, _, _ => failAhead .eofWhileParsingObject
  | fuel + 1, depth, first, acc => do
    skipBlank
    match ← peek with
    | none => failAhead .eofWhileParsingObject
    | some 125 => do bump; pure (.obj acc)
    | some b =>
      let start ← if first then pure (some b)
        else if b = 44 then do bump; skipBlank; peek
        else failAhead .expectedObjectCommaOrEnd
      match start with
      | some 34 => do
        bump
        let k ← string fuel
        colon
        let v ← value fuel depth
        objectFields fuel depth false (insertField k v acc)
      | some 125 => failAhead .trailingComma
      | some _ => failAhead .keyMustBeAString
      | none => failAhead .eofWhileParsingValue

end

/-- The value a whole text spells, with nothing but whitespace after it, or why the text is
not JSON. -/
def parse (s : String) : Except SyntaxError Json := do
  let bytes := s.toUTF8.data.toList
  let (v, c) ← (value (2 * bytes.length + 4) 128).run ⟨bytes, 1, 0⟩
  let c := c.skipBlank
  match c.rest with
  | [] => pure v
  | _ => throw (c.ahead .trailingCharacters)

end StakeChain.Json

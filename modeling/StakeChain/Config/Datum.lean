import StakeChain.Text.Escape
import StakeChain.Decimal.Shortest

/-!
# Configuration values as a typed reader sees them

A configuration is read from a value of a self-describing format, TOML or JSON, seen through
one shape (`Datum`): null, booleans, integers, floats, strings, sequences, and maps with string
keys.  Typed readers (`Decode`) take a `Datum` apart:

* a word takes an integer from 0 to 2^64 - 1; a negative integer is an invalid value, and
  anything else has the wrong type;
* a text takes a string, and an optional text also takes null, meaning absent;
* a list takes a sequence and reads every item;
* a record (`Record`) takes a map or a sequence.  From a map, the values of the record's
  fields are read in the map's order and unknown keys are ignored; then a missing field takes
  its default, or is reported missing.  From a sequence, the items are the fields in order; once
  the items run out, a field takes its default or the sequence is too short.  A format may
  refuse items beyond the fields (`Format.strictSequences`).

The first error is reported, worded by `DecodeError.message`: the unexpected value
(`Datum.unexpected`) and what was expected.
-/

set_option autoImplicit false

namespace StakeChain

/-- A value of a self-describing format. -/
inductive Datum where
  | null
  | bool (b : Bool)
  | int (n : Int)
  | float (f : Float)
  | str (s : String)
  | seq (items : List Datum)
  | map (entries : List (String × Datum))
  deriving Inhabited

/-- A float as error texts show it: its shortest decimal in the short form of a float. -/
def floatText (f : Float) : String := (Binary64.decode f.toBits).shortText

/-- How an error names a value it did not expect. -/
def Datum.unexpected : Datum → String
  | .null => "null"
  | .bool b => "boolean \x60" ++ toString b ++ "\x60"
  | .int n => "integer \x60" ++ toString n ++ "\x60"
  | .float f => "floating point \x60" ++ floatText f ++ "\x60"
  | .str s => "string " ++ Text.quoteString s
  | .seq _ => "sequence"
  | .map _ => "map"

/-- Why a value could not be read. -/
inductive DecodeError where
  | invalidType (unexpected expected : String)
  | invalidValue (unexpected expected : String)
  | invalidLength (length : Nat) (expected : String)
  | missingField (name : String)
  deriving DecidableEq, Repr

/-- The text of a reading error. -/
def DecodeError.message : DecodeError → String
  | .invalidType u e => "invalid type: " ++ u ++ ", expected " ++ e
  | .invalidValue u e => "invalid value: " ++ u ++ ", expected " ++ e
  | .invalidLength n e => "invalid length " ++ toString n ++ ", expected " ++ e
  | .missingField k => "missing field \x60" ++ k ++ "\x60"

/-- The result of a typed reader. -/
abbrev Decode := Except DecodeError

namespace Decode

/-- A word; `what` names the expected type in errors. -/
def word (what : String) : Datum → Decode UInt64
  | .int n =>
    if n < 0 ∨ n ≥ (UInt64.size : Int) then .error (.invalidValue (Datum.int n).unexpected what)
    else .ok n.toNat.toUInt64
  | d => .error (.invalidType d.unexpected what)

def text : Datum → Decode String
  | .str s => .ok s
  | d => .error (.invalidType d.unexpected "a string")

/-- An optional value: null is absent. -/
def optional {α : Type} (read : Datum → Decode α) : Datum → Decode (Option α)
  | .null => .ok none
  | d => some <$> read d

def list {α : Type} (read : Datum → Decode α) : Datum → Decode (List α)
  | .seq items => items.mapM read
  | d => .error (.invalidType d.unexpected "a sequence")

/-- A reader with its result dropped: it only says whether the value can be read. -/
def check {α : Type} (read : Datum → Decode α) (d : Datum) : Decode Unit := discard (read d)

end Decode

/-- What a format adds to the reading rules. -/
structure Format where
  /-- A record read from a sequence refuses items beyond its fields. -/
  strictSequences : Bool

/-- Where a record's fields come from: the value of field `i` named `k`, if present, and the
error for a required field that is not. -/
structure FieldSource where
  get : Nat → String → Option Datum
  missing : Nat → String → DecodeError

namespace FieldSource

/-- A required field. -/
def req {α : Type} (src : FieldSource) (i : Nat) (k : String) (read : Datum → Decode α) :
    Decode α :=
  match src.get i k with
  | some d => read d
  | none => .error (src.missing i k)

/-- A field with a default. -/
def opt {α : Type} (src : FieldSource) (i : Nat) (k : String) (default : α)
    (read : Datum → Decode α) : Decode α :=
  match src.get i k with
  | some d => read d
  | none => .ok default

end FieldSource

/-- A record type: its name, its fields in order (each with a check of its value), and how a
value is built from its fields. -/
structure Record (α : Type) where
  name : String
  fields : List (String × (Datum → Decode Unit))
  build : FieldSource → Decode α

namespace Record

/-- Reads a record from a map or a sequence. -/
def read {α : Type} (r : Record α) (fmt : Format) : Datum → Decode α
  | .map entries => do
    for (k, v) in entries do
      match r.fields.lookup k with
      | some check => check v
      | none => pure ()
    r.build ⟨fun _ k => entries.lookup k, fun _ k => .missingField k⟩
  | .seq items => do
    let expected := "struct " ++ r.name ++ " with " ++ toString r.fields.length ++ " elements"
    let a ← r.build ⟨fun i _ => items[i]?, fun i _ => .invalidLength i expected⟩
    if fmt.strictSequences ∧ items.length > r.fields.length then
      throw (.invalidLength items.length "fewer elements in array")
    pure a
  | d => .error (.invalidType d.unexpected ("struct " ++ r.name))

end Record

end StakeChain

import StakeChain.Json.Basic
import StakeChain.Text.Escape
import StakeChain.Decimal.Shortest

/-!
# Printing JSON

Compact JSON: no whitespace, object fields sorted by key (byte order), and strings with the
quote, the backslash and control characters escaped (`\n`, `\t`, ... or `\u00XX`); every other
character is written as itself.  A float (no answer holds one) is written as its shortest
decimal.

Pretty JSON, for people: every item and field on a line of its own, indented by two spaces per
level, with `": "` between a key and its value; empty arrays and objects stay `[]` and `{}`.
-/

set_option autoImplicit false

namespace StakeChain.Json

/-- Four lowercase hexadecimal digits. -/
def hex4 (n : Nat) : String :=
  let d := Text.hexDigits n
  String.ofList (List.replicate (4 - d.length) '0') ++ d

/-- One character of a string literal. -/
def escapeChar (c : Char) : String :=
  if c = '"' then "\\\""
  else if c = '\\' then "\\\\"
  else if c = '\n' then "\\n"
  else if c = '\r' then "\\r"
  else if c = '\t' then "\\t"
  else if c = '\x08' then "\\b"
  else if c = '\x0c' then "\\f"
  else if c.toNat < 0x20 then "\\u" ++ hex4 c.toNat
  else c.toString

/-- A string literal. -/
def quote (s : String) : String := "\"" ++ String.join (s.toList.map escapeChar) ++ "\""

/-- Whether key `a` sorts before or with key `b` in byte order. -/
def keyLe (a b : String) : Bool := decide (a.toUTF8.data.toList ≤ b.toUTF8.data.toList)

mutual

/-- The compact text of a value. -/
def render : Json → String
  | .null => "null"
  | .bool true => "true"
  | .bool false => "false"
  | .num n => toString n
  | .float f => (Binary64.decode f.toBits).text
  | .str s => quote s
  | .arr xs => "[" ++ ",".intercalate (renderItems xs) ++ "]"
  | .obj fs =>
    let sorted := (renderFields fs).mergeSort fun a b => keyLe a.1 b.1
    "\x7b" ++ ",".intercalate (sorted.map fun (k, v) => quote k ++ ":" ++ v) ++ "\x7d"

/-- The texts of the items of an array. -/
def renderItems : List Json → List String
  | [] => []
  | x :: xs => render x :: renderItems xs

/-- The keys and value texts of the fields of an object. -/
def renderFields : List (String × Json) → List (String × String)
  | [] => []
  | (k, v) :: rest => (k, render v) :: renderFields rest

end

/-- The indentation of a nesting depth. -/
def indent (depth : Nat) : String := String.ofList (List.replicate (2 * depth) ' ')

mutual

/-- The pretty text of a value at a nesting depth. -/
def renderPretty (depth : Nat) : Json → String
  | .arr [] => "[]"
  | .arr (x :: xs) =>
    "[\n" ++ ",\n".intercalate (prettyItems (depth + 1) (x :: xs)) ++ "\n" ++ indent depth ++ "]"
  | .obj [] => "\x7b\x7d"
  | .obj (f :: fs) =>
    let sorted := (prettyFields (depth + 1) (f :: fs)).mergeSort fun a b => keyLe a.1 b.1
    "\x7b\n" ++ ",\n".intercalate (sorted.map fun (k, v) => indent (depth + 1) ++ quote k ++ ": " ++ v) ++
      "\n" ++ indent depth ++ "\x7d"
  | j => render j

/-- The indented pretty texts of the items of an array. -/
def prettyItems (depth : Nat) : List Json → List String
  | [] => []
  | x :: xs => (indent depth ++ renderPretty depth x) :: prettyItems depth xs

/-- The keys and pretty value texts of the fields of an object. -/
def prettyFields (depth : Nat) : List (String × Json) → List (String × String)
  | [] => []
  | (k, v) :: rest => (k, renderPretty depth v) :: prettyFields depth rest

end

end StakeChain.Json

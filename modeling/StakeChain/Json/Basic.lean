/-!
# JSON values

The values of requests and answers.  Every quantity on the chain is a 64-bit word, so a
number is an integer when its text is one that fits 64 bits (unsigned, or signed when
negative), and a binary64 float otherwise.  An object keeps its fields in the order they were
built or read; the printer sorts them.
-/

set_option autoImplicit false

namespace StakeChain

/-- A JSON value. -/
inductive Json where
  | null
  | bool (b : Bool)
  /-- An integer from `-2^63` to `2^64 - 1`. -/
  | num (n : Int)
  /-- Any other number. -/
  | float (f : Float)
  | str (s : String)
  | arr (items : List Json)
  | obj (fields : List (String × Json))
  deriving Repr, Inhabited, BEq

namespace Json

/-- The field `k` of an object; `none` for a missing field or a non-object. -/
def get? (j : Json) (k : String) : Option Json :=
  match j with
  | .obj fs => (fs.find? fun p => p.1 == k).map Prod.snd
  | _ => none

/-- The field `k`, with `null` for a missing field (absent and null mean the same). -/
def field (j : Json) (k : String) : Json := (j.get? k).getD .null

def isNull : Json → Bool
  | .null => true
  | _ => false

/-- A natural number, if the value is a non-negative integer. -/
def nat? : Json → Option Nat
  | .num n => if n ≥ 0 then some n.toNat else none
  | _ => none

def str? : Json → Option String
  | .str s => some s
  | _ => none

def bool? : Json → Option Bool
  | .bool b => some b
  | _ => none

def arr? : Json → Option (List Json)
  | .arr xs => some xs
  | _ => none

/-- The items of an array, none for anything else. -/
def items (j : Json) : List Json := (j.arr?).getD []

/-- A 64-bit word. -/
def ofWord (n : UInt64) : Json := .num n.toNat

/-- An object with one more field, replacing a field of the same name. -/
def setField (j : Json) (k : String) (v : Json) : Json :=
  match j with
  | .obj fs => .obj ((fs.filter fun p => p.1 != k) ++ [(k, v)])
  | other => other

end Json

end StakeChain

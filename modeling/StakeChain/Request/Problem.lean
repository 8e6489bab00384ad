import StakeChain.Json.Basic
import StakeChain.Evidence.Basic
import StakeChain.Gas

/-!
# Error answers

An error answer names the kind of error as a dotted path of variant names
(`Block.Transaction.NonceMismatch`) and carries the error's text; a few kinds have no text.
-/

set_option autoImplicit false

namespace StakeChain

/-- An error as answered: its kind and, for most kinds, its text. -/
structure Problem where
  kind : String
  message : Option String
  deriving Repr, Inhabited

namespace Problem

/-- A request that cannot be read. -/
def badInput (what : String) : Problem := ⟨"BadInput", some what⟩

/-- The JSON object of the error. -/
def toJson (p : Problem) : Json :=
  .obj ([("error", .str p.kind)] ++
    match p.message with
    | some m => [("message", .str m)]
    | none => [])

/-- The same error nested under a kind prefix. -/
def nest (pre : String) (p : Problem) : Problem := ⟨pre ++ "." ++ p.kind, p.message⟩

end Problem

def CryptoError.problem (e : CryptoError) : Problem := ⟨"Crypto." ++ e.kind, some e.message⟩

def EvidenceError.problem (e : EvidenceError) : Problem := ⟨"Evidence." ++ e.kind, some e.message⟩

def GasError.problem (e : GasError) : Problem := ⟨"Gas.LimitExceeded", some e.message⟩

/-- A unit result: `{"ok": true}` or the error. -/
def unitAnswer {ε : Type} (toProblem : ε → Problem) : Except ε Unit → Json
  | .ok () => .obj [("ok", .bool true)]
  | .error e => (toProblem e).toJson

end StakeChain

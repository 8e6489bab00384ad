/-!
# 64-bit amounts

Balances, stakes, heights, nonces and gas are 64-bit words.  Three disciplines of arithmetic are
used on them, each named here once:

* checked (`Word.add?`, `Word.sub?`): an overflow is a value, `none`, that the caller turns
  into a domain error;
* saturating (`Word.addSat`, `Word.subSat`, `Word.mulSat`): the result sticks at the bounds;
* strict (`Word.addStrict`): an overflow stops the whole run with an `Abort`, for sums that
  the rules promise never to overflow.
-/

set_option autoImplicit false

namespace StakeChain

/-- A run stopped by arithmetic that left the 64-bit range. -/
inductive Abort where
  | addOverflow
  | subOverflow
  deriving DecidableEq, Repr

/-- The text of an abort. -/
def Abort.message : Abort → String
  | .addOverflow => "attempt to add with overflow"
  | .subOverflow => "attempt to subtract with overflow"

/-- A step that may stop the run, fail with a domain error `ε`, or give a value. -/
abbrev Guarded (ε α : Type) := ExceptT ε (Except Abort) α

namespace Guarded

variable {ε α : Type}

/-- A step that fails or succeeds but never stops the run. -/
def ofExcept (e : Except ε α) : Guarded ε α := ExceptT.mk (.ok e)

/-- A step that stops the run or succeeds. -/
def ofAbort (e : Except Abort α) : Guarded ε α := ExceptT.lift e

/-- The outcome of a step that was not stopped. -/
def run (g : Guarded ε α) : Except Abort (Except ε α) := ExceptT.run g

end Guarded

namespace Word

/-- The largest word. -/
def max : UInt64 := 0xFFFFFFFFFFFFFFFF

/-- The sum, if it fits. -/
def add? (a b : UInt64) : Option UInt64 :=
  if a.toNat + b.toNat < UInt64.size then some (a + b) else none

/-- The difference, if it is not negative. -/
def sub? (a b : UInt64) : Option UInt64 :=
  if b ≤ a then some (a - b) else none

/-- The sum, or the largest word. -/
def addSat (a b : UInt64) : UInt64 :=
  if a.toNat + b.toNat < UInt64.size then a + b else max

/-- The difference, or zero. -/
def subSat (a b : UInt64) : UInt64 :=
  if b ≤ a then a - b else 0

/-- The product, or the largest word. -/
def mulSat (a b : UInt64) : UInt64 :=
  if a.toNat * b.toNat < UInt64.size then a * b else max

/-- The sum, or an abort. -/
def addStrict (a b : UInt64) : Except Abort UInt64 :=
  if a.toNat + b.toNat < UInt64.size then .ok (a + b) else .error .addOverflow

/-- The difference, or an abort. -/
def subStrict (a b : UInt64) : Except Abort UInt64 :=
  if b ≤ a then .ok (a - b) else .error .subOverflow

/-- The saturating sum of a list. -/
def sumSat (xs : List UInt64) : UInt64 := xs.foldl addSat 0

theorem add?_toNat {a b c : UInt64} (h : add? a b = some c) : c.toNat = a.toNat + b.toNat := by
  unfold add? at h
  split at h
  · cases h; rw [UInt64.toNat_add]; exact Nat.mod_eq_of_lt (by assumption)
  · cases h

theorem add?_eq_none_iff (a b : UInt64) : add? a b = none ↔ UInt64.size ≤ a.toNat + b.toNat := by
  unfold add?
  split
  · rename_i h
    exact ⟨fun e => (nomatch e), fun h' => absurd h (Nat.not_lt.mpr h')⟩
  · rename_i h
    exact ⟨fun _ => Nat.not_lt.mp h, fun _ => rfl⟩

theorem addSat_toNat (a b : UInt64) : (addSat a b).toNat = min (a.toNat + b.toNat) (UInt64.size - 1) := by
  unfold addSat
  rw [show UInt64.size = 18446744073709551616 from rfl]
  split
  · rw [UInt64.toNat_add, Nat.mod_eq_of_lt (by assumption)]; omega
  · simp [max]; omega

theorem subSat_toNat (a b : UInt64) : (subSat a b).toNat = a.toNat - b.toNat := by
  unfold subSat
  split
  · rename_i h; rw [UInt64.toNat_sub_of_le _ _ h]
  · rename_i h; simp [UInt64.le_iff_toNat_le] at h; simp; omega

end Word

end StakeChain

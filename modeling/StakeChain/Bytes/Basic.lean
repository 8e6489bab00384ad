/-!
# Byte strings

Every signed message, hash input and stored record of the chain is a byte string.  They are
kept as `List UInt8`, so that encodings are concatenations that proofs can take apart.

* `Bytes.le64`, `Bytes.le32`, `Bytes.le16`: little-endian words, least significant byte first;
* `Bytes.be64`: big-endian words, used where byte order must follow numeric order (store keys);
* `Bytes.lexCompare`: the lexicographic order on byte strings, a shorter prefix first, which is
  `List`'s own (`Bytes.lexCompare_eq`), so keys ordered by their bytes inherit its laws;
* `Bytes.readLe`: the inverse of the little-endian writers (`readLe_le64`).
-/

set_option autoImplicit false

namespace StakeChain

/-- A byte string. -/
abbrev Bytes := List UInt8

namespace Bytes

/-- The `n` least significant bytes of `v`, least significant first. -/
def leN : Nat → Nat → Bytes
  | 0, _ => []
  | n + 1, v => (v % 256).toUInt8 :: leN n (v / 256)

/-- A 64-bit word in eight little-endian bytes. -/
def le64 (v : UInt64) : Bytes := leN 8 v.toNat

/-- A 32-bit word in four little-endian bytes. -/
def le32 (v : UInt32) : Bytes := leN 4 v.toNat

/-- A 16-bit word in two little-endian bytes. -/
def le16 (v : UInt16) : Bytes := leN 2 v.toNat

/-- A 64-bit word in eight big-endian bytes, so that byte order agrees with numeric order. -/
def be64 (v : UInt64) : Bytes := (leN 8 v.toNat).reverse

/-- The length of a byte string as a 32-bit little-endian prefix (lengths wrap at 2^32). -/
def lenPrefix32 (b : Bytes) : Bytes := leN 4 b.length

/-- The number that little-endian bytes spell. -/
def readLe : Bytes → Nat
  | [] => 0
  | b :: rest => b.toNat + 256 * readLe rest

/-- The number that big-endian bytes spell. -/
def readBe (b : Bytes) : Nat := readLe b.reverse

/-- Lexicographic comparison of byte strings: the first differing byte decides, and a proper
prefix comes first. -/
def lexCompare : Bytes → Bytes → Ordering
  | [], [] => .eq
  | [], _ :: _ => .lt
  | _ :: _, [] => .gt
  | a :: as, b :: bs =>
    match compare a b with
    | .eq => lexCompare as bs
    | o => o

/-- `b` with its first `n` bytes kept; shorter strings are kept whole. -/
def front (n : Nat) (b : Bytes) : Bytes := b.take n

theorem leN_length (n v : Nat) : (leN n v).length = n := by
  induction n generalizing v with
  | zero => rfl
  | succ n ih => simp [leN, ih]

@[simp] theorem le64_length (v : UInt64) : (le64 v).length = 8 := leN_length 8 _
@[simp] theorem le32_length (v : UInt32) : (le32 v).length = 4 := leN_length 4 _
@[simp] theorem le16_length (v : UInt16) : (le16 v).length = 2 := leN_length 2 _
@[simp] theorem be64_length (v : UInt64) : (be64 v).length = 8 := by simp [be64, leN_length]

theorem readLe_leN (n v : Nat) : readLe (leN n v) = v % Nat.pow 256 n := by
  induction n generalizing v with
  | zero => simp [leN, readLe, Nat.mod_one]
  | succ n ih =>
    simp only [leN, readLe, ih]
    have h : ((v % 256).toUInt8).toNat = v % 256 := by
      simp [Nat.toUInt8]
    have e : Nat.pow 256 (n + 1) = 256 * Nat.pow 256 n := Nat.mul_comm _ _
    rw [h, e, Nat.mod_mul]

/-- Reading back a little-endian 64-bit word gives the word. -/
theorem readLe_le64 (v : UInt64) : readLe (le64 v) = v.toNat := by
  simp only [le64, readLe_leN]
  exact Nat.mod_eq_of_lt v.toNat_lt

theorem lexCompare_eq (a b : Bytes) : lexCompare a b = List.compareLex compare a b := by
  induction a generalizing b with
  | nil => cases b <;> rfl
  | cons x xs ih =>
    cases b with
    | nil => rfl
    | cons y ys =>
      simp only [lexCompare, List.compareLex_cons_cons, ih]
      cases compare x y <;> rfl

end Bytes

/-- A key compared by the lexicographic order of its bytes has that order's laws. -/
theorem transOrd_of_bytes {α : Type} [Ord α] (f : α → Bytes)
    (hf : ∀ a b : α, compare a b = List.compareLex compare (f a) (f b)) : Std.TransOrd α where
  eq_swap := by
    intro a b
    rw [hf, hf]
    exact Std.OrientedCmp.eq_swap
  isLE_trans := by
    intro a b c
    rw [hf, hf, hf]
    exact Std.TransCmp.isLE_trans

theorem lawfulEqOrd_of_bytes {α : Type} [Ord α] (f : α → Bytes) (hinj : Function.Injective f)
    (hf : ∀ a b : α, compare a b = List.compareLex compare (f a) (f b)) : Std.LawfulEqOrd α where
  compare_self := by
    intro a
    rw [hf]
    exact Std.ReflCmp.compare_self
  eq_of_compare := by
    intro a b h
    rw [hf] at h
    exact hinj (Std.LawfulEqCmp.eq_of_compare h)

end StakeChain

/-!
# Sorted key maps

A finite map kept as a list of entries sorted by key, strictly ascending in the key type's `Ord`
order, so with one entry per key.  The order is part of the map (`KeyMap.sorted`): every
operation that builds a map proves that it kept it, so no table of the chain can hold two entries
for one key or list them out of order.  Iteration is in key order, which is the order every table
of the chain is printed and hashed in.

* `KeyMap.get?`: the view of the map, the value stored under a key;
* `KeyMap.insert`, `KeyMap.erase`, `KeyMap.alter`: updates that keep the entries sorted, for a
  comparison that is transitive (`Std.TransOrd`);
* `KeyMap.toList`: the entries in ascending key order.
-/

set_option autoImplicit false

namespace StakeChain

/-- A finite map with entries sorted by key. -/
@[ext] structure KeyMap (κ : Type) (ν : Type) [Ord κ] where
  toList : List (κ × ν)
  sorted : toList.Pairwise fun a b => compare a.1 b.1 = .lt
  deriving DecidableEq, Repr

namespace KeyMap

variable {κ ν : Type} [Ord κ]

/-- The map with no entries. -/
def empty : KeyMap κ ν := ⟨[], .nil⟩

instance : Inhabited (KeyMap κ ν) := ⟨empty⟩

/-- Entries with `k` put in its place, replacing an entry with the same key. -/
def insertEntry (k : κ) (v : ν) : List (κ × ν) → List (κ × ν)
  | [] => [(k, v)]
  | (k', v') :: rest =>
    match compare k k' with
    | .lt => (k, v) :: (k', v') :: rest
    | .eq => (k, v) :: rest
    | .gt => (k', v') :: insertEntry k v rest

theorem mem_insertEntry {k : κ} {v : ν} {e : κ × ν} :
    ∀ {l : List (κ × ν)}, e ∈ insertEntry k v l → e = (k, v) ∨ e ∈ l
  | [], h => by simpa [insertEntry] using h
  | (k₁, v₁) :: rest, h => by
    simp only [insertEntry] at h
    split at h
    · simpa using h
    · simp only [List.mem_cons] at h
      rcases h with rfl | h
      · exact .inl rfl
      · exact .inr (List.mem_cons_of_mem _ h)
    · simp only [List.mem_cons] at h
      rcases h with rfl | h
      · exact .inr List.mem_cons_self
      · rcases mem_insertEntry h with rfl | h
        · exact .inl rfl
        · exact .inr (List.mem_cons_of_mem _ h)

/-- Putting an entry in its place keeps the keys strictly ascending: the walk stops before the
first key that is not smaller, which a transitive comparison puts above every key after it. -/
theorem pairwise_insertEntry [Std.TransOrd κ] (k : κ) (v : ν) :
    ∀ {l : List (κ × ν)}, l.Pairwise (fun a b => compare a.1 b.1 = .lt) →
      (insertEntry k v l).Pairwise fun a b => compare a.1 b.1 = .lt
  | [], _ => by simp [insertEntry]
  | (k₁, v₁) :: rest, hl => by
    have hhead : ∀ e ∈ rest, compare k₁ e.1 = .lt := fun e he => List.rel_of_pairwise_cons hl he
    simp only [insertEntry]
    cases hc : compare k k₁ with
    | lt =>
      refine List.Pairwise.cons (fun e he => ?_) hl
      rcases List.mem_cons.mp he with rfl | he
      · exact hc
      · exact Std.TransCmp.lt_trans hc (hhead e he)
    | eq =>
      exact List.Pairwise.cons (fun e he => Std.TransCmp.lt_of_eq_of_lt hc (hhead e he)) hl.of_cons
    | gt =>
      refine List.Pairwise.cons (fun e he => ?_) (pairwise_insertEntry k v hl.of_cons)
      rcases mem_insertEntry he with rfl | he
      · exact Std.OrientedCmp.lt_of_gt hc
      · exact hhead e he

/-- The value of the first entry whose key compares equal to `k`. -/
def lookup (l : List (κ × ν)) (k : κ) : Option ν :=
  (l.find? fun p => compare k p.1 == .eq).map Prod.snd

/-- The value stored under a key. -/
def get? (m : KeyMap κ ν) (k : κ) : Option ν := lookup m.toList k

/-- The value stored under a key, or a default. -/
def getD (m : KeyMap κ ν) (k : κ) (d : ν) : ν := (m.get? k).getD d

def contains (m : KeyMap κ ν) (k : κ) : Bool := (m.get? k).isSome

/-- The map with `k` bound to `v`. -/
def insert [Std.TransOrd κ] (m : KeyMap κ ν) (k : κ) (v : ν) : KeyMap κ ν :=
  ⟨insertEntry k v m.toList, pairwise_insertEntry k v m.sorted⟩

/-- The map without an entry for `k`. -/
def erase (m : KeyMap κ ν) (k : κ) : KeyMap κ ν :=
  ⟨m.toList.filter fun p => compare k p.1 != .eq, m.sorted.filter _⟩

/-- The map with the entry for `k` replaced by `f` of it; `none` removes it. -/
def alter [Std.TransOrd κ] (m : KeyMap κ ν) (k : κ) (f : Option ν → Option ν) : KeyMap κ ν :=
  match f (m.get? k) with
  | some v => m.insert k v
  | none => m.erase k

/-- The map with `f` applied to the value under `k`, if there is one. -/
def modify [Std.TransOrd κ] (m : KeyMap κ ν) (k : κ) (f : ν → ν) : KeyMap κ ν :=
  match m.get? k with
  | some v => m.insert k (f v)
  | none => m

def keys (m : KeyMap κ ν) : List κ := m.toList.map Prod.fst

def values (m : KeyMap κ ν) : List ν := m.toList.map Prod.snd

def size (m : KeyMap κ ν) : Nat := m.toList.length

def isEmpty (m : KeyMap κ ν) : Bool := m.toList.isEmpty

/-- The entries that satisfy a predicate. -/
def filter (m : KeyMap κ ν) (p : κ → ν → Bool) : KeyMap κ ν :=
  ⟨m.toList.filter fun e => p e.1 e.2, m.sorted.filter _⟩

/-- Every value transformed; keys and order are kept. -/
def mapValues {μ : Type} (m : KeyMap κ ν) (f : κ → ν → μ) : KeyMap κ μ :=
  ⟨m.toList.map fun e => (e.1, f e.1 e.2), List.pairwise_map.mpr m.sorted⟩

/-- The map of a list of entries; a later entry for a key replaces an earlier one. -/
def ofList [Std.TransOrd κ] (l : List (κ × ν)) : KeyMap κ ν :=
  l.foldl (fun m e => m.insert e.1 e.2) empty

/-- The entries with keys at least `k`. -/
def keysFrom (m : KeyMap κ ν) (k : κ) : KeyMap κ ν :=
  ⟨m.toList.filter fun e => compare e.1 k != .lt, m.sorted.filter _⟩

/-- The entries with keys below `k`. -/
def keysBelow (m : KeyMap κ ν) (k : κ) : KeyMap κ ν :=
  ⟨m.toList.filter fun e => compare e.1 k == .lt, m.sorted.filter _⟩

end KeyMap

end StakeChain

import StakeChain.Data.KeyMap
import StakeChain.Identity.Basic
import Mathlib

/-!
# Sorted key maps: lookup, shape and sums

A `KeyMap` is a list of entries with keys strictly ascending.  Its lookup `get?` reads the first
entry whose key compares equal; `insert` walks to the first key that is not smaller and replaces
an equal one there.  For a comparison that identifies equal keys (`Std.LawfulEqOrd`) this makes
`get?` a map view of `insert`, `erase` and the key filters (`get?_insert`, `get?_erase`,
`get?_keysFrom`).

Because a map carries its order, an entry of the list is what the map stores under its key
(`get?_of_mem`), a measure summed over the values moves under `insert` by the new value less the
one it replaces (`sum_insert`) and under `erase` by the removed one (`sum_erase`), and a map is
determined by its lookups (`eq_of_get?_eq`), so a map built by inserting entries is known from
where each entry lands (`get?_foldl_insert_of_mem`).
-/

set_option autoImplicit false

namespace StakeChain

namespace KeyMap

variable {κ ν : Type} [Ord κ]

/-! ## Lookup -/

@[simp] theorem get?_empty (k : κ) : (empty : KeyMap κ ν).get? k = none := rfl

@[simp] theorem lookup_nil (k : κ) : lookup ([] : List (κ × ν)) k = none := rfl

theorem getD_eq (m : KeyMap κ ν) (k : κ) (d : ν) : m.getD k d = (m.get? k).getD d := rfl

theorem contains_eq (m : KeyMap κ ν) (k : κ) : m.contains k = (m.get? k).isSome := rfl

theorem modify_eq [Std.TransOrd κ] (m : KeyMap κ ν) (k : κ) (f : ν → ν) :
    m.modify k f = match m.get? k with
      | some v => m.insert k (f v)
      | none => m := rfl

section Lookup

variable [DecidableEq κ] [Std.LawfulEqOrd κ]

theorem compare_beq_eq (k k' : κ) : (compare k k' == .eq) = decide (k = k') := by
  by_cases h : k = k' <;> simp [h]

/-- The lookup of a list of entries, with the comparison read as equality. -/
theorem lookup_eq (l : List (κ × ν)) (k : κ) :
    lookup l k = (l.find? fun p => decide (k = p.1)).map Prod.snd := by
  simp only [lookup, compare_beq_eq]

theorem lookup_cons (k₁ : κ) (v₁ : ν) (l : List (κ × ν)) (k : κ) :
    lookup ((k₁, v₁) :: l) k = if k = k₁ then some v₁ else lookup l k := by
  by_cases h : k = k₁ <;> simp [lookup_eq, h]

theorem lookup_insertEntry (l : List (κ × ν)) (k : κ) (v : ν) (k' : κ) :
    lookup (insertEntry k v l) k' = if k' = k then some v else lookup l k' := by
  induction l with
  | nil => simp [insertEntry, lookup_cons]
  | cons e rest ih =>
    obtain ⟨k₁, v₁⟩ := e
    simp only [insertEntry]
    cases hc : compare k k₁ with
    | lt => simp [lookup_cons]
    | eq =>
      obtain rfl := Std.LawfulEqCmp.eq_of_compare hc
      by_cases h : k' = k <;> simp [lookup_cons, h]
    | gt =>
      have hne : k ≠ k₁ := by
        rintro rfl
        simp at hc
      by_cases h : k' = k₁
      · subst h
        simp [lookup_cons, Ne.symm hne]
      · simp only [lookup_cons, h, if_false, ih]

theorem get?_insert [Std.TransOrd κ] (m : KeyMap κ ν) (k : κ) (v : ν) (k' : κ) :
    (m.insert k v).get? k' = if k' = k then some v else m.get? k' :=
  lookup_insertEntry m.toList k v k'

@[simp] theorem get?_insert_self [Std.TransOrd κ] (m : KeyMap κ ν) (k : κ) (v : ν) :
    (m.insert k v).get? k = some v := by
  simp [get?_insert]

theorem get?_insert_of_ne [Std.TransOrd κ] (m : KeyMap κ ν) {k k' : κ} (v : ν) (h : k' ≠ k) :
    (m.insert k v).get? k' = m.get? k' := by
  simp [get?_insert, h]

/-- A filter on keys alone keeps exactly the lookups of the keys it keeps. -/
theorem lookup_filter_keys (l : List (κ × ν)) (p : κ → Bool) (k : κ) :
    lookup (l.filter fun e => p e.1) k = if p k then lookup l k else none := by
  induction l with
  | nil => simp
  | cons e rest ih =>
    obtain ⟨k₁, v₁⟩ := e
    by_cases hk : k = k₁
    · subst hk
      cases hp : p k <;> simp [hp, lookup_cons, ih]
    · by_cases hp₁ : p k₁ <;> simp [hp₁, lookup_cons, hk, ih]

theorem get?_erase (m : KeyMap κ ν) (k k' : κ) :
    (m.erase k).get? k' = if k' = k then none else m.get? k' := by
  have h := lookup_filter_keys m.toList (fun a => compare k a != .eq) k'
  simp only [bne_iff_ne, ne_eq] at h
  simp only [get?, erase, h]
  by_cases hk : k' = k
  · simp [hk]
  · simp [Ne.symm hk, hk]

theorem get?_keysFrom (m : KeyMap κ ν) (k k' : κ) :
    (m.keysFrom k).get? k' = if compare k' k != .lt then m.get? k' else none :=
  lookup_filter_keys m.toList (fun a => compare a k != .lt) k'

theorem get?_filter (m : KeyMap κ ν) (p : κ → Bool) (k : κ) :
    (m.filter fun a _ => p a).get? k = if p k then m.get? k else none :=
  lookup_filter_keys m.toList p k

theorem get?_mapValues {μ : Type} (m : KeyMap κ ν) (f : κ → ν → μ) (k : κ) :
    (m.mapValues f).get? k = (m.get? k).map (f k) := by
  simp only [get?, mapValues]
  induction m.toList with
  | nil => simp
  | cons e rest ih =>
    obtain ⟨k₁, v₁⟩ := e
    by_cases h : k = k₁
    · subst h
      simp [lookup_cons]
    · simp only [List.map_cons, lookup_cons, h, if_false, ih]

theorem mem_toList_of_get? {m : KeyMap κ ν} {k : κ} {v : ν} (h : m.get? k = some v) :
    (k, v) ∈ m.toList := by
  rw [get?, lookup_eq] at h
  obtain ⟨e, he, rfl⟩ := Option.map_eq_some_iff.mp h
  have hk : k = e.1 := by simpa using List.find?_some he
  subst hk
  exact List.mem_of_find?_eq_some he

theorem mem_values_of_get? {m : KeyMap κ ν} {k : κ} {v : ν} (h : m.get? k = some v) :
    v ∈ m.values :=
  List.mem_map.mpr ⟨(k, v), mem_toList_of_get? h, rfl⟩

/-- Past the first entry of ascending entries its key is not found. -/
theorem lookup_tail {k₁ : κ} {v₁ : ν} {rest : List (κ × ν)}
    (hl : ((k₁, v₁) :: rest).Pairwise fun a b => compare a.1 b.1 = .lt) :
    lookup rest k₁ = none := by
  rw [lookup_eq, List.find?_eq_none.mpr, Option.map_none]
  intro e he
  have hlt : compare k₁ e.1 = .lt := List.rel_of_pairwise_cons hl he
  simp only [decide_eq_true_eq]
  rintro rfl
  simp at hlt

/-- An entry of ascending entries is what the lookup finds under its key. -/
theorem lookup_of_mem {k : κ} {v : ν} :
    ∀ {l : List (κ × ν)}, (l.Pairwise fun a b => compare a.1 b.1 = .lt) → (k, v) ∈ l →
      lookup l k = some v
  | [], _, h => absurd h List.not_mem_nil
  | (k₁, v₁) :: rest, hl, h => by
    rw [lookup_cons]
    rcases List.mem_cons.mp h with he | he
    · cases he
      simp
    · have hget := lookup_of_mem hl.of_cons he
      have hne : k ≠ k₁ := by
        rintro rfl
        rw [lookup_tail hl] at hget
        cases hget
      simp [hne, hget]

/-- An entry of a map is what the map stores under its key. -/
theorem get?_of_mem {m : KeyMap κ ν} {k : κ} {v : ν} (h : (k, v) ∈ m.toList) :
    m.get? k = some v :=
  lookup_of_mem m.sorted h

theorem mem_toList_iff {m : KeyMap κ ν} {k : κ} {v : ν} : (k, v) ∈ m.toList ↔ m.get? k = some v :=
  ⟨get?_of_mem, mem_toList_of_get?⟩

end Lookup

/-- The order carried by the map leaves no key twice. -/
theorem keys_nodup [Std.ReflOrd κ] (m : KeyMap κ ν) : m.keys.Nodup := by
  unfold keys
  rw [List.Nodup, List.pairwise_map]
  exact m.sorted.imp fun hlt heq => by rw [heq] at hlt; simp at hlt

/-! ## Sums over the values -/

section Sums

variable [DecidableEq κ] [Std.LawfulEqOrd κ]

/-- A measure summed over the values moves, under `insert`, by the new value less the one it
replaces. -/
theorem sum_insert [Std.TransOrd κ] (m : KeyMap κ ν) (f : ν → Nat) (k : κ) (v : ν) :
    ((m.insert k v).values.map f).sum + ((m.get? k).map f).getD 0 =
      (m.values.map f).sum + f v := by
  obtain ⟨l, hl⟩ := m
  simp only [KeyMap.insert, values, get?]
  induction l with
  | nil => simp [insertEntry]
  | cons e rest ih =>
    obtain ⟨k₁, v₁⟩ := e
    simp only [insertEntry]
    cases hc : compare k k₁ with
    | lt =>
      have hnone : lookup ((k₁, v₁) :: rest) k = none := by
        rw [lookup_cons, if_neg, lookup_eq, List.find?_eq_none.mpr, Option.map_none]
        · intro e he
          have := Std.TransCmp.lt_trans hc (List.rel_of_pairwise_cons hl he)
          simp only [decide_eq_true_eq]
          rintro rfl
          simp at this
        · rintro rfl
          simp at hc
      simp [hnone]
      omega
    | eq =>
      obtain rfl := Std.LawfulEqCmp.eq_of_compare hc
      simp [lookup_cons]
      omega
    | gt =>
      have hne : k ≠ k₁ := by
        rintro rfl
        simp at hc
      have := ih hl.of_cons
      simp only [List.map_cons, List.sum_cons, lookup_cons, hne, if_false] at this ⊢
      omega

/-- A measure summed over the values falls, under `erase`, by the value removed. -/
theorem sum_erase (m : KeyMap κ ν) (f : ν → Nat) (k : κ) :
    ((m.erase k).values.map f).sum + ((m.get? k).map f).getD 0 = (m.values.map f).sum := by
  obtain ⟨l, hl⟩ := m
  simp only [KeyMap.erase, values, get?]
  induction l with
  | nil => simp
  | cons e rest ih =>
    obtain ⟨k₁, v₁⟩ := e
    have ih := ih hl.of_cons
    by_cases h : k = k₁
    · subst h
      have hkeep : (rest.filter fun p => compare k p.1 != .eq) = rest := by
        rw [List.filter_eq_self]
        intro e he
        have hlt : compare k e.1 = .lt := List.rel_of_pairwise_cons hl he
        simp [hlt]
      simp [hkeep, lookup_cons]
      omega
    · simp [h, lookup_cons] at ih ⊢
      omega

theorem le_sum_of_get? {m : KeyMap κ ν} (f : ν → Nat) {k : κ} {v : ν} (h : m.get? k = some v) :
    f v ≤ (m.values.map f).sum :=
  List.le_sum_of_mem (List.mem_map_of_mem (mem_values_of_get? h))

end Sums

/-! ## Maps built entry by entry -/

section Build

variable [DecidableEq κ] [Std.LawfulEqOrd κ]

/-- Two lists of ascending entries with the same lookups are the same list. -/
theorem eq_of_lookup_eq [Std.TransOrd κ] :
    ∀ {l l' : List (κ × ν)}, (l.Pairwise fun a b => compare a.1 b.1 = .lt) →
      (l'.Pairwise fun a b => compare a.1 b.1 = .lt) → (∀ k, lookup l k = lookup l' k) → l = l'
  | [], [], _, _, _ => rfl
  | [], (k, v) :: _, _, _, h => by simpa [lookup_cons] using h k
  | (k, v) :: _, [], _, _, h => by simpa [lookup_cons] using h k
  | (k₁, v₁) :: r₁, (k₂, v₂) :: r₂, hs₁, hs₂, h => by
    -- each first key is the least key of the other list, so the two are the same
    have hk : k₁ = k₂ := by
      by_contra hne
      have h₁ := h k₁
      have h₂ := h k₂
      rw [lookup_cons, if_pos rfl, lookup_cons, if_neg hne] at h₁
      rw [lookup_cons, if_neg (Ne.symm hne), lookup_cons, if_pos rfl] at h₂
      have hlt₁ : compare k₂ k₁ = .lt :=
        List.rel_of_pairwise_cons hs₂ (mem_toList_of_get? (m := ⟨r₂, hs₂.of_cons⟩) h₁.symm)
      have hlt₂ : compare k₁ k₂ = .lt :=
        List.rel_of_pairwise_cons hs₁ (mem_toList_of_get? (m := ⟨r₁, hs₁.of_cons⟩) h₂)
      exact absurd (Std.OrientedCmp.gt_of_lt hlt₁) (by rw [hlt₂]; decide)
    subst hk
    have hv : v₁ = v₂ := by
      have h₁ := h k₁
      rw [lookup_cons, if_pos rfl, lookup_cons, if_pos rfl] at h₁
      exact Option.some.inj h₁
    subst hv
    have hrest : r₁ = r₂ := by
      refine eq_of_lookup_eq hs₁.of_cons hs₂.of_cons fun k => ?_
      by_cases hkk : k = k₁
      · subst hkk
        rw [lookup_tail hs₁, lookup_tail hs₂]
      · have := h k
        rwa [lookup_cons, if_neg hkk, lookup_cons, if_neg hkk] at this
    rw [hrest]

/-- Two maps with the same lookups are the same map. -/
theorem eq_of_get?_eq [Std.TransOrd κ] {m m' : KeyMap κ ν} (h : ∀ k, m.get? k = m'.get? k) :
    m = m' :=
  KeyMap.ext (eq_of_lookup_eq m.sorted m'.sorted h)

variable [Std.TransOrd κ]

/-- Erasing a key the map does not hold changes nothing. -/
theorem erase_of_get?_none {m : KeyMap κ ν} {k : κ} (h : m.get? k = none) : m.erase k = m :=
  eq_of_get?_eq fun k' => by
    rw [get?_erase]
    split
    · rename_i hk
      rw [hk, h]
    · rfl

/-- Inserting the value a key already holds changes nothing. -/
theorem insert_of_get? {m : KeyMap κ ν} {k : κ} {v : ν} (h : m.get? k = some v) :
    m.insert k v = m :=
  eq_of_get?_eq fun k' => by
    rw [get?_insert]
    split
    · rename_i hk
      rw [hk, h]
    · rfl

theorem erase_insert_self (m : KeyMap κ ν) (k : κ) (v : ν) :
    (m.insert k v).erase k = m.erase k :=
  eq_of_get?_eq fun k' => by
    by_cases hk : k' = k <;> simp [get?_erase, get?_insert, hk]

variable {α : Type} (g : α → κ) (f : α → ν)

/-- A key that no inserted item names reads as before. -/
theorem get?_foldl_insert_of_forall_ne (k : κ) :
    ∀ (xs : List α) (m : KeyMap κ ν), (∀ x ∈ xs, g x ≠ k) →
      (xs.foldl (fun m x => m.insert (g x) (f x)) m).get? k = m.get? k
  | [], _, _ => rfl
  | x :: xs, m, h => by
    rw [List.foldl_cons, get?_foldl_insert_of_forall_ne k xs _ fun y hy => h y (.tail _ hy),
      get?_insert, if_neg (Ne.symm (h x (.head _)))]

/-- Items with distinct keys are each read back under their key. -/
theorem get?_foldl_insert_of_mem :
    ∀ (xs : List α) (m : KeyMap κ ν), xs.Pairwise (fun x y => g x ≠ g y) → ∀ x ∈ xs,
      (xs.foldl (fun m x => m.insert (g x) (f x)) m).get? (g x) = some (f x)
  | [], _, _, _, hx => absurd hx List.not_mem_nil
  | y :: xs, m, hp, x, hx => by
    rw [List.foldl_cons]
    rcases List.mem_cons.mp hx with rfl | hx
    · rw [get?_foldl_insert_of_forall_ne g f _ xs _ fun z hz =>
        Ne.symm (List.rel_of_pairwise_cons hp hz), get?_insert_self]
    · exact get?_foldl_insert_of_mem xs _ hp.of_cons x hx

end Build

end KeyMap

end StakeChain

import StakeChain.Word
import Mathlib

/-!
# Exact words and folds of steps

Amounts are words, but the statements about value are about exact naturals.  A saturating sum
is exact as long as it stays in range (`Word.addSat_toNat_of_lt`), and a fold of saturating
additions is the exact sum cut at the largest word (`Word.foldl_addSat_toNat`).

Block execution runs its evidence and its transactions through monadic folds.  A property
that every successful step keeps holds after a successful fold (`Except.foldlM_induction`,
`Guarded.foldlM_induction`): this is the one induction behind every whole-block statement.
-/

set_option autoImplicit false

namespace StakeChain

namespace Word

theorem size_eq : UInt64.size = 18446744073709551616 := rfl

theorem max_toNat : max.toNat = UInt64.size - 1 := rfl

theorem add_toNat_of_lt {a b : UInt64} (h : a.toNat + b.toNat < UInt64.size) :
    (a + b).toNat = a.toNat + b.toNat := by
  rw [UInt64.toNat_add]
  exact Nat.mod_eq_of_lt h

/-- A difference that does not go below zero gives back what it took. -/
theorem sub_toNat_add {a b : UInt64} (h : b ≤ a) : (a - b).toNat + b.toNat = a.toNat := by
  have := UInt64.le_iff_toNat_le.mp h
  rw [UInt64.toNat_sub_of_le _ _ h]
  omega

theorem addSat_toNat_of_lt {a b : UInt64} (h : a.toNat + b.toNat < UInt64.size) :
    (addSat a b).toNat = a.toNat + b.toNat := by
  rw [addSat_toNat]
  omega

theorem add?_of_lt {a b : UInt64} (h : a.toNat + b.toNat < UInt64.size) :
    add? a b = some (a + b) := by
  simp [add?, h]

theorem addStrict_of_lt {a b : UInt64} (h : a.toNat + b.toNat < UInt64.size) :
    addStrict a b = .ok (a + b) := by
  unfold addStrict
  rw [if_pos h]

theorem not_max_lt (a b : UInt64) : ¬Max.max a b < b := by
  rw [UInt64.lt_iff_toNat_lt, UInt64.toNat_max]
  omega

theorem lt_of_add?_eq_some {a b c : UInt64} (h : add? a b = some c) :
    a.toNat + b.toNat < UInt64.size := by
  unfold add? at h
  split at h
  · assumption
  · cases h

theorem addStrict_eq_error {a b : UInt64} {e : Abort} (h : addStrict a b = .error e) :
    UInt64.size ≤ a.toNat + b.toNat := by
  unfold addStrict at h
  split at h
  · cases h
  · omega

theorem addStrict_eq_ok {a b c : UInt64} (h : addStrict a b = .ok c) :
    c.toNat = a.toNat + b.toNat := by
  unfold addStrict at h
  split at h
  · cases h
    exact add_toNat_of_lt (by assumption)
  · cases h

/-- A fold that adds, saturating, a measure of the entries a predicate selects is the exact sum
of those measures cut at the largest word. -/
theorem foldl_addSat_filter_toNat {α : Type} (p : α → Bool) (f : α → UInt64) :
    ∀ (xs : List α) (acc : UInt64),
      (xs.foldl (fun s e => if p e then addSat s (f e) else s) acc).toNat =
        min (acc.toNat + ((xs.filter p).map fun e => (f e).toNat).sum) (UInt64.size - 1)
  | [], acc => by
    have hsize : UInt64.size = 18446744073709551616 := rfl
    have := acc.toNat_lt
    simp only [List.foldl_nil, List.filter_nil, List.map_nil, List.sum_nil]
    omega
  | e :: rest, acc => by
    rw [List.foldl_cons, foldl_addSat_filter_toNat p f rest]
    by_cases hp : p e
    · simp only [hp, if_true, List.filter_cons_of_pos hp, List.map_cons, List.sum_cons,
        addSat_toNat]
      omega
    · simp only [hp, Bool.false_eq_true, if_false, List.filter_cons_of_neg hp]

theorem foldl_addSat_toNat {α : Type} (f : α → UInt64) (xs : List α) (acc : UInt64) :
    (xs.foldl (fun s e => addSat s (f e)) acc).toNat =
      min (acc.toNat + (xs.map fun e => (f e).toNat).sum) (UInt64.size - 1) := by
  have := foldl_addSat_filter_toNat (fun _ => true) f xs acc
  simpa using this

/-- Dropping the entries whose measure is zero leaves the sum of the measures as it was. -/
theorem sum_filter_pos {α : Type} (f : α → UInt64) :
    ∀ xs : List α,
      ((xs.filter fun x => f x > 0).map fun x => (f x).toNat).sum = (xs.map fun x => (f x).toNat).sum
  | [] => rfl
  | x :: rest => by
    by_cases hx : f x > 0
    · simp [hx, sum_filter_pos f rest]
    · have hzero : (f x).toNat = 0 := by
        rw [gt_iff_lt, UInt64.lt_iff_toNat_lt, UInt64.toNat_zero] at hx
        omega
      simp [hx, hzero, sum_filter_pos f rest]

theorem foldl_addSat_words_toNat (xs : List UInt64) (acc : UInt64) :
    (xs.foldl addSat acc).toNat = min (acc.toNat + (xs.map UInt64.toNat).sum) (UInt64.size - 1) := by
  have := foldl_addSat_toNat id xs acc
  simpa using this

/-- The saturating sum of a list is its exact sum cut at the largest word. -/
theorem sumSat_toNat (xs : List UInt64) :
    (sumSat xs).toNat = min (xs.map UInt64.toNat).sum (UInt64.size - 1) := by
  have := foldl_addSat_words_toNat xs 0
  simpa [sumSat] using this

end Word

namespace Guarded

variable {ε α β : Type}

@[simp] theorem ofExcept_ok_bind (a : α) (f : α → Guarded ε β) :
    (ofExcept (.ok a) >>= f) = f a := rfl

@[simp] theorem ofAbort_ok_bind (a : α) (f : α → Guarded ε β) :
    (ofAbort (.ok a) >>= f) = f a := rfl

/-- A step that went through: the first computation gave a value and the rest went through
from it. -/
theorem bind_eq_ok {g : Guarded ε α} {f : α → Guarded ε β} {b : β}
    (h : (g >>= f).run = .ok (.ok b)) : ∃ a, g.run = .ok (.ok a) ∧ (f a).run = .ok (.ok b) := by
  have hrun : (g >>= f).run = g.run >>= ExceptT.bindCont f := rfl
  rw [hrun] at h
  cases hg : g.run with
  | error e =>
    rw [hg] at h
    nomatch h
  | ok r =>
    cases r with
    | error e =>
      rw [hg] at h
      nomatch h
    | ok a =>
      rw [hg] at h
      exact ⟨a, rfl, h⟩

theorem ofExcept_eq_ok {e : Except ε α} {a : α} (h : (ofExcept e).run = .ok (.ok a)) :
    e = .ok a := by
  cases e with
  | error _ => nomatch h
  | ok b => cases h; rfl

theorem liftM_eq_ok {x : Except Abort α} {a : α} (h : (liftM x : Guarded ε α).run = .ok (.ok a)) :
    x = .ok a := by
  cases x with
  | error _ => nomatch h
  | ok b => cases h; rfl

theorem bind_run_of_ok {g : Guarded ε α} {f : α → Guarded ε β} {a : α}
    (h : g.run = .ok (.ok a)) : (g >>= f).run = (f a).run := by
  have hrun : (g >>= f).run = g.run >>= ExceptT.bindCont f := rfl
  rw [hrun, h]
  rfl

/-- What every successful step keeps, a successful fold keeps. -/
theorem foldlM_induction (P : α → Prop) (g : α → β → Guarded ε α)
    (hstep : ∀ a b a', P a → (g a b).run = .ok (.ok a') → P a') :
    ∀ (xs : List β) (init final : α), P init →
      (xs.foldlM g init).run = .ok (.ok final) → P final
  | [], init, final, hinit, h => by
    cases h
    exact hinit
  | b :: rest, init, final, hinit, h => by
    rw [List.foldlM_cons] at h
    obtain ⟨a, ha, hrest⟩ := bind_eq_ok h
    exact foldlM_induction P g hstep rest a final (hstep init b a hinit ha) hrest

end Guarded

@[simp] theorem Except.ok_bind {ε α β : Type} (a : α) (f : α → Except ε β) :
    (Except.ok a >>= f) = f a := rfl

/-- A bind that went through: the first computation gave a value and the rest went through
from it. -/
theorem Except.bind_eq_ok {ε α β : Type} {e : Except ε α} {f : α → Except ε β} {b : β}
    (h : e >>= f = .ok b) : ∃ a, e = .ok a ∧ f a = .ok b := by
  cases e with
  | error _ => nomatch h
  | ok a => exact ⟨a, rfl, h⟩

theorem Except.map_eq_ok {ε α β : Type} {f : α → β} {e : Except ε α} {b : β}
    (h : f <$> e = .ok b) : ∃ a, e = .ok a ∧ f a = b := by
  cases e with
  | error _ => nomatch h
  | ok a => exact ⟨a, rfl, Except.ok.inj h⟩

/-- What every successful step keeps, a successful fold keeps. -/
theorem Except.foldlM_induction {ε α β : Type} (P : α → Prop) (g : α → β → Except ε α)
    (hstep : ∀ a b a', P a → g a b = .ok a' → P a') :
    ∀ (xs : List β) (init final : α), P init → xs.foldlM g init = .ok final → P final
  | [], init, final, hinit, h => by
    cases h
    exact hinit
  | b :: rest, init, final, hinit, h => by
    rw [List.foldlM_cons] at h
    cases ha : g init b with
    | error e =>
      rw [ha] at h
      nomatch h
    | ok a =>
      rw [ha] at h
      exact Except.foldlM_induction P g hstep rest a final (hstep init b a hinit ha) h

/-- What every successful step on a member of the list keeps, a successful fold keeps. -/
theorem Except.foldlM_induction_mem {ε α β : Type} (P : α → Prop) (g : α → β → Except ε α) :
    ∀ (xs : List β), (∀ a b a', b ∈ xs → P a → g a b = .ok a' → P a') →
      ∀ (init final : α), P init → xs.foldlM g init = .ok final → P final
  | [], _, init, final, hinit, h => by
    cases h
    exact hinit
  | b :: rest, hstep, init, final, hinit, h => by
    rw [List.foldlM_cons] at h
    obtain ⟨a, ha, hrest⟩ := Except.bind_eq_ok h
    exact Except.foldlM_induction_mem P g rest (fun a b a' hb => hstep a b a' (List.mem_cons_of_mem _ hb))
      a final (hstep init b a List.mem_cons_self hinit ha) hrest

/-- A fold whose every step goes through from a state that satisfies `P`, to one that does,
goes through. -/
theorem Except.foldlM_ok {ε α β : Type} (P : α → Prop) (g : α → β → Except ε α) :
    ∀ (xs : List β), (∀ b ∈ xs, ∀ a, P a → ∃ a', g a b = .ok a' ∧ P a') →
      ∀ init, P init → ∃ final, xs.foldlM g init = .ok final ∧ P final
  | [], _, init, hinit => ⟨init, rfl, hinit⟩
  | b :: rest, hstep, init, hinit => by
    obtain ⟨a, ha, hPa⟩ := hstep b (List.mem_cons_self ..) init hinit
    obtain ⟨final, hfold, hfinal⟩ := Except.foldlM_ok P g rest
      (fun b' hb' => hstep b' (List.mem_cons_of_mem _ hb')) a hPa
    refine ⟨final, ?_, hfinal⟩
    rw [List.foldlM_cons, ha]
    exact hfold

/-- A fold whose every step goes through, followed by a step that goes through, goes through. -/
theorem Except.foldlM_bind_ok {ε α β γ : Type} (g : α → β → Except ε α) (k : α → Except ε γ)
    (xs : List β) (init : α) (hstep : ∀ b ∈ xs, ∀ a, ∃ a', g a b = .ok a')
    (hk : ∀ a, ∃ r, k a = .ok r) : ∃ r, (xs.foldlM g init >>= k) = .ok r := by
  obtain ⟨final, hfold, -⟩ := Except.foldlM_ok (fun _ => True) g xs
    (fun b hb a _ => (hstep b hb a).elim fun a' h => ⟨a', h, trivial⟩) init trivial
  rw [hfold, Except.ok_bind]
  exact hk final

end StakeChain

import StakeChain.Proofs.Block.Selection

/-!
# Selection passes: bounded, valid, and what is left out

Selection tries the candidates in fee order, pass after pass, on a scratch copy of the base
ledger.  A candidate that applies is picked; one that fails for a nonce ahead of its account
waits for the next pass; one that fails otherwise is dropped for good; and selection stops at
the first candidate that finds the block full or no longer fits its gas.  Passes go on while
one picks something.

One step of selection does one of four things (`selectStep_cases`), and the bookkeeping of
selection (`Tracks`) follows from them: the positions picked are distinct and marked done, a
dropped candidate failed where it was tried (`Dropped`), the picked transactions apply in order
to the base ledger (`Ledger.Applies`), their gas is what selection counted and fits the block,
and a stop has its reason.  A pass that picks nothing leaves every candidate not yet done
waiting on the scratch ledger (`pass_ok`).  Since a pass that progresses picks a new position,
passes beyond the number of candidates plus one are never run (`selectPasses_fuel_eq`).

A step stops the run only when applying a candidate does, which takes a candidate carrying the
largest nonce (`selectStep_error`).  Otherwise selection returns a list with everything
`Selected` says (`selection_bounded_valid`).
-/

set_option autoImplicit false

namespace StakeChain

namespace Ledger

/-- `l'` is `l` after `txs` were applied in order, each through the signature check and each
successfully. -/
inductive Applies (params : LedgerParams) : Ledger → List Transaction → Ledger → Prop
  | nil (l : Ledger) : Applies params l [] l
  | cons {l l₁ l' : Ledger} {tx : Transaction} {txs : List Transaction} (r : Receipt) :
      (l.applyTransaction params tx).run = .ok (.ok (l₁, r)) → Applies params l₁ txs l' →
      Applies params l (tx :: txs) l'

theorem Applies.snoc {params : LedgerParams} {l l' l'' : Ledger} {txs : List Transaction}
    {tx : Transaction} {r : Receipt} (h : Applies params l txs l')
    (happ : (l'.applyTransaction params tx).run = .ok (.ok (l'', r))) :
    Applies params l (txs ++ [tx]) l'' := by
  induction h with
  | nil l => exact .cons r happ (.nil _)
  | cons r' hstep _ ih => exact .cons r' hstep (ih happ)

end Ledger

/-- The gas of transactions, summed without bound. -/
def GasSchedule.totalCost (g : GasSchedule) (txs : List Transaction) : Nat :=
  (txs.map fun t => (g.cost t).toNat).sum

theorem GasSchedule.totalCost_append_single (g : GasSchedule) (txs : List Transaction)
    (tx : Transaction) : g.totalCost (txs ++ [tx]) = g.totalCost txs + (g.cost tx).toNat := by
  simp [totalCost]

/-- A transaction that does not fit a block pushes its gas past the limit. -/
theorem GasSchedule.canInclude_eq_false {g : GasSchedule} {used : UInt64} {tx : Transaction}
    (h : g.canInclude used tx = false) :
    g.blockGasLimit.toNat < used.toNat + (g.cost tx).toNat := by
  unfold canInclude at h
  split at h
  · rename_i total htotal
    rw [← Word.add?_toNat htotal]
    exact UInt64.lt_iff_toNat_lt.mp (by simpa using h)
  · rename_i hnone
    have hover := (Word.add?_eq_none_iff used (g.cost tx)).mp hnone
    have hlt := g.blockGasLimit.toNat_lt
    have hsize := Word.size_eq
    omega

theorem List.getD_set_true (l : List Bool) {i : Nat} (hi : i < l.length) (j : Nat) :
    (l.set i true).getD j false = if j = i then true else l.getD j false := by
  rw [List.getD_eq_getElem?_getD, List.getElem?_set]
  split
  · rename_i hij
    subst hij
    simp
  · rename_i hij
    rw [if_neg (Ne.symm hij), List.getD_eq_getElem?_getD]

/-- Where selection starts: the base ledger as scratch, no gas used, nothing done or picked. -/
def Selection.start (base : Ledger) (candidates : List Transaction) : Selection :=
  ⟨base, 0, candidates.map fun _ => false, [], false, false⟩

theorem selectTransactions_eq (base : Ledger) (candidates : List Transaction)
    (params : LedgerParams) (maxTxs : Nat) :
    selectTransactions base candidates params maxTxs =
      (selectPasses candidates params maxTxs (feeOrder candidates) (candidates.length + 1)
        (Selection.start base candidates) >>= fun s => pure s.picked) := rfl

/-- A pass, then the next passes unless it stopped selection or made no progress. -/
theorem selectPasses_succ (candidates : List Transaction) (params : LedgerParams) (maxTxs : Nat)
    (order : List Nat) (fuel : Nat) (s : Selection) :
    selectPasses candidates params maxTxs order (fuel + 1) s =
      (order.foldlM (selectStep candidates params maxTxs) { s with progressed := false } >>=
        fun s' => if s'.stopped || !s'.progressed then pure s'
          else selectPasses candidates params maxTxs order fuel s') := rfl

theorem mem_feeOrder_iff {candidates : List Transaction} {i : Nat} :
    i ∈ feeOrder candidates ↔ i < candidates.length := by
  unfold feeOrder
  rw [List.mem_mergeSort, List.mem_range]

section Passes

variable {base : Ledger} {candidates : List Transaction} {params : LedgerParams} {maxTxs : Nat}

/-- Applying `tx` to `l` fails for a nonce ahead of the account: it may apply later. -/
def Waits (params : LedgerParams) (l : Ledger) (tx : Transaction) : Prop :=
  ∃ e, (l.applyTransaction params tx).run = .ok (.error e) ∧ e.isFutureNonce = true

/-- One step of selection: the candidate is skipped (selection has stopped, it is done, or it
waits for a later pass), selection stops at it, it is picked, or it is dropped. -/
theorem selectStep_cases {s s' : Selection} {i : Nat}
    (h : selectStep candidates params maxTxs s i = .ok s') :
    (s' = s ∧ (s.stopped = true ∨ s.done.getD i false = true ∨
      Waits params s.scratch (candidates.getD i default))) ∨
    (s' = { s with stopped := true } ∧ s.stopped = false ∧ s.done.getD i false = false ∧
      (maxTxs ≤ s.picked.length ∨
        params.gas.canInclude s.used (candidates.getD i default) = false)) ∨
    (s.stopped = false ∧ s.done.getD i false = false ∧ s.picked.length < maxTxs ∧
      params.gas.canInclude s.used (candidates.getD i default) = true ∧
      ∃ l r, (s.scratch.applyTransaction params (candidates.getD i default)).run =
          .ok (.ok (l, r)) ∧
        s' = { s with scratch := l, used := s.used + r.gasUsed, done := s.done.set i true,
                      picked := s.picked ++ [candidates.getD i default], progressed := true }) ∨
    (s.stopped = false ∧ s.done.getD i false = false ∧
      ∃ e, (s.scratch.applyTransaction params (candidates.getD i default)).run = .ok (.error e) ∧
        e.isFutureNonce = false ∧ s' = { s with done := s.done.set i true }) := by
  unfold selectStep at h
  split at h
  · rename_i hskip
    simp only [Except.ok.injEq] at h
    subst h
    simp only [Bool.or_eq_true] at hskip
    exact .inl ⟨rfl, hskip.elim .inl (fun hd => .inr (.inl hd))⟩
  rename_i hgo
  simp only [Bool.or_eq_true, not_or, Bool.not_eq_true] at hgo
  obtain ⟨hstop, hdone⟩ := hgo
  split at h
  · rename_i hfull
    simp only [Except.ok.injEq] at h
    subst h
    exact .inr (.inl ⟨rfl, hstop, hdone, .inl hfull⟩)
  rename_i hroom
  dsimp only at h
  split at h
  · rename_i hinc
    simp only [Except.ok.injEq] at h
    subst h
    exact .inr (.inl ⟨rfl, hstop, hdone, .inr (by simpa using hinc)⟩)
  rename_i hinc
  have hinc' : params.gas.canInclude s.used (candidates.getD i default) = true := by
    simpa using hinc
  cases hrun : (s.scratch.applyTransaction params (candidates.getD i default)).run with
  | error a =>
    rw [hrun] at h
    cases h
  | ok res =>
    rw [hrun, Except.ok_bind] at h
    cases res with
    | ok p =>
      obtain ⟨l, r⟩ := p
      simp only [pure, Except.pure, Except.ok.injEq] at h
      exact .inr (.inr (.inl ⟨hstop, hdone, by omega, hinc', l, r, rfl, h.symm⟩))
    | error e =>
      dsimp only at h
      split at h
      · rename_i hfut
        simp only [pure, Except.pure, Except.ok.injEq] at h
        exact .inl ⟨h.symm, .inr (.inr ⟨e, hrun, hfut⟩)⟩
      · rename_i hfut
        simp only [pure, Except.pure, Except.ok.injEq] at h
        exact .inr (.inr (.inr ⟨hstop, hdone, e, rfl, by simpa using hfut, h.symm⟩))

/-- A step stops the run only at a candidate that carries the largest nonce. -/
theorem selectStep_error {s : Selection} {i : Nat} {a : Abort}
    (h : selectStep candidates params maxTxs s i = .error a) :
    (candidates.getD i default).nonce = Word.max := by
  unfold selectStep at h
  split at h
  · cases h
  split at h
  · cases h
  dsimp only at h
  split at h
  · cases h
  cases hrun : (s.scratch.applyTransaction params (candidates.getD i default)).run with
  | error a' =>
    exact Ledger.applyVerified_abort (Ledger.applyTransaction_abort hrun)
  | ok res =>
    rw [hrun, Except.ok_bind] at h
    cases res with
    | ok p => cases h
    | error e =>
      dsimp only at h
      split at h <;> cases h

/-- Candidate `i` failed, with an error other than a future nonce, on the ledger the first `k`
picked transactions lead to: dropped when it was tried. -/
def Dropped (base : Ledger) (candidates : List Transaction) (params : LedgerParams)
    (picked : List Transaction) (i : Nat) : Prop :=
  ∃ k ≤ picked.length, ∃ l e, Ledger.Applies params base (picked.take k) l ∧
    (l.applyTransaction params (candidates.getD i default)).run = .ok (.error e) ∧
    e.isFutureNonce = false

theorem Dropped.append {picked : List Transaction} {i : Nat}
    (h : Dropped base candidates params picked i) (more : List Transaction) :
    Dropped base candidates params (picked ++ more) i := by
  obtain ⟨k, hk, l, e, happ, hrun, hfut⟩ := h
  refine ⟨k, by simp; omega, l, e, ?_, hrun, hfut⟩
  rw [List.take_append_of_le_length hk]
  exact happ

/-- The bookkeeping of selection, with `idx` the positions picked, in the order picked. -/
structure Tracks (base : Ledger) (candidates : List Transaction) (params : LedgerParams)
    (maxTxs : Nat) (s : Selection) (idx : List Nat) : Prop where
  done_length : s.done.length = candidates.length
  nodup : idx.Nodup
  lt : ∀ i ∈ idx, i < candidates.length
  picked_eq : s.picked = idx.map fun i => candidates.getD i default
  done_of_mem : ∀ i ∈ idx, s.done.getD i false = true
  /-- A position done and not picked was dropped. -/
  dropped : ∀ i < candidates.length, s.done.getD i false = true → i ∉ idx →
    Dropped base candidates params s.picked i
  applies : Ledger.Applies params base s.picked s.scratch
  used_eq : s.used.toNat = params.gas.totalCost s.picked
  fits : s.used.toNat ≤ params.gas.blockGasLimit.toNat
  within : s.picked.length ≤ maxTxs
  /-- Selection stops on a full block or on a candidate not picked that does not fit. -/
  stop : s.stopped = true → s.picked.length = maxTxs ∨ ∃ j < candidates.length, j ∉ idx ∧
    params.gas.blockGasLimit.toNat < s.used.toNat + (params.gas.cost (candidates.getD j default)).toNat

theorem Tracks.start : Tracks base candidates params maxTxs (Selection.start base candidates) [] where
  done_length := List.length_map _
  nodup := List.nodup_nil
  lt _ h := by cases h
  picked_eq := rfl
  done_of_mem _ h := by cases h
  dropped i _ hd := by simp [Selection.start, List.getD_eq_getElem?_getD] at hd
  applies := .nil _
  used_eq := rfl
  fits := Nat.zero_le _
  within := Nat.zero_le _
  stop h := by cases h

/-- At most as many positions are picked as there are candidates. -/
theorem Tracks.length_le {s : Selection} {idx : List Nat}
    (hs : Tracks base candidates params maxTxs s idx) : idx.length ≤ candidates.length := by
  have hsub : idx ⊆ List.range candidates.length := fun i hi => List.mem_range.mpr (hs.lt i hi)
  simpa using (hs.nodup.subperm hsub).length_le

/-- The bookkeeping does not read the progress flag. -/
theorem Tracks.withProgressed {s : Selection} {idx : List Nat}
    (hs : Tracks base candidates params maxTxs s idx) (b : Bool) :
    Tracks base candidates params maxTxs { s with progressed := b } idx :=
  ⟨hs.done_length, hs.nodup, hs.lt, hs.picked_eq, hs.done_of_mem, hs.dropped, hs.applies,
    hs.used_eq, hs.fits, hs.within, hs.stop⟩

section Step

variable {s : Selection} {idx : List Nat} {i : Nat}

theorem Tracks.not_mem (hs : Tracks base candidates params maxTxs s idx)
    (hdone : s.done.getD i false = false) : i ∉ idx := fun hm => by
  rw [hs.done_of_mem i hm] at hdone
  cases hdone

/-- Selection stops at a candidate on a full block or one that does not fit. -/
theorem Tracks.stopAt (hs : Tracks base candidates params maxTxs s idx) (hi : i < candidates.length)
    (hdone : s.done.getD i false = false)
    (hreason : maxTxs ≤ s.picked.length ∨
      params.gas.canInclude s.used (candidates.getD i default) = false) :
    Tracks base candidates params maxTxs { s with stopped := true } idx := by
  refine ⟨hs.done_length, hs.nodup, hs.lt, hs.picked_eq, hs.done_of_mem, hs.dropped, hs.applies,
    hs.used_eq, hs.fits, hs.within, fun _ => ?_⟩
  rcases hreason with hfull | hinc
  · have hwithin := hs.within
    exact .inl (show s.picked.length = maxTxs by omega)
  · exact .inr ⟨i, hi, hs.not_mem hdone, GasSchedule.canInclude_eq_false hinc⟩

/-- A picked candidate joins the picked transactions at a fresh position. -/
theorem Tracks.pick (hs : Tracks base candidates params maxTxs s idx) (hi : i < candidates.length)
    (hstop : s.stopped = false) (hdone : s.done.getD i false = false)
    (hroom : s.picked.length < maxTxs)
    (hinc : params.gas.canInclude s.used (candidates.getD i default) = true) {l : Ledger}
    {r : Receipt}
    (happ : (s.scratch.applyTransaction params (candidates.getD i default)).run = .ok (.ok (l, r))) :
    Tracks base candidates params maxTxs
      { s with scratch := l, used := s.used + r.gasUsed, done := s.done.set i true,
               picked := s.picked ++ [candidates.getD i default], progressed := true }
      (idx ++ [i]) := by
  have hnot := hs.not_mem hdone
  have hlen : i < s.done.length := by rw [hs.done_length]; exact hi
  obtain ⟨-, hver⟩ := Ledger.applyTransaction_eq_ok happ
  obtain ⟨-, -, -, -, -, -, -, -, -, hr⟩ := Ledger.applyVerified_inv hver
  have hgas := GasSchedule.canInclude_eq_true hinc
  have hcost : (s.used + r.gasUsed).toNat =
      s.used.toNat + (params.gas.cost (candidates.getD i default)).toNat := by
    subst hr
    have hlimit := params.gas.blockGasLimit.toNat_lt
    have hsize := Word.size_eq
    show (s.used + params.gas.cost _).toNat = _
    exact Word.add_toNat_of_lt (by omega)
  refine ⟨?_, ?_, ?_, ?_, ?_, ?_, ?_, ?_, ?_, ?_, ?_⟩
  · exact (List.length_set ..).trans hs.done_length
  · exact List.nodup_append.mpr ⟨hs.nodup, List.nodup_singleton _, fun a ha b hb hab => by
      simp only [List.mem_singleton] at hb
      exact hnot (hb ▸ hab ▸ ha)⟩
  · intro j hj
    rcases List.mem_append.mp hj with hj | hj
    · exact hs.lt j hj
    · rw [List.mem_singleton.mp hj]
      exact hi
  · show s.picked ++ _ = _
    rw [hs.picked_eq, List.map_append, List.map_singleton]
  · intro j hj
    show (s.done.set i true).getD j false = true
    rw [List.getD_set_true _ hlen]
    split
    · rfl
    · rcases List.mem_append.mp hj with hj | hj
      · exact hs.done_of_mem j hj
      · simp_all
  · intro j hj hd hnj
    have hne : j ≠ i := fun heq => hnj (by simp [heq])
    have hd' : s.done.getD j false = true := by
      have := hd
      simp only [List.getD_set_true _ hlen, if_neg hne] at this
      exact this
    exact (hs.dropped j hj hd' (fun hm => hnj (List.mem_append_left _ hm))).append _
  · exact hs.applies.snoc happ
  · show (s.used + r.gasUsed).toNat = params.gas.totalCost (s.picked ++ _)
    rw [hcost, GasSchedule.totalCost_append_single, hs.used_eq]
  · show (s.used + r.gasUsed).toNat ≤ _
    rw [hcost]
    exact hgas
  · show (s.picked ++ _).length ≤ maxTxs
    simp only [List.length_append, List.length_singleton]
    omega
  · intro hst
    rw [hstop] at hst
    cases hst

/-- A dropped candidate is done, and failed on the ledger of the transactions picked so far. -/
theorem Tracks.drop (hs : Tracks base candidates params maxTxs s idx) (hi : i < candidates.length)
    (hdone : s.done.getD i false = false) {e : LedgerError}
    (happ : (s.scratch.applyTransaction params (candidates.getD i default)).run = .ok (.error e))
    (hfut : e.isFutureNonce = false) :
    Tracks base candidates params maxTxs { s with done := s.done.set i true } idx := by
  have hlen : i < s.done.length := by rw [hs.done_length]; exact hi
  obtain ⟨hlength, hnd, hlt, hpick, hdm, hdrop, happs, hused, hfits, hwithin, hstop⟩ := hs
  refine ⟨(List.length_set ..).trans hlength, hnd, hlt, hpick, ?_, ?_, happs, hused, hfits,
    hwithin, hstop⟩
  · intro j hj
    show (s.done.set i true).getD j false = true
    rw [List.getD_set_true _ hlen]
    split
    · rfl
    · exact hdm j hj
  · intro j hj hd hnj
    show Dropped base candidates params s.picked j
    by_cases hji : j = i
    · subst hji
      -- dropped now: it failed on the scratch ledger, which all the picks lead to
      exact ⟨s.picked.length, le_refl _, s.scratch, e, by rw [List.take_length]; exact happs,
        happ, hfut⟩
    · have hd' : s.done.getD j false = true := by
        have := hd
        simp only [List.getD_set_true _ hlen, if_neg hji] at this
        exact this
      exact hdrop j hj hd' hnj

/-- Every step keeps the bookkeeping, picking at most the position it looks at, and a pick is
progress. -/
theorem Tracks.step (hs : Tracks base candidates params maxTxs s idx) (hi : i < candidates.length)
    {s' : Selection} (h : selectStep candidates params maxTxs s i = .ok s') :
    ∃ idx', Tracks base candidates params maxTxs s' idx' ∧
      ((idx' = idx ∧ s'.progressed = s.progressed) ∨ (idx' = idx ++ [i] ∧ s'.progressed = true)) := by
  rcases selectStep_cases h with ⟨rfl, -⟩ | ⟨rfl, -, hdone, hreason⟩ |
    ⟨hstop, hdone, hroom, hinc, l, r, happ, rfl⟩ | ⟨-, hdone, e, happ, hfut, rfl⟩
  · exact ⟨idx, hs, .inl ⟨rfl, rfl⟩⟩
  · exact ⟨idx, hs.stopAt hi hdone hreason, .inl ⟨rfl, rfl⟩⟩
  · exact ⟨idx ++ [i], hs.pick hi hstop hdone hroom hinc happ, .inr ⟨rfl, rfl⟩⟩
  · exact ⟨idx, hs.drop hi hdone happ hfut, .inl ⟨rfl, rfl⟩⟩

end Step

/-! ## Passes -/

/-- After a step, candidate `j` is settled for this pass: selection stopped, the pass made
progress, `j` is done, or `j` waits on the scratch ledger. -/
def Settled (candidates : List Transaction) (params : LedgerParams) (s : Selection) (j : Nat) :
    Prop :=
  s.stopped = true ∨ s.progressed = true ∨ s.done.getD j false = true ∨
    Waits params s.scratch (candidates.getD j default)

/-- A step settles the candidate it looks at and unsettles none. -/
theorem selectStep_settled {s s' : Selection} {i : Nat} (hlen : i < s.done.length)
    (h : selectStep candidates params maxTxs s i = .ok s') :
    Settled candidates params s' i ∧
      ∀ j, Settled candidates params s j → Settled candidates params s' j := by
  rcases selectStep_cases h with ⟨rfl, hwhy⟩ | ⟨rfl, -⟩ | ⟨-, -, -, -, l, r, -, rfl⟩ |
    ⟨-, -, e, -, -, rfl⟩
  · exact ⟨hwhy.elim .inl fun h => .inr (.inr h), fun _ hj => hj⟩
  · exact ⟨.inl rfl, fun _ _ => .inl rfl⟩
  · exact ⟨.inr (.inl rfl), fun _ _ => .inr (.inl rfl)⟩
  · -- marking `i` done changes neither the scratch ledger nor any other mark
    refine ⟨.inr (.inr (.inl ?_)), fun j hj => ?_⟩
    · show (s.done.set i true).getD i false = true
      rw [List.getD_set_true _ hlen, if_pos rfl]
    · rcases hj with hj | hj | hj | hj
      · exact .inl hj
      · exact .inr (.inl hj)
      · refine .inr (.inr (.inl ?_))
        show (s.done.set i true).getD j false = true
        rw [List.getD_set_true _ hlen]
        split
        · rfl
        · exact hj
      · exact .inr (.inr (.inr hj))

/-- What a fold keeps of the members it went through, it keeps of the whole list. -/
theorem Except.foldlM_prefix {ε α β : Type} (P : List β → α → Prop) (g : α → β → Except ε α) :
    ∀ (xs pre : List β) (init final : α),
      (∀ pre' b a a', b ∈ xs → P pre' a → g a b = .ok a' → P (pre' ++ [b]) a') →
      P pre init → xs.foldlM g init = .ok final → P (pre ++ xs) final
  | [], pre, init, final, _, hinit, h => by
    cases h
    simpa using hinit
  | b :: rest, pre, init, final, hstep, hinit, h => by
    rw [List.foldlM_cons] at h
    obtain ⟨a, ha, hrest⟩ := Except.bind_eq_ok h
    have := Except.foldlM_prefix P g rest (pre ++ [b]) a final
      (fun pre' b' a a' hb => hstep pre' b' a a' (List.mem_cons_of_mem _ hb))
      (hstep pre b init a List.mem_cons_self hinit ha) hrest
    simpa using this

/-- A fold that stops the run stops it at a step on a member of the list. -/
theorem Except.foldlM_error_mem {ε α β : Type} (g : α → β → Except ε α) :
    ∀ (xs : List β) (init : α) (a : ε), xs.foldlM g init = .error a →
      ∃ b ∈ xs, ∃ x, g x b = .error a
  | [], _, _, h => by cases h
  | b :: rest, init, a, h => by
    rw [List.foldlM_cons] at h
    cases hb : g init b with
    | error a' =>
      rw [hb] at h
      cases h
      exact ⟨b, List.mem_cons_self, init, hb⟩
    | ok x =>
      rw [hb, Except.ok_bind] at h
      obtain ⟨b', hb', y, hy⟩ := Except.foldlM_error_mem g rest x a h
      exact ⟨b', List.mem_cons_of_mem _ hb', y, hy⟩

/-- Part way through a pass that started from bookkeeping `idx`: the bookkeeping holds with at
least the picks of `idx`, more once the pass progressed, and every candidate visited so far is
settled. -/
structure InPass (base : Ledger) (candidates : List Transaction) (params : LedgerParams)
    (maxTxs : Nat) (idx visited : List Nat) (a : Selection) : Prop where
  tracks : ∃ idx', Tracks base candidates params maxTxs a idx' ∧ idx.length ≤ idx'.length ∧
    (a.progressed = true → idx.length < idx'.length)
  settled : ∀ j ∈ visited, Settled candidates params a j

/-- A step of the pass keeps its bookkeeping and settles the candidate it looks at. -/
theorem InPass.step {idx visited : List Nat} {i : Nat} {a a' : Selection}
    (ha : InPass base candidates params maxTxs idx visited a) (hi : i ∈ feeOrder candidates)
    (hstep : selectStep candidates params maxTxs a i = .ok a') :
    InPass base candidates params maxTxs idx (visited ++ [i]) a' := by
  obtain ⟨⟨idx', ht, hle, hprog⟩, hset⟩ := ha
  have hi' := mem_feeOrder_iff.mp hi
  obtain ⟨idx'', ht', hmove⟩ := ht.step hi' hstep
  have hlen : i < a.done.length := by rw [ht.done_length]; exact hi'
  obtain ⟨hnew, hkeep⟩ := selectStep_settled hlen hstep
  refine ⟨⟨idx'', ht', ?_, ?_⟩, ?_⟩
  · rcases hmove with ⟨rfl, -⟩ | ⟨rfl, -⟩
    · exact hle
    · simp only [List.length_append, List.length_singleton]
      omega
  · intro hp
    rcases hmove with ⟨rfl, hsame⟩ | ⟨rfl, -⟩
    · exact hprog (hsame ▸ hp)
    · simp only [List.length_append, List.length_singleton]
      omega
  · intro j hj
    rcases List.mem_append.mp hj with hj | hj
    · exact hkeep j (hset j hj)
    · rw [List.mem_singleton.mp hj]
      exact hnew

/-- A pass keeps the bookkeeping and only adds picks, a pass that progressed picked something,
and a pass that neither stopped nor progressed leaves every candidate not done waiting. -/
theorem pass_ok {s s' : Selection} {idx : List Nat} (hs : Tracks base candidates params maxTxs s idx)
    (h : (feeOrder candidates).foldlM (selectStep candidates params maxTxs)
      { s with progressed := false } = .ok s') :
    ∃ idx', Tracks base candidates params maxTxs s' idx' ∧ idx.length ≤ idx'.length ∧
      (s'.progressed = true → idx.length < idx'.length) ∧
      (s'.stopped = false → s'.progressed = false →
        ∀ j < candidates.length, s'.done.getD j false = true ∨
          Waits params s'.scratch (candidates.getD j default)) := by
  have hstart : InPass base candidates params maxTxs idx [] { s with progressed := false } :=
    ⟨⟨idx, hs.withProgressed false, le_refl _, fun h => by cases h⟩, fun _ h => by cases h⟩
  obtain ⟨⟨idx', hs', hle, hprog⟩, hset⟩ :=
    Except.foldlM_prefix (InPass base candidates params maxTxs idx)
      (selectStep candidates params maxTxs) (feeOrder candidates) [] _ s'
      (fun _ _ _ _ hi ha hstep => ha.step hi hstep) hstart h
  -- a candidate settled by a pass that neither stopped nor progressed is done or waits
  refine ⟨idx', hs', hle, hprog, fun hstop hnone j hj => ?_⟩
  rcases hset j (mem_feeOrder_iff.mpr hj) with h | h | h | h
  · rw [hstop] at h
    cases h
  · rw [hnone] at h
    cases h
  · exact .inl h
  · exact .inr h

/-- A pass stops the run only at a candidate that carries the largest nonce. -/
theorem pass_error {s : Selection} {a : Abort}
    (h : (feeOrder candidates).foldlM (selectStep candidates params maxTxs)
      { s with progressed := false } = .error a) :
    ∃ t ∈ candidates, t.nonce = Word.max := by
  obtain ⟨i, hi, x, hx⟩ := Except.foldlM_error_mem _ _ _ _ h
  have hlt := mem_feeOrder_iff.mp hi
  refine ⟨candidates.getD i default, ?_, selectStep_error hx⟩
  rw [List.getD_eq_getElem?_getD, List.getElem?_eq_getElem hlt, Option.getD_some]
  exact List.getElem_mem hlt

/-- **Passes are bounded.** Once the fuel exceeds the candidates not yet picked, more fuel
gives the same run: each pass that goes on picked a new position. -/
theorem selectPasses_fuel_eq :
    ∀ (n m : Nat) (s : Selection) (idx : List Nat), Tracks base candidates params maxTxs s idx →
      candidates.length - idx.length < n → candidates.length - idx.length < m →
      selectPasses candidates params maxTxs (feeOrder candidates) n s =
        selectPasses candidates params maxTxs (feeOrder candidates) m s
  | 0, _, _, _, _, hn, _ => absurd hn (Nat.not_lt_zero _)
  | _, 0, _, _, _, _, hm => absurd hm (Nat.not_lt_zero _)
  | n + 1, m + 1, s, idx, hs, hn, hm => by
    rw [selectPasses_succ, selectPasses_succ]
    cases hpass : (feeOrder candidates).foldlM (selectStep candidates params maxTxs)
        { s with progressed := false } with
    | error a => rfl
    | ok s' =>
      simp only [Except.ok_bind]
      split
      · rfl
      · rename_i hgo
        simp only [Bool.or_eq_true, Bool.not_eq_true', not_or, Bool.not_eq_false] at hgo
        obtain ⟨idx', hs', -, hprog, -⟩ := pass_ok hs hpass
        have hmore := hprog (by simpa using hgo.2)
        have hbound := hs'.length_le
        exact selectPasses_fuel_eq n m s' idx' hs' (by omega) (by omega)

/-- The passes end in the bookkeeping, with every candidate not done waiting unless selection
stopped; or the run stops at a candidate carrying the largest nonce. -/
theorem selectPasses_result :
    ∀ (n : Nat) (s : Selection) (idx : List Nat), Tracks base candidates params maxTxs s idx →
      candidates.length - idx.length < n →
      (∃ s' idx', selectPasses candidates params maxTxs (feeOrder candidates) n s = .ok s' ∧
        Tracks base candidates params maxTxs s' idx' ∧
        (s'.stopped = false → ∀ j < candidates.length, s'.done.getD j false = true ∨
          Waits params s'.scratch (candidates.getD j default))) ∨
      (∃ a, selectPasses candidates params maxTxs (feeOrder candidates) n s = .error a ∧
        ∃ t ∈ candidates, t.nonce = Word.max)
  | 0, _, _, _, hn => absurd hn (Nat.not_lt_zero _)
  | n + 1, s, idx, hs, hn => by
    rw [selectPasses_succ]
    cases hpass : (feeOrder candidates).foldlM (selectStep candidates params maxTxs)
        { s with progressed := false } with
    | error a => exact .inr ⟨a, rfl, pass_error hpass⟩
    | ok s' =>
      simp only [Except.ok_bind]
      obtain ⟨idx', hs', -, hprog, hwait⟩ := pass_ok hs hpass
      split
      · -- the pass stopped selection or made no progress: the run ends with it
        rename_i hend
        refine .inl ⟨s', idx', rfl, hs', fun hstop => hwait hstop ?_⟩
        simpa [hstop] using hend
      · rename_i hgo
        simp only [Bool.or_eq_true, Bool.not_eq_true', not_or, Bool.not_eq_false] at hgo
        have hmore := hprog (by simpa using hgo.2)
        have hbound := hs'.length_le
        exact selectPasses_result n s' idx' hs' (by omega)

/-! ## What selection returns -/

/-- Why candidate `i` is not among `picked` (picked at positions `idx`): it failed with an
error other than a future nonce when it was tried; it still fails with a future nonce on the
ledger the picked transactions lead to; the block is full; or a candidate not picked no longer
fits the block's gas. -/
def LeftOut (base : Ledger) (candidates : List Transaction) (params : LedgerParams) (maxTxs : Nat)
    (picked : List Transaction) (idx : List Nat) (i : Nat) : Prop :=
  Dropped base candidates params picked i ∨
  (∃ l, Ledger.Applies params base picked l ∧ Waits params l (candidates.getD i default)) ∨
  picked.length = maxTxs ∨
  ∃ j < candidates.length, j ∉ idx ∧
    params.gas.blockGasLimit.toNat < params.gas.totalCost picked +
      (params.gas.cost (candidates.getD j default)).toNat

/-- A valid, bounded block body chosen from the candidates. -/
structure Selected (base : Ledger) (candidates : List Transaction) (params : LedgerParams)
    (maxTxs : Nat) (picked : List Transaction) : Prop where
  /-- Each candidate is picked at most once, and each one left out has its reason. -/
  positions : ∃ idx : List Nat, idx.Nodup ∧ (∀ i ∈ idx, i < candidates.length) ∧
    picked = idx.map (fun i => candidates.getD i default) ∧
    ∀ i < candidates.length, i ∉ idx → LeftOut base candidates params maxTxs picked idx i
  length_le : picked.length ≤ maxTxs
  /-- Applied in order to the base ledger, every picked transaction goes through. -/
  applies : ∃ l, Ledger.Applies params base picked l
  gas_le : params.gas.totalCost picked ≤ params.gas.blockGasLimit.toNat

/-- The bookkeeping at the end of the passes is a valid selection. -/
theorem Tracks.selected {s : Selection} {idx : List Nat}
    (hs : Tracks base candidates params maxTxs s idx)
    (hwait : s.stopped = false → ∀ j < candidates.length, s.done.getD j false = true ∨
      Waits params s.scratch (candidates.getD j default)) :
    Selected base candidates params maxTxs s.picked := by
  refine ⟨⟨idx, hs.nodup, hs.lt, hs.picked_eq, fun i hi hni => ?_⟩, hs.within,
    ⟨s.scratch, hs.applies⟩, by rw [← hs.used_eq]; exact hs.fits⟩
  cases hd : s.done.getD i false
  · cases hstop : s.stopped
    · rcases hwait hstop i hi with h | h
      · rw [hd] at h
        cases h
      · exact .inr (.inl ⟨s.scratch, hs.applies, h⟩)
    · rcases hs.stop hstop with hfull | ⟨j, hj, hnj, hover⟩
      · exact .inr (.inr (.inl hfull))
      · exact .inr (.inr (.inr ⟨j, hj, hnj, hs.used_eq ▸ hover⟩))
  · exact .inl (hs.dropped i hi hd hni)

end Passes

/-- **Transaction selection is bounded and valid.** Passes beyond the number of candidates
plus one never run: any more fuel gives the same result.  Selection returns each candidate at
most once and at most `maxTxs` of them; applied in order to the base ledger, each returned
transaction goes through; their gas fits the block; and a candidate is left out only if it
failed with an error other than a future nonce when tried, still fails with a future nonce
after the picked ones, or the block is full, or a candidate no longer fits its gas.  The run
stops instead only at a candidate carrying the largest nonce, whose account cannot advance. -/
theorem selection_bounded_valid (base : Ledger) (candidates : List Transaction)
    (params : LedgerParams) (maxTxs : Nat) :
    (∀ fuel, candidates.length + 1 ≤ fuel →
      selectPasses candidates params maxTxs (feeOrder candidates) fuel
          (Selection.start base candidates) =
        selectPasses candidates params maxTxs (feeOrder candidates) (candidates.length + 1)
          (Selection.start base candidates)) ∧
    ((∃ picked, selectTransactions base candidates params maxTxs = .ok picked ∧
        Selected base candidates params maxTxs picked) ∨
      ∃ a, selectTransactions base candidates params maxTxs = .error a ∧
        ∃ t ∈ candidates, t.nonce = Word.max) := by
  have hstart : Tracks base candidates params maxTxs (Selection.start base candidates) [] :=
    Tracks.start
  refine ⟨fun fuel hfuel => selectPasses_fuel_eq fuel _ _ [] hstart (by simp; omega)
    (by simp), ?_⟩
  rw [selectTransactions_eq]
  rcases selectPasses_result (candidates.length + 1) _ [] hstart (by simp) with
    ⟨s, idx, hrun, hs, hwait⟩ | ⟨a, hrun, hmax⟩
  · rw [hrun]
    exact .inl ⟨s.picked, rfl, hs.selected hwait⟩
  · rw [hrun]
    exact .inr ⟨a, rfl, hmax⟩

end StakeChain

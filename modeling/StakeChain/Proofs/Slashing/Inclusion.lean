import StakeChain.Proofs.Slashing.Rejections
import StakeChain.Proofs.Ledger.Consistency

/-!
# Which pending evidence a block can carry

A proposer puts the slashing manager's pending evidence into its block: the evidence verified at
submission and not yet applied in the head ledger.  Preparing the block begins it on the head
ledger and penalizes that evidence in order, and a penalty refuses an offender the ledger does
not register.  Submission checked the offender against the ledger it was given, and the pending
list does not check it again against the head.

What holds (`pending_evidence_included_iff_registered`): in every reachable manager the pending evidence
verifies, and preparing a block over it succeeds exactly when the head ledger registers every
offender.  Beginning a block and applying a penalty neither register nor drop a validator
(`isValidator_beginBlock`, `isValidator_applyPenalty`), so an offender the head does not register
stops the block at its evidence, and one it registers never does.
-/

set_option autoImplicit false

namespace StakeChain

theorem KeyMap.contains_modify {κ ν : Type} [Ord κ] [DecidableEq κ] [Std.TransOrd κ] [Std.LawfulEqOrd κ]
    (m : KeyMap κ ν) (k : κ) (f : ν → ν) (k' : κ) : (m.modify k f).contains k' = m.contains k' := by
  rw [KeyMap.modify_eq]
  cases hk : m.get? k with
  | none => rfl
  | some v =>
    simp only [KeyMap.contains_eq, KeyMap.get?_insert]
    split
    · rename_i hk'
      rw [hk', hk]
      rfl
    · rfl

/-- In a fold that goes through, each member of the list is taken by a step that goes through,
from a state that every earlier step kept `P` in. -/
theorem Except.foldlM_step_of_mem {ε α β : Type} (P : α → Prop) (g : α → β → Except ε α) :
    ∀ (xs : List β), (∀ a b a', b ∈ xs → P a → g a b = .ok a' → P a') →
      ∀ (init final : α), P init → xs.foldlM g init = .ok final →
        ∀ b ∈ xs, ∃ a a', P a ∧ g a b = .ok a'
  | [], _, _, _, _, _, b, hb => by cases hb
  | b :: rest, hstep, init, final, hinit, h, b', hb' => by
    rw [List.foldlM_cons] at h
    obtain ⟨a, ha, hrest⟩ := Except.bind_eq_ok h
    rcases List.mem_cons.mp hb' with rfl | hmem
    · exact ⟨init, a, hinit, ha⟩
    · exact Except.foldlM_step_of_mem P g rest
        (fun a b a' hb => hstep a b a' (List.mem_cons_of_mem _ hb)) a final
        (hstep init b a List.mem_cons_self hinit ha) hrest b' hmem

/-- A fold whose every step goes through from a state satisfying `P`, to one that does, goes
through, and so does any map of it. -/
theorem Except.map_foldlM_ok {ε α β γ : Type} (P : α → Prop) (g : α → β → Except ε α) (k : α → γ)
    (xs : List β) (hstep : ∀ b ∈ xs, ∀ a, P a → ∃ a', g a b = .ok a' ∧ P a') (init : α)
    (hinit : P init) : ∃ r, k <$> xs.foldlM g init = .ok r := by
  obtain ⟨final, hfold, -⟩ := Except.foldlM_ok P g xs hstep init hinit
  rw [hfold]
  exact ⟨_, rfl⟩

theorem List.exists_mem_zip_range {α : Type} {xs : List α} {x : α} (hx : x ∈ xs) :
    ∃ i, (i, x) ∈ (List.range xs.length).zip xs := by
  obtain ⟨i, hi, rfl⟩ := List.getElem_of_mem hx
  have hlen : i < ((List.range xs.length).zip xs).length := by simp [hi]
  exact ⟨i, by simpa using List.getElem_mem hlen⟩

namespace Ledger

/-! ## Registration across a block's start and its penalties -/

/-- A fold of steps that each keep the validator table keeps it. -/
theorem validators_foldl {β : Type} (f : Ledger → β → Ledger)
    (hf : ∀ l b, (f l b).validators = l.validators) :
    ∀ (bs : List β) (l : Ledger), (bs.foldl f l).validators = l.validators
  | [], _ => rfl
  | b :: rest, l => (validators_foldl f hf rest (f l b)).trans (hf l b)

theorem isValidator_beginBlock (l : Ledger) (height : UInt64) (a : Address) :
    (l.beginBlock height).isValidator a = l.isValidator a := by
  unfold beginBlock
  simp only [isValidator, KeyMap.contains_eq, KeyMap.get?_mapValues, Option.isSome_map]
  apply congrArg fun vs : KeyMap Address ValidatorRecord => (vs.get? a).isSome
  exact validators_foldl _ (fun _ _ => by rfl) _ _

section Penalty

variable {l l' : Ledger} {evidenceId : Digest} {offender : Address} {kind : EvidenceKind}
  {offenseHeight : UInt64} {params : LedgerParams} {height : UInt64} {o : PenaltyOutcome}

/-- A penalty is applied only to a registered offender, and it leaves the validator table as
it was or jails the offender in it, adding what it slashed to the record's total and the
infraction to its history. -/
theorem validators_applyPenalty
    (hp : l.applyPenalty evidenceId offender kind offenseHeight params height = .ok (l', o)) :
    l.isValidator offender = true ∧
      (l'.validators = l.validators ∨ ∃ jailedUntil slashed : UInt64,
        l'.validators = l.validators.modify offender fun r =>
          { r with status := .jailed jailedUntil
                   slashedTotal := Word.addSat r.slashedTotal slashed
                   infractions := r.infractions ++
                     [⟨evidenceId, kind, offenseHeight, height, slashed⟩] }) := by
  obtain ⟨hreg, ⟨-, rfl, -⟩ | ⟨_, _, l₁, l₂, l₃, _, s₃, -, -, -, hl₁, hcd, hcu, rfl, -⟩⟩ :=
    applyPenalty_cases hp
  · exact ⟨hreg, .inl rfl⟩
  have hv : l₃.validators = l.validators := by
    rw [cutUnbonding_frame hcu, cutDelegations_frame hcd, hl₁]
    rfl
  refine ⟨hreg, .inr ⟨Word.addSat height params.unbondingPeriod, s₃, ?_⟩⟩
  show l₃.validators.modify offender _ = _
  rw [hv]

theorem isValidator_applyPenalty
    (hp : l.applyPenalty evidenceId offender kind offenseHeight params height = .ok (l', o))
    (a : Address) : l'.isValidator a = l.isValidator a := by
  rcases (validators_applyPenalty hp).2 with hv | ⟨jailedUntil, slashed, hv⟩
  · rw [isValidator, hv]
    rfl
  · rw [isValidator, hv, KeyMap.contains_modify]
    rfl

end Penalty

/-- A penalty against a registered offender is applied. -/
theorem applyPenalty_ok_of_isValidator {l : Ledger} {offender : Address}
    (hreg : l.isValidator offender = true) (evidenceId : Digest) (kind : EvidenceKind)
    (offenseHeight : UInt64) (params : LedgerParams) (height : UInt64) :
    ∃ r, l.applyPenalty evidenceId offender kind offenseHeight params height = .ok r := by
  unfold applyPenalty
  rw [if_neg (by simp [hreg])]
  dsimp only
  split
  · exact ⟨_, rfl⟩
  · exact ⟨_, rfl⟩

/-- Verifying evidence is penalized exactly when the ledger registers its offender. -/
theorem penalize_ok_iff {l : Ledger} {e : Evidence} (hv : e.verify = .ok ()) (params : LedgerParams)
    (height : UInt64) :
    (∃ r, penalize l e params height = .ok r) ↔ l.isValidator e.offender = true := by
  simp only [penalize_eq_ok, hv, true_and]
  constructor
  · rintro ⟨r, hp⟩
    exact (validators_applyPenalty hp).1
  · intro hreg
    exact applyPenalty_ok_of_isValidator hreg e.id e.kind e.height params height

theorem isValidator_penalize {l l' : Ledger} {e : Evidence} {params : LedgerParams}
    {height : UInt64} {o : PenaltyOutcome} (h : penalize l e params height = .ok (l', o))
    (a : Address) : l'.isValidator a = l.isValidator a :=
  isValidator_applyPenalty (penalize_eq_ok.mp h).2 a

end Ledger

namespace SlashingManager

/-! ## Pending evidence verifies -/

/-- Every record marked verified holds evidence that verifies. -/
def VerifiedValid (records : KeyMap Digest EvidenceRecord) : Prop :=
  ∀ id r, records.get? id = some r → r.status = .verified → r.evidence.verify = .ok ()

theorem verifiedValid_empty : VerifiedValid .empty := by
  intro id r h
  simp at h

theorem VerifiedValid.insert {records : KeyMap Digest EvidenceRecord} (h : VerifiedValid records)
    (e : Evidence) (s : EvidenceStatus) (hs : s = .verified → e.verify = .ok ()) :
    VerifiedValid (records.insert e.id ⟨e, s⟩) := by
  intro id r hget hst
  rw [KeyMap.get?_insert] at hget
  split at hget
  · cases hget
    exact hs hst
  · exact h id r hget hst

/-- Marking the record at `id` penalized leaves it unverified, so only the other records need
to hold evidence that verifies. -/
theorem VerifiedValid.modify_penalized {records : KeyMap Digest EvidenceRecord} {id : Digest}
    (h : ∀ k r, k ≠ id → records.get? k = some r → r.status = .verified →
      r.evidence.verify = .ok ())
    (slashed newStake : UInt64) :
    VerifiedValid (records.modify id fun r => { r with status := .penalized slashed newStake }) := by
  intro k r hget hst
  by_cases hk : k = id
  · subst hk
    rw [KeyMap.modify_eq] at hget
    split at hget
    · rw [KeyMap.get?_insert_self] at hget
      cases hget
      cases hst
    · rename_i hnone
      rw [hnone] at hget
      cases hget
  · rw [KeyMap.modify_eq] at hget
    split at hget
    · rw [KeyMap.get?_insert_of_ne _ _ hk] at hget
      exact h k r hk hget hst
    · exact h k r hk hget hst

theorem VerifiedValid.markPenalized {m : SlashingManager} (h : VerifiedValid m.records)
    (id : Digest) (o : PenaltyOutcome) : VerifiedValid (m.markPenalized id o).records := by
  have h' : ∀ k r, k ≠ id → m.records.get? k = some r → r.status = .verified →
      r.evidence.verify = .ok () := fun k r _ => h k r
  unfold SlashingManager.markPenalized
  cases o with
  | applied _ slashed newStake _ => exact VerifiedValid.modify_penalized h' slashed newStake
  | alreadyApplied _ stake => exact VerifiedValid.modify_penalized h' 0 stake

/-- Evidence learned from a committed block is stored as verified only to be marked penalized
at once. -/
theorem VerifiedValid.recordCommitted {m : SlashingManager} (h : VerifiedValid m.records)
    (e : Evidence) (o : PenaltyOutcome) : VerifiedValid (m.recordCommitted e o).records := by
  have hother : ∀ k r, k ≠ e.id →
      (if m.records.contains e.id then m.records
        else m.records.insert e.id ⟨e, .verified⟩).get? k = some r →
      r.status = .verified → r.evidence.verify = .ok () := by
    intro k r hk hget
    split at hget
    · exact h k r hget
    · rw [KeyMap.get?_insert_of_ne _ _ hk] at hget
      exact h k r hget
  unfold SlashingManager.recordCommitted SlashingManager.markPenalized
  cases o with
  | applied _ slashed newStake _ => exact VerifiedValid.modify_penalized hother slashed newStake
  | alreadyApplied _ stake => exact VerifiedValid.modify_penalized hother 0 stake

/-- A submission either leaves the records as they are or stores its evidence under its id,
as verified only when it verifies. -/
theorem submit_records_verified (m : SlashingManager) (e : Evidence) (l : Ledger) :
    (m.submit e l).1.records = m.records ∨
      ∃ s, (m.submit e l).1.records = m.records.insert e.id ⟨e, s⟩ ∧
        (s = .verified → e.verify = .ok ()) := by
  rcases submit_cases m e l with ⟨heq, -⟩ | ⟨-, r, -, heq⟩ | ⟨-, hv, -, heq⟩
  · rw [heq]
    exact .inl rfl
  · rw [heq]
    exact .inr ⟨_, rfl, fun hs => by cases hs⟩
  · rw [heq]
    exact .inr ⟨_, rfl, fun _ => hv⟩

theorem VerifiedValid.applyPenalty {m m' : SlashingManager} {l l' : Ledger} {id : Digest}
    {params : LedgerParams} {height stake : UInt64} (h : VerifiedValid m.records)
    (hap : m.applyPenalty id l params height = .ok (m', l', stake)) : VerifiedValid m'.records := by
  unfold SlashingManager.applyPenalty at hap
  split at hap
  · cases hap
  · split at hap
    · obtain ⟨⟨l₁, o⟩, -, hok⟩ := Except.bind_eq_ok hap
      simp only [pure, Except.pure, Except.ok.injEq, Prod.mk.injEq] at hok
      rw [← hok.1]
      exact h.markPenalized id o
    · simp only [Except.ok.injEq, Prod.mk.injEq] at hap
      rw [← hap.1]
      exact h
    · cases hap

theorem VerifiedValid.step {m m' : SlashingManager} (h : VerifiedValid m.records)
    (hstep : Step m m') : VerifiedValid m'.records := by
  cases hstep with
  | submit e l =>
    rcases submit_records_verified m e l with heq | ⟨s, heq, hs⟩
    · rw [heq]
      exact h
    · rw [heq]
      exact h.insert e s hs
  | applyPenalty hap => exact h.applyPenalty hap
  | markPenalized id o => exact h.markPenalized id o
  | recordCommitted e o => exact h.recordCommitted e o

theorem Reachable.verifiedValid {m : SlashingManager} (h : m.Reachable) :
    VerifiedValid m.records := by
  induction h with
  | refl => exact verifiedValid_empty
  | tail _ hstep ih => exact ih.step hstep

/-- Pending evidence is the evidence of a verified record. -/
theorem mem_pending {m : SlashingManager} {l : Ledger} {max : Nat} {e : Evidence}
    (he : e ∈ m.pending l max) :
    ∃ id r, m.records.get? id = some r ∧ r.status = .verified ∧ r.evidence = e := by
  unfold pending at he
  obtain ⟨id, -, hid⟩ := List.mem_filterMap.mp (List.mem_of_mem_take he)
  split at hid
  · rename_i r hr
    split at hid
    · rename_i hst
      cases hid
      exact ⟨id, r, hr, hst, rfl⟩
    · cases hid
  · cases hid

theorem Reachable.pending_verifies {m : SlashingManager} (hm : m.Reachable) {l : Ledger}
    {max : Nat} {e : Evidence} (he : e ∈ m.pending l max) : e.verify = .ok () := by
  obtain ⟨id, r, hr, hst, rfl⟩ := mem_pending he
  exact hm.verifiedValid id r hr hst

/-- Two pending pieces of evidence with one id are one: each is stored under its own id. -/
theorem Reachable.pending_id_inj {m : SlashingManager} (hm : m.Reachable) {l : Ledger}
    {max : Nat} {e e' : Evidence} (he : e ∈ m.pending l max) (he' : e' ∈ m.pending l max)
    (hid : e.id = e'.id) : e = e' := by
  obtain ⟨id, r, hr, -, rfl⟩ := mem_pending he
  obtain ⟨id', r', hr', -, rfl⟩ := mem_pending he'
  have hsame : id = id' := by
    rw [← (hm.recordsSound id r hr).1, ← (hm.recordsSound id' r' hr').1, hid]
  subst hsame
  rw [hr] at hr'
  cases hr'
  rfl

end SlashingManager

open Ledger

/-! ## Preparing a block over verified evidence -/

/-- Preparing a block over evidence that verifies, where equal ids mean equal evidence, succeeds
exactly when the parent ledger registers every offender. -/
theorem prepareBlock_ok_iff {prev : Ledger} {height : UInt64} {evidence : List Evidence}
    {params : LedgerParams} (hv : ∀ e ∈ evidence, e.verify = .ok ())
    (hid : ∀ e ∈ evidence, ∀ e' ∈ evidence, e.id = e'.id → e = e') :
    (∃ r, prepareBlock prev height evidence params = .ok r) ↔
      ∀ e ∈ evidence, prev.isValidator e.offender = true := by
  rw [prepareBlock_eq]
  constructor
  · rintro ⟨r, hr⟩
    obtain ⟨acc, hfold, -⟩ := Except.map_eq_ok hr
    -- the ledger keeps the parent's registrations, and every id taken was a registered
    -- offender's
    have key := Except.foldlM_step_of_mem
      (fun acc : Ledger × List (Evidence × PenaltyOutcome) × List Digest =>
        (∀ a, acc.1.isValidator a = prev.isValidator a) ∧
          ∀ id ∈ acc.2.2, ∃ e ∈ evidence, e.id = id ∧ prev.isValidator e.offender = true) _ _
      (by
        rintro ⟨l₁, ps₁, seen⟩ ⟨i, e⟩ a' hmem ⟨hreg, hseen⟩ hstep
        rcases penaltyStep_eq_ok hstep with ⟨-, rfl⟩ | ⟨-, l₂, o, hpen, rfl⟩
        · exact ⟨hreg, hseen⟩
        have he := (List.of_mem_zip hmem).2
        have hoff : prev.isValidator e.offender = true := by
          rw [← hreg]
          exact (penalize_ok_iff (hv e he) params height).mp ⟨_, hpen⟩
        refine ⟨fun a => (isValidator_penalize hpen a).trans (hreg a), fun id hmem' => ?_⟩
        rcases List.mem_append.mp hmem' with hold | hnew
        · exact hseen id hold
        · rw [List.mem_singleton] at hnew
          exact ⟨e, he, hnew.symm, hoff⟩)
      _ _ ⟨fun a => isValidator_beginBlock prev height a, fun _ h => by simp at h⟩ hfold
    intro e he
    obtain ⟨i, hi⟩ := List.exists_mem_zip_range he
    obtain ⟨⟨l₁, ps₁, seen⟩, a', ⟨hreg, hseen⟩, hstep⟩ := key _ hi
    rcases penaltyStep_eq_ok hstep with ⟨hcont, -⟩ | ⟨-, l₂, o, hpen, -⟩
    · -- a repeated id was taken before, by the same evidence
      obtain ⟨e', he', hid', hoff⟩ := hseen e.id (List.contains_iff_mem.mp hcont)
      rw [← hid e' he' e he hid']
      exact hoff
    · rw [← hreg]
      exact (penalize_ok_iff (hv e he) params height).mp ⟨_, hpen⟩
  · intro hreg
    -- every step keeps the parent's registrations, so every offender is found registered
    refine Except.map_foldlM_ok
      (fun acc : Ledger × List (Evidence × PenaltyOutcome) × List Digest =>
        ∀ a, acc.1.isValidator a = prev.isValidator a) _ _ _ ?_ _ ?_
    · rintro ⟨i, e⟩ hmem ⟨l₁, ps₁, seen⟩ hl₁
      have he := (List.of_mem_zip hmem).2
      unfold penaltyStep
      dsimp only
      split
      · exact ⟨_, rfl, hl₁⟩
      · obtain ⟨⟨l₂, o⟩, hpen⟩ := (penalize_ok_iff (hv e he) params height).mpr
          ((hl₁ e.offender).trans (hreg e he))
        rw [hpen]
        exact ⟨_, rfl, fun a => (isValidator_penalize hpen a).trans (hl₁ a)⟩
    · exact fun a => isValidator_beginBlock prev height a

/-- In every reachable manager, the pending evidence verifies and is penalized after the next
block begins exactly when the head ledger registers its offender; preparing a block over all of
it succeeds exactly when the head registers every offender. -/
theorem pending_evidence_included_iff_registered {m : SlashingManager} (hm : m.Reachable)
    (head : Ledger) (max : Nat) (height : UInt64) (params : LedgerParams) :
    (∀ e ∈ m.pending head max, e.verify = .ok () ∧
      ((∃ r, penalize (head.beginBlock height) e params height = .ok r) ↔
        head.isValidator e.offender = true)) ∧
    ((∃ r, prepareBlock head height (m.pending head max) params = .ok r) ↔
      ∀ e ∈ m.pending head max, head.isValidator e.offender = true) := by
  refine ⟨fun e he => ⟨hm.pending_verifies he, ?_⟩, prepareBlock_ok_iff
    (fun _ he => hm.pending_verifies he) (fun _ he _ he' hid => hm.pending_id_inj he he' hid)⟩
  rw [penalize_ok_iff (hm.pending_verifies he), isValidator_beginBlock]

/-- The ledger in which the development key `slash-v` is bonded at genesis. -/
def slashBonded : Ledger :=
  LedgerOp.orKeep {} (({} : Ledger).bondGenesis (Keypair.ofLabel "slash-v").publicKey 1000)

/-- The double vote of `slash-v`, submitted while `slash-v` is bonded, is pending against the
empty ledger, which does not register it: preparing a block over it there fails. -/
theorem pending_evidence_included_iff_registered_after_revert :
    (({} : SlashingManager).submit slashDoubleVote slashBonded).1.Reachable ∧
      (({} : SlashingManager).submit slashDoubleVote slashBonded).1.pending {} 8 =
        [slashDoubleVote] ∧
      ({} : Ledger).isValidator slashDoubleVote.offender = false ∧
      ((∀ e ∈ (({} : SlashingManager).submit slashDoubleVote slashBonded).1.pending {} 8,
          e.verify = .ok () ∧
          ((∃ r, penalize (({} : Ledger).beginBlock 1) e {} 1 = .ok r) ↔
            ({} : Ledger).isValidator e.offender = true)) ∧
        ((∃ r, prepareBlock {} 1
            ((({} : SlashingManager).submit slashDoubleVote slashBonded).1.pending {} 8) {} =
              .ok r) ↔
          ∀ e ∈ (({} : SlashingManager).submit slashDoubleVote slashBonded).1.pending {} 8,
            ({} : Ledger).isValidator e.offender = true)) := by
  have hreach : (({} : SlashingManager).submit slashDoubleVote slashBonded).1.Reachable :=
    Relation.ReflTransGen.single (.submit {} slashDoubleVote slashBonded)
  have hpending : (({} : SlashingManager).submit slashDoubleVote slashBonded).1.pending {} 8 =
      [slashDoubleVote] := by
    decide +kernel
  exact ⟨hreach, hpending, rfl,
    pending_evidence_included_iff_registered hreach {} 8 1 {}⟩

end StakeChain

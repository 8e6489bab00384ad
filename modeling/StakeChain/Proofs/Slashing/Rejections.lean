import StakeChain.Proofs.KeyMap
import StakeChain.Proofs.Steps
import StakeChain.Slashing

/-!
# What a stored rejection says

The slashing manager keeps one record per evidence id and answers a submission whose id holds
a rejection with that rejection, before it looks at the evidence. An evidence id hashes the kind
and the ids of the two artifacts, and an artifact id leaves its signature out, so a copy of valid
evidence with a signature spoiled has the id of the valid evidence: submitted first, it is
rejected as invalid, and the valid evidence is then refused with the same rejection
(`submit_forged_copy_rejects_valid_evidence`).

What the records do guarantee (`RecordsSound`): every record is stored under the id of its own
evidence, and a record rejected as invalid holds evidence that fails verification for that
reason. Every manager reachable from the empty one through submissions, applied and marked
penalties and evidence learned from committed blocks keeps this (`Reachable.recordsSound`).
So verifying evidence is refused as invalid only when the manager holds, under its id, another
evidence with that id which failed verification, and the refusal changes nothing
(`submit_valid_rejected_invalid`).
-/

set_option autoImplicit false

namespace StakeChain

namespace SlashingManager

/-- Every record is stored under the id of its own evidence, and a record rejected as invalid
holds evidence that fails verification for that reason. -/
def RecordsSound (records : KeyMap Digest EvidenceRecord) : Prop :=
  ∀ id r, records.get? id = some r →
    r.evidence.id = id ∧ ∀ err, r.status = .rejected (.invalid err) → r.evidence.verify = .error err

theorem recordsSound_empty : RecordsSound .empty := by
  intro id r h
  simp at h

/-- A record stored under its own id keeps the records sound, when it is rejected as invalid
only for a reason its evidence fails with. -/
theorem RecordsSound.insert {records : KeyMap Digest EvidenceRecord} (h : RecordsSound records)
    (e : Evidence) (s : EvidenceStatus)
    (hs : ∀ err, s = .rejected (.invalid err) → e.verify = .error err) :
    RecordsSound (records.insert e.id ⟨e, s⟩) := by
  intro id r hget
  rw [KeyMap.get?_insert] at hget
  split at hget
  · rename_i hid
    cases hget
    exact ⟨hid.symm, hs⟩
  · exact h id r hget

/-- Marking a record penalized keeps its evidence and gives it a status that is no rejection. -/
theorem RecordsSound.modify_penalized {records : KeyMap Digest EvidenceRecord}
    (h : RecordsSound records) (id : Digest) (slashed newStake : UInt64) :
    RecordsSound (records.modify id fun r => { r with status := .penalized slashed newStake }) := by
  intro id' r hget
  rw [KeyMap.modify_eq] at hget
  split at hget
  · rename_i r₀ hr₀
    rw [KeyMap.get?_insert] at hget
    split at hget
    · rename_i hid
      cases hget
      subst hid
      exact ⟨(h id' r₀ hr₀).1, fun err hs => by cases hs⟩
    · exact h id' r hget
  · exact h id' r hget

/-- The offense evidence is about: its offender at its height. -/
def offenseOf (e : Evidence) : Offense := ⟨e.offender, e.height⟩

/-- What a submission does: answer with the rejection its id holds, or refuse a known id as a
duplicate, changing nothing; store its evidence, rejected, under an id no record held, as
invalid only for the reason the evidence fails with; or accept evidence that verifies under
that id, record its offense, which no evidence held, and queue it. -/
theorem submit_cases (m : SlashingManager) (e : Evidence) (l : Ledger) :
    ((m.submit e l).1 = m ∧ ∃ r, (m.submit e l).2 = .rejected r ∧
      (m.status e.id = some (.rejected r) ∨ r = .duplicate)) ∨
    (m.records.contains e.id = false ∧ ∃ r, (∀ err, r = .invalid err → e.verify = .error err) ∧
      m.submit e l = ({ m with records := m.records.insert e.id ⟨e, .rejected r⟩ }, .rejected r)) ∨
    (m.records.contains e.id = false ∧ e.verify = .ok () ∧ m.offenses.get? (offenseOf e) = none ∧
      m.submit e l = (⟨m.records.insert e.id ⟨e, .verified⟩, m.offenses.insert (offenseOf e) e.id,
        m.queue ++ [e.id]⟩, .accepted e.id)) := by
  unfold submit
  dsimp only
  split
  · rename_i r hstatus
    exact .inl ⟨rfl, r, rfl, .inl hstatus⟩
  split
  · exact .inl ⟨rfl, _, rfl, .inr rfl⟩
  rename_i hknown
  have hfresh : m.records.contains e.id = false := by
    simp only [Bool.or_eq_true, not_or, Bool.not_eq_true] at hknown
    exact hknown.1
  split
  · rename_i err hbad
    refine .inr (.inl ⟨hfresh, _, ?_, rfl⟩)
    rintro err' ⟨⟩
    exact hbad
  rename_i hv
  split
  · refine .inr (.inl ⟨hfresh, _, ?_, rfl⟩)
    rintro err' ⟨⟩
  split
  · refine .inr (.inl ⟨hfresh, _, ?_, rfl⟩)
    rintro err' ⟨⟩
  rename_i hnone
  exact .inr (.inr ⟨hfresh, hv, hnone, rfl⟩)

/-- A submission either leaves the records as they are or stores its evidence under its id,
rejected as invalid only for the reason the evidence fails with. -/
theorem submit_records (m : SlashingManager) (e : Evidence) (l : Ledger) :
    (m.submit e l).1.records = m.records ∨
      ∃ s, (m.submit e l).1.records = m.records.insert e.id ⟨e, s⟩ ∧
        ∀ err, s = .rejected (.invalid err) → e.verify = .error err := by
  rcases submit_cases m e l with ⟨heq, -⟩ | ⟨-, r, hr, heq⟩ | ⟨-, -, -, heq⟩
  · rw [heq]
    exact .inl rfl
  · rw [heq]
    exact .inr ⟨_, rfl, fun err hs => by cases hs; exact hr err rfl⟩
  · rw [heq]
    exact .inr ⟨_, rfl, fun err hs => by cases hs⟩

theorem RecordsSound.markPenalized {m : SlashingManager} (h : RecordsSound m.records)
    (id : Digest) (o : PenaltyOutcome) : RecordsSound (m.markPenalized id o).records := by
  unfold SlashingManager.markPenalized
  cases o with
  | applied _ slashed newStake _ => exact h.modify_penalized id slashed newStake
  | alreadyApplied _ stake => exact h.modify_penalized id 0 stake

theorem RecordsSound.recordCommitted {m : SlashingManager} (h : RecordsSound m.records)
    (e : Evidence) (o : PenaltyOutcome) : RecordsSound (m.recordCommitted e o).records := by
  unfold SlashingManager.recordCommitted
  apply RecordsSound.markPenalized
  show RecordsSound (if m.records.contains e.id then m.records else _)
  split
  · exact h
  · exact h.insert e .verified fun err hs => by cases hs

theorem RecordsSound.applyPenalty {m m' : SlashingManager} {l l' : Ledger} {id : Digest}
    {params : LedgerParams} {height stake : UInt64} (h : RecordsSound m.records)
    (hap : m.applyPenalty id l params height = .ok (m', l', stake)) : RecordsSound m'.records := by
  unfold SlashingManager.applyPenalty at hap
  split at hap
  · cases hap
  · split at hap
    · -- a verified record: the penalty is applied and the record marked
      obtain ⟨⟨l₁, o⟩, -, hok⟩ := Except.bind_eq_ok hap
      simp only [pure, Except.pure, Except.ok.injEq, Prod.mk.injEq] at hok
      rw [← hok.1]
      exact h.markPenalized id o
    · simp only [Except.ok.injEq, Prod.mk.injEq] at hap
      rw [← hap.1]
      exact h
    · cases hap

/-- The changes a manager goes through: evidence submitted against a ledger, a penalty applied
or marked, evidence learned from a committed block. -/
inductive Step : SlashingManager → SlashingManager → Prop
  | submit (m : SlashingManager) (e : Evidence) (l : Ledger) : Step m (m.submit e l).1
  | applyPenalty {m m' : SlashingManager} {l l' : Ledger} {id : Digest} {params : LedgerParams}
      {height stake : UInt64} : m.applyPenalty id l params height = .ok (m', l', stake) → Step m m'
  | markPenalized (m : SlashingManager) (id : Digest) (o : PenaltyOutcome) :
      Step m (m.markPenalized id o)
  | recordCommitted (m : SlashingManager) (e : Evidence) (o : PenaltyOutcome) :
      Step m (m.recordCommitted e o)

/-- The managers reachable from the empty one. -/
def Reachable (m : SlashingManager) : Prop := Relation.ReflTransGen Step {} m

theorem RecordsSound.step {m m' : SlashingManager} (h : RecordsSound m.records)
    (hstep : Step m m') : RecordsSound m'.records := by
  cases hstep with
  | submit e l =>
    rcases submit_records m e l with heq | ⟨s, heq, hs⟩
    · rw [heq]
      exact h
    · rw [heq]
      exact h.insert e s hs
  | applyPenalty hap => exact h.applyPenalty hap
  | markPenalized id o => exact h.markPenalized id o
  | recordCommitted e o => exact h.recordCommitted e o

/-- Every reachable manager stores each record under its evidence's id, and each rejection as
invalid with evidence that fails for that reason. -/
theorem Reachable.recordsSound {m : SlashingManager} (h : m.Reachable) : RecordsSound m.records := by
  induction h with
  | refl => exact recordsSound_empty
  | tail _ hstep ih => exact ih.step hstep

/-- Verifying evidence is refused as invalid only by a stored rejection: then the manager is
unchanged and its status under the evidence's id is that rejection. -/
theorem submit_verified_rejected_invalid {m : SlashingManager} {e : Evidence} {l : Ledger}
    {err : EvidenceError} (hv : e.verify = .ok ()) (h : (m.submit e l).2 = .rejected (.invalid err)) :
    m.status e.id = some (.rejected (.invalid err)) ∧ (m.submit e l).1 = m := by
  rcases submit_cases m e l with ⟨heq, r, hout, hstatus | rfl⟩ | ⟨-, r, hr, heq⟩ | ⟨-, -, -, heq⟩
  · rw [hout] at h
    cases h
    exact ⟨hstatus, heq⟩
  · rw [hout] at h
    cases h
  · -- a stored rejection as invalid needs evidence that fails
    rw [heq] at h
    cases h
    rw [hr err rfl] at hv
    cases hv
  · rw [heq] at h
    cases h

/-- **A rejection as invalid of verifying evidence comes from a forged copy.** In a reachable
manager, verifying evidence is refused as invalid only when the manager holds, under its id,
evidence with that id which fails verification for that reason; the refusal changes nothing. -/
theorem submit_valid_rejected_invalid {m : SlashingManager} (hm : m.Reachable) {e : Evidence}
    {l : Ledger} {err : EvidenceError} (hv : e.verify = .ok ())
    (h : (m.submit e l).2 = .rejected (.invalid err)) :
    (∃ e₁, m.records.get? e.id = some ⟨e₁, .rejected (.invalid err)⟩ ∧ e₁.id = e.id ∧
      e₁.verify = .error err) ∧ (m.submit e l).1 = m := by
  obtain ⟨hstatus, hsame⟩ := submit_verified_rejected_invalid hv h
  obtain ⟨r, hget, hr⟩ := Option.map_eq_some_iff.mp hstatus
  obtain ⟨hid, hbad⟩ := hm.recordsSound e.id r hget
  refine ⟨⟨r.evidence, ?_, hid, hbad err hr⟩, hsame⟩
  rw [hget, ← hr]

end SlashingManager

/-! ## A forged copy -/

/-- The double vote of the development key `slash-v` at height 1, for the blocks whose hashes
are the digests of `a` and `b`. -/
def slashDoubleVote : Evidence :=
  Evidence.ofVotes (Vote.signWith (Keypair.ofLabel "slash-v") 1 (Digest.ofText "a"))
    (Vote.signWith (Keypair.ofLabel "slash-v") 1 (Digest.ofText "b"))

/-- The same double vote with the second vote's signature replaced by zeros. -/
def forgedDoubleVote : Evidence :=
  Evidence.ofVotes (Vote.signWith (Keypair.ofLabel "slash-v") 1 (Digest.ofText "a"))
    { Vote.signWith (Keypair.ofLabel "slash-v") 1 (Digest.ofText "b") with
      signature := List.replicate 64 0 }

/-- The forged copy has the id of the double vote, the double vote verifies and the copy does
not. -/
theorem forgedDoubleVote_facts :
    forgedDoubleVote.id = slashDoubleVote.id ∧ slashDoubleVote.verify = .ok () ∧
      forgedDoubleVote.verify = .error .badSignature := by
  decide +kernel

/-- The empty manager rejects the forged copy as invalid. -/
theorem submit_forgedDoubleVote (l : Ledger) (hl : l.evidenceApplied forgedDoubleVote.id = false) :
    ({} : SlashingManager).submit forgedDoubleVote l =
      (⟨KeyMap.empty.insert forgedDoubleVote.id ⟨forgedDoubleVote, .rejected (.invalid .badSignature)⟩,
        .empty, []⟩, .rejected (.invalid .badSignature)) := by
  simp [SlashingManager.submit, SlashingManager.status, SlashingManager.reject, hl,
    forgedDoubleVote_facts.2.2, KeyMap.contains_eq]

/-- After the forged copy, the double vote finds the copy's rejection under its own id. -/
theorem submit_slashDoubleVote_after_forgery :
    ((({} : SlashingManager).submit forgedDoubleVote {}).1.submit slashDoubleVote {}).2 =
      .rejected (.invalid .badSignature) := by
  rw [submit_forgedDoubleVote {} rfl]
  simp [SlashingManager.submit, SlashingManager.status, ← forgedDoubleVote_facts.1]

/-- Valid evidence submitted after a forged copy of it is refused as invalid. -/
theorem submit_forged_copy_rejects_valid_evidence :
    forgedDoubleVote.id = slashDoubleVote.id ∧ slashDoubleVote.verify = .ok () ∧
      ((({} : SlashingManager).submit forgedDoubleVote {}).1.submit slashDoubleVote {}).2 =
        .rejected (.invalid .badSignature) :=
  ⟨forgedDoubleVote_facts.1, forgedDoubleVote_facts.2.1, submit_slashDoubleVote_after_forgery⟩

/-- After the forged copy, the manager holds the copy under the double vote's id, and the
double vote is refused as invalid. -/
theorem submit_valid_rejected_invalid_after_forgery :
    (({} : SlashingManager).submit forgedDoubleVote {}).1.Reachable ∧
      slashDoubleVote.verify = .ok () ∧
      ((({} : SlashingManager).submit forgedDoubleVote {}).1.submit slashDoubleVote {}).2 =
        .rejected (.invalid .badSignature) ∧
      ((∃ e₁, (({} : SlashingManager).submit forgedDoubleVote {}).1.records.get? slashDoubleVote.id =
          some ⟨e₁, .rejected (.invalid .badSignature)⟩ ∧ e₁.id = slashDoubleVote.id ∧
          e₁.verify = .error .badSignature) ∧
        ((({} : SlashingManager).submit forgedDoubleVote {}).1.submit slashDoubleVote {}).1 =
          (({} : SlashingManager).submit forgedDoubleVote {}).1) := by
  have hreach : (({} : SlashingManager).submit forgedDoubleVote {}).1.Reachable :=
    Relation.ReflTransGen.single (.submit {} forgedDoubleVote {})
  have hv := forgedDoubleVote_facts.2.1
  have hrej := submit_slashDoubleVote_after_forgery
  exact ⟨hreach, hv, hrej, SlashingManager.submit_valid_rejected_invalid hreach hv hrej⟩

end StakeChain

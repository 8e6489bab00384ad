import StakeChain.Proofs.Slashing.Inclusion
import StakeChain.Proofs.Ledger.Offenses

/-!
# The slashing manager's books

The manager keeps three tables: the records of the evidence it knows, by id; the offenses it
has accepted evidence for, each with the id that was accepted; and the queue of verified ids.
A run reaches a manager together with the ids its submissions accepted, in order (`History`;
the managers with a history are the reachable ones, `History.reachable`, `Reachable.history`).

The books agree (`Books`): the queue is the accepted ids whose record is still verified, in
the order they were accepted, every accepted id keeps its record, and every verified record
has its offense recorded under its own id.  Each operation keeps this: a submission leaves the
manager as it was, stores a fresh id as rejected, or accepts a fresh id whose offense nothing
recorded (`submit_cases`); marking a penalty and learning evidence from a block retire one id
(`Books.retire`).  So the queue never repeats an id and holds exactly the verified ids, and no
two verified records share an offense (`slashing_books_consistent`).

Two facts hold of every manager, reachable or not: a penalized record stays penalized under
every operation (`Step.keeps_penalized`), and a submission whose id holds a rejection answers
with that rejection and changes nothing (`submit_of_rejected`).
-/

set_option autoImplicit false

namespace StakeChain

namespace SlashingManager

/-- The id a submission accepted, if it accepted one. -/
def acceptedIds : SubmitOutcome → List Digest
  | .accepted id => [id]
  | .rejected _ => []

/-- `History m acc`: a run from the empty manager reaches `m`, and `acc` lists the ids its
submissions accepted, in the order they were accepted. -/
inductive History : SlashingManager → List Digest → Prop
  | empty : History {} []
  | submit {m : SlashingManager} {acc : List Digest} (e : Evidence) (l : Ledger) :
      History m acc → History (m.submit e l).1 (acc ++ acceptedIds (m.submit e l).2)
  | applyPenalty {m m' : SlashingManager} {acc : List Digest} {l l' : Ledger} {id : Digest}
      {params : LedgerParams} {height stake : UInt64} :
      History m acc → m.applyPenalty id l params height = .ok (m', l', stake) → History m' acc
  | markPenalized {m : SlashingManager} {acc : List Digest} (id : Digest) (o : PenaltyOutcome) :
      History m acc → History (m.markPenalized id o) acc
  | recordCommitted {m : SlashingManager} {acc : List Digest} (e : Evidence) (o : PenaltyOutcome) :
      History m acc → History (m.recordCommitted e o) acc

theorem History.reachable {m : SlashingManager} {acc : List Digest} (h : History m acc) :
    m.Reachable := by
  induction h with
  | empty => exact .refl
  | submit e l _ ih => exact ih.tail (.submit _ e l)
  | applyPenalty _ hap ih => exact ih.tail (.applyPenalty hap)
  | markPenalized id o _ ih => exact ih.tail (.markPenalized _ id o)
  | recordCommitted e o _ ih => exact ih.tail (.recordCommitted _ e o)

theorem Reachable.history {m : SlashingManager} (h : m.Reachable) : ∃ acc, History m acc := by
  induction h with
  | refl => exact ⟨[], .empty⟩
  | tail _ hstep ih =>
    obtain ⟨acc, hacc⟩ := ih
    cases hstep with
    | submit e l => exact ⟨_, hacc.submit e l⟩
    | applyPenalty hap => exact ⟨acc, hacc.applyPenalty hap⟩
    | markPenalized id o => exact ⟨acc, hacc.markPenalized id o⟩
    | recordCommitted e o => exact ⟨acc, hacc.recordCommitted e o⟩

/-! ## What each operation does to the tables -/

/-- A submission whose id holds a rejection answers with it and changes nothing. -/
theorem submit_of_rejected {m : SlashingManager} {e : Evidence} {r : RejectReason}
    (h : m.status e.id = some (.rejected r)) (l : Ledger) : m.submit e l = (m, .rejected r) := by
  unfold submit
  simp only [h]

theorem status_markPenalized_self (m : SlashingManager) (id : Digest) (o : PenaltyOutcome) :
    ∀ r, (m.markPenalized id o).records.get? id = some r → ∃ s n, r.status = .penalized s n := by
  intro r hr
  unfold markPenalized at hr
  dsimp only at hr
  rw [KeyMap.modify_eq] at hr
  split at hr
  · rw [KeyMap.get?_insert_self] at hr
    cases hr
    cases o <;> exact ⟨_, _, rfl⟩
  · rename_i hnone
    rw [hnone] at hr
    cases hr

theorem get?_markPenalized_of_ne (m : SlashingManager) {id id' : Digest} (o : PenaltyOutcome)
    (hne : id' ≠ id) : (m.markPenalized id o).records.get? id' = m.records.get? id' := by
  unfold markPenalized
  dsimp only
  rw [KeyMap.modify_eq]
  split
  · exact KeyMap.get?_insert_of_ne _ _ hne
  · rfl

theorem contains_markPenalized (m : SlashingManager) (id id' : Digest) (o : PenaltyOutcome) :
    (m.markPenalized id o).records.contains id' = m.records.contains id' :=
  KeyMap.contains_modify _ _ _ _

/-- Learning committed evidence marks its id penalized on top of the manager with the id and
its offense recorded where they were not. -/
theorem recordCommitted_eq (m : SlashingManager) (e : Evidence) (o : PenaltyOutcome) :
    m.recordCommitted e o = SlashingManager.markPenalized
      { records := if m.records.contains e.id then m.records
          else m.records.insert e.id ⟨e, .verified⟩
        offenses := if m.offenses.contains (offenseOf e) then m.offenses
          else m.offenses.insert (offenseOf e) e.id
        queue := m.queue } e.id o := rfl

/-- An applied penalty leaves the manager as it was or marks the id penalized. -/
theorem applyPenalty_cases {m m' : SlashingManager} {l l' : Ledger} {id : Digest}
    {params : LedgerParams} {height stake : UInt64}
    (h : m.applyPenalty id l params height = .ok (m', l', stake)) :
    m' = m ∨ ∃ o, m' = m.markPenalized id o := by
  unfold applyPenalty at h
  split at h
  · cases h
  split at h
  · obtain ⟨⟨l₁, o⟩, -, hok⟩ := Except.bind_eq_ok h
    simp only [pure, Except.pure, Except.ok.injEq, Prod.mk.injEq] at hok
    exact .inr ⟨o, hok.1.symm⟩
  · simp only [Except.ok.injEq, Prod.mk.injEq] at h
    exact .inl h.1.symm
  · cases h

/-! ## Penalized is final -/

/-- Whether the manager holds a penalized record under an id. -/
def Penalized (m : SlashingManager) (id : Digest) : Prop :=
  ∃ s n, m.status id = some (.penalized s n)

theorem Penalized.contains {m : SlashingManager} {id : Digest} (h : m.Penalized id) :
    m.records.contains id = true := by
  obtain ⟨s, n, hs⟩ := h
  rw [KeyMap.contains_eq, Option.isSome_iff_exists]
  obtain ⟨r, hr, -⟩ := Option.map_eq_some_iff.mp hs
  exact ⟨r, hr⟩

theorem Penalized.insert_fresh {m : SlashingManager} {id : Digest} (h : m.Penalized id)
    {k : Digest} (hk : m.records.contains k = false) (r : EvidenceRecord) :
    Penalized { m with records := m.records.insert k r } id := by
  have hne : id ≠ k := by
    rintro rfl
    rw [h.contains] at hk
    cases hk
  obtain ⟨s, n, hs⟩ := h
  refine ⟨s, n, ?_⟩
  unfold status at hs ⊢
  rw [KeyMap.get?_insert_of_ne _ _ hne, hs]

theorem Penalized.markPenalized {m : SlashingManager} {id : Digest} (h : m.Penalized id)
    (id₀ : Digest) (o : PenaltyOutcome) : (m.markPenalized id₀ o).Penalized id := by
  by_cases hid : id = id₀
  · subst hid
    have hk : ((m.markPenalized id o).records.get? id).isSome := by
      rw [← KeyMap.contains_eq, contains_markPenalized]
      exact h.contains
    obtain ⟨r, hr⟩ := Option.isSome_iff_exists.mp hk
    obtain ⟨s, n, hs⟩ := status_markPenalized_self m id o r hr
    exact ⟨s, n, by rw [status, hr, Option.map_some, hs]⟩
  · obtain ⟨s, n, hs⟩ := h
    exact ⟨s, n, by rw [status, get?_markPenalized_of_ne m o hid]; exact hs⟩

theorem Penalized.recordCommitted {m : SlashingManager} {id : Digest} (h : m.Penalized id)
    (e : Evidence) (o : PenaltyOutcome) : (m.recordCommitted e o).Penalized id := by
  rw [recordCommitted_eq]
  apply Penalized.markPenalized
  by_cases hk : m.records.contains e.id
  · obtain ⟨s, n, hs⟩ := h
    exact ⟨s, n, by simpa [status, hk] using hs⟩
  · obtain ⟨s, n, hs⟩ := h.insert_fresh (by simpa using hk) ⟨e, .verified⟩
    exact ⟨s, n, by simpa [status, hk] using hs⟩

/-- **Penalized is absorbing.** No operation turns a penalized record back into a submitted,
verified or rejected one. -/
theorem Step.keeps_penalized {m m' : SlashingManager} (hstep : Step m m') {id : Digest}
    (h : m.Penalized id) : m'.Penalized id := by
  cases hstep with
  | submit e l =>
    rcases submit_cases m e l with ⟨heq, -⟩ | ⟨hk, r, -, heq⟩ | ⟨hk, -, -, heq⟩
    · rw [heq]
      exact h
    · rw [heq]
      exact h.insert_fresh hk _
    · rw [heq]
      -- the accepted id was fresh, so the penalized one is another
      obtain ⟨s, n, hs⟩ := h.insert_fresh hk ⟨e, .verified⟩
      exact ⟨s, n, hs⟩
  | applyPenalty hap =>
    rcases applyPenalty_cases hap with rfl | ⟨o, rfl⟩
    · exact h
    · exact h.markPenalized _ o
  | markPenalized id₀ o => exact h.markPenalized id₀ o
  | recordCommitted e o => exact h.recordCommitted e o

theorem keeps_penalized {m m' : SlashingManager} (hrun : Relation.ReflTransGen Step m m')
    {id : Digest} (h : m.Penalized id) : m'.Penalized id := by
  induction hrun with
  | refl => exact h
  | tail _ hstep ih => exact hstep.keeps_penalized ih

/-! ## The books -/

/-- What the tables of a manager with accepted ids `acc` agree on. -/
structure Books (m : SlashingManager) (acc : List Digest) : Prop where
  /-- The queue is the accepted ids still verified, in the order they were accepted. -/
  queue_eq : m.queue = acc.filter fun id => m.status id = some .verified
  nodup : acc.Nodup
  /-- An accepted id keeps its record. -/
  recorded : ∀ id ∈ acc, m.records.contains id = true
  /-- Only an accepted id is verified. -/
  accepted : ∀ id, m.status id = some .verified → id ∈ acc
  /-- A verified record has its offense recorded under its own id. -/
  offense : ∀ id r, m.records.get? id = some r → r.status = .verified →
    m.offenses.get? (offenseOf r.evidence) = some id

theorem books_empty : Books {} [] where
  queue_eq := rfl
  nodup := List.nodup_nil
  recorded _ h := by cases h
  accepted _ h := by cases h
  offense _ _ h := by cases h

theorem status_eq_verified {m : SlashingManager} {id : Digest} :
    m.status id = some .verified ↔ ∃ r, m.records.get? id = some r ∧ r.status = .verified :=
  Option.map_eq_some_iff

/-- The verified filter of a list only reads the statuses of its members. -/
theorem filter_verified_congr {m m' : SlashingManager} {ids : List Digest}
    (h : ∀ id ∈ ids, m'.status id = m.status id) :
    ids.filter (fun id => m'.status id = some .verified) =
      ids.filter fun id => m.status id = some .verified :=
  List.filter_congr fun id hid => by rw [h id hid]

section Books

variable {m : SlashingManager} {acc : List Digest}

/-- A fresh id stored as rejected changes no other record. -/
theorem Books.reject (h : Books m acc) {e : Evidence} (hk : m.records.contains e.id = false)
    (r : RejectReason) : Books { m with records := m.records.insert e.id ⟨e, .rejected r⟩ } acc := by
  have hacc : e.id ∉ acc := fun hm => by
    rw [h.recorded _ hm] at hk
    cases hk
  have hst : ∀ id, id ≠ e.id →
      (m.records.insert e.id ⟨e, .rejected r⟩).get? id = m.records.get? id :=
    fun id hne => KeyMap.get?_insert_of_ne _ _ hne
  refine ⟨?_, h.nodup, ?_, ?_, ?_⟩
  · rw [h.queue_eq]
    refine (filter_verified_congr fun id hid => ?_).symm
    show Option.map _ ((m.records.insert e.id _).get? id) = _
    rw [hst id (fun heq => hacc (heq ▸ hid))]
    rfl
  · intro id hid
    rw [KeyMap.contains_eq, KeyMap.get?_insert]
    split
    · rfl
    · exact h.recorded id hid
  · intro id hid
    obtain ⟨r', hr', hv⟩ := status_eq_verified.mp hid
    rw [KeyMap.get?_insert] at hr'
    split at hr'
    · cases hr'
      cases hv
    · exact h.accepted id (status_eq_verified.mpr ⟨r', hr', hv⟩)
  · intro id r' hr' hv
    rw [KeyMap.get?_insert] at hr'
    split at hr'
    · cases hr'
      cases hv
    · exact h.offense id r' hr' hv

/-- An accepted id is fresh and so is its offense: it joins the end of the queue. -/
theorem Books.accept (h : Books m acc) {e : Evidence} (hk : m.records.contains e.id = false)
    (ho : m.offenses.get? (offenseOf e) = none) :
    Books ⟨m.records.insert e.id ⟨e, .verified⟩, m.offenses.insert (offenseOf e) e.id,
      m.queue ++ [e.id]⟩ (acc ++ [e.id]) := by
  have hacc : e.id ∉ acc := fun hm => by
    rw [h.recorded _ hm] at hk
    cases hk
  refine ⟨?_, ?_, ?_, ?_, ?_⟩
  · -- the old ids keep their status, and the new one is verified
    show m.queue ++ [e.id] = _
    rw [List.filter_append, h.queue_eq]
    congr 1
    · refine (filter_verified_congr fun id hid => ?_).symm
      have hne : id ≠ e.id := fun heq => hacc (heq ▸ hid)
      show Option.map _ ((m.records.insert e.id _).get? id) = _
      rw [KeyMap.get?_insert_of_ne _ _ hne]
      rfl
    · simp [status]
  · exact List.nodup_append.mpr ⟨h.nodup, List.nodup_singleton _,
      fun a ha b hb hab => hacc (by simp at hb; rw [← hb, ← hab]; exact ha)⟩
  · intro id hid
    rw [KeyMap.contains_eq, KeyMap.get?_insert]
    split
    · rfl
    · rcases List.mem_append.mp hid with hid | hid
      · exact h.recorded id hid
      · simp_all
  · intro id hid
    obtain ⟨r', hr', hv⟩ := status_eq_verified.mp hid
    rw [KeyMap.get?_insert] at hr'
    split at hr'
    · rename_i heq
      exact List.mem_append_right _ (by simp [heq])
    · exact List.mem_append_left _ (h.accepted id (status_eq_verified.mpr ⟨r', hr', hv⟩))
  · intro id r' hr' hv
    rw [KeyMap.get?_insert] at hr'
    split at hr'
    · rename_i heq
      cases hr'
      rw [heq]
      exact KeyMap.get?_insert_self _ _ _
    · -- another verified record's offense was recorded, so it is not the fresh one
      have hold := h.offense id r' hr' hv
      have hne : offenseOf r'.evidence ≠ offenseOf e := fun heq => by
        rw [heq, ho] at hold
        cases hold
      rw [KeyMap.get?_insert_of_ne _ _ hne]
      exact hold

/-- An operation that takes one id off the queue, leaves it unverified, keeps every other
record and every recorded id and offense keeps the books. -/
theorem Books.retire (h : Books m acc) {m' : SlashingManager} (id : Digest)
    (hq : m'.queue = m.queue.filter fun q => q != id)
    (hid : ∀ r, m'.records.get? id = some r → r.status ≠ .verified)
    (hother : ∀ id', id' ≠ id → m'.records.get? id' = m.records.get? id')
    (hrec : ∀ id', m.records.contains id' = true → m'.records.contains id' = true)
    (hoff : ∀ o d, m.offenses.get? o = some d → m'.offenses.get? o = some d) :
    Books m' acc := by
  have hverified : ∀ id', m'.status id' = some .verified ↔
      m.status id' = some .verified ∧ id' ≠ id := by
    intro id'
    by_cases hne : id' = id
    · subst hne
      simp only [ne_eq, not_true_eq_false, and_false, iff_false]
      intro hs
      obtain ⟨r, hr, hv⟩ := status_eq_verified.mp hs
      exact hid r hr hv
    · simp only [status, hother id' hne, ne_eq, hne, not_false_eq_true, and_true]
  refine ⟨?_, h.nodup, fun id' hm => hrec id' (h.recorded id' hm), ?_, ?_⟩
  · rw [hq, h.queue_eq, List.filter_filter]
    refine List.filter_congr fun id' _ => ?_
    rw [Bool.eq_iff_iff]
    simp only [Bool.and_eq_true, bne_iff_ne, ne_eq, decide_eq_true_iff, hverified id']
    exact And.comm
  · exact fun id' hs => h.accepted id' ((hverified id').mp hs).1
  · intro id' r hr hv
    by_cases hne : id' = id
    · subst hne
      exact absurd hv (hid r hr)
    · rw [hother id' hne] at hr
      exact hoff _ _ (h.offense id' r hr hv)

theorem Books.markPenalized (h : Books m acc) (id : Digest) (o : PenaltyOutcome) :
    Books (m.markPenalized id o) acc := by
  refine h.retire id rfl ?_ (fun id' hne => get?_markPenalized_of_ne m o hne)
    (fun id' hk => by rw [contains_markPenalized]; exact hk) (fun _ _ hd => hd)
  intro r hr hv
  obtain ⟨s, n, hs⟩ := status_markPenalized_self m id o r hr
  rw [hs] at hv
  cases hv

theorem Books.recordCommitted (h : Books m acc) (e : Evidence) (o : PenaltyOutcome) :
    Books (m.recordCommitted e o) acc := by
  rw [recordCommitted_eq]
  have hrecords : ∀ id', id' ≠ e.id →
      (if m.records.contains e.id then m.records
        else m.records.insert e.id ⟨e, .verified⟩).get? id' = m.records.get? id' := by
    intro id' hne
    split
    · rfl
    · exact KeyMap.get?_insert_of_ne _ _ hne
  refine h.retire e.id rfl ?_ ?_ ?_ ?_
  · intro r hr hv
    obtain ⟨s, n, hs⟩ := status_markPenalized_self _ e.id o r hr
    rw [hs] at hv
    cases hv
  · intro id' hne
    rw [get?_markPenalized_of_ne _ o hne]
    exact hrecords id' hne
  · intro id' hk
    rw [contains_markPenalized]
    show (if m.records.contains e.id then m.records else _).contains id' = true
    split
    · exact hk
    · rw [KeyMap.contains_eq, KeyMap.get?_insert]
      split
      · rfl
      · exact hk
  · intro off d hd
    show (if m.offenses.contains (offenseOf e) then m.offenses else _).get? off = some d
    split
    · exact hd
    · rename_i hnot
      have hne : off ≠ offenseOf e := by
        rintro rfl
        rw [KeyMap.contains_eq, hd] at hnot
        exact hnot rfl
      rw [KeyMap.get?_insert_of_ne _ _ hne]
      exact hd

theorem Books.submit (h : Books m acc) (e : Evidence) (l : Ledger) :
    Books (m.submit e l).1 (acc ++ acceptedIds (m.submit e l).2) := by
  rcases submit_cases m e l with ⟨heq, r, hout, -⟩ | ⟨hk, r, -, heq⟩ | ⟨hk, -, ho, heq⟩
  · rw [heq, hout]
    simpa [acceptedIds] using h
  · rw [heq]
    simpa [acceptedIds] using h.reject hk r
  · rw [heq]
    exact h.accept hk ho

theorem History.books {m : SlashingManager} {acc : List Digest} (h : History m acc) :
    Books m acc := by
  induction h with
  | empty => exact books_empty
  | submit e l _ ih => exact ih.submit e l
  | applyPenalty _ hap ih =>
    rcases applyPenalty_cases hap with rfl | ⟨o, rfl⟩
    · exact ih
    · exact ih.markPenalized _ o
  | markPenalized id o _ ih => exact ih.markPenalized id o
  | recordCommitted e o _ ih => exact ih.recordCommitted e o

/-- The queue holds each verified id once, and nothing else. -/
theorem Books.mem_queue (h : Books m acc) (id : Digest) :
    id ∈ m.queue ↔ m.status id = some .verified := by
  rw [h.queue_eq, List.mem_filter, decide_eq_true_iff]
  exact ⟨fun hm => hm.2, fun hs => ⟨h.accepted id hs, hs⟩⟩

/-- Two verified records with one offense are one record. -/
theorem Books.offense_unique (h : Books m acc) {id₁ id₂ : Digest} {r₁ r₂ : EvidenceRecord}
    (h₁ : m.records.get? id₁ = some r₁) (h₂ : m.records.get? id₂ = some r₂)
    (hv₁ : r₁.status = .verified) (hv₂ : r₂.status = .verified)
    (ho : offenseOf r₁.evidence = offenseOf r₂.evidence) : id₁ = id₂ := by
  have hoff₁ := h.offense id₁ r₁ h₁ hv₁
  rw [ho, h.offense id₂ r₂ h₂ hv₂] at hoff₁
  exact Option.some.inj hoff₁.symm

end Books

/-- **The slashing manager's books agree.** Along every run from the empty manager, with `acc`
the ids its submissions accepted in order: the queue is the accepted ids still verified, in
the order they were accepted, with no id twice, and it holds exactly the verified ids; no two
verified records are about one offense.  Under any operations a penalized record stays
penalized, and a submission whose id holds a rejection answers with that rejection and leaves
the manager as it was. -/
theorem slashing_books_consistent :
    (∀ {m : SlashingManager} {acc : List Digest}, History m acc →
      m.queue = acc.filter (fun id => m.status id = some .verified) ∧ m.queue.Nodup ∧
      (∀ id, id ∈ m.queue ↔ m.status id = some .verified) ∧
      ∀ id₁ id₂ r₁ r₂, m.records.get? id₁ = some r₁ → m.records.get? id₂ = some r₂ →
        r₁.status = .verified → r₂.status = .verified →
        offenseOf r₁.evidence = offenseOf r₂.evidence → id₁ = id₂) ∧
    (∀ {m m' : SlashingManager} (id : Digest), Relation.ReflTransGen Step m m' →
      (∃ s n, m.status id = some (.penalized s n)) → ∃ s n, m'.status id = some (.penalized s n)) ∧
    ∀ (m : SlashingManager) (e : Evidence) (l : Ledger) (r : RejectReason),
      m.status e.id = some (.rejected r) → m.submit e l = (m, .rejected r) := by
  refine ⟨fun hist => ?_, fun id hrun hp => keeps_penalized hrun hp,
    fun m e l r hr => submit_of_rejected hr l⟩
  have hb := hist.books
  refine ⟨hb.queue_eq, ?_, hb.mem_queue, fun _ _ _ _ h₁ h₂ hv₁ hv₂ ho =>
    hb.offense_unique h₁ h₂ hv₁ hv₂ ho⟩
  rw [hb.queue_eq]
  exact hb.nodup.filter _

/-- A validator's two signed votes at height 1 for different blocks. -/
def doubleVoteEvidence : Evidence :=
  let kp := Keypair.ofLabel "validator-0"
  .doubleVote (Vote.signWith kp 1 (Digest.ofText "x")) (Vote.signWith kp 1 (Digest.ofText "y"))

/-- A ledger in which the offender of `doubleVoteEvidence` is a validator. -/
def offenderLedger : Ledger :=
  { validators := KeyMap.empty.insert doubleVoteEvidence.offender { publicKey := ⟨[]⟩ } }

/-- The empty manager after accepting `doubleVoteEvidence` and recording its penalty. -/
def penalizedBooks : SlashingManager :=
  (({} : SlashingManager).submit doubleVoteEvidence offenderLedger).1.markPenalized
    doubleVoteEvidence.id (.applied doubleVoteEvidence.offender 5 10 100)

/-- Evidence accepted and then penalized: the books agree, and the id stays penalized. -/
theorem slashing_books_after_penalty :
    (({} : SlashingManager).submit doubleVoteEvidence offenderLedger).2 =
      .accepted doubleVoteEvidence.id ∧
    History penalizedBooks [doubleVoteEvidence.id] ∧
    penalizedBooks.status doubleVoteEvidence.id = some (.penalized 5 10) ∧
    (penalizedBooks.queue =
        [doubleVoteEvidence.id].filter (fun id => penalizedBooks.status id = some .verified) ∧
      penalizedBooks.queue.Nodup ∧
      (∀ id, id ∈ penalizedBooks.queue ↔ penalizedBooks.status id = some .verified) ∧
      ∀ id₁ id₂ r₁ r₂, penalizedBooks.records.get? id₁ = some r₁ →
        penalizedBooks.records.get? id₂ = some r₂ → r₁.status = .verified →
        r₂.status = .verified → offenseOf r₁.evidence = offenseOf r₂.evidence → id₁ = id₂) ∧
    ∀ m', Relation.ReflTransGen Step penalizedBooks m' →
      ∃ s n, m'.status doubleVoteEvidence.id = some (.penalized s n) := by
  obtain ⟨haccepted, hstatus⟩ :
      (({} : SlashingManager).submit doubleVoteEvidence offenderLedger).2 =
        .accepted doubleVoteEvidence.id ∧
      penalizedBooks.status doubleVoteEvidence.id = some (.penalized 5 10) := by
    decide +kernel
  have hist : History penalizedBooks [doubleVoteEvidence.id] := by
    have h := History.markPenalized doubleVoteEvidence.id
      (.applied doubleVoteEvidence.offender 5 10 100)
      (History.submit doubleVoteEvidence offenderLedger .empty)
    rw [haccepted] at h
    exact h
  exact ⟨haccepted, hist, hstatus, slashing_books_consistent.1 hist,
    fun _ hrun => slashing_books_consistent.2.1 _ hrun ⟨5, 10, hstatus⟩⟩

end SlashingManager

end StakeChain

import StakeChain.Proofs.Chain.Pending

/-!
# An input in two phases

Every input runs in two phases. The first phase may change the pool, the marks, the evidence,
the snapshots, the pending blocks, the own votes and the tracker, and it may send the local
vote. It writes nothing to the store and keeps the final block and its ledger
(`Chain.Unwritten`). The second phase, after a block or a vote, commits what the tracker
finalized (`tryCommit`). `step_phases` splits every input this way.

In the first phase the tracker gets votes, snapshots, requests for its evidence and pruning,
but never a restored certificate (`FinalityManager.Follows`). These inputs keep the certificate
of the final height whenever that height is above a given one
(`FinalityManager.CertifiedOver`), so a commit finds the certificate of the height it commits
to.
-/

set_option autoImplicit false

namespace StakeChain

namespace FinalityManager

/-- The tracker after the inputs a running chain gives it: any but a restored certificate. -/
def Follows (fm fm' : FinalityManager) : Prop :=
  Relation.ReflTransGen (fun a b => ∃ i fin, (∀ c, i ≠ .restore c) ∧ a.apply i = .ok (b, fin)) fm fm'

/-- The tracker holds the certificate of its final height whenever that height is above `F`. -/
def CertifiedOver (F : UInt64) (fm : FinalityManager) : Prop :=
  F < fm.finalizedHeight → ∃ cert, fm.certificate fm.finalizedHeight = some cert

theorem Follows.single {fm fm' : FinalityManager} {i : FinalityInput} {fin : Bool}
    (happ : fm.apply i = .ok (fm', fin)) (hi : ∀ c, i ≠ .restore c) : fm.Follows fm' :=
  Relation.ReflTransGen.single ⟨i, fin, hi, happ⟩

/-- Pruning stops below the final height, so it keeps the final height's certificate. -/
theorem certificate_prune_final (fm : FinalityManager) (keep : UInt64) :
    (fm.prune keep).certificate fm.finalizedHeight = fm.certificate fm.finalizedHeight := by
  unfold prune certificate
  apply KeyMap.get?_keysFrom_of_le
  rw [UInt64.le_iff_toNat_le, Word.subSat_toNat]
  omega

/-- An input other than a restored certificate keeps the certificate of a final height above
`F`: a finalization comes with its certificate, and otherwise the final height and its
certificate stay. -/
theorem CertifiedOver.apply {F : UInt64} {fm fm' : FinalityManager} (hacc : fm.Accounting)
    (h : CertifiedOver F fm) {i : FinalityInput} {fin : Bool} (happ : fm.apply i = .ok (fm', fin))
    (hi : ∀ c, i ≠ .restore c) : CertifiedOver F fm' := by
  intro hlt
  obtain ⟨-, hkeep, hcert, hchange⟩ := apply_spec hacc happ
  cases fin with
  | true =>
    obtain ⟨-, cert, -, hc, -⟩ := hcert rfl
    exact ⟨cert, hc⟩
  | false =>
    have hF := hkeep rfl
    rw [hF] at hlt ⊢
    obtain ⟨cert, hc⟩ := h hlt
    refine ⟨cert, ?_⟩
    by_cases hsame : fm'.certificate fm.finalizedHeight = fm.certificate fm.finalizedHeight
    · rw [hsame, hc]
    · rcases hchange _ hsame with ⟨c, rfl⟩ | ⟨keep, rfl⟩ | ⟨hf, -⟩
      · exact absurd rfl (hi c)
      · -- pruning keeps the final height's certificate
        simp only [FinalityManager.apply, Except.ok.injEq, Prod.mk.injEq] at happ
        rw [← happ.1, certificate_prune_final, hc]
      · cases hf

/-- The tracker's inputs in a running chain keep its accounting and the certificate of a final
height above `F`. -/
theorem Follows.certifiedOver {F : UInt64} {fm fm' : FinalityManager} (hf : fm.Follows fm')
    (hacc : fm.Accounting) (h : CertifiedOver F fm) : fm'.Accounting ∧ CertifiedOver F fm' := by
  induction hf with
  | refl => exact ⟨hacc, h⟩
  | tail _ hstep ih =>
    obtain ⟨i, fin, hi, happ⟩ := hstep
    exact ⟨(apply_spec ih.1 happ).1, ih.2.apply ih.1 happ hi⟩

end FinalityManager

namespace Chain

/-- What the first phase of an input keeps: the final block, its hash, its ledger and the
parameters, the stored entries, the store's cache and the recent headers. The events grow only
by the local votes sent, and the tracker moves only by the inputs of a running chain. -/
structure Unwritten (c d : Chain) : Prop where
  finalized : d.finalized = c.finalized
  finalizedHash : d.finalizedHash = c.finalizedHash
  ledger : d.ledger = c.ledger
  params : d.params = c.params
  entries : d.store.kv.entries = c.store.kv.entries
  cache : d.store.cache = c.store.cache
  recentHeaders : d.recentHeaders = c.recentHeaders
  votes : ∃ vs : List Vote, d.events = c.events ++ vs.map ChainEvent.broadcast
  tracker : c.finality.Follows d.finality

section Unwritten

variable {c d e : Chain}

theorem Unwritten.refl (c : Chain) : c.Unwritten c :=
  ⟨rfl, rfl, rfl, rfl, rfl, rfl, rfl, ⟨[], by simp⟩, .refl⟩

theorem Unwritten.trans (h₁ : c.Unwritten d) (h₂ : d.Unwritten e) : c.Unwritten e := by
  obtain ⟨vs₁, hv₁⟩ := h₁.votes
  obtain ⟨vs₂, hv₂⟩ := h₂.votes
  refine ⟨h₂.finalized.trans h₁.finalized, h₂.finalizedHash.trans h₁.finalizedHash,
    h₂.ledger.trans h₁.ledger, h₂.params.trans h₁.params, h₂.entries.trans h₁.entries,
    h₂.cache.trans h₁.cache, h₂.recentHeaders.trans h₁.recentHeaders, ⟨vs₁ ++ vs₂, ?_⟩,
    h₁.tracker.trans h₂.tracker⟩
  rw [hv₂, hv₁, List.map_append, List.append_assoc]

/-- A change that leaves the final block, the store, the events and the tracker. -/
theorem Unwritten.frame (hfinal : d.finalized = c.finalized) (hhash : d.finalizedHash = c.finalizedHash)
    (hledger : d.ledger = c.ledger) (hparams : d.params = c.params)
    (hstore : d.store = c.store) (hrecent : d.recentHeaders = c.recentHeaders)
    (hevents : d.events = c.events) (hfm : d.finality = c.finality) : c.Unwritten d := by
  refine ⟨hfinal, hhash, hledger, hparams, by rw [hstore], by rw [hstore], hrecent, ⟨[], ?_⟩, ?_⟩
  · rw [hevents, List.map_nil, List.append_nil]
  · rw [hfm]
    exact .refl

theorem Unwritten.withFinality {i : FinalityInput} {fm : FinalityManager} {fin : Bool}
    (happ : c.finality.apply i = .ok (fm, fin)) (hi : ∀ c, i ≠ .restore c) :
    c.Unwritten { c with finality := fm } :=
  ⟨rfl, rfl, rfl, rfl, rfl, rfl, rfl, ⟨[], by simp⟩, FinalityManager.Follows.single happ hi⟩

theorem Unwritten.forwardFinalityEvidence (c : Chain) : c.Unwritten c.forwardFinalityEvidence := by
  obtain ⟨sl, hsl⟩ := forwardFinalityEvidence_eq c
  rw [hsl]
  have happ : c.finality.apply .takeEvidence = .ok (c.finality.takeEvidence.1, false) := rfl
  exact ⟨rfl, rfl, rfl, rfl, rfl, rfl, rfl, ⟨[], by simp⟩, FinalityManager.Follows.single happ nofun⟩

/-- The local vote, when cast, is sent and counted by the tracker; nothing is written. -/
theorem Unwritten.ownVote {height : UInt64} {hash : Digest} {voters : Option ValidatorSet}
    (hvote : (ChainM.ownVote height hash voters).runOn c = .ok (.ok (), d)) : c.Unwritten d := by
  rcases (ChainM.ownVote_cases hvote).2 with rfl | ⟨signer, -, -, -, -, -, hcast⟩
  · exact .refl d
  obtain ⟨fm, res, hrec, -, rfl⟩ := ChainM.castVote_state hcast
  exact ⟨rfl, rfl, rfl, rfl, rfl, rfl, rfl, ⟨[Vote.signWith signer height hash], rfl⟩,
    FinalityManager.Follows.single (FinalityManager.apply_vote hrec) nofun⟩

theorem Unwritten.finalTip (h : c.Unwritten d) : d.finalTip = c.finalTip := by
  unfold Chain.finalTip Chain.finalizedHeight
  rw [h.finalized, h.finalizedHash, h.ledger]

theorem Unwritten.finalizedHeight (h : c.Unwritten d) : d.finalizedHeight = c.finalizedHeight := by
  unfold Chain.finalizedHeight
  rw [h.finalized]

end Unwritten

/-- Every input of a coherent chain runs in two phases: a coherent chain reached without
writing, then possibly the commit. -/
theorem step_phases {c c' : Chain} (hc : c.Coherent) {i : ChainInput} (hs : c.step i = .ok c') :
    ∃ d, d.Coherent ∧ c.Unwritten d ∧ (c' = d ∨ c' = d.tryCommit.1) := by
  have hfirst : ∀ d : Chain, d = c' → d.Coherent → c.Unwritten d →
      ∃ d, d.Coherent ∧ c.Unwritten d ∧ (c' = d ∨ c' = d.tryCommit.1) := by
    rintro d rfl hd hw
    exact ⟨d, hd, hw, .inl rfl⟩
  cases i with
  | submit tx =>
    obtain ⟨r, hrun⟩ := step_eq_ok hs
    exact hfirst _ (ChainM.submit_state hrun).symm (hc.frame rfl rfl rfl rfl rfl rfl rfl)
      (.frame rfl rfl rfl rfl rfl rfl rfl rfl)
  | propose kp ts =>
    obtain ⟨r, hrun⟩ := step_eq_ok hs
    rcases ChainM.propose_state hrun with rfl | ⟨d, rfl⟩
    · exact hfirst _ rfl hc (.refl _)
    · exact hfirst _ rfl (hc.setStatus _ _) (.frame rfl rfl rfl rfl rfl rfl rfl rfl)
  | block b =>
    obtain ⟨r, hrun⟩ := step_eq_ok hs
    rcases ChainM.receiveBlock_cases hrun with ⟨d, hd, hc'⟩ | ⟨outcome, hval, hacc⟩
    · -- a refused block: evidence, perhaps a revert, perhaps a mark
      have hdw : d.Coherent ∧ c.Unwritten d := by
        rcases hd with rfl | ⟨ev, rfl | rfl⟩
        · exact ⟨hc, .refl _⟩
        · exact ⟨hc.submitEvidence ev, .frame rfl rfl rfl rfl rfl rfl rfl rfl⟩
        · obtain ⟨st, hst⟩ := revertToFinalized_eq (c.submitEvidence ev).1
          refine ⟨(hc.submitEvidence ev).revertToFinalized, ?_⟩
          rw [hst]
          exact .frame rfl rfl rfl rfl rfl rfl rfl rfl
      rcases hc' with rfl | rfl
      · exact hfirst _ rfl hdw.1 hdw.2
      · exact hfirst _ rfl (hdw.1.setStatus _ _)
          (hdw.2.trans (.frame rfl rfl rfl rfl rfl rfl rfl rfl))
    · -- an accepted block: pending with its snapshot, the local vote, the tracker's evidence
      obtain ⟨next, fm, fin, c₃, hnext, hreg, hvote, rfl⟩ := ChainM.acceptBlock_cases hacc
      have hreg' : c.finality.apply (.register
          (outcome.ledger.validatorSet next c.params.minValidatorStake)) = .ok (fm, fin) := hreg
      have hw₁ : c.Unwritten (({ c with
          snapshots := c.snapshots.insert next
            (outcome.ledger.validatorSet next c.params.minValidatorStake)
          pending := c.pending ++ [({ block := b, hash := b.hash, outcome := outcome } :
            PendingBlock)] } : Chain).setStatus b.hash .validated) :=
        .frame rfl rfl rfl rfl rfl rfl rfl rfl
      have hw₂ := hw₁.trans (Unwritten.withFinality hreg' nofun)
      exact ⟨_, (hc.accepted hval hnext hreg hvote).1,
        (hw₂.trans (.ownVote hvote)).trans (.forwardFinalityEvidence c₃), .inr rfl⟩
  | vote v =>
    obtain ⟨r, hrun⟩ := step_eq_ok hs
    obtain ⟨fm, res, hrec, hcases⟩ := ChainM.receiveVote_cases hrun
    have hd := (hc.withFinality (FinalityManager.apply_vote hrec)).forwardFinalityEvidence
    have hw := (Unwritten.withFinality (FinalityManager.apply_vote hrec) nofun).trans
      (Unwritten.forwardFinalityEvidence { c with finality := fm })
    rcases hcases with ⟨-, rfl⟩ | ⟨-, rfl⟩
    · exact ⟨_, hd, hw, .inl rfl⟩
    · exact ⟨_, hd, hw, .inr rfl⟩
  | evidence e =>
    obtain ⟨r, hrun⟩ := step_eq_ok hs
    exact hfirst _ (ChainM.receiveEvidence_state hrun).symm (hc.submitEvidence e)
      (.frame rfl rfl rfl rfl rfl rfl rfl rfl)
  | failWrites on =>
    cases hs
    exact hfirst _ rfl (hc.frame rfl rfl rfl rfl rfl rfl rfl)
      ⟨rfl, rfl, rfl, rfl, rfl, rfl, rfl, ⟨[], (List.append_nil _).symm⟩, .refl⟩

end Chain

end StakeChain

import StakeChain.Proofs.Chain.Pending

/-!
# The local validator signs one block per height

A node with a local key votes for the blocks it accepts (`ChainM.ownVote`). It keeps the block
it voted for at each height in `ownVotes`, and at a height with a kept vote it votes again only
for that block. Reverting the pending blocks and dropping a local fork leave `ownVotes` as it
is. A complete commit prunes it below the retention window, which starts at or below the final
height. A block is accepted only on top of the head, so above the final height, and no pruned
height takes a vote again.

`VoteGuard` is the invariant: every vote sent is still kept, or its height is final, and no two
votes sent at one height name different blocks. `VoteGuard.step` shows that every input keeps
it, and that an input sends a vote only for a block that validated on the chain as it was and
whose snapshot holds the local validator (`Chain.SignsFor`).
-/

set_option autoImplicit false

namespace StakeChain

namespace ChainEvent

/-- The vote an event sends, if it is a broadcast. -/
def sentVote? : ChainEvent → Option Vote
  | .broadcast v => some v
  | _ => none

end ChainEvent

namespace Chain

/-- The votes the local validator has sent, oldest first. -/
def sentVotes (c : Chain) : List Vote := c.events.filterMap ChainEvent.sentVote?

@[simp] theorem sentVotes_emit (c : Chain) (e : ChainEvent) :
    (c.emit e).sentVotes = c.sentVotes ++ e.sentVote?.toList := by
  cases e <;> simp [sentVotes, emit, ChainEvent.sentVote?]

/-- At chain `c`, input `i` may make the local validator sign `v`: the input is a block that
validates on `c` as it is, the snapshot stored for the block's height holds the local
validator, and `v` is the local key's vote for the block. -/
def SignsFor (c : Chain) (i : ChainInput) (v : Vote) : Prop :=
  ∃ b signer outcome vset, i = .block b ∧ c.signer = some signer ∧
    v = Vote.signWith signer b.height b.hash ∧
    (ChainM.validate b b.hash).runOn c = .ok (.ok outcome, c) ∧
    c.snapshots.get? b.height = some vset ∧ vset.contains signer.address = true

/-- The guard on the local votes: each vote sent is kept as the vote of its height unless the
height is final, and the votes sent at one height all name one block. -/
structure VoteGuard (c : Chain) : Prop where
  kept : ∀ v ∈ c.sentVotes,
    c.ownVotes.get? v.height = some v.blockHash ∨ v.height ≤ c.finalizedHeight
  once : ∀ v ∈ c.sentVotes, ∀ w ∈ c.sentVotes, v.height = w.height → v.blockHash = w.blockHash

/-- Writing one block sends no vote and leaves the kept votes. -/
theorem commitOldest_votes {c c' : Chain} {certified : UInt64} {cert : Option Certificate}
    (h : c.commitOldest certified cert = .ok c') :
    c'.sentVotes = c.sentVotes ∧ c'.ownVotes = c.ownVotes := by
  rcases commitOldest_eq_ok h with ⟨-, rfl⟩ | ⟨p, rest, store, -, -, rfl⟩
  · exact ⟨rfl, rfl⟩
  · refine ⟨?_, rfl⟩
    simp [sentVotes, List.filterMap_append, Function.comp_def, ChainEvent.sentVote?]

/-- Committing sends no vote, and keeps the kept votes above the final height it leaves: a
complete commit prunes only below the retention window, which starts at or below it. -/
theorem tryCommit_votes (c : Chain) : c.tryCommit.1.sentVotes = c.sentVotes ∧
    ∀ k, c.tryCommit.1.finalizedHeight < k → c.tryCommit.1.ownVotes.get? k = c.ownVotes.get? k := by
  rcases tryCommit_cases c with heq | ⟨idx, st, -, -, -, heq⟩ | ⟨idx, -, -, -, hres⟩
  · rw [heq]
    exact ⟨rfl, fun _ _ => rfl⟩
  · rw [heq]
    exact ⟨rfl, fun _ _ => rfl⟩
  obtain ⟨m, ⟨hsent, hown⟩, -⟩ := commitOldestN_induction
    (fun _ d => d.sentVotes = c.sentVotes ∧ d.ownVotes = c.ownVotes)
    (fun _ d d' hd hcommit => by
      obtain ⟨hsent, hown⟩ := commitOldest_votes hcommit
      exact ⟨hsent.trans hd.1, hown.trans hd.2⟩)
    (idx + 1) c ⟨rfl, rfl⟩
  generalize commitOldestN c.finality.finalizedHeight
    (c.finality.certificate c.finality.finalizedHeight) (idx + 1) c = r at hsent hown hres
  rcases hres with ⟨e, -, heq⟩ | ⟨-, heq⟩
  · rw [heq]
    exact ⟨hsent, fun k _ => by rw [hown]⟩
  · rw [heq]
    refine ⟨hsent, fun k hk => ?_⟩
    have hfloor : Word.subSat r.1.finalizedHeight r.1.consensus.voteRetentionHeights ≤ k := by
      have hlt : r.1.finalizedHeight.toNat < k.toNat := UInt64.lt_iff_toNat_lt.mp hk
      rw [UInt64.le_iff_toNat_le, Word.subSat_toNat]
      omega
    show (r.1.ownVotes.keysFrom _).get? k = _
    rw [KeyMap.get?_keysFrom_of_le _ hfloor, hown]

section VoteGuard

variable {c : Chain}

/-- An opened chain has sent no vote. -/
theorem Opened.sentVotes_eq_nil (h : c.Opened) : c.sentVotes = [] := by
  obtain ⟨cfg, kv, signer, hopen⟩ := h
  obtain ⟨-, -, -, -, -, -, -, -, -, -, -, rfl⟩ := ofStore_eq_ok hopen
  rfl

theorem VoteGuard.opened (h : c.Opened) : c.VoteGuard := by
  have hnil := h.sentVotes_eq_nil
  constructor
  · intro v hv
    rw [hnil] at hv
    cases hv
  · intro v hv
    rw [hnil] at hv
    cases hv

/-- The head is at or above the final height. -/
theorem Coherent.finalizedHeight_le_head (h : c.Coherent) :
    c.finalizedHeight.toNat ≤ c.head.1.toNat := by
  have hlast := h.pending.last_height
  rw [head_eq_headTip]
  unfold headTip
  simp only [finalTip] at hlast ⊢
  omega

/-- Above the final height, a vote sent is the one kept for its height. -/
theorem VoteGuard.kept_above (h : c.VoteGuard) {v : Vote} (hv : v ∈ c.sentVotes)
    (hF : c.finalizedHeight < v.height) : c.ownVotes.get? v.height = some v.blockHash :=
  (h.kept v hv).resolve_right (UInt64.not_le.mpr hF)

/-- A change that sends no vote, does not lower the final height and keeps the votes above the
new final height keeps the guard. -/
theorem VoteGuard.mono (h : c.VoteGuard) {c' : Chain} (hsent : c'.sentVotes = c.sentVotes)
    (hF : c.finalizedHeight ≤ c'.finalizedHeight)
    (hown : ∀ k, c'.finalizedHeight < k → c'.ownVotes.get? k = c.ownVotes.get? k) :
    c'.VoteGuard := by
  constructor
  · intro v hv
    rw [hsent] at hv
    by_cases hle : v.height ≤ c'.finalizedHeight
    · exact .inr hle
    · have hlt := UInt64.not_le.mp hle
      rw [hown _ hlt]
      exact .inl (h.kept_above hv (UInt64.lt_of_le_of_lt hF hlt))
  · intro v hv w hw
    rw [hsent] at hv hw
    exact h.once v hv w hw

/-- A change of the pool, the marks, the evidence, the tracker, the snapshots or the pending
blocks keeps the guard. -/
theorem VoteGuard.frame (h : c.VoteGuard) {c' : Chain} (hev : c'.events = c.events)
    (hown : c'.ownVotes = c.ownVotes) (hfinal : c'.finalized = c.finalized) : c'.VoteGuard := by
  have hF : c'.finalizedHeight = c.finalizedHeight := by
    unfold finalizedHeight
    rw [hfinal]
  refine h.mono (by unfold sentVotes; rw [hev]) (by rw [hF]; exact UInt64.le_refl _)
    fun k _ => by rw [hown]

/-- Casting the local vote for a block above the final height, at a height where no other block
is kept, keeps the guard. -/
theorem VoteGuard.cast (h : c.VoteGuard) {c' : Chain} {signer : Keypair} {height : UInt64}
    {hash : Digest} (habove : c.finalizedHeight < height)
    (hprior : c.ownVotes.get? height = none ∨ c.ownVotes.get? height = some hash)
    (hsent : c'.sentVotes = c.sentVotes ++ [Vote.signWith signer height hash])
    (hown : c'.ownVotes = c.ownVotes.insert height hash)
    (hF : c'.finalizedHeight = c.finalizedHeight) : c'.VoteGuard := by
  -- a vote sent before at the new vote's height is kept there, so it names the same block
  have hsame : ∀ v ∈ c.sentVotes, v.height = height → v.blockHash = hash := by
    intro v hv hh
    have hkept := h.kept_above hv (hh ▸ habove)
    rw [hh] at hkept
    rcases hprior with hnone | hsome
    · rw [hnone] at hkept
      cases hkept
    · rw [hsome] at hkept
      exact (Option.some.inj hkept).symm
  constructor
  · intro v hv
    rw [hsent, List.mem_append, List.mem_singleton] at hv
    rw [hown, hF]
    rcases hv with hv | rfl
    · by_cases hh : v.height = height
      · rw [hh, KeyMap.get?_insert_self, hsame v hv hh]
        exact .inl rfl
      · rw [KeyMap.get?_insert_of_ne _ _ hh]
        exact h.kept v hv
    · exact .inl (KeyMap.get?_insert_self _ _ _)
  · intro v hv w hw hvw
    rw [hsent, List.mem_append, List.mem_singleton] at hv hw
    rcases hv with hv | rfl <;> rcases hw with hw | rfl
    · exact h.once v hv w hw hvw
    · exact hsame v hv hvw
    · exact (hsame w hw hvw.symm).symm
    · rfl

/-- A commit that does not lower the final height keeps the guard. -/
theorem VoteGuard.tryCommit (h : c.VoteGuard)
    (hF : c.finalizedHeight ≤ c.tryCommit.1.finalizedHeight) : c.tryCommit.1.VoteGuard :=
  h.mono (tryCommit_votes c).1 hF (tryCommit_votes c).2

/-- Accepting a validated block keeps the guard up to the commit, and sends at most the local
vote for it. -/
theorem VoteGuard.ownVote (hc : c.Coherent) (h : c.VoteGuard) {b : Block} {outcome : BlockOutcome}
    {next : UInt64} {vset : ValidatorSet} {fm : FinalityManager} {c₃ : Chain}
    (hval : (ChainM.validate b b.hash).runOn c = .ok (.ok outcome, c))
    (hvote : (ChainM.ownVote b.height b.hash (c.snapshots.get? b.height)).runOn
      { ({ c with
            snapshots := c.snapshots.insert next vset
            pending := c.pending ++ [({ block := b, hash := b.hash, outcome := outcome } :
              PendingBlock)] }.setStatus b.hash .validated) with
        finality := fm } = .ok (.ok (), c₃)) :
    c₃.VoteGuard ∧ c₃.finalizedHeight = c.finalizedHeight ∧
      ∃ fresh, c₃.sentVotes = c.sentVotes ++ fresh ∧ ∀ v ∈ fresh, c.SignsFor (.block b) v := by
  rcases (ChainM.ownVote_cases hvote).2 with rfl | ⟨signer, vs, hsigner, hvs, hin, hprior, hcast⟩
  · exact ⟨h.frame rfl rfl rfl, rfl, [], (List.append_nil _).symm, nofun⟩
  have habove : c.finalizedHeight < b.height := by
    rcases ChainM.validate_cases hval with ⟨_, -, -, hheight, -⟩ | ⟨_, hr, -⟩ | ⟨_, hr, -⟩
    · have hle := hc.finalizedHeight_le_head
      rw [UInt64.lt_iff_toNat_lt]
      omega
    · nomatch hr
    · nomatch hr
  obtain ⟨fm', res, -, -, rfl⟩ := ChainM.castVote_state hcast
  refine ⟨h.cast habove hprior (by rw [sentVotes_emit]; rfl) rfl rfl, rfl,
    [Vote.signWith signer b.height b.hash], by rw [sentVotes_emit]; rfl, ?_⟩
  intro v hv
  rw [List.mem_singleton] at hv
  exact ⟨b, signer, outcome, vs, rfl, hsigner, hv, hval, hvs, hin⟩

/-- Every input keeps the guard, and sends only votes that the local validator may sign for
it on the chain as it was. -/
theorem VoteGuard.step (hc : c.Coherent) (h : c.VoteGuard) {i : ChainInput} {c' : Chain}
    (hs : c.step i = .ok c') :
    c'.VoteGuard ∧ ∃ fresh, c'.sentVotes = c.sentVotes ++ fresh ∧ ∀ v ∈ fresh, c.SignsFor i v := by
  have hquiet : ∀ d : Chain, d = c' → d.VoteGuard → d.sentVotes = c.sentVotes →
      c'.VoteGuard ∧ ∃ fresh, c'.sentVotes = c.sentVotes ++ fresh ∧ ∀ v ∈ fresh, c.SignsFor i v := by
    rintro d rfl hd hsent
    exact ⟨hd, [], by rw [hsent, List.append_nil], nofun⟩
  have hF := (hc.step hs).2.1
  cases i with
  | submit tx =>
    obtain ⟨r, hrun⟩ := step_eq_ok hs
    exact hquiet _ (ChainM.submit_state hrun).symm (h.frame rfl rfl rfl) rfl
  | propose kp ts =>
    obtain ⟨r, hrun⟩ := step_eq_ok hs
    rcases ChainM.propose_state hrun with rfl | ⟨d, rfl⟩
    · exact hquiet _ rfl h rfl
    · exact hquiet _ rfl (h.frame rfl rfl rfl) rfl
  | block b =>
    obtain ⟨r, hrun⟩ := step_eq_ok hs
    rcases ChainM.receiveBlock_cases hrun with ⟨d, hd, hc'⟩ | ⟨outcome, hval, hacc⟩
    · -- a refused block: evidence, perhaps a revert, perhaps a mark; no vote
      have hdg : d.VoteGuard ∧ d.sentVotes = c.sentVotes := by
        rcases hd with rfl | ⟨ev, rfl | rfl⟩
        · exact ⟨h, rfl⟩
        · exact ⟨h.frame rfl rfl rfl, rfl⟩
        · obtain ⟨st, hst⟩ := revertToFinalized_eq (c.submitEvidence ev).1
          rw [hst]
          exact ⟨h.frame rfl rfl rfl, rfl⟩
      rcases hc' with rfl | rfl
      · exact hquiet _ rfl hdg.1 hdg.2
      · exact hquiet _ rfl (hdg.1.frame rfl rfl rfl) hdg.2
    · obtain ⟨next, fm, fin, c₃, -, -, hvote, rfl⟩ := ChainM.acceptBlock_cases hacc
      obtain ⟨h₃, hF₃, fresh, hsent₃, hfresh⟩ := h.ownVote hc hval hvote
      obtain ⟨sl, hsl⟩ := forwardFinalityEvidence_eq c₃
      rw [hsl] at hF ⊢
      have hd : ({ c₃ with finality := c₃.finality.takeEvidence.1, slashing := sl } : Chain).VoteGuard :=
        h₃.frame rfl rfl rfl
      refine ⟨hd.tryCommit (hF₃ ▸ hF), fresh, ?_, hfresh⟩
      rw [(tryCommit_votes _).1]
      exact hsent₃
  | vote v =>
    obtain ⟨r, hrun⟩ := step_eq_ok hs
    obtain ⟨fm, res, -, hcases⟩ := ChainM.receiveVote_cases hrun
    obtain ⟨sl, hsl⟩ := forwardFinalityEvidence_eq { c with finality := fm }
    have hd : (Chain.forwardFinalityEvidence { c with finality := fm }).VoteGuard := by
      rw [hsl]
      exact h.frame rfl rfl rfl
    have hsent : (Chain.forwardFinalityEvidence { c with finality := fm }).sentVotes =
        c.sentVotes := by
      rw [hsl]
      rfl
    rcases hcases with ⟨-, rfl⟩ | ⟨-, rfl⟩
    · exact hquiet _ rfl hd hsent
    · -- the tracker finalized: the commit keeps the guard
      have hF' : (Chain.forwardFinalityEvidence { c with finality := fm }).finalizedHeight =
          c.finalizedHeight := by
        rw [hsl]
        rfl
      rw [← hF'] at hF
      exact hquiet _ rfl (hd.tryCommit hF) ((tryCommit_votes _).1.trans hsent)
  | evidence e =>
    obtain ⟨r, hrun⟩ := step_eq_ok hs
    exact hquiet _ (ChainM.receiveEvidence_state hrun).symm (h.frame rfl rfl rfl) rfl
  | failWrites on =>
    cases hs
    exact hquiet _ rfl (h.frame rfl rfl rfl) rfl

end VoteGuard

/-- Every chain a run reaches keeps the guard on its votes. -/
theorem Reachable.voteGuard {c : Chain} (hr : c.Reachable) : c.VoteGuard :=
  (Reachable.induction (P := fun c => c.Coherent ∧ c.VoteGuard)
    (fun _ h => ⟨Coherent.opened h, VoteGuard.opened h⟩)
    (fun _ _ _ hg hs => ⟨(hg.1.step hs).1, (hg.2.step hg.1 hs).1⟩) hr).2

end Chain

/-- The local validator never signs two blocks at one height. Along every run from an opened
chain, the votes it has sent at one height all name the same block. Each input sends only the
local key's vote for a block that validated on the chain as it was then, at a height whose
stored snapshot holds the local validator. A newly opened chain has sent no vote. -/
theorem own_votes_one_block_per_height {c : Chain} (hr : c.Reachable) :
    (∀ v ∈ c.sentVotes, ∀ w ∈ c.sentVotes, v.height = w.height → v.blockHash = w.blockHash) ∧
    ∀ i c', c.step i = .ok c' →
      ∃ fresh, c'.sentVotes = c.sentVotes ++ fresh ∧ ∀ v ∈ fresh, c.SignsFor i v := by
  have hg := hr.voteGuard
  exact ⟨hg.once, fun _ _ hs => (hg.step hr.coherent hs).2⟩

/-- The devnet's node, once it has voted for its first block and committed it, meets the
guarantee. -/
theorem own_votes_one_block_per_height_after_commit :
    soloCommitted.Reachable ∧ soloCommitted.finalizedHeight = 1 ∧
    ((∀ v ∈ soloCommitted.sentVotes, ∀ w ∈ soloCommitted.sentVotes, v.height = w.height →
      v.blockHash = w.blockHash) ∧
    ∀ i c', soloCommitted.step i = .ok c' → ∃ fresh,
      c'.sentVotes = soloCommitted.sentVotes ++ fresh ∧ ∀ v ∈ fresh, soloCommitted.SignsFor i v) :=
  ⟨soloCommitted_reachable, soloCommitted_finalizedHeight,
    own_votes_one_block_per_height soloCommitted_reachable⟩

end StakeChain

import StakeChain.Proofs.Chain.Receive
import StakeChain.Proofs.Consensus.Accounting
import StakeChain.Chain.Open

/-!
# Runs of a chain

A chain is opened over a store. After that it takes inputs: transactions, proposals, and
blocks, votes and evidence from peers. It also takes the switch that makes the store's writes
fail. An input may be refused, keeping what it changed so far, and the next input meets the
chain as it left it. `Chain.Reachable` holds of the chains that some run reaches.
`Chain.Reachable.induction` turns a property that opening establishes and every input keeps
into a property of every reachable chain.

Each operation has one lemma that says what it can do to the chain, so the invariants of the
chain are proved over these descriptions and never unfold an operation again:

* `submit_state`, `propose_state`, `receiveEvidence_state`: the pool, a status, the evidence
  pool;
* `receiveVote_cases`: the vote goes to the tracker, the tracker's evidence to the pool, and a
  finalizing vote is followed by a commit;
* `receiveBlock_cases`: a refused block is at most marked rejected, after a double proposal has
  been reported and, above the final height, the pending blocks dropped. An accepted block has
  passed `validate_eq_ok` on the chain as it was, and is accepted as `acceptBlock_cases` says,
  with the local vote of `ownVote_cases` and `castVote_state`.
-/

set_option autoImplicit false

namespace StakeChain

/-- An input of a node's chain. -/
inductive ChainInput where
  | submit (tx : Transaction)
  | propose (kp : Keypair) (timestamp : UInt64)
  | block (b : Block)
  | vote (v : Vote)
  | evidence (e : Evidence)
  | failWrites (on : Bool)

namespace Chain

/-- The chain with its store's writes failing, or not. -/
def setFailWrites (c : Chain) (on : Bool) : Chain :=
  { c with store := { c.store with kv := { c.store.kv with failWrites := on } } }

/-- The chain after an input, whatever the input answered; an abort stops the run. -/
def step (c : Chain) : ChainInput → Except Abort Chain
  | .submit tx => Prod.snd <$> (ChainM.submit tx).runOn c
  | .propose kp ts => Prod.snd <$> (ChainM.propose kp ts).runOn c
  | .block b => Prod.snd <$> (ChainM.receiveBlock b).runOn c
  | .vote v => Prod.snd <$> (ChainM.receiveVote v).runOn c
  | .evidence e => Prod.snd <$> (ChainM.receiveEvidence e).runOn c
  | .failWrites on => .ok (c.setFailWrites on)

/-- A chain just opened over a store. -/
def Opened (c : Chain) : Prop :=
  ∃ cfg kv signer, (ofStore cfg kv signer).run = .ok (.ok c)

/-- One input leads from `c` to `c'`. -/
def StepsTo (c c' : Chain) : Prop := ∃ i, c.step i = .ok c'

/-- The chains some run reaches: opened over a store, then any inputs. -/
def Reachable (c : Chain) : Prop :=
  ∃ c₀, c₀.Opened ∧ Relation.ReflTransGen StepsTo c₀ c

/-- A property that every opened chain has and every input keeps holds of every chain a run
reaches. -/
theorem Reachable.induction {P : Chain → Prop} (hopen : ∀ c, c.Opened → P c)
    (hstep : ∀ c i c', P c → c.step i = .ok c' → P c') {c : Chain} (hr : c.Reachable) : P c := by
  obtain ⟨c₀, h₀, hrun⟩ := hr
  induction hrun with
  | refl => exact hopen c₀ h₀
  | tail _ hlast ih =>
    obtain ⟨i, hi⟩ := hlast
    exact hstep _ i _ ih hi

theorem Reachable.step {c c' : Chain} (hr : c.Reachable) (i : ChainInput) (h : c.step i = .ok c') :
    c'.Reachable := by
  obtain ⟨c₀, h₀, hrun⟩ := hr
  exact ⟨c₀, h₀, hrun.tail ⟨i, h⟩⟩

theorem step_eq_ok {α : Type} {op : ChainM α} {c c' : Chain}
    (h : Prod.snd <$> op.runOn c = .ok c') : ∃ r, op.runOn c = .ok (r, c') := by
  cases hrun : op.runOn c with
  | error a =>
    rw [hrun] at h
    nomatch h
  | ok p =>
    rw [hrun] at h
    obtain ⟨r, c₁⟩ := p
    cases h
    exact ⟨r, rfl⟩

theorem snd_runOn_of_eq_ok {α : Type} {op : ChainM α} {c c' : Chain} {r : Except ChainError α}
    (h : op.runOn c = .ok (r, c')) : Prod.snd <$> op.runOn c = .ok c' := by
  rw [h]
  rfl

/-- An opened chain: resumed from its store or from genesis, final at the tip with no pending
block, no event and no own vote, and its tracker final at the tip with the newest stored
certificate at or below it and the snapshot of the next height registered. -/
theorem ofStore_eq_ok {cfg : ChainConfig} {kv : MemStore} {signer : Option Keypair} {c : Chain}
    (h : (ofStore cfg kv signer).run = .ok (.ok c)) :
    ∃ store ledger tip restored next fm fin,
      resume cfg { kv := kv } = .ok (store, ledger, tip) ∧
      (restored = FinalityManager.init tip.height tip.hash ∨
        ∃ cert, restored = (FinalityManager.init tip.height tip.hash).restoreCertificate cert) ∧
      Word.addStrict tip.height 1 = .ok next ∧
      restored.registerValidatorSet (ledger.validatorSet next cfg.ledgerParams.minValidatorStake) =
        .ok (fm, fin) ∧
      c = { params := cfg.ledgerParams, consensus := cfg.consensus, signer := signer, ledger := ledger,
            finalized := tip.signedHeader, finalizedHash := tip.hash,
            statuses := ({ capacity := 4096 } : RecentMap Digest BlockStatus).put tip.hash .finalized,
            snapshots := KeyMap.empty.insert next
              (ledger.validatorSet next cfg.ledgerParams.minValidatorStake),
            recentHeaders := KeyMap.empty.insert tip.height tip.signedHeader,
            mempool := { cap := cfg.mempool.capacity.toNat }, store := store, finality := fm } := by
  unfold ofStore at h
  obtain ⟨u, -, h⟩ := Guarded.bind_eq_ok h
  obtain ⟨⟨store, ledger, tip⟩, hres, h⟩ := Guarded.bind_eq_ok h
  obtain ⟨latest, hlatest, h⟩ := Guarded.bind_eq_ok h
  obtain ⟨next, hnext, h⟩ := Guarded.bind_eq_ok h
  obtain ⟨⟨fm, fin⟩, hreg, h⟩ := Guarded.bind_eq_ok h
  refine ⟨store, ledger, tip, _, next, fm, fin, Guarded.ofExcept_eq_ok hres, ?_,
    Guarded.liftM_eq_ok hnext, Guarded.liftM_eq_ok hreg, ?_⟩
  · cases latest with
    | none => exact .inl rfl
    | some cert => exact .inr ⟨cert, rfl⟩
  · cases h
    rfl

end Chain

namespace ChainM

variable {α β : Type}

/-- A step that ended, well or not: its first operation failed, or gave a value from which the
rest ended. -/
theorem bind_runOn_eq {x : ChainM α} {f : α → ChainM β} {c c'' : Chain} {r : Except ChainError β}
    (h : (x >>= f).runOn c = .ok (r, c'')) :
    (∃ e, x.runOn c = .ok (.error e, c'') ∧ r = .error e) ∨
      ∃ a c', x.runOn c = .ok (.ok a, c') ∧ (f a).runOn c' = .ok (r, c'') := by
  unfold runOn at h ⊢
  simp only [ExceptT.run_bind, StateT.run_bind] at h
  cases hx : (ExceptT.run x).run c with
  | error e =>
    rw [hx] at h
    nomatch h
  | ok p =>
    obtain ⟨r', c'⟩ := p
    cases r' with
    | error e =>
      rw [hx] at h
      simp only [bind, Except.bind, pure] at h
      obtain ⟨rfl, rfl⟩ := h
      exact .inl ⟨e, rfl, rfl⟩
    | ok a =>
      rw [hx] at h
      exact .inr ⟨a, c', rfl, h⟩


theorem orAbort_runOn_eq {r : Except Abort α} {c c' : Chain} {res : Except ChainError α}
    (h : (orAbort r).runOn c = .ok (res, c')) : c' = c ∧ ∃ a, r = .ok a ∧ res = .ok a := by
  cases r with
  | error e => nomatch h
  | ok a =>
    cases h
    exact ⟨rfl, a, rfl, rfl⟩

theorem throw_runOn_eq {e : ChainError} {c c' : Chain} {res : Except ChainError α}
    (h : (throw e : ChainM α).runOn c = .ok (res, c')) : c' = c ∧ res = .error e := by
  cases h
  exact ⟨rfl, rfl⟩

theorem guarded_runOn_eq {ε : Type} {toError : ε → ChainError} {g : Guarded ε α} {c c' : Chain}
    {res : Except ChainError α} (h : (guarded toError g).runOn c = .ok (res, c')) : c' = c := by
  unfold guarded at h
  rcases bind_runOn_eq h with ⟨e, hx, -⟩ | ⟨r, c₁, hx, h⟩
  · exact (orAbort_runOn_eq hx).1
  · obtain ⟨rfl, -⟩ := orAbort_runOn_eq hx
    cases r with
    | ok a => cases h; rfl
    | error e => cases h; rfl

theorem pure_runOn_eq {a : α} {c c' : Chain} {r : Except ChainError α}
    (h : (pure a : ChainM α).runOn c = .ok (r, c')) : c' = c ∧ r = .ok a := by
  cases h
  exact ⟨rfl, rfl⟩

/-- A step that fails first fails there, leaving the chain. -/
theorem throw_bind_runOn_eq {e : ChainError} {f : α → ChainM β} {c c' : Chain}
    {r : Except ChainError β} (h : ((throw e : ChainM α) >>= f).runOn c = .ok (r, c')) :
    c' = c ∧ r = .error e := by
  rcases bind_runOn_eq h with ⟨e', hx, rfl⟩ | ⟨a, c₁, hx, -⟩
  · obtain ⟨rfl, he⟩ := throw_runOn_eq hx
    cases he
    exact ⟨rfl, rfl⟩
  · nomatch (throw_runOn_eq hx).2

theorem submit_state {tx : Transaction} {c c' : Chain} {r : Except ChainError Unit}
    (h : (submit tx).runOn c = .ok (r, c')) :
    c' = { c with mempool := (c.mempool.push tx c.ledger c.params).1 } := by
  unfold submit at h
  rw [bind_runOn_of_ok rfl] at h
  dsimp only at h
  rcases hp : c.mempool.push tx c.ledger c.params with ⟨m, res⟩
  rw [hp] at h
  dsimp only at h
  rw [bind_runOn_of_ok rfl] at h
  cases res with
  | ok a => cases h; rfl
  | error e => cases h; rfl

theorem propose_state {kp : Keypair} {ts : UInt64} {c c' : Chain} {r : Except ChainError Block}
    (h : (propose kp ts).runOn c = .ok (r, c')) :
    c' = c ∨ ∃ d, c' = c.setStatus d .proposed := by
  unfold propose at h
  rw [bind_runOn_of_ok rfl] at h
  dsimp only at h
  rcases bind_runOn_eq h with ⟨e, hx, -⟩ | ⟨height, c₁, hx, h⟩
  · exact .inl (orAbort_runOn_eq hx).1
  obtain ⟨rfl, -⟩ := orAbort_runOn_eq hx
  split at h
  · split at h
    · exact .inl (throw_bind_runOn_eq h).1
    rcases bind_runOn_eq h with ⟨e, hx, -⟩ | ⟨⟨blk, out⟩, c₂, hx, hrest⟩
    · exact .inl (guarded_runOn_eq hx)
    · obtain rfl := guarded_runOn_eq hx
      rw [bind_runOn_of_ok rfl] at hrest
      exact .inr ⟨_, (pure_runOn_eq hrest).1⟩
  · exact .inl (throw_runOn_eq h).1

theorem receiveEvidence_state {e : Evidence} {c c' : Chain} {r : Except ChainError SubmitOutcome}
    (h : (receiveEvidence e).runOn c = .ok (r, c')) : c' = (c.submitEvidence e).1 := by
  unfold receiveEvidence at h
  rw [bind_runOn_of_ok rfl] at h
  cases h
  rfl

theorem modify_runOn_eq {g : Chain → Chain} {c c' : Chain} {r : Except ChainError PUnit}
    (h : (modify g : ChainM PUnit).runOn c = .ok (r, c')) : c' = g c ∧ r = .ok PUnit.unit := by
  cases h
  exact ⟨rfl, rfl⟩

/-- Casting the local vote records it as the vote at its height, marks the block voted, counts
the vote with the tracker and broadcasts it. -/
theorem castVote_state {signer : Keypair} {height : UInt64} {hash : Digest} {c c' : Chain}
    {r : Except ChainError Unit} (h : (castVote signer height hash).runOn c = .ok (r, c')) :
    ∃ fm res, c.finality.recordVote (Vote.signWith signer height hash) = .ok (fm, res) ∧
      r = .ok () ∧
      c' = { ({ c with ownVotes := c.ownVotes.insert height hash }.setStatus hash .voted) with
        finality := fm }.emit (.broadcast (Vote.signWith signer height hash)) := by
  unfold castVote at h
  dsimp only at h
  rw [bind_runOn_of_ok rfl, bind_runOn_of_ok rfl] at h
  rcases bind_runOn_eq h with ⟨e, hx, -⟩ | ⟨⟨fm, res⟩, c₁, hx, hrest⟩
  · nomatch (orAbort_runOn_eq hx).2
  · obtain ⟨rfl, p, hrec, hres⟩ := orAbort_runOn_eq hx
    cases hres
    obtain ⟨rfl, rfl⟩ := modify_runOn_eq hrest
    exact ⟨fm, res, hrec, rfl, rfl⟩

/-- The local vote is cast only by a validator of the given snapshot that has not voted for
another block at the height; otherwise nothing changes. -/
theorem ownVote_cases {height : UInt64} {hash : Digest} {voters : Option ValidatorSet}
    {c c' : Chain} {r : Except ChainError Unit}
    (h : (ownVote height hash voters).runOn c = .ok (r, c')) :
    r = .ok () ∧ (c' = c ∨ ∃ signer vset, c.signer = some signer ∧ voters = some vset ∧
      vset.contains signer.address = true ∧
      (c.ownVotes.get? height = none ∨ c.ownVotes.get? height = some hash) ∧
      (castVote signer height hash).runOn c = .ok (r, c')) := by
  have hcast : ∀ signer, c.signer = some signer →
      (c.ownVotes.get? height = none ∨ c.ownVotes.get? height = some hash) →
      (if (voters.map fun v => v.contains signer.address).getD false = true then
        castVote signer height hash else pure PUnit.unit).runOn c = .ok (r, c') →
      r = .ok () ∧ (c' = c ∨ ∃ signer vset, c.signer = some signer ∧ voters = some vset ∧
        vset.contains signer.address = true ∧
        (c.ownVotes.get? height = none ∨ c.ownVotes.get? height = some hash) ∧
        (castVote signer height hash).runOn c = .ok (r, c')) := by
    intro signer hsigner hprior hrun
    split at hrun
    · rename_i hin
      obtain ⟨-, -, -, rfl, -⟩ := castVote_state hrun
      cases voters with
      | none => exact absurd hin Bool.false_ne_true
      | some vset => exact ⟨rfl, .inr ⟨signer, vset, hsigner, rfl, hin, hprior, hrun⟩⟩
    · obtain ⟨rfl, rfl⟩ := pure_runOn_eq hrun
      exact ⟨rfl, .inl rfl⟩
  unfold ownVote at h
  rw [bind_runOn_of_ok rfl] at h
  dsimp only at h
  split at h
  · rename_i signer hsigner
    split at h
    · rename_i prior hprior
      split at h
      · obtain ⟨rfl, rfl⟩ := pure_runOn_eq h
        exact ⟨rfl, .inl rfl⟩
      · rename_i hsame
        exact hcast signer hsigner (.inr (hprior.trans (congrArg some (not_not.mp hsame)))) h
    · rename_i hnone
      exact hcast signer hsigner (.inl hnone) h
  · obtain ⟨rfl, rfl⟩ := pure_runOn_eq h
    exact ⟨rfl, .inl rfl⟩

/-- A vote goes to the tracker, the tracker's evidence to the evidence pool, and a vote that
finalized its height is followed by a commit. -/
theorem receiveVote_cases {v : Vote} {c c' : Chain} {r : Except ChainError Bool}
    (h : (receiveVote v).runOn c = .ok (r, c')) :
    ∃ fm res, c.finality.recordVote v = .ok (fm, res) ∧
      ((res ≠ .ok true ∧ c' = Chain.forwardFinalityEvidence { c with finality := fm }) ∨
        (res = .ok true ∧ c' = (Chain.forwardFinalityEvidence { c with finality := fm }).tryCommit.1)) := by
  unfold receiveVote at h
  rw [bind_runOn_of_ok rfl] at h
  rcases bind_runOn_eq h with ⟨e, hx, -⟩ | ⟨⟨fm, res⟩, c₁, hx, hrest⟩
  · nomatch (orAbort_runOn_eq hx).2
  obtain ⟨rfl, p, hrec, hres⟩ := orAbort_runOn_eq hx
  cases hres
  rw [bind_runOn_of_ok rfl] at hrest
  refine ⟨fm, res, hrec, ?_⟩
  split at hrest
  · rcases bind_runOn_eq hrest with ⟨e, hx, -⟩ | ⟨u, c₂, hx, hlast⟩
    · rw [commit_runOn] at hx
      simp only [Except.ok.injEq, Prod.mk.injEq] at hx
      exact .inr ⟨rfl, hx.2.symm⟩
    · rw [commit_runOn] at hx
      simp only [Except.ok.injEq, Prod.mk.injEq] at hx
      rw [(pure_runOn_eq hlast).1, ← hx.2]
      exact .inr ⟨rfl, rfl⟩
  · exact .inl ⟨nofun, (pure_runOn_eq hrest).1⟩
  · exact .inl ⟨nofun, (throw_runOn_eq hrest).1⟩

/-- A failure ends the step: what follows it never runs. -/
theorem throw_bind_eq (e : ChainError) (f : α → ChainM β) : ((throw e : ChainM α) >>= f) = throw e :=
  rfl

/-- A validated block extends the head and verifies, and validation leaves the chain as it
is; a refused block leaves it too, except that a double proposal is reported to the evidence
pool, and the pending blocks may be dropped. -/
theorem validate_cases {b : Block} {hash : Digest} {c c' : Chain}
    {r : Except ChainError BlockOutcome} (h : (validate b hash).runOn c = .ok (r, c')) :
    (∃ outcome, r = .ok outcome ∧ c' = c ∧ b.height.toNat = c.head.1.toNat + 1 ∧
      b.header.parent = c.head.2.1 ∧ c.head.2.2 ≤ b.header.timestamp ∧
      (∃ v, c.proposerFor b.height = some v ∧ v.address = b.header.proposer) ∧
      (verifyBlock c.headLedger b c.params).run = .ok (.ok outcome)) ∨
    (∃ e, r = .error e ∧ c' = c) ∨
    (∃ ev, r = .error (.equivocation hash) ∧
      (c' = (c.submitEvidence ev).1 ∨ c' = (c.submitEvidence ev).1.revertToFinalized)) := by
  unfold validate at h
  rw [bind_runOn_of_ok rfl] at h
  -- a refusal ends validation, so each check keeps one copy of the checks after it
  simp only [↓throw_bind_eq] at h
  split at h
  · -- at or below the head: a double proposal, or a refusal
    split at h
    · rename_i ev _
      rw [bind_runOn_of_ok rfl] at h
      split at h
      · rw [bind_runOn_of_ok rfl] at h
        exact .inr (.inr ⟨ev, (throw_runOn_eq h).2, .inr (throw_runOn_eq h).1⟩)
      · exact .inr (.inr ⟨ev, (throw_runOn_eq h).2, .inl (throw_runOn_eq h).1⟩)
    · split at h
      · exact .inr (.inl ⟨_, (throw_runOn_eq h).2, (throw_runOn_eq h).1⟩)
      · rcases bind_runOn_eq h with ⟨e, hx, rfl⟩ | ⟨a, c₁, hx, hrest⟩
        · exact .inr (.inl ⟨e, rfl, (orAbort_runOn_eq hx).1⟩)
        · obtain ⟨rfl, -⟩ := orAbort_runOn_eq hx
          obtain ⟨rfl, rfl⟩ := throw_runOn_eq hrest
          exact .inr (.inl ⟨_, rfl, rfl⟩)
  · rename_i hle
    rcases bind_runOn_eq h with ⟨e, hx, rfl⟩ | ⟨next, c₁, hx, h⟩
    · exact .inr (.inl ⟨e, rfl, (orAbort_runOn_eq hx).1⟩)
    obtain ⟨hc₁, _, hnext, hres⟩ := orAbort_runOn_eq hx
    cases hres
    rw [hc₁] at h
    have hrefused : ∀ e, (throw e : ChainM BlockOutcome).runOn c = .ok (r, c') →
        ∃ e, r = .error e ∧ c' = c := fun e he => ⟨e, (throw_runOn_eq he).2, (throw_runOn_eq he).1⟩
    split at h
    · exact .inr (.inl (hrefused _ h))
    rename_i hgt
    split at h
    · exact .inr (.inl (hrefused _ h))
    rename_i hparent
    split at h
    · exact .inr (.inl (hrefused _ h))
    rename_i hts
    split at h
    · rename_i expected hexp
      split at h
      · exact .inr (.inl (hrefused _ h))
      rename_i hproposer
      cases r with
      | error e => exact .inr (.inl ⟨e, rfl, guarded_runOn_eq h⟩)
      | ok outcome =>
        have hc := guarded_runOn_eq h
        subst hc
        obtain ⟨hver, -⟩ := guarded_eq_ok h
        have hnext' := Word.addStrict_eq_ok hnext
        refine .inl ⟨outcome, rfl, rfl, ?_, not_not.mp hparent, ?_,
          ⟨expected, hexp, not_not.mp hproposer⟩, hver⟩
        · rw [UInt64.le_iff_toNat_le] at hle
          rw [gt_iff_lt, UInt64.lt_iff_toNat_lt] at hgt
          rw [UInt64.toNat_one] at hnext'
          omega
        · exact UInt64.not_lt.mp hts
    · exact .inr (.inl (hrefused _ h))

theorem tryCatch_runOn_eq {x : ChainM α} {handler : ChainError → ChainM α} {c c' : Chain}
    {r : Except ChainError α} (h : (tryCatch x handler).runOn c = .ok (r, c')) :
    (∃ a, x.runOn c = .ok (.ok a, c') ∧ r = .ok a) ∨
      ∃ e c₁, x.runOn c = .ok (.error e, c₁) ∧ (handler e).runOn c₁ = .ok (r, c') := by
  change (ExceptT.run (ExceptT.tryCatch x handler)).run c = _ at h
  simp only [ExceptT.tryCatch, ExceptT.run_mk, StateT.run_bind] at h
  cases hx : StateT.run x c with
  | error a =>
    rw [hx] at h
    nomatch h
  | ok p =>
    obtain ⟨res, c₁⟩ := p
    rw [hx] at h
    cases res with
    | ok a =>
      simp only [bind, Except.bind, pure] at h
      obtain ⟨rfl, rfl⟩ := h
      exact .inl ⟨a, hx, rfl⟩
    | error e => exact .inr ⟨e, c₁, hx, h⟩

/-- A refused block is marked rejected, unless the refusal only reflects the current head. -/
theorem refusal_runOn_eq {b : Block} {e : ChainError} {c c' : Chain} {r : Except ChainError BlockOutcome}
    (h : ((match e with
      | .block be => if be.dependsOnHead = true then throw e
          else do modify fun c => c.setStatus b.hash .rejected; throw e
      | _ => do modify fun c => c.setStatus b.hash .rejected; throw e) : ChainM BlockOutcome).runOn c =
        .ok (r, c')) :
    (c' = c ∨ c' = c.setStatus b.hash .rejected) ∧ r = .error e := by
  split at h
  · split at h
    · exact ⟨.inl (throw_runOn_eq h).1, (throw_runOn_eq h).2⟩
    · rw [bind_runOn_of_ok rfl] at h
      exact ⟨.inr (throw_runOn_eq h).1, (throw_runOn_eq h).2⟩
  · rw [bind_runOn_of_ok rfl] at h
    exact ⟨.inr (throw_runOn_eq h).1, (throw_runOn_eq h).2⟩

/-- A block is refused, at most reporting a double proposal, dropping the pending blocks and
marking it rejected; or it passed validation on the chain as it was and is accepted. -/
theorem receiveBlock_cases {b : Block} {c c' : Chain} {r : Except ChainError BlockStatus}
    (h : (receiveBlock b).runOn c = .ok (r, c')) :
    (∃ d, (d = c ∨ ∃ ev, d = (c.submitEvidence ev).1 ∨ d = (c.submitEvidence ev).1.revertToFinalized) ∧
      (c' = d ∨ c' = d.setStatus b.hash .rejected)) ∨
    ∃ outcome, (validate b b.hash).runOn c = .ok (.ok outcome, c) ∧
      (acceptBlock b b.hash outcome).runOn c = .ok (r, c') := by
  have hfresh : ((tryCatch (validate b b.hash) fun e =>
      (match e with
        | .block be => if be.dependsOnHead = true then throw e
            else do modify fun c => c.setStatus b.hash .rejected; throw e
        | _ => do modify fun c => c.setStatus b.hash .rejected; throw e : ChainM BlockOutcome)) >>=
      fun outcome => acceptBlock b b.hash outcome).runOn c = .ok (r, c') →
      (∃ d, (d = c ∨ ∃ ev, d = (c.submitEvidence ev).1 ∨ d = (c.submitEvidence ev).1.revertToFinalized) ∧
        (c' = d ∨ c' = d.setStatus b.hash .rejected)) ∨
      ∃ outcome, (validate b b.hash).runOn c = .ok (.ok outcome, c) ∧
        (acceptBlock b b.hash outcome).runOn c = .ok (r, c') := by
    intro hrun
    rcases bind_runOn_eq hrun with ⟨e, hx, -⟩ | ⟨outcome, c₁, hx, hrest⟩
    · rcases tryCatch_runOn_eq hx with ⟨a, -, hr⟩ | ⟨e', c₁, hval, hhandle⟩
      · nomatch hr
      have hd : c₁ = c ∨ ∃ ev, c₁ = (c.submitEvidence ev).1 ∨
          c₁ = (c.submitEvidence ev).1.revertToFinalized := by
        rcases validate_cases hval with ⟨_, hr, -⟩ | ⟨_, -, hc⟩ | ⟨ev, -, hc⟩
        · nomatch hr
        · exact .inl hc
        · exact .inr ⟨ev, hc⟩
      exact .inl ⟨c₁, hd, (refusal_runOn_eq hhandle).1⟩
    · rcases tryCatch_runOn_eq hx with ⟨a, hval, hr⟩ | ⟨e', c₂, -, hhandle⟩
      · cases hr
        rcases validate_cases hval with ⟨_, hr, rfl, -⟩ | ⟨_, hr, -⟩ | ⟨_, hr, -⟩
        · cases hr
          exact .inr ⟨outcome, hval, hrest⟩
        · nomatch hr
        · nomatch hr
      · nomatch (refusal_runOn_eq hhandle).2
  unfold receiveBlock at h
  rw [bind_runOn_of_ok rfl] at h
  split at h
  · exact hfresh h
  · exact hfresh h
  · exact .inl ⟨c, .inl rfl, .inl (pure_runOn_eq h).1⟩

/-- Accepting a block appends it to the pending blocks and registers the snapshot of the next
height with the tracker; then comes the local vote, the tracker's evidence goes to the pool, and
what the tracker finalized is committed. -/
theorem acceptBlock_cases {b : Block} {hash : Digest} {outcome : BlockOutcome} {c c' : Chain}
    {r : Except ChainError BlockStatus} (h : (acceptBlock b hash outcome).runOn c = .ok (r, c')) :
    ∃ next fm fin c₃, Word.addStrict b.height 1 = .ok next ∧
      c.finality.registerValidatorSet (outcome.ledger.validatorSet next c.params.minValidatorStake) =
        .ok (fm, fin) ∧
      (ownVote b.height hash (c.snapshots.get? b.height)).runOn
        { ({ c with
              snapshots := c.snapshots.insert next (outcome.ledger.validatorSet next c.params.minValidatorStake),
              pending := c.pending ++ [({ block := b, hash := hash, outcome := outcome } : PendingBlock)] }.setStatus hash .validated) with
          finality := fm } = .ok (.ok (), c₃) ∧
      c' = c₃.forwardFinalityEvidence.tryCommit.1 := by
  unfold acceptBlock at h
  rw [bind_runOn_of_ok rfl] at h
  rcases bind_runOn_eq h with ⟨e, hx, -⟩ | ⟨next, c₁, hx, h⟩
  · nomatch (orAbort_runOn_eq hx).2
  obtain ⟨hc₁, _, hnext, hres⟩ := orAbort_runOn_eq hx
  cases hres
  rw [hc₁, bind_runOn_of_ok rfl, bind_runOn_of_ok rfl] at h
  rcases bind_runOn_eq h with ⟨e, hx, -⟩ | ⟨⟨fm, fin⟩, c₂, hx, h⟩
  · nomatch (orAbort_runOn_eq hx).2
  obtain ⟨hc₂, _, hreg, hres⟩ := orAbort_runOn_eq hx
  cases hres
  rw [hc₂, bind_runOn_of_ok rfl] at h
  rcases bind_runOn_eq h with ⟨e, hx, -⟩ | ⟨u, c₃, hvote, h⟩
  · nomatch (ownVote_cases hx).1
  refine ⟨next, fm, fin, c₃, hnext, hreg, hvote, ?_⟩
  rw [bind_runOn_of_ok rfl] at h
  rcases bind_runOn_eq h with ⟨e, hx, -⟩ | ⟨u, c₄, hx, h⟩
  · rw [commit_runOn] at hx
    simp only [Except.ok.injEq, Prod.mk.injEq] at hx
    exact hx.2.symm
  · rw [commit_runOn] at hx
    simp only [Except.ok.injEq, Prod.mk.injEq] at hx
    rw [bind_runOn_of_ok rfl] at h
    rw [(pure_runOn_eq h).1, ← hx.2]

end ChainM

/-- The devnet node at genesis is the chain opened over an empty store. -/
theorem soloNode_ofStore :
    (Chain.ofStore (Devnet.withValidators {} 1) {} (some soloKey)).run = .ok (.ok soloNode) := by
  unfold soloNode
  generalize soloOpened_isSome = hs
  revert hs
  unfold soloOpened
  generalize (Chain.ofStore (Devnet.withValidators {} 1) {} (some soloKey)).run = r
  rcases r with a | e | c
  · intro hs
    exact absurd hs (by simp [Except.toOption])
  · intro hs
    exact absurd hs (by simp [Except.toOption, Option.bind])
  · intro hs
    rfl

/-- The devnet node at genesis is a chain opened over a store. -/
theorem soloNode_opened : soloNode.Opened :=
  ⟨Devnet.withValidators {} 1, {}, some soloKey, soloNode_ofStore⟩

/-! ## The devnet past genesis

The devnet's node receives the block it proposed, votes for it, which alone is a quorum, and
commits it; it proposes, receives and commits a second block; and a node is opened again over
the store the two blocks were written to.  Every fact these runs need is decided in one kernel
evaluation (`soloRuns_compute`), so that the devnet is computed once. -/

theorem Except.eq_ok_getD {ε α : Type} {x : Except ε α} (d : α) (h : x.toOption.isSome = true) :
    x = .ok (x.toOption.getD d) := by
  cases x with
  | error e => cases h
  | ok a => rfl

theorem Except.eq_ok_ok_getD {ε₁ ε₂ α : Type} {x : Except ε₁ (Except ε₂ α)} (d : α)
    (h : (x.toOption.bind Except.toOption).isSome = true) :
    x = .ok (.ok ((x.toOption.bind Except.toOption).getD d)) := by
  rcases x with e | e | a
  · cases h
  · cases h
  · rfl

/-- The devnet's node once it has received its first block. -/
def soloCommitted : Chain := (soloProposed.step (.block soloBlock)).toOption.getD soloProposed

/-- The second block the devnet's validator proposes, at timestamp 2. -/
def soloSecondBlock : Block :=
  (((ChainM.propose soloKey 2).runOn soloCommitted).toOption.bind fun r => r.1.toOption).getD
    default

/-- The chain the second proposal leaves. -/
def soloSecondProposed : Chain :=
  (soloCommitted.step (.propose soloKey 2)).toOption.getD soloCommitted

/-- The devnet's node once it has received its second block. -/
def soloSecondCommitted : Chain :=
  (soloSecondProposed.step (.block soloSecondBlock)).toOption.getD soloSecondProposed

/-- Opening a node over the store the devnet's two blocks were written to. -/
def soloReopening : Option Chain :=
  (Chain.ofStore (Devnet.withValidators {} 1) soloSecondCommitted.store.kv
    (some soloKey)).run.toOption.bind Except.toOption

/-- The devnet's node opened again over its store, after two blocks. -/
def soloReopened : Chain := soloReopening.getD soloNode

/-- The first block with another timestamp: a new hash, and a signature that no longer
matches. -/
def soloBlockRetimed : Block :=
  { soloBlock with header := { soloBlock.header with timestamp := 2 } }

/-- What the devnet's runs compute.  Every step goes through, the node commits a block with
each, and the reopened node is final at height 2 with the second block; the retimed first block
has no status and is no double proposal. -/
theorem soloRuns_compute :
    (soloProposed.step (.block soloBlock)).toOption.isSome = true ∧
    (soloCommitted.step (.propose soloKey 2)).toOption.isSome = true ∧
    (soloSecondProposed.step (.block soloSecondBlock)).toOption.isSome = true ∧
    soloReopening.isSome = true ∧
    soloCommitted.finalizedHeight = 1 ∧ soloReopened.finalizedHeight = 2 ∧
    soloBlock.height = 1 ∧ soloBlock.hash ≠ soloReopened.finalizedHash ∧
    soloCommitted.blockStatus soloBlockRetimed.hash = none ∧
    soloCommitted.doubleProposal soloBlockRetimed soloBlockRetimed.hash = none := by
  decide +kernel

theorem soloProposed_step : soloNode.step (.propose soloKey 1) = .ok soloProposed :=
  Chain.snd_runOn_of_eq_ok propose_soloNode

theorem soloCommitted_step : soloProposed.step (.block soloBlock) = .ok soloCommitted :=
  Except.eq_ok_getD _ soloRuns_compute.1

theorem soloSecondProposed_step :
    soloCommitted.step (.propose soloKey 2) = .ok soloSecondProposed :=
  Except.eq_ok_getD _ soloRuns_compute.2.1

theorem soloSecondCommitted_step :
    soloSecondProposed.step (.block soloSecondBlock) = .ok soloSecondCommitted :=
  Except.eq_ok_getD _ soloRuns_compute.2.2.1

theorem soloCommitted_finalizedHeight : soloCommitted.finalizedHeight = 1 :=
  soloRuns_compute.2.2.2.2.1

/-- From genesis, the devnet's node commits its first block in two inputs. -/
theorem soloNode_runs_to_soloCommitted :
    Relation.ReflTransGen Chain.StepsTo soloNode soloCommitted :=
  .tail (.single ⟨_, soloProposed_step⟩) ⟨_, soloCommitted_step⟩

theorem soloCommitted_reachable : soloCommitted.Reachable :=
  ⟨soloNode, soloNode_opened, soloNode_runs_to_soloCommitted⟩

/-- The store the node is reopened over is that of a chain a run reaches. -/
theorem soloSecondCommitted_reachable : soloSecondCommitted.Reachable :=
  soloCommitted_reachable.step _ soloSecondProposed_step |>.step _ soloSecondCommitted_step

/-- The reopened node is a chain opened over a store. -/
theorem soloReopened_opened : soloReopened.Opened :=
  ⟨_, _, _, Except.eq_ok_ok_getD soloNode soloRuns_compute.2.2.2.1⟩

end StakeChain

import StakeChain.Proofs.Store.Mirror
import StakeChain.Proofs.Chain.Phases

/-!
# The store holds the final block

A chain keeps its final block and ledger in memory and in its store. `Chain.Persisted` says
that the two agree: the store holds, as its tip, a block with the chain's final header and hash,
and the chain's ledger (`ChainStore.Holds`).

Opening over an empty store writes genesis and holds it (`Persisted.openedFresh`). The first
phase of an input writes nothing, and keeps the entries and the cache (`Chain.Unwritten`).
Committing writes the pending blocks one batch each. Each batch writes the accounts that differ
from the ledger held before it, and that ledger is the parent ledger the block was executed
from. A write that fails leaves the store and the chain as the last written block left them
(`Persisted.commitOldest`, `Persisted.tryCommit`). So every input keeps the agreement
(`Persisted.step`), whatever the switch that makes writes fail does.

The store then reads back the final tip, the final block and the ledger, and a chain opened
again over its entries resumes from the same final block and ledger
(`ChainStore.Holds.reopen`), when the records decode as they were written
(`final_state_persisted`).
-/

set_option autoImplicit false

namespace StakeChain

namespace Chain

/-- The store holds the final block and the ledger: some block with the chain's final header
and hash is the stored tip, stored with the chain's ledger, and the ledger's state root is the
one the final header commits to. -/
structure Persisted (c : Chain) : Prop where
  holds : ∃ B : Block, c.store.Holds B c.ledger ∧ B.signedHeader = c.finalized ∧
    B.hash = c.finalizedHash
  stateRoot : c.ledger.stateRoot = c.finalized.header.stateRoot

section Persisted

variable {c d : Chain}

/-- A change that keeps the entries, the cache, the final block and the ledger keeps the
agreement. -/
theorem Persisted.frame (h : c.Persisted) (hentries : d.store.kv.entries = c.store.kv.entries)
    (hcache : d.store.cache = c.store.cache) (hfinal : d.finalized = c.finalized)
    (hhash : d.finalizedHash = c.finalizedHash) (hledger : d.ledger = c.ledger) : d.Persisted := by
  obtain ⟨B, hB, hsigned, hBhash⟩ := h.holds
  refine ⟨⟨B, ?_, hfinal ▸ hsigned, hhash ▸ hBhash⟩, ?_⟩
  · rw [hledger]
    exact hB.congr hentries hcache
  · rw [hledger, hfinal]
    exact h.stateRoot

theorem Persisted.unwritten (h : c.Persisted) (hw : c.Unwritten d) : d.Persisted :=
  h.frame hw.entries hw.cache hw.finalized hw.finalizedHash hw.ledger

/-- Writing the oldest pending block keeps the agreement, and the blocks left extend the new
final block. The block was executed from the held ledger, so its ledger only rewrote accounts
of the held one and the batch of changed accounts completes the store. -/
theorem Persisted.commitOldest (h : d.Persisted) (hext : d.finalTip.Extends d.params d.pending)
    {certified : UInt64} {cert : Option Certificate} {d' : Chain}
    (hc : d.commitOldest certified cert = .ok d') :
    d'.Persisted ∧ d'.finalTip.Extends d'.params d'.pending := by
  rcases commitOldest_eq_ok hc with ⟨-, rfl⟩ | ⟨p, rest, store, hcons, hstore, rfl⟩
  · exact ⟨h, hext⟩
  rw [hcons] at hext
  obtain ⟨⟨-, -, -, hhash, hver⟩, hrest⟩ := hext
  obtain ⟨B, hB, -, -⟩ := h.holds
  have hrw : d.ledger.Rewrites p.outcome.ledger := Ledger.rewrites_verifyBlock hver
  have hholds : store.Holds p.block p.outcome.ledger := hB.commitBlock hrw hstore
  exact ⟨⟨⟨p.block, hholds, rfl, hhash.symm⟩, (verifyBlock_eq_ok hver).2.2⟩, hrest⟩

/-- Committing keeps the agreement: nothing is written, or a local fork is dropped, or the
pending blocks are written up to the first failed write. -/
theorem Persisted.tryCommit (h : c.Persisted) (hc : c.Coherent) : c.tryCommit.1.Persisted := by
  rcases tryCommit_cases c with heq | ⟨idx, st, -, -, -, heq⟩ | ⟨idx, -, -, -, hres⟩
  · rw [heq]
    exact h
  · rw [heq]
    exact h.frame rfl rfl rfl rfl rfl
  let P : Nat → Chain → Prop := fun _ d => d.Persisted ∧ d.finalTip.Extends d.params d.pending
  obtain ⟨m, hP, -⟩ := @commitOldestN_induction c.finality.finalizedHeight
    (c.finality.certificate c.finality.finalizedHeight) P
    (fun _ _ _ hd hcommit => hd.1.commitOldest hd.2 hcommit) (idx + 1) c ⟨h, hc.pending⟩
  rcases hres with ⟨e, -, heq⟩ | ⟨-, heq⟩
  · rw [heq]
    exact hP.1
  · rw [heq]
    exact hP.1.frame rfl rfl rfl rfl rfl

/-- Every input keeps the agreement. -/
theorem Persisted.step (h : c.Persisted) (hc : c.Coherent) {i : ChainInput} {c' : Chain}
    (hs : c.step i = .ok c') : c'.Persisted := by
  obtain ⟨d, hd, hw, rfl | rfl⟩ := step_phases hc hs
  · exact h.unwritten hw
  · exact (h.unwritten hw).tryCommit hd

end Persisted

end Chain

/-! ## Opening -/

theorem Except.mapError_eq_ok {ε ε' α : Type} {f : ε → ε'} {x : Except ε α} {a : α}
    (h : x.mapError f = .ok a) : x = .ok a := by
  cases x with
  | error e => cases h
  | ok b =>
    cases h
    rfl

@[simp] theorem Tally.best_empty : ({} : Tally).best = none := rfl

/-- A tracker that holds no votes registers a snapshot and finalizes nothing. -/
theorem FinalityManager.registerValidatorSet_fresh (fm : FinalityManager)
    (hheights : fm.heights = .empty) (hparked : fm.parked = .empty) (vset : ValidatorSet) :
    fm.registerValidatorSet vset = .ok (fm.install vset, false) := by
  unfold FinalityManager.registerValidatorSet FinalityManager.install
  simp only [hheights, hparked, KeyMap.get?_empty, pure_bind, Bool.false_eq_true, if_false]
  unfold FinalityManager.tryFinalize
  split
  · rfl
  · simp only [KeyMap.get?_insert_self, Tally.best_empty]

namespace Chain

/-- Resuming from an empty store writes genesis: the configuration's genesis ledger and the
genesis block over it. -/
theorem resume_empty_eq_ok {cfg : ChainConfig} {store : ChainStore} {ledger : Ledger} {tip : Block}
    (h : resume cfg { kv := {} } = .ok (store, ledger, tip)) :
    cfg.genesisLedger = .ok ledger ∧ tip = Block.genesis ledger cfg.genesis.timestamp ∧
      ({ kv := {} } : ChainStore).commitGenesis tip ledger = .ok store := by
  unfold resume at h
  have htip : ({ kv := {} } : ChainStore).tip = .ok none := rfl
  rw [htip] at h
  obtain ⟨t, ht, h⟩ := Except.bind_eq_ok h
  cases ht
  obtain ⟨l, hl, h⟩ := Except.bind_eq_ok h
  obtain ⟨s, hs, h⟩ := Except.bind_eq_ok h
  cases h
  exact ⟨Except.mapError_eq_ok hl, rfl, Except.mapError_eq_ok hs⟩

/-- Opening over an empty store holds the genesis block and ledger. -/
theorem Persisted.openedFresh {cfg : ChainConfig} {signer : Option Keypair} {c : Chain}
    (h : (ofStore cfg {} signer).run = .ok (.ok c)) : c.Persisted := by
  obtain ⟨store, ledger, tip, -, -, -, -, hres, -, -, -, rfl⟩ := ofStore_eq_ok h
  obtain ⟨hgen, rfl, hcommit⟩ := resume_empty_eq_ok hres
  have hrw : ({} : Ledger).Rewrites ledger := rewrites_genesisLedger hgen
  exact ⟨⟨_, ChainStore.holds_commitGenesis hcommit hrw, rfl, rfl⟩, rfl⟩

/-! ## Opening again -/

/-- Resuming from entries that hold a block and a ledger whose records decode gives them back,
with the block read into the cache. -/
theorem resume_of_holds {cfg : ChainConfig} {kv : MemStore} {B : Block} {l : Ledger}
    (h : kv.Holds B l)
    (haddr : ∀ a acct, l.accounts.get? a = some acct → a.bytes.length = 20)
    (hagg : Ledger.aggregatesDecoder.decode l.encodeAggregates = some { l with accounts := .empty })
    (hblock : Block.decoder.decode B.encode = some B) (hroot : l.stateRoot = B.header.stateRoot) :
    resume cfg { kv := kv } =
      .ok ({ kv := kv, cache := ({ kv := kv } : ChainStore).cache.put B.height B }, l, B) := by
  have hs : ({ kv := kv } : ChainStore).kv.Holds B l := h
  unfold resume
  rw [hs.tip_eq, hs.loadLedger_eq haddr hagg]
  simp only [Except.mapError, Except.ok_bind]
  rw [h.block_fresh hblock]
  simp [hroot]
  rfl

/-- Opening goes through once resuming does, the newest certificate at or below the tip is read
and the tip is below the largest height. -/
theorem ofStore_of_resume {cfg : ChainConfig} {kv : MemStore} (signer : Option Keypair)
    {store : ChainStore} {ledger : Ledger} {tip : Block} {latest : Option Certificate}
    (hcfg : cfg.validate = .ok ()) (hres : resume cfg { kv := kv } = .ok (store, ledger, tip))
    (hlatest : store.latestCertificate tip.height = .ok latest)
    (hheight : tip.height.toNat + 1 < UInt64.size) :
    ∃ c, (ofStore cfg kv signer).run = .ok (.ok c) ∧ c.store = store ∧ c.ledger = ledger ∧
      c.finalized = tip.signedHeader ∧ c.finalizedHash = tip.hash := by
  have hnext : Word.addStrict tip.height 1 = .ok (tip.height + 1) := Word.addStrict_of_lt hheight
  -- the tracker starts from the tip with no votes, so registering the next snapshot goes
  -- through, with or without a restored certificate
  cases latest <;>
  · refine ⟨?_, ?_, ?_⟩
    rotate_left
    · unfold ofStore
      simp only [hcfg, hres, Except.mapError, Guarded.ofExcept_ok_bind, hlatest, hnext,
        Guarded.ofAbort_ok_bind, FinalityManager.init, FinalityManager.restoreCertificate,
        FinalityManager.registerValidatorSet_fresh]
      rfl
    · exact ⟨rfl, rfl, rfl, rfl⟩

end Chain

/-- A store that holds a block and a ledger opens again at that block with that ledger, when its
records decode as they were written, its certificates decode and the block is below the
largest height; the opened chain's store holds them again. -/
theorem ChainStore.Holds.reopen {s : ChainStore} {B : Block} {l : Ledger} (h : s.Holds B l)
    (hroot : l.stateRoot = B.header.stateRoot)
    (haddr : ∀ a acct, l.accounts.get? a = some acct → a.bytes.length = 20)
    (hagg : Ledger.aggregatesDecoder.decode l.encodeAggregates = some { l with accounts := .empty })
    (hblock : Block.decoder.decode B.encode = some B)
    (hcert : ∀ k bs, s.kv.get? (Layout.certificateKey k) = some bs →
      (Certificate.decoder.decode bs).isSome)
    (hheight : B.height.toNat + 1 < UInt64.size) {cfg : ChainConfig} (hcfg : cfg.validate = .ok ())
    (signer : Option Keypair) :
    ∃ c' : Chain, (Chain.ofStore cfg s.kv signer).run = .ok (.ok c') ∧ c'.ledger = l ∧
      c'.finalized = B.signedHeader ∧ c'.finalizedHash = B.hash ∧ c'.Persisted := by
  let store : ChainStore := { kv := s.kv, cache := ({ kv := s.kv } : ChainStore).cache.put B.height B }
  have hstore : store.kv.Holds B l := h.kv
  obtain ⟨latest, hlatest⟩ := hstore.latestCertificate_ok hcert B.height
  obtain ⟨c', hrun, hs, hledger, hfinal, hhash⟩ :=
    Chain.ofStore_of_resume signer hcfg (Chain.resume_of_holds h.kv haddr hagg hblock hroot)
      hlatest hheight
  have hholds : c'.store.Holds B l := by
    rw [hs]
    have hcap : 0 < ({ kv := s.kv } : ChainStore).cache.capacity := by
      show 0 < 256
      decide
    exact ⟨hstore, RecentMap.peek?_put_self_of_pos _ _ _ hcap, hcap⟩
  refine ⟨c', hrun, hledger, hfinal, hhash, ⟨B, hledger ▸ hholds, hfinal.symm, hhash.symm⟩, ?_⟩
  rw [hledger, hfinal]
  exact hroot

/-! ## Runs from an empty store -/

namespace Chain

/-- A chain opened over an empty store. -/
def OpenedFresh (c : Chain) : Prop := ∃ cfg signer, (ofStore cfg {} signer).run = .ok (.ok c)

/-- The chains a run reaches from an empty store: opened over it, then any inputs, the switch
that makes writes fail included. -/
def ReachableFresh (c : Chain) : Prop :=
  ∃ c₀, c₀.OpenedFresh ∧ Relation.ReflTransGen StepsTo c₀ c

theorem ReachableFresh.reachable {c : Chain} (h : c.ReachableFresh) : c.Reachable := by
  obtain ⟨c₀, ⟨cfg, signer, h₀⟩, hrun⟩ := h
  exact ⟨c₀, ⟨cfg, {}, signer, h₀⟩, hrun⟩

/-- Along a run from an empty store, the store holds the final block and the ledger after every
input: induction on the run, with `Persisted.step` at each input. -/
theorem ReachableFresh.persisted {c : Chain} (h : c.ReachableFresh) : c.Persisted := by
  obtain ⟨c₀, ⟨cfg, signer, h₀⟩, hrun⟩ := h
  induction hrun with
  | refl => exact Persisted.openedFresh h₀
  | tail hfirst hlast ih =>
    obtain ⟨i, hi⟩ := hlast
    exact ih.step (Reachable.coherent ⟨c₀, ⟨cfg, {}, signer, h₀⟩, hfirst⟩) hi

end Chain

/-- The store of a chain run from an empty store mirrors its final state after every input,
failed writes included. Its tip is the final height and hash, and the block it reads at the
final height has the final header and hash. When the ledger's addresses have twenty bytes and
its record decodes as it was written, the stored ledger reads back as the chain's ledger. When
moreover the final block and the stored certificates decode and the final height is below the
largest, the chain opens again over the same entries at the same final block, hash and ledger. -/
theorem final_state_persisted {c : Chain} (hr : c.ReachableFresh) :
    c.store.tip = .ok (some (c.finalizedHeight, c.finalizedHash)) ∧
    ∃ B : Block, B.signedHeader = c.finalized ∧ B.hash = c.finalizedHash ∧
      (c.store.block c.finalizedHeight).2 = .ok (some B) ∧
      ((∀ a acct, c.ledger.accounts.get? a = some acct → a.bytes.length = 20) →
        Ledger.aggregatesDecoder.decode c.ledger.encodeAggregates =
          some { c.ledger with accounts := .empty } →
        c.store.loadLedger = .ok c.ledger ∧
        (Block.decoder.decode B.encode = some B →
          (∀ k bs, c.store.kv.get? (Layout.certificateKey k) = some bs →
            (Certificate.decoder.decode bs).isSome) →
          c.finalizedHeight.toNat + 1 < UInt64.size →
          ∀ cfg signer, cfg.validate = .ok () →
            ∃ c', (Chain.ofStore cfg c.store.kv signer).run = .ok (.ok c') ∧
              c'.finalized = c.finalized ∧ c'.finalizedHash = c.finalizedHash ∧
              c'.ledger = c.ledger)) := by
  have hp := hr.persisted
  obtain ⟨B, hB, hsigned, hhash⟩ := hp.holds
  have hheight : B.height = c.finalizedHeight := by
    unfold Chain.finalizedHeight
    rw [← hsigned]
    rfl
  have hroot : c.ledger.stateRoot = B.header.stateRoot := by
    rw [hp.stateRoot, ← hsigned]
    rfl
  refine ⟨?_, B, hsigned, hhash, ?_, fun haddr hagg =>
    ⟨hB.kv.loadLedger_eq haddr hagg, fun hblock hcert hlt cfg signer hcfg => ?_⟩⟩
  · rw [hB.kv.tip_eq, hheight, hhash]
  · rw [← hheight, hB.block_eq]
  · obtain ⟨c', hrun, hledger, hfinal, hhash', -⟩ :=
      hB.reopen hroot haddr hagg hblock hcert (hheight ▸ hlt) hcfg signer
    exact ⟨c', hrun, hfinal.trans hsigned, hhash'.trans hhash, hledger⟩

/-- The devnet node at genesis: its store holds the genesis tip and ledger, reads them back, and
opens again at the same final block, hash and ledger. -/
theorem final_state_persisted_on_devnet :
    soloNode.ReachableFresh ∧
      soloNode.store.tip = .ok (some (soloNode.finalizedHeight, soloNode.finalizedHash)) ∧
      soloNode.store.loadLedger = .ok soloNode.ledger ∧
      ∃ c', (Chain.ofStore (Devnet.withValidators {} 1) soloNode.store.kv (some soloKey)).run =
          .ok (.ok c') ∧
        c'.finalized = soloNode.finalized ∧ c'.finalizedHash = soloNode.finalizedHash ∧
        c'.ledger = soloNode.ledger := by
  have hr : soloNode.ReachableFresh := ⟨soloNode, ⟨_, _, soloNode_ofStore⟩, .refl⟩
  obtain ⟨htip, B, -, -, hread, hrest⟩ := final_state_persisted hr
  obtain ⟨hgen, hdecode, haddr, hagg, hcerts, hlt, hcfg⟩ :
      (soloNode.store.block soloNode.finalizedHeight).2 =
          .ok (some (Block.genesis soloNode.ledger (Devnet.withValidators {} 1).genesis.timestamp)) ∧
        Block.decoder.decode
            (Block.genesis soloNode.ledger (Devnet.withValidators {} 1).genesis.timestamp).encode =
          some (Block.genesis soloNode.ledger (Devnet.withValidators {} 1).genesis.timestamp) ∧
        (∀ x ∈ soloNode.ledger.accounts.toList, x.1.bytes.length = 20) ∧
        Ledger.aggregatesDecoder.decode soloNode.ledger.encodeAggregates =
          some { soloNode.ledger with accounts := .empty } ∧
        soloNode.store.kv.entriesUnder (Layout.text "cert/") = [] ∧
        soloNode.finalizedHeight.toNat + 1 < UInt64.size ∧
        (Devnet.withValidators {} 1).validate = .ok () := by
    decide +kernel
  rw [hgen] at hread
  cases hread
  have hcert : ∀ k bs, soloNode.store.kv.get? (Layout.certificateKey k) = some bs →
      (Certificate.decoder.decode bs).isSome := by
    intro k bs hget
    have hmem : (Layout.certificateKey k, bs) ∈ soloNode.store.kv.entriesUnder (Layout.text "cert/") :=
      MemStore.mem_entriesUnder.mpr ⟨KeyMap.mem_toList_of_get? hget, Layout.isPrefixOf_append _ _⟩
    rw [hcerts] at hmem
    cases hmem
  obtain ⟨hload, hopen⟩ := hrest (fun a acct hget => haddr _ (KeyMap.mem_toList_of_get? hget)) hagg
  exact ⟨hr, htip, hload, hopen hdecode hcert hlt _ _ hcfg⟩

end StakeChain

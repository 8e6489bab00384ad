import StakeChain.Proofs.Consensus.Equivocation
import StakeChain.Proofs.Chain.Durability
import StakeChain.Proofs.Block.Signatures

/-!
# Equivocation in a running chain

A proposer that signs two blocks at one height equivocates as a voter does.  A block that
arrives at a height where the chain already holds a block is checked by `Chain.doubleProposal`:
when the held header has the new block's key, another hash, and the new block's signature
verifies, the two headers become double-proposal evidence.

The held header is a pending block's, whose signature verified when the block was accepted, or a
recent final header, written when a pending block was committed or when the chain was opened at
its final block.  A store can hold any header as its tip, so the evidence verifies only when
the header the chain was opened at can be held to account (`SignedHeader.Accountable`): its
signature verifies, or it carries no key at all, as genesis does.

* `HeadersKept.step`, `headersKept_of_run`: the recent headers stay at their own heights, each
  accountable, along every run from such an opening;
* `HeadersKept.doubleProposal`: the evidence of a double proposal then names the block's
  proposer and height, and verifies;
* `equivocation_detection_sound_complete` collects this with the tracker's side
  (`StakeChain.FinalityManager.Holds.run`, `StakeChain.FinalityManager.Reachable.attested`).
-/

set_option autoImplicit false

namespace StakeChain

/-- A header an offense can be pinned on: its signature verifies, or its key is no key at all,
so that no header under that key verifies. -/
def SignedHeader.Accountable (sh : SignedHeader) : Prop :=
  sh.verify = .ok () ∨ sh.header.proposerKey.bytes.length ≠ 32

/-- An accountable header verifies as soon as another header under its key does. -/
theorem SignedHeader.Accountable.verify {sh sh' : SignedHeader} (h : sh.Accountable)
    (hkey : sh.header.proposerKey = sh'.header.proposerKey) (hv : sh'.verify = .ok ()) :
    sh.verify = .ok () := by
  rcases h with h | hlen
  · exact h
  · -- a key of another length fails before any signature is read
    rw [hkey] at hlen
    unfold SignedHeader.verify SignedHeader.verifyHeader Ed25519.verify at hv
    rw [if_pos hlen] at hv
    cases hv

/-- Two validly signed headers of one key at one height for different blocks are evidence
against the key's address at that height, and the evidence verifies. -/
theorem Evidence.ofHeaders_spec {x y : SignedHeader}
    (hkey : x.header.proposerKey = y.header.proposerKey)
    (hheight : x.header.height = y.header.height) (hne : x.hash ≠ y.hash)
    (hx : x.verify = .ok ()) (hy : y.verify = .ok ()) :
    (Evidence.ofHeaders x y).kind = .doubleProposal ∧
      (Evidence.ofHeaders x y).offender = y.header.proposer ∧
      (Evidence.ofHeaders x y).height = y.header.height ∧
      (Evidence.ofHeaders x y).verify = .ok () := by
  have hproposer : x.header.proposer = y.header.proposer := by
    unfold BlockHeader.proposer
    rw [hkey]
  unfold Evidence.ofHeaders
  split
  · exact ⟨rfl, hproposer, hheight, by simp [Evidence.verify, hkey, hheight, hne, hx, hy]⟩
  · exact ⟨rfl, rfl, rfl, by simp [Evidence.verify, hkey, hheight, Ne.symm hne, hx, hy]⟩

/-- Every block built on a tip had its proposer's signature checked. -/
theorem Tip.Extends.headers_verify {params : LedgerParams} :
    ∀ {t : Tip} {l : List PendingBlock}, t.Extends params l →
      ∀ p ∈ l, p.block.signedHeader.verify = .ok ()
  | _, [], _, _, hp => nomatch hp
  | _, q :: _, ⟨hq, hrest⟩, p, hp => by
    rcases List.mem_cons.mp hp with rfl | hp
    · exact verifyHeader_of_verifyBlock_ok hq.2.2.2.2
    · exact hrest.headers_verify p hp

namespace Chain

/-- The recent final headers sit at their own heights, each accountable. -/
def HeadersKept (c : Chain) : Prop :=
  ∀ h sh, c.recentHeaders.get? h = some sh → sh.header.height = h ∧ sh.Accountable

section HeadersKept

variable {c d : Chain}

/-- The header a chain holds at a height is at that height and accountable: a pending one
verified when its block was accepted. -/
theorem HeadersKept.headerAt (hk : c.HeadersKept) (hc : c.Coherent) {h : UInt64}
    {sh : SignedHeader} (hat : c.headerAt h = some sh) : sh.header.height = h ∧ sh.Accountable := by
  unfold Chain.headerAt at hat
  cases hp : c.pendingAt h with
  | some p =>
    rw [hp] at hat
    obtain rfl := Option.some.inj hat
    have hheight : p.block.height = h := by simpa using List.find?_some hp
    exact ⟨hheight, .inl (hc.pending.headers_verify p (List.mem_of_find?_eq_some hp))⟩
  | none =>
    rw [hp] at hat
    exact hk h sh hat

/-- Evidence of a double proposal reported by a chain with kept headers names the block's
proposer and height, and verifies. -/
theorem HeadersKept.doubleProposal (hk : c.HeadersKept) (hc : c.Coherent) {b : Block}
    {e : Evidence} (he : c.doubleProposal b b.hash = some e) :
    e.kind = .doubleProposal ∧ e.offender = b.header.proposer ∧ e.height = b.height ∧
      e.verify = .ok () := by
  unfold Chain.doubleProposal at he
  simp only [bind, Option.bind_eq_some_iff] at he
  obtain ⟨ours, hat, he⟩ := he
  split at he
  · cases he
  rename_i hdiff
  simp only [not_or, not_not] at hdiff
  obtain ⟨hne, hkey⟩ := hdiff
  split at he
  · cases he
  rename_i hsig
  -- the new block's signature verifies, and so the held header, under the same key
  have hb : b.signedHeader.verify = .ok () := by
    cases hv : SignedHeader.verifyHeader b.header b.signature with
    | ok u => exact hv
    | error err => exact absurd hv (hsig err)
  obtain ⟨hheight, hacc⟩ := hk.headerAt hc hat
  simp only [Bool.false_eq_true, if_false] at he
  obtain rfl : Evidence.ofHeaders ours b.signedHeader = e := Option.some.inj he
  exact Evidence.ofHeaders_spec hkey hheight hne (hacc.verify hkey hb) hb

theorem HeadersKept.unwritten (hk : c.HeadersKept) (hw : c.Unwritten d) : d.HeadersKept := by
  unfold HeadersKept
  rw [hw.recentHeaders]
  exact hk

/-- Committing the oldest pending block records its header, which verified, at its height. -/
theorem HeadersKept.commitOldest (hk : c.HeadersKept)
    (hv : ∀ p ∈ c.pending, p.block.signedHeader.verify = .ok ()) {certified : UInt64}
    {cert : Option Certificate} (h : c.commitOldest certified cert = .ok d) :
    d.HeadersKept ∧ ∀ p ∈ d.pending, p.block.signedHeader.verify = .ok () := by
  rcases commitOldest_eq_ok h with ⟨-, rfl⟩ | ⟨p, rest, store, hcons, -, rfl⟩
  · exact ⟨hk, hv⟩
  have hmem : ∀ q ∈ rest, q ∈ c.pending := fun q hq => by
    rw [hcons]
    exact List.mem_cons_of_mem p hq
  refine ⟨fun k sh hget => ?_, fun q hq => hv q (hmem q hq)⟩
  rw [KeyMap.get?_insert] at hget
  split at hget
  · rename_i hkp
    cases hget
    exact ⟨hkp.symm, .inl (hv p (by rw [hcons]; exact List.mem_cons_self))⟩
  · exact hk k sh hget

theorem HeadersKept.pruneRetained (hk : c.HeadersKept) : c.pruneRetained.HeadersKept := by
  intro k sh hget
  simp only [Chain.pruneRetained, KeyMap.get?_keysFrom] at hget
  split at hget
  · exact hk k sh hget
  · cases hget

/-- A commit records only headers of pending blocks, and a complete one prunes. -/
theorem HeadersKept.tryCommit (hk : c.HeadersKept) (hc : c.Coherent) :
    c.tryCommit.1.HeadersKept := by
  rcases tryCommit_cases c with heq | ⟨idx, st, -, -, -, heq⟩ | ⟨idx, -, -, -, hrun⟩
  · rw [heq]
    exact hk
  · rw [heq]
    exact hk
  -- each written block moves its header from the pending blocks to the recent headers
  obtain ⟨m, hm, hdone⟩ := commitOldestN_induction
    (fun _ d => d.HeadersKept ∧ ∀ p ∈ d.pending, p.block.signedHeader.verify = .ok ())
    (fun _ _ _ hd hstep => hd.1.commitOldest hd.2 hstep) (idx + 1) c
    ⟨hk, hc.pending.headers_verify⟩
  rcases hrun with ⟨e, herr, heq⟩ | ⟨hok, heq⟩
  · rw [heq]
    exact hm.1
  · rw [heq]
    exact hm.1.pruneRetained

/-- Every input keeps the recent headers: its first phase leaves them, and its commit records
pending headers only. -/
theorem HeadersKept.step (hk : c.HeadersKept) (hc : c.Coherent) {i : ChainInput} {c' : Chain}
    (hs : c.step i = .ok c') : c'.HeadersKept := by
  obtain ⟨d, hd, hw, rfl | rfl⟩ := step_phases hc hs
  · exact hk.unwritten hw
  · exact (hk.unwritten hw).tryCommit hd

/-- A chain opened at an accountable final block keeps its one recent header. -/
theorem HeadersKept.opened (h : c.Opened) (hacc : c.finalized.Accountable) : c.HeadersKept := by
  obtain ⟨cfg, kv, signer, hopen⟩ := h
  obtain ⟨store, ledger, tip, restored, next, fm, fin, -, -, -, -, hc⟩ := ofStore_eq_ok hopen
  intro k sh hget
  rw [hc] at hget hacc
  rw [KeyMap.get?_insert] at hget
  split at hget
  · rename_i htip
    cases hget
    exact ⟨htip.symm, hacc⟩
  · simp at hget

/-- A chain opened over an empty store is final at genesis, which carries no key. -/
theorem OpenedFresh.accountable (h : c.OpenedFresh) : c.finalized.Accountable := by
  obtain ⟨cfg, signer, hopen⟩ := h
  obtain ⟨store, ledger, tip, -, -, -, -, hres, -, -, -, rfl⟩ := ofStore_eq_ok hopen
  obtain ⟨-, rfl, -⟩ := resume_empty_eq_ok hres
  exact .inr (by simp [Block.genesis, Block.signedHeader])

end HeadersKept

/-- Along every run from an opening at an accountable final block, the recent headers stay
kept: induction on the run, with `HeadersKept.step` at each input. -/
theorem headersKept_of_run {c₀ c : Chain} (h₀ : c₀.Opened) (hacc : c₀.finalized.Accountable)
    (hrun : Relation.ReflTransGen StepsTo c₀ c) : c.HeadersKept := by
  induction hrun with
  | refl => exact .opened h₀ hacc
  | tail hfirst hlast ih =>
    obtain ⟨i, hi⟩ := hlast
    exact ih.step (Reachable.coherent ⟨c₀, h₀, hfirst⟩) hi

end Chain

/-- Equivocation is detected soundly, and completely relative to the vote the tracker holds.

On the tracker's side: the first validly signed vote of a member recorded after its height's
snapshot is held; it stays held through every move that spares it, and every input but a prune
that drops the height and a snapshot for the height without the member is a run of such moves,
the replay of parked votes included; while it is held, every validly signed vote of the member
at that height for another block is refused, with the pair as evidence.  Every piece of evidence
of a tracker some run reaches pairs two validly signed votes of one voter at one height for
different blocks, names that voter and height, and verifies once the two votes carry one key;
recording a vote adds evidence only by refusing it so.

On the chain's side: along every run from an opening at an accountable final block, as every
opening over an empty store is, a reported double proposal names the block's proposer and
height, and verifies. -/
theorem equivocation_detection_sound_complete :
    (∀ (fm fm' : FinalityManager) (v : Vote) (r : Except FinalityError Bool) (hv : HeightVotes),
      fm.heights.get? v.height = some hv → hv.vset.contains v.voter = true →
      hv.held v.voter = none → v.verify = .ok () → fm.recordVote v = .ok (fm', r) →
      fm'.Holds v.height v.voter v) ∧
    (∀ (fm fm' : FinalityManager) (h : UInt64) (a : Address) (p : Vote), fm.Holds h a p →
      Relation.ReflTransGen (FinalityManager.Spares h a) fm fm' →
      ∀ w : Vote, w.voter = a → w.height = h → w.verify = .ok () → p.blockHash ≠ w.blockHash →
        fm'.recordVote w = .ok ({ fm' with evidence := fm'.evidence ++ [Evidence.ofVotes p w] },
          .error (.equivocation a h))) ∧
    (∀ (fm fm' : FinalityManager) (h : UInt64) (a : Address) (i : FinalityInput) (fin : Bool),
      fm.SparesInput h a i → fm.apply i = .ok (fm', fin) →
      Relation.ReflTransGen (FinalityManager.Spares h a) fm fm') ∧
    (∀ (F : UInt64) (hash : Digest) (fm : FinalityManager), FinalityManager.Reachable F hash fm →
      (∀ e ∈ fm.evidence, ∃ p v, e = Evidence.ofVotes p v ∧ Equivocates p v ∧
        e.kind = .doubleVote ∧ e.offender = v.voter ∧ e.height = v.height ∧
        (p.voterKey = v.voterKey → e.verify = .ok ())) ∧
      ∀ (v : Vote) (fm' : FinalityManager) (r : Except FinalityError Bool),
        fm.recordVote v = .ok (fm', r) → fm'.evidence = fm.evidence ∨
          ∃ p, fm'.evidence = fm.evidence ++ [Evidence.ofVotes p v] ∧
            r = .error (.equivocation v.voter v.height) ∧ Equivocates p v) ∧
    (∀ c₀ c : Chain, c₀.Opened → c₀.finalized.Accountable →
      Relation.ReflTransGen Chain.StepsTo c₀ c → ∀ (b : Block) (e : Evidence),
        c.doubleProposal b b.hash = some e →
        e.kind = .doubleProposal ∧ e.offender = b.header.proposer ∧ e.height = b.height ∧
          e.verify = .ok ()) ∧
    ∀ c : Chain, c.OpenedFresh → c.finalized.Accountable := by
  refine ⟨?held, ?refused, ?spares, ?attested, ?proposals, fun c h => h.accountable⟩
  case held =>
    intro fm fm' v r hv hget hmem hnone hver hrec
    exact FinalityManager.holds_of_recordVote hget hmem hnone hver hrec
  case refused =>
    intro fm fm' h a p hh hrun w hvoter hheight hver hne
    subst hvoter hheight
    exact FinalityManager.recordVote_of_holds (hh.run hrun) hver hne
  case spares =>
    intro fm fm' h a i fin hspare happ
    exact FinalityManager.Spares.apply hspare happ
  case attested =>
    intro F hash fm hr
    refine ⟨fun e he => ?_, fun v fm' r hrec =>
      FinalityManager.recordVote_evidence hr.accounting hr.attested hrec⟩
    obtain ⟨p, v, rfl, hp⟩ := hr.attested.evidence e he
    obtain ⟨hkind, hoffender, hheight, hverify⟩ := hp.evidence
    exact ⟨p, v, rfl, hp, hkind, hoffender, hheight, hverify⟩
  case proposals =>
    intro c₀ c h₀ hacc hrun b e he
    have hc : c.Coherent := Chain.Reachable.coherent ⟨c₀, h₀, hrun⟩
    exact (Chain.headersKept_of_run h₀ hacc hrun).doubleProposal hc he

/-- The devnet validator's vote at height 1 for the block named by a label. -/
def soloVote (label : String) : Vote := Vote.signWith soloKey 1 (Digest.ofText label)

/-- The devnet node's tracker after recording the validator's vote for block `x`. -/
def soloVoteRecorded : FinalityManager × Except FinalityError Bool :=
  (soloNode.finality.recordVote (soloVote "x")).toOption.getD (soloNode.finality, .ok false)

/-- On the devnet node's tracker, the validator's vote for block `x` is held, and its vote for
block `y` at the same height is then refused as equivocation, with the pair as evidence. -/
theorem equivocation_refused_after_held_vote :
    soloVoteRecorded.1.Holds 1 (soloVote "x").voter (soloVote "x") ∧
    soloVoteRecorded.1.recordVote (soloVote "y") =
      .ok ({ soloVoteRecorded.1 with
          evidence := soloVoteRecorded.1.evidence ++ [Evidence.ofVotes (soloVote "x") (soloVote "y")] },
        .error (.equivocation (soloVote "x").voter 1)) := by
  obtain ⟨hrec, hslot, hx, hy, hvoter, hheight, hne⟩ :
      (soloNode.finality.recordVote (soloVote "x")).toOption.isSome = true ∧
      ((soloNode.finality.heights.get? 1).map fun hv =>
        hv.vset.contains (soloVote "x").voter && (hv.held (soloVote "x").voter).isNone) = some true ∧
      (soloVote "x").verify = .ok () ∧ (soloVote "y").verify = .ok () ∧
      (soloVote "y").voter = (soloVote "x").voter ∧
      (soloVote "y").height = (soloVote "x").height ∧
      (soloVote "x").blockHash ≠ (soloVote "y").blockHash := by
    decide +kernel
  obtain ⟨hv, hget, hfree⟩ := Option.map_eq_some_iff.mp hslot
  simp only [Bool.and_eq_true, Option.isNone_iff_eq_none] at hfree
  have hrecord : soloNode.finality.recordVote (soloVote "x") =
      .ok (soloVoteRecorded.1, soloVoteRecorded.2) := by
    rw [Prod.mk.eta]
    exact Except.eq_ok_getD _ hrec
  have hheld := equivocation_detection_sound_complete.1 _ soloVoteRecorded.1 (soloVote "x")
    soloVoteRecorded.2 hv hget hfree.1 hfree.2 hx hrecord
  exact ⟨hheld, equivocation_detection_sound_complete.2.1 _ _ _ _ _ hheld .refl (soloVote "y")
    hvoter hheight hy hne⟩

end StakeChain

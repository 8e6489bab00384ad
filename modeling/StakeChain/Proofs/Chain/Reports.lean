import StakeChain.Proofs.Chain.Phases
import StakeChain.Proofs.Store.Layout

/-!
# What the chain reports about finality

The chain reports penalties and final blocks to its observer (`Chain.reports`: the events other
than the local votes sent). Committing a pending block reports each applied penalty of the
block and then the block, with the certificate given for it (`Chain.commitReport`). A commit up
to the tracker's final height gives the tracker's certificate to the block at that height and
none to the ancestors written with it (`Chain.certFor`).

`tryCommit_writes` says what one commit writes and reports (`Chain.Wrote`). From it follows
`Chain.Reported`, which every run keeps. The reports since the chain was opened are those of the
blocks committed since, oldest first. These blocks extend the opening tip one height at a time
up to the final block, and each is stored at its height. The tracker holds the certificate of
its final height whenever it is final above the chain (`Chain.CertifiedAhead`), so the block a
commit reaches at that height is reported with a certificate.
-/

set_option autoImplicit false

namespace StakeChain

namespace Tip

variable {params : LedgerParams}

theorem last_append : ∀ (t : Tip) (l₁ l₂ : List PendingBlock), t.last (l₁ ++ l₂) = (t.last l₁).last l₂
  | _, [], _ => rfl
  | t, p :: l₁, l₂ => by rw [List.cons_append, last_cons, last_cons, last_append]

theorem last_append_single (t : Tip) (l : List PendingBlock) (p : PendingBlock) :
    t.last (l ++ [p]) = p.tip := by
  rw [last_append, last_cons, last_nil]

theorem extends_append : ∀ {t : Tip} {l₁ l₂ : List PendingBlock},
    t.Extends params (l₁ ++ l₂) ↔ t.Extends params l₁ ∧ (t.last l₁).Extends params l₂
  | _, [], _ => by simp
  | t, p :: l₁, l₂ => by
    rw [List.cons_append, extends_cons, extends_cons, extends_append, last_cons, and_assoc]

/-- The blocks built on `t` are at the heights right above it, in order. -/
theorem Extends.heights {t : Tip} {l : List PendingBlock} (h : t.Extends params l) :
    l.map (fun p => p.block.height.toNat) = List.range' (t.height.toNat + 1) l.length := by
  apply List.ext_getElem
  · simp
  · intro i h₁ h₂
    rw [List.getElem_map, List.getElem_range', h.height_getElem i (by simpa using h₁)]
    omega

theorem Extends.height_le_last {t : Tip} {l : List PendingBlock} (h : t.Extends params l)
    {p : PendingBlock} (hp : p ∈ l) : p.block.height.toNat ≤ (t.last l).height.toNat := by
  obtain ⟨i, hi, rfl⟩ := List.getElem_of_mem hp
  rw [h.height_getElem i hi, h.last_height]
  omega

/-- A block written before the `n`-th is lower than it. -/
theorem Extends.height_ne_of_mem_take {t : Tip} {l : List PendingBlock} (h : t.Extends params l)
    {n : Nat} (hn : n < l.length) {q : PendingBlock} (hq : q ∈ l.take n) :
    q.block.height ≠ l[n].block.height := by
  obtain ⟨j, hj, rfl⟩ := List.mem_take_iff_getElem.mp hq
  have hjn : j < n := lt_of_lt_of_le hj (Nat.min_le_left _ _)
  intro heq
  have hnat := congrArg UInt64.toNat heq
  rw [h.height_getElem j (by omega), h.height_getElem n hn] at hnat
  omega

end Tip

namespace ChainEvent

/-- Whether an event reports finality: a penalty or a final block, not a vote sent. -/
def isReport : ChainEvent → Bool
  | .broadcast _ => false
  | _ => true

end ChainEvent

namespace Chain

/-- What the chain reports to the observer of finality, in order: penalties and final blocks. -/
def reports (c : Chain) : List ChainEvent := c.events.filter ChainEvent.isReport

/-- What committing a pending block reports: each applied penalty of the block, then the block
with the certificate given for it. -/
def commitReport (p : PendingBlock) (cert : Option Certificate) : List ChainEvent :=
  (penaltyRecords p.block.height p.outcome.penalties).map .penalized ++ [.finalized p.block cert]

/-- The certificate a commit up to the tracker's final height gives a block: the tracker's
certificate for the block at that height, and none for the ancestors written with it. -/
def certFor (fm : FinalityManager) (p : PendingBlock) : Option Certificate :=
  if p.block.height = fm.finalizedHeight then fm.certificate fm.finalizedHeight else none

/-- The tracker's certificate goes to the block at the final height, and only to it. -/
theorem certFor_isSome_iff {fm : FinalityManager} {cert : Certificate}
    (hcert : fm.certificate fm.finalizedHeight = some cert) (p : PendingBlock) :
    (certFor fm p).isSome = true ↔ p.block.height = fm.finalizedHeight := by
  unfold certFor
  by_cases hp : p.block.height = fm.finalizedHeight
  · simp [hp, hcert]
  · simp [hp]

theorem certFor_prune (fm : FinalityManager) (keep : UInt64) :
    certFor (fm.prune keep) = certFor fm := by
  funext p
  unfold certFor
  rw [show (fm.prune keep).finalizedHeight = fm.finalizedHeight from rfl,
    FinalityManager.certificate_prune_final]

theorem filter_commitReport (p : PendingBlock) (cert : Option Certificate) :
    (commitReport p cert).filter ChainEvent.isReport = commitReport p cert := by
  apply List.filter_eq_self.mpr
  intro e he
  simp only [commitReport, List.mem_append, List.mem_map, List.mem_singleton] at he
  rcases he with ⟨r, -, rfl⟩ | rfl <;> rfl

theorem filter_votes (es : List ChainEvent) (vs : List Vote) :
    (es ++ vs.map ChainEvent.broadcast).filter ChainEvent.isReport =
      es.filter ChainEvent.isReport := by
  simp [ChainEvent.isReport]

theorem Unwritten.reports {c d : Chain} (h : c.Unwritten d) : d.reports = c.reports := by
  obtain ⟨vs, hv⟩ := h.votes
  unfold Chain.reports
  rw [hv, filter_votes]

theorem Unwritten.get? {c d : Chain} (h : c.Unwritten d) (k : Bytes) :
    d.store.kv.get? k = c.store.kv.get? k := by
  unfold MemStore.get?
  rw [h.entries]

/-- Writing the oldest pending block reports it and stores it at its height, and it becomes the
final block; nothing else is written to a block key. -/
theorem commitOldest_writes {c c' : Chain} {certified : UInt64} {cert : Option Certificate}
    (h : c.commitOldest certified cert = .ok c') :
    (c.pending = [] ∧ c' = c) ∨ ∃ p rest, c.pending = p :: rest ∧ c'.pending = rest ∧
      c'.finalTip = p.tip ∧ c'.params = c.params ∧ c'.finality = c.finality ∧
      c'.reports = c.reports ++ commitReport p (if p.block.height = certified then cert else none) ∧
      c'.store.kv.get? (Layout.blockKey p.block.height) = some p.block.encode ∧
      ∀ k, k ≠ p.block.height →
        c'.store.kv.get? (Layout.blockKey k) = c.store.kv.get? (Layout.blockKey k) := by
  rcases commitOldest_eq_ok h with ⟨hnil, rfl⟩ | ⟨p, rest, store, hcons, hstore, rfl⟩
  · exact .inl ⟨hnil, rfl⟩
  obtain ⟨hnew, hold⟩ := ChainStore.commitBlock_blocks hstore
  refine .inr ⟨p, rest, hcons, rfl, rfl, rfl, rfl, ?_, hnew, hold⟩
  show (c.events ++ _ ++ _).filter ChainEvent.isReport = _
  rw [List.append_assoc, List.filter_append]
  exact congrArg (fun l => c.reports ++ l) (filter_commitReport p _)

/-- `e` is `d` after writing the `n` oldest pending blocks of `d`. They are reported with the
certificates that the tracker of `d` gives them, the last is the final block, and each is
stored at its height; no other block key changed. -/
structure Wrote (d e : Chain) (n : Nat) : Prop where
  reports : e.reports =
    d.reports ++ (d.pending.take n).flatMap fun p => commitReport p (certFor d.finality p)
  finalTip : e.finalTip = d.finalTip.last (d.pending.take n)
  params : e.params = d.params
  stored : ∀ p ∈ d.pending.take n,
    e.store.kv.get? (Layout.blockKey p.block.height) = some p.block.encode
  kept : ∀ k, (∀ p ∈ d.pending.take n, p.block.height ≠ k) →
    e.store.kv.get? (Layout.blockKey k) = d.store.kv.get? (Layout.blockKey k)

section Wrote

variable {d e : Chain}

theorem Wrote.refl (d : Chain) : d.Wrote d 0 :=
  ⟨by simp, rfl, rfl, by simp, fun _ _ => rfl⟩

/-- A change of the marks, the snapshots, the pending blocks or the tracker keeps what was
written. -/
theorem Wrote.frame {n : Nat} (h : d.Wrote e n) {e' : Chain} (hrep : e'.reports = e.reports)
    (htip : e'.finalTip = e.finalTip) (hparams : e'.params = e.params)
    (hentries : e'.store.kv.entries = e.store.kv.entries) : d.Wrote e' n := by
  have hget : ∀ k, e'.store.kv.get? k = e.store.kv.get? k := by
    intro k
    unfold MemStore.get?
    rw [hentries]
  refine ⟨hrep.trans h.reports, htip.trans h.finalTip, hparams.trans h.params, ?_, ?_⟩
  · intro p hp
    rw [hget]
    exact h.stored p hp
  · intro k hk
    rw [hget]
    exact h.kept k hk

/-- Writing the next pending block of `d` extends what was written by it. -/
theorem Wrote.commitOldest (hd : d.finalTip.Extends d.params d.pending) {n : Nat}
    (h : d.Wrote e n) (hpend : e.pending = d.pending.drop n) {e' : Chain}
    (hcommit : e.commitOldest d.finality.finalizedHeight
      (d.finality.certificate d.finality.finalizedHeight) = .ok e') :
    ∃ n', e'.pending = d.pending.drop n' ∧ e'.finality = e.finality ∧ d.Wrote e' n' := by
  rcases commitOldest_writes hcommit with ⟨-, rfl⟩ | ⟨p, rest, hcons, hrest, htip, hpar, hfm,
      hrep, hnew, hold⟩
  · exact ⟨n, hpend, rfl, h⟩
  rw [hpend] at hcons
  have hlt : n < d.pending.length := by
    by_contra hge
    rw [List.drop_eq_nil_of_le (Nat.le_of_not_lt hge)] at hcons
    cases hcons
  rw [List.drop_eq_getElem_cons hlt] at hcons
  obtain ⟨hp, hrest'⟩ := List.cons.inj hcons
  have htake : d.pending.take (n + 1) = d.pending.take n ++ [p] := by
    rw [← hp, List.take_append_getElem hlt]
  refine ⟨n + 1, hrest.trans hrest'.symm, hfm, ⟨?_, ?_, hpar.trans h.params, ?_, ?_⟩⟩
  · rw [hrep, h.reports, htake, List.flatMap_append, List.flatMap_singleton, List.append_assoc]
    rfl
  · rw [htip, htake, Tip.last_append_single]
  · intro q hq
    rw [htake, List.mem_append, List.mem_singleton] at hq
    rcases hq with hq | rfl
    · rw [hold _ (hp ▸ hd.height_ne_of_mem_take hlt hq)]
      exact h.stored q hq
    · exact hnew
  · intro k hk
    rw [htake] at hk
    have hpk : p.block.height ≠ k := hk p (List.mem_append_right _ (List.mem_singleton_self p))
    rw [hold k (Ne.symm hpk), h.kept k fun q hq => hk q (List.mem_append_left _ hq)]

end Wrote

/-- What one commit does: it writes the oldest pending blocks, and only when the tracker is
final above the chain; afterwards the tracker is the same, or pruned. -/
theorem tryCommit_writes {d : Chain} (hd : d.finalTip.Extends d.params d.pending) :
    ∃ n, (n = 0 ∨ d.finalizedHeight < d.finality.finalizedHeight) ∧ d.Wrote d.tryCommit.1 n ∧
      ∃ keep, d.tryCommit.1.finality = d.finality ∨ d.tryCommit.1.finality = d.finality.prune keep := by
  rcases tryCommit_cases d with heq | ⟨idx, st, -, -, -, heq⟩ | ⟨idx, hgt, -, -, hres⟩
  · rw [heq]
    exact ⟨0, .inl rfl, .refl d, 0, .inl rfl⟩
  · -- dropping a local fork writes nothing
    rw [heq]
    exact ⟨0, .inl rfl, (Wrote.refl d).frame rfl rfl rfl rfl, 0, .inl rfl⟩
  obtain ⟨m, ⟨n, hpend, hfm, hw⟩, -⟩ := commitOldestN_induction
    (fun _ e => ∃ n, e.pending = d.pending.drop n ∧ e.finality = d.finality ∧ d.Wrote e n)
    (fun _ e e' ⟨n, hpend, hfm, hw⟩ hcommit => by
      obtain ⟨n', hpend', hfm', hw'⟩ := hw.commitOldest hd hpend hcommit
      exact ⟨n', hpend', hfm'.trans hfm, hw'⟩)
    (idx + 1) d ⟨0, rfl, rfl, .refl d⟩
  generalize commitOldestN d.finality.finalizedHeight
    (d.finality.certificate d.finality.finalizedHeight) (idx + 1) d = r at hpend hfm hw hres
  rcases hres with ⟨e, -, heq⟩ | ⟨-, heq⟩
  · rw [heq]
    exact ⟨n, .inr hgt, hw, 0, .inl hfm⟩
  · -- a complete commit then prunes, which writes nothing
    rw [heq]
    refine ⟨n, .inr hgt, hw.frame rfl rfl rfl rfl, r.1.consensus.voteRetentionHeights, .inr ?_⟩
    show r.1.finality.prune _ = _
    rw [hfm]

/-- The tracker holds the certificate of its final height whenever it is final above the
chain. -/
def CertifiedAhead (c : Chain) : Prop :=
  FinalityManager.CertifiedOver c.finalizedHeight c.finality

/-- The reports of a chain opened at tip `t`: those of the blocks committed since, oldest
first, each with the certificate it was given. These blocks extend `t` one height at a time up
to the final block, and each is stored at its height. -/
def Reported (t : Tip) (c : Chain) : Prop :=
  ∃ committed : List (PendingBlock × Option Certificate),
    t.Extends c.params (committed.map Prod.fst) ∧
    c.finalTip = t.last (committed.map Prod.fst) ∧
    c.reports = committed.flatMap (fun pc => commitReport pc.1 pc.2) ∧
    ∀ pc ∈ committed, c.store.kv.get? (Layout.blockKey pc.1.block.height) = some pc.1.block.encode

section Invariants

variable {c d : Chain}

theorem CertifiedAhead.opened (h : c.Opened) : c.CertifiedAhead := by
  obtain ⟨restored, i, fin, hacc, hF, -, hi, happ⟩ := h.tracker
  have hstart : FinalityManager.CertifiedOver c.finalizedHeight restored := by
    intro hlt
    rw [hF] at hlt
    exact absurd hlt (UInt64.lt_irrefl _)
  exact hstart.apply hacc happ hi

theorem CertifiedAhead.unwritten (h : c.CertifiedAhead) (hc : c.Coherent) (hw : c.Unwritten d) :
    d.CertifiedAhead := by
  unfold CertifiedAhead
  rw [hw.finalizedHeight]
  exact (hw.tracker.certifiedOver hc.accounting h).2

theorem CertifiedAhead.tryCommit (h : d.CertifiedAhead) (hd : d.Coherent) :
    d.tryCommit.1.CertifiedAhead := by
  obtain ⟨n, -, -, keep, hfm⟩ := tryCommit_writes hd.pending
  have hle := UInt64.le_iff_toNat_le.mp hd.tryCommit.2.1
  have hsame : d.tryCommit.1.finality.finalizedHeight = d.finality.finalizedHeight ∧
      d.tryCommit.1.finality.certificate d.finality.finalizedHeight =
        d.finality.certificate d.finality.finalizedHeight := by
    rcases hfm with hfm | hfm
    · rw [hfm]
      exact ⟨rfl, rfl⟩
    · rw [hfm]
      exact ⟨rfl, FinalityManager.certificate_prune_final _ _⟩
  intro hlt
  rw [hsame.1, hsame.2]
  rw [hsame.1] at hlt
  exact h (UInt64.lt_iff_toNat_lt.mpr (by have := UInt64.lt_iff_toNat_lt.mp hlt; omega))

theorem Reported.opened (h : c.Opened) : Reported c.finalTip c := by
  have hnil : c.reports = [] := by
    obtain ⟨cfg, kv, signer, hopen⟩ := h
    obtain ⟨-, -, -, -, -, -, -, -, -, -, -, rfl⟩ := ofStore_eq_ok hopen
    rfl
  exact ⟨[], trivial, rfl, by rw [hnil]; rfl, nofun⟩

theorem Reported.unwritten {t : Tip} (h : Reported t c) (hw : c.Unwritten d) : Reported t d := by
  obtain ⟨committed, hext, htip, hrep, hstored⟩ := h
  refine ⟨committed, hw.params ▸ hext, hw.finalTip.trans htip, hw.reports.trans hrep, ?_⟩
  intro pc hpc
  rw [hw.get?]
  exact hstored pc hpc

/-- A commit extends the reports by those of the blocks it writes. The blocks committed before
are at or below the final height, so the writes above it keep them stored. -/
theorem Reported.tryCommit {t : Tip} (h : Reported t d) (hd : d.Coherent) :
    Reported t d.tryCommit.1 := by
  obtain ⟨committed, hext, htip, hrep, hstored⟩ := h
  obtain ⟨n, -, hw, -⟩ := tryCommit_writes hd.pending
  have hwritten : d.finalTip.Extends d.params (d.pending.take n) := hd.pending.take n
  have hfst : (committed ++ (d.pending.take n).map fun p => (p, certFor d.finality p)).map
      Prod.fst = committed.map Prod.fst ++ d.pending.take n := by
    simp [Function.comp_def]
  refine ⟨committed ++ (d.pending.take n).map fun p => (p, certFor d.finality p), ?_, ?_, ?_, ?_⟩
  · rw [hfst, hw.params, Tip.extends_append, ← htip]
    exact ⟨hext, hwritten⟩
  · rw [hfst, Tip.last_append, ← htip]
    exact hw.finalTip
  · rw [hw.reports, hrep, List.flatMap_append, List.flatMap_map]
  · intro pc hpc
    rcases List.mem_append.mp hpc with hpc | hpc
    · -- a block committed before is at or below the final height, the written ones above it
      have hle := hext.height_le_last (List.mem_map_of_mem hpc)
      rw [← htip] at hle
      rw [hw.kept _ fun p hp heq => ?_]
      · exact hstored pc hpc
      · have hlt := hwritten.height_lt hp
        rw [heq] at hlt
        omega
    · obtain ⟨p, hp, rfl⟩ := List.mem_map.mp hpc
      exact hw.stored p hp

/-- Along a run from an opened chain, the chain stays coherent, its tracker keeps the
certificate of a final height above the chain's, and its reports are those of the blocks
committed since it was opened. -/
theorem Reported.run {c₀ c : Chain} (h₀ : c₀.Opened) (hrun : Relation.ReflTransGen StepsTo c₀ c) :
    c.Coherent ∧ c.CertifiedAhead ∧ Reported c₀.finalTip c := by
  induction hrun with
  | refl => exact ⟨.opened h₀, .opened h₀, .opened h₀⟩
  | tail _ hstep ih =>
    obtain ⟨i, hs⟩ := hstep
    obtain ⟨hc, hcert, hrep⟩ := ih
    obtain ⟨d, hd, hw, rfl | rfl⟩ := step_phases hc hs
    · exact ⟨hd, hcert.unwritten hc hw, hrep.unwritten hw⟩
    · exact ⟨hd.tryCommit.1, (hcert.unwritten hc hw).tryCommit hd, (hrep.unwritten hw).tryCommit hd⟩

/-- An input reports the blocks it commits, oldest first, each after its applied penalties.
The tracker's certificate goes exactly to the block at the tracker's final height. -/
theorem step_reports (hc : c.Coherent) (hcert : c.CertifiedAhead) {i : ChainInput} {c' : Chain}
    (hs : c.step i = .ok c') :
    ∃ written : List PendingBlock,
      c'.reports = c.reports ++ written.flatMap (fun p => commitReport p (certFor c'.finality p)) ∧
      ∀ p ∈ written, (certFor c'.finality p).isSome = true ↔
        p.block.height = c'.finality.finalizedHeight := by
  obtain ⟨d, hd, hw, rfl | rfl⟩ := step_phases hc hs
  · exact ⟨[], by rw [hw.reports, List.flatMap_nil, List.append_nil], nofun⟩
  obtain ⟨n, hn, hwrote, keep, hfm⟩ := tryCommit_writes hd.pending
  have hcertFor : certFor d.tryCommit.1.finality = certFor d.finality ∧
      d.tryCommit.1.finality.finalizedHeight = d.finality.finalizedHeight := by
    rcases hfm with hfm | hfm
    · rw [hfm]
      exact ⟨rfl, rfl⟩
    · rw [hfm, certFor_prune]
      exact ⟨rfl, rfl⟩
  refine ⟨d.pending.take n, ?_, ?_⟩
  · rw [hwrote.reports, hw.reports, hcertFor.1]
  · intro p hp
    rw [hcertFor.1, hcertFor.2]
    -- something was written, so the tracker is final above the chain and holds its certificate
    have hlt : d.finalizedHeight < d.finality.finalizedHeight := by
      rcases hn with rfl | hlt
      · simp at hp
      · exact hlt
    obtain ⟨cert, hcert'⟩ := hcert.unwritten hc hw hlt
    exact certFor_isSome_iff hcert' p

end Invariants

end Chain

/-- The observer of a chain opened at height `t` hears of the final blocks exactly once each, in
order of height, from `t + 1` up to the current final height. Each block is stored at its
height, and is reported after one penalty record per applied penalty of the block. The blocks
extend the opening tip, so the penalties are those of executing each block on its parent's
ledger. Each input reports the blocks it commits with the tracker's certificate, and the
certificate is given exactly to the block at the tracker's final height. -/
theorem finality_reports_follow_chain {c₀ c : Chain} (h₀ : c₀.Opened)
    (hrun : Relation.ReflTransGen Chain.StepsTo c₀ c) :
    (∃ committed : List (PendingBlock × Option Certificate),
      committed.map (fun pc => pc.1.block.height.toNat) =
        List.range' (c₀.finalizedHeight.toNat + 1)
          (c.finalizedHeight.toNat - c₀.finalizedHeight.toNat) ∧
      c₀.finalTip.Extends c.params (committed.map Prod.fst) ∧
      c.reports = committed.flatMap (fun pc => Chain.commitReport pc.1 pc.2) ∧
      ∀ pc ∈ committed,
        c.store.kv.get? (Layout.blockKey pc.1.block.height) = some pc.1.block.encode) ∧
    ∀ i c', c.step i = .ok c' → ∃ written : List PendingBlock,
      c'.reports = c.reports ++
        written.flatMap (fun p => Chain.commitReport p (Chain.certFor c'.finality p)) ∧
      ∀ p ∈ written, (Chain.certFor c'.finality p).isSome = true ↔
        p.block.height = c'.finality.finalizedHeight := by
  obtain ⟨hc, hcert, committed, hext, htip, hrep, hstored⟩ := Chain.Reported.run h₀ hrun
  refine ⟨⟨committed, ?_, hext, hrep, hstored⟩, fun i c' hs => Chain.step_reports hc hcert hs⟩
  have hF : c.finalizedHeight.toNat = c₀.finalizedHeight.toNat + committed.length := by
    have hlast := hext.last_height
    rw [← htip, List.length_map] at hlast
    exact hlast
  have hheights := hext.heights
  rw [List.map_map, List.length_map] at hheights
  rw [hF, Nat.add_sub_cancel_left]
  exact hheights

/-- The run of the devnet's node from genesis through the commit of its first block meets the
guarantee. -/
theorem finality_reports_follow_chain_after_commit : soloNode.Opened ∧
    Relation.ReflTransGen Chain.StepsTo soloNode soloCommitted ∧
    soloCommitted.finalizedHeight = 1 ∧
    ((∃ committed : List (PendingBlock × Option Certificate),
      committed.map (fun pc => pc.1.block.height.toNat) =
        List.range' (soloNode.finalizedHeight.toNat + 1)
          (soloCommitted.finalizedHeight.toNat - soloNode.finalizedHeight.toNat) ∧
      soloNode.finalTip.Extends soloCommitted.params (committed.map Prod.fst) ∧
      soloCommitted.reports = committed.flatMap (fun pc => Chain.commitReport pc.1 pc.2) ∧
      ∀ pc ∈ committed,
        soloCommitted.store.kv.get? (Layout.blockKey pc.1.block.height) = some pc.1.block.encode) ∧
    ∀ i c', soloCommitted.step i = .ok c' → ∃ written : List PendingBlock,
      c'.reports = soloCommitted.reports ++
        written.flatMap (fun p => Chain.commitReport p (Chain.certFor c'.finality p)) ∧
      ∀ p ∈ written, (Chain.certFor c'.finality p).isSome = true ↔
        p.block.height = c'.finality.finalizedHeight) :=
  ⟨soloNode_opened, soloNode_runs_to_soloCommitted, soloCommitted_finalizedHeight,
    finality_reports_follow_chain soloNode_opened soloNode_runs_to_soloCommitted⟩

end StakeChain

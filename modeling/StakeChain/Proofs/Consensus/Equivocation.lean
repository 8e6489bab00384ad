import StakeChain.Proofs.Consensus.Parking

/-!
# Equivocation

A validator that votes twice at one height for different blocks equivocates.  The tracker holds
one vote per member and height: the first it counted, or the first it kept as conflicting with
a certificate (`HeightVotes.held`).  A later vote of the member at that height for another block
is refused, and the pair becomes double-vote evidence.

* Soundness (`Reachable.attested`, `recordVote_evidence`): every piece of evidence pairs two
  validly signed votes of one voter at one height for different blocks (`Equivocates`), so it
  names that voter and height, and it verifies once the two votes carry the same key, which is
  what distinct keys having distinct addresses gives.
* Completeness: the first vote of a member recorded after its height's snapshot is held
  (`holds_of_recordVote`); the held vote stays through every move of the tracker except a prune
  that drops the height and a snapshot for the height without the member (`Holds.run`), the
  records of a registration's parked votes included (`Spares.apply`); and while it is held,
  every vote of the member at the height for another block is refused with evidence of the pair
  (`recordVote_of_holds`).

A refused vote is not held.  So a vote that repeats the held one is accepted quietly, also
after a refused vote for another block.
-/

set_option autoImplicit false

namespace StakeChain

/-- Two validly signed votes of one voter at one height for different blocks. -/
def Equivocates (p v : Vote) : Prop :=
  p.voter = v.voter ∧ p.height = v.height ∧ p.blockHash ≠ v.blockHash ∧
    p.verify = .ok () ∧ v.verify = .ok ()

/-- Evidence of an equivocation names the voter and the height, and verifies when the two
votes carry one key. -/
theorem Equivocates.evidence {p v : Vote} (h : Equivocates p v) :
    (Evidence.ofVotes p v).kind = .doubleVote ∧ (Evidence.ofVotes p v).offender = v.voter ∧
      (Evidence.ofVotes p v).height = v.height ∧
      (p.voterKey = v.voterKey → (Evidence.ofVotes p v).verify = .ok ()) := by
  obtain ⟨hvoter, hheight, hne, hp, hv⟩ := h
  have hfields : (Evidence.ofVotes p v).kind = .doubleVote ∧
      (Evidence.ofVotes p v).offender = v.voter ∧ (Evidence.ofVotes p v).height = v.height := by
    unfold Evidence.ofVotes
    split
    · exact ⟨rfl, hvoter, hheight⟩
    · exact ⟨rfl, rfl, rfl⟩
  exact ⟨hfields.1, hfields.2.1, hfields.2.2,
    fun hkey => Evidence.ofVotes_verify hkey hheight hne hp hv⟩

namespace HeightVotes

theorem held_record_of_ne (hv : HeightVotes) {v : Vote} {a : Address} (ha : a ≠ v.voter) :
    (hv.record v).held a = hv.held a := by
  simp only [held, record, KeyMap.get?_insert_of_ne _ _ ha]

theorem held_record_self (hv : HeightVotes) (v : Vote) : (hv.record v).held v.voter = some v := by
  simp [held, record]

theorem held_conflicting_of_ne (hv : HeightVotes) {v : Vote} {a : Address} (ha : a ≠ v.voter) :
    ({ hv with conflicting := hv.conflicting.insert v.voter v } : HeightVotes).held a =
      hv.held a := by
  simp only [held, KeyMap.get?_insert_of_ne _ _ ha]

/-- Recounting against a snapshot that keeps a voter keeps the voter's vote. -/
theorem held_retally (hv : HeightVotes) {vset : ValidatorSet} {a : Address}
    (ha : vset.contains a = true) : ({ hv with vset := vset }.retally).held a = hv.held a := by
  simp only [held, retally, KeyMap.get?_filter _ (fun a => vset.contains a), ha, if_true]

end HeightVotes

namespace FinalityManager

/-! ## What one vote does -/

/-- Finalizing touches neither the vote records nor the evidence. -/
theorem tryFinalize_frame {fm fm' : FinalityManager} {k : UInt64} {b : Bool}
    (h : fm.tryFinalize k = .ok (fm', b)) :
    fm'.heights = fm.heights ∧ fm'.evidence = fm.evidence := by
  rcases tryFinalize_eq_ok h with ⟨-, rfl⟩ | ⟨-, -, -, -, -, -, -, -, -, rfl⟩
  · exact ⟨rfl, rfl⟩
  · exact ⟨rfl, rfl⟩

/-- Counting a vote stores it at its height and touches no evidence. -/
theorem countVote_frame {fm fm' : FinalityManager} {hv : HeightVotes} {v : Vote}
    {r : Except FinalityError Bool} (h : fm.countVote hv v = .ok (fm', r)) :
    fm'.heights = fm.heights.insert v.height (hv.record v) ∧ fm'.evidence = fm.evidence := by
  rcases countVote_eq_ok h with ⟨-, -, rfl⟩ | ⟨-, done, -, hfin⟩
  · exact ⟨rfl, rfl⟩
  · exact tryFinalize_frame hfin

/-! ## What a registration does -/

/-- Installing a snapshot keeps the tracker when the snapshot is the one in place, recounts the
votes when it replaces another, and opens an empty record for a new height. -/
theorem install_cases (fm : FinalityManager) (vset : ValidatorSet) :
    fm.install vset = fm ∨
    (∃ hv, fm.heights.get? vset.height = some hv ∧ fm.install vset =
      { fm with heights := fm.heights.insert vset.height ({ hv with vset := vset }.retally) }) ∨
    (fm.heights.get? vset.height = none ∧ fm.install vset =
      { fm with heights := fm.heights.insert vset.height { vset := vset } }) := by
  unfold FinalityManager.install
  split
  · rename_i hv hget
    split
    · exact .inl rfl
    · exact .inr (.inl ⟨hv, hget, rfl⟩)
  · rename_i hnone
    exact .inr (.inr ⟨hnone, rfl⟩)

/-- What registering a snapshot does: install it; record the votes parked for its height in
order, with their slot emptied, when there are some; then try to finalize the height, unless a
parked vote did. -/
theorem registerValidatorSet_cases {fm fm' : FinalityManager} {vset : ValidatorSet} {fin : Bool}
    (h : fm.registerValidatorSet vset = .ok (fm', fin)) :
    ∃ fm₁ votes fm₂ b, (fm₁ = fm.install vset ∧ votes = [] ∨
        fm₁ = { fm.install vset with parked := (fm.install vset).parked.erase vset.height }) ∧
      fm₁.replay votes = .ok (fm₂, b) ∧
      (fm' = fm₂ ∨ ∃ b', fm₂.tryFinalize vset.height = .ok (fm', b')) := by
  have hlast : ∀ fm₂ b, (if b = true then pure (fm₂, true) else fm₂.tryFinalize vset.height) =
      .ok (fm', fin) → fm' = fm₂ ∨ ∃ b', fm₂.tryFinalize vset.height = .ok (fm', b') := by
    intro fm₂ b hb
    cases b with
    | true =>
      simp only [if_true, pure, Except.pure, Except.ok.injEq, Prod.mk.injEq] at hb
      exact .inl hb.1.symm
    | false =>
      simp only [Bool.false_eq_true, if_false] at hb
      exact .inr ⟨fin, hb⟩
  unfold registerValidatorSet at h
  dsimp only at h
  split at h
  · obtain ⟨⟨fm₂, b⟩, hrep, h⟩ := Except.bind_eq_ok h
    simp only [pure, Except.pure, Except.ok.injEq, Prod.mk.injEq] at hrep
    obtain ⟨rfl, rfl⟩ := hrep
    exact ⟨fm.install vset, [], fm.install vset, false, .inl ⟨rfl, rfl⟩, rfl, hlast _ false h⟩
  · rename_i votes hvotes
    obtain ⟨⟨fm₂, b⟩, hrep, h⟩ := Except.bind_eq_ok h
    exact ⟨_, votes, fm₂, b, .inr rfl, hrep, hlast fm₂ b h⟩

/-- A property that every recorded vote keeps holds after the replay of parked votes. -/
theorem replay_induction (P : FinalityManager → Prop)
    (hstep : ∀ {fm fm' : FinalityManager} {v : Vote} {r : Except FinalityError Bool}, P fm →
      fm.recordVote v = .ok (fm', r) → P fm')
    {fm fm' : FinalityManager} {votes : List Vote} {b : Bool}
    (hrep : fm.replay votes = .ok (fm', b)) (hP : P fm) : P fm' :=
  recordAll_induction P hstep (by rw [← replay_fst, hrep]; rfl) hP

/-! ## Completeness: the held vote -/

/-- The tracker holds `p` as the vote of member `a` at height `h`: the height has a snapshot
with `a` in it, and `p` is `a`'s vote there. -/
def Holds (fm : FinalityManager) (h : UInt64) (a : Address) (p : Vote) : Prop :=
  ∃ hv, fm.heights.get? h = some hv ∧ hv.vset.contains a = true ∧ hv.held a = some p

section Holds

variable {fm fm' : FinalityManager} {h : UInt64} {a : Address} {p : Vote}

theorem Holds.of_heights (hh : fm.Holds h a p) (heq : fm'.heights = fm.heights) :
    fm'.Holds h a p := by
  rw [Holds, heq]
  exact hh

theorem Holds.insert_of_ne (hh : fm.Holds h a p) {k : UInt64} (hk : k ≠ h) {hv : HeightVotes}
    (heq : fm'.heights = fm.heights.insert k hv) : fm'.Holds h a p := by
  rw [Holds, heq, KeyMap.get?_insert_of_ne _ _ (Ne.symm hk)]
  exact hh

/-- While the tracker holds a member's vote, the member's vote at that height for another block
is refused as equivocation, and the pair is added as evidence. -/
theorem recordVote_of_holds {v : Vote} (hh : fm.Holds v.height v.voter p)
    (hver : v.verify = .ok ()) (hne : p.blockHash ≠ v.blockHash) :
    fm.recordVote v = .ok ({ fm with evidence := fm.evidence ++ [Evidence.ofVotes p v] },
      .error (.equivocation v.voter v.height)) := by
  obtain ⟨hv, hget, hmem, hheld⟩ := hh
  unfold recordVote
  cases hb : hv.byVoter.get? v.voter with
  | some q =>
    have hq : q = p := by simpa [HeightVotes.held, hb] using hheld
    subst hq
    simp [hver, hget, hmem, hb, hne]
  | none =>
    have hc : hv.conflicting.get? v.voter = some p := by simpa [HeightVotes.held, hb] using hheld
    simp [hver, hget, hmem, hb, hc, hne]

/-- A member's first vote recorded after the snapshot of its height is held from then on. -/
theorem holds_of_recordVote {v : Vote} {r : Except FinalityError Bool} {hv : HeightVotes}
    (hget : fm.heights.get? v.height = some hv) (hmem : hv.vset.contains v.voter = true)
    (hnone : hv.held v.voter = none) (hver : v.verify = .ok ())
    (hrec : fm.recordVote v = .ok (fm', r)) : fm'.Holds v.height v.voter v := by
  have hb : hv.byVoter.get? v.voter = none ∧ hv.conflicting.get? v.voter = none := by
    simpa [HeightVotes.held] using hnone
  rcases recordVote_cases hrec with ⟨-, -, hwhy⟩ | ⟨-, hno, -⟩ | ⟨hv', p, hget', -, hheld, -⟩ |
    ⟨hv', hget', -, -, -, hstore⟩
  · -- the tracker stays as it was only for a vote that is refused or repeats one
    rcases hwhy with hbad | hno | ⟨hv', hget', hout | ⟨p, hheld, -⟩⟩
    · exact absurd hver hbad
    · rw [hget] at hno
      cases hno
    · rw [hget] at hget'
      cases hget'
      rw [hmem] at hout
      cases hout
    · rw [hget] at hget'
      cases hget'
      rw [hnone] at hheld
      cases hheld
  · rw [hget] at hno
    cases hno
  · rw [hget] at hget'
    cases hget'
    rw [hnone] at hheld
    cases hheld
  · rw [hget] at hget'
    cases hget'
    rcases hstore with ⟨-, rfl⟩ | hcount
    · refine ⟨_, KeyMap.get?_insert_self _ _ _, hmem, ?_⟩
      simp [HeightVotes.held, hb.1]
    · obtain ⟨hheights, -⟩ := countVote_frame hcount
      exact ⟨hv.record v, by rw [hheights, KeyMap.get?_insert_self], hmem, hv.held_record_self v⟩

/-- Recording any vote keeps a held vote: a vote is stored only for a voter without one. -/
theorem Holds.recordVote (hh : fm.Holds h a p) {w : Vote} {r : Except FinalityError Bool}
    (hrec : fm.recordVote w = .ok (fm', r)) : fm'.Holds h a p := by
  rcases recordVote_cases hrec with ⟨rfl, -⟩ | ⟨-, -, -, -, rfl⟩ | ⟨_, _, -, -, -, -, -, rfl, -⟩ |
    ⟨hv, hget', -, hnone, -, hstore⟩
  · exact hh
  · exact hh
  · exact hh
  · by_cases hk : w.height = h
    · -- the new vote is at the held vote's height, so it is another voter's
      subst hk
      obtain ⟨hv₀, hget, hmem, hheld⟩ := hh
      obtain rfl : hv₀ = hv := Option.some.inj (hget.symm.trans hget')
      have hne : a ≠ w.voter := by
        rintro rfl
        rw [hheld] at hnone
        cases hnone
      rcases hstore with ⟨-, rfl⟩ | hcount
      · exact ⟨_, KeyMap.get?_insert_self _ _ _, hmem,
          (HeightVotes.held_conflicting_of_ne hv₀ hne).trans hheld⟩
      · obtain ⟨hheights, -⟩ := countVote_frame hcount
        exact ⟨hv₀.record w, by rw [hheights, KeyMap.get?_insert_self], hmem,
          (HeightVotes.held_record_of_ne hv₀ hne).trans hheld⟩
    · rcases hstore with ⟨-, rfl⟩ | hcount
      · exact hh.insert_of_ne hk rfl
      · exact hh.insert_of_ne hk (countVote_frame hcount).1

/-- Installing a snapshot keeps a held vote unless it replaces the snapshot of the vote's height
by one without the voter. -/
theorem Holds.install (hh : fm.Holds h a p) {vset : ValidatorSet}
    (hspare : vset.height = h → vset.contains a = true) : (fm.install vset).Holds h a p := by
  rcases install_cases fm vset with heq | ⟨hv', hget', heq⟩ | ⟨hnone, heq⟩ <;> rw [heq]
  · exact hh
  · by_cases hk : vset.height = h
    · subst hk
      obtain ⟨hv₀, hget, -, hheld⟩ := hh
      obtain rfl : hv₀ = hv' := Option.some.inj (hget.symm.trans hget')
      exact ⟨_, KeyMap.get?_insert_self _ _ _, hspare rfl,
        (HeightVotes.held_retally hv₀ (hspare rfl)).trans hheld⟩
    · exact hh.insert_of_ne hk rfl
  · by_cases hk : vset.height = h
    · subst hk
      obtain ⟨hv, hget, -⟩ := hh
      rw [hget] at hnone
      cases hnone
    · exact hh.insert_of_ne hk rfl

theorem Holds.tryFinalize (hh : fm.Holds h a p) {k : UInt64} {b : Bool}
    (hfin : fm.tryFinalize k = .ok (fm', b)) : fm'.Holds h a p :=
  hh.of_heights (tryFinalize_frame hfin).1

/-- Pruning keeps a held vote at a height it keeps. -/
theorem Holds.prune (hh : fm.Holds h a p) {keep : UInt64}
    (hfloor : Word.subSat fm.finalizedHeight keep ≤ h) : (fm.prune keep).Holds h a p := by
  obtain ⟨hv, hget, hmem, hheld⟩ := hh
  refine ⟨hv, ?_, hmem, hheld⟩
  show (fm.heights.keysFrom (Word.subSat fm.finalizedHeight keep)).get? h = some hv
  rw [KeyMap.get?_keysFrom, if_pos]
  · exact hget
  · simpa [Std.compare_eq_lt] using UInt64.not_lt.mpr hfloor

end Holds

/-- One move of the tracker that spares member `a`'s vote at height `h`: recording a vote,
installing a snapshot that keeps `a` if it is for `h`, emptying a parked slot, trying to
finalize a height, pruning below `h`, taking the evidence or restoring a certificate.  The
inputs of the tracker are made of these moves, the records of a registration's parked votes
included (`Spares.apply`). -/
inductive Spares (h : UInt64) (a : Address) : FinalityManager → FinalityManager → Prop
  | vote {fm fm' : FinalityManager} (w : Vote) {r : Except FinalityError Bool} :
      fm.recordVote w = .ok (fm', r) → Spares h a fm fm'
  | install (fm : FinalityManager) (vset : ValidatorSet) :
      (vset.height = h → vset.contains a = true) → Spares h a fm (fm.install vset)
  | unpark (fm : FinalityManager) (k : UInt64) :
      Spares h a fm { fm with parked := fm.parked.erase k }
  | finalize {fm fm' : FinalityManager} (k : UInt64) {b : Bool} :
      fm.tryFinalize k = .ok (fm', b) → Spares h a fm fm'
  | prune (fm : FinalityManager) (keep : UInt64) :
      Word.subSat fm.finalizedHeight keep ≤ h → Spares h a fm (fm.prune keep)
  | takeEvidence (fm : FinalityManager) : Spares h a fm fm.takeEvidence.1
  | restore (fm : FinalityManager) (c : Certificate) : Spares h a fm (fm.restoreCertificate c)

/-- The inputs that spare member `a`'s vote at height `h`: all but a prune that drops `h` and a
snapshot for `h` without `a`. -/
def SparesInput (fm : FinalityManager) (h : UInt64) (a : Address) : FinalityInput → Prop
  | .prune keep => Word.subSat fm.finalizedHeight keep ≤ h
  | .register vset => vset.height = h → vset.contains a = true
  | _ => True

section Spares

variable {h : UInt64} {a : Address}

theorem Spares.replay {fm fm' : FinalityManager} {votes : List Vote} {b : Bool}
    (hrep : fm.replay votes = .ok (fm', b)) : Relation.ReflTransGen (Spares h a) fm fm' :=
  replay_induction (Relation.ReflTransGen (Spares h a) fm)
    (fun hrun hrec => hrun.tail (.vote _ hrec)) hrep .refl

/-- An input that spares the vote is a run of moves that spare it, through every record of a
parked vote of a registration. -/
theorem Spares.apply {fm fm' : FinalityManager} {i : FinalityInput} {fin : Bool}
    (hspare : fm.SparesInput h a i) (happ : fm.apply i = .ok (fm', fin)) :
    Relation.ReflTransGen (Spares h a) fm fm' := by
  cases i with
  | vote w =>
    obtain ⟨⟨fm₁, r⟩, hrec, heq⟩ := Except.map_eq_ok happ
    simp only [Prod.mk.injEq] at heq
    obtain ⟨rfl, -⟩ := heq
    exact .single (.vote w hrec)
  | register vset =>
    obtain ⟨fm₁, votes, fm₂, b, hfirst, hrep, hlast⟩ := registerValidatorSet_cases happ
    have h₁ : Relation.ReflTransGen (Spares h a) fm fm₁ := by
      rcases hfirst with ⟨rfl, -⟩ | rfl
      · exact .single (.install fm vset hspare)
      · exact .tail (.single (.install fm vset hspare)) (.unpark _ _)
    have h₂ := h₁.trans (Spares.replay hrep)
    rcases hlast with rfl | ⟨b', hfin⟩
    · exact h₂
    · exact h₂.tail (.finalize _ hfin)
  | prune keep =>
    simp only [FinalityManager.apply, Except.ok.injEq, Prod.mk.injEq] at happ
    obtain ⟨rfl, -⟩ := happ
    exact .single (.prune fm keep hspare)
  | takeEvidence =>
    simp only [FinalityManager.apply, Except.ok.injEq, Prod.mk.injEq] at happ
    obtain ⟨rfl, -⟩ := happ
    exact .single (.takeEvidence fm)
  | restore c =>
    simp only [FinalityManager.apply, Except.ok.injEq, Prod.mk.injEq] at happ
    obtain ⟨rfl, -⟩ := happ
    exact .single (.restore fm c)

theorem Holds.spares {fm fm' : FinalityManager} {p : Vote} (hh : fm.Holds h a p)
    (hmove : Spares h a fm fm') : fm'.Holds h a p := by
  cases hmove with
  | vote w hrec => exact hh.recordVote hrec
  | install vset hspare => exact hh.install hspare
  | unpark => exact hh
  | finalize k hfin => exact hh.tryFinalize hfin
  | prune keep hfloor => exact hh.prune hfloor
  | takeEvidence => exact hh
  | restore => exact hh

/-- A held vote stays held along every run of moves that spare it. -/
theorem Holds.run {fm fm' : FinalityManager} {p : Vote} (hh : fm.Holds h a p)
    (hrun : Relation.ReflTransGen (Spares h a) fm fm') : fm'.Holds h a p := by
  induction hrun with
  | refl => exact hh
  | tail _ hmove ih => exact ih.spares hmove

end Spares

/-! ## Soundness: what evidence rests on -/

/-- The votes a height's record keeps as conflicting verify, are for that height and are kept
under their voters. -/
def ConflictsAttested (h : UInt64) (hv : HeightVotes) : Prop :=
  ∀ a p, hv.conflicting.get? a = some p → p.voter = a ∧ p.height = h ∧ p.verify = .ok ()

/-- Replacing the record of one height keeps every height's conflicting votes attested when the
new record's are. -/
theorem conflictsAttested_insert {heights : KeyMap UInt64 HeightVotes}
    (hold : ∀ h hv, heights.get? h = some hv → ConflictsAttested h hv) {k : UInt64}
    {hv' : HeightVotes} (hnew : ConflictsAttested k hv') :
    ∀ h hv, (heights.insert k hv').get? h = some hv → ConflictsAttested h hv := by
  intro h hv hget
  rw [KeyMap.get?_insert] at hget
  split at hget
  · rename_i hk
    cases hget
    subst hk
    exact hnew
  · exact hold h hv hget

/-- What the tracker's evidence rests on: each conflicting vote verifies, is for its height and
is kept under its voter; and each piece of evidence pairs the two votes of an equivocation. -/
structure Attested (fm : FinalityManager) : Prop where
  conflicting : ∀ h hv, fm.heights.get? h = some hv → ∀ a p, hv.conflicting.get? a = some p →
    p.voter = a ∧ p.height = h ∧ p.verify = .ok ()
  evidence : ∀ e ∈ fm.evidence, ∃ p v, e = Evidence.ofVotes p v ∧ Equivocates p v

theorem attested_init (F : UInt64) (hash : Digest) : (init F hash).Attested where
  conflicting := by simp [init]
  evidence := by simp [init]

section Attested

variable {fm fm' : FinalityManager}

/-- A held vote verifies, is for its height and is kept under its voter. -/
theorem held_spec (hacc : fm.Accounting) (hatt : fm.Attested) {h : UInt64} {hv : HeightVotes}
    (hget : fm.heights.get? h = some hv) {a : Address} {p : Vote} (hheld : hv.held a = some p) :
    p.voter = a ∧ p.height = h ∧ p.verify = .ok () := by
  unfold HeightVotes.held at hheld
  cases hb : hv.byVoter.get? a with
  | some q =>
    simp only [hb, Option.some_or, Option.some.injEq] at hheld
    subst hheld
    obtain ⟨hvoter, hh, hver, -⟩ :=
      (hacc.heights h hv hget).votes (a, q) (KeyMap.mem_toList_of_get? hb)
    exact ⟨hvoter, hh, hver⟩
  | none =>
    simp only [hb, Option.none_or] at hheld
    exact hatt.conflicting h hv hget a p hheld

/-- Recording a vote adds evidence only by refusing the vote as equivocation, pairing the
voter's held vote with it. -/
theorem recordVote_evidence (hacc : fm.Accounting) (hatt : fm.Attested) {v : Vote}
    {r : Except FinalityError Bool} (hrec : fm.recordVote v = .ok (fm', r)) :
    fm'.evidence = fm.evidence ∨ ∃ p, fm'.evidence = fm.evidence ++ [Evidence.ofVotes p v] ∧
      r = .error (.equivocation v.voter v.height) ∧ Equivocates p v := by
  rcases recordVote_cases hrec with ⟨rfl, -⟩ | ⟨-, -, -, -, rfl⟩ |
    ⟨hv, p, hget, -, hheld, hver, hne, rfl, hr⟩ | ⟨_, -, -, -, -, hstore⟩
  · exact .inl rfl
  · exact .inl rfl
  · obtain ⟨hvoter, hh, hpver⟩ := held_spec hacc hatt hget hheld
    exact .inr ⟨p, rfl, hr, hvoter, hh, hne, hpver, hver⟩
  · rcases hstore with ⟨-, rfl⟩ | hcount
    · exact .inl rfl
    · exact .inl (countVote_frame hcount).2

theorem Attested.recordVote (hacc : fm.Accounting) (hatt : fm.Attested) {v : Vote}
    {r : Except FinalityError Bool} (hrec : fm.recordVote v = .ok (fm', r)) : fm'.Attested := by
  have hev : ∀ e ∈ fm'.evidence, ∃ p v, e = Evidence.ofVotes p v ∧ Equivocates p v := by
    rcases recordVote_evidence hacc hatt hrec with heq | ⟨p, heq, -, hp⟩
    · rw [heq]
      exact hatt.evidence
    · intro e he
      rw [heq] at he
      rcases List.mem_append.mp he with he | he
      · exact hatt.evidence e he
      · exact ⟨p, v, List.mem_singleton.mp he, hp⟩
  rcases recordVote_cases hrec with ⟨rfl, _⟩ | ⟨_, _, _, _, rfl⟩ | ⟨_, _, _, _, _, _, _, rfl, _⟩ |
    ⟨hv, hget, -, -, hver, hstore⟩
  · exact ⟨hatt.conflicting, hev⟩
  · exact ⟨hatt.conflicting, hev⟩
  · exact ⟨hatt.conflicting, hev⟩
  have hold : ConflictsAttested v.height hv := hatt.conflicting _ hv hget
  rcases hstore with ⟨-, rfl⟩ | hcount
  · -- the vote is the new conflicting one at its height, under its voter
    refine ⟨conflictsAttested_insert hatt.conflicting fun b q hq => ?_, hev⟩
    rw [KeyMap.get?_insert] at hq
    split at hq
    · rename_i hb
      cases hq
      exact ⟨hb.symm, rfl, hver⟩
    · exact hold b q hq
  · refine ⟨?_, hev⟩
    rw [(countVote_frame hcount).1]
    exact conflictsAttested_insert hatt.conflicting hold

theorem Attested.install (hatt : fm.Attested) (vset : ValidatorSet) :
    (fm.install vset).Attested := by
  rcases install_cases fm vset with heq | ⟨hv, hget, heq⟩ | ⟨-, heq⟩ <;> rw [heq]
  · exact hatt
  · exact ⟨conflictsAttested_insert hatt.conflicting (hatt.conflicting _ hv hget), hatt.evidence⟩
  · exact ⟨conflictsAttested_insert hatt.conflicting (fun a p hp => by simp at hp), hatt.evidence⟩

theorem Accounting.unpark (hacc : fm.Accounting) (k : UInt64) :
    ({ fm with parked := fm.parked.erase k } : FinalityManager).Accounting := by
  refine ⟨hacc.heights, fun h vs hget => ?_⟩
  rw [KeyMap.get?_erase] at hget
  split at hget
  · cases hget
  · exact hacc.parked h vs hget

/-- Every input keeps the evidence attested. -/
theorem Attested.apply (hacc : fm.Accounting) (hatt : fm.Attested) {i : FinalityInput}
    {fin : Bool} (happ : fm.apply i = .ok (fm', fin)) : fm'.Attested := by
  cases i with
  | vote w =>
    obtain ⟨⟨fm₁, r⟩, hrec, heq⟩ := Except.map_eq_ok happ
    simp only [Prod.mk.injEq] at heq
    obtain ⟨rfl, -⟩ := heq
    exact hatt.recordVote hacc hrec
  | register vset =>
    obtain ⟨fm₁, votes, fm₂, b, hfirst, hrep, hlast⟩ := registerValidatorSet_cases happ
    have h₁ : fm₁.Accounting ∧ fm₁.Attested := by
      rcases hfirst with ⟨rfl, -⟩ | rfl
      · exact ⟨hacc.install vset, hatt.install vset⟩
      · exact ⟨(hacc.install vset).unpark _, ⟨(hatt.install vset).conflicting,
          (hatt.install vset).evidence⟩⟩
    have h₂ : fm₂.Accounting ∧ fm₂.Attested :=
      replay_induction (fun fm => fm.Accounting ∧ fm.Attested)
        (fun hP hrec => ⟨(recordVote_spec hP.1 hrec).1, hP.2.recordVote hP.1 hrec⟩) hrep h₁
    rcases hlast with rfl | ⟨b', hfin⟩
    · exact h₂.2
    · obtain ⟨hheights, hevidence⟩ := tryFinalize_frame hfin
      refine ⟨fun k hv hget => ?_, ?_⟩
      · rw [hheights] at hget
        exact h₂.2.conflicting k hv hget
      · rw [hevidence]
        exact h₂.2.evidence
  | prune keep =>
    simp only [FinalityManager.apply, Except.ok.injEq, Prod.mk.injEq] at happ
    obtain ⟨rfl, -⟩ := happ
    refine ⟨fun k hv hget => ?_, hatt.evidence⟩
    rw [prune, KeyMap.get?_keysFrom] at hget
    split at hget
    · exact hatt.conflicting k hv hget
    · cases hget
  | takeEvidence =>
    simp only [FinalityManager.apply, Except.ok.injEq, Prod.mk.injEq] at happ
    obtain ⟨rfl, -⟩ := happ
    exact ⟨hatt.conflicting, by simp [takeEvidence]⟩
  | restore c =>
    simp only [FinalityManager.apply, Except.ok.injEq, Prod.mk.injEq] at happ
    obtain ⟨rfl, -⟩ := happ
    exact ⟨hatt.conflicting, hatt.evidence⟩

end Attested

/-- Every tracker a run reaches from a final block has attested evidence. -/
theorem Reachable.attested {F : UInt64} {hash : Digest} {fm : FinalityManager}
    (hr : Reachable F hash fm) : fm.Attested := by
  induction hr with
  | init => exact attested_init F hash
  | step i hr' happ ih => exact ih.apply hr'.accounting happ

/-- A refused vote is not held.  After `x` is counted and `y` refused, the voter's second copy
of `x` comes after `y`, names another block and verifies, and it is accepted quietly. -/
theorem vote_after_refused_one_accepted :
    (oneVote 1 "x").verify = .ok () ∧ (oneVote 1 "y").verify = .ok () ∧
    (oneVote 1 "x").blockHash ≠ (oneVote 1 "y").blockHash ∧
    ((init 0 Digest.zero).applyAll [.register oneValidatorSet, .vote (oneVote 1 "x")] >>=
      fun fm => fm.recordVote (oneVote 1 "y") >>= fun r =>
        (fun r' => (r.2, r'.2)) <$> r.1.recordVote (oneVote 1 "x")) =
      .ok (.error (.equivocation (oneVote 1 "y").voter 1), .ok false) := by
  decide +kernel

end FinalityManager

end StakeChain

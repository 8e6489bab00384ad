import StakeChain.Proofs.Steps
import StakeChain.Consensus.Finality

/-!
# Accountable safety of finality certificates

A certificate names a height, a block and votes for it.  Checked against a snapshot
(`Certificate.verify`), every vote must be for that block at that height, verify and come from
a member, and the distinct voters must hold the quorum, `⌊2T/3⌋ + 1` of the snapshot's total
power `T`.

The power a set of addresses holds in a snapshot (`ValidatorSet.weight`) is never more than the
total, whatever the set: `powerOf` reads the first entry of an address, and distinct addresses
have distinct first entries (`weight_le_total`).  So two certificates for different blocks at
one height share voters who hold at least `2q − T` of the power, which is more than a third of
it, and each shared voter's two votes are double-vote evidence that verifies.

## Results

* `checkVote_eq_ok`, `foldlM_checkVote_eq_ok`, `verify_eq_ok_iff`: what a certificate check
  accepts, and the power it counts;
* `weight_le_total`: a set of addresses holds at most the total power;
* `certificates_overlap_accountable`: two certificates for different blocks at one height are
  signed by a common set of validators holding more than a third of the power, each of whom
  leaves verifying double-vote evidence.
-/

set_option autoImplicit false

namespace StakeChain

/-! ## Power held by sets of addresses -/

namespace ValidatorSet

/-- The power the addresses of a set hold in a snapshot, exactly. -/
def weight (s : ValidatorSet) (A : Finset Address) : Nat := ∑ a ∈ A, (s.powerOf a).toNat

/-- The exact sum of a snapshot's powers. -/
def exactTotal (s : ValidatorSet) : Nat := (s.vals.map fun v => v.power.toNat).sum

theorem powerOf_cons (h : UInt64) (v : Validator) (rest : List Validator) (a : Address) :
    (⟨h, v :: rest⟩ : ValidatorSet).powerOf a =
      if v.address = a then v.power else (⟨h, rest⟩ : ValidatorSet).powerOf a := by
  unfold powerOf get?
  rw [List.find?_cons]
  by_cases hv : v.address = a <;> simp [hv]

/-- An address other than the first entry's is read past it. -/
theorem weight_cons_erase (h : UInt64) (v : Validator) (rest : List Validator) (A : Finset Address) :
    weight ⟨h, v :: rest⟩ (A.erase v.address) = weight ⟨h, rest⟩ (A.erase v.address) := by
  refine Finset.sum_congr rfl fun a ha => ?_
  rw [powerOf_cons, if_neg (Finset.ne_of_mem_erase ha).symm]

/-- A set of addresses holds at most the total power: each address is charged to its first
entry, and distinct addresses have distinct first entries. -/
theorem weight_le_total (s : ValidatorSet) (A : Finset Address) : s.weight A ≤ s.exactTotal := by
  obtain ⟨h, vals⟩ := s
  induction vals generalizing A with
  | nil => simp [weight, exactTotal, powerOf, get?]
  | cons v rest ih =>
    have hsplit : weight ⟨h, v :: rest⟩ A ≤
        v.power.toNat + weight ⟨h, v :: rest⟩ (A.erase v.address) := by
      by_cases hA : v.address ∈ A
      · rw [weight, weight, ← Finset.add_sum_erase A _ hA, powerOf_cons, if_pos rfl]
      · rw [Finset.erase_eq_of_notMem hA]
        omega
    have hrest := ih (A.erase v.address)
    calc weight ⟨h, v :: rest⟩ A
        ≤ v.power.toNat + weight ⟨h, v :: rest⟩ (A.erase v.address) := hsplit
      _ = v.power.toNat + weight ⟨h, rest⟩ (A.erase v.address) := by
        rw [weight_cons_erase]
      _ ≤ v.power.toNat + exactTotal ⟨h, rest⟩ := by omega
      _ = exactTotal ⟨h, v :: rest⟩ := by simp [exactTotal]

theorem weight_insert (s : ValidatorSet) {a : Address} {A : Finset Address} (ha : a ∉ A) :
    s.weight (insert a A) = s.weight A + (s.powerOf a).toNat := by
  rw [weight, Finset.sum_insert ha, weight, Nat.add_comm]

/-- The saturating total is the exact one while that fits in a word. -/
theorem totalPower_toNat {s : ValidatorSet} (hs : s.exactTotal < UInt64.size) :
    s.totalPower.toNat = s.exactTotal := by
  have h := Word.sumSat_toNat (s.vals.map Validator.power)
  rw [List.map_map] at h
  unfold totalPower
  unfold exactTotal at hs ⊢
  rw [h]
  exact Nat.min_eq_left (by simp only [Function.comp_def]; omega)

end ValidatorSet

theorem quorumThreshold_toNat (total : UInt64) :
    (quorumThreshold total).toNat = 2 * total.toNat / 3 + 1 := by
  have hlt := total.toNat_lt_size
  have hsize := Word.size_eq
  unfold quorumThreshold
  rw [Nat.toUInt64_eq, UInt64.toNat_ofNat_of_lt' (by omega)]

/-! ## What a certificate check accepts -/

namespace Certificate

/-- What a certificate needs of each of its votes against a snapshot. -/
def VoteOk (c : Certificate) (vset : ValidatorSet) (v : Vote) : Prop :=
  v.height = c.height ∧ v.blockHash = c.blockHash ∧ v.verify = .ok () ∧ 0 < vset.powerOf v.voter

/-- The distinct voters of a certificate. -/
def voters (c : Certificate) : Finset Address := (c.votes.map Vote.voter).toFinset

/-- A vote is accepted exactly when it is in order; it is counted when its voter is new. -/
theorem checkVote_eq_ok {c : Certificate} {vset : ValidatorSet} {seen : List Address}
    {power : UInt64} {v : Vote} {r : List Address × UInt64} :
    c.checkVote vset (seen, power) v = .ok r ↔
      c.VoteOk vset v ∧ r = if v.voter ∈ seen then (seen, power)
        else (v.voter :: seen, Word.addSat power (vset.powerOf v.voter)) := by
  unfold checkVote VoteOk
  dsimp only
  split
  · rename_i hmix
    exact ⟨fun h => (nomatch h), fun ⟨⟨hh, hb, _⟩, _⟩ => (hmix.elim (· hh) (· hb)).elim⟩
  rename_i hmix
  obtain ⟨hh, hb⟩ : v.height = c.height ∧ v.blockHash = c.blockHash := by
    simpa [not_or] using hmix
  cases hv : v.verify with
  | error e =>
    exact ⟨fun h => (nomatch h), fun ⟨⟨_, _, hok, _⟩, _⟩ => nomatch hok⟩
  | ok u =>
    dsimp only
    rw [if_neg Bool.false_ne_true]
    split
    · rename_i hp
      refine ⟨fun h => (nomatch h), fun ⟨⟨_, _, _, hpos⟩, _⟩ => ?_⟩
      rw [hp] at hpos
      exact absurd hpos (by decide)
    · rename_i hp
      have hpos : 0 < vset.powerOf v.voter := by
        rw [UInt64.lt_iff_toNat_lt, UInt64.toNat_zero]
        rw [← UInt64.toNat_inj, UInt64.toNat_zero] at hp
        omega
      by_cases hseen : v.voter ∈ seen
      · simp [hseen, hh, hb, hpos, pure, Except.pure, eq_comm]
      · simp [hseen, hh, hb, hpos, pure, Except.pure, eq_comm]

/-- The check of a list of votes: it goes through exactly when every vote is in order, and it
counts the power of the distinct voters, saturating. -/
theorem foldlM_checkVote_eq_ok (c : Certificate) (vset : ValidatorSet) :
    ∀ (l : List Vote) (seen : List Address) (power p : UInt64),
      power.toNat = min (vset.weight seen.toFinset) (UInt64.size - 1) →
      ((∃ seen', l.foldlM (c.checkVote vset) (seen, power) = .ok (seen', p)) ↔
        (∀ v ∈ l, c.VoteOk vset v) ∧
          p.toNat = min (vset.weight (seen.toFinset ∪ (l.map Vote.voter).toFinset))
            (UInt64.size - 1))
  | [], seen, power, p, hpower => by
    simp only [List.foldlM_nil, List.not_mem_nil, false_imp_iff, implies_true, true_and,
      List.map_nil, List.toFinset_nil, Finset.union_empty, ← hpower]
    constructor
    · rintro ⟨seen', hr⟩
      cases hr
      rfl
    · intro hp
      exact ⟨seen, by rw [UInt64.toNat_inj.mp hp]; rfl⟩
  | v :: rest, seen, power, p, hpower => by
    let next := if v.voter ∈ seen then (seen, power)
      else (v.voter :: seen, Word.addSat power (vset.powerOf v.voter))
    have hnext : next.2.toNat = min (vset.weight next.1.toFinset) (UInt64.size - 1) := by
      by_cases hseen : v.voter ∈ seen
      · simpa [next, hseen] using hpower
      · have hnew : v.voter ∉ seen.toFinset := by simpa using hseen
        simp only [next, hseen, if_false, List.toFinset_cons, vset.weight_insert hnew,
          Word.addSat_toNat, hpower]
        omega
    have hvoters : next.1.toFinset ∪ (rest.map Vote.voter).toFinset =
        seen.toFinset ∪ ((v :: rest).map Vote.voter).toFinset := by
      by_cases hseen : v.voter ∈ seen
      · simp only [next, hseen, if_true, List.map_cons, List.toFinset_cons, Finset.union_insert,
          Finset.insert_eq_of_mem (Finset.mem_union_left _ (List.mem_toFinset.mpr hseen))]
      · simp only [next, hseen, if_false, List.toFinset_cons, List.map_cons, Finset.insert_union,
          Finset.union_insert]
    have ih := foldlM_checkVote_eq_ok c vset rest next.1 next.2 p hnext
    rw [List.foldlM_cons]
    constructor
    · rintro ⟨seen', h⟩
      obtain ⟨acc, hacc, hrest⟩ := Except.bind_eq_ok h
      obtain ⟨hv, rfl⟩ := checkVote_eq_ok.mp hacc
      obtain ⟨hall, hp⟩ := ih.mp ⟨seen', hrest⟩
      refine ⟨fun w hw => ?_, hvoters ▸ hp⟩
      rcases List.mem_cons.mp hw with rfl | hw
      · exact hv
      · exact hall w hw
    · rintro ⟨hall, hp⟩
      have hacc : c.checkVote vset (seen, power) v = .ok next :=
        checkVote_eq_ok.mpr ⟨hall v (List.mem_cons_self ..), rfl⟩
      obtain ⟨seen', hrest⟩ :=
        ih.mpr ⟨fun w hw => hall w (List.mem_cons_of_mem _ hw), hvoters ▸ hp⟩
      exact ⟨seen', by rw [hacc, Except.ok_bind]; exact hrest⟩

/-- A certificate verifies against a snapshot exactly when every vote is in order and the
distinct voters hold the quorum, counted with saturation. -/
theorem verify_eq_ok_iff (c : Certificate) (vset : ValidatorSet) :
    c.verify vset = .ok () ↔
      (∀ v ∈ c.votes, c.VoteOk vset v) ∧
        (quorumThreshold vset.totalPower).toNat ≤ min (vset.weight c.voters) (UInt64.size - 1) := by
  have hfold := fun p => foldlM_checkVote_eq_ok c vset c.votes [] 0 p (by simp [ValidatorSet.weight])
  simp only [List.toFinset_nil, Finset.empty_union] at hfold
  unfold verify
  cases hrun : c.votes.foldlM (c.checkVote vset) ([], 0) with
  | error e =>
    simp only [Except.bind, bind]
    constructor
    · intro h
      nomatch h
    · rintro ⟨hall, -⟩
      have hp : ((min (vset.weight c.voters) (UInt64.size - 1)).toUInt64).toNat =
          min (vset.weight c.voters) (UInt64.size - 1) := by
        have hsize := Word.size_eq
        rw [Nat.toUInt64_eq, UInt64.toNat_ofNat_of_lt' (by omega)]
      obtain ⟨seen', h⟩ := (hfold _).mpr ⟨hall, hp⟩
      rw [hrun] at h
      nomatch h
  | ok r =>
    obtain ⟨seen', power⟩ := r
    obtain ⟨hall, hpower⟩ := (hfold power).mp ⟨seen', hrun⟩
    simp only [Except.ok_bind]
    rw [show (c.votes.map Vote.voter).toFinset = c.voters from rfl] at hpower
    constructor
    · intro h
      refine ⟨hall, ?_⟩
      by_cases hlt : power < quorumThreshold vset.totalPower
      · simp only [hlt, if_true] at h
        nomatch h
      · rw [UInt64.lt_iff_toNat_lt] at hlt
        omega
    · rintro ⟨-, hq⟩
      have hnot : ¬power < quorumThreshold vset.totalPower := by
        rw [UInt64.lt_iff_toNat_lt]
        omega
      simp only [hnot, if_false]
      rfl

end Certificate

/-! ## Two certificates for different blocks -/

/-- Two votes of one key at one height for different blocks, both verifying, are evidence that
verifies, in whichever order they arrived. -/
theorem Evidence.ofVotes_verify {x y : Vote} (hkey : x.voterKey = y.voterKey)
    (hheight : x.height = y.height) (hblock : x.blockHash ≠ y.blockHash)
    (hx : x.verify = .ok ()) (hy : y.verify = .ok ()) : (Evidence.ofVotes x y).verify = .ok () := by
  unfold Evidence.ofVotes
  split
  · simp [Evidence.verify, hkey, hheight, hblock, hx, hy]
  · simp [Evidence.verify, hkey, hheight, Ne.symm hblock, hx, hy]

/-- Accountable safety.  Against a snapshot whose powers add up to a word `T`, two certificates
for different blocks at one height have common voters holding at least `2q − T` of the power,
for the quorum `q`, which is more than a third of `T`; and any two votes of a common voter, one
from each certificate, are double-vote evidence that verifies, as long as the votes' keys with
one address are one key. -/
theorem certificates_overlap_accountable (vset : ValidatorSet) (c₁ c₂ : Certificate)
    (htotal : vset.exactTotal < UInt64.size)
    (hheight : c₁.height = c₂.height) (hblock : c₁.blockHash ≠ c₂.blockHash)
    (h₁ : c₁.verify vset = .ok ()) (h₂ : c₂.verify vset = .ok ())
    (hkeys : ∀ v₁ ∈ c₁.votes, ∀ v₂ ∈ c₂.votes, v₁.voter = v₂.voter → v₁.voterKey = v₂.voterKey) :
    2 * (quorumThreshold vset.totalPower).toNat - vset.exactTotal ≤
        vset.weight (c₁.voters ∩ c₂.voters) ∧
      vset.exactTotal < 3 * (2 * (quorumThreshold vset.totalPower).toNat - vset.exactTotal) ∧
      ∀ a ∈ c₁.voters ∩ c₂.voters, ∀ v₁ ∈ c₁.votes, ∀ v₂ ∈ c₂.votes,
        v₁.voter = a → v₂.voter = a → (Evidence.ofVotes v₁ v₂).verify = .ok () := by
  obtain ⟨hall₁, hq₁⟩ := (c₁.verify_eq_ok_iff vset).mp h₁
  obtain ⟨hall₂, hq₂⟩ := (c₂.verify_eq_ok_iff vset).mp h₂
  have hq : (quorumThreshold vset.totalPower).toNat = 2 * vset.exactTotal / 3 + 1 := by
    rw [quorumThreshold_toNat, ValidatorSet.totalPower_toNat htotal]
  -- the union of the voters holds at most the total; the rest is inclusion–exclusion
  have hunion := vset.weight_le_total (c₁.voters ∪ c₂.voters)
  have hsplit : vset.weight (c₁.voters ∪ c₂.voters) + vset.weight (c₁.voters ∩ c₂.voters) =
      vset.weight c₁.voters + vset.weight c₂.voters :=
    Finset.sum_union_inter
  refine ⟨by omega, by omega, ?_⟩
  intro a _ v₁ hv₁ v₂ hv₂ ha₁ ha₂
  obtain ⟨hh₁, hb₁, hver₁, -⟩ := hall₁ v₁ hv₁
  obtain ⟨hh₂, hb₂, hver₂, -⟩ := hall₂ v₂ hv₂
  refine Evidence.ofVotes_verify (hkeys v₁ hv₁ v₂ hv₂ (ha₁.trans ha₂.symm)) ?_ ?_ hver₁ hver₂
  · rw [hh₁, hh₂, hheight]
  · rw [hb₁, hb₂]
    exact hblock

/-- A validator of power one at height 1, with the key of a development label. -/
def oneValidatorSet : ValidatorSet :=
  ⟨1, [⟨(Keypair.ofLabel "validator-0").address, (Keypair.ofLabel "validator-0").publicKey, 1⟩]⟩

/-- A certificate at height 1 for a block, signed by that validator alone. -/
def oneVoteCertificate (block : Digest) : Certificate :=
  ⟨1, block, [Vote.signWith (Keypair.ofLabel "validator-0") 1 block], 1, 1⟩

/-- A lone validator that signs two blocks at one height certifies both, and is the whole
overlap: its power, all of it, is above a third, and its two votes are evidence. -/
theorem certificates_overlap_accountable_on_one_validator :
    (oneValidatorSet.exactTotal < UInt64.size ∧
      (oneVoteCertificate (Digest.ofText "x")).height =
        (oneVoteCertificate (Digest.ofText "y")).height ∧
      (oneVoteCertificate (Digest.ofText "x")).blockHash ≠
        (oneVoteCertificate (Digest.ofText "y")).blockHash ∧
      (oneVoteCertificate (Digest.ofText "x")).verify oneValidatorSet = .ok () ∧
      (oneVoteCertificate (Digest.ofText "y")).verify oneValidatorSet = .ok () ∧
      ∀ v₁ ∈ (oneVoteCertificate (Digest.ofText "x")).votes,
        ∀ v₂ ∈ (oneVoteCertificate (Digest.ofText "y")).votes,
          v₁.voter = v₂.voter → v₁.voterKey = v₂.voterKey) ∧
    2 * (quorumThreshold oneValidatorSet.totalPower).toNat - oneValidatorSet.exactTotal ≤
        oneValidatorSet.weight ((oneVoteCertificate (Digest.ofText "x")).voters ∩
          (oneVoteCertificate (Digest.ofText "y")).voters) ∧
      oneValidatorSet.exactTotal <
        3 * (2 * (quorumThreshold oneValidatorSet.totalPower).toNat - oneValidatorSet.exactTotal) ∧
      ∀ a ∈ (oneVoteCertificate (Digest.ofText "x")).voters ∩
          (oneVoteCertificate (Digest.ofText "y")).voters,
        ∀ v₁ ∈ (oneVoteCertificate (Digest.ofText "x")).votes,
          ∀ v₂ ∈ (oneVoteCertificate (Digest.ofText "y")).votes,
            v₁.voter = a → v₂.voter = a → (Evidence.ofVotes v₁ v₂).verify = .ok () := by
  -- the hypotheses are closed facts, decided together so that the keys are derived once
  obtain ⟨htotal, hheight, hblock, h₁, h₂, hkeys⟩ :
      oneValidatorSet.exactTotal < UInt64.size ∧
      (oneVoteCertificate (Digest.ofText "x")).height =
        (oneVoteCertificate (Digest.ofText "y")).height ∧
      (oneVoteCertificate (Digest.ofText "x")).blockHash ≠
        (oneVoteCertificate (Digest.ofText "y")).blockHash ∧
      (oneVoteCertificate (Digest.ofText "x")).verify oneValidatorSet = .ok () ∧
      (oneVoteCertificate (Digest.ofText "y")).verify oneValidatorSet = .ok () ∧
      ∀ v₁ ∈ (oneVoteCertificate (Digest.ofText "x")).votes,
        ∀ v₂ ∈ (oneVoteCertificate (Digest.ofText "y")).votes,
          v₁.voter = v₂.voter → v₁.voterKey = v₂.voterKey := by
    decide +kernel
  exact ⟨⟨htotal, hheight, hblock, h₁, h₂, hkeys⟩,
    certificates_overlap_accountable oneValidatorSet _ _ htotal hheight hblock h₁ h₂ hkeys⟩

end StakeChain

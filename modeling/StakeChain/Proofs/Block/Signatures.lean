import StakeChain.Proofs.Block.Selection

/-!
# What a block's verdict depends on

A block hash is the digest of the header. The header commits to the transactions through the
root over their hashes and to the evidence through the root over evidence ids; neither a
transaction hash nor an evidence id covers a signature, and the hash covers neither the
proposer's signature nor the bodies themselves. Blocks that differ only in their signatures
(`Block.unsigned`) therefore have one hash.

Such blocks can get different verdicts: a block whose proposer signature is spoiled is refused
with `badProposerSignature`, while the block it copies is accepted
(`verifyBlock_verdict_not_fixed_by_hash`). Signatures are all that can part them: when every
signature of both blocks verifies (`Block.Signed`), verification gives both the same verdict,
the same error or the same ledger, receipts, gas and fees, and the same penalty outcomes for
evidence that differs only in signatures (`verifyBlock_unsigned_eq`). A proposer can sign one
header twice with different nonces, so two such blocks need not be equal.

The proof follows the checks of `verifyBlock` in order. Transaction hashes and evidence ids,
hence both roots and the duplicate check, ignore signatures (`Transaction.hash_unsigned`,
`Evidence.id_unsigned`); applying a transaction and charging its gas ignore them too
(`executeTx_unsigned`); penalizing evidence reads its signatures only through verification,
which agrees on evidence that differs only in signatures when all of them verify
(`penalize_eq_of_unsigned_eq`). The evidence fold keeps penalty lists that agree up to
signatures (`prepareBlock_unsigned_eq`).
-/

set_option autoImplicit false

namespace StakeChain

/-! ## Signatures left out -/

/-- The transaction with its signature left out. -/
def Transaction.unsigned (t : Transaction) : Transaction := { t with signature := [] }

/-- The evidence with the signatures of its artifacts left out. -/
def Evidence.unsigned : Evidence → Evidence
  | .doubleVote a b => .doubleVote { a with signature := [] } { b with signature := [] }
  | .doubleProposal a b => .doubleProposal { a with signature := [] } { b with signature := [] }

/-- The block with every signature it carries left out. -/
def Block.unsigned (b : Block) : Block :=
  { b with signature := [], txs := b.txs.map Transaction.unsigned,
           evidence := b.evidence.map Evidence.unsigned }

/-- A penalty with the signatures of its evidence left out. -/
def unsignedPenalty (p : Evidence × PenaltyOutcome) : Evidence × PenaltyOutcome :=
  (p.1.unsigned, p.2)

/-- The outcome with the signatures of the penalized evidence left out. -/
def BlockOutcome.unsigned (o : BlockOutcome) : BlockOutcome :=
  { o with penalties := o.penalties.map unsignedPenalty }

@[simp] theorem BlockOutcome.ledger_unsigned (o : BlockOutcome) : o.unsigned.ledger = o.ledger :=
  rfl

@[simp] theorem BlockOutcome.gasUsed_unsigned (o : BlockOutcome) :
    o.unsigned.gasUsed = o.gasUsed := rfl

/-- Both artifacts of the evidence carry signatures that verify. -/
def Evidence.ArtifactsSigned : Evidence → Prop
  | .doubleVote a b => a.verify = .ok () ∧ b.verify = .ok ()
  | .doubleProposal a b => a.verify = .ok () ∧ b.verify = .ok ()

/-- Every signature a block carries verifies: the proposer's, each transaction's, and both
artifacts' of each evidence. -/
structure Block.Signed (b : Block) : Prop where
  header : SignedHeader.verifyHeader b.header b.signature = .ok ()
  txs : ∀ t ∈ b.txs, t.verifySignature = .ok ()
  evidence : ∀ e ∈ b.evidence, e.ArtifactsSigned

@[simp] theorem Transaction.hash_unsigned (t : Transaction) : t.unsigned.hash = t.hash := rfl

@[simp] theorem Evidence.id_unsigned (e : Evidence) : e.unsigned.id = e.id := by
  cases e <;> rfl

@[simp] theorem Evidence.offender_unsigned (e : Evidence) : e.unsigned.offender = e.offender := by
  cases e <;> rfl

@[simp] theorem Evidence.kind_unsigned (e : Evidence) : e.unsigned.kind = e.kind := by
  cases e <;> rfl

@[simp] theorem Evidence.height_unsigned (e : Evidence) : e.unsigned.height = e.height := by
  cases e <;> rfl

@[simp] theorem Block.header_unsigned (b : Block) : b.unsigned.header = b.header := rfl

@[simp] theorem Block.txs_unsigned (b : Block) :
    b.unsigned.txs = b.txs.map Transaction.unsigned := rfl

@[simp] theorem Block.evidence_unsigned (b : Block) :
    b.unsigned.evidence = b.evidence.map Evidence.unsigned := rfl

/-- Replacing a block's proposer signature leaves its unsigned form. -/
theorem Block.unsigned_with_signature (b : Block) (sig : Bytes) :
    { b with signature := sig }.unsigned = b.unsigned := rfl

/-- Blocks that differ only in their signatures have one hash. -/
theorem Block.hash_eq_of_unsigned_eq {b₁ b₂ : Block} (h : b₁.unsigned = b₂.unsigned) :
    b₁.hash = b₂.hash := by
  have hheader : b₁.unsigned.header = b₂.unsigned.header := congrArg Block.header h
  exact congrArg BlockHeader.hash hheader

/-- Lists that agree once `u` is applied agree under any map that reads nothing `u` drops. -/
theorem map_eq_of_map_eq {α κ : Type} {u : α → α} {f : α → κ} (hf : ∀ x, f (u x) = f x)
    {xs ys : List α} (h : xs.map u = ys.map u) : xs.map f = ys.map f := by
  have hmap := congrArg (List.map f) h
  simpa [List.map_map, Function.comp_def, hf] using hmap

/-- Evidence that agrees up to signatures agrees on whatever reads no signature. -/
theorem Evidence.eq_of_unsigned_eq {κ : Type} (f : Evidence → κ) (hf : ∀ e, f e.unsigned = f e)
    {e e' : Evidence} (h : e.unsigned = e'.unsigned) : f e = f e' := by
  rw [← hf e, h, hf e']

/-! ## Transactions -/

/-- Applying a transaction whose signature was checked reads every field but the signature. -/
theorem Ledger.applyVerified_unsigned (l : Ledger) (params : LedgerParams) (tx : Transaction) :
    l.applyVerified params tx.unsigned = l.applyVerified params tx := rfl

@[simp] theorem GasSchedule.cost_unsigned (g : GasSchedule) (tx : Transaction) :
    g.cost tx.unsigned = g.cost tx := rfl

/-- Charging a transaction's gas and applying it read every field but its signature. -/
theorem executeTx_unsigned (params : LedgerParams) (acc : Ledger × GasMeter × List Receipt)
    (i : Nat) (tx : Transaction) :
    executeTx params acc (i, tx.unsigned) = executeTx params acc (i, tx) := by
  simp only [executeTx, GasSchedule.cost_unsigned, Ledger.applyVerified_unsigned]

/-- Transactions that differ only in signatures run through a block alike. -/
theorem foldlM_executeTx_eq_of_unsigned_eq {txs₁ txs₂ : List Transaction}
    (h : txs₁.map Transaction.unsigned = txs₂.map Transaction.unsigned) (params : LedgerParams)
    (is : List Nat) (init : Ledger × GasMeter × List Receipt) :
    (is.zip txs₁).foldlM (executeTx params) init = (is.zip txs₂).foldlM (executeTx params) init := by
  have hstrip : ∀ txs : List Transaction, (is.zip txs).foldlM (executeTx params) init =
      (is.zip (txs.map Transaction.unsigned)).foldlM (executeTx params) init := by
    intro txs
    have hstep : (fun acc itx => executeTx params acc (Prod.map id Transaction.unsigned itx)) =
        executeTx params := by
      funext acc ⟨i, tx⟩
      exact executeTx_unsigned params acc i tx
    rw [List.zip_map_right, List.foldlM_map, hstep]
  rw [hstrip txs₁, hstrip txs₂, h]

/-! ## Evidence -/

/-- Evidence that differs only in signatures, all of which verify, gets one verdict: the
checks of signers, heights and conflict read no signature. -/
theorem Evidence.verify_eq_of_unsigned_eq {e e' : Evidence} (h : e.unsigned = e'.unsigned)
    (hs : e.ArtifactsSigned) (hs' : e'.ArtifactsSigned) : e.verify = e'.verify := by
  cases e with
  | doubleVote a b =>
    cases e' with
    | doubleVote a' b' =>
      obtain ⟨ka, ha, ba, sa⟩ := a
      obtain ⟨kb, hb, bb, sb⟩ := b
      obtain ⟨ka', ha', ba', sa'⟩ := a'
      obtain ⟨kb', hb', bb', sb'⟩ := b'
      simp only [unsigned, doubleVote.injEq, Vote.mk.injEq, and_true] at h
      obtain ⟨⟨rfl, rfl, rfl⟩, ⟨rfl, rfl, rfl⟩⟩ := h
      simp only [ArtifactsSigned] at hs hs'
      simp only [verify, hs.1, hs.2, hs'.1, hs'.2]
    | doubleProposal a' b' => cases h
  | doubleProposal a b =>
    cases e' with
    | doubleVote a' b' => cases h
    | doubleProposal a' b' =>
      obtain ⟨ha, sa⟩ := a
      obtain ⟨hb, sb⟩ := b
      obtain ⟨ha', sa'⟩ := a'
      obtain ⟨hb', sb'⟩ := b'
      simp only [unsigned, doubleProposal.injEq, SignedHeader.mk.injEq, and_true] at h
      obtain ⟨rfl, rfl⟩ := h
      simp only [ArtifactsSigned] at hs hs'
      simp only [verify, SignedHeader.hash, hs.1, hs.2, hs'.1, hs'.2]

/-- Penalizing evidence that differs only in signatures, all of which verify, does the same. -/
theorem penalize_eq_of_unsigned_eq {e e' : Evidence} (h : e.unsigned = e'.unsigned)
    (hs : e.ArtifactsSigned) (hs' : e'.ArtifactsSigned) (l : Ledger) (params : LedgerParams)
    (height : UInt64) : penalize l e params height = penalize l e' params height := by
  unfold penalize
  rw [Evidence.verify_eq_of_unsigned_eq h hs hs',
    Evidence.eq_of_unsigned_eq _ Evidence.id_unsigned h,
    Evidence.eq_of_unsigned_eq _ Evidence.offender_unsigned h,
    Evidence.eq_of_unsigned_eq _ Evidence.kind_unsigned h,
    Evidence.eq_of_unsigned_eq _ Evidence.height_unsigned h]

/-! ## Folds that agree up to a projection -/

/-- Two results agree on a projection when both are one error or both are values of one
projection. -/
theorem Except.map_eq_map_iff {ε α κ : Type} {p : α → κ} {x y : Except ε α} :
    p <$> x = p <$> y ↔
      (∃ e, x = .error e ∧ y = .error e) ∨ ∃ a b, x = .ok a ∧ y = .ok b ∧ p a = p b := by
  cases x <;> cases y <;> simp [Functor.map, Except.map, eq_comm]

/-- Two folds of one step agree on a projection of their values when the step does on related
items: both stop with one error, or both go on with values of one projection. -/
theorem Except.foldlM_proj_eq {ε α β κ : Type} (p : α → κ) (S : β → β → Prop)
    (g : α → β → Except ε α)
    (hstep : ∀ a a' x y, p a = p a' → S x y → p <$> g a x = p <$> g a' y) :
    ∀ {xs ys : List β} {a a' : α}, List.Forall₂ S xs ys → p a = p a' →
      p <$> xs.foldlM g a = p <$> ys.foldlM g a'
  | [], [], _, _, .nil, hp => by
    simp only [List.foldlM_nil]
    exact congrArg Except.ok hp
  | x :: xs, y :: ys, a, a', .cons hxy hrest, hp => by
    simp only [List.foldlM_cons]
    rcases Except.map_eq_map_iff.mp (hstep a a' x y hp hxy) with
      ⟨err, hx, hy⟩ | ⟨b, b', hx, hy, hb⟩
    · rw [hx, hy]
      rfl
    · rw [hx, hy]
      exact Except.foldlM_proj_eq p S g hstep hrest hb

/-- What depends only on the projection agrees too. -/
theorem Except.map_eq_of_proj_eq {ε α κ γ : Type} (p : α → κ) (q : α → γ)
    (hq : ∀ a a', p a = p a' → q a = q a') {x y : Except ε α} (h : p <$> x = p <$> y) :
    q <$> x = q <$> y := by
  rcases Except.map_eq_map_iff.mp h with ⟨err, rfl, rfl⟩ | ⟨a, b, rfl, rfl, hab⟩
  · rfl
  · exact congrArg Except.ok (hq a b hab)

namespace Guarded

theorem run_map_ofExcept {ε α κ : Type} (f : α → κ) (e : Except ε α) :
    (f <$> ofExcept e).run = .ok (f <$> e) := by
  cases e <;> rfl

/-- Two guarded binds agree on a projection when their first steps agree on one and their
continuations agree on values of one projection. -/
theorem map_bind_eq {ε α β κ γ : Type} (p : α → κ) {q : β → γ} {x y : Guarded ε α}
    {f g : α → Guarded ε β} (hxy : (p <$> x).run = (p <$> y).run)
    (hfg : ∀ a b, p a = p b → (q <$> f a).run = (q <$> g b).run) :
    (q <$> (x >>= f)).run = (q <$> (y >>= g)).run := by
  unfold Guarded.run at hxy ⊢
  rw [ExceptT.run_map, ExceptT.run_map] at hxy
  rw [map_bind, map_bind, ExceptT.run_bind, ExceptT.run_bind]
  -- the projection forces one abort, one error, or values of one projection on both sides
  rcases Except.map_eq_map_iff.mp hxy with ⟨ab, hx, hy⟩ | ⟨r, r', hx, hy, hr⟩
  · rw [hx, hy]
    rfl
  rw [hx, hy]
  rcases Except.map_eq_map_iff.mp hr with ⟨e, rfl, rfl⟩ | ⟨a, b, rfl, rfl, hab⟩
  · rfl
  · exact hfg a b hab

/-- A check that throws one error on both sides keeps two computations that agree on a
projection in agreement. -/
theorem map_guard_eq {ε α γ : Type} {q : α → γ} (c : Prop) [Decidable c] (err : ε)
    {x y : Guarded ε α} (h : (q <$> x).run = (q <$> y).run) :
    (q <$> if c then throw err >>= (fun _ : Unit => x) else x).run =
      (q <$> if c then throw err >>= (fun _ : Unit => y) else y).run := by
  by_cases hc : c
  · simp only [hc, if_true]
    rfl
  · simp only [hc, if_false]
    exact h

end Guarded

/-- Pairing two related lists with one list of indices keeps them related, index by index. -/
theorem forall₂_zip_left {α β : Type} {S : β → β → Prop} :
    ∀ (is : List α) {xs ys : List β}, List.Forall₂ S xs ys →
      List.Forall₂ (fun p q => p.1 = q.1 ∧ S p.2 q.2) (is.zip xs) (is.zip ys)
  | [], _, _, _ => by simp
  | _ :: _, _, _, .nil => by simp
  | i :: is, _ :: _, _ :: _, .cons hxy hrest => by
    simp only [List.zip_cons_cons]
    exact .cons ⟨rfl, hxy⟩ (forall₂_zip_left is hrest)

/-- Evidence lists that agree up to signatures, all of which verify, are related item by item. -/
theorem forall₂_evidence {ev₁ ev₂ : List Evidence}
    (h : ev₁.map Evidence.unsigned = ev₂.map Evidence.unsigned)
    (hs₁ : ∀ e ∈ ev₁, e.ArtifactsSigned) (hs₂ : ∀ e ∈ ev₂, e.ArtifactsSigned) :
    List.Forall₂ (fun e e' => e.unsigned = e'.unsigned ∧ e.ArtifactsSigned ∧ e'.ArtifactsSigned)
      ev₁ ev₂ := by
  have hrel : List.Forall₂ (fun e e' => e.unsigned = e'.unsigned) ev₁ ev₂ := by
    have heq : List.Forall₂ (· = ·) (ev₁.map Evidence.unsigned) (ev₂.map Evidence.unsigned) := by
      rw [List.forall₂_eq_eq_eq]
      exact h
    rw [List.forall₂_map_left_iff, List.forall₂_map_right_iff] at heq
    exact heq
  rw [List.forall₂_iff_zip] at hrel ⊢
  exact ⟨hrel.1, fun hmem =>
    ⟨hrel.2 hmem, hs₁ _ (List.of_mem_zip hmem).1, hs₂ _ (List.of_mem_zip hmem).2⟩⟩

/-- The evidence of two blocks that differ only in signatures, all of which verify, leaves one
ledger and penalty lists that agree up to signatures. -/
theorem prepareBlock_unsigned_eq {ev₁ ev₂ : List Evidence}
    (h : ev₁.map Evidence.unsigned = ev₂.map Evidence.unsigned)
    (hs₁ : ∀ e ∈ ev₁, e.ArtifactsSigned) (hs₂ : ∀ e ∈ ev₂, e.ArtifactsSigned)
    (prev : Ledger) (height : UInt64) (params : LedgerParams) :
    (fun r => (r.1, r.2.map unsignedPenalty)) <$> prepareBlock prev height ev₁ params =
      (fun r => (r.1, r.2.map unsignedPenalty)) <$> prepareBlock prev height ev₂ params := by
  have hlen : ev₁.length = ev₂.length := by simpa using congrArg List.length h
  have hrel := forall₂_zip_left (List.range ev₁.length) (forall₂_evidence h hs₁ hs₂)
  unfold prepareBlock
  simp only [Functor.map_map, hlen]
  rw [hlen] at hrel
  -- the fold keeps one ledger, one list of seen ids and penalties that agree up to signatures
  refine Except.map_eq_of_proj_eq
    (fun acc : Ledger × List (Evidence × PenaltyOutcome) × List Digest =>
      (acc.1, acc.2.1.map unsignedPenalty, acc.2.2)) _ ?_ (Except.foldlM_proj_eq _ _ _ ?_ hrel rfl)
  · rintro ⟨l, ps, seen⟩ ⟨l', ps', seen'⟩ hp
    simp only [Prod.mk.injEq] at hp
    simp [hp.1, hp.2.1]
  · rintro ⟨l, ps, seen⟩ ⟨l', ps', seen'⟩ ⟨i, e⟩ ⟨j, e'⟩ hp ⟨rfl, hsame, hse, hse'⟩
    simp only [Prod.mk.injEq] at hp
    obtain ⟨rfl, hps, rfl⟩ := hp
    simp only [Evidence.eq_of_unsigned_eq _ Evidence.id_unsigned hsame]
    split
    · simp [hps]
    · rw [penalize_eq_of_unsigned_eq hsame hse hse']
      cases penalize l e' params height with
      | error err => rfl
      | ok r => simp [hps, unsignedPenalty, hsame]

/-! ## Whole blocks -/

/-- Block bodies that differ only in signatures, all of which verify, execute alike: one error,
or one ledger, receipts, gas and fees with penalty outcomes that agree up to signatures. -/
theorem executeBlock_unsigned_eq {txs₁ txs₂ : List Transaction} {ev₁ ev₂ : List Evidence}
    (htxs : txs₁.map Transaction.unsigned = txs₂.map Transaction.unsigned)
    (hev : ev₁.map Evidence.unsigned = ev₂.map Evidence.unsigned)
    (hsig₁ : ∀ t ∈ txs₁, t.verifySignature = .ok ())
    (hsig₂ : ∀ t ∈ txs₂, t.verifySignature = .ok ())
    (hes₁ : ∀ e ∈ ev₁, e.ArtifactsSigned) (hes₂ : ∀ e ∈ ev₂, e.ArtifactsSigned)
    (prev : Ledger) (height : UInt64) (proposer : Address) (params : LedgerParams) :
    (BlockOutcome.unsigned <$> executeBlock prev height proposer txs₁ ev₁ params).run =
      (BlockOutcome.unsigned <$> executeBlock prev height proposer txs₂ ev₂ params).run := by
  have hlen : txs₁.length = txs₂.length := by simpa using congrArg List.length htxs
  unfold executeBlock
  rw [map_eq_of_map_eq Transaction.hash_unsigned htxs, verifySignatures_eq_ok hsig₁, verifySignatures_eq_ok hsig₂,
    hlen]
  cases firstDuplicate (txs₂.map Transaction.hash) with
  | some h => rfl
  | none =>
    simp only [Guarded.ofExcept_ok_bind]
    refine Guarded.map_bind_eq (fun r => (r.1, r.2.map unsignedPenalty)) ?_ ?_
    · rw [Guarded.run_map_ofExcept, Guarded.run_map_ofExcept,
        prepareBlock_unsigned_eq hev hes₁ hes₂]
    · rintro ⟨l, ps⟩ ⟨l', ps'⟩ hp
      simp only [Prod.mk.injEq] at hp
      obtain ⟨rfl, hps⟩ := hp
      rw [foldlM_executeTx_eq_of_unsigned_eq htxs]
      refine Guarded.map_bind_eq id rfl ?_
      rintro ⟨w, m, rs⟩ _ rfl
      simp only [map_pure, BlockOutcome.unsigned, hps, id]

/-- Blocks that differ only in their signatures, all of which verify, have one hash and one
verdict: the same abort, the same error, or outcomes that agree up to the signatures of the
penalized evidence. -/
theorem verifyBlock_unsigned_eq {b₁ b₂ : Block} (hsame : b₁.unsigned = b₂.unsigned)
    (hs₁ : b₁.Signed) (hs₂ : b₂.Signed) (prev : Ledger) (params : LedgerParams) :
    b₁.hash = b₂.hash ∧
      (BlockOutcome.unsigned <$> verifyBlock prev b₁ params).run =
        (BlockOutcome.unsigned <$> verifyBlock prev b₂ params).run := by
  have hheader : b₁.header = b₂.header := by simpa using congrArg Block.header hsame
  have htxs : b₁.txs.map Transaction.unsigned = b₂.txs.map Transaction.unsigned := by
    simpa using congrArg Block.txs hsame
  have hev : b₁.evidence.map Evidence.unsigned = b₂.evidence.map Evidence.unsigned := by
    simpa using congrArg Block.evidence hsame
  have htxRoot : txRoot b₁.txs = txRoot b₂.txs := by
    rw [txRoot, txRoot, map_eq_of_map_eq Transaction.hash_unsigned htxs]
  have hevRoot : evidenceRoot b₁.evidence = evidenceRoot b₂.evidence := by
    rw [evidenceRoot, evidenceRoot, map_eq_of_map_eq Evidence.id_unsigned hev]
  refine ⟨Block.hash_eq_of_unsigned_eq hsame, ?_⟩
  unfold verifyBlock
  rw [hs₁.header, hs₂.header, htxRoot, hevRoot, hheader]
  simp only [Bool.false_eq_true, ↓reduceIte]
  refine Guarded.map_guard_eq _ _ (Guarded.map_guard_eq _ _ ?_)
  refine Guarded.map_bind_eq BlockOutcome.unsigned
    (executeBlock_unsigned_eq htxs hev hs₁.txs hs₂.txs hs₁.evidence hs₂.evidence _ _ _ _) ?_
  intro o₁ o₂ ho
  have hgas : o₁.gasUsed = o₂.gasUsed := by simpa using congrArg BlockOutcome.gasUsed ho
  have hledger : o₁.ledger = o₂.ledger := by simpa using congrArg BlockOutcome.ledger ho
  rw [hgas, hledger]
  refine Guarded.map_guard_eq _ _ (Guarded.map_guard_eq _ _ ?_)
  simp only [map_pure, ho]

/-! ## The proposer signature -/

/-- A block whose proposer signature fails is refused for it, whatever it carries. -/
theorem verifyBlock_of_verifyHeader_error {b : Block} {err : CryptoError}
    (h : SignedHeader.verifyHeader b.header b.signature = .error err) (prev : Ledger)
    (params : LedgerParams) : (verifyBlock prev b params).run = .ok (.error .badProposerSignature) := by
  unfold verifyBlock
  rw [h]
  rfl

/-- An accepted block's proposer signature verifies. -/
theorem verifyHeader_of_verifyBlock_ok {prev : Ledger} {b : Block} {params : LedgerParams}
    {o : BlockOutcome} (h : (verifyBlock prev b params).run = .ok (.ok o)) :
    SignedHeader.verifyHeader b.header b.signature = .ok () := by
  cases hv : SignedHeader.verifyHeader b.header b.signature with
  | error err =>
    rw [verifyBlock_of_verifyHeader_error hv] at h
    cases h
  | ok u => rfl

/-! ## An empty block, signed twice and spoiled -/

/-- The key that proposes the blocks below. -/
def emptyBlockSigner : Keypair := Keypair.ofLabel "validator-0"

/-- The same key with another nonce prefix: it signs with other nonces, so its signatures differ
from the first key's and verify under the same public key. -/
def emptyBlockResigner : Keypair := { emptyBlockSigner with noncePrefix := [1] }

/-- The header of the empty block at height 1 on the empty ledger. -/
def emptyBlockHeader : BlockHeader :=
  { height := 1, parent := Digest.zero, txRoot := txRoot [], evidenceRoot := evidenceRoot [],
    stateRoot := ((({} : Ledger).beginBlock 1).payFees emptyBlockSigner.address).1.stateRoot,
    gasUsed := 0, proposerKey := emptyBlockSigner.publicKey, timestamp := 1 }

def emptySignedBlock : Block :=
  ⟨emptyBlockHeader, SignedHeader.signatureOf emptyBlockSigner emptyBlockHeader, [], []⟩

/-- The empty block with a second signature of its proposer. -/
def emptyResignedBlock : Block :=
  { emptySignedBlock with signature := SignedHeader.signatureOf emptyBlockResigner emptyBlockHeader }

/-- The empty block with its proposer signature replaced by zeros. -/
def emptySpoiledBlock : Block := { emptySignedBlock with signature := List.replicate 64 0 }

theorem verifyBlock_emptySignedBlock : ∃ o, (verifyBlock {} emptySignedBlock {}).run = .ok (.ok o) := by
  have h : ((verifyBlock {} emptySignedBlock {}).run.toOption.bind Except.toOption).isSome := by
    decide +kernel
  revert h
  generalize (verifyBlock {} emptySignedBlock {}).run = r
  rcases r with _ | _ | o <;> simp [Except.toOption]

/-- Two blocks with one hash get different verdicts: the empty block is accepted, and its copy
with a spoiled proposer signature is refused for it. -/
theorem verifyBlock_verdict_not_fixed_by_hash :
    emptySpoiledBlock.hash = emptySignedBlock.hash ∧
      (∃ o, (verifyBlock {} emptySignedBlock {}).run = .ok (.ok o)) ∧
      (verifyBlock {} emptySpoiledBlock {}).run = .ok (.error .badProposerSignature) := by
  have hbad : SignedHeader.verifyHeader emptySpoiledBlock.header emptySpoiledBlock.signature =
      .error .invalidSignature := by
    decide +kernel
  exact ⟨Block.hash_eq_of_unsigned_eq (Block.unsigned_with_signature _ _),
    verifyBlock_emptySignedBlock, verifyBlock_of_verifyHeader_error hbad {} {}⟩

theorem emptySignedBlock_signed : emptySignedBlock.Signed := by
  obtain ⟨o, h⟩ := verifyBlock_emptySignedBlock
  exact ⟨verifyHeader_of_verifyBlock_ok h, by simp [emptySignedBlock], by simp [emptySignedBlock]⟩

theorem emptyResignedBlock_signed : emptyResignedBlock.Signed := by
  have hheader : SignedHeader.verifyHeader emptyResignedBlock.header
      emptyResignedBlock.signature = .ok () := by
    decide +kernel
  exact ⟨hheader, by simp [emptyResignedBlock, emptySignedBlock],
    by simp [emptyResignedBlock, emptySignedBlock]⟩

/-- The empty block under two different signatures of its proposer: both verify, and the two
blocks get one verdict. -/
theorem verifyBlock_unsigned_eq_on_resigned_block :
    emptySignedBlock.signature ≠ emptyResignedBlock.signature ∧
      emptySignedBlock.unsigned = emptyResignedBlock.unsigned ∧ emptySignedBlock.Signed ∧
      emptyResignedBlock.Signed ∧
      (emptySignedBlock.hash = emptyResignedBlock.hash ∧
        (BlockOutcome.unsigned <$> verifyBlock {} emptySignedBlock {}).run =
          (BlockOutcome.unsigned <$> verifyBlock {} emptyResignedBlock {}).run) := by
  have hne : emptySignedBlock.signature ≠ emptyResignedBlock.signature := by
    decide +kernel
  have hsame : emptySignedBlock.unsigned = emptyResignedBlock.unsigned :=
    (Block.unsigned_with_signature _ _).symm
  exact ⟨hne, hsame, emptySignedBlock_signed, emptyResignedBlock_signed,
    verifyBlock_unsigned_eq hsame emptySignedBlock_signed emptyResignedBlock_signed {} {}⟩

end StakeChain

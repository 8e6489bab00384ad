import StakeChain.Evidence.Basic

/-!
# Signed encodings are unambiguous and domain-separated

A transaction's signed bytes are a domain tag, then fixed-width little-endian words, the kind's
one-byte tag and fields, and two fields prefixed by their 32-bit length. Read from the front,
each part has a length known from what came before it: a word has eight bytes, a prefixed field
the length its prefix spells (when it fits 32 bits), and a kind's fields the width its tag gives.
So equal encodings split into equal parts (`Bytes.le64_append_iff`,
`Bytes.lenPrefixed_append_iff`, `TxKind.encode_append_iff`), and
`Transaction.signBytes_eq_iff` says the signed bytes of two transactions are equal exactly when
the transactions agree on every field but the signature. The hashed bytes of a header split the
same way (`BlockHeader.hashBytes_eq_iff`).

The four kinds of message start differently: `U` for transactions and headers, which part at
their tenth byte (`T` against `B`), `P` for proposals and `F` for votes
(`signed_messages_disjoint`). A signature over one kind of artifact is therefore never a
signature over another kind, and equal transaction hashes or block hashes are equal contents
unless BLAKE3 has a collision (`signed_encodings_unambiguous`).

The widths come from the chain's types: addresses have 20 bytes and digests 32.
-/

set_option autoImplicit false

namespace StakeChain

namespace Bytes

theorem le64_inj {a b : UInt64} (h : le64 a = le64 b) : a = b := by
  have hread := congrArg readLe h
  rw [readLe_le64, readLe_le64] at hread
  exact UInt64.toNat_inj.mp hread

theorem readLe_le16 (v : UInt16) : readLe (le16 v) = v.toNat := by
  simp only [le16, readLe_leN]
  exact Nat.mod_eq_of_lt v.toNat_lt

theorem le16_inj {a b : UInt16} (h : le16 a = le16 b) : a = b := by
  have hread := congrArg readLe h
  rw [readLe_le16, readLe_le16] at hread
  exact UInt16.toNat_inj.mp hread

/-- A length that fits 32 bits is read back from its prefix. -/
theorem readLe_lenPrefix32 {b : Bytes} (h : b.length < UInt32.size) :
    readLe (lenPrefix32 b) = b.length := by
  simp only [lenPrefix32, readLe_leN]
  exact Nat.mod_eq_of_lt h

@[simp] theorem lenPrefix32_length (b : Bytes) : (lenPrefix32 b).length = 4 := leN_length 4 _

/-- Two strings that start with parts of one length split into equal parts. -/
theorem append_inj_iff {a b r r' : Bytes} (h : a.length = b.length) :
    a ++ r = b ++ r' ↔ a = b ∧ r = r' :=
  ⟨fun he => List.append_inj he h, by rintro ⟨rfl, rfl⟩; rfl⟩

theorem le64_append_iff {a b : UInt64} {r r' : Bytes} :
    le64 a ++ r = le64 b ++ r' ↔ a = b ∧ r = r' := by
  rw [append_inj_iff (by simp)]
  exact ⟨fun ⟨h, hr⟩ => ⟨le64_inj h, hr⟩, by rintro ⟨rfl, rfl⟩; exact ⟨rfl, rfl⟩⟩

theorem le16_append_iff {a b : UInt16} {r r' : Bytes} :
    le16 a ++ r = le16 b ++ r' ↔ a = b ∧ r = r' := by
  rw [append_inj_iff (by simp)]
  exact ⟨fun ⟨h, hr⟩ => ⟨le16_inj h, hr⟩, by rintro ⟨rfl, rfl⟩; exact ⟨rfl, rfl⟩⟩

/-- A length-prefixed field splits off the front: the prefix fixes its length. -/
theorem lenPrefixed_append_iff {x y r r' : Bytes} (hx : x.length < UInt32.size)
    (hy : y.length < UInt32.size) :
    lenPrefix32 x ++ (x ++ r) = lenPrefix32 y ++ (y ++ r') ↔ x = y ∧ r = r' := by
  refine ⟨fun h => ?_, by rintro ⟨rfl, rfl⟩; rfl⟩
  obtain ⟨hheads, hrest⟩ := List.append_inj h (by simp)
  have hlen : x.length = y.length := by
    rw [← readLe_lenPrefix32 hx, ← readLe_lenPrefix32 hy, hheads]
  exact List.append_inj hrest hlen

theorem lenPrefixed_inj {x y : Bytes} (hx : x.length < UInt32.size) (hy : y.length < UInt32.size)
    (h : lenPrefix32 x ++ x = lenPrefix32 y ++ y) : x = y := by
  exact ((@lenPrefixed_append_iff x y [] [] hx hy).mp (by simpa using h)).1

end Bytes

theorem Address.bytes_inj {a b : Address} (h : a.bytes = b.bytes) : a = b := by
  cases a; cases b; cases h; rfl

theorem Digest.bytes_inj {a b : Digest} (h : a.bytes = b.bytes) : a = b := by
  cases a; cases b; cases h; rfl

theorem PublicKey.bytes_inj {a b : PublicKey} (h : a.bytes = b.bytes) : a = b := by
  cases a; cases b; cases h; rfl

/-! ## Transactions -/

namespace TxKind

/-- The addresses a kind names have the 20 bytes of an address. -/
def Sized : TxKind → Prop
  | .transfer dest _ => dest.bytes.length = 20
  | .delegate v _ | .undelegate v _ => v.bytes.length = 20
  | .stake _ | .unstake _ | .createValidator .. | .editValidator _ => True

/-- An address and an amount split off the front. -/
theorem address_le64_append_iff {d d' : Address} {a a' : UInt64} {r r' : Bytes}
    (hd : d.bytes.length = 20) (hd' : d'.bytes.length = 20) :
    d.bytes ++ (Bytes.le64 a ++ r) = d'.bytes ++ (Bytes.le64 a' ++ r') ↔
      d = d' ∧ a = a' ∧ r = r' := by
  rw [Bytes.append_inj_iff (hd.trans hd'.symm), Bytes.le64_append_iff]
  exact ⟨fun ⟨h, ha, hr⟩ => ⟨Address.bytes_inj h, ha, hr⟩, by rintro ⟨rfl, rfl, rfl⟩; simp⟩

/-- A kind's tag and fields split off the front of its encoding: the tag names the kind, and
the kind's fields have the widths it gives them. -/
theorem encode_append_iff {k k' : TxKind} (hk : k.Sized) (hk' : k'.Sized) {r r' : Bytes} :
    k.tag :: (k.fieldBytes ++ r) = k'.tag :: (k'.fieldBytes ++ r') ↔ k = k' ∧ r = r' := by
  refine ⟨fun h => ?_, by rintro ⟨rfl, rfl⟩; rfl⟩
  obtain ⟨htag, hfields⟩ := List.cons_eq_cons.mp h
  -- kinds of different tags are told apart by the tag alone
  cases k <;> cases k' <;> simp [tag] at htag <;>
    simp only [fieldBytes, List.append_assoc, Sized] at hfields hk hk'
  case transfer.transfer d a d' a' =>
    obtain ⟨rfl, rfl, rfl⟩ := (address_le64_append_iff hk hk').mp hfields
    exact ⟨rfl, rfl⟩
  case stake.stake a a' =>
    obtain ⟨rfl, rfl⟩ := Bytes.le64_append_iff.mp hfields
    exact ⟨rfl, rfl⟩
  case unstake.unstake a a' =>
    obtain ⟨rfl, rfl⟩ := Bytes.le64_append_iff.mp hfields
    exact ⟨rfl, rfl⟩
  case delegate.delegate v a v' a' =>
    obtain ⟨rfl, rfl, rfl⟩ := (address_le64_append_iff hk hk').mp hfields
    exact ⟨rfl, rfl⟩
  case undelegate.undelegate v a v' a' =>
    obtain ⟨rfl, rfl, rfl⟩ := (address_le64_append_iff hk hk').mp hfields
    exact ⟨rfl, rfl⟩
  case createValidator.createValidator a bps a' bps' =>
    obtain ⟨rfl, hrest⟩ := Bytes.le64_append_iff.mp hfields
    obtain ⟨rfl, rfl⟩ := Bytes.le16_append_iff.mp hrest
    exact ⟨rfl, rfl⟩
  case editValidator.editValidator bps bps' =>
    obtain ⟨rfl, rfl⟩ := Bytes.le16_append_iff.mp hfields
    exact ⟨rfl, rfl⟩

end TxKind

namespace Transaction

/-- A transaction as the chain's types allow it: its addresses have 20 bytes, and its sender
key and memo are short enough for their 32-bit length prefixes. -/
structure Sized (t : Transaction) : Prop where
  key : t.senderKey.bytes.length < UInt32.size
  memo : t.memo.length < UInt32.size
  kind : t.kind.Sized

/-- Two transactions agree on every field the sender signs. -/
def SameSigned (t t' : Transaction) : Prop :=
  t.chainId = t'.chainId ∧ t.senderKey = t'.senderKey ∧ t.nonce = t'.nonce ∧ t.fee = t'.fee ∧
    t.gasLimit = t'.gasLimit ∧ t.kind = t'.kind ∧ t.memo = t'.memo

/-- The signed bytes of two transactions are equal exactly when the transactions agree on every
signed field. The proof reads the fields off the front of the encoding, one after another. -/
theorem signBytes_eq_iff {t t' : Transaction} (ht : t.Sized) (ht' : t'.Sized) :
    t.signBytes = t'.signBytes ↔ t.SameSigned t' := by
  constructor
  · intro h
    simp only [signBytes, List.append_assoc, List.singleton_append, List.append_cancel_left_eq] at h
    obtain ⟨hchain, h⟩ := Bytes.le64_append_iff.mp h
    obtain ⟨hkey, h⟩ := (Bytes.lenPrefixed_append_iff ht.key ht'.key).mp h
    obtain ⟨hnonce, h⟩ := Bytes.le64_append_iff.mp h
    obtain ⟨hfee, h⟩ := Bytes.le64_append_iff.mp h
    obtain ⟨hgas, h⟩ := Bytes.le64_append_iff.mp h
    obtain ⟨hkind, h⟩ := (TxKind.encode_append_iff ht.kind ht'.kind).mp h
    exact ⟨hchain, PublicKey.bytes_inj hkey, hnonce, hfee, hgas, hkind,
      Bytes.lenPrefixed_inj ht.memo ht'.memo h⟩
  · rintro ⟨hchain, hkey, hnonce, hfee, hgas, hkind, hmemo⟩
    simp only [signBytes, hchain, hkey, hnonce, hfee, hgas, hkind, hmemo]

end Transaction

/-! ## Headers -/

namespace BlockHeader

/-- A header as the chain's types allow it: its digests have 32 bytes, and its proposer key is
short enough for its 32-bit length prefix. -/
structure Sized (h : BlockHeader) : Prop where
  parent : h.parent.bytes.length = 32
  txRoot : h.txRoot.bytes.length = 32
  evidenceRoot : h.evidenceRoot.bytes.length = 32
  stateRoot : h.stateRoot.bytes.length = 32
  key : h.proposerKey.bytes.length < UInt32.size

/-- A digest splits off the front. -/
theorem digest_append_iff {d d' : Digest} {r r' : Bytes} (hd : d.bytes.length = 32)
    (hd' : d'.bytes.length = 32) : d.bytes ++ r = d'.bytes ++ r' ↔ d = d' ∧ r = r' := by
  rw [Bytes.append_inj_iff (hd.trans hd'.symm)]
  exact ⟨fun ⟨h, hr⟩ => ⟨Digest.bytes_inj h, hr⟩, by rintro ⟨rfl, rfl⟩; exact ⟨rfl, rfl⟩⟩

/-- The hashed bytes of two headers are equal exactly when the headers are. -/
theorem hashBytes_eq_iff {h h' : BlockHeader} (hs : h.Sized) (hs' : h'.Sized) :
    h.hashBytes = h'.hashBytes ↔ h = h' := by
  refine ⟨fun he => ?_, fun he => he ▸ rfl⟩
  simp only [hashBytes, List.append_assoc, List.append_cancel_left_eq] at he
  obtain ⟨hheight, he⟩ := Bytes.le64_append_iff.mp he
  obtain ⟨hparent, he⟩ := (digest_append_iff hs.parent hs'.parent).mp he
  obtain ⟨htx, he⟩ := (digest_append_iff hs.txRoot hs'.txRoot).mp he
  obtain ⟨hev, he⟩ := (digest_append_iff hs.evidenceRoot hs'.evidenceRoot).mp he
  obtain ⟨hstate, he⟩ := (digest_append_iff hs.stateRoot hs'.stateRoot).mp he
  obtain ⟨hgas, he⟩ := Bytes.le64_append_iff.mp he
  obtain ⟨hkey, he⟩ := (Bytes.lenPrefixed_append_iff hs.key hs'.key).mp he
  have htime := Bytes.le64_inj he
  cases h
  cases h'
  simp only at hheight hparent htx hev hstate hgas hkey htime
  rw [hheight, hparent, htx, hev, hstate, hgas, PublicKey.bytes_inj hkey, htime]

end BlockHeader

/-! ## Domains -/

theorem Transaction.domain_eq :
    Transaction.domain = [85, 78, 73, 67, 82, 73, 85, 77, 95, 84, 88, 95, 86, 49] := by decide

theorem BlockHeader.domain_eq :
    BlockHeader.domain = [85, 78, 73, 67, 82, 73, 85, 77, 95, 66, 76, 75, 95, 86, 49] := by decide

/-- A transaction's signed bytes start `UNICRIUM_T`. -/
theorem Transaction.take_signBytes (t : Transaction) :
    t.signBytes.take 10 = [85, 78, 73, 67, 82, 73, 85, 77, 95, 84] := by
  simp [signBytes, domain_eq]

/-- A header's hashed bytes start `UNICRIUM_B`. -/
theorem BlockHeader.take_hashBytes (h : BlockHeader) :
    h.hashBytes.take 10 = [85, 78, 73, 67, 82, 73, 85, 77, 95, 66] := by
  simp [hashBytes, domain_eq]

theorem head?_proposalSignBytes (height : UInt64) (hash : Digest) :
    (proposalSignBytes height hash).head? = some 80 := by
  rw [proposalSignBytes, show "PROP".toUTF8.data.toList = [80, 82, 79, 80] by decide]
  rfl

theorem head?_voteSignBytes (height : UInt64) (hash : Digest) :
    (voteSignBytes height hash).head? = some 70 := by
  rw [voteSignBytes, show "FVOT".toUTF8.data.toList = [70, 86, 79, 84] by decide]
  rfl

/-- The messages of transactions, headers, proposals and votes never coincide. -/
theorem signed_messages_disjoint (t : Transaction) (hd : BlockHeader) (h₁ h₂ : UInt64)
    (d₁ d₂ : Digest) :
    t.signBytes ≠ hd.hashBytes ∧ t.signBytes ≠ proposalSignBytes h₁ d₁ ∧
      t.signBytes ≠ voteSignBytes h₁ d₁ ∧ hd.hashBytes ≠ proposalSignBytes h₁ d₁ ∧
      hd.hashBytes ≠ voteSignBytes h₁ d₁ ∧ proposalSignBytes h₁ d₁ ≠ voteSignBytes h₂ d₂ := by
  have htx : t.signBytes.head? = some 85 := by
    simp [Transaction.signBytes, Transaction.domain_eq]
  have hhd : hd.hashBytes.head? = some 85 := by
    simp [BlockHeader.hashBytes, BlockHeader.domain_eq]
  have hprop := head?_proposalSignBytes h₁ d₁
  have hvote₁ := head?_voteSignBytes h₁ d₁
  have hvote₂ := head?_voteSignBytes h₂ d₂
  refine ⟨fun he => ?_, fun he => ?_, fun he => ?_, fun he => ?_, fun he => ?_, fun he => ?_⟩
  · -- transactions and headers part at their tenth byte
    have := Transaction.take_signBytes t
    rw [he, BlockHeader.take_hashBytes] at this
    simp at this
  · rw [he, hprop] at htx; simp at htx
  · rw [he, hvote₁] at htx; simp at htx
  · rw [he, hprop] at hhd; simp at hhd
  · rw [he, hvote₁] at hhd; simp at hhd
  · rw [he, hvote₂] at hprop; simp at hprop

/-! ## Hashes -/

/-- Two different byte strings with one BLAKE3 digest. -/
def Blake3.Collision (a b : Bytes) : Prop := a ≠ b ∧ Blake3.hash a = Blake3.hash b

/-- Equal digests come from equal bytes or from a collision. -/
theorem Digest.eq_or_collision {a b : Bytes} (h : Digest.ofBytes a = Digest.ofBytes b) :
    a = b ∨ Blake3.Collision a b := by
  by_cases hab : a = b
  · exact .inl hab
  · exact .inr ⟨hab, congrArg Digest.bytes h⟩

/-- **Signed encodings are unambiguous and domain-separated.** Two well-sized transactions have
equal signed bytes exactly when they agree on every signed field, two well-sized headers have
equal hashed bytes exactly when they are equal, and no message is the message of two kinds of
artifact. Hence equal transaction hashes mean equal signed fields and equal block hashes equal
headers, unless BLAKE3 has a collision. -/
theorem signed_encodings_unambiguous :
    (∀ t t' : Transaction, t.Sized → t'.Sized →
      (t.signBytes = t'.signBytes ↔ t.SameSigned t')) ∧
    (∀ h h' : BlockHeader, h.Sized → h'.Sized → (h.hashBytes = h'.hashBytes ↔ h = h')) ∧
    (∀ (t : Transaction) (hd : BlockHeader) (h₁ h₂ : UInt64) (d₁ d₂ : Digest),
      t.signBytes ≠ hd.hashBytes ∧ t.signBytes ≠ proposalSignBytes h₁ d₁ ∧
        t.signBytes ≠ voteSignBytes h₁ d₁ ∧ hd.hashBytes ≠ proposalSignBytes h₁ d₁ ∧
        hd.hashBytes ≠ voteSignBytes h₁ d₁ ∧ proposalSignBytes h₁ d₁ ≠ voteSignBytes h₂ d₂) ∧
    (∀ t t' : Transaction, t.Sized → t'.Sized → t.hash = t'.hash →
      t.SameSigned t' ∨ Blake3.Collision t.signBytes t'.signBytes) ∧
    (∀ b b' : Block, b.header.Sized → b'.header.Sized → b.hash = b'.hash →
      b.header = b'.header ∨ Blake3.Collision b.header.hashBytes b'.header.hashBytes) := by
  refine ⟨fun _ _ ht ht' => Transaction.signBytes_eq_iff ht ht',
    fun _ _ hs hs' => BlockHeader.hashBytes_eq_iff hs hs', signed_messages_disjoint, ?_, ?_⟩
  · intro t t' ht ht' hhash
    exact (Digest.eq_or_collision hhash).imp_left (Transaction.signBytes_eq_iff ht ht').mp
  · intro b b' hs hs' hhash
    exact (Digest.eq_or_collision hhash).imp_left (BlockHeader.hashBytes_eq_iff hs hs').mp

/-- A transfer that differs from another only in its signature, and a header, of the chain's
widths: the two transfers sign the same bytes, and the header's bytes are its own only. -/
theorem signed_encodings_unambiguous_on_transfer :
    Transaction.Sized ⟨1, ⟨[]⟩, 0, 1, 21000, .transfer ⟨List.replicate 20 7⟩ 5, [], []⟩ ∧
      Transaction.Sized ⟨1, ⟨[]⟩, 0, 1, 21000, .transfer ⟨List.replicate 20 7⟩ 5, [], [1]⟩ ∧
      BlockHeader.Sized ⟨1, Digest.zero, Digest.zero, Digest.zero, Digest.zero, 0, ⟨[]⟩, 0⟩ ∧
      (Transaction.signBytes ⟨1, ⟨[]⟩, 0, 1, 21000, .transfer ⟨List.replicate 20 7⟩ 5, [], []⟩ =
          Transaction.signBytes ⟨1, ⟨[]⟩, 0, 1, 21000, .transfer ⟨List.replicate 20 7⟩ 5, [], [1]⟩ ↔
        Transaction.SameSigned ⟨1, ⟨[]⟩, 0, 1, 21000, .transfer ⟨List.replicate 20 7⟩ 5, [], []⟩
          ⟨1, ⟨[]⟩, 0, 1, 21000, .transfer ⟨List.replicate 20 7⟩ 5, [], [1]⟩) ∧
      (BlockHeader.hashBytes ⟨1, Digest.zero, Digest.zero, Digest.zero, Digest.zero, 0, ⟨[]⟩, 0⟩ =
          BlockHeader.hashBytes ⟨1, Digest.zero, Digest.zero, Digest.zero, Digest.zero, 0, ⟨[]⟩, 0⟩ ↔
        (⟨1, Digest.zero, Digest.zero, Digest.zero, Digest.zero, 0, ⟨[]⟩, 0⟩ : BlockHeader) =
          ⟨1, Digest.zero, Digest.zero, Digest.zero, Digest.zero, 0, ⟨[]⟩, 0⟩) := by
  have ht : Transaction.Sized ⟨1, ⟨[]⟩, 0, 1, 21000, .transfer ⟨List.replicate 20 7⟩ 5, [], []⟩ :=
    ⟨by decide, by decide, rfl⟩
  have ht' : Transaction.Sized ⟨1, ⟨[]⟩, 0, 1, 21000, .transfer ⟨List.replicate 20 7⟩ 5, [], [1]⟩ :=
    ⟨by decide, by decide, rfl⟩
  have hh : BlockHeader.Sized ⟨1, Digest.zero, Digest.zero, Digest.zero, Digest.zero, 0, ⟨[]⟩, 0⟩ :=
    ⟨rfl, rfl, rfl, rfl, by decide⟩
  exact ⟨ht, ht', hh, signed_encodings_unambiguous.1 _ _ ht ht',
    signed_encodings_unambiguous.2.1 _ _ hh hh⟩

end StakeChain

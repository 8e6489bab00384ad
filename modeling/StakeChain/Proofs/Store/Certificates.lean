import StakeChain.Proofs.Store.Mirror

/-!
# The newest certificate at or below a height

Certificates are stored under `cert/` followed by their height in eight big-endian bytes.
Big-endian bytes of one length compare like the numbers they spell
(`Bytes.compareLex_eq_compare_readBe`), so the store orders certificate keys as it orders their
heights (`Layout.compare_certificateKey`).

The store reads the entries under a lead by filtering its entries, which are kept in key order.
On sorted entries this is the walk that starts at the lead and stops at the first key without
it (`MemStore.entriesUnder_eq_takeWhile`): the keys that start with a lead lie together, right
from the lead on. The entries under `cert/` of a sorted store therefore come in rising height
(`MemStore.certificateEntries_rising`).

`ChainStore.latestCertificate` walks those entries, keeps the value of the last one it passed
and stops at the first height above the bound. Over rising heights the walk ends on the entry
of greatest height at or below the bound (`ChainStore.lastCertificateAtOrBelow_greatest`), so
the reader gives what the point reader `ChainStore.certificate` gives at that height
(`ChainStore.latestCertificate_eq_certificate`).

A certificate whose digests have 32 bytes and whose lists and byte strings fit their 64-bit
length prefixes reads back from its encoding (`Certificate.decode_encode`). When every entry
under `cert/` is what committing a block writes, such a certificate's encoding under its own
height, a shape every commit keeps (`MemStore.CertificatesCommitted.commitBlock`), the reader
returns the certificate of greatest height at or below the bound, or nothing when no height at
or below it holds one (`ChainStore.newest_certificate_at_or_below`).
-/

set_option autoImplicit false

namespace StakeChain

/-! ## Big-endian heights -/

/-- Numbers written in a base `p`, with last digits below `p`, compare by their leading digits
first and by their last digits after. -/
theorem compare_mul_add {a b p r s : Nat} (hr : r < p) (hs : s < p) :
    compare (a * p + r) (b * p + s) = (compare a b).then (compare r s) := by
  rcases Nat.lt_trichotomy a b with hab | rfl | hab
  · have hstep : (a + 1) * p ≤ b * p := Nat.mul_le_mul_right p hab
    rw [Nat.succ_mul] at hstep
    rw [Nat.compare_eq_lt.mpr (by omega), Nat.compare_eq_lt.mpr hab, Ordering.lt_then]
  · rw [Std.ReflOrd.compare_self, Ordering.eq_then]
    rcases Nat.lt_trichotomy r s with hrs | rfl | hrs
    · rw [Nat.compare_eq_lt.mpr (by omega), Nat.compare_eq_lt.mpr hrs]
    · rw [Std.ReflOrd.compare_self, Std.ReflOrd.compare_self]
    · rw [Nat.compare_eq_gt.mpr (by omega), Nat.compare_eq_gt.mpr hrs]
  · have hstep : (b + 1) * p ≤ a * p := Nat.mul_le_mul_right p hab
    rw [Nat.succ_mul] at hstep
    rw [Nat.compare_eq_gt.mpr (by omega), Nat.compare_eq_gt.mpr hab, Ordering.gt_then]

theorem UInt8.compare_eq_toNat (x y : UInt8) : compare x y = compare x.toNat y.toNat := by
  simp only [compare, compareOfLessAndEq, UInt8.lt_iff_toNat_lt, UInt8.toNat_inj]

namespace Bytes

theorem readLe_append (xs ys : Bytes) :
    readLe (xs ++ ys) = readLe xs + 256 ^ xs.length * readLe ys := by
  induction xs with
  | nil => simp [readLe]
  | cons x xs ih =>
    simp only [List.cons_append, readLe, ih, List.length_cons, Nat.pow_succ]
    ring

theorem readLe_lt (xs : Bytes) : readLe xs < 256 ^ xs.length := by
  induction xs with
  | nil => simp [readLe]
  | cons x xs ih =>
    have hx : x.toNat < 256 := x.toNat_lt
    simp only [readLe, List.length_cons, Nat.pow_succ]
    omega

theorem readBe_cons (x : UInt8) (xs : Bytes) :
    readBe (x :: xs) = x.toNat * 256 ^ xs.length + readBe xs := by
  simp only [readBe, List.reverse_cons, readLe_append, List.length_reverse, readLe]
  ring

theorem readBe_lt (xs : Bytes) : readBe xs < 256 ^ xs.length := by
  simpa [readBe] using readLe_lt xs.reverse

/-- Big-endian byte strings of one length compare like the numbers they spell: the first byte
is the leading digit. -/
theorem compareLex_eq_compare_readBe :
    ∀ (xs ys : Bytes), xs.length = ys.length →
      List.compareLex compare xs ys = compare (readBe xs) (readBe ys)
  | [], [], _ => rfl
  | x :: xs, y :: ys, hlen => by
    have hlen' : xs.length = ys.length := by simpa using hlen
    rw [List.compareLex_cons_cons, compareLex_eq_compare_readBe xs ys hlen', readBe_cons,
      readBe_cons, ← hlen', compare_mul_add (readBe_lt xs) (hlen' ▸ readBe_lt ys),
      UInt8.compare_eq_toNat]

/-- A common lead does not change the order. -/
theorem compareLex_append_left (p xs ys : Bytes) :
    List.compareLex compare (p ++ xs) (p ++ ys) = List.compareLex compare xs ys := by
  induction p with
  | nil => rfl
  | cons x p ih =>
    rw [List.cons_append, List.cons_append, List.compareLex_cons_cons, Std.ReflOrd.compare_self,
      Ordering.eq_then, ih]

end Bytes

namespace Layout

theorem drop_certificateKey (h : UInt64) : (certificateKey h).drop 5 = Bytes.be64 h := by
  rw [certificateKey, ← length_text_cert, List.drop_left]

@[simp] theorem readBe_drop_certificateKey (h : UInt64) :
    Bytes.readBe ((certificateKey h).drop 5) = h.toNat := by
  rw [drop_certificateKey, Bytes.readBe_be64]

/-- Certificate keys are ordered as their heights are. -/
theorem compare_certificateKey (a b : UInt64) :
    compare (⟨certificateKey a⟩ : StoreKey) ⟨certificateKey b⟩ = compare a.toNat b.toNat := by
  rw [StoreKey.compare_eq, certificateKey, certificateKey, Bytes.compareLex_append_left,
    Bytes.compareLex_eq_compare_readBe _ _ (by simp), Bytes.readBe_be64, Bytes.readBe_be64]

theorem certificateKey_inj {a b : UInt64} (h : certificateKey a = certificateKey b) : a = b :=
  Bytes.be64_inj (List.append_cancel_left h)

end Layout

/-! ## Keys under a lead -/

namespace Bytes

/-- A byte string never comes before a lead it starts with. -/
theorem compareLex_ne_lt_of_prefix {lead k : Bytes} (h : lead <+: k) :
    List.compareLex compare k lead ≠ .lt := by
  obtain ⟨t, rfl⟩ := h
  have hlead := compareLex_append_left lead t []
  rw [List.append_nil] at hlead
  rw [hlead]
  cases t with
  | nil => simp [List.compareLex_nil_nil]
  | cons x t => simp [List.compareLex_cons_nil]

/-- A key at or above a lead and below a key that starts with the lead starts with it too. -/
theorem prefix_of_between :
    ∀ {lead k₁ k₂ : Bytes}, List.compareLex compare k₁ lead ≠ .lt →
      List.compareLex compare k₁ k₂ = .lt → lead <+: k₂ → lead <+: k₁
  | [], _, _, _, _, _ => List.nil_prefix
  | _ :: _, [], _, hlow, _, _ => absurd List.compareLex_nil_cons hlow
  | a :: lead, b :: k₁, k₂, hlow, hlt, hpre => by
    obtain ⟨k₂, rfl⟩ : ∃ t, k₂ = a :: t := by
      obtain ⟨u, rfl⟩ := hpre
      exact ⟨lead ++ u, rfl⟩
    rw [List.compareLex_cons_cons] at hlow hlt
    rw [List.cons_prefix_cons] at hpre ⊢
    -- a smaller first byte puts `k₁` below the lead, a larger one above `k₂`
    cases hba : compare b a with
    | lt =>
      rw [hba] at hlow
      exact absurd rfl hlow
    | gt =>
      rw [hba] at hlt
      cases hlt
    | eq =>
      rw [hba, Ordering.eq_then] at hlow hlt
      exact ⟨(Std.LawfulEqOrd.eq_of_compare hba).symm, prefix_of_between hlow hlt hpre.2⟩

end Bytes

namespace MemStore

/-- Over entries from a lead on, in key order, the entries that start with the lead are those
before the first that does not. -/
theorem filter_eq_takeWhile (lead : Bytes) :
    ∀ (M : List (StoreKey × Bytes)), M.Pairwise (fun a b => compare a.1 b.1 = .lt) →
      (∀ e ∈ M, compare e.1 ⟨lead⟩ ≠ .lt) →
      M.filter (fun e => lead.isPrefixOf e.1.bytes) =
        M.takeWhile (fun e => lead.isPrefixOf e.1.bytes)
  | [], _, _ => rfl
  | e :: M, hsorted, hfrom => by
    obtain ⟨hfirst, hrest⟩ := List.pairwise_cons.mp hsorted
    by_cases hp : lead.isPrefixOf e.1.bytes = true
    · simp only [List.filter_cons, List.takeWhile_cons, hp, if_true,
        filter_eq_takeWhile lead M hrest fun x hx => hfrom x (.tail _ hx)]
    · simp only [List.filter_cons, List.takeWhile_cons, hp, if_false, Bool.false_eq_true]
      rw [List.filter_eq_nil_iff]
      intro x hx hpx
      have hlow : List.compareLex compare e.1.bytes lead ≠ .lt := by
        rw [← StoreKey.compare_eq e.1 ⟨lead⟩]
        exact hfrom e List.mem_cons_self
      have hlt : List.compareLex compare e.1.bytes x.1.bytes = .lt := by
        rw [← StoreKey.compare_eq]
        exact hfirst x hx
      exact hp (List.isPrefixOf_iff_prefix.mpr
        (Bytes.prefix_of_between hlow hlt (List.isPrefixOf_iff_prefix.mp hpx)))

/-- The entries under a lead are what a walk over the keys from the lead on reads when it stops
at the first key without the lead. -/
theorem entriesUnder_eq_takeWhile (s : MemStore) (lead : Bytes) :
    s.entriesUnder lead = ((s.entries.keysFrom ⟨lead⟩).toList.takeWhile
      fun e => lead.isPrefixOf e.1.bytes).map fun e => (e.1.bytes, e.2) := by
  -- a key with the lead is not below the lead, so the keys from the lead on keep all of them
  have hfilter : s.entries.toList.filter (fun e => lead.isPrefixOf e.1.bytes) =
      (s.entries.keysFrom ⟨lead⟩).toList.filter (fun e => lead.isPrefixOf e.1.bytes) := by
    rw [KeyMap.keysFrom, List.filter_filter]
    apply List.filter_congr
    intro e _
    by_cases hp : lead.isPrefixOf e.1.bytes = true
    · have hnlt : compare e.1 ⟨lead⟩ ≠ .lt := by
        rw [StoreKey.compare_eq]
        exact Bytes.compareLex_ne_lt_of_prefix (List.isPrefixOf_iff_prefix.mp hp)
      simp [hp, hnlt]
    · simp [hp]
  have hfrom : ∀ e ∈ (s.entries.keysFrom ⟨lead⟩).toList, compare e.1 ⟨lead⟩ ≠ .lt :=
    fun e he => by simpa using (List.mem_filter.mp he).2
  unfold entriesUnder
  rw [hfilter, filter_eq_takeWhile lead _ (s.entries.keysFrom ⟨lead⟩).sorted hfrom]

theorem mem_entriesUnder_of_get? {s : MemStore} {lead k v : Bytes} (h : s.get? k = some v)
    (hlead : lead.isPrefixOf k = true) : (k, v) ∈ s.entriesUnder lead :=
  mem_entriesUnder.mpr ⟨KeyMap.mem_toList_of_get? h, hlead⟩

/-- In a store whose keys under `cert/` are certificate keys, the entries under `cert/` come in
rising height. -/
theorem certificateEntries_rising {s : MemStore}
    (hkeys : ∀ k v, (k, v) ∈ s.entriesUnder (Layout.text "cert/") →
      ∃ h, k = Layout.certificateKey h) :
    (s.entriesUnder (Layout.text "cert/")).Pairwise
      (fun x y => Bytes.readBe (x.1.drop 5) < Bytes.readBe (y.1.drop 5)) := by
  unfold entriesUnder
  rw [List.pairwise_map]
  apply List.Pairwise.imp_of_mem _ (List.Pairwise.filter _ s.entries.sorted)
  rintro ⟨⟨kx⟩, vx⟩ ⟨⟨ky⟩, vy⟩ hx hy hlt
  obtain ⟨a, rfl⟩ := hkeys kx vx (mem_entriesUnder.mpr (List.mem_filter.mp hx))
  obtain ⟨b, rfl⟩ := hkeys ky vy (mem_entriesUnder.mpr (List.mem_filter.mp hy))
  rw [Layout.compare_certificateKey, Nat.compare_eq_lt] at hlt
  simpa using hlt

end MemStore

/-! ## Certificates read back -/

namespace Decoder

/-- A length below `2^64` reads back from its eight bytes. -/
theorem word_len (n : Nat) (hn : n < UInt64.size) (rest : Bytes) :
    word 8 (Encode.len n ++ rest) = some (n, rest) := by
  have htake : take 8 (Encode.len n ++ rest) = some (Encode.len n, rest) := by
    simpa [Encode.len, Bytes.leN_length] using take_append (Encode.len n) rest
  show (Bytes.readLe <$> take 8) (Encode.len n ++ rest) = _
  simp only [Functor.map, StateT.map, htake]
  simp [Encode.len, Bytes.readLe_leN]
  exact hn

theorem bytes_append (b : Bytes) (hb : b.length < UInt64.size) (rest : Bytes) :
    Decoder.bytes (Encode.bytes b ++ rest) = some (b, rest) := by
  simp only [Decoder.bytes, Encode.bytes, List.append_assoc]
  simp [bind, StateT.bind, word_len _ hb, take_append]

theorem digest_append (d : Digest) (hd : d.bytes.length = 32) (rest : Bytes) :
    digest (d.bytes ++ rest) = some (d, rest) := by
  have htake := take_append d.bytes rest
  rw [hd] at htake
  simp [digest, Functor.map, StateT.map, htake]

/-- Items that each read back whatever follows them read back one after another. -/
theorem many_append {α : Type} (d : Decoder α) (f : α → Bytes) (xs : List α)
    (hxs : ∀ x ∈ xs, ∀ rest, d (f x ++ rest) = some (x, rest)) (rest : Bytes) :
    many d xs.length (xs.flatMap f ++ rest) = some (xs, rest) := by
  induction xs with
  | nil => rfl
  | cons x xs ih =>
    have hfirst := hxs x List.mem_cons_self (xs.flatMap f ++ rest)
    have hlater := ih fun y hy => hxs y (List.mem_cons_of_mem _ hy)
    simp [many, List.flatMap_cons, List.append_assoc, bind, StateT.bind, hfirst, hlater, pure,
      StateT.pure]

theorem list_append {α : Type} (d : Decoder α) (f : α → Bytes) (xs : List α)
    (hlen : xs.length < UInt64.size)
    (hxs : ∀ x ∈ xs, ∀ rest, d (f x ++ rest) = some (x, rest)) (rest : Bytes) :
    list d (Encode.list f xs ++ rest) = some (xs, rest) := by
  simp only [list, Encode.list, List.append_assoc]
  simp [bind, StateT.bind, word_len _ hlen, many_append d f xs hxs]

end Decoder

namespace Vote

/-- A vote as the chain's types allow it: its block hash has 32 bytes, and its key and
signature fit their 64-bit length prefixes. -/
structure Sized (v : Vote) : Prop where
  key : v.voterKey.bytes.length < UInt64.size
  blockHash : v.blockHash.bytes.length = 32
  signature : v.signature.length < UInt64.size

theorem decoder_encode (v : Vote) (hv : v.Sized) (rest : Bytes) :
    Vote.decoder (v.encode ++ rest) = some (v, rest) := by
  simp only [Vote.decoder, Vote.encode, Encode.u64, List.append_assoc]
  simp [bind, StateT.bind, Decoder.publicKey, Functor.map, StateT.map,
    Decoder.bytes_append _ hv.key, Decoder.u64_append, Decoder.digest_append _ hv.blockHash,
    Decoder.bytes_append _ hv.signature, pure, StateT.pure]

end Vote

namespace Certificate

/-- A certificate as the chain's types allow it: its block hash has 32 bytes, and its votes
are sized and fit their 64-bit length prefix. -/
structure Sized (c : Certificate) : Prop where
  blockHash : c.blockHash.bytes.length = 32
  votes : c.votes.length < UInt64.size
  vote : ∀ v ∈ c.votes, v.Sized

theorem decoder_encode (c : Certificate) (hc : c.Sized) (rest : Bytes) :
    Certificate.decoder (c.encode ++ rest) = some (c, rest) := by
  have hvotes := Decoder.list_append Vote.decoder Vote.encode c.votes hc.votes
    fun v hv => Vote.decoder_encode v (hc.vote v hv)
  simp only [Certificate.decoder, Certificate.encode, Encode.u64, List.append_assoc]
  simp [bind, StateT.bind, Decoder.u64_append, Decoder.digest_append _ hc.blockHash, hvotes,
    pure, StateT.pure]

/-- A sized certificate reads back from its encoding. -/
theorem decode_encode (c : Certificate) (hc : c.Sized) :
    Certificate.decoder.decode c.encode = some c := by
  have h := c.decoder_encode hc []
  rw [List.append_nil] at h
  simp [Decoder.decode, StateT.run, h]

end Certificate

/-! ## The walk over certificate entries -/

namespace ChainStore

/-- Over entries of rising height, the walk returns the value of the entry of greatest height
at or below `h`, or the value it started with when every entry lies above `h`. -/
theorem lastCertificateAtOrBelow_greatest (h : UInt64) :
    ∀ (E : List (Bytes × Bytes)) (best : Option Bytes),
      (∀ e ∈ E, (e.1.drop 5).length = 8) →
      E.Pairwise (fun x y => Bytes.readBe (x.1.drop 5) < Bytes.readBe (y.1.drop 5)) →
      (lastCertificateAtOrBelow h E best = .ok best ∧
          ∀ e ∈ E, h.toNat < Bytes.readBe (e.1.drop 5)) ∨
        ∃ e ∈ E, lastCertificateAtOrBelow h E best = .ok (some e.2) ∧
          Bytes.readBe (e.1.drop 5) ≤ h.toNat ∧
          ∀ e' ∈ E, Bytes.readBe (e'.1.drop 5) ≤ h.toNat →
            Bytes.readBe (e'.1.drop 5) ≤ Bytes.readBe (e.1.drop 5)
  | [], best, _, _ => .inl ⟨rfl, fun _ he => absurd he List.not_mem_nil⟩
  | (k, v) :: E, best, hkeys, hrising => by
    obtain ⟨hfirst, hrest⟩ := List.pairwise_cons.mp hrising
    have hk := hkeys (k, v) List.mem_cons_self
    unfold lastCertificateAtOrBelow
    rw [if_neg (by simpa using hk)]
    by_cases habove : Bytes.readBe (k.drop 5) > h.toNat
    · -- the walk stops here, and every later entry lies higher still
      rw [if_pos habove]
      refine .inl ⟨rfl, fun e he => ?_⟩
      rcases List.mem_cons.mp he with rfl | he
      · exact habove
      · exact lt_trans habove (hfirst e he)
    · rw [if_neg habove]
      rcases lastCertificateAtOrBelow_greatest h E (some v) (fun e he => hkeys e (.tail _ he))
          hrest with ⟨hr, hall⟩ | ⟨e, he, hr, hle, hmax⟩
      · refine .inr ⟨(k, v), List.mem_cons_self, hr, not_lt.mp habove, fun e' he' hle' => ?_⟩
        rcases List.mem_cons.mp he' with rfl | he'
        · exact le_refl _
        · exact absurd hle' (not_le.mpr (hall e' he'))
      · refine .inr ⟨e, .tail _ he, hr, hle, fun e' he' hle' => ?_⟩
        rcases List.mem_cons.mp he' with rfl | he'
        · exact le_of_lt (hfirst e he)
        · exact hmax e' he' hle'

/-- Over a store whose keys under `cert/` are certificate keys, the newest certificate at or
below `h` is read at the greatest height at or below `h` that holds one, and is nothing when
there is none. -/
theorem latestCertificate_eq_certificate {s : ChainStore}
    (hkeys : ∀ k v, (k, v) ∈ s.kv.entriesUnder (Layout.text "cert/") →
      ∃ H, k = Layout.certificateKey H) (h : UInt64) :
    (s.latestCertificate h = .ok none ∧
        ∀ H, H ≤ h → s.kv.get? (Layout.certificateKey H) = none) ∨
      ∃ H, H ≤ h ∧ (s.kv.get? (Layout.certificateKey H)).isSome ∧
        (∀ H', H' ≤ h → (s.kv.get? (Layout.certificateKey H')).isSome → H' ≤ H) ∧
        s.latestCertificate h = s.certificate H := by
  have hcert : ∀ H v, s.kv.get? (Layout.certificateKey H) = some v →
      (Layout.certificateKey H, v) ∈ s.kv.entriesUnder (Layout.text "cert/") := fun H v hv =>
    MemStore.mem_entriesUnder_of_get? hv (Layout.isPrefixOf_append _ _)
  have hlen : ∀ e ∈ s.kv.entriesUnder (Layout.text "cert/"), (e.1.drop 5).length = 8 := by
    rintro ⟨k, v⟩ he
    obtain ⟨H, rfl⟩ := hkeys k v he
    exact Layout.length_drop_certificateKey H
  unfold latestCertificate
  rcases lastCertificateAtOrBelow_greatest h _ none hlen
      (MemStore.certificateEntries_rising hkeys) with
    ⟨hr, hall⟩ | ⟨⟨k, v⟩, he, hr, hle, hmax⟩
  · refine .inl ⟨by rw [hr]; rfl, fun H hH => ?_⟩
    cases hget : s.kv.get? (Layout.certificateKey H) with
    | none => rfl
    | some v =>
      have habove := hall _ (hcert H v hget)
      rw [Layout.readBe_drop_certificateKey] at habove
      exact absurd (UInt64.le_iff_toNat_le.mp hH) (not_le.mpr habove)
  · obtain ⟨H, rfl⟩ := hkeys k v he
    have hget := MemStore.get?_of_mem_entriesUnder he
    simp only [Layout.readBe_drop_certificateKey] at hle hmax
    refine .inr ⟨H, UInt64.le_iff_toNat_le.mpr hle, by rw [hget]; rfl, fun H' hH' hsome => ?_, ?_⟩
    · obtain ⟨v', hv'⟩ := Option.isSome_iff_exists.mp hsome
      have hle' := hmax _ (hcert H' v' hv') (by simpa using UInt64.le_iff_toNat_le.mp hH')
      exact UInt64.le_iff_toNat_le.mpr (by simpa using hle')
    · unfold certificate
      rw [hr, hget]
      rfl

/-- The point reader gives a sized certificate stored at a height. -/
theorem certificate_of_get? {s : ChainStore} {H : UInt64} {c : Certificate}
    (hget : s.kv.get? (Layout.certificateKey H) = some c.encode) (hc : c.Sized) :
    s.certificate H = .ok (some c) := by
  unfold certificate
  simp [hget, decodeStored, Certificate.decode_encode c hc]

end ChainStore

/-! ## Committed certificates -/

/-- Every entry under `cert/` is what committing a block with a certificate writes: the
encoding of a sized certificate, under the key of its own height. -/
def MemStore.CertificatesCommitted (kv : MemStore) : Prop :=
  ∀ k v, (k, v) ∈ kv.entriesUnder (Layout.text "cert/") →
    ∃ c : Certificate, c.Sized ∧ k = Layout.certificateKey c.height ∧ v = c.encode

/-- Committing a block with a sized certificate, or with none, keeps every entry under `cert/`
a committed certificate: the batch writes no other key under `cert/`. -/
theorem MemStore.CertificatesCommitted.commitBlock {s s' : ChainStore} {b : Block}
    {cert : Option Certificate} {l base : Ledger} (hc : s.kv.CertificatesCommitted)
    (hsized : ∀ c ∈ cert, c.Sized) (h : s.commitBlock b cert l base = .ok s') :
    s'.kv.CertificatesCommitted := by
  obtain ⟨kv, hkv, rfl⟩ := ChainStore.commitBlock_eq_ok h
  intro k v hk
  obtain ⟨hmem, hpre⟩ := MemStore.mem_entriesUnder.mp hk
  rw [MemStore.writeBatch_eq_ok hkv] at hmem
  rcases MemStore.mem_foldl_insert _ _ hmem with hold | hnew
  · exact hc k v (MemStore.mem_entriesUnder.mpr ⟨hold, hpre⟩)
  · rcases ChainStore.commitBatch_certificates b cert l base _ hnew with ⟨c, hcert, hx⟩ | hhead
    · simp only [Prod.mk.injEq] at hx
      obtain ⟨rfl, rfl⟩ := hx
      exact ⟨c, hsized c hcert, rfl, rfl⟩
    · exact absurd (Layout.head?_of_isPrefixOf (by rw [Layout.text_cert]; rfl) hpre) hhead

namespace ChainStore

/-- Over a store whose entries under `cert/` were all written by committing blocks, the newest
certificate at or below a height is the certificate stored under the greatest height at or
below it, and nothing when no height at or below it holds one. -/
theorem newest_certificate_at_or_below {s : ChainStore}
    (hcommitted : s.kv.CertificatesCommitted) (h : UInt64) :
    (s.latestCertificate h = .ok none ∧
        ∀ H, H ≤ h → s.kv.get? (Layout.certificateKey H) = none) ∨
      ∃ c : Certificate, s.latestCertificate h = .ok (some c) ∧ c.height ≤ h ∧
        s.kv.get? (Layout.certificateKey c.height) = some c.encode ∧
        ∀ H, H ≤ h → (s.kv.get? (Layout.certificateKey H)).isSome → H ≤ c.height := by
  have hkeys : ∀ k v, (k, v) ∈ s.kv.entriesUnder (Layout.text "cert/") →
      ∃ H, k = Layout.certificateKey H := fun k v he => by
    obtain ⟨c, -, hk, -⟩ := hcommitted k v he
    exact ⟨c.height, hk⟩
  rcases latestCertificate_eq_certificate hkeys h with hnone | ⟨H, hle, hsome, hmax, heq⟩
  · exact .inl hnone
  · -- the entry at the greatest height is a committed certificate of that height
    obtain ⟨v, hv⟩ := Option.isSome_iff_exists.mp hsome
    obtain ⟨c, hc, hk, rfl⟩ := hcommitted _ v
      (MemStore.mem_entriesUnder_of_get? hv (Layout.isPrefixOf_append _ _))
    have hH : H = c.height := Layout.certificateKey_inj hk
    subst hH
    exact .inr ⟨c, heq.trans (certificate_of_get? hv hc), hle, hv, hmax⟩

end ChainStore

/-- A certificate of height `n` for the all-zero block hash, carrying no votes. -/
def bareCertificate (n : UInt64) : Certificate :=
  { height := n, blockHash := ⟨List.replicate 32 0⟩, votes := [], signedPower := 0,
    totalPower := 0 }

/-- A store holding the certificates of heights 3 and 7. -/
def certificatesAtThreeAndSeven : ChainStore where
  kv := { entries := ⟨[(⟨Layout.certificateKey 3⟩, (bareCertificate 3).encode),
    (⟨Layout.certificateKey 7⟩, (bareCertificate 7).encode)], by decide⟩ }

theorem newest_certificate_at_or_below_five :
    certificatesAtThreeAndSeven.kv.CertificatesCommitted ∧
      ((certificatesAtThreeAndSeven.latestCertificate 5 = .ok none ∧
          ∀ H, H ≤ 5 → certificatesAtThreeAndSeven.kv.get? (Layout.certificateKey H) = none) ∨
        ∃ c : Certificate, certificatesAtThreeAndSeven.latestCertificate 5 = .ok (some c) ∧
          c.height ≤ 5 ∧
          certificatesAtThreeAndSeven.kv.get? (Layout.certificateKey c.height) = some c.encode ∧
          ∀ H, H ≤ 5 → (certificatesAtThreeAndSeven.kv.get? (Layout.certificateKey H)).isSome →
            H ≤ c.height) := by
  have hsized : ∀ n, (bareCertificate n).Sized := fun n =>
    ⟨List.length_replicate .., (by decide : 0 < UInt64.size), fun _ hv => absurd hv List.not_mem_nil⟩
  have hcommitted : certificatesAtThreeAndSeven.kv.CertificatesCommitted := by
    intro k v hk
    obtain ⟨hmem, -⟩ := MemStore.mem_entriesUnder.mp hk
    simp only [certificatesAtThreeAndSeven, List.mem_cons, Prod.mk.injEq, StoreKey.mk.injEq,
      List.not_mem_nil, or_false] at hmem
    rcases hmem with ⟨rfl, rfl⟩ | ⟨rfl, rfl⟩
    · exact ⟨bareCertificate 3, hsized 3, rfl, rfl⟩
    · exact ⟨bareCertificate 7, hsized 7, rfl, rfl⟩
  exact ⟨hcommitted, ChainStore.newest_certificate_at_or_below hcommitted 5⟩

end StakeChain

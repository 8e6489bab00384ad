import StakeChain.Proofs.Merkle.StateTable
import StakeChain.Proofs.Ledger.Penalty
import StakeChain.Ledger.StateRoot

/-!
# The state root binds the committed ledger

A ledger's state root is the root of its state table (`Ledger.stateEntries`), one family of keys
per table and each key starting with its family's name.  `Ledger.StateEntry` lists the entries
family by family (`mem_stateEntries_iff`).  Keys of different families differ in their first
byte, and within a family a key names one account, validator, delegation, queue position or
evidence id, given the widths the chain's types fix (`Ledger.Shaped`: addresses of 20 bytes,
evidence ids of 32, tables sorted by key, a queue that a 64-bit index counts).  So the value of
each key is read off the ledger (`lastValue_accountKey`, `lastValue_validatorKey`,
`lastValue_delegationKey`, `lastValue_unbondingKey`, `lastValue_evidenceKey`), and the values are
encodings that split back into their fields once validator keys have 32 bytes.

Over a hash that binds (injective, with digests that split off the front), equal roots give
every key one last value (`lastValue_eq_of_stateRootOver_eq`), and so the same committed ledger
(`state_root_binds_ledger`): the accounts, the validator records but for their infractions, the
delegations (a validator's empty table aside), the unbonding queue in its order, the applied
evidence, the fee pool and the amount burned.  The height of the last block begun, the offenses
and the infractions are not committed.
-/

set_option autoImplicit false

namespace StakeChain

/-! ## Encodings -/

theorem Account.length_encode (a : Account) : a.encode.length = 24 := by
  simp [Account.encode]

theorem Account.encode_inj {a b : Account} (h : a.encode = b.encode) : a = b := by
  obtain ⟨b₁, s₁, n₁⟩ := a
  obtain ⟨b₂, s₂, n₂⟩ := b
  simp only [Account.encode, List.append_assoc] at h
  obtain ⟨hb, h₁⟩ := Bytes.le64_append_iff.mp h
  obtain ⟨hs, h₂⟩ := Bytes.le64_append_iff.mp h₁
  rw [hb, hs, Bytes.le64_inj h₂]

/-- A validator record as the state root commits to it: everything but its infractions. -/
def ValidatorRecord.committed (r : ValidatorRecord) : ValidatorRecord := { r with infractions := [] }

theorem ValidatorRecord.length_encode_le (r : ValidatorRecord) :
    r.encode.length ≤ r.publicKey.bytes.length + 19 := by
  unfold ValidatorRecord.encode
  cases r.status <;> simp

/-- The committed bytes of records with 32-byte keys give back everything but the
infractions: the key, the status with its release height, the commission and the slashed
total. -/
theorem ValidatorRecord.encode_inj {r r' : ValidatorRecord} (hr : r.publicKey.bytes.length = 32)
    (hr' : r'.publicKey.bytes.length = 32) (h : r.encode = r'.encode) :
    r.committed = r'.committed := by
  obtain ⟨⟨pk⟩, st, c, s, i⟩ := r
  obtain ⟨⟨pk'⟩, st', c', s', i'⟩ := r'
  simp only at hr hr'
  simp only [ValidatorRecord.encode, List.append_assoc] at h
  obtain ⟨hpk, h₁⟩ := (Bytes.append_inj_iff (hr.trans hr'.symm)).mp h
  have hrest : st = st' ∧ Bytes.le16 c ++ Bytes.le64 s = Bytes.le16 c' ++ Bytes.le64 s' := by
    cases st <;> cases st' <;>
      simp only [List.cons_append, List.cons.injEq, List.nil_append, true_and] at h₁
    · exact ⟨rfl, h₁⟩
    · simp at h₁
    · simp at h₁
    · obtain ⟨hrel, h₂⟩ := Bytes.le64_append_iff.mp h₁
      exact ⟨by rw [hrel], h₂⟩
  obtain ⟨hst, h₂⟩ := hrest
  obtain ⟨hc, h₃⟩ := Bytes.le16_append_iff.mp h₂
  rw [hpk, hst, hc, Bytes.le64_inj h₃]
  rfl

theorem UnbondingEntry.length_encode (e : UnbondingEntry) :
    e.encode.length = e.address.bytes.length + e.validator.bytes.length + 24 := by
  simp [UnbondingEntry.encode]
  omega

/-- Entries with 20-byte addresses are read back from their committed bytes. -/
theorem UnbondingEntry.encode_inj {e e' : UnbondingEntry}
    (he : e.address.bytes.length = 20 ∧ e.validator.bytes.length = 20)
    (he' : e'.address.bytes.length = 20 ∧ e'.validator.bytes.length = 20)
    (h : e.encode = e'.encode) : e = e' := by
  obtain ⟨a, v, amt, c, r⟩ := e
  obtain ⟨a', v', amt', c', r'⟩ := e'
  simp only at he he'
  simp only [UnbondingEntry.encode, List.append_assoc] at h
  obtain ⟨ha, h₁⟩ := (Bytes.append_inj_iff (he.1.trans he'.1.symm)).mp h
  obtain ⟨hv, h₂⟩ := (Bytes.append_inj_iff (he.2.trans he'.2.symm)).mp h₁
  obtain ⟨hamt, h₃⟩ := Bytes.le64_append_iff.mp h₂
  obtain ⟨hc, h₄⟩ := Bytes.le64_append_iff.mp h₃
  rw [Address.bytes_inj ha, Address.bytes_inj hv, hamt, hc, Bytes.le64_inj h₄]

namespace KeyMap

variable {κ ν : Type} [Ord κ] [DecidableEq κ] [Std.LawfulEqOrd κ] {m : KeyMap κ ν}

/-- A map with no lookup has no entry. -/
theorem isEmpty_of_get?_eq_none (h : ∀ k, m.get? k = none) : m.isEmpty = true := by
  obtain ⟨l, _⟩ := m
  cases l with
  | nil => rfl
  | cons e rest =>
    obtain ⟨k₁, v₁⟩ := e
    have := h k₁
    rw [get?, lookup_cons, if_pos rfl] at this
    cases this

end KeyMap

namespace Ledger

/-! ## The state table, family by family -/

/-- The shape the chain's types give every ledger: addresses of 20 bytes, evidence ids of 32, and
an unbonding queue that a 64-bit index counts. -/
structure Shaped (l : Ledger) : Prop where
  accountAddresses : ∀ p ∈ l.accounts.toList, p.1.bytes.length = 20
  validatorAddresses : ∀ p ∈ l.validators.toList, p.1.bytes.length = 20
  delegationAddresses : ∀ p ∈ l.delegations.toList,
    p.1.bytes.length = 20 ∧ ∀ q ∈ p.2.toList, q.1.bytes.length = 20
  unbondingAddresses : ∀ e ∈ l.unbonding,
    e.address.bytes.length = 20 ∧ e.validator.bytes.length = 20
  evidenceIds : ∀ p ∈ l.appliedEvidence.toList, p.1.bytes.length = 32
  queue : l.unbonding.length < UInt64.size

/-- Every validator key of the ledger has 32 bytes. -/
def KeysSized (l : Ledger) : Prop := ∀ p ∈ l.validators.toList, p.2.publicKey.bytes.length = 32

instance (l : Ledger) : Decidable l.KeysSized := List.decidableBAll _ _

@[simp] theorem tag_acct : tag "acct/" = [97, 99, 99, 116, 47] := by decide

@[simp] theorem tag_val : tag "val/" = [118, 97, 108, 47] := by decide

@[simp] theorem tag_dlg : tag "dlg/" = [100, 108, 103, 47] := by decide

@[simp] theorem tag_unb : tag "unb/" = [117, 110, 98, 47] := by decide

@[simp] theorem tag_evd : tag "evd/" = [101, 118, 100, 47] := by decide

@[simp] theorem tag_feePool :
    tag "meta/fee_pool" = [109, 101, 116, 97, 47, 102, 101, 101, 95, 112, 111, 111, 108] := by
  decide

@[simp] theorem tag_burned :
    tag "meta/burned" = [109, 101, 116, 97, 47, 98, 117, 114, 110, 101, 100] := by
  decide

/-- The entries of the state table, one constructor per family of keys. -/
inductive StateEntry (l : Ledger) : Bytes → Bytes → Prop
  | account {a : Address} {acct : Account} : (a, acct) ∈ l.accounts.toList →
      StateEntry l (tag "acct/" ++ a.bytes) acct.encode
  | validator {a : Address} {r : ValidatorRecord} : (a, r) ∈ l.validators.toList →
      StateEntry l (tag "val/" ++ a.bytes) r.encode
  | delegation {v d : Address} {dels : KeyMap Address UInt64} {amount : UInt64} :
      (v, dels) ∈ l.delegations.toList → (d, amount) ∈ dels.toList →
      StateEntry l (tag "dlg/" ++ v.bytes ++ d.bytes) (Bytes.le64 amount)
  | unbonding {i : Nat} {e : UnbondingEntry} : l.unbonding[i]? = some e →
      StateEntry l (tag "unb/" ++ Bytes.be64 i.toUInt64) e.encode
  | evidence {id : Digest} : (id, ()) ∈ l.appliedEvidence.toList →
      StateEntry l (tag "evd/" ++ id.bytes) []
  | feePool : StateEntry l (tag "meta/fee_pool") (Bytes.le64 l.feePool)
  | burned : StateEntry l (tag "meta/burned") (Bytes.le64 l.burned)

theorem mem_stateEntries_iff (l : Ledger) (k x : Bytes) :
    (k, x) ∈ l.stateEntries ↔ l.StateEntry k x := by
  simp only [stateEntries, List.mem_append, List.mem_map, List.mem_flatMap, List.mem_cons,
    Prod.mk.injEq, Prod.exists, List.not_mem_nil, or_false, KeyMap.keys, exists_and_right,
    exists_eq_right]
  constructor
  · rintro (((((⟨a, acct, hmem, rfl, rfl⟩ | ⟨a, r, hmem, rfl, rfl⟩) |
      ⟨v, dels, hmem, d, amount, hd, rfl, rfl⟩) | ⟨i, e, hmem, rfl, rfl⟩) |
      ⟨id, ⟨u, hid⟩, rfl, rfl⟩) | ⟨rfl, rfl⟩ | ⟨rfl, rfl⟩)
    · exact .account hmem
    · exact .validator hmem
    · exact .delegation hmem hd
    · exact .unbonding (mem_zip_range_iff.mp hmem)
    · exact .evidence hid
    · exact .feePool
    · exact .burned
  · intro h
    cases h with
    | account hmem => exact .inl (.inl (.inl (.inl (.inl ⟨_, _, hmem, rfl, rfl⟩))))
    | validator hmem => exact .inl (.inl (.inl (.inl (.inr ⟨_, _, hmem, rfl, rfl⟩))))
    | delegation hmem hd => exact .inl (.inl (.inl (.inr ⟨_, _, hmem, _, _, hd, rfl, rfl⟩)))
    | unbonding hi => exact .inl (.inl (.inr ⟨_, _, mem_zip_range_iff.mpr hi, rfl, rfl⟩))
    | evidence hid => exact .inl (.inr ⟨_, ⟨(), hid⟩, rfl, rfl⟩)
    | feePool => exact .inr (.inl ⟨rfl, rfl⟩)
    | burned => exact .inr (.inr ⟨rfl, rfl⟩)

theorem stateEntries_ne_nil (l : Ledger) : l.stateEntries ≠ [] :=
  List.ne_nil_of_mem ((mem_stateEntries_iff l _ _).mpr .feePool)

/-- Every entry of a shaped ledger with 32-byte validator keys fits the leaf's length prefixes:
no key is longer than 44 bytes and no value longer than 64. -/
theorem shortEntry_of_stateEntry {l : Ledger} (hs : l.Shaped) (hk : l.KeysSized) {k x : Bytes}
    (h : l.StateEntry k x) : ShortEntry (k, x) := by
  unfold ShortEntry UInt32.size
  cases h with
  | account hmem => simp [Account.length_encode, hs.accountAddresses _ hmem]
  | @validator a r hmem =>
    have hr := ValidatorRecord.length_encode_le r
    rw [hk _ hmem] at hr
    simp [hs.validatorAddresses _ hmem]
    omega
  | delegation hmem hd =>
    have ⟨hv, hds⟩ := hs.delegationAddresses _ hmem
    simp [hv, hds _ hd]
  | unbonding hi =>
    have he := hs.unbondingAddresses _ (List.mem_of_getElem? hi)
    simp [UnbondingEntry.length_encode, he.1, he.2]
  | evidence hmem => simp [hs.evidenceIds _ hmem]
  | feePool => simp
  | burned => simp

/-- A key whose entries in the table are exactly the values of `o` has `o` for its last value. -/
theorem lastValue_stateEntries {l : Ledger} {k : Bytes} {o : Option Bytes}
    (h : ∀ x, l.StateEntry k x ↔ o = some x) : lastValue l.stateEntries k = o :=
  lastValue_eq_of_mem_iff fun x => (mem_stateEntries_iff l k x).trans (h x)

/-! ## Each key read back

A key of one family is no key of another: the families' names differ in their first byte, and
the two meta keys in their sixth.  Within a family the key gives back what it names. -/

variable {l : Ledger}

theorem lastValue_accountKey (a : Address) :
    lastValue l.stateEntries (tag "acct/" ++ a.bytes) = (l.accounts.get? a).map Account.encode := by
  refine lastValue_stateEntries fun x => ⟨fun h => ?_, fun h => ?_⟩
  · generalize hk : tag "acct/" ++ a.bytes = k at h
    cases h with
    | account hmem =>
      rw [Address.bytes_inj (List.append_cancel_left hk), KeyMap.get?_of_mem hmem]
      rfl
    | _ => simp at hk
  · obtain ⟨acct, hget, rfl⟩ := Option.map_eq_some_iff.mp h
    exact .account (KeyMap.mem_toList_iff.mpr hget)

theorem lastValue_validatorKey (a : Address) :
    lastValue l.stateEntries (tag "val/" ++ a.bytes) =
      (l.validators.get? a).map ValidatorRecord.encode := by
  refine lastValue_stateEntries fun x => ⟨fun h => ?_, fun h => ?_⟩
  · generalize hk : tag "val/" ++ a.bytes = k at h
    cases h with
    | validator hmem =>
      rw [Address.bytes_inj (List.append_cancel_left hk), KeyMap.get?_of_mem hmem]
      rfl
    | _ => simp at hk
  · obtain ⟨r, hget, rfl⟩ := Option.map_eq_some_iff.mp h
    exact .validator (KeyMap.mem_toList_iff.mpr hget)

/-- A delegation key splits into its validator and its delegator once the validator's address
has the width of every address in the table. -/
theorem lastValue_delegationKey (hs : l.Shaped) {v : Address} (hv : v.bytes.length = 20)
    (d : Address) :
    lastValue l.stateEntries (tag "dlg/" ++ v.bytes ++ d.bytes) =
      ((l.delegations.get? v).bind fun dels => dels.get? d).map Bytes.le64 := by
  refine lastValue_stateEntries fun x => ⟨fun h => ?_, fun h => ?_⟩
  · generalize hk : tag "dlg/" ++ v.bytes ++ d.bytes = k at h
    cases h with
    | @delegation v' d' dels amount hmem hd =>
      have hv' : v'.bytes.length = 20 := (hs.delegationAddresses _ hmem).1
      rw [List.append_assoc, List.append_assoc] at hk
      obtain ⟨hvv, hdd⟩ := List.append_inj (List.append_cancel_left hk) (hv.trans hv'.symm)
      rw [Address.bytes_inj hvv, Address.bytes_inj hdd, KeyMap.get?_of_mem hmem,
        Option.bind_some, KeyMap.get?_of_mem hd]
      rfl
    | _ => simp at hk
  · obtain ⟨amount, hget, rfl⟩ := Option.map_eq_some_iff.mp h
    obtain ⟨dels, hdels, hd⟩ := Option.bind_eq_some_iff.mp hget
    exact .delegation (KeyMap.mem_toList_iff.mpr hdels) (KeyMap.mem_toList_of_get? hd)

/-- A queue position that a 64-bit index counts is read back from its big-endian key. -/
theorem lastValue_unbondingKey (hs : l.Shaped) {j : Nat} (hj : j < UInt64.size) :
    lastValue l.stateEntries (tag "unb/" ++ Bytes.be64 j.toUInt64) =
      l.unbonding[j]?.map UnbondingEntry.encode := by
  refine lastValue_stateEntries fun x => ⟨fun h => ?_, fun h => ?_⟩
  · generalize hk : tag "unb/" ++ Bytes.be64 j.toUInt64 = k at h
    cases h with
    | @unbonding i e hi =>
      have hlt : i < UInt64.size :=
        lt_trans (List.getElem?_eq_some_iff.mp hi).1 hs.queue
      have hidx := congrArg UInt64.toNat (Bytes.be64_inj (List.append_cancel_left hk))
      simp only [Nat.toUInt64_eq, UInt64.toNat_ofNat', Nat.mod_eq_of_lt hj,
        Nat.mod_eq_of_lt hlt] at hidx
      rw [hidx, hi]
      rfl
    | _ => simp at hk
  · obtain ⟨e, he, rfl⟩ := Option.map_eq_some_iff.mp h
    exact .unbonding he

theorem lastValue_evidenceKey (id : Digest) :
    lastValue l.stateEntries (tag "evd/" ++ id.bytes) =
      (l.appliedEvidence.get? id).map fun _ => [] := by
  refine lastValue_stateEntries fun x => ⟨fun h => ?_, fun h => ?_⟩
  · generalize hk : tag "evd/" ++ id.bytes = k at h
    cases h with
    | evidence hmem =>
      rw [Digest.bytes_inj (List.append_cancel_left hk), KeyMap.get?_of_mem hmem]
      rfl
    | _ => simp at hk
  · obtain ⟨u, hget, rfl⟩ := Option.map_eq_some_iff.mp h
    exact .evidence (KeyMap.mem_toList_iff.mpr hget)

theorem lastValue_feePoolKey :
    lastValue l.stateEntries (tag "meta/fee_pool") = some (Bytes.le64 l.feePool) := by
  refine lastValue_stateEntries fun x => ⟨fun h => ?_, fun h => ?_⟩
  · generalize hk : tag "meta/fee_pool" = k at h
    cases h with
    | feePool => rfl
    | _ => simp at hk
  · cases h
    exact .feePool

theorem lastValue_burnedKey :
    lastValue l.stateEntries (tag "meta/burned") = some (Bytes.le64 l.burned) := by
  refine lastValue_stateEntries fun x => ⟨fun h => ?_, fun h => ?_⟩
  · generalize hk : tag "meta/burned" = k at h
    cases h with
    | burned => rfl
    | _ => simp at hk
  · cases h
    exact .burned

/-! ## The ledger read back from its table -/

/-- A validator's delegation table with no lookups is empty, so two tables that agree on every
lookup agree once empty ones are dropped. -/
theorem filter_nonempty_eq_of_bind_eq {o₁ o₂ : Option (KeyMap Address UInt64)}
    (h : ∀ d, (o₁.bind fun m => m.get? d) = o₂.bind fun m => m.get? d) :
    o₁.filter (fun m => !m.isEmpty) = o₂.filter (fun m => !m.isEmpty) := by
  cases o₁ with
  | none =>
    cases o₂ with
    | none => rfl
    | some m₂ =>
      have hempty := KeyMap.isEmpty_of_get?_eq_none fun d => (h d).symm
      simp [Option.filter_some, hempty]
  | some m₁ =>
    cases o₂ with
    | none =>
      have hempty := KeyMap.isEmpty_of_get?_eq_none fun d => h d
      simp [Option.filter_some, hempty]
    | some m₂ =>
      rw [KeyMap.eq_of_get?_eq h]

theorem delegations_get?_eq_none (hs : l.Shaped) {v : Address} (hv : v.bytes.length ≠ 20) :
    l.delegations.get? v = none := by
  cases hget : l.delegations.get? v with
  | none => rfl
  | some dels => exact absurd (hs.delegationAddresses _ (KeyMap.mem_toList_of_get? hget)).1 hv

/-- Two options whose images under `f` agree have agreeing images under `g`, when `f` determines
`g` on their values. -/
theorem map_eq_map_of_determines {α β γ : Type} {f : α → β} {g : α → γ} {o₁ o₂ : Option α}
    (hdet : ∀ a ∈ o₁, ∀ b ∈ o₂, f a = f b → g a = g b) (h : o₁.map f = o₂.map f) :
    o₁.map g = o₂.map g := by
  cases o₁ with
  | none =>
    cases o₂ with
    | none => rfl
    | some b => simp at h
  | some a =>
    cases o₂ with
    | none => simp at h
    | some b =>
      simp only [Option.map_some, Option.some.injEq] at h ⊢
      exact hdet a rfl b rfl h

section ReadBack

variable {l₁ l₂ : Ledger} (hv : ∀ k, lastValue l₁.stateEntries k = lastValue l₂.stateEntries k)
include hv

theorem accounts_eq_of_lastValue_eq : l₁.accounts = l₂.accounts := by
  refine KeyMap.eq_of_get?_eq fun a => ?_
  have h := hv (tag "acct/" ++ a.bytes)
  rw [lastValue_accountKey, lastValue_accountKey] at h
  exact Option.map_injective (fun _ _ => Account.encode_inj) h

theorem committed_eq_of_lastValue_eq (hk₁ : l₁.KeysSized) (hk₂ : l₂.KeysSized) :
    l₁.validators.mapValues (fun _ r => r.committed) =
      l₂.validators.mapValues (fun _ r => r.committed) := by
  refine KeyMap.eq_of_get?_eq fun a => ?_
  have h := hv (tag "val/" ++ a.bytes)
  rw [lastValue_validatorKey, lastValue_validatorKey] at h
  rw [KeyMap.get?_mapValues, KeyMap.get?_mapValues]
  -- records with 32-byte keys are read back from their bytes but for their infractions
  refine map_eq_map_of_determines (fun r₁ h₁ r₂ h₂ => ?_) h
  exact ValidatorRecord.encode_inj (hk₁ _ (KeyMap.mem_toList_of_get? h₁))
    (hk₂ _ (KeyMap.mem_toList_of_get? h₂))

theorem delegations_eq_of_lastValue_eq (hs₁ : l₁.Shaped) (hs₂ : l₂.Shaped) :
    l₁.delegations.filter (fun _ dels => !dels.isEmpty) =
      l₂.delegations.filter (fun _ dels => !dels.isEmpty) := by
  refine KeyMap.eq_of_get?_eq fun v => ?_
  rw [KeyMap.get?_filter_entries, KeyMap.get?_filter_entries]
  by_cases hv20 : v.bytes.length = 20
  · -- each delegator's amount is the value of its key
    refine filter_nonempty_eq_of_bind_eq fun d => ?_
    have h := hv (tag "dlg/" ++ v.bytes ++ d.bytes)
    rw [lastValue_delegationKey hs₁ hv20, lastValue_delegationKey hs₂ hv20] at h
    exact Option.map_injective (fun _ _ => Bytes.le64_inj) h
  · rw [delegations_get?_eq_none hs₁ hv20, delegations_get?_eq_none hs₂ hv20]

theorem unbonding_eq_of_lastValue_eq (hs₁ : l₁.Shaped) (hs₂ : l₂.Shaped) :
    l₁.unbonding = l₂.unbonding := by
  refine List.ext_getElem? fun j => ?_
  by_cases hj : j < UInt64.size
  · have h := hv (tag "unb/" ++ Bytes.be64 j.toUInt64)
    rw [lastValue_unbondingKey hs₁ hj, lastValue_unbondingKey hs₂ hj] at h
    simpa using map_eq_map_of_determines (g := id) (fun e₁ h₁ e₂ h₂ =>
      UnbondingEntry.encode_inj (hs₁.unbondingAddresses _ (List.mem_of_getElem? h₁))
        (hs₂.unbondingAddresses _ (List.mem_of_getElem? h₂))) h
  · -- past a 64-bit index both queues have ended
    have hq₁ := hs₁.queue
    have hq₂ := hs₂.queue
    rw [List.getElem?_eq_none (by omega), List.getElem?_eq_none (by omega)]

theorem appliedEvidence_eq_of_lastValue_eq : l₁.appliedEvidence = l₂.appliedEvidence := by
  refine KeyMap.eq_of_get?_eq fun evidenceId => ?_
  have h := hv (tag "evd/" ++ evidenceId.bytes)
  rw [lastValue_evidenceKey, lastValue_evidenceKey] at h
  -- an evidence id stores nothing, so its key alone says whether it was applied
  simpa using map_eq_map_of_determines (g := id) (fun _ _ _ _ _ => rfl) h

end ReadBack

/-- The state root of the ledger over a hash of byte strings. -/
def stateRootOver (hash : Bytes → Digest) (l : Ledger) : Digest :=
  StakeChain.stateRootOver hash l.stateEntries

theorem stateRoot_eq_stateRootOver (l : Ledger) : l.stateRoot = l.stateRootOver Digest.ofBytes :=
  rfl

end Ledger

/-- **The state root binds the committed ledger.** Over a hash that is injective and whose
digests split off the front, two shaped ledgers whose validator keys have 32 bytes and whose
state roots are equal have the same accounts, the same validator records but for their
infractions, the same delegations (a validator's empty table aside, which the chain never
keeps), the same unbonding queue in its order, the same applied evidence, fee pool and amount
burned. -/
theorem state_root_binds_ledger {hash : Bytes → Digest} (hinj : Function.Injective hash)
    (hpf : DigestsPrefixFree hash) {l₁ l₂ : Ledger} (hs₁ : l₁.Shaped) (hs₂ : l₂.Shaped)
    (hk₁ : l₁.KeysSized) (hk₂ : l₂.KeysSized)
    (h : l₁.stateRootOver hash = l₂.stateRootOver hash) :
    l₁.accounts = l₂.accounts ∧
      l₁.validators.mapValues (fun _ r => r.committed) =
        l₂.validators.mapValues (fun _ r => r.committed) ∧
      l₁.delegations.filter (fun _ dels => !dels.isEmpty) =
        l₂.delegations.filter (fun _ dels => !dels.isEmpty) ∧
      l₁.unbonding = l₂.unbonding ∧ l₁.appliedEvidence = l₂.appliedEvidence ∧
      l₁.feePool = l₂.feePool ∧ l₁.burned = l₂.burned := by
  have hshort : ∀ {l : Ledger}, l.Shaped → l.KeysSized → ∀ p ∈ l.stateEntries, ShortEntry p :=
    fun hs hk p hp => Ledger.shortEntry_of_stateEntry hs hk ((Ledger.mem_stateEntries_iff _ _ _).mp hp)
  have hv := lastValue_eq_of_stateRootOver_eq hinj hpf (Ledger.stateEntries_ne_nil l₁)
    (Ledger.stateEntries_ne_nil l₂) (hshort hs₁ hk₁) (hshort hs₂ hk₂) h
  have hfee := hv (Ledger.tag "meta/fee_pool")
  have hburned := hv (Ledger.tag "meta/burned")
  rw [Ledger.lastValue_feePoolKey, Ledger.lastValue_feePoolKey, Option.some.injEq] at hfee
  rw [Ledger.lastValue_burnedKey, Ledger.lastValue_burnedKey, Option.some.injEq] at hburned
  exact ⟨Ledger.accounts_eq_of_lastValue_eq hv, Ledger.committed_eq_of_lastValue_eq hv hk₁ hk₂,
    Ledger.delegations_eq_of_lastValue_eq hv hs₁ hs₂, Ledger.unbonding_eq_of_lastValue_eq hv hs₁ hs₂,
    Ledger.appliedEvidence_eq_of_lastValue_eq hv, Bytes.le64_inj hfee, Bytes.le64_inj hburned⟩


/-! ## A hash that binds -/

/-- Bytes written so that no string's image starts another's: each byte behind a `1`, and a
`0` at the end. -/
def unaryTagged : Bytes → Bytes
  | [] => [0]
  | x :: b => 1 :: x :: unaryTagged b

theorem unaryTagged_append_inj :
    ∀ {x y s t : Bytes}, unaryTagged x ++ s = unaryTagged y ++ t → x = y ∧ s = t
  | [], [], _, _, h => ⟨rfl, by simpa [unaryTagged] using h⟩
  | [], _ :: _, _, _, h => by simp [unaryTagged] at h
  | _ :: _, [], _, _, h => by simp [unaryTagged] at h
  | a :: x, b :: y, _, _, h => by
    simp only [unaryTagged, List.cons_append, List.cons.injEq, true_and] at h
    obtain ⟨hab, hrest⟩ := h
    obtain ⟨hxy, hst⟩ := unaryTagged_append_inj hrest
    exact ⟨by rw [hab, hxy], hst⟩

/-- A hash into unbounded digests that binds: the digest is the tagged string itself. -/
def taggedHash (b : Bytes) : Digest := ⟨unaryTagged b⟩

theorem taggedHash_prefixFree : DigestsPrefixFree taggedHash := fun _ _ _ _ h => by
  obtain ⟨hxy, hst⟩ := unaryTagged_append_inj h
  exact ⟨by rw [hxy], hst⟩

theorem taggedHash_injective : Function.Injective taggedHash := fun x y h => by
  have hbytes : unaryTagged x ++ [] = unaryTagged y ++ [] := by
    simpa [taggedHash] using congrArg Digest.bytes h
  exact (unaryTagged_append_inj hbytes).1

/-- A ledger with one account, a jailed validator that account delegates to, one unbonding
entry and one punished evidence id. -/
def committedLedger : Ledger where
  accounts := ⟨[(⟨List.replicate 20 1⟩, { balance := 5, staked := 3, nonce := 2 })], by decide⟩
  validators := ⟨[(⟨List.replicate 20 2⟩,
    { publicKey := ⟨List.replicate 32 7⟩, status := .jailed 9, slashedTotal := 4 })], by decide⟩
  delegations := ⟨[(⟨List.replicate 20 2⟩, ⟨[(⟨List.replicate 20 1⟩, 6)], by decide⟩)], by decide⟩
  unbonding := [
    { address := ⟨List.replicate 20 1⟩, validator := ⟨List.replicate 20 2⟩, amount := 1,
      createdAt := 3, releaseHeight := 103 }]
  feePool := 11
  burned := 4
  appliedEvidence := ⟨[(⟨List.replicate 32 5⟩, ())], by decide⟩

/-- The same ledger later, with an infraction on its validator: the root does not change, and
everything it commits to is read back. -/
def laterLedger : Ledger :=
  { committedLedger with
    height := 12
    validators := ⟨[(⟨List.replicate 20 2⟩,
      { publicKey := ⟨List.replicate 32 7⟩, status := .jailed 9, slashedTotal := 4,
        infractions := [⟨⟨List.replicate 32 5⟩, .doubleVote, 2, 3, 4⟩] })], by decide⟩ }

theorem state_root_binds_ledger_later :
    Function.Injective taggedHash ∧ DigestsPrefixFree taggedHash ∧
      committedLedger.Shaped ∧ laterLedger.Shaped ∧
      committedLedger.KeysSized ∧ laterLedger.KeysSized ∧
      committedLedger.stateRootOver taggedHash = laterLedger.stateRootOver taggedHash ∧
      committedLedger.validators.mapValues (fun _ r => r.committed) =
        laterLedger.validators.mapValues (fun _ r => r.committed) := by
  have hs₁ : committedLedger.Shaped :=
    ⟨by decide, by decide, by decide, by decide, by decide, by decide⟩
  have hs₂ : laterLedger.Shaped :=
    ⟨by decide, by decide, by decide, by decide, by decide, by decide⟩
  have hk₁ : committedLedger.KeysSized := by decide
  have hk₂ : laterLedger.KeysSized := by decide
  have hroot : committedLedger.stateRootOver taggedHash = laterLedger.stateRootOver taggedHash :=
    rfl
  exact ⟨taggedHash_injective, taggedHash_prefixFree, hs₁, hs₂, hk₁, hk₂, hroot,
    (state_root_binds_ledger taggedHash_injective taggedHash_prefixFree hs₁ hs₂ hk₁ hk₂
      hroot).2.1⟩

end StakeChain

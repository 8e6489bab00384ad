import StakeChain.Ledger.Basic
import StakeChain.Merkle.Roots

/-!
# The ledger's state root

The state root commits to the whole ledger through one sorted key/value table:

* `acct/‖address` → balance, stake and nonce;
* `val/‖address` → key, status (`0`, or `1` and the jail end), commission and slashed total;
* `dlg/‖validator‖delegator` → amount;
* `unb/‖position` (big-endian) → address, validator, amount, creation and release heights;
* `evd/‖id` → nothing, for each evidence id punished;
* `meta/fee_pool` and `meta/burned` → the two amounts.
-/

set_option autoImplicit false

namespace StakeChain

/-- The stored bytes of an account: balance, stake and nonce, little-endian. -/
def Account.encode (a : Account) : Bytes :=
  Bytes.le64 a.balance ++ Bytes.le64 a.staked ++ Bytes.le64 a.nonce

/-- The committed bytes of a validator record. -/
def ValidatorRecord.encode (r : ValidatorRecord) : Bytes :=
  r.publicKey.bytes ++
    (match r.status with
     | .active => [0]
     | .jailed releaseAt => [1] ++ Bytes.le64 releaseAt) ++
    Bytes.le16 r.commissionBps ++ Bytes.le64 r.slashedTotal

/-- The committed bytes of an unbonding entry. -/
def UnbondingEntry.encode (e : UnbondingEntry) : Bytes :=
  e.address.bytes ++ e.validator.bytes ++ Bytes.le64 e.amount ++ Bytes.le64 e.createdAt ++
    Bytes.le64 e.releaseHeight

namespace Ledger

/-- The bytes of a text. -/
def tag (s : String) : Bytes := s.toUTF8.data.toList

/-- The key/value table the state root commits to. -/
def stateEntries (l : Ledger) : List (Bytes × Bytes) :=
  (l.accounts.toList.map fun (a, acct) => (tag "acct/" ++ a.bytes, acct.encode)) ++
  (l.validators.toList.map fun (a, r) => (tag "val/" ++ a.bytes, r.encode)) ++
  (l.delegations.toList.flatMap fun (v, dels) =>
    dels.toList.map fun (d, amount) => (tag "dlg/" ++ v.bytes ++ d.bytes, Bytes.le64 amount)) ++
  ((List.range l.unbonding.length).zip l.unbonding |>.map fun (i, e) =>
    (tag "unb/" ++ Bytes.be64 i.toUInt64, e.encode)) ++
  (l.appliedEvidence.keys.map fun id => (tag "evd/" ++ id.bytes, [])) ++
  [(tag "meta/fee_pool", Bytes.le64 l.feePool), (tag "meta/burned", Bytes.le64 l.burned)]

/-- The state root of the ledger. -/
def stateRoot (l : Ledger) : Digest := StakeChain.stateRoot l.stateEntries

/-- The accounts whose contents differ from those of `base`, in address order. -/
def changedAccounts (l base : Ledger) : List (Address × Account) :=
  l.accounts.toList.filter fun (a, acct) => base.accounts.get? a != some acct

end Ledger

end StakeChain

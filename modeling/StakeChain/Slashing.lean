import StakeChain.Ledger.Block

/-!
# Evidence intake and penalty bookkeeping

Evidence moves from submitted to verified, and from verified to penalized; or it is rejected
with a reason.  Verified evidence waits in a queue, in arrival order, until a block includes
it; the penalty itself is applied by block execution (`penalize`), so every node burns the
same stake at the same height.  The manager only tracks status and refuses duplicates.

* `penalize`: verify evidence, then apply its penalty to a ledger;
* `SlashingManager.submit`: intake, in the order duplicate, validity, offender, repeated
  offense;
* `SlashingManager.pending`: queued evidence still to be applied;
* `SlashingManager.applyPenalty`, `markPenalized`, `recordCommitted`.
-/

set_option autoImplicit false

namespace StakeChain

/-- Why submitted evidence is refused. -/
inductive RejectReason where
  | duplicate
  | offenseAlreadyRecorded (prior : Digest)
  | invalid (e : EvidenceError)
  | unknownValidator (a : Address)
  deriving DecidableEq, Repr, Inhabited

def RejectReason.message : RejectReason → String
  | .duplicate => "evidence already known"
  | .offenseAlreadyRecorded id => "offense already recorded under evidence " ++ id.toHex
  | .invalid e => "invalid evidence: " ++ e.message
  | .unknownValidator a => "offender " ++ a.toHex ++ " is not a validator"

/-- Why a penalty cannot be applied. -/
inductive SlashingError where
  | unknownEvidence (id : Digest)
  | notVerified (id : Digest)
  | invalid (e : EvidenceError)
  | ledger (e : LedgerError)
  deriving DecidableEq, Repr, Inhabited

namespace SlashingError

def message : SlashingError → String
  | .unknownEvidence id => "evidence " ++ id.toHex ++ " not found"
  | .notVerified id => "evidence " ++ id.toHex ++ " is not verified"
  | .invalid e => e.message
  | .ledger e => e.message

/-- The dotted kind path of the error. -/
def kind : SlashingError → String
  | .unknownEvidence _ => "UnknownEvidence"
  | .notVerified _ => "NotVerified"
  | .invalid e => "Invalid." ++ e.kind
  | .ledger e => "Ledger." ++ e.kind

end SlashingError

/-- Where a piece of evidence stands. -/
inductive EvidenceStatus where
  | submitted
  | verified
  | penalized (slashed newStake : UInt64)
  | rejected (r : RejectReason)
  deriving DecidableEq, Repr, Inhabited

/-- The result of submitting evidence. -/
inductive SubmitOutcome where
  | accepted (id : Digest)
  | rejected (r : RejectReason)
  deriving DecidableEq, Repr, Inhabited

/-- Evidence with its status. -/
structure EvidenceRecord where
  evidence : Evidence
  status : EvidenceStatus
  deriving DecidableEq, Repr, Inhabited

/-- One applied penalty, as reported to observers on commit. -/
structure PenaltyRecord where
  evidenceId : Digest
  offender : Address
  height : UInt64
  slashed : UInt64
  newStake : UInt64
  jailedUntil : UInt64
  deriving DecidableEq, Repr, Inhabited

/-- Verifies evidence and applies its penalty to a ledger at a height. -/
def penalize (l : Ledger) (e : Evidence) (params : LedgerParams) (height : UInt64) :
    Except SlashingError (Ledger × PenaltyOutcome) := do
  match e.verify with
  | .error err => throw (.invalid err)
  | .ok () =>
    match l.applyPenalty e.id e.offender e.kind e.height params height with
    | .error err => throw (.ledger err)
    | .ok r => pure r

/-- Status of known evidence, offenses already recorded, and the queue of verified ids. -/
structure SlashingManager where
  records : KeyMap Digest EvidenceRecord := .empty
  offenses : KeyMap Offense Digest := .empty
  /-- Verified ids in arrival order, waiting for a block. -/
  queue : List Digest := []
  deriving DecidableEq, Repr, Inhabited

namespace SlashingManager

def status (m : SlashingManager) (id : Digest) : Option EvidenceStatus :=
  (m.records.get? id).map EvidenceRecord.status

/-- Records evidence as rejected. -/
def reject (m : SlashingManager) (e : Evidence) (r : RejectReason) :
    SlashingManager × SubmitOutcome :=
  ({ m with records := m.records.insert e.id ⟨e, .rejected r⟩ }, .rejected r)

/-- Verifies and queues evidence; `l` decides whether the offender is a validator and whether
the evidence was already applied. -/
def submit (m : SlashingManager) (e : Evidence) (l : Ledger) : SlashingManager × SubmitOutcome :=
  let id := e.id
  match m.status id with
  | some (.rejected r) => (m, .rejected r)
  | _ =>
    if m.records.contains id || l.evidenceApplied id then (m, .rejected .duplicate)
    else
      match e.verify with
      | .error err => m.reject e (.invalid err)
      | .ok () =>
        let offender := e.offender
        if !l.isValidator offender then m.reject e (.unknownValidator offender)
        else
          let offense : Offense := ⟨offender, e.height⟩
          match m.offenses.get? offense with
          | some prior => m.reject e (.offenseAlreadyRecorded prior)
          | none =>
            ({ records := m.records.insert id ⟨e, .verified⟩
               offenses := m.offenses.insert offense id
               queue := m.queue ++ [id] }, .accepted id)

/-- Verified evidence not yet applied in `l`, oldest first, at most `max`. -/
def pending (m : SlashingManager) (l : Ledger) (max : Nat) : List Evidence :=
  ((m.queue.filter fun id => !l.evidenceApplied id).filterMap fun id =>
    match m.records.get? id with
    | some r => if r.status = .verified then some r.evidence else none
    | none => none).take max

/-- Records that a block applied the penalty for `id`, and takes it off the queue. -/
def markPenalized (m : SlashingManager) (id : Digest) (o : PenaltyOutcome) : SlashingManager :=
  let status : EvidenceStatus := match o with
    | .applied _ slashed newStake _ => .penalized slashed newStake
    | .alreadyApplied _ stake => .penalized 0 stake
  { m with records := m.records.modify id fun r => { r with status := status }
           queue := m.queue.filter fun q => q != id }

/-- Applies the penalty of verified evidence to a ledger; a second call does not slash again. -/
def applyPenalty (m : SlashingManager) (id : Digest) (l : Ledger) (params : LedgerParams)
    (height : UInt64) : Except SlashingError (SlashingManager × Ledger × UInt64) :=
  match m.records.get? id with
  | none => .error (.unknownEvidence id)
  | some r =>
    match r.status with
    | .verified => do
      let (l, o) ← penalize l r.evidence params height
      pure (m.markPenalized id o, l, o.stake)
    | .penalized .. => .ok (m, l, l.votingPower r.evidence.offender)
    | _ => .error (.notVerified id)

/-- Learns about evidence first seen inside a committed block. -/
def recordCommitted (m : SlashingManager) (e : Evidence) (o : PenaltyOutcome) : SlashingManager :=
  let id := e.id
  let offense : Offense := ⟨e.offender, e.height⟩
  let m := { m with
    offenses := if m.offenses.contains offense then m.offenses else m.offenses.insert offense id
    records := if m.records.contains id then m.records else m.records.insert id ⟨e, .verified⟩ }
  m.markPenalized id o

def queued (m : SlashingManager) : Nat := m.queue.length

end SlashingManager

end StakeChain

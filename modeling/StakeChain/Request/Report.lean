import StakeChain.Request.Encode
import StakeChain.Block.Execution
import StakeChain.Mempool
import StakeChain.Consensus.Finality

/-!
# Answer shapes of chain state

The JSON of penalties, block outcomes, whole ledgers, evidence intake and certificates, and the
error kinds of the chain's components.
-/

set_option autoImplicit false

namespace StakeChain

def LedgerError.problem (e : LedgerError) : Problem := ⟨"Ledger." ++ e.kind, some e.message⟩

def BlockError.problem (e : BlockError) : Problem := ⟨"Block." ++ e.kind, some e.message⟩

def SlashingError.problem (e : SlashingError) : Problem := ⟨"Slashing." ++ e.kind, some e.message⟩

def FinalityError.problem (e : FinalityError) : Problem := ⟨"Finality." ++ e.kind, some e.message⟩

def MempoolError.problem (e : MempoolError) : Problem := ⟨"Mempool." ++ e.kind, some e.message⟩

namespace Request

/-- A penalty outcome. -/
def penaltyJson : PenaltyOutcome → Json
  | .applied o s n j => .obj [("type", .str "Applied"), ("offender", addressJson o),
      ("slashed", .ofWord s), ("new_stake", .ofWord n), ("jailed_until", .ofWord j)]
  | .alreadyApplied o s => .obj [("type", .str "AlreadyApplied"), ("offender", addressJson o),
      ("stake", .ofWord s)]

/-- A block outcome: receipts, gas, fees, penalties and the resulting state root. -/
def outcomeJson (o : BlockOutcome) : Json :=
  .obj [("receipts", .arr (o.receipts.map fun r => .obj [("tx_hash", digestJson r.txHash),
      ("gas_used", .ofWord r.gasUsed), ("fee", .ofWord r.fee)])),
    ("gas_used", .ofWord o.gasUsed), ("fees", .ofWord o.fees),
    ("penalties", .arr (o.penalties.map fun (e, p) =>
      .obj [("evidence_id", digestJson e.id), ("outcome", penaltyJson p)])),
    ("state_root", digestJson o.ledger.stateRoot)]

/-- An account with its address. -/
def accountJson (a : Address) (acct : Account) : Json :=
  .obj [("address", addressJson a), ("balance", .ofWord acct.balance),
    ("staked", .ofWord acct.staked), ("nonce", .ofWord acct.nonce)]

/-- A validator status. -/
def statusJson : ValidatorStatus → Json
  | .active => .str "Active"
  | .jailed t => .obj [("Jailed", .ofWord t)]

/-- A whole ledger with its root and totals. -/
def ledgerJson (l : Ledger) : Json :=
  .obj [("height", .ofWord l.height),
    ("accounts", .arr (l.accounts.toList.map fun (a, acct) => accountJson a acct)),
    ("validators", .arr (l.validators.toList.map fun (a, r) =>
      .obj [("address", addressJson a), ("pk", hexJson r.publicKey.bytes),
        ("status", statusJson r.status), ("commission_bps", .num r.commissionBps.toNat),
        ("slashed_total", .ofWord r.slashedTotal),
        ("infractions", .arr (r.infractions.map fun i =>
          .obj [("evidence_id", digestJson i.evidenceId), ("kind", .str i.kind.name),
            ("offense_height", .ofWord i.offenseHeight), ("applied_at", .ofWord i.appliedAt),
            ("slashed", .ofWord i.slashed)]))])),
    ("delegations", .arr (l.delegations.toList.flatMap fun (v, dels) =>
      dels.toList.map fun (d, amount) => .obj [("validator", addressJson v),
        ("delegator", addressJson d), ("amount", .ofWord amount)])),
    ("unbonding", .arr (l.unbonding.map fun e =>
      .obj [("address", addressJson e.address), ("validator", addressJson e.validator),
        ("amount", .ofWord e.amount), ("created_at", .ofWord e.createdAt),
        ("release_height", .ofWord e.releaseHeight)])),
    ("fee_pool", .ofWord l.feePool), ("burned", .ofWord l.burned),
    ("applied_evidence", .arr (l.appliedEvidence.keys.map digestJson)),
    ("offenses", .arr (l.offenses.keys.map fun o => .arr [addressJson o.validator, .ofWord o.height])),
    ("state_root", digestJson l.stateRoot), ("total_supply", .ofWord l.totalSupply),
    ("total_staked", .ofWord l.totalStaked)]

/-- A rejection of evidence with its reason and text. -/
def rejectJson (r : RejectReason) : Json :=
  let fields : List (String × Json) := match r with
    | .duplicate => [("reason", .str "Duplicate")]
    | .offenseAlreadyRecorded prior =>
      [("reason", .str "OffenseAlreadyRecorded"), ("prior", digestJson prior)]
    | .invalid e => [("reason", .str "Invalid"), ("invalid", .str e.kind)]
    | .unknownValidator a => [("reason", .str "UnknownValidator"), ("address", addressJson a)]
  .obj (fields ++ [("message", .str r.message)])

/-- The outcome of submitting evidence. -/
def submitJson : SubmitOutcome → Json
  | .accepted id => .obj [("accepted", digestJson id)]
  | .rejected r => .obj [("rejected", rejectJson r)]

/-- The status of evidence, `null` if unknown. -/
def evidenceStatusJson : Option EvidenceStatus → Json
  | none => .null
  | some .submitted => .str "Submitted"
  | some .verified => .str "Verified"
  | some (.penalized s n) => .obj [("Penalized", .obj [("slashed", .ofWord s), ("new_stake", .ofWord n)])]
  | some (.rejected r) => .obj [("Rejected", rejectJson r)]

/-- A finality certificate. -/
def certJson (c : Certificate) : Json :=
  .obj [("height", .ofWord c.height), ("block_hash", digestJson c.blockHash),
    ("votes", .arr (c.votes.map voteJson)), ("signed_power", .ofWord c.signedPower),
    ("total_power", .ofWord c.totalPower)]

end Request

end StakeChain

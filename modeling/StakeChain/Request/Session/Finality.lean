import StakeChain.Request.Session.Basic

/-!
# Finality steps of a session

Validator snapshots, votes, certificates and equivocation evidence of the session's finality
tracker.  A stored certificate can be checked after votes are removed from it (one at a time,
from the last index given to the first; an index beyond the end is ignored) and others
appended.
-/

set_option autoImplicit false

namespace StakeChain.Request.Step

/-- Replaces the finality tracker. -/
def setFinality (fm : FinalityManager) : Step Unit := modify fun s => { s with finality := fm }

/-- A validator set from `height` and `vals` fields. -/
def readValidatorSet (heightKey : String) (j : Json) : Read ValidatorSet := do
  pure (ValidatorSet.ofList (← wordAt j heightKey) (← readList readValidator (j.field "vals")))

/-- `fm_reset {height, hash}`: a fresh tracker, at height 0 unless one is given. -/
def fmReset (j : Json) : Step Json := do
  let h ← read (wordAtOr j "height" 0)
  let d ← read (readDigestOr (← scope) (j.field "hash") Digest.zero)
  setFinality (FinalityManager.init h d)
  pure okJson

/-- `fm_register {height, vals}`. -/
def fmRegister (j : Json) : Step Json := do
  let vset ← read (readValidatorSet "height" j)
  let (fm, done) ← orAbort ((← get).finality.registerValidatorSet vset)
  setFinality fm
  pure (.obj [("finalized", .bool done)])

/-- `fm_vote {vote}`: a refused vote may still leave evidence behind. -/
def fmVote (j : Json) : Step Json := do
  let v ← read (readVote (← scope) (j.field "vote"))
  let (fm, r) ← orAbort ((← get).finality.recordVote v)
  setFinality fm
  let done ← except FinalityError.problem r
  pure (.obj [("finalized", .bool done)])

/-- `fm_take_evidence`. -/
def fmTakeEvidence : Step Json := do
  let (fm, ev) := (← get).finality.takeEvidence
  setFinality fm
  pure (.arr (ev.map evidenceJson))

/-- `fm_tally {height, block}`. -/
def fmTally (j : Json) : Step Json := do
  let sc ← scope
  let h ← read (wordAt j "height")
  let b ← read (readDigest sc (j.field "block"))
  pure (.obj [("power", .ofWord ((← get).finality.tally h b))])

/-- `fm_cert {height}`. -/
def fmCert (j : Json) : Step Json := do
  let h ← read (wordAt j "height")
  pure (optJson certJson ((← get).finality.certificate h))

/-- The votes after removing, one at a time from the last index given to the first, the vote
at each index that is still in range. -/
def removeVotes (votes : List Vote) (indices : List Nat) : List Vote :=
  indices.reverse.foldl (fun vs i => if i < vs.length then vs.eraseIdx i else vs) votes

/-- `fm_cert_verify {height, remove, add, vset_height, vals}`. -/
def fmCertVerify (j : Json) : Step Json := do
  let sc ← scope
  let h ← read (wordAt j "height")
  let remove ← read (readList (readNat "remove") (j.field "remove"))
  let add ← read (readList (readVote sc) (j.field "add"))
  let vset ← read (readValidatorSet "vset_height" j)
  match (← get).finality.certificate h with
  | none => throw (.badInput "no certificate")
  | some c =>
    let c := { c with votes := removeVotes c.votes remove ++ add }
    except FinalityError.problem (c.verify vset)
    pure okJson

/-- `fm_prune {keep}`. -/
def fmPrune (j : Json) : Step Json := do
  let keep ← read (wordAt j "keep")
  setFinality ((← get).finality.prune keep)
  pure okJson

/-- `fm_status {heights}`. -/
def fmStatus (j : Json) : Step Json := do
  let hs ← read (readList (readWord "heights") (j.field "heights"))
  let fm := (← get).finality
  pure (.obj [("finalized_height", .ofWord fm.finalizedHeight),
    ("finalized_hash", digestJson fm.finalizedHash),
    ("heights", .arr (hs.map fun h => .obj [("height", .ofWord h),
      ("is_finalized", .bool (fm.isFinalized h)),
      ("vset", optJson (fun v => digestJson v.hash) (fm.validatorSet h)),
      ("cert", optJson (fun c => digestJson c.blockHash) (fm.certificate h))]))])

end StakeChain.Request.Step

import StakeChain.Consensus.ValidatorSet
import StakeChain.Data.KeyMap
import StakeChain.Evidence.Basic

/-!
# Finality

Votes are counted per height against the validator snapshot registered for that height, so
later stake changes never move an earlier height's threshold.  A height is final once the
block with the most power reaches the quorum; its certificate holds the votes for that block.

Votes for a height without a snapshot are parked, at most 1024 per height and only for the 64
heights after the final one, and replayed when the snapshot arrives.  A second vote of one
validator at one height for another block is equivocation: the pair becomes evidence.

A `Tally` holds the power behind each block hash at one height.  Adding a vote adds the voter's
power in the snapshot (zero for a non-member, which still opens an entry), saturating.  The best
entry is the one with the most power; of equal entries the one with the largest hash wins.

* `FinalityManager.recordVote`: the checks in order: signature, snapshot (or parking),
  membership, an earlier vote of the voter, a certificate for another block; then the vote
  is counted and the height may finalize;
* `FinalityManager.registerValidatorSet`: installs or replaces a snapshot (replacing recounts
  the members' votes) and replays parked votes;
* `Certificate.verify`: a certificate against a snapshot.

The window end `final + 64` and the split point `height + 1` are sums that stop the run
(`Abort`) when they leave the 64-bit range.
-/

set_option autoImplicit false

namespace StakeChain

/-- Power per block hash. -/
structure Tally where
  perBlock : KeyMap Digest UInt64 := .empty
  deriving DecidableEq, Repr, Inhabited

namespace Tally

/-- The tally after a vote, and the new power of its block. -/
def addVote (t : Tally) (vset : ValidatorSet) (voter : Address) (block : Digest) :
    Tally × UInt64 :=
  let p := Word.addSat (t.perBlock.getD block 0) (vset.powerOf voter)
  (⟨t.perBlock.insert block p⟩, p)

def powerFor (t : Tally) (block : Digest) : UInt64 := t.perBlock.getD block 0

/-- The entry with the most power, the last of equals in hash order. -/
def best (t : Tally) : Option (Digest × UInt64) :=
  t.perBlock.toList.foldl (fun acc e =>
    match acc with
    | none => some e
    | some b => if b.2 ≤ e.2 then some e else some b) none

end Tally

/-- The most parked votes per height. -/
def maxParkedPerHeight : Nat := 1024

/-- How far beyond the final height votes may park. -/
def maxParkAhead : UInt64 := 64

/-- Why a vote or certificate is refused. -/
inductive FinalityError where
  | badSignature
  | unknownValidator (voter : Address)
  | unknownHeight (height : UInt64)
  | conflictsWithFinalized (height : UInt64) (finalized : Digest)
  | equivocation (voter : Address) (height : UInt64)
  | insufficientPower (signed required : UInt64)
  | mixedVotes
  deriving DecidableEq, Repr, Inhabited

namespace FinalityError

def message : FinalityError → String
  | .badSignature => "vote signature invalid"
  | .unknownValidator v => "voter " ++ v.toHex ++ " is not in the validator set for this height"
  | .unknownHeight h => s!"no validator snapshot for height {h}"
  | .conflictsWithFinalized h f => s!"height {h} already finalized at " ++ f.toHex
  | .equivocation v h => "validator " ++ v.toHex ++ s!" voted twice at height {h}"
  | .insufficientPower s r => s!"certificate has insufficient power: {s} < {r}"
  | .mixedVotes => "certificate contains a vote for another block"

def kind : FinalityError → String
  | .badSignature => "BadSignature"
  | .unknownValidator _ => "UnknownValidator"
  | .unknownHeight _ => "UnknownHeight"
  | .conflictsWithFinalized .. => "ConflictsWithFinalized"
  | .equivocation .. => "Equivocation"
  | .insufficientPower .. => "InsufficientPower"
  | .mixedVotes => "MixedVotes"

end FinalityError

/-- Proof that more than two thirds of a snapshot's power voted for one block. -/
structure Certificate where
  height : UInt64
  blockHash : Digest
  votes : List Vote
  signedPower : UInt64
  totalPower : UInt64
  deriving DecidableEq, Repr, Inhabited

/-- One vote of a certificate checked against a snapshot: it must be for the certified block,
verify and come from a member.  A voter not seen before adds its power, saturating. -/
def Certificate.checkVote (c : Certificate) (vset : ValidatorSet) (acc : List Address × UInt64)
    (v : Vote) : Except FinalityError (List Address × UInt64) := do
  let (seen, power) := acc
  if v.height ≠ c.height ∨ v.blockHash ≠ c.blockHash then throw .mixedVotes
  if v.verify matches .error _ then throw .badSignature
  let voter := v.voter
  let p := vset.powerOf voter
  if p = 0 then throw (.unknownValidator voter)
  if seen.contains voter then pure (seen, power)
  else pure (voter :: seen, Word.addSat power p)

/-- Checks a certificate against a snapshot: every vote is for the certified block, verifies
and comes from a member; the distinct voters' power reaches the quorum. -/
def Certificate.verify (c : Certificate) (vset : ValidatorSet) : Except FinalityError Unit := do
  let (_, power) ← c.votes.foldlM (c.checkVote vset) ([], 0)
  let required := quorumThreshold vset.totalPower
  if power < required then throw (.insufficientPower power required)

/-- The votes of one height. -/
structure HeightVotes where
  vset : ValidatorSet
  byVoter : KeyMap Address Vote := .empty
  /-- Votes against an already certified block; never counted. -/
  conflicting : KeyMap Address Vote := .empty
  tally : Tally := {}
  deriving DecidableEq, Repr, Inhabited

/-- The votes of a height with a new voter's vote stored and counted. -/
def HeightVotes.record (hv : HeightVotes) (v : Vote) : HeightVotes :=
  { hv with byVoter := hv.byVoter.insert v.voter v,
            tally := (hv.tally.addVote hv.vset v.voter v.blockHash).1 }

/-- The votes recounted against the current snapshot: non-members are dropped and the rest
counted in address order. -/
def HeightVotes.retally (hv : HeightVotes) : HeightVotes :=
  let byVoter := hv.byVoter.filter fun a _ => hv.vset.contains a
  { hv with byVoter := byVoter,
            tally := byVoter.toList.foldl (fun t (a, v) => (t.addVote hv.vset a v.blockHash).1) {} }

/-- Vote records, parked votes and certificates of the heights around the final one. -/
structure FinalityManager where
  heights : KeyMap UInt64 HeightVotes := .empty
  parked : KeyMap UInt64 (List Vote) := .empty
  certificates : KeyMap UInt64 Certificate := .empty
  finalizedHeight : UInt64
  finalizedHash : Digest
  evidence : List Evidence := []
  deriving DecidableEq, Repr, Inhabited

namespace FinalityManager

/-- A manager with `height` and `hash` already final. -/
def init (height : UInt64) (hash : Digest) : FinalityManager :=
  { finalizedHeight := height, finalizedHash := hash }

def isFinalized (fm : FinalityManager) (h : UInt64) : Bool := h ≤ fm.finalizedHeight

def certificate (fm : FinalityManager) (h : UInt64) : Option Certificate := fm.certificates.get? h

def restoreCertificate (fm : FinalityManager) (c : Certificate) : FinalityManager :=
  { fm with certificates := fm.certificates.insert c.height c }

def validatorSet (fm : FinalityManager) (h : UInt64) : Option ValidatorSet :=
  (fm.heights.get? h).map HeightVotes.vset

/-- The power voting for a block at a height. -/
def tally (fm : FinalityManager) (h : UInt64) (block : Digest) : UInt64 :=
  match fm.heights.get? h with
  | some hv => hv.tally.powerFor block
  | none => 0

/-- The equivocation evidence found since the last call, and the manager without it. -/
def takeEvidence (fm : FinalityManager) : FinalityManager × List Evidence :=
  ({ fm with evidence := [] }, fm.evidence)

/-- Finalizes `height` if its best block has reached the quorum. -/
def tryFinalize (fm : FinalityManager) (height : UInt64) : Except Abort (FinalityManager × Bool) :=
  if height ≤ fm.finalizedHeight then .ok (fm, false)
  else
    match fm.heights.get? height with
    | none => .ok (fm, false)
    | some hv =>
      let total := hv.vset.totalPower
      let required := quorumThreshold total
      match hv.tally.best with
      | none => .ok (fm, false)
      | some (block, power) =>
        if power < required then .ok (fm, false)
        else do
          let votes := hv.byVoter.values.filter fun v => v.blockHash = block
          let next ← Word.addStrict height 1
          pure ({ fm with
            certificates := fm.certificates.insert height ⟨height, block, votes, power, total⟩
            finalizedHeight := height
            finalizedHash := block
            parked := fm.parked.keysFrom next }, true)

/-- Stores and tallies an accepted vote, then tries to finalize its height. -/
def countVote (fm : FinalityManager) (hv : HeightVotes) (v : Vote) :
    Except Abort (FinalityManager × Except FinalityError Bool) := do
  let fm := { fm with heights := fm.heights.insert v.height (hv.record v) }
  if v.height ≤ fm.finalizedHeight then pure (fm, .ok false)
  else
    let (fm, done) ← fm.tryFinalize v.height
    pure (fm, .ok done)

/-- Counts a vote; `true` when the vote finalized its height.  The manager may change even
when the vote is refused (equivocation evidence, a conflicting vote). -/
def recordVote (fm : FinalityManager) (v : Vote) :
    Except Abort (FinalityManager × Except FinalityError Bool) :=
  if v.verify matches .error _ then .ok (fm, .error .badSignature)
  else
    let voter := v.voter
    let height := v.height
    match fm.heights.get? height with
    | none =>
      if height > fm.finalizedHeight then do
        let windowEnd ← Word.addStrict fm.finalizedHeight maxParkAhead
        if height ≤ windowEnd then
          let slot := fm.parked.getD height []
          let slot := if slot.length < maxParkedPerHeight && !slot.contains v then slot ++ [v]
            else slot
          pure ({ fm with parked := fm.parked.insert height slot }, .ok false)
        else pure (fm, .error (.unknownHeight height))
      else .ok (fm, .error (.unknownHeight height))
    | some hv =>
      if !hv.vset.contains voter then .ok (fm, .error (.unknownValidator voter))
      else
        let prev := match hv.byVoter.get? voter with
          | some p => some p
          | none => hv.conflicting.get? voter
        match prev with
        | some p =>
          if p.blockHash = v.blockHash then .ok (fm, .ok false)
          else .ok ({ fm with evidence := fm.evidence ++ [Evidence.ofVotes p v] },
            .error (.equivocation voter height))
        | none =>
          match fm.certificates.get? height with
          | some c =>
            if c.blockHash ≠ v.blockHash then
              let hv := { hv with conflicting := hv.conflicting.insert voter v }
              .ok ({ fm with heights := fm.heights.insert height hv },
                .error (.conflictsWithFinalized height c.blockHash))
            else countVote fm hv v
          | none => countVote fm hv v

/-- The tracker with a snapshot installed at its height: a new height starts with no votes, and
a different snapshot replaces the old one and recounts the votes. -/
def install (fm : FinalityManager) (vset : ValidatorSet) : FinalityManager :=
  match fm.heights.get? vset.height with
  | some hv =>
    if hv.vset = vset then fm
    else { fm with heights := fm.heights.insert vset.height ({ hv with vset := vset }.retally) }
  | none => { fm with heights := fm.heights.insert vset.height { vset := vset } }

/-- Records votes in order; `true` when one of them finalized its height. -/
def replay (fm : FinalityManager) (votes : List Vote) : Except Abort (FinalityManager × Bool) :=
  votes.foldlM (fun (acc : FinalityManager × Bool) v => do
    let (fm, r) ← acc.1.recordVote v
    pure (fm, acc.2 || (r matches .ok true))) (fm, false)

/-- Registers the snapshot of its height and replays the votes parked for it; `true` when the
height became final. -/
def registerValidatorSet (fm : FinalityManager) (vset : ValidatorSet) :
    Except Abort (FinalityManager × Bool) := do
  let height := vset.height
  let fm := fm.install vset
  let (fm, finalized) ← match fm.parked.get? height with
    | none => pure (fm, false)
    | some votes => replay { fm with parked := fm.parked.erase height } votes
  if finalized then pure (fm, true) else fm.tryFinalize height

/-- Drops vote records and certificates more than `keep` heights below the final height. -/
def prune (fm : FinalityManager) (keep : UInt64) : FinalityManager :=
  let floor := Word.subSat fm.finalizedHeight keep
  { fm with heights := fm.heights.keysFrom floor, certificates := fm.certificates.keysFrom floor }

end FinalityManager

end StakeChain

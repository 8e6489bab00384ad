import StakeChain.Transaction.Basic

/-!
# Gas

Every transaction costs a base amount fixed by its kind plus a charge per memo byte; a block
may not use more than the schedule's block limit.

* `GasSchedule.cost`: the cost of a transaction, saturating at the largest word;
* `GasSchedule.canInclude`: whether a transaction still fits a block;
* `GasMeter.charge`: adds a cost to a block's meter, or leaves the meter as it was and reports
  the overrun.
-/

set_option autoImplicit false

namespace StakeChain

/-- Base costs per kind, the memo charge and the block limit. -/
structure GasSchedule where
  transferBase : UInt64 := 21000
  stakeBase : UInt64 := 40000
  unstakeBase : UInt64 := 40000
  /-- The base cost of delegating and undelegating. -/
  delegateBase : UInt64 := 40000
  /-- The base cost of creating and editing a validator. -/
  validatorBase : UInt64 := 60000
  perMemoByte : UInt64 := 16
  blockGasLimit : UInt64 := 10000000
  deriving DecidableEq, Repr

/-- A block that ran out of gas. -/
structure GasError where
  used : UInt64
  cost : UInt64
  limit : UInt64
  deriving DecidableEq, Repr

/-- The text of a gas error. -/
def GasError.message (e : GasError) : String :=
  let used := e.used
  let cost := e.cost
  let limit := e.limit
  s!"gas limit exceeded: used {used} + cost {cost} > limit {limit}"

namespace GasSchedule

/-- The base cost of a kind. -/
def baseCost (g : GasSchedule) : TxKind → UInt64
  | .transfer .. => g.transferBase
  | .stake .. => g.stakeBase
  | .unstake .. => g.unstakeBase
  | .delegate .. | .undelegate .. => g.delegateBase
  | .createValidator .. | .editValidator .. => g.validatorBase

/-- The cost of a transaction: its base cost plus the memo charge, both saturating. -/
def cost (g : GasSchedule) (tx : Transaction) : UInt64 :=
  Word.addSat (g.baseCost tx.kind) (Word.mulSat tx.memo.length.toUInt64 g.perMemoByte)

/-- Whether a transaction fits a block that has used `used`. -/
def canInclude (g : GasSchedule) (used : UInt64) (tx : Transaction) : Bool :=
  match Word.add? used (g.cost tx) with
  | some total => total ≤ g.blockGasLimit
  | none => false

end GasSchedule

/-- The gas a block has used against its limit. -/
structure GasMeter where
  limit : UInt64
  used : UInt64 := 0
  deriving DecidableEq, Repr

namespace GasMeter

/-- The meter after charging `cost`, if the limit allows it. -/
def charge (m : GasMeter) (cost : UInt64) : Except GasError GasMeter :=
  match Word.add? m.used cost with
  | some total =>
    if total ≤ m.limit then .ok { m with used := total }
    else .error ⟨m.used, cost, m.limit⟩
  | none => .error ⟨m.used, cost, m.limit⟩

/-- What is left under the limit. -/
def remaining (m : GasMeter) : UInt64 := Word.subSat m.limit m.used

end GasMeter

end StakeChain

import N42.Common.Types

/-!
# (key: config) Chain configuration and the rules of a block

`params.ChainConfig` with the fork blocks the modelled code reads (a `nil` block is a fork that
never activates) and `params.Rules`, the flags `ChainConfig.Rules(num)` derives for one block.
The `Apos` reward parameters are the two numbers the reward code reads.
-/

set_option linter.unusedSectionVars false
set_option linter.unusedVariables false

namespace N42

/-- `params.ChainConfig`, the fields read by the modelled code -/
structure ChainConfig where
  chainID : Nat
  homesteadBlock : Option UInt64
  spuriousDragonBlock : Option UInt64
  istanbulBlock : Option UInt64
  berlinBlock : Option UInt64
  londonBlock : Option UInt64
  shanghaiBlock : Option UInt64
  beijingBlock : Option UInt64
  eip1559FeeCollector : Option Address
  eip1559FeeCollectorTransition : Option UInt64
  /-- `Parlia != nil` -/
  parlia : Bool
  /-- `Apos.RewardEpoch` -/
  rewardEpoch : UInt64
  /-- `Apos.RewardLimit` -/
  rewardLimit : U256
deriving DecidableEq, Repr

/-- `isForked(s, head)`: `s.Uint64() <= head`, never for a `nil` block -/
def isForked (s : Option UInt64) (head : UInt64) : Bool :=
  match s with
  | none => false
  | some b => decide (b ≤ head)

/-- a fork that has activated stays active at every later block -/
theorem isForked_of_le {s : Option UInt64} {a b : UInt64} (h : isForked s a = true) (hab : a ≤ b) :
    isForked s b = true := by
  cases s with
  | none => simp [isForked] at h
  | some f =>
    simp only [isForked, decide_eq_true_eq] at h ⊢
    exact UInt64.le_iff_toNat_le.mpr
      ((UInt64.le_iff_toNat_le.mp h).trans (UInt64.le_iff_toNat_le.mp hab))

/-- `params.Rules` -/
structure Rules where
  chainID : Nat
  isHomestead : Bool
  isSpuriousDragon : Bool
  isIstanbul : Bool
  isBerlin : Bool
  isLondon : Bool
  isShanghai : Bool
  isEip1559FeeCollector : Bool
  isParlia : Bool
  isBeijing : Bool
deriving DecidableEq, Repr

namespace ChainConfig

variable (c : ChainConfig)

def isHomestead (num : UInt64) : Bool := isForked c.homesteadBlock num
def isBerlin (num : UInt64) : Bool := isForked c.berlinBlock num
def isLondon (num : UInt64) : Bool := isForked c.londonBlock num
def isBeijing (num : UInt64) : Bool := isForked c.beijingBlock num

/-- `IsEip1559FeeCollector`: a collector is configured and its transition has passed -/
def isEip1559FeeCollector (num : UInt64) : Bool :=
  c.eip1559FeeCollector.isSome && isForked c.eip1559FeeCollectorTransition num

/-- `Rules(num)` -/
def rules (num : UInt64) : Rules where
  chainID := c.chainID
  isHomestead := c.isHomestead num
  isSpuriousDragon := isForked c.spuriousDragonBlock num
  isIstanbul := isForked c.istanbulBlock num
  isBerlin := c.isBerlin num
  isLondon := c.isLondon num
  isShanghai := isForked c.shanghaiBlock num
  isEip1559FeeCollector := c.isEip1559FeeCollector num
  isParlia := c.parlia
  isBeijing := c.isBeijing num

theorem collector_of_isEip1559FeeCollector {num : UInt64}
    (h : (c.rules num).isEip1559FeeCollector = true) : ∃ a, c.eip1559FeeCollector = some a := by
  simp only [rules, isEip1559FeeCollector, Bool.and_eq_true, Option.isSome_iff_exists] at h
  exact h.1

end ChainConfig

end N42

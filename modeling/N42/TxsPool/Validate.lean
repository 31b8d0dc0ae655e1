import N42.Core.StateTransition

/-!
# (key: validate) Admission checks of the transaction pool

`internal/txspool/txs_pool.go`: the configuration, the errors, and `validateTx`, which `add`
runs on every transaction before it touches the pool.  The pool reads the chain state through
`ReadState` and the deposit registry through `PoolDeposit`; both are parameters of `PoolEnv`.

* `validateTx_ok`       what a transaction that passes has been checked for;
* `validateTx_vacuous`  the size, sign and bit-length guards never fire on the model's types;
* `cost_toNat`          `Cost()` is `gasPrice * gas + value` only modulo `2^256`;
* `validateTx_admits_wrapped_cost`   a transaction whose cost wraps to zero passes with an
                        empty balance.
-/

set_option linter.unusedSectionVars false
set_option linter.unusedVariables false

namespace N42

/-- `TxsPoolConfig`; `Locals` and `Lifetime` are read by no modelled function -/
structure TxsPoolConfig where
  noLocals : Bool
  priceLimit : UInt64
  priceBump : UInt64
  accountSlots : UInt64
  globalSlots : UInt64
  accountQueue : UInt64
  globalQueue : UInt64
deriving DecidableEq, Repr

/-- `DefaultTxPoolConfig` -/
def defaultTxPoolConfig : TxsPoolConfig where
  noLocals := false
  priceLimit := 1
  priceBump := 10
  accountSlots := 16
  globalSlots := 4096 + 1024
  accountQueue := 64
  globalQueue := 1024

/-- `txSlotSize` and `txMaxSize` -/
def txSlotSize : Nat := 32 * 1024
def txMaxSize : Nat := 4 * txSlotSize

/-- `unsafe.Sizeof(tx)` for the `*Transaction` it is applied to: a pointer -/
def pointerSize : Nat := 8

/-- the errors of the pool, with the `internal` ones `validateTx` returns -/
inductive PoolError where
  | errAlreadyKnown
  | errInvalidSender
  | errOversizedData
  | errNegativeValue
  | errGasLimit
  | errUnderpriced
  | errTxPoolOverflow
  | errReplaceUnderpriced
  | errFeeCapVeryHigh
  | errNonceTooLow
  | errInsufficientFunds
  | errTipAboveFeeCap
  | errTxTypeNotSupported
  | errTipVeryHigh
  | errIntrinsicGas
  | errAlreadyDeposited
  /-- an error of `IntrinsicGas` -/
  | intrinsic (e : StError)
  /-- the dereference `*tx.From()` of a transaction without `From` -/
  | nilFrom
deriving DecidableEq, Repr

/-- `ReadState`: the chain state the pool reads -/
structure ReadState where
  getNonce : Address → UInt64
  getBalance : Address → U256

/-- the deposit contract as the pool sees it: whether `GetDepositInfo` finds an entry for an
address, and `IsDepositAction` -/
structure PoolDeposit where
  hasDeposit : Address → Bool
  isDepositAction : Transaction → Bool

/-- the fields of `TxsPool` that `validateTx` reads -/
structure PoolEnv where
  config : TxsPoolConfig
  currentState : ReadState
  currentMaxGas : UInt64
  istanbul : Bool
  eip2718 : Bool
  eip1559 : Bool
  shanghai : Bool
  gasPrice : U256
  deposit : Option PoolDeposit

/-- `uint256.Int.Sign()` -/
def u256Sign (x : U256) : Int := if x = 0 then 0 else 1

/-- `validateTx(tx, local)` -/
def validateTx (pool : PoolEnv) (tx : Transaction) (isLocal : Bool) : Except PoolError Unit := do
  Except.failIf (pool.eip2718 = false ∧ tx.txType ≠ legacyTxType) .errTxTypeNotSupported
  Except.failIf (pool.eip1559 = false ∧ tx.txType = dynamicFeeTxType) .errTxTypeNotSupported
  let gasPrice := tx.gasPrice
  let addr ← Except.ofOption .nilFrom tx.fromAddr
  Except.failIf (pointerSize > txMaxSize) .errOversizedData
  Except.failIf (u256Sign tx.value < 0) .errNegativeValue
  Except.failIf (pool.currentMaxGas < tx.gas) .errGasLimit
  Except.failIf (bitLen gasPrice.toNat > 256) .errFeeCapVeryHigh
  Except.failIf (bitLen tx.gasTipCap.toNat > 256) .errTipVeryHigh
  Except.failIf (U256.cmp tx.gasFeeCap tx.gasTipCap < 0) .errTipAboveFeeCap
  Except.failIf (isLocal = false ∧ U256.cmp gasPrice pool.gasPrice < 0) .errUnderpriced
  Except.failIf (pool.currentState.getNonce addr > tx.nonce) .errNonceTooLow
  Except.failIf (U256.cmp (pool.currentState.getBalance addr) tx.cost < 0) .errInsufficientFunds
  let intrGas ← (intrinsicGas tx.data tx.accessList tx.toAddr.isNone true pool.istanbul
    pool.shanghai).mapError .intrinsic
  Except.failIf (tx.gas < intrGas) .errIntrinsicGas
  match pool.deposit with
  | some d => Except.failIf (d.hasDeposit addr ∧ d.isDepositAction tx) .errAlreadyDeposited
  | none => pure ()

/-- `validateSender(tx)`: the verification is still to be written and everything passes -/
def validateSender (tx : Transaction) : Bool := true

theorem bitLen_toNat_le (x : U256) : bitLen x.toNat ≤ 256 := by
  unfold bitLen
  rw [Int.natAbs_natCast]
  exact Nat.size_le.mpr x.isLt

/-- the guards on the pointer size, the sign of the value and the bit lengths of the prices
can never fire: a `uint256` is never negative and never longer than 256 bits -/
theorem validateTx_vacuous (tx : Transaction) :
    ¬ pointerSize > txMaxSize ∧ ¬ u256Sign tx.value < 0 ∧ ¬ bitLen tx.gasPrice.toNat > 256 ∧
      ¬ bitLen tx.gasTipCap.toNat > 256 := by
  refine ⟨by decide, ?_, Nat.not_lt.mpr (bitLen_toNat_le _), Nat.not_lt.mpr (bitLen_toNat_le _)⟩
  unfold u256Sign
  split <;> decide

/-- what a transaction that `validateTx` accepts has been checked for: a sender, the gas limit
of the block, a fee cap at least the tip, the nonce, a balance of at least the wrapped
`Cost()`, and enough gas for its intrinsic cost -/
theorem validateTx_ok {pool : PoolEnv} {tx : Transaction} {isLocal : Bool} {u : Unit}
    (h : validateTx pool tx isLocal = .ok u) :
    ∃ addr intrGas, tx.fromAddr = some addr ∧ tx.gas ≤ pool.currentMaxGas ∧
      tx.gasTipCap ≤ tx.gasFeeCap ∧ pool.currentState.getNonce addr ≤ tx.nonce ∧
      tx.cost ≤ pool.currentState.getBalance addr ∧
      intrinsicGas tx.data tx.accessList tx.toAddr.isNone true pool.istanbul pool.shanghai =
        .ok intrGas ∧ intrGas ≤ tx.gas := by
  simp only [validateTx, Except.bind_eq_ok_iff, Except.failIf_eq_ok_iff,
    Except.ofOption_eq_ok_iff, Except.mapError_eq_ok_iff, U256.cmp_lt_zero_iff,
    exists_const] at h
  obtain ⟨-, -, addr, hf, -, -, hgas, -, -, htip, -, hnonce, hcost, intrGas, hi, hintr, -⟩ := h
  exact ⟨addr, intrGas, hf, UInt64.not_lt.mp hgas, BitVec.not_lt.mp htip,
    UInt64.not_lt.mp hnonce, BitVec.not_lt.mp hcost, hi, UInt64.not_lt.mp hintr⟩

/-- `Cost()` over the naturals: `gasPrice * gas + value` modulo `2^256` -/
theorem cost_toNat (tx : Transaction) :
    tx.cost.toNat = (tx.gasPrice.toNat * tx.gas.toNat % 2 ^ 256 + tx.value.toNat) % 2 ^ 256 := by
  rw [Transaction.cost, BitVec.toNat_add, BitVec.toNat_mul, U256.toNat_newInt]

/-- a pool at the default configuration, every fork active, on a state where no account holds
anything and no deposit is registered -/
def samplePool : PoolEnv where
  config := defaultTxPoolConfig
  currentState := ⟨fun _ => 0, fun _ => 0⟩
  currentMaxGas := 30000000
  istanbul := true
  eip2718 := true
  eip1559 := true
  shanghai := true
  gasPrice := U256.newInt defaultTxPoolConfig.priceLimit
  deposit := some ⟨fun _ => false, fun _ => false⟩

/-- a plain transfer of nothing at gas price `2^255`: its cost `2^255 * 21000` is a multiple of
`2^256`, so `Cost()` is zero -/
def overflowTx : Transaction :=
  ⟨.legacy
    { nonce := 0, gasPrice := BitVec.ofNat 256 (2 ^ 255), gas := 21000, toAddr := some sampleTo,
      fromAddr := some sampleFrom, value := 0, data := [], v := some 27, r := some 1,
      s := some 1, sign := [] }⟩

set_option maxRecDepth 4096 in
theorem validateTx_admits_wrapped_cost :
    validateTx samplePool overflowTx false = .ok () ∧
      samplePool.currentState.getBalance sampleFrom = 0 ∧ overflowTx.cost = 0 ∧
      overflowTx.gasPrice.toNat * overflowTx.gas.toNat + overflowTx.value.toNat =
        2 ^ 255 * 21000 :=
  ⟨rfl, rfl, rfl, rfl⟩

end N42

import N42.Common.Message
import N42.Params.Protocol
import N42.Lib.Monad

/-!
# (key: transition) `StateTransition.TransitionDb`

`internal/state_transition.go`.  The state is any type `σ` with the methods of
`evmtypes.IntraBlockState` the transition calls (`IntraBlockState σ`); the interpreter's `Call`
and `Create` are fields of `Evm σ`, since only what they return is read here.  The transition
also records, in `fees`, every balance call it makes itself, in order: the statements about
fees are about that list.  `TransitionDb` is cut into the four pieces its body runs one after the
other: `preCheck` (with `buyGas`), `execute` (intrinsic gas, access list, `Call`/`Create`),
`refundGas` and `payFees` (tip and burn).

* `IntrinsicGas`, `intrinsicGas_ge_txGas`   at least `TxGas` for a message of sane size;
* `BoughtGas`, `preCheck_ok`     what a successful `preCheck` has checked and bought;
* `execute_ok`, `refundGas_ok`, `payFees_eq`   the spec of each later piece;
* `FeesConserved`, `transitionDb_fee_conservation`   the four fee calls of a successful London
                        transition and how their amounts relate, with every product below
                        `2^256`;
* `parlia_unpaid_fees`, `noBaseFee_unpaid_burn`, `size_unbounded_unpaid_fees`   without its
                        hypotheses on Parlia, on `NoBaseFee` and on the sizes, it fails.
-/

set_option linter.unusedSectionVars false
set_option linter.unusedVariables false

namespace N42

/-- the consensus errors `TransitionDb` returns, and the panics on its path -/
inductive StError where
  | errNonceTooHigh
  | errNonceTooLow
  | errNonceMax
  | errSenderNoEOA
  | errTipAboveFeeCap
  | errFeeCapTooLow
  | errInsufficientFunds
  | errGasLimitReached
  | errGasUintOverflow
  | errIntrinsicGas
  /-- a `nil` `BaseFee` read under London -/
  | nilBaseFee
  /-- `*st.evm.ChainConfig().Eip1559FeeCollector` on a `nil` collector -/
  | nilFeeCollector
  /-- `GasPool.AddGas`: "gas pool pushed above uint64" -/
  | gasPoolOverflow
deriving DecidableEq, Repr

/-- the errors of `vm/errors.go` that `Call` and `Create` hand back -/
inductive VmError where
  | errOutOfGas
  | errCodeStoreOutOfGas
  | errDepth
  | errInsufficientBalance
  | errContractAddressCollision
  | errExecutionReverted
  | errMaxCodeSizeExceeded
  | errInvalidJump
  | errWriteProtection
  | errReturnDataOutOfBounds
  | errGasUintOverflow
  | errInvalidCode
  | errNonceUintOverflow
  | errStackUnderflow
  | errStackOverflow
  | errInvalidOpCode
deriving DecidableEq, Repr

/-- the methods of `evmtypes.IntraBlockState` the state transition calls -/
structure IntraBlockState (σ : Type) where
  getBalance : σ → Address → U256
  subBalance : σ → Address → U256 → σ
  addBalance : σ → Address → U256 → σ
  getNonce : σ → Address → UInt64
  setNonce : σ → Address → UInt64 → σ
  getCodeHash : σ → Address → Hash
  getRefund : σ → UInt64
  prepareAccessList : σ → Address → Option Address → List Address → AccessList → σ
  addAddressToAccessList : σ → Address → σ

/-- what `Call` and `Create` return: the state after, the return data, the gas left over and the
error -/
structure CallResult (σ : Type) where
  state : σ
  ret : List UInt8
  leftOverGas : UInt64
  err : Option VmError

/-- `evmtypes.BlockContext`, the fields read here -/
structure BlockContext (σ : Type) where
  canTransfer : σ → Address → U256 → Bool
  coinbase : Address
  blockNumber : UInt64
  baseFee : Option U256

/-- the `VMInterface` the transition runs on -/
structure Evm (σ : Type) where
  chainConfig : ChainConfig
  context : BlockContext σ
  /-- `Config().NoBaseFee` -/
  noBaseFee : Bool
  /-- `ActivePrecompiles(rules)` -/
  activePrecompiles : List Address
  /-- `Call(caller, addr, input, gas, value, bailout)` -/
  call : σ → Address → Address → List UInt8 → UInt64 → U256 → Bool → CallResult σ
  /-- `Create(caller, code, gas, endowment)` -/
  create : σ → Address → List UInt8 → UInt64 → U256 → CallResult σ

/-- `ChainRules()`: the rules of the block the context is for -/
def Evm.chainRules {σ : Type} (evm : Evm σ) : Rules :=
  evm.chainConfig.rules evm.context.blockNumber

/-- the interpreter never hands back more gas than it was given -/
def Evm.GasBounded {σ : Type} (evm : Evm σ) : Prop :=
  (∀ s c a d g v b, (evm.call s c a d g v b).leftOverGas ≤ g) ∧
    ∀ s c d g v, (evm.create s c d g v).leftOverGas ≤ g

/-- `consensus.SystemAddress`, `0xffffFFFfFFffffffffffffffFfFFFfffFFFfFFfE` -/
def systemAddress : Address := BitVec.ofNat 160 (2 ^ 160 - 2)

/-- a balance call the state transition itself makes -/
inductive BalanceCall where
  | sub (addr : Address) (amount : U256)
  | add (addr : Address) (amount : U256)
deriving DecidableEq, Repr

/-- `ExecutionResult` -/
structure ExecutionResult where
  usedGas : UInt64
  err : Option VmError
  returnData : List UInt8
deriving DecidableEq, Repr

/-- the mutable part of `StateTransition`: the state it shares with the EVM, the block gas pool,
the two gas counters, and the balance calls made so far -/
structure StateTransition (σ : Type) where
  state : σ
  gp : UInt64
  gas : UInt64
  initialGas : UInt64
  fees : List BalanceCall

section
variable {σ : Type} (ibs : IntraBlockState σ)

namespace StateTransition

variable (st : StateTransition σ)

def subBalance (a : Address) (x : U256) : StateTransition σ :=
  { st with state := ibs.subBalance st.state a x, fees := st.fees ++ [.sub a x] }

def addBalance (a : Address) (x : U256) : StateTransition σ :=
  { st with state := ibs.addBalance st.state a x, fees := st.fees ++ [.add a x] }

/-- `gasUsed()`: `initialGas - gas` in `uint64` -/
def gasUsed : UInt64 := st.initialGas - st.gas

@[simp] theorem subBalance_gas (a : Address) (x : U256) : (st.subBalance ibs a x).gas = st.gas :=
  rfl
@[simp] theorem subBalance_initialGas (a : Address) (x : U256) :
    (st.subBalance ibs a x).initialGas = st.initialGas := rfl
@[simp] theorem subBalance_gp (a : Address) (x : U256) : (st.subBalance ibs a x).gp = st.gp := rfl
@[simp] theorem subBalance_fees (a : Address) (x : U256) :
    (st.subBalance ibs a x).fees = st.fees ++ [.sub a x] := rfl
@[simp] theorem addBalance_gas (a : Address) (x : U256) : (st.addBalance ibs a x).gas = st.gas :=
  rfl
@[simp] theorem addBalance_initialGas (a : Address) (x : U256) :
    (st.addBalance ibs a x).initialGas = st.initialGas := rfl
@[simp] theorem addBalance_gp (a : Address) (x : U256) : (st.addBalance ibs a x).gp = st.gp := rfl
@[simp] theorem addBalance_fees (a : Address) (x : U256) :
    (st.addBalance ibs a x).fees = st.fees ++ [.add a x] := rfl
@[simp] theorem addBalance_gasUsed (a : Address) (x : U256) :
    (st.addBalance ibs a x).gasUsed = st.gasUsed := rfl

end StateTransition

/-- `NewStateTransition`: both gas counters start at zero -/
def newStateTransition (state : σ) (gp : UInt64) : StateTransition σ :=
  { state, gp, gas := 0, initialGas := 0, fees := [] }

/-! ## intrinsic gas -/

/-- `toWordSize` -/
def toWordSize (size : UInt64) : UInt64 :=
  if size > maxUint64 - 31 then maxUint64 / 32 + 1 else (size + 31) / 32

/-- the data part of `IntrinsicGas`, on top of the starting `gas`; each addition is guarded
against `uint64` overflow -/
def intrinsicDataGas (data : List UInt8) (isContractCreation isEIP2028 isEIP3860 : Bool)
    (gas : UInt64) : Except StError UInt64 :=
  let dataLen := data.length.toUInt64
  if dataLen = 0 then .ok gas
  else
    let nz := (data.filter (fun b => b != 0)).length.toUInt64
    let nonZeroGas := if isEIP2028 then txDataNonZeroGasEIP2028 else txDataNonZeroGasFrontier
    if (maxUint64 - gas) / nonZeroGas < nz then .error .errGasUintOverflow
    else
      let gas := gas + nz * nonZeroGas
      let z := dataLen - nz
      if (maxUint64 - gas) / txDataZeroGas < z then .error .errGasUintOverflow
      else
        let gas := gas + z * txDataZeroGas
        if isContractCreation && isEIP3860 then
          let lenWords := toWordSize dataLen
          if (maxUint64 - gas) / initCodeWordGas < lenWords then .error .errGasUintOverflow
          else .ok (gas + lenWords * initCodeWordGas)
        else .ok gas

/-- `IntrinsicGas`.  The access-list part is added without an overflow guard, as in the source;
a `nil` list and an empty one add the same zero -/
def intrinsicGas (data : List UInt8) (accessList : AccessList)
    (isContractCreation isHomestead isEIP2028 isEIP3860 : Bool) : Except StError UInt64 := do
  let gas := if isContractCreation && isHomestead then txGasContractCreation else txGas
  let gas ← intrinsicDataGas data isContractCreation isEIP2028 isEIP3860 gas
  let gas := gas + accessList.length.toUInt64 * txAccessListAddressGas
  pure (gas + accessList.storageKeyCount.toUInt64 * txAccessListStorageKeyGas)

@[simp] theorem toNat_maxUint64 : maxUint64.toNat = 2 ^ 64 - 1 := rfl

/-- the guarded addition of `IntrinsicGas`: once `(MaxUint64 - gas) / k < n` has failed,
`gas + n * k` does not wrap -/
theorem toNat_add_mul_of_guard {gas n k : UInt64} (h : ¬ (maxUint64 - gas) / k < n) :
    (gas + n * k).toNat = gas.toNat + n.toNat * k.toNat := by
  have hg := gas.toNat_lt
  have hsub : (maxUint64 - gas).toNat = 2 ^ 64 - 1 - gas.toNat := by
    rw [UInt64.toNat_sub_of_le _ _ (UInt64.le_iff_toNat_le.mpr (by simp; omega)),
      toNat_maxUint64]
  have hn : n.toNat ≤ (2 ^ 64 - 1 - gas.toNat) / k.toNat := by
    rw [UInt64.not_lt, UInt64.le_iff_toNat_le, UInt64.toNat_div, hsub] at h
    exact h
  have hnk : n.toNat * k.toNat ≤ 2 ^ 64 - 1 - gas.toNat :=
    le_trans (Nat.mul_le_mul_right _ hn) (Nat.div_mul_le_self _ _)
  rw [UInt64.toNat_add, UInt64.toNat_mul, Nat.mod_eq_of_lt (by omega),
    Nat.mod_eq_of_lt (by omega)]

theorem toNat_toWordSize {size : UInt64} (h : size.toNat < 2 ^ 32) :
    (toWordSize size).toNat = (size.toNat + 31) / 32 := by
  have hn : ¬ size > maxUint64 - 31 := by
    rw [gt_iff_lt, UInt64.lt_iff_toNat_lt, UInt64.toNat_sub_of_le _ _ (by decide)]
    simp only [toNat_maxUint64, UInt64.reduceToNat]
    omega
  rw [toWordSize, if_neg hn, UInt64.toNat_div, UInt64.toNat_add, Nat.mod_eq_of_lt (by simp; omega)]
  rfl

/-- the data part costs at most 70 gas a byte: 68 a non-zero byte (or 16) or 4 a zero one, and
at most 2 a byte for the init-code words -/
theorem intrinsicDataGas_bounds {data : List UInt8} {cc e2028 e3860 : Bool} {gas g : UInt64}
    (hlen : data.length < 2 ^ 32) (h : intrinsicDataGas data cc e2028 e3860 gas = .ok g) :
    gas.toNat ≤ g.toNat ∧ g.toNat ≤ gas.toNat + 70 * data.length := by
  unfold intrinsicDataGas at h
  dsimp only at h
  -- the price of a non-zero byte and the two lengths, as opaque numbers
  generalize hkdef : (if e2028 = true then txDataNonZeroGasEIP2028
    else txDataNonZeroGasFrontier) = k at h
  have hk : k.toNat ≤ 68 := by subst hkdef; split <;> decide
  have hnz : (data.filter (fun b => b != 0)).length ≤ data.length := List.length_filter_le _ _
  generalize (data.filter (fun b => b != 0)).length = nz at h hnz
  generalize data.length = n at h hlen hnz
  have hn : n.toUInt64.toNat = n := by simp; omega
  have hnz' : nz.toUInt64.toNat = nz := by simp; omega
  have hz : (n.toUInt64 - nz.toUInt64).toNat = n - nz := by
    rw [UInt64.toNat_sub_of_le _ _ (UInt64.le_iff_toNat_le.mpr (by omega)), hn, hnz']
  have hkn : nz * k.toNat ≤ nz * 68 := Nat.mul_le_mul_left _ hk
  split_ifs at h with h0 h1 h2 h3 h4
  · obtain rfl := Except.ok.inj h
    omega
  · -- a creation: the init-code words are paid too
    obtain rfl := Except.ok.inj h
    have hw : (toWordSize n.toUInt64).toNat = (n.toUInt64.toNat + 31) / 32 :=
      toNat_toWordSize (by omega)
    rw [toNat_add_mul_of_guard h4, toNat_add_mul_of_guard h2, toNat_add_mul_of_guard h1, hw, hz,
      hn, hnz']
    have h0' : n ≠ 0 := fun h => h0 (by simp [h])
    simp only [txDataZeroGas, initCodeWordGas, UInt64.reduceToNat]
    omega
  · obtain rfl := Except.ok.inj h
    rw [toNat_add_mul_of_guard h2, toNat_add_mul_of_guard h1, hz, hnz']
    simp only [txDataZeroGas, UInt64.reduceToNat]
    omega

/-- **Intrinsic gas is at least `TxGas`** for every message whose data and access list have
fewer than `2^32` entries: below that size neither the guarded data part nor the unguarded
access-list part wraps around -/
theorem intrinsicGas_ge_txGas {data : List UInt8} {al : AccessList} {cc hs e2028 e3860 : Bool}
    {g : UInt64} (hd : data.length < 2 ^ 32) (hal : al.length < 2 ^ 32)
    (hkeys : al.storageKeyCount < 2 ^ 32) (h : intrinsicGas data al cc hs e2028 e3860 = .ok g) :
    txGas.toNat ≤ g.toNat := by
  simp only [intrinsicGas, Except.bind_eq_ok_iff, Except.pure_eq_ok_iff] at h
  obtain ⟨d, hdg, rfl⟩ := h
  have hb := intrinsicDataGas_bounds hd hdg
  have hbase : 21000 ≤ (if (cc && hs) = true then txGasContractCreation else txGas).toNat ∧
      (if (cc && hs) = true then txGasContractCreation else txGas).toNat ≤ 53000 := by
    split <;> decide
  have hal' : al.length.toUInt64.toNat = al.length := by simp; omega
  have hkeys' : al.storageKeyCount.toUInt64.toNat = al.storageKeyCount := by simp; omega
  have hd' : d.toNat < 2 ^ 40 := by omega
  rw [UInt64.toNat_add, UInt64.toNat_add, UInt64.toNat_mul, UInt64.toNat_mul, hal', hkeys']
  simp only [txAccessListAddressGas, txAccessListStorageKeyGas, txGas, UInt64.reduceToNat]
  -- every partial sum stays far below `2^64`
  rw [Nat.mod_eq_of_lt (by omega : al.length * 2400 < 2 ^ 64),
    Nat.mod_eq_of_lt (by omega : d.toNat + al.length * 2400 < 2 ^ 64),
    Nat.mod_eq_of_lt (by omega : al.storageKeyCount * 1900 < 2 ^ 64),
    Nat.mod_eq_of_lt (by omega : d.toNat + al.length * 2400 + al.storageKeyCount * 1900 < 2 ^ 64)]
  omega

/-! ## the transition -/

variable (evm : Evm σ) (msg : Message)

/-- `buyGas(gasBailout)`.  `st.gasFeeCap` is never `nil` (it points at the message's field), so
the balance check is always `gas * feeCap + value` -/
def buyGas (gasBailout : Bool) (st : StateTransition σ) : Except StError (StateTransition σ) :=
  let mgval := U256.mulOverflow (U256.newInt msg.gasLimit) msg.gasPrice
  if mgval.2 then .error .errInsufficientFunds
  else
    let balanceCheck := U256.mulOverflow (U256.newInt msg.gasLimit) msg.feeCap
    if balanceCheck.2 then .error .errInsufficientFunds
    else
      let balanceCheck := U256.addOverflow balanceCheck.1 msg.amount
      if balanceCheck.2 then .error .errInsufficientFunds
      else
        let underfunded := U256.cmp (ibs.getBalance st.state msg.fromAddr) balanceCheck.1 < 0
        if underfunded ∧ gasBailout = false then .error .errInsufficientFunds
        -- `gp.SubGas` leaves the pool alone when it is short
        else if st.gp < msg.gasLimit ∧ gasBailout = false then .error .errGasLimitReached
        else
          let st := { st with
            gp := if st.gp < msg.gasLimit then st.gp else st.gp - msg.gasLimit
            gas := st.gas + msg.gasLimit
            initialGas := msg.gasLimit }
          .ok (if underfunded then st else st.subBalance ibs msg.fromAddr mgval.1)

/-- `CheckEip1559TxGasFeeCap` -/
def checkEip1559TxGasFeeCap (gasFeeCap tip : U256) (baseFee : Option U256) (isFree : Bool) :
    Except StError Unit :=
  if gasFeeCap < tip then .error .errTipAboveFeeCap
  else match baseFee with
    | some bf => if gasFeeCap < bf ∧ isFree = false then .error .errFeeCapTooLow else .ok ()
    | none => .ok ()

/-- the nonce and EIP-3607 checks of `preCheck` -/
def preCheckNonce (st : StateTransition σ) : Except StError Unit :=
  if msg.checkNonce then
    let stNonce := ibs.getNonce st.state msg.fromAddr
    if stNonce < msg.nonce then .error .errNonceTooHigh
    else if msg.nonce < stNonce then .error .errNonceTooLow
    else if stNonce + 1 < stNonce then .error .errNonceMax
    else
      let codeHash := ibs.getCodeHash st.state msg.fromAddr
      if codeHash ≠ emptyCodeHash ∧ codeHash ≠ 0 then .error .errSenderNoEOA else .ok ()
  else .ok ()

/-- `preCheck(gasBailout)` -/
def preCheck (gasBailout : Bool) (st : StateTransition σ) :
    Except StError (StateTransition σ) := do
  preCheckNonce ibs msg st
  if evm.chainRules.isLondon then
    -- skipped only for a zero-priced call with the base fee switched off
    if evm.noBaseFee = false ∨ msg.feeCap ≠ 0 ∨ msg.tip ≠ 0 then
      checkEip1559TxGasFeeCap msg.feeCap msg.tip evm.context.baseFee msg.isFree
  buyGas ibs msg gasBailout st

/-- the middle of `TransitionDb`: intrinsic gas, the initial access list, and the `Create` or
the nonce increment and `Call` -/
def execute (gasBailout : Bool) (st : StateTransition σ) :
    Except StError (StateTransition σ × List UInt8 × Option VmError) := do
  let contractCreation := msg.toAddr.isNone
  let rules := evm.chainRules
  let gas ← intrinsicGas msg.data msg.accessList contractCreation rules.isHomestead
    rules.isIstanbul rules.isShanghai
  if st.gas < gas then throw .errIntrinsicGas
  let st := { st with gas := st.gas - gas }
  let bailout := gasBailout && msg.amount != 0 &&
    !evm.context.canTransfer st.state msg.fromAddr msg.amount
  let state :=
    if rules.isBerlin then
      let s := ibs.prepareAccessList st.state msg.fromAddr msg.toAddr evm.activePrecompiles
        msg.accessList
      -- EIP-3651: warm coinbase
      if rules.isShanghai then ibs.addAddressToAccessList s evm.context.coinbase else s
    else st.state
  let r := match msg.toAddr with
    | none => evm.create state msg.fromAddr msg.data st.gas msg.amount
    | some toAddr => evm.call (ibs.setNonce state msg.fromAddr (ibs.getNonce state msg.fromAddr + 1))
        msg.fromAddr toAddr msg.data st.gas msg.amount bailout
  pure ({ st with state := r.state, gas := r.leftOverGas }, r.ret, r.err)

/-- `refundGas(refundQuotient)` -/
def refundGas (refundQuotient : UInt64) (st : StateTransition σ) :
    Except StError (StateTransition σ) :=
  let refund := st.gasUsed / refundQuotient
  let refund := if refund > ibs.getRefund st.state then ibs.getRefund st.state else refund
  let st := { st with gas := st.gas + refund }
  let remaining := U256.newInt st.gas * msg.gasPrice
  let st := st.addBalance ibs msg.fromAddr remaining
  if st.gp > maxUint64 - st.gas then .error .gasPoolOverflow
  else .ok { st with gp := st.gp + st.gas }

/-- the tip `TransitionDb` pays under London: `Min256(tip, gasFeeCap - baseFee)` when the fee
cap is above the base fee, and zero otherwise -/
def londonEffectiveTip (tip gasFeeCap baseFee : U256) : U256 :=
  if baseFee < gasFeeCap then U256.min256 tip (gasFeeCap - baseFee) else 0

/-- the end of `TransitionDb`: the tip to the coinbase (to `SystemAddress` under Parlia) and,
with a fee collector, the base fee to the collector -/
def payFees (st : StateTransition σ) : Except StError (StateTransition σ) := do
  let rules := evm.chainRules
  let effectiveTip ←
    if rules.isLondon then
      match evm.context.baseFee with
      | some bf => pure (londonEffectiveTip msg.tip msg.feeCap bf)
      | none => throw .nilBaseFee
    else pure msg.gasPrice
  let amount := U256.newInt st.gasUsed * effectiveTip
  let st := st.addBalance ibs
    (if evm.chainConfig.parlia then systemAddress else evm.context.coinbase) amount
  if msg.isFree = false ∧ rules.isLondon ∧ rules.isEip1559FeeCollector then
    match evm.chainConfig.eip1559FeeCollector, evm.context.baseFee with
    | some c, some bf => pure (st.addBalance ibs c (U256.newInt st.gasUsed * bf))
    | none, _ => throw .nilFeeCollector
    | some _, none => throw .nilBaseFee
  else pure st

/-- `TransitionDb(refunds, gasBailout)` -/
def transitionDb (refunds gasBailout : Bool) (st : StateTransition σ) :
    Except StError (ExecutionResult × StateTransition σ) := do
  -- the BSC system transactions: Parlia always bails out
  let gasBailout := gasBailout || evm.chainConfig.parlia
  let st ← preCheck ibs evm msg gasBailout st
  let (st, ret, vmerr) ← execute ibs evm msg gasBailout st
  let st ← if refunds then
      refundGas ibs msg
        (if evm.chainRules.isLondon then refundQuotientEIP3529 else refundQuotient) st
    else pure st
  let st ← payFees ibs evm msg st
  pure ({ usedGas := st.gasUsed, err := vmerr, returnData := ret }, st)

/-- `ApplyMessage(evm, msg, gp, refunds, gasBailout)` on the state the EVM holds -/
def applyMessage (state : σ) (gp : UInt64) (refunds gasBailout : Bool) :
    Except StError (ExecutionResult × StateTransition σ) :=
  transitionDb ibs evm msg refunds gasBailout (newStateTransition state gp)


/-! ## buying gas -/

/-- what a successful `buyGas` without bailout has checked, and what it has done -/
structure BoughtGas (st st' : StateTransition σ) : Prop where
  price_lt : msg.gasLimit.toNat * msg.gasPrice.toNat < 2 ^ 256
  feeCap_lt : msg.gasLimit.toNat * msg.feeCap.toNat < 2 ^ 256
  funded : msg.gasLimit.toNat * msg.feeCap.toNat + msg.amount.toNat ≤
    (ibs.getBalance st.state msg.fromAddr).toNat
  gp_le : msg.gasLimit ≤ st.gp
  gp_eq : st'.gp = st.gp - msg.gasLimit
  gas_eq : st'.gas = st.gas + msg.gasLimit
  initialGas_eq : st'.initialGas = msg.gasLimit
  fees_eq : st'.fees = st.fees ++ [.sub msg.fromAddr (U256.newInt msg.gasLimit * msg.gasPrice)]

theorem buyGas_ok {st st' : StateTransition σ} (h : buyGas ibs msg false st = .ok st') :
    BoughtGas ibs msg st st' := by
  unfold buyGas at h
  simp only [U256.cmp_lt_zero_iff, and_true] at h
  -- every guard has passed and the balance is debited
  split_ifs at h with h1 h2 h3 h4 h5
  obtain rfl := Except.ok.inj h
  simp only [Bool.not_eq_true, U256.mulOverflow_snd_eq_false_iff,
    U256.addOverflow_snd_eq_false_iff, U256.mulOverflow_fst, U256.addOverflow_fst,
    U256.toNat_newInt] at h1 h2 h3 h4
  have hmul : (U256.newInt msg.gasLimit * msg.feeCap).toNat =
      msg.gasLimit.toNat * msg.feeCap.toNat := by
    exact U256.toNat_newInt_mul h2
  rw [hmul] at h3
  rw [BitVec.not_lt, BitVec.le_def, U256.toNat_add_of_lt (by rwa [hmul]), hmul] at h4
  exact { price_lt := h1, feeCap_lt := h2, funded := h4, gp_le := UInt64.not_lt.mp h5,
          gp_eq := rfl, gas_eq := rfl, initialGas_eq := rfl, fees_eq := rfl }

/-! ## the fee-cap checks -/

theorem checkEip1559TxGasFeeCap_ok {gasFeeCap tip : U256} {baseFee : Option U256}
    {isFree : Bool} {u : Unit} (h : checkEip1559TxGasFeeCap gasFeeCap tip baseFee isFree = .ok u) :
    tip ≤ gasFeeCap ∧ ∀ bf, baseFee = some bf → isFree = false → bf ≤ gasFeeCap := by
  unfold checkEip1559TxGasFeeCap at h
  split_ifs at h with h1
  refine ⟨BitVec.not_lt.mp h1, fun bf hbf hfree => ?_⟩
  subst hbf
  simp only [hfree, and_true] at h
  split_ifs at h with h2
  exact BitVec.not_lt.mp h2

/-- a successful `preCheck` without bailout has bought the gas; under London, unless the checks
were skipped for a zero-priced call, the fee cap covers the tip and the base fee -/
theorem preCheck_ok {st st' : StateTransition σ} (h : preCheck ibs evm msg false st = .ok st') :
    BoughtGas ibs msg st st' ∧
      (evm.chainRules.isLondon = true → evm.noBaseFee = false →
        msg.tip ≤ msg.feeCap ∧
          ∀ bf, evm.context.baseFee = some bf → msg.isFree = false → bf ≤ msg.feeCap) := by
  simp only [preCheck, Except.bind_eq_ok_iff] at h
  obtain ⟨_, -, h⟩ := h
  split_ifs at h with hl hc
  · simp only [Except.bind_eq_ok_iff] at h
    obtain ⟨_, hchk, hbuy⟩ := h
    exact ⟨buyGas_ok ibs msg hbuy, fun _ _ => checkEip1559TxGasFeeCap_ok hchk⟩
  · -- the checks were skipped, which needs `NoBaseFee`
    exact ⟨buyGas_ok ibs msg h, fun _ hnb => absurd (Or.inl hnb) hc⟩
  · exact ⟨buyGas_ok ibs msg h, fun hl' => absurd hl' hl⟩

/-! ## execution, refund and fees -/

/-- a successful `execute` has paid the intrinsic gas out of the gas bought, and the interpreter
has handed back at most what it was given; the gas pool and the fee calls are untouched -/
theorem execute_ok (hb : evm.GasBounded) {gb : Bool} {st st' : StateTransition σ}
    {ret : List UInt8} {err : Option VmError} (h : execute ibs evm msg gb st = .ok (st', ret, err)) :
    ∃ gas, intrinsicGas msg.data msg.accessList msg.toAddr.isNone evm.chainRules.isHomestead
        evm.chainRules.isIstanbul evm.chainRules.isShanghai = .ok gas ∧
      gas ≤ st.gas ∧ st'.gas ≤ st.gas - gas ∧ st'.initialGas = st.initialGas ∧
      st'.fees = st.fees ∧ st'.gp = st.gp := by
  simp only [execute, Except.bind_eq_ok_iff] at h
  obtain ⟨gas, hg, h⟩ := h
  by_cases hlt : st.gas < gas
  · rw [if_pos hlt] at h
    simp only [Except.bind_eq_ok_iff, Except.throw_ne_ok, false_and, exists_false] at h
  · rw [if_neg hlt] at h
    simp only [Except.pure_eq_ok_iff, Prod.mk.injEq] at h
    obtain ⟨rfl, -, -⟩ := h
    refine ⟨gas, hg, UInt64.not_lt.mp hlt, ?_, rfl, rfl, rfl⟩
    -- `Create` or `Call`, each bounded by the gas it was given
    dsimp only
    split
    · exact hb.2 _ _ _ _ _
    · exact hb.1 _ _ _ _ _ _ _

/-- the refund returns at most `gasUsed / refundQuotient` gas, so the gas left never exceeds the
gas bought; what is left is paid back to the sender at the message's price -/
theorem refundGas_ok {q : UInt64} {st st' : StateTransition σ} (hle : st.gas ≤ st.initialGas)
    (h : refundGas ibs msg q st = .ok st') :
    st.gas ≤ st'.gas ∧ st'.gas ≤ st.initialGas ∧ st'.initialGas = st.initialGas ∧
      st'.fees = st.fees ++ [.add msg.fromAddr (U256.newInt st'.gas * msg.gasPrice)] := by
  unfold refundGas at h
  dsimp only at h
  -- the refund, capped by the counter, is at most the quotient of the gas used
  have hr : (if st.gasUsed / q > ibs.getRefund st.state then ibs.getRefund st.state
      else st.gasUsed / q) ≤ st.gasUsed / q := by
    split
    · exact UInt64.le_of_lt ‹_›
    · exact UInt64.le_refl _
  generalize (if st.gasUsed / q > ibs.getRefund st.state then ibs.getRefund st.state
      else st.gasUsed / q) = r at h hr
  split_ifs at h
  obtain rfl := Except.ok.inj h
  have hle' := UInt64.le_iff_toNat_le.mp hle
  have hused : st.gasUsed.toNat = st.initialGas.toNat - st.gas.toNat :=
    UInt64.toNat_sub_of_le _ _ hle
  have hr' : r.toNat ≤ st.initialGas.toNat - st.gas.toNat := by
    have h1 := UInt64.le_iff_toNat_le.mp hr
    rw [UInt64.toNat_div, hused] at h1
    exact le_trans h1 (Nat.div_le_self _ _)
  have hsum : (st.gas + r).toNat = st.gas.toNat + r.toNat := by
    rw [UInt64.toNat_add, Nat.mod_eq_of_lt (by have := st.initialGas.toNat_lt; omega)]
  refine ⟨?_, ?_, rfl, rfl⟩
  · show st.gas ≤ st.gas + r
    rw [UInt64.le_iff_toNat_le, hsum]
    omega
  · show st.gas + r ≤ st.initialGas
    rw [UInt64.le_iff_toNat_le, hsum]
    omega

/-- under London with a base fee, a fee collector, no Parlia engine and a message that is not
free, `payFees` pays the tip to the coinbase and the base fee to the collector, both for the gas
used -/
theorem payFees_eq {bf : U256} {c : Address} (st : StateTransition σ)
    (hlon : evm.chainRules.isLondon = true) (hbf : evm.context.baseFee = some bf)
    (hcol : evm.chainRules.isEip1559FeeCollector = true)
    (hc : evm.chainConfig.eip1559FeeCollector = some c) (hpar : evm.chainConfig.parlia = false)
    (hfree : msg.isFree = false) :
    payFees ibs evm msg st = .ok ((st.addBalance ibs evm.context.coinbase
        (U256.newInt st.gasUsed * londonEffectiveTip msg.tip msg.feeCap bf)).addBalance ibs c
        (U256.newInt st.gasUsed * bf)) := by
  simp [payFees, hlon, hbf, hcol, hc, hpar, hfree]

/-- with the fee cap covering the tip and the base fee, and their sum not wrapping, the price
`AsMessage` sets is exactly the London tip plus the base fee -/
theorem toNat_effectivePrice {tip feeCap bf : U256} (htip : tip ≤ feeCap) (hbf : bf ≤ feeCap)
    (hsum : tip.toNat + bf.toNat < 2 ^ 256) :
    (effectivePrice tip feeCap bf).toNat = (londonEffectiveTip tip feeCap bf).toNat + bf.toNat := by
  unfold effectivePrice londonEffectiveTip
  have hsub : (feeCap - bf).toNat = feeCap.toNat - bf.toNat := BitVec.toNat_sub_of_le hbf
  rw [BitVec.le_def] at htip hbf
  have hadd : (tip + bf).toNat = tip.toNat + bf.toNat := U256.toNat_add_of_lt hsum
  split_ifs with h1 h2 h2
  all_goals simp only [BitVec.lt_def, hadd] at h1 h2
  · rw [U256.toNat_min256, hsub]
    omega
  · show feeCap.toNat = 0 + bf.toNat
    omega
  · rw [hadd, U256.toNat_min256, hsub]
    omega
  · rw [hadd]
    show tip.toNat + bf.toNat = 0 + bf.toNat
    omega

/-! ## fee conservation -/

/-- what the fee calls of one successful London transition with a fee collector amount to: the
gas bought from the sender, the remaining gas paid back to it, the tip for the gas used to the
coinbase and the base fee for it to the collector; each amount is its product over the
naturals, and the first is exactly the sum of the other three -/
structure FeesConserved (msg : Message) (coinbase collector : Address) (bf : U256)
    (res : ExecutionResult) (st : StateTransition σ) : Prop where
  initialGas_eq : st.initialGas = msg.gasLimit
  gas_le : st.gas ≤ msg.gasLimit
  usedGas_eq : res.usedGas.toNat = msg.gasLimit.toNat - st.gas.toNat
  fees_eq : st.fees =
    [.sub msg.fromAddr (U256.newInt msg.gasLimit * msg.gasPrice),
     .add msg.fromAddr (U256.newInt st.gas * msg.gasPrice),
     .add coinbase (U256.newInt res.usedGas * londonEffectiveTip msg.tip msg.feeCap bf),
     .add collector (U256.newInt res.usedGas * bf)]
  bought_toNat : (U256.newInt msg.gasLimit * msg.gasPrice).toNat =
    msg.gasLimit.toNat * msg.gasPrice.toNat
  refunded_toNat : (U256.newInt st.gas * msg.gasPrice).toNat = st.gas.toNat * msg.gasPrice.toNat
  tip_toNat : (U256.newInt res.usedGas * londonEffectiveTip msg.tip msg.feeCap bf).toNat =
    res.usedGas.toNat * (londonEffectiveTip msg.tip msg.feeCap bf).toNat
  burnt_toNat : (U256.newInt res.usedGas * bf).toNat = res.usedGas.toNat * bf.toNat
  conserved : (U256.newInt msg.gasLimit * msg.gasPrice).toNat =
    (U256.newInt st.gas * msg.gasPrice).toNat +
      (U256.newInt res.usedGas * londonEffectiveTip msg.tip msg.feeCap bf).toNat +
      (U256.newInt res.usedGas * bf).toNat

/-- the fee conservation of `ApplyMessage` for any message priced as `AsMessage` prices it under
the block's base fee -/
theorem applyMessage_feesConserved {bf : U256} {c : Address}
    (hprice : msg.gasPrice = effectivePrice msg.tip msg.feeCap bf) (hfree : msg.isFree = false)
    (hsize : msg.data.length < 2 ^ 32 ∧ msg.accessList.length < 2 ^ 32 ∧
      msg.accessList.storageKeyCount < 2 ^ 32)
    (hb : evm.GasBounded) (hbf : evm.context.baseFee = some bf)
    (hlon : evm.chainRules.isLondon = true) (hcol : evm.chainRules.isEip1559FeeCollector = true)
    (hc : evm.chainConfig.eip1559FeeCollector = some c) (hpar : evm.chainConfig.parlia = false)
    (hnb : evm.noBaseFee = false) {state : σ} {gp : UInt64} {res : ExecutionResult}
    {st : StateTransition σ} (h : applyMessage ibs evm msg state gp true false = .ok (res, st)) :
    FeesConserved msg evm.context.coinbase c bf res st := by
  -- peel the four pieces of the run
  simp only [applyMessage, transitionDb, hpar, Bool.or_false, Except.bind_eq_ok_iff, if_true,
    hlon] at h
  obtain ⟨st1, hpre, ⟨st2, ret, err⟩, hexe, st3, href, st4, hpay, hfin⟩ := h
  rw [payFees_eq ibs evm msg st3 hlon hbf hcol hc hpar hfree] at hpay
  obtain rfl := Except.ok.inj hpay
  simp only [Except.pure_eq_ok_iff, Prod.mk.injEq] at hfin
  obtain ⟨rfl, rfl⟩ := hfin
  -- what each piece has checked and done
  obtain ⟨hbuy, hlondon⟩ := preCheck_ok ibs evm msg hpre
  obtain ⟨htip, hbfcap⟩ := hlondon hlon hnb
  have hbfle := hbfcap bf hbf hfree
  obtain ⟨g, hg, hgle, hgas2, hinit2, hfees2, -⟩ := execute_ok ibs evm msg hb hexe
  have hintr := intrinsicGas_ge_txGas hsize.1 hsize.2.1 hsize.2.2 hg
  have hgas1 : st1.gas = msg.gasLimit := by
    rw [hbuy.gas_eq]
    exact UInt64.zero_add _
  have hinit1 := hbuy.initialGas_eq
  have hle2 : st2.gas ≤ st2.initialGas := by
    rw [hinit2, hinit1]
    refine UInt64.le_trans hgas2 ?_
    rw [← hgas1]
    exact UInt64.sub_le hgle
  obtain ⟨-, hle3, hinit3, hfees3⟩ := refundGas_ok ibs msg hle2 href
  -- the arithmetic, over the naturals
  have hgl : txGas.toNat ≤ msg.gasLimit.toNat := by
    have := UInt64.le_iff_toNat_le.mp hgle
    rw [hgas1] at this
    omega
  have hle3' : st3.gas.toNat ≤ msg.gasLimit.toNat := by
    have := UInt64.le_iff_toNat_le.mp hle3
    rwa [hinit2, hinit1] at this
  have hused : st3.gasUsed.toNat = msg.gasLimit.toNat - st3.gas.toNat := by
    rw [StateTransition.gasUsed, hinit3, hinit2, hinit1]
    exact UInt64.toNat_sub_of_le _ _ (UInt64.le_iff_toNat_le.mpr hle3')
  have hsum : msg.tip.toNat + bf.toNat < 2 ^ 256 := by
    have hfc := hbuy.feeCap_lt
    have h2 : 2 * msg.feeCap.toNat ≤ msg.gasLimit.toNat * msg.feeCap.toNat :=
      Nat.mul_le_mul_right _ (by simp only [txGas, UInt64.reduceToNat] at hgl; omega)
    rw [BitVec.le_def] at htip hbfle
    omega
  have hp : msg.gasPrice.toNat = (londonEffectiveTip msg.tip msg.feeCap bf).toNat + bf.toNat := by
    rw [hprice]
    exact toNat_effectivePrice htip hbfle hsum
  -- the price splits into tip and base fee, so the gas bought splits into the gas returned, the
  -- tip and the burn; all of it is below the bought amount, which does not wrap
  have hsplit : msg.gasLimit.toNat * msg.gasPrice.toNat =
      st3.gas.toNat * msg.gasPrice.toNat +
        st3.gasUsed.toNat * (londonEffectiveTip msg.tip msg.feeCap bf).toNat +
        st3.gasUsed.toNat * bf.toNat := by
    have hgL : msg.gasLimit.toNat = st3.gas.toNat + st3.gasUsed.toNat := by omega
    have hmul : msg.gasLimit.toNat * msg.gasPrice.toNat =
        st3.gas.toNat * msg.gasPrice.toNat + st3.gasUsed.toNat * msg.gasPrice.toNat := by
      rw [hgL, Nat.add_mul]
    have hup : st3.gasUsed.toNat * msg.gasPrice.toNat =
        st3.gasUsed.toNat * (londonEffectiveTip msg.tip msg.feeCap bf).toNat +
          st3.gasUsed.toNat * bf.toNat := by
      rw [hp, Nat.mul_add]
    omega
  have hlt := hbuy.price_lt
  have hr := U256.toNat_newInt_mul (n := st3.gas) (y := msg.gasPrice) (by omega)
  have ht := U256.toNat_newInt_mul (n := st3.gasUsed)
    (y := londonEffectiveTip msg.tip msg.feeCap bf) (by omega)
  have hB := U256.toNat_newInt_mul (n := st3.gasUsed) (y := bf) (by omega)
  have hbought := U256.toNat_newInt_mul hlt
  exact {
    initialGas_eq := by simp [hinit3, hinit2, hinit1]
    gas_le := by simpa using UInt64.le_iff_toNat_le.mpr hle3'
    usedGas_eq := by simpa using hused
    fees_eq := by simp [hfees3, hfees2, hbuy.fees_eq, newStateTransition]
    bought_toNat := hbought
    refunded_toNat := by simpa using hr
    tip_toNat := by simpa using ht
    burnt_toNat := by simpa using hB
    conserved := by
      simp only [StateTransition.addBalance_gas, StateTransition.addBalance_gasUsed]
      omega }

/-- **Fee conservation.**  For every message `AsMessage` builds under the block's base fee and
every successful `ApplyMessage(refunds = true, gasBailout = false)` under London with a fee
collector, on a chain without the Parlia engine and with `NoBaseFee` off: the gas bought is
debited once, the remaining gas is paid back, the gas used pays the tip to the coinbase and the
base fee to the collector, the amounts add up over the naturals, and the gas left never exceeds
the gas bought.  The size bound on the data and the access list is met by every transaction that
fits in memory; it keeps the unguarded access-list part of `IntrinsicGas` from wrapping. -/
theorem transitionDb_fee_conservation {tx : Transaction} {sg : Signer} {bf : U256} {m : Message}
    (hm : tx.asMessage sg (some bf) = some m) (cn : Bool)
    (hsize : m.data.length < 2 ^ 32 ∧ m.accessList.length < 2 ^ 32 ∧
      m.accessList.storageKeyCount < 2 ^ 32)
    (hb : evm.GasBounded) (hbf : evm.context.baseFee = some bf)
    (hlon : evm.chainRules.isLondon = true) (hcol : evm.chainRules.isEip1559FeeCollector = true)
    (hpar : evm.chainConfig.parlia = false) (hnb : evm.noBaseFee = false)
    {state : σ} {gp : UInt64} {res : ExecutionResult} {st : StateTransition σ}
    (h : applyMessage ibs evm { m with checkNonce := cn } state gp true false = .ok (res, st)) :
    ∃ c, evm.chainConfig.eip1559FeeCollector = some c ∧
      FeesConserved { m with checkNonce := cn } evm.context.coinbase c bf res st := by
  obtain ⟨c, hc⟩ := evm.chainConfig.collector_of_isEip1559FeeCollector hcol
  obtain ⟨hprice, hfc, htip, -, hfree⟩ := Transaction.asMessage_gasPrice tx sg hm
  rw [← hfc, ← htip] at hprice
  exact ⟨c, hc, applyMessage_feesConserved ibs evm { m with checkNonce := cn } hprice hfree hsize
    hb hbf hlon hcol hc hpar hnb h⟩

end

/-! ## a sample transfer -/

/-- a world of balances and nonces, with no code anywhere -/
structure SampleWorld where
  balance : Address → U256
  nonce : Address → UInt64

def sampleState : IntraBlockState SampleWorld where
  getBalance w a := w.balance a
  subBalance w a x := { w with balance := Function.update w.balance a (w.balance a - x) }
  addBalance w a x := { w with balance := Function.update w.balance a (w.balance a + x) }
  getNonce w a := w.nonce a
  setNonce w a n := { w with nonce := Function.update w.nonce a n }
  getCodeHash _ _ := 0
  getRefund _ := 0
  prepareAccessList w _ _ _ _ := w
  addAddressToAccessList w _ := w

def sampleFrom : Address := BitVec.ofNat 160 0xa11ce
def sampleTo : Address := BitVec.ofNat 160 0xb0b
def sampleCoinbase : Address := BitVec.ofNat 160 0xc0
def sampleCollector : Address := BitVec.ofNat 160 0xfee

/-- only the sender holds anything, `balance` wei -/
def sampleWorld (balance : U256) : SampleWorld :=
  ⟨fun a => if a = sampleFrom then balance else 0, fun _ => 0⟩

/-- every fork from genesis, a fee collector, and Parlia or not -/
def sampleConfig (parlia : Bool) : ChainConfig where
  chainID := 1
  homesteadBlock := some 0
  spuriousDragonBlock := some 0
  istanbulBlock := some 0
  berlinBlock := some 0
  londonBlock := some 0
  shanghaiBlock := some 0
  beijingBlock := none
  eip1559FeeCollector := some sampleCollector
  eip1559FeeCollectorTransition := some 0
  parlia := parlia
  rewardEpoch := 0
  rewardLimit := 0

/-- base fee 1; a call or creation to an account without code moves no value here (the sample
moves none) and hands all its gas back -/
def sampleEvm (parlia : Bool) : Evm SampleWorld where
  chainConfig := sampleConfig parlia
  context := { canTransfer := fun w a v => decide (v ≤ w.balance a), coinbase := sampleCoinbase,
               blockNumber := 1, baseFee := some 1 }
  noBaseFee := false
  activePrecompiles := []
  call w _ _ _ g _ _ := ⟨w, [], g, none⟩
  create w _ _ g _ := ⟨w, [], g, none⟩

theorem sampleEvm_gasBounded (parlia : Bool) : (sampleEvm parlia).GasBounded :=
  ⟨fun _ _ _ _ _ _ _ => UInt64.le_refl _, fun _ _ _ _ _ => UInt64.le_refl _⟩

/-- a dynamic-fee transfer of nothing: tip 1, fee cap 2, 21000 gas, and all three signature
values zero -/
def sampleTx : Transaction :=
  ⟨.dynamicFee
    { chainID := 1, nonce := 0, gasTipCap := 1, gasFeeCap := 2, gas := 21000,
      toAddr := some sampleTo, fromAddr := some sampleFrom, value := 0, data := [],
      accessList := [], sign := [], v := some 0, r := some 0, s := some 0 }⟩

def sampleMsg : Message :=
  { toAddr := some sampleTo, fromAddr := sampleFrom, nonce := 0, amount := 0, gasLimit := 21000,
    gasPrice := 2, feeCap := 2, tip := 1, data := [], accessList := [], checkNonce := false,
    isFree := false }

theorem sampleTx_asMessage : sampleTx.asMessage (.london 1) (some 1) = some sampleMsg := by
  rfl

/-- the fee calls of a run and the balances of the four accounts they touch after it -/
def feesAndBalances (r : ExecutionResult × StateTransition SampleWorld) :
    List BalanceCall × U256 × U256 × U256 × U256 :=
  (r.2.fees, r.2.state.balance sampleFrom, r.2.state.balance sampleCoinbase,
    r.2.state.balance systemAddress, r.2.state.balance sampleCollector)

theorem sampleTransfer_feesConserved :
    ∃ res st, applyMessage sampleState (sampleEvm false) { sampleMsg with checkNonce := true }
        (sampleWorld 1000000) 30000000 true false = .ok (res, st) ∧
      ∃ c, (sampleEvm false).chainConfig.eip1559FeeCollector = some c ∧
        FeesConserved { sampleMsg with checkNonce := true } (sampleEvm false).context.coinbase c 1
          res st := by
  obtain ⟨res, st, h⟩ : ∃ res st, applyMessage sampleState (sampleEvm false)
      { sampleMsg with checkNonce := true } (sampleWorld 1000000) 30000000 true false =
        .ok (res, st) := ⟨_, _, rfl⟩
  exact ⟨res, st, h, transitionDb_fee_conservation sampleState (sampleEvm false)
    sampleTx_asMessage true (by decide) (sampleEvm_gasBounded false) rfl rfl rfl rfl rfl h⟩

example : (applyMessage sampleState (sampleEvm false) { sampleMsg with checkNonce := true }
    (sampleWorld 1000000) 30000000 true false).map feesAndBalances =
    .ok ([.sub sampleFrom 42000, .add sampleFrom 0, .add sampleCoinbase 21000,
      .add sampleCollector 21000], 958000, 21000, 0, 21000) := by
  rfl

/-- under Parlia the bailout is forced: a sender that holds nothing is not debited, yet the tip
(to `SystemAddress`) and the burn are paid for the 21000 gas used -/
theorem parlia_unpaid_fees :
    sampleTx.asMessage (.london 1) (some 1) = some sampleMsg ∧
      (sampleEvm true).chainRules.isLondon = true ∧
      (sampleEvm true).chainRules.isEip1559FeeCollector = true ∧
      (applyMessage sampleState (sampleEvm true) sampleMsg (sampleWorld 0) 30000000 true
          false).map feesAndBalances =
        .ok ([.add sampleFrom 0, .add systemAddress 21000, .add sampleCollector 21000],
          0, 0, 21000, 21000) :=
  ⟨sampleTx_asMessage, rfl, rfl, rfl⟩

/-! ## why `NoBaseFee` off and the size bound -/

/-- the sample chain with `NoBaseFee` on, as `eth_call` runs it -/
def noBaseFeeEvm : Evm SampleWorld := { sampleEvm false with noBaseFee := true }

/-- the sample transfer at a tip and a fee cap of zero -/
def zeroPricedTx : Transaction :=
  ⟨.dynamicFee
    { chainID := 1, nonce := 0, gasTipCap := 0, gasFeeCap := 0, gas := 21000,
      toAddr := some sampleTo, fromAddr := some sampleFrom, value := 0, data := [],
      accessList := [], sign := [], v := some 0, r := some 0, s := some 0 }⟩

def zeroPricedMsg : Message := { sampleMsg with gasPrice := 0, feeCap := 0, tip := 0 }

/-- **`NoBaseFee` off is needed.**  With it on, a zero-priced transfer skips the fee-cap checks:
the sender, holding nothing, is debited nothing, and the collector is still paid the base fee of
the 21000 gas used -/
theorem noBaseFee_unpaid_burn :
    zeroPricedTx.asMessage (.london 1) (some 1) = some zeroPricedMsg ∧
      noBaseFeeEvm.GasBounded ∧ noBaseFeeEvm.context.baseFee = some 1 ∧
      noBaseFeeEvm.chainRules.isLondon = true ∧
      noBaseFeeEvm.chainRules.isEip1559FeeCollector = true ∧
      noBaseFeeEvm.chainConfig.parlia = false ∧ noBaseFeeEvm.noBaseFee = true ∧
      (applyMessage sampleState noBaseFeeEvm zeroPricedMsg (sampleWorld 0) 30000000 true
          false).map feesAndBalances =
        .ok ([.sub sampleFrom 0, .add sampleFrom 0, .add sampleCoinbase 0,
          .add sampleCollector 21000], 0, 0, 0, 21000) :=
  ⟨rfl, sampleEvm_gasBounded false, rfl, rfl, rfl, rfl, rfl, rfl⟩

/-- `21000 + 2400 + 1900 * wrapKeys` is a multiple of `2^64` -/
def wrapKeys : Nat := 1699042217315353426

/-- one address with `wrapKeys` storage keys -/
def wrapAccessList : AccessList := [⟨sampleTo, List.replicate wrapKeys 0⟩]

/-- the access-list part of `IntrinsicGas` is added unguarded, so it wraps to zero -/
theorem intrinsicGas_wrapAccessList :
    intrinsicGas [] wrapAccessList false true true true = .ok 0 := by
  have hkeys : wrapAccessList.storageKeyCount = wrapKeys := by
    simp [AccessList.storageKeyCount, wrapAccessList]
  simp only [intrinsicGas, intrinsicDataGas, hkeys]
  decide

/-- `2^255`, half the range of a word -/
def wrapFee : U256 := 0x8000000000000000000000000000000000000000000000000000000000000000

/-- base fee `2^255`, and a call that uses all the gas it is given -/
def wrapEvm : Evm SampleWorld :=
  { sampleEvm false with
    context := { (sampleEvm false).context with baseFee := some wrapFee }
    call := fun w _ _ _ _ _ _ => ⟨w, [], 0, none⟩ }

theorem wrapEvm_gasBounded : wrapEvm.GasBounded :=
  ⟨fun _ _ _ _ _ _ _ => UInt64.zero_le, fun _ _ _ _ _ => UInt64.le_refl _⟩

/-- one gas at a tip of `2^255` and the largest fee cap, with `wrapAccessList` -/
def wrapTx : Transaction :=
  ⟨.dynamicFee
    { chainID := 1, nonce := 0, gasTipCap := wrapFee, gasFeeCap := BitVec.allOnes 256,
      gas := 1,
      toAddr := some sampleTo, fromAddr := some sampleFrom, value := 0, data := [],
      accessList := wrapAccessList, sign := [], v := some 0, r := some 0, s := some 0 }⟩

/-- its price `min(2^255 + 2^255, feeCap)` wraps to zero -/
def wrapMsg : Message :=
  { sampleMsg with
    gasLimit := 1
    gasPrice := 0
    feeCap := BitVec.allOnes 256
    tip := wrapFee
    accessList := wrapAccessList }

/-- **The size bound is needed.**  With `wrapAccessList` the intrinsic gas wraps to zero, so a
message of one gas passes; its price wraps to zero too, and the sender, debited nothing, pays
the coinbase `2^255 - 1` and the collector `2^255` for the one gas the call uses -/
theorem size_unbounded_unpaid_fees :
    wrapTx.asMessage (.london 1) (some wrapFee) = some wrapMsg ∧
      wrapEvm.GasBounded ∧ wrapEvm.context.baseFee = some wrapFee ∧
      wrapEvm.chainRules.isLondon = true ∧ wrapEvm.chainRules.isEip1559FeeCollector = true ∧
      wrapEvm.chainConfig.parlia = false ∧ wrapEvm.noBaseFee = false ∧
      (applyMessage sampleState wrapEvm wrapMsg (sampleWorld (BitVec.allOnes 256)) 30000000 true
          false).map feesAndBalances =
        .ok ([.sub sampleFrom 0, .add sampleFrom 0, .add sampleCoinbase (wrapFee - 1),
          .add sampleCollector wrapFee], BitVec.allOnes 256, wrapFee - 1, 0, wrapFee) := by
  refine ⟨rfl, wrapEvm_gasBounded, rfl, rfl, rfl, rfl, rfl, ?_⟩
  have hi : intrinsicGas wrapMsg.data wrapMsg.accessList wrapMsg.toAddr.isNone
      wrapEvm.chainRules.isHomestead wrapEvm.chainRules.isIstanbul
      wrapEvm.chainRules.isShanghai = .ok 0 := intrinsicGas_wrapAccessList
  simp only [applyMessage, transitionDb, execute, hi]
  decide +kernel
/-- the sample transaction carries no signature (`R = S = 0`), so the signer of its block
recovers no sender from it; its message still executes as the account its `From` field names,
which pays for the gas -/
theorem unsigned_sampleTx_executes (ecrecover : Hash → U256 → U256 → Nat → Option Address)
    (sigHash : SigHashInput → Hash) :
    (∀ a, Signer.sender ecrecover sigHash (makeSigner (sampleConfig false) 1) sampleTx ≠ .ok a) ∧
      sampleTx.asMessage (makeSigner (sampleConfig false) 1) (some 1) = some sampleMsg ∧
      sampleMsg.fromAddr = sampleFrom ∧
      (applyMessage sampleState (sampleEvm false) { sampleMsg with checkNonce := true }
          (sampleWorld 1000000) 30000000 true false).map feesAndBalances =
        .ok ([.sub sampleFrom 42000, .add sampleFrom 0, .add sampleCoinbase 21000,
          .add sampleCollector 21000], 958000, 21000, 0, 21000) :=
  ⟨sender_ne_ok_of_zero_r ecrecover sigHash rfl _, rfl, rfl, rfl⟩

end N42

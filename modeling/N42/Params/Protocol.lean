import N42.Common.Types

/-!
# (key: protocol) Gas constants of `protocol_params.go`

The transaction, storage and block gas schedule the modelled code reads, as the `uint64`
constants of the source.
-/

namespace N42

/-! ## transaction gas -/

def txGas : UInt64 := 21000
def txGasContractCreation : UInt64 := 53000
def txDataZeroGas : UInt64 := 4
def txDataNonZeroGasFrontier : UInt64 := 68
def txDataNonZeroGasEIP2028 : UInt64 := 16
def initCodeWordGas : UInt64 := 2
def txAccessListAddressGas : UInt64 := 2400
def txAccessListStorageKeyGas : UInt64 := 1900

/-- the refund cap before EIP-3529: half of the gas used -/
def refundQuotient : UInt64 := 2
/-- the refund cap from EIP-3529 on: a fifth of the gas used -/
def refundQuotientEIP3529 : UInt64 := 5

/-! ## storage gas -/

def sloadGasEIP2200 : UInt64 := 800
def sstoreSentryGasEIP2200 : UInt64 := 2300
def sstoreSetGasEIP2200 : UInt64 := 20000
def sstoreResetGasEIP2200 : UInt64 := 5000
def sstoreClearsScheduleRefundEIP2200 : UInt64 := 15000
def coldAccountAccessCostEIP2929 : UInt64 := 2600
def coldSloadCostEIP2929 : UInt64 := 2100
def warmStorageReadCostEIP2929 : UInt64 := 100
/-- `SstoreResetGasEIP2200 - ColdSloadCostEIP2929 + TxAccessListStorageKeyGas` -/
def sstoreClearsScheduleRefundEIP3529 : UInt64 :=
  sstoreResetGasEIP2200 - coldSloadCostEIP2929 + txAccessListStorageKeyGas

/-- refunded following a selfdestruct, before EIP-3529 -/
def selfdestructRefundGas : UInt64 := 24000

/-- `emptyCodeHash = crypto.Keccak256Hash(nil)` -/
def emptyCodeHash : Hash :=
  BitVec.ofNat 256 0xc5d2460186f7233c927e7db2dcc703c0e500b653ca82273b7bfad8045d85a470

/-! ## block gas -/

/-- bounds the gas limit of an EIP-1559 block against its target -/
def elasticityMultiplier : UInt64 := 2
/-- bounds the change of the base fee between two blocks -/
def baseFeeChangeDenominator : UInt64 := 8
/-- the base fee of the first EIP-1559 block -/
def initialBaseFee : UInt64 := 1000000000
/-- `GasLimitBoundDivisor`, a variable of the package that only `ApplyBinanceSmartChainParams`
sets (to 256) -/
def gasLimitBoundDivisor : UInt64 := 1024
def minGasLimit : UInt64 := 5000

/-- `math.MaxUint64` -/
def maxUint64 : UInt64 := 0xffffffffffffffff

end N42

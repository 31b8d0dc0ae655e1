import N42.Common.Types

/-!
# (key: transaction) The three transaction variants and their accessors

`common/transaction`: a `Transaction` wraps one `TxData` (`LegacyTx`, `AccessListTx`,
`DynamicFeeTx`); the hash, size and sender caches of the Go struct only memoize what these
fields give and are left out.

The pointer fields that every constructed transaction carries (`NewTx` copies them into fresh
words, the protobuf decoder always fills them) are plain words; `To`, `From` and the signature
values `V`, `R`, `S` stay optional because code branches on their `nil`.

* the accessors `txType`, `gasPrice`, `gasTipCap`, `gasFeeCap`, ... as the per-variant methods
  compute them (a legacy or access-list transaction reports its gas price as tip and fee cap);
* `Transaction.cost`        `Cost()`: `gasPrice * gas + value`, wrapping;
* `Transaction.effectiveGasTip`   `EffectiveGasTip`, with `uint256Min` exactly as written;
* `HashInput`, `Transaction.hash`   the field list `hash()` RLP-encodes: neither `From` nor
                            `Sign` is in it; the keccak of its encoding is a parameter;
* `Transaction.setFrom`     `SetFrom`, and what it leaves alone.
-/

set_option linter.unusedSectionVars false
set_option linter.unusedVariables false

namespace N42

/-- an element of an EIP-2930 access list -/
structure AccessTuple where
  address : Address
  storageKeys : List Hash
deriving DecidableEq, Repr

abbrev AccessList := List AccessTuple

/-- `AccessList.StorageKeys()` -/
def AccessList.storageKeyCount (al : AccessList) : Nat :=
  (al.map fun t => t.storageKeys.length).sum

/-- `LegacyTx` -/
structure LegacyTx where
  nonce : UInt64
  gasPrice : U256
  gas : UInt64
  toAddr : Option Address
  fromAddr : Option Address
  value : U256
  data : List UInt8
  v : Option U256
  r : Option U256
  s : Option U256
  sign : List UInt8
deriving DecidableEq, Repr

/-- `AccessListTx` -/
structure AccessListTx where
  chainID : U256
  nonce : UInt64
  gasPrice : U256
  gas : UInt64
  toAddr : Option Address
  fromAddr : Option Address
  value : U256
  data : List UInt8
  accessList : AccessList
  sign : List UInt8
  v : Option U256
  r : Option U256
  s : Option U256
deriving DecidableEq, Repr

/-- `DynamicFeeTx` -/
structure DynamicFeeTx where
  chainID : U256
  nonce : UInt64
  gasTipCap : U256
  gasFeeCap : U256
  gas : UInt64
  toAddr : Option Address
  fromAddr : Option Address
  value : U256
  data : List UInt8
  accessList : AccessList
  sign : List UInt8
  v : Option U256
  r : Option U256
  s : Option U256
deriving DecidableEq, Repr

/-- the `TxData` interface, one constructor per implementation -/
inductive TxData where
  | legacy (t : LegacyTx)
  | accessList (t : AccessListTx)
  | dynamicFee (t : DynamicFeeTx)
deriving DecidableEq, Repr

/-- `LegacyTxType`, `AccessListTxType`, `DynamicFeeTxType` -/
def legacyTxType : UInt8 := 0
def accessListTxType : UInt8 := 1
def dynamicFeeTxType : UInt8 := 2

/-- `transaction.Transaction` -/
structure Transaction where
  inner : TxData
deriving DecidableEq, Repr

/-- `DeriveChainId`: the chain id a legacy `V` encodes (EIP-155), in the word arithmetic of
the source: `(v - 35) / 2` wraps in `uint64` when `v` fits there -/
def deriveChainId (v : U256) : U256 :=
  if v.toNat < 2 ^ 64 then
    if v.toNat = 27 ∨ v.toNat = 28 then 0
    else BitVec.ofNat 256 (((v.toNat + 2 ^ 64 - 35) % 2 ^ 64) / 2)
  else (v - 35) / 2

namespace Transaction

variable (tx : Transaction)

def txType : UInt8 :=
  match tx.inner with
  | .legacy _ => legacyTxType
  | .accessList _ => accessListTxType
  | .dynamicFee _ => dynamicFeeTxType

/-- `ChainId()`: `none` where the legacy `V` is `nil` and `DeriveChainId` dereferences it -/
def chainId : Option U256 :=
  match tx.inner with
  | .legacy t => t.v.map deriveChainId
  | .accessList t => some t.chainID
  | .dynamicFee t => some t.chainID

def accessList : AccessList :=
  match tx.inner with
  | .legacy _ => []
  | .accessList t => t.accessList
  | .dynamicFee t => t.accessList

def data : List UInt8 :=
  match tx.inner with
  | .legacy t => t.data
  | .accessList t => t.data
  | .dynamicFee t => t.data

def gas : UInt64 :=
  match tx.inner with
  | .legacy t => t.gas
  | .accessList t => t.gas
  | .dynamicFee t => t.gas

/-- `GasPrice()`: the fee cap of a dynamic-fee transaction -/
def gasPrice : U256 :=
  match tx.inner with
  | .legacy t => t.gasPrice
  | .accessList t => t.gasPrice
  | .dynamicFee t => t.gasFeeCap

def gasTipCap : U256 :=
  match tx.inner with
  | .legacy t => t.gasPrice
  | .accessList t => t.gasPrice
  | .dynamicFee t => t.gasTipCap

def gasFeeCap : U256 :=
  match tx.inner with
  | .legacy t => t.gasPrice
  | .accessList t => t.gasPrice
  | .dynamicFee t => t.gasFeeCap

def value : U256 :=
  match tx.inner with
  | .legacy t => t.value
  | .accessList t => t.value
  | .dynamicFee t => t.value

def nonce : UInt64 :=
  match tx.inner with
  | .legacy t => t.nonce
  | .accessList t => t.nonce
  | .dynamicFee t => t.nonce

/-- `To()` -/
def toAddr : Option Address :=
  match tx.inner with
  | .legacy t => t.toAddr
  | .accessList t => t.toAddr
  | .dynamicFee t => t.toAddr

/-- `From()`: the field carried on the wire, not a recovered signer -/
def fromAddr : Option Address :=
  match tx.inner with
  | .legacy t => t.fromAddr
  | .accessList t => t.fromAddr
  | .dynamicFee t => t.fromAddr

def sign : List UInt8 :=
  match tx.inner with
  | .legacy t => t.sign
  | .accessList t => t.sign
  | .dynamicFee t => t.sign

/-- `RawSignatureValues()` -/
def rawSignatureValues : Option U256 × Option U256 × Option U256 :=
  match tx.inner with
  | .legacy t => (t.v, t.r, t.s)
  | .accessList t => (t.v, t.r, t.s)
  | .dynamicFee t => (t.v, t.r, t.s)

/-- `Cost()`: `gasPrice * gas + value`, all in wrapping 256-bit words -/
def cost : U256 := tx.gasPrice * U256.newInt tx.gas + tx.value

/-- `SetFrom(addr)` -/
def setFrom (a : Address) : Transaction :=
  match tx.inner with
  | .legacy t => ⟨.legacy { t with fromAddr := some a }⟩
  | .accessList t => ⟨.accessList { t with fromAddr := some a }⟩
  | .dynamicFee t => ⟨.dynamicFee { t with fromAddr := some a }⟩

end Transaction

/-- `uint256Min` of `transaction.go`, as written: it returns `x` when `x.Cmp(y) == 1`,
that is the larger of the two -/
def uint256Min (x y : U256) : U256 := if U256.cmp x y = 1 then x else y

namespace Transaction

variable (tx : Transaction)

/-- `EffectiveGasTip(baseFee)`: the tip and whether `ErrGasFeeCapTooLow` is reported -/
def effectiveGasTip (baseFee : Option U256) : U256 × Bool :=
  match baseFee with
  | none => (tx.gasTipCap, false)
  | some bf => (uint256Min tx.gasTipCap (tx.gasFeeCap - bf), decide (U256.cmp tx.gasFeeCap bf = -1))

/-- `EffectiveGasTipValue` -/
def effectiveGasTipValue (baseFee : Option U256) : U256 := (tx.effectiveGasTip baseFee).1

/-- `EffectiveGasTipCmp(other, baseFee)`: the tip caps without a base fee -/
def effectiveGasTipCmp (other : Transaction) (baseFee : Option U256) : Int :=
  match baseFee with
  | none => U256.cmp tx.gasTipCap other.gasTipCap
  | some _ => U256.cmp (tx.effectiveGasTipValue baseFee) (other.effectiveGasTipValue baseFee)

/-- `EffectiveGasTipIntCmp(other, baseFee)` -/
def effectiveGasTipIntCmp (other : U256) (baseFee : Option U256) : Int :=
  match baseFee with
  | none => U256.cmp tx.gasTipCap other
  | some _ => U256.cmp (tx.effectiveGasTipValue baseFee) other

end Transaction

/-- the fields `hash()` RLP-encodes, with the type prefix of the typed variants -/
inductive HashInput where
  | legacy (nonce : UInt64) (gasPrice : U256) (gas : UInt64) (toAddr : Option Address)
      (value : U256) (data : List UInt8) (v r s : Option U256)
  | accessList (chainID : U256) (nonce : UInt64) (gasPrice : U256) (gas : UInt64)
      (toAddr : Option Address) (value : U256) (data : List UInt8) (accessList : AccessList)
      (v r s : Option U256)
  | dynamicFee (chainID : U256) (nonce : UInt64) (gasTipCap gasFeeCap : U256) (gas : UInt64)
      (toAddr : Option Address) (value : U256) (data : List UInt8) (accessList : AccessList)
      (v r s : Option U256)
deriving DecidableEq, Repr

namespace Transaction

variable (tx : Transaction)

def hashInput : HashInput :=
  match tx.inner with
  | .legacy t => .legacy t.nonce t.gasPrice t.gas t.toAddr t.value t.data t.v t.r t.s
  | .accessList t => .accessList t.chainID t.nonce t.gasPrice t.gas t.toAddr t.value t.data
      t.accessList t.v t.r t.s
  | .dynamicFee t => .dynamicFee t.chainID t.nonce t.gasTipCap t.gasFeeCap t.gas t.toAddr
      t.value t.data t.accessList t.v t.r t.s

/-- `Hash()`, for a keccak-of-RLP `rlpHash` -/
def hash (rlpHash : HashInput → Hash) : Hash := rlpHash tx.hashInput

@[simp] theorem fromAddr_setFrom (a : Address) : (tx.setFrom a).fromAddr = some a := by
  rcases tx with ⟨_ | _ | _⟩ <;> rfl

/-- `SetFrom` touches nothing the transaction hash covers -/
@[simp] theorem hashInput_setFrom (a : Address) : (tx.setFrom a).hashInput = tx.hashInput := by
  rcases tx with ⟨_ | _ | _⟩ <;> rfl

@[simp] theorem rawSignatureValues_setFrom (a : Address) :
    (tx.setFrom a).rawSignatureValues = tx.rawSignatureValues := by
  rcases tx with ⟨_ | _ | _⟩ <;> rfl

@[simp] theorem txType_setFrom (a : Address) : (tx.setFrom a).txType = tx.txType := by
  rcases tx with ⟨_ | _ | _⟩ <;> rfl

end Transaction

end N42

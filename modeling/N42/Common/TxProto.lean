import N42.Common.Transaction

/-!
# (key: txproto) The protobuf form of a transaction

`ToProtoMessage`, `Marshal`, `txDataFromProtoMessage`, `Unmarshal` and `FromProtoMessage` of
`transaction.go`, over `types_pb.Transaction` and the hand-written limb conversions of
`utils/util.go`.  A protobuf message field is a pointer, so every `H128`, `H160` and `H256` in
a message is optional, and reading through a `nil` one is a panic (`none`).  The protobuf
byte encoding itself is a pair of parameters `pbMarshal`, `pbUnmarshal` over an arbitrary wire
type.

* `convertH256ToUint256Int_convertUint256IntToH256`, `convertH160ToPAddress_convertAddressToH160`
                        the limb conversions are inverse;
* `Transaction.wireNormal`   what survives the wire: the chain id modulo `2^64`, no access
                        list, a zero `To` read as `nil`;
* `unmarshal_marshal`   `Unmarshal(Marshal(tx))` is `tx.wireNormal` when protobuf round-trips,
                        and `wireNormal_eq_self_iff` says when that is `tx` itself;
* `fromProtoMessage_toProtoMessage`   `FromProtoMessage(ToProtoMessage(tx))` is the `copy()` of
                        the wire normal form, which `copy_eq_none_iff` and `sign_of_copy`
                        describe;
* `fromProtoMessage_toProtoMessage_panics_or_drops_sign`   so it panics on a signed access-list
                        transaction and otherwise comes back without its `Sign`.
-/

set_option linter.unusedSectionVars false
set_option linter.unusedVariables false

namespace N42

/-- `types_pb.H128` -/
structure H128 where
  hi : UInt64
  lo : UInt64
deriving DecidableEq, Repr

/-- `types_pb.H160` -/
structure H160 where
  hi : Option H128
  lo : UInt32
deriving DecidableEq, Repr

/-- `types_pb.H256` -/
structure H256 where
  hi : Option H128
  lo : Option H128
deriving DecidableEq, Repr

/-- `types_pb.Transaction` -/
structure PbTransaction where
  type : UInt64
  nonce : UInt64
  gasPrice : Option H256
  gas : UInt64
  feePerGas : Option H256
  priorityFeePerGas : Option H256
  value : Option H256
  data : List UInt8
  sign : List UInt8
  toAddr : Option H160
  fromAddr : Option H160
  chainID : UInt64
  hash : Option H256
  r : Option H256
  s : Option H256
  v : Option H256
deriving DecidableEq, Repr

/-- the message every field of which is at its zero value, as `var pbTx types_pb.Transaction` -/
def PbTransaction.empty : PbTransaction :=
  ⟨0, 0, none, 0, none, none, none, [], [], none, none, 0, none, none, none, none⟩

/-! ## limbs -/

/-- word `k` of the little-endian `[4]uint64` array of a `uint256.Int` -/
def limb (x : U256) (k : Nat) : UInt64 := ((x.toNat / 2 ^ (64 * k)) % 2 ^ 64).toUInt64

/-- the `uint256.Int` with words `i[3] i[2] i[1] i[0]` -/
def ofLimbs (i3 i2 i1 i0 : UInt64) : U256 :=
  BitVec.ofNat 256 (i3.toNat * 2 ^ 192 + i2.toNat * 2 ^ 128 + i1.toNat * 2 ^ 64 + i0.toNat)

/-- `ConvertUint256IntToH256` -/
def convertUint256IntToH256 (i : U256) : H256 :=
  { lo := some ⟨limb i 1, limb i 0⟩, hi := some ⟨limb i 3, limb i 2⟩ }

/-- `ConvertH256ToUint256Int`; a `nil` half is a panic -/
def convertH256ToUint256Int (h : H256) : Option U256 :=
  match h.hi, h.lo with
  | some hi, some lo => some (ofLimbs hi.hi hi.lo lo.hi lo.lo)
  | _, _ => none

/-- `ConvertHashToH256`: the big-endian words of the hash are the words of its value -/
def convertHashToH256 (h : Hash) : H256 := convertUint256IntToH256 h

/-- `ConvertH256ToHash`: a `nil` message is the zero hash -/
def convertH256ToHash : Option H256 → Option Hash
  | none => some 0
  | some h => convertH256ToUint256Int h

/-- `ConvertAddressToH160`: the first sixteen bytes in `Hi`, the last four in `Lo` -/
def convertAddressToH160 (a : Address) : H160 :=
  { lo := (a.toNat % 2 ^ 32).toUInt32,
    hi := some ⟨((a.toNat / 2 ^ 96) % 2 ^ 64).toUInt64, ((a.toNat / 2 ^ 32) % 2 ^ 64).toUInt64⟩ }

/-- `ConvertH160ToPAddress` -/
def convertH160ToPAddress (h : H160) : Option Address :=
  h.hi.map fun hi => BitVec.ofNat 160 (hi.hi.toNat * 2 ^ 96 + hi.lo.toNat * 2 ^ 32 + h.lo.toNat)

theorem ofLimbs_limbs (x : U256) :
    ofLimbs (limb x 3) (limb x 2) (limb x 1) (limb x 0) = x := by
  apply BitVec.eq_of_toNat_eq
  have hx := x.isLt
  simp only [ofLimbs, limb, BitVec.toNat_ofNat, Nat.toUInt64_eq, UInt64.toNat_ofNat',
    Nat.reducePow, Nat.reduceMul, Nat.pow_zero, Nat.div_one]
  omega

@[simp] theorem convertH256ToUint256Int_convertUint256IntToH256 (x : U256) :
    convertH256ToUint256Int (convertUint256IntToH256 x) = some x := by
  simp only [convertH256ToUint256Int, convertUint256IntToH256, ofLimbs_limbs]

@[simp] theorem convertH160ToPAddress_convertAddressToH160 (a : Address) :
    convertH160ToPAddress (convertAddressToH160 a) = some a := by
  simp only [convertH160ToPAddress, convertAddressToH160, Option.map_some, Option.some.injEq]
  apply BitVec.eq_of_toNat_eq
  have ha := a.isLt
  simp only [BitVec.toNat_ofNat, Nat.toUInt64_eq, UInt64.toNat_ofNat', Nat.toUInt32_eq,
    UInt32.toNat_ofNat', Nat.reducePow]
  omega

/-! ## encoding -/

/-- the message `Marshal` and `ToProtoMessage` both build, before `ToProtoMessage` adds the
hash; `*tx.From()` on a transaction without `From` is a panic -/
def Transaction.toPbCore (tx : Transaction) : Option PbTransaction :=
  tx.fromAddr.map fun f =>
    let pb := { PbTransaction.empty with type := tx.txType.toUInt64 }
    let pb := match tx.inner with
      | .accessList t =>
        { pb with chainID := limb t.chainID 0, nonce := tx.nonce, gas := tx.gas,
                  gasPrice := some (convertUint256IntToH256 tx.gasPrice),
                  value := some (convertUint256IntToH256 tx.value), data := tx.data,
                  fromAddr := some (convertAddressToH160 f), sign := t.sign }
      | .legacy t =>
        { pb with nonce := tx.nonce, gas := tx.gas,
                  gasPrice := some (convertUint256IntToH256 tx.gasPrice),
                  value := some (convertUint256IntToH256 tx.value), data := tx.data,
                  fromAddr := some (convertAddressToH160 f), sign := t.sign }
      | .dynamicFee t =>
        { pb with chainID := limb t.chainID 0, nonce := tx.nonce, gas := tx.gas,
                  gasPrice := some (convertUint256IntToH256 tx.gasPrice),
                  value := some (convertUint256IntToH256 tx.value), data := tx.data,
                  fromAddr := some (convertAddressToH160 f), sign := t.sign,
                  feePerGas := some (convertUint256IntToH256 t.gasFeeCap),
                  priorityFeePerGas := some (convertUint256IntToH256 t.gasTipCap) }
    let pb := match tx.toAddr with
      | some a => { pb with toAddr := some (convertAddressToH160 a) }
      | none => pb
    { pb with v := tx.rawSignatureValues.1.map convertUint256IntToH256,
              r := tx.rawSignatureValues.2.1.map convertUint256IntToH256,
              s := tx.rawSignatureValues.2.2.map convertUint256IntToH256 }

/-- `Marshal()`, for a protobuf encoder `pbMarshal` into wire values of type `W` -/
def Transaction.marshal {W : Type} (pbMarshal : PbTransaction → W) (tx : Transaction) :
    Option W :=
  tx.toPbCore.map pbMarshal

/-- `ToProtoMessage()`, for a keccak-of-RLP `rlpHash` -/
def Transaction.toProtoMessage (rlpHash : HashInput → Hash) (tx : Transaction) :
    Option PbTransaction :=
  tx.toPbCore.map fun pb => { pb with hash := some (convertHashToH256 (tx.hash rlpHash)) }

/-! ## decoding -/

/-- a word that must be there: `ConvertH256ToUint256Int(nil)` panics -/
def decodeU256 : Option H256 → Option U256
  | some h => convertH256ToUint256Int h
  | none => none

/-- `if nil != pbTx.V { ... }`: an optional word -/
def decodeOptU256 : Option H256 → Option (Option U256)
  | some h => (convertH256ToUint256Int h).map some
  | none => some none

/-- the recipient: absent stays `nil`, and the zero address is read as `nil` too -/
def decodeTo : Option H160 → Option (Option Address)
  | some h => (convertH160ToPAddress h).map fun a => if a = 0 then none else some a
  | none => some none

/-- the sender, which must be there -/
def decodeFrom : Option H160 → Option Address
  | some h => convertH160ToPAddress h
  | none => none

/-- `txDataFromProtoMessage`; an unknown type leaves `inner` `nil`, and `inner.hash()` panics.
The comparison with the message's `Hash` is commented out, but converting it may still panic -/
def txDataFromProtoMessage (pb : PbTransaction) : Option TxData := do
  let inner ← match pb.type with
    | 0 => do
      let toAddr ← decodeTo pb.toAddr
      let fromAddr ← decodeFrom pb.fromAddr
      let gasPrice ← decodeU256 pb.gasPrice
      let value ← decodeU256 pb.value
      let v ← decodeOptU256 pb.v
      let r ← decodeOptU256 pb.r
      let s ← decodeOptU256 pb.s
      pure (TxData.legacy
        { nonce := pb.nonce, gasPrice, gas := pb.gas, toAddr, fromAddr := some fromAddr, value,
          data := pb.data, v, r, s, sign := pb.sign })
    | 1 => do
      let gasPrice ← decodeU256 pb.gasPrice
      let value ← decodeU256 pb.value
      let v ← decodeOptU256 pb.v
      let r ← decodeOptU256 pb.r
      let s ← decodeOptU256 pb.s
      let toAddr ← decodeTo pb.toAddr
      let fromAddr ← decodeFrom pb.fromAddr
      pure (TxData.accessList
        { chainID := U256.newInt pb.chainID, nonce := pb.nonce, gasPrice, gas := pb.gas, toAddr,
          fromAddr := some fromAddr, value, data := pb.data, accessList := [], sign := pb.sign,
          v, r, s })
    | 2 => do
      let gasFeeCap ← decodeU256 pb.feePerGas
      let gasTipCap ← decodeU256 pb.priorityFeePerGas
      let value ← decodeU256 pb.value
      let v ← decodeOptU256 pb.v
      let r ← decodeOptU256 pb.r
      let s ← decodeOptU256 pb.s
      let toAddr ← decodeTo pb.toAddr
      let fromAddr ← decodeFrom pb.fromAddr
      pure (TxData.dynamicFee
        { chainID := U256.newInt pb.chainID, nonce := pb.nonce, gasTipCap, gasFeeCap,
          gas := pb.gas, toAddr, fromAddr := some fromAddr, value, data := pb.data,
          accessList := [], sign := pb.sign, v, r, s })
    | _ => none
  let _ ← convertH256ToHash pb.hash
  pure inner

/-- why decoding failed: `proto.Unmarshal` rejected the bytes, or a `nil` was dereferenced -/
inductive DecodeError where
  | proto
  | panic
deriving DecidableEq, Repr

/-- `Unmarshal(data)`, for a protobuf decoder `pbUnmarshal` -/
def unmarshal {W : Type} (pbUnmarshal : W → Option PbTransaction) (data : W) :
    Except DecodeError Transaction :=
  match pbUnmarshal data with
  | none => .error .proto
  | some pb =>
    match txDataFromProtoMessage pb with
    | some inner => .ok ⟨inner⟩
    | none => .error .panic

/-- the `copy()` `NewTx` applies.  `Sign` is copied into a `nil` slice and so comes back empty;
the legacy and dynamic-fee copies allocate `V`, `R` and `S`, so a `nil` one comes back zero;
the access-list copy allocates none of them, and setting one is a panic -/
def TxData.copy : TxData → Option TxData
  | .legacy t => some (.legacy
      { t with v := some (t.v.getD 0), r := some (t.r.getD 0), s := some (t.s.getD 0),
               sign := [] })
  | .accessList t =>
    if t.v.isSome || t.r.isSome || t.s.isSome then none else some (.accessList { t with sign := [] })
  | .dynamicFee t => some (.dynamicFee
      { t with v := some (t.v.getD 0), r := some (t.r.getD 0), s := some (t.s.getD 0),
               sign := [] })

/-- `FromProtoMessage(message)` -/
def fromProtoMessage (pb : PbTransaction) : Option Transaction := do
  let inner ← txDataFromProtoMessage pb
  let inner ← inner.copy
  pure ⟨inner⟩

/-! ## the round trip -/

/-- the recipient as the wire gives it back: the zero address comes back as `nil` -/
def wireTo (o : Option Address) : Option Address :=
  o.bind fun a => if a = 0 then none else some a

/-- the chain id of a typed transaction fits the `uint64` of the message -/
def Transaction.ChainIdFits (tx : Transaction) : Prop :=
  match tx.inner with
  | .legacy _ => True
  | .accessList t => t.chainID.toNat < 2 ^ 64
  | .dynamicFee t => t.chainID.toNat < 2 ^ 64

/-- a chain id as the message gives it back: `t.ChainID.Uint64()`, the low 64 bits -/
def chainIdOnWire (c : U256) : U256 := BitVec.ofNat 256 (c.toNat % 2 ^ 64)

/-- what survives `Marshal` and `Unmarshal`: the chain id modulo `2^64`, no access list, and a
zero recipient read as a contract creation -/
def Transaction.wireNormal (tx : Transaction) : Transaction :=
  match tx.inner with
  | .legacy t => ⟨.legacy { t with toAddr := wireTo t.toAddr }⟩
  | .accessList t => ⟨.accessList
      { t with chainID := chainIdOnWire t.chainID, toAddr := wireTo t.toAddr, accessList := [] }⟩
  | .dynamicFee t => ⟨.dynamicFee
      { t with chainID := chainIdOnWire t.chainID, toAddr := wireTo t.toAddr, accessList := [] }⟩

@[simp] theorem decodeU256_some (x : U256) :
    decodeU256 (some (convertUint256IntToH256 x)) = some x := by
  simp only [decodeU256, convertH256ToUint256Int_convertUint256IntToH256]

@[simp] theorem decodeOptU256_map (o : Option U256) :
    decodeOptU256 (o.map convertUint256IntToH256) = some o := by
  cases o <;> simp [decodeOptU256]

@[simp] theorem decodeTo_map (o : Option Address) :
    decodeTo (o.map convertAddressToH160) = some (wireTo o) := by
  cases o <;> simp [decodeTo, wireTo]

@[simp] theorem decodeFrom_some (a : Address) :
    decodeFrom (some (convertAddressToH160 a)) = some a := by
  simp only [decodeFrom, convertH160ToPAddress_convertAddressToH160]

@[simp] theorem newInt_limb_zero (x : U256) : U256.newInt (limb x 0) = chainIdOnWire x := by
  simp only [U256.newInt, limb, chainIdOnWire, Nat.toUInt64_eq, UInt64.toNat_ofNat',
    Nat.mul_zero, Nat.pow_zero, Nat.div_one, Nat.mod_mod]

@[simp] theorem convertH256ToHash_some (h : Hash) :
    convertH256ToHash (some (convertHashToH256 h)) = some h := by
  simp only [convertH256ToHash, convertHashToH256,
    convertH256ToUint256Int_convertUint256IntToH256]

/-- the recipient field of the message: set exactly when the transaction has one -/
theorem toAddr_match (pb : PbTransaction) (o : Option Address) :
    (match o with
      | some a => { pb with toAddr := some (convertAddressToH160 a) }
      | none => pb).toAddr = (o.map convertAddressToH160).or pb.toAddr := by
  cases o <;> rfl

/-- **Decoding the message of a transaction with a sender gives its wire normal form**, whatever
hash the message carries, as long as the hash converts. -/
theorem txDataFromProtoMessage_toPbCore {tx : Transaction} {f : Address}
    (hf : tx.fromAddr = some f) {h : Option H256} (hh : (convertH256ToHash h).isSome) :
    ∃ pb, tx.toPbCore = some pb ∧ pb.hash = none ∧
      txDataFromProtoMessage { pb with hash := h } = some tx.wireNormal.inner := by
  obtain ⟨hv, hhv⟩ := Option.isSome_iff_exists.mp hh
  obtain ⟨inner⟩ := tx
  -- the three variants differ only in which fields the message carries
  cases inner with
  | legacy t | accessList t | dynamicFee t =>
    simp only [Transaction.fromAddr] at hf
    simp only [Transaction.toPbCore, Transaction.fromAddr, hf, Option.map_some,
      Option.some.injEq, exists_eq_left']
    cases hto : t.toAddr <;>
      simp [hto, hhv, hf, Transaction.wireNormal, Transaction.toAddr,
        Transaction.rawSignatureValues, txDataFromProtoMessage, Transaction.txType, legacyTxType,
        accessListTxType, dynamicFeeTxType, PbTransaction.empty, Transaction.nonce,
        Transaction.gas, Transaction.gasPrice, Transaction.value, Transaction.data, decodeTo,
        wireTo]

theorem wireTo_eq_self_iff (o : Option Address) : wireTo o = o ↔ o ≠ some 0 := by
  cases o with
  | none => simp [wireTo]
  | some a => by_cases ha : a = 0 <;> simp [wireTo, ha]

theorem chainIdOnWire_eq_self_iff (x : U256) : chainIdOnWire x = x ↔ x.toNat < 2 ^ 64 := by
  rw [chainIdOnWire, ← BitVec.toNat_inj, BitVec.toNat_ofNat]
  have hx := x.isLt
  constructor
  · intro h
    omega
  · intro h
    omega

/-- a transaction is its own wire normal form exactly when it has no access list, its recipient
is not the zero address and its chain id fits -/
theorem wireNormal_eq_self_iff (tx : Transaction) :
    tx.wireNormal = tx ↔ tx.accessList = [] ∧ tx.toAddr ≠ some 0 ∧ tx.ChainIdFits := by
  obtain ⟨inner⟩ := tx
  cases inner with
  | legacy t =>
    cases t
    simp [Transaction.wireNormal, Transaction.accessList, Transaction.toAddr,
      Transaction.ChainIdFits, wireTo_eq_self_iff]
  | accessList t =>
    cases t
    simp [Transaction.wireNormal, Transaction.accessList, Transaction.toAddr,
      Transaction.ChainIdFits, wireTo_eq_self_iff, chainIdOnWire_eq_self_iff]
    tauto
  | dynamicFee t =>
    cases t
    simp [Transaction.wireNormal, Transaction.accessList, Transaction.toAddr,
      Transaction.ChainIdFits, wireTo_eq_self_iff, chainIdOnWire_eq_self_iff]
    tauto

/-- **The wire round trip.**  When the protobuf coding round-trips, `Unmarshal(Marshal(tx))` of
a transaction with a sender succeeds and gives its wire normal form, which is the transaction
itself exactly when it has no access list, no zero recipient and a chain id that fits. -/
theorem unmarshal_marshal {W : Type} {pbMarshal : PbTransaction → W}
    {pbUnmarshal : W → Option PbTransaction} (hpb : ∀ m, pbUnmarshal (pbMarshal m) = some m)
    {tx : Transaction} {f : Address} (hf : tx.fromAddr = some f) :
    ∃ w, tx.marshal pbMarshal = some w ∧ unmarshal pbUnmarshal w = .ok tx.wireNormal ∧
      (tx.wireNormal = tx ↔ tx.accessList = [] ∧ tx.toAddr ≠ some 0 ∧ tx.ChainIdFits) := by
  obtain ⟨pb, hcore, hnone, hdec⟩ := txDataFromProtoMessage_toPbCore hf (h := none) rfl
  have hpb_eq : { pb with hash := none } = pb := by rw [← hnone]
  rw [hpb_eq] at hdec
  refine ⟨pbMarshal pb, by rw [Transaction.marshal, hcore, Option.map_some], ?_,
    wireNormal_eq_self_iff tx⟩
  simp only [unmarshal, hpb, hdec]

/-- a dynamic-fee transaction to the zero address with a one-entry access list -/
def wireSampleTx : Transaction :=
  ⟨.dynamicFee
    { chainID := 1, nonce := 0, gasTipCap := 1, gasFeeCap := 2, gas := 30000,
      toAddr := some 0, fromAddr := some 0xa11ce, value := 0, data := [],
      accessList := [⟨0xb0b, [0]⟩], sign := [], v := some 0, r := some 1, s := some 1 }⟩

theorem wireSampleTx_roundTrip :
    ∃ w, wireSampleTx.marshal id = some w ∧ unmarshal some w = .ok wireSampleTx.wireNormal ∧
      (wireSampleTx.wireNormal = wireSampleTx ↔ wireSampleTx.accessList = [] ∧
        wireSampleTx.toAddr ≠ some 0 ∧ wireSampleTx.ChainIdFits) :=
  unmarshal_marshal (fun _ => rfl) rfl

/-- through the identity protobuf coding the sample comes back without its access list and as a
contract creation, so with a different hash input -/
example :
    (wireSampleTx.marshal id).map (unmarshal some) = some (.ok wireSampleTx.wireNormal) ∧
      wireSampleTx.accessList = [⟨0xb0b, [0]⟩] ∧ wireSampleTx.wireNormal.accessList = [] ∧
      wireSampleTx.toAddr = some 0 ∧ wireSampleTx.wireNormal.toAddr = none ∧
      wireSampleTx.wireNormal.hashInput ≠ wireSampleTx.hashInput :=
  ⟨rfl, rfl, rfl, rfl, rfl, by decide⟩

/-- `ToProtoMessage` then `txDataFromProtoMessage` gives the same wire normal form: the hash
the message carries converts, and is not compared -/
theorem txDataFromProtoMessage_toProtoMessage (rlpHash : HashInput → Hash) {tx : Transaction}
    {f : Address} (hf : tx.fromAddr = some f) :
    ∃ pb, tx.toProtoMessage rlpHash = some pb ∧
      txDataFromProtoMessage pb = some tx.wireNormal.inner := by
  obtain ⟨pb, hcore, -, hdec⟩ := txDataFromProtoMessage_toPbCore hf
    (h := some (convertHashToH256 (tx.hash rlpHash))) (by simp)
  exact ⟨_, by rw [Transaction.toProtoMessage, hcore, Option.map_some], hdec⟩

/-- the `copy()` of `NewTx` fails exactly on an access-list transaction with a signature value -/
theorem copy_eq_none_iff (inner : TxData) :
    inner.copy = none ↔ ∃ t, inner = .accessList t ∧ (t.v.isSome || t.r.isSome || t.s.isSome) := by
  cases inner with
  | legacy t => simp [TxData.copy]
  | accessList t => by_cases h : (t.v.isSome || t.r.isSome || t.s.isSome) <;> simp_all [TxData.copy]
  | dynamicFee t => simp [TxData.copy]

/-- and a copy that succeeds has lost its `Sign` -/
theorem sign_of_copy {inner c : TxData} (h : inner.copy = some c) : (Transaction.mk c).sign = [] := by
  cases inner with
  | legacy t =>
    simp only [TxData.copy, Option.some.injEq] at h
    rw [← h]
    rfl
  | accessList t =>
    by_cases hs : (t.v.isSome || t.r.isSome || t.s.isSome)
    · simp [TxData.copy, hs] at h
    · simp only [TxData.copy, hs, if_false, Option.some.injEq, Bool.false_eq_true] at h
      rw [← h]
      rfl
  | dynamicFee t =>
    simp only [TxData.copy, Option.some.injEq] at h
    rw [← h]
    rfl

/-- `FromProtoMessage(ToProtoMessage(tx))` is the `copy()` of the wire normal form -/
theorem fromProtoMessage_toProtoMessage (rlpHash : HashInput → Hash) {tx : Transaction}
    {f : Address} (hf : tx.fromAddr = some f) :
    ∃ pb, tx.toProtoMessage rlpHash = some pb ∧
      fromProtoMessage pb = tx.wireNormal.inner.copy.map Transaction.mk := by
  obtain ⟨pb, hpb, hdec⟩ := txDataFromProtoMessage_toProtoMessage rlpHash hf
  refine ⟨pb, hpb, ?_⟩
  simp only [fromProtoMessage, hdec, Option.bind_eq_bind, Option.bind_some]
  cases tx.wireNormal.inner.copy <;> rfl

/-- the wire normal form keeps the type and the signature values -/
theorem wireNormal_accessList_iff (tx : Transaction) :
    (∃ t, tx.wireNormal.inner = .accessList t ∧ (t.v.isSome || t.r.isSome || t.s.isSome)) ↔
      ∃ t, tx.inner = .accessList t ∧ (t.v.isSome || t.r.isSome || t.s.isSome) := by
  rcases tx with ⟨inner⟩
  cases inner with
  | legacy t => simp [Transaction.wireNormal]
  | accessList t => simp [Transaction.wireNormal]
  | dynamicFee t => simp [Transaction.wireNormal]

/-- **`FromProtoMessage(ToProtoMessage(tx))` is not a round trip.**  For a transaction with a
sender, the `copy()` of `NewTx` panics exactly on an access-list transaction with a signature
value, as that copy leaves `V`, `R` and `S` unallocated; and every copy that succeeds has an
empty `Sign`, copied into a `nil` slice -/
theorem fromProtoMessage_toProtoMessage_panics_or_drops_sign (rlpHash : HashInput → Hash)
    {tx : Transaction} {f : Address} (hf : tx.fromAddr = some f) :
    ∃ pb, tx.toProtoMessage rlpHash = some pb ∧
      (fromProtoMessage pb = none ↔
        ∃ t, tx.inner = .accessList t ∧ (t.v.isSome || t.r.isSome || t.s.isSome)) ∧
      ∀ tx', fromProtoMessage pb = some tx' → tx'.sign = [] := by
  obtain ⟨pb, hpb, hfrom⟩ := fromProtoMessage_toProtoMessage rlpHash hf
  refine ⟨pb, hpb, ?_, fun tx' h => ?_⟩
  · rw [hfrom, Option.map_eq_none_iff, copy_eq_none_iff, wireNormal_accessList_iff]
  · rw [hfrom] at h
    obtain ⟨c, hc, rfl⟩ := Option.map_eq_some_iff.mp h
    exact sign_of_copy hc

/-- a signed access-list transaction -/
def signedAccessListTx : Transaction :=
  ⟨.accessList
    { chainID := 1, nonce := 0, gasPrice := 1, gas := 21000, toAddr := some 0xb0b,
      fromAddr := some 0xa11ce, value := 0, data := [], accessList := [], sign := [0xab],
      v := some 1, r := some 1, s := some 1 }⟩

/-- a signed dynamic-fee transaction -/
def signedDynamicFeeTx : Transaction :=
  ⟨.dynamicFee
    { chainID := 1, nonce := 0, gasTipCap := 1, gasFeeCap := 2, gas := 21000,
      toAddr := some 0xb0b, fromAddr := some 0xa11ce, value := 0, data := [], accessList := [],
      sign := [0xab], v := some 1, r := some 1, s := some 1 }⟩

/-- the first does not come back at all, and the second comes back without its `Sign` -/
theorem fromProtoMessage_toProtoMessage_signed :
    (∃ pb, signedAccessListTx.toProtoMessage (fun _ => 0) = some pb ∧
        fromProtoMessage pb = none) ∧
      ∃ pb tx', signedDynamicFeeTx.toProtoMessage (fun _ => 0) = some pb ∧
        fromProtoMessage pb = some tx' ∧ signedDynamicFeeTx.sign = [0xab] ∧ tx'.sign = [] := by
  obtain ⟨pb, hpb, hiff, -⟩ :=
    @fromProtoMessage_toProtoMessage_panics_or_drops_sign (fun _ => 0) signedAccessListTx 0xa11ce rfl
  obtain ⟨pb', hpb', hiff', hsign⟩ :=
    @fromProtoMessage_toProtoMessage_panics_or_drops_sign (fun _ => 0) signedDynamicFeeTx 0xa11ce rfl
  refine ⟨⟨pb, hpb, hiff.mpr ⟨_, rfl, rfl⟩⟩, ?_⟩
  cases h : fromProtoMessage pb' with
  | none =>
    -- a dynamic-fee transaction is no access-list one
    obtain ⟨t, ht, -⟩ := hiff'.mp h
    cases ht
  | some tx' => exact ⟨pb', tx', hpb', h, rfl, hsign tx' h⟩

end N42

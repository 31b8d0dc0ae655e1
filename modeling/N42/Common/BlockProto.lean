import N42.Lib.Monad
import N42.Common.Block
import N42.Common.TxProto

/-!
# (key: blockproto) The protobuf form of headers, bodies and blocks

`ToProtoMessage`, `FromProtoMessage`, `Marshal` and `Unmarshal` of `header.go`, `body.go` and
`block.go`, over `types_pb.Header`, `Body` and `Block` and the limb conversions of
`utils/util.go` for the 384-, 768- and 2048-bit fields.  As for transactions (`TxProto`), every
sub-message is optional and reading through a `nil` one is a panic (`none`); the protobuf byte
encoding is a pair of parameters.  Repeated fields are lists of present messages, as
`proto.Unmarshal` builds them.

* `ofHalves_some`       a message of two halves gives back the number it was built from; every
                        `decode_encode` of the wide words is an instance;
* `Header.fromProtoMessage_toProtoMessage`   a header with a `BaseFee` comes back unchanged,
                        `Extra` with its `nil`-ness;
* `Header.unmarshal_marshal_of_baseFee`   hence `Unmarshal(Marshal(h))` is `h` when protobuf
                        round-trips;
* `Header.toProtoMessage_eq_none_iff`   `ToProtoMessage` panics exactly on a `nil` `BaseFee`;
* `Block.fromProtoMessage_eq_none_iff`   a block panics exactly where its header or its body
                        does: without a header, without a body, or with a transaction that does
                        not decode (`Block.fromProtoMessage_eq_none_of_tx`).
-/

namespace N42

/-- `types_pb.H384` -/
structure H384 where
  hi : Option H256
  lo : Option H128
deriving DecidableEq, Repr

/-- `types_pb.H512` -/
structure H512 where
  hi : Option H256
  lo : Option H256
deriving DecidableEq, Repr

/-- `types_pb.H768` -/
structure H768 where
  hi : Option H384
  lo : Option H384
deriving DecidableEq, Repr

/-- `types_pb.H1024` -/
structure H1024 where
  hi : Option H512
  lo : Option H512
deriving DecidableEq, Repr

/-- `types_pb.H2048` -/
structure H2048 where
  hi : Option H1024
  lo : Option H1024
deriving DecidableEq, Repr

/-! ## words -/

/-- the two big-endian words of the low 128 bits of `v` -/
def H128.encode (v : Nat) : H128 := ⟨(v / 2 ^ 64 % 2 ^ 64).toUInt64, (v % 2 ^ 64).toUInt64⟩

def H128.decode (h : H128) : Nat := h.hi.toNat * 2 ^ 64 + h.lo.toNat

/-- the number of a message of two halves, the low one `b` bits wide; a `nil` half is a panic -/
def ofHalves {α β : Type} (b : Nat) (hiNat : α → Option Nat) (loNat : β → Option Nat)
    (hi : Option α) (lo : Option β) : Option Nat := do
  let h ← hi.bind hiNat
  let l ← lo.bind loNat
  pure (h * 2 ^ b + l)

def H256.encode (v : Nat) : H256 :=
  ⟨some (H128.encode (v / 2 ^ 128)), some (H128.encode (v % 2 ^ 128))⟩

def H256.decode (h : H256) : Option Nat :=
  ofHalves 128 (some ∘ H128.decode) (some ∘ H128.decode) h.hi h.lo

/-- the layout of `ConvertPublicKeyToH384`: bytes 0 to 31 in `Hi`, 32 to 47 in `Lo` -/
def H384.encode (v : Nat) : H384 :=
  ⟨some (H256.encode (v / 2 ^ 128)), some (H128.encode (v % 2 ^ 128))⟩

def H384.decode (h : H384) : Option Nat := ofHalves 128 H256.decode (some ∘ H128.decode) h.hi h.lo

/-- the layout of `ConvertBytesToH512` -/
def H512.encode (v : Nat) : H512 :=
  ⟨some (H256.encode (v / 2 ^ 256)), some (H256.encode (v % 2 ^ 256))⟩

def H512.decode (h : H512) : Option Nat := ofHalves 256 H256.decode H256.decode h.hi h.lo

/-- the layout of `ConvertSignatureToH768` -/
def H768.encode (v : Nat) : H768 :=
  ⟨some (H384.encode (v / 2 ^ 384)), some (H384.encode (v % 2 ^ 384))⟩

def H768.decode (h : H768) : Option Nat := ofHalves 384 H384.decode H384.decode h.hi h.lo

def H1024.encode (v : Nat) : H1024 :=
  ⟨some (H512.encode (v / 2 ^ 512)), some (H512.encode (v % 2 ^ 512))⟩

def H1024.decode (h : H1024) : Option Nat := ofHalves 512 H512.decode H512.decode h.hi h.lo

/-- the layout of `ConvertBytesToH2048`: four 64-byte quarters, most significant first -/
def H2048.encode (v : Nat) : H2048 :=
  ⟨some (H1024.encode (v / 2 ^ 1024)), some (H1024.encode (v % 2 ^ 1024))⟩

def H2048.decode (h : H2048) : Option Nat := ofHalves 1024 H1024.decode H1024.decode h.hi h.lo

theorem H128.decode_encode {v : Nat} (hv : v < 2 ^ 128) : (H128.encode v).decode = v := by
  simp only [H128.encode, H128.decode, Nat.toUInt64_eq, UInt64.toNat_ofNat']
  omega

theorem ofHalves_some {α β : Type} {b v : Nat} {hiNat : α → Option Nat} {loNat : β → Option Nat}
    {x : α} {y : β} (hx : hiNat x = some (v / 2 ^ b)) (hy : loNat y = some (v % 2 ^ b)) :
    ofHalves b hiNat loNat (some x) (some y) = some v := by
  simp [ofHalves, hx, hy, Nat.div_add_mod']

/-- the high half of a number below `2 ^ (a + b)` is below `2 ^ a` -/
theorem div_two_pow_lt {v n a b : Nat} (hv : v < 2 ^ n) (hn : n = a + b) : v / 2 ^ b < 2 ^ a := by
  rw [Nat.div_lt_iff_lt_mul (Nat.two_pow_pos b), ← Nat.pow_add, ← hn]
  exact hv

theorem H256.decode_encode {v : Nat} (hv : v < 2 ^ 256) : (H256.encode v).decode = some v :=
  ofHalves_some (congrArg some (H128.decode_encode (div_two_pow_lt hv rfl)))
    (congrArg some (H128.decode_encode (Nat.mod_lt _ (by positivity))))

theorem H384.decode_encode {v : Nat} (hv : v < 2 ^ 384) : (H384.encode v).decode = some v :=
  ofHalves_some (H256.decode_encode (div_two_pow_lt hv rfl))
    (congrArg some (H128.decode_encode (Nat.mod_lt _ (by positivity))))

theorem H512.decode_encode {v : Nat} (hv : v < 2 ^ 512) : (H512.encode v).decode = some v :=
  ofHalves_some (H256.decode_encode (div_two_pow_lt hv rfl))
    (H256.decode_encode (Nat.mod_lt _ (by positivity)))

theorem H768.decode_encode {v : Nat} (hv : v < 2 ^ 768) : (H768.encode v).decode = some v :=
  ofHalves_some (H384.decode_encode (div_two_pow_lt hv rfl))
    (H384.decode_encode (Nat.mod_lt _ (by positivity)))

theorem H1024.decode_encode {v : Nat} (hv : v < 2 ^ 1024) : (H1024.encode v).decode = some v :=
  ofHalves_some (H512.decode_encode (div_two_pow_lt hv rfl))
    (H512.decode_encode (Nat.mod_lt _ (by positivity)))

theorem H2048.decode_encode {v : Nat} (hv : v < 2 ^ 2048) : (H2048.encode v).decode = some v :=
  ofHalves_some (H1024.decode_encode (div_two_pow_lt hv rfl))
    (H1024.decode_encode (Nat.mod_lt _ (by positivity)))

/-! ## the converters of `utils/util.go` -/

/-- `ConvertH160toAddress`: a `nil` message or a `nil` `Hi` is a panic -/
def convertH160toAddress (h : Option H160) : Option Address := h.bind convertH160ToPAddress

def convertPublicKeyToH384 (p : PublicKey) : H384 := H384.encode p.toNat

def convertH384ToPublicKey (h : Option H384) : Option PublicKey :=
  (h.bind H384.decode).map (BitVec.ofNat 384)

def convertSignatureToH768 (p : Signature) : H768 := H768.encode p.toNat

def convertH768ToSignature (h : Option H768) : Option Signature :=
  (h.bind H768.decode).map (BitVec.ofNat 768)

/-- `ConvertBytesToH2048(h.Bloom.Bytes())` -/
def convertBytesToH2048 (b : Bloom) : H2048 := H2048.encode b.toNat

def convertH2048ToBloom (h : Option H2048) : Option Bloom :=
  (h.bind H2048.decode).map (BitVec.ofNat 2048)

@[simp] theorem convertH160toAddress_some (a : Address) :
    convertH160toAddress (some (convertAddressToH160 a)) = some a := by
  simp [convertH160toAddress]

@[simp] theorem convertH384ToPublicKey_some (p : PublicKey) :
    convertH384ToPublicKey (some (convertPublicKeyToH384 p)) = some p := by
  rw [convertH384ToPublicKey, Option.bind_some, convertPublicKeyToH384, H384.decode_encode p.isLt,
    Option.map_some, BitVec.ofNat_toNat, BitVec.setWidth_eq]

@[simp] theorem convertH768ToSignature_some (p : Signature) :
    convertH768ToSignature (some (convertSignatureToH768 p)) = some p := by
  rw [convertH768ToSignature, Option.bind_some, convertSignatureToH768, H768.decode_encode p.isLt,
    Option.map_some, BitVec.ofNat_toNat, BitVec.setWidth_eq]

@[simp] theorem convertH2048ToBloom_some (b : Bloom) :
    convertH2048ToBloom (some (convertBytesToH2048 b)) = some b := by
  rw [convertH2048ToBloom, Option.bind_some, convertBytesToH2048, H2048.decode_encode b.isLt,
    Option.map_some, BitVec.ofNat_toNat, BitVec.setWidth_eq]

/-! ## headers -/

/-- `types_pb.Header` -/
structure PbHeader where
  parentHash : Option H256
  coinbase : Option H160
  root : Option H256
  txHash : Option H256
  receiptHash : Option H256
  difficulty : Option H256
  number : Option H256
  gasLimit : UInt64
  gasUsed : UInt64
  time : UInt64
  nonce : UInt64
  baseFee : Option H256
  extra : Option (List UInt8)
  signature : Option H768
  bloom : Option H2048
  mixDigest : Option H256
deriving DecidableEq, Repr

/-- `Header.ToProtoMessage()`; `ConvertUint256IntToH256(h.BaseFee)` indexes a `nil` `BaseFee`,
which is a panic -/
def Header.toProtoMessage (h : Header) : Option PbHeader := do
  let baseFee ← h.baseFee
  pure
    { parentHash := some (convertHashToH256 h.parentHash)
      coinbase := some (convertAddressToH160 h.coinbase)
      root := some (convertHashToH256 h.root)
      txHash := some (convertHashToH256 h.txHash)
      receiptHash := some (convertHashToH256 h.receiptHash)
      difficulty := some (convertUint256IntToH256 h.difficulty)
      number := some (convertUint256IntToH256 h.number)
      gasLimit := h.gasLimit
      gasUsed := h.gasUsed
      time := h.time
      nonce := h.nonce.toNat.toUInt64
      baseFee := some (convertUint256IntToH256 baseFee)
      extra := h.extra
      signature := some (convertSignatureToH768 h.signature)
      bloom := some (convertBytesToH2048 h.bloom)
      mixDigest := some (convertHashToH256 h.mixDigest) }

/-- `Header.FromProtoMessage(message)`; a `nil` message panics at `pbHeader.ParentHash`, and
`BaseFee` always comes back non-`nil` -/
def Header.fromProtoMessage (pb : Option PbHeader) : Option Header := do
  let pb ← pb
  let parentHash ← convertH256ToHash pb.parentHash
  let coinbase ← convertH160toAddress pb.coinbase
  let root ← convertH256ToHash pb.root
  let txHash ← convertH256ToHash pb.txHash
  let receiptHash ← convertH256ToHash pb.receiptHash
  let difficulty ← decodeU256 pb.difficulty
  let number ← decodeU256 pb.number
  let baseFee ← decodeU256 pb.baseFee
  let signature ← convertH768ToSignature pb.signature
  let bloom ← convertH2048ToBloom pb.bloom
  let mixDigest ← convertH256ToHash pb.mixDigest
  pure
    { parentHash, coinbase, root, txHash, receiptHash, difficulty, number,
      gasLimit := pb.gasLimit, gasUsed := pb.gasUsed, time := pb.time,
      nonce := BitVec.ofNat 64 pb.nonce.toNat, baseFee := some baseFee, extra := pb.extra,
      signature, bloom, mixDigest }

/-- `Marshal()`, for a protobuf encoder `pbMarshal`; `none` is the panic of `ToProtoMessage` -/
def Header.marshal {W : Type} (pbMarshal : PbHeader → W) (h : Header) : Option W :=
  h.toProtoMessage.map pbMarshal

/-- `Unmarshal(data)`, for a protobuf decoder `pbUnmarshal` -/
def Header.unmarshal {W : Type} (pbUnmarshal : W → Option PbHeader) (data : W) :
    Except DecodeError Header :=
  match pbUnmarshal data with
  | none => .error .proto
  | some pb =>
    match Header.fromProtoMessage (some pb) with
    | some h => .ok h
    | none => .error .panic

theorem Header.toProtoMessage_eq_none_iff (h : Header) :
    h.toProtoMessage = none ↔ h.baseFee = none := by
  cases hb : h.baseFee <;> simp [Header.toProtoMessage, hb]

/-- **The header comes back.**  Every field, `Extra` with its `nil`-ness and the nonce through its
`uint64`, is what it was, provided the header has a `BaseFee` to convert. -/
theorem Header.fromProtoMessage_toProtoMessage {h : Header} {b : U256} (hb : h.baseFee = some b) :
    h.toProtoMessage.bind (fun pb => Header.fromProtoMessage (some pb)) = some h := by
  obtain ⟨parentHash, root, txHash, difficulty, number, signature, coinbase, receiptHash, bloom,
    gasLimit, gasUsed, time, mixDigest, nonce, extra, baseFee⟩ := h
  subst hb
  have hnonce : BitVec.ofNat 64 nonce.toNat.toUInt64.toNat = nonce := by
    apply BitVec.eq_of_toNat_eq
    simp
  simp only [Header.toProtoMessage, Option.pure_def, Option.bind_eq_bind, Option.bind_some]
  rw [Header.fromProtoMessage, Option.bind_eq_bind, Option.bind_some]
  dsimp only
  -- the converters are rewritten before the binds: matching a bind with a converter still in
  -- place sends the unifier into the 2048-bit decoding
  simp only [convertH256ToHash_some, convertH160toAddress_some, decodeU256_some,
    convertH768ToSignature_some, convertH2048ToBloom_some]
  simp only [Option.bind_eq_bind, Option.bind_some, Option.pure_def, hnonce]

/-- a header with a `BaseFee` -/
def londonHeader : Header :=
  { parentHash := 0, root := 0, txHash := 0, difficulty := 2, number := 1, signature := 0,
    baseFee := some 7 }

/-- a header as before London, without a `BaseFee`: `Marshal` panics on it -/
theorem preLondon_header_marshal_panics {W : Type} (pbMarshal : PbHeader → W) :
    ({ parentHash := 0, root := 0, txHash := 0, difficulty := 2, number := 1, signature := 0 } :
      Header).marshal pbMarshal = none := by
  rw [Header.marshal, (Header.toProtoMessage_eq_none_iff _).mpr rfl, Option.map_none]

/-! ## bodies and blocks -/

/-- `types_pb.Verifier` -/
structure PbVerifier where
  publicKey : Option H384
  address : Option H160
deriving DecidableEq, Repr

/-- `types_pb.Reward` -/
structure PbReward where
  amount : Option H256
  address : Option H160
deriving DecidableEq, Repr

/-- `types_pb.Body` -/
structure PbBody where
  txs : List PbTransaction
  verifiers : List PbVerifier
  rewards : List PbReward
deriving DecidableEq, Repr

/-- `types_pb.Block` -/
structure PbBlock where
  header : Option PbHeader
  body : Option PbBody
deriving DecidableEq, Repr

/-- the message `proto.Unmarshal` builds from no bytes at all -/
def PbBlock.empty : PbBlock := ⟨none, none⟩

def Verify.fromProtoMessage (pb : PbVerifier) : Option Verify := do
  let address ← convertH160toAddress pb.address
  let publicKey ← convertH384ToPublicKey pb.publicKey
  pure ⟨address, publicKey⟩

/-- `Reward.FromProtoMessage`, as an address and an amount -/
def Reward.fromProtoMessage (pb : PbReward) : Option (Address × U256) := do
  let address ← convertH160toAddress pb.address
  let amount ← decodeU256 pb.amount
  pure (address, amount)

/-- `Body.FromProtoMessage(message)`: a `nil` body panics at `pBody.Txs`.  The rewards are
decoded, and may panic, but the body model keeps none of them -/
def Body.fromProtoMessage (pb : Option PbBody) : Option Body := do
  let pb ← pb
  let txs ← pb.txs.mapM N42.fromProtoMessage
  let verifiers ← pb.verifiers.mapM Verify.fromProtoMessage
  let _ ← pb.rewards.mapM Reward.fromProtoMessage
  pure ⟨txs, verifiers⟩

/-- `Block.FromProtoMessage(message)`: the header, then the body -/
def Block.fromProtoMessage (pb : PbBlock) : Option Block := do
  let header ← Header.fromProtoMessage pb.header
  let body ← Body.fromProtoMessage pb.body
  pure ⟨header, body⟩

/-- `Block.Unmarshal(data)`, for a protobuf decoder `pbUnmarshal` -/
def Block.unmarshal {W : Type} (pbUnmarshal : W → Option PbBlock) (data : W) :
    Except DecodeError Block :=
  match pbUnmarshal data with
  | none => .error .proto
  | some pb =>
    match Block.fromProtoMessage pb with
    | some b => .ok b
    | none => .error .panic

theorem Block.fromProtoMessage_eq_none_iff (pb : PbBlock) :
    Block.fromProtoMessage pb = none ↔
      Header.fromProtoMessage pb.header = none ∨ Body.fromProtoMessage pb.body = none := by
  unfold Block.fromProtoMessage
  cases hh : Header.fromProtoMessage pb.header with
  | none => simp
  | some header =>
    cases hb : Body.fromProtoMessage pb.body with
    | none => simp
    | some body => simp

theorem Block.fromProtoMessage_eq_none_of_header {pb : PbBlock} (h : pb.header = none) :
    Block.fromProtoMessage pb = none :=
  (Block.fromProtoMessage_eq_none_iff pb).mpr (.inl (by rw [h]; rfl))

theorem Block.fromProtoMessage_eq_none_of_body {pb : PbBlock} (h : pb.body = none) :
    Block.fromProtoMessage pb = none :=
  (Block.fromProtoMessage_eq_none_iff pb).mpr (.inr (by rw [h]; rfl))

/-- one transaction of the body that does not decode, such as one of an unknown type, makes the
whole block panic -/
theorem Block.fromProtoMessage_eq_none_of_tx {pb : PbBlock} {body : PbBody}
    (hb : pb.body = some body) {tx : PbTransaction} (htx : tx ∈ body.txs)
    (hdec : N42.fromProtoMessage tx = none) : Block.fromProtoMessage pb = none := by
  refine (Block.fromProtoMessage_eq_none_iff pb).mpr (.inr ?_)
  have htxs : body.txs.mapM N42.fromProtoMessage = none := List.mapM_eq_none_of_mem htx hdec
  rw [hb, Body.fromProtoMessage, Option.bind_eq_bind, Option.bind_some, htxs]
  rfl

/-- the bytes that decode to the empty message, the empty byte string among them, panic -/
theorem empty_block_message_panics {W : Type} {pbUnmarshal : W → Option PbBlock} {data : W}
    (h : pbUnmarshal data = some PbBlock.empty) : Block.unmarshal pbUnmarshal data = .error .panic := by
  have hpanic : Block.fromProtoMessage PbBlock.empty = none :=
    Block.fromProtoMessage_eq_none_of_header rfl
  simp only [Block.unmarshal, h, hpanic]

theorem empty_bytes_block_panics :
    (fun _ : List UInt8 => some PbBlock.empty) [] = some PbBlock.empty ∧
      Block.unmarshal (fun _ : List UInt8 => some PbBlock.empty) [] = .error .panic :=
  ⟨rfl, empty_block_message_panics rfl⟩

end N42

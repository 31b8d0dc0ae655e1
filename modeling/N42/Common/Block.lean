import N42.Common.Transaction

/-!
# (key: block) Headers, bodies and the verifier list

`common/block`: the header, and a body of transactions and `Verify` entries.  No header field
commits to the verifier list; the header's hash (`Header.Hash()`, a keccak of its JSON encoding)
is a parameter wherever it is used.

* `Header`              every exported field of the Go struct;
* `Verify`, `Body`, `Block`   the Go structs, without the fields no modelled code reads;
* `Log`                 the fields of a receipt log the deposit event loop reads;
* `Body.verifierKeys`, `Body.verifierAddresses`   the two projections of the verifier list.
-/

namespace N42

/-- `types.PublicKey`, a 48-byte BLS key -/
abbrev PublicKey := BitVec 384

/-- `types.Signature`, a 96-byte BLS signature -/
abbrev Signature := BitVec 768

structure Verify where
  address : Address
  publicKey : PublicKey
deriving DecidableEq, Repr

/-- `types.Bloom`, 256 bytes -/
abbrev Bloom := BitVec 2048

/-- `block.BlockNonce`, 8 bytes -/
abbrev BlockNonce := BitVec 64

/-- `block.Header`.  `Difficulty` and `Number` are never `nil` here; `Extra` keeps the difference
between a `nil` and an empty slice (`none` and `some []`), which `encoding/json` sees.  The
fields after `signature` default to their Go zero values. -/
structure Header where
  parentHash : Hash
  root : Hash
  txHash : Hash
  difficulty : U256
  number : U256
  signature : Signature
  coinbase : Address := 0
  receiptHash : Hash := 0
  bloom : Bloom := 0
  gasLimit : UInt64 := 0
  gasUsed : UInt64 := 0
  time : UInt64 := 0
  mixDigest : Hash := 0
  nonce : BlockNonce := 0
  extra : Option (List UInt8) := none
  baseFee : Option U256 := none
deriving DecidableEq, Repr

structure Body where
  txs : List Transaction
  verifiers : List Verify

structure Block where
  header : Header
  body : Body

structure Log where
  address : Address
  topics : List Hash
  data : List UInt8
  txHash : Hash
deriving DecidableEq, Repr

namespace Body

def verifierKeys (b : Body) : List PublicKey := b.verifiers.map Verify.publicKey

def verifierAddresses (b : Body) : List Address := b.verifiers.map Verify.address

end Body

/-- `Number64().Uint64()`: the low 64 bits of the number -/
def Header.number64 (h : Header) : UInt64 := UInt64.ofNat h.number.toNat

end N42

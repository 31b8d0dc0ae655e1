import N42.Consensus.Apos

/-!
# (key: validator) The body checks of an imported block

`internal/block_validator.go`: `ValidateBody` decodes the public key of every `Verify` entry
and, from Beijing on, checks the header's aggregate signature over the state root against those
keys; then the block must be new, its transactions must hash to the header's root and its
parent must be known.  The BLS library is a parameter (`Bls`) over its own key and signature
types.

* `validateBody_congr`  the checks read the verifier list only through its keys: two blocks with
                        one header, one transaction list and one key list are accepted alike;
* `forged_verifiers_rewarded`   a body whose first verifier address is replaced is accepted
                        with the genuine one's header, and the rewards of the next epoch go to
                        the replacement address.
-/

namespace N42

/-- the BLS operations `ValidateBody` calls -/
structure Bls (K S : Type) where
  publicKeyFromBytes : PublicKey → Except String K
  signatureFromBytes : Signature → Except String S
  fastAggregateVerify : S → List K → Hash → Bool

/-- `BlockValidator`, with what it reads of the chain: `HasBlockAndState`, `HasBlock`, the
header hash and `DeriveSha` of the transactions -/
structure BlockValidator (K S : Type) where
  config : ChainConfig
  bls : Bls K S
  headerHash : Header → Hash
  hasBlockAndState : Hash → UInt64 → Bool
  hasBlock : Hash → UInt64 → Bool
  deriveSha : List Transaction → Hash

inductive BodyError where
  /-- an error of the key or signature decoding -/
  | bls (msg : String)
  /-- `"AggSignature verify falied"` -/
  | aggSignatureVerifyFailed
  | errKnownBlock
  /-- `"transaction root hash mismatch: have %x, want %x"` -/
  | txRootMismatch (got want : Hash)
  | errUnknownAncestor
  | errPrunedAncestor
deriving DecidableEq, Repr

variable {K S : Type}

/-- `ValidateBody(b)` -/
def validateBody (v : BlockValidator K S) (b : Block) : Except BodyError Unit := do
  let ss ← b.body.verifiers.mapM fun p => (v.bls.publicKeyFromBytes p.publicKey).mapError .bls
  if v.config.isBeijing b.header.number64 then
    let sig ← (v.bls.signatureFromBytes b.header.signature).mapError .bls
    Except.failIf (v.bls.fastAggregateVerify sig ss b.header.root = false)
      .aggSignatureVerifyFailed
  Except.failIf (v.hasBlockAndState (v.headerHash b.header) b.header.number64 = true)
    .errKnownBlock
  let hash := v.deriveSha b.body.txs
  Except.failIf (hash ≠ b.header.txHash) (.txRootMismatch hash b.header.txHash)
  if v.hasBlockAndState b.header.parentHash (b.header.number64 - 1) = false then
    if v.hasBlock b.header.parentHash (b.header.number64 - 1) = false then
      throw .errUnknownAncestor
    throw .errPrunedAncestor

theorem mapM_publicKey {ε β : Type} (f : PublicKey → Except ε β) (vs : List Verify) :
    vs.mapM (fun p => f p.publicKey) = (vs.map Verify.publicKey).mapM f := by
  induction vs with
  | nil => rfl
  | cons v vs ih => simp only [List.mapM_cons, List.map_cons, ih]

/-- **The checks see the keys only.**  Whatever addresses the verifier list pairs with its keys,
`ValidateBody` decides the same way. -/
theorem validateBody_congr (v : BlockValidator K S) {b c : Block} (hh : b.header = c.header)
    (ht : b.body.txs = c.body.txs) (hk : b.body.verifierKeys = c.body.verifierKeys) :
    validateBody v b = validateBody v c := by
  unfold validateBody
  unfold Body.verifierKeys at hk
  rw [mapM_publicKey (fun k => (v.bls.publicKeyFromBytes k).mapError BodyError.bls),
    mapM_publicKey (fun k => (v.bls.publicKeyFromBytes k).mapError BodyError.bls), hk, hh, ht]

/-! ## a forged verifier list -/

/-- Beijing from genesis, an epoch of one block, and every total paid -/
def beijingConfig : ChainConfig where
  chainID := 1
  homesteadBlock := some 0
  spuriousDragonBlock := some 0
  istanbulBlock := some 0
  berlinBlock := some 0
  londonBlock := some 0
  shanghaiBlock := some 0
  beijingBlock := some 0
  eip1559FeeCollector := none
  eip1559FeeCollectorTransition := none
  parlia := false
  rewardEpoch := 1
  rewardLimit := 0

/-- the three verifiers that signed block 100, and an address that did not -/
def signerKeys : List PublicKey := [0x1a, 0x2b, 0x3c]
def verifierAddrs : List Address := [0xa1, 0xb2, 0xc3]
def outsider : Address := 0xe4

/-- the header of block 100: its signature is the aggregate of the three signers' -/
def sampleHeader : Header :=
  { parentHash := 0x99, root := 0x5151, txHash := 0x7777, difficulty := 1, number := 100,
    signature := 0xa9 }

def genuineBlock : Block :=
  ⟨sampleHeader, ⟨[], [⟨0xa1, 0x1a⟩, ⟨0xb2, 0x2b⟩, ⟨0xc3, 0x3c⟩]⟩⟩

/-- the same block with the first verifier's address replaced by `outsider` -/
def forgedBlock : Block :=
  ⟨sampleHeader, ⟨[], [⟨outsider, 0x1a⟩, ⟨0xb2, 0x2b⟩, ⟨0xc3, 0x3c⟩]⟩⟩

/-- a BLS library under which exactly the aggregate `0xa9` of the three signers verifies over
the root `0x5151` -/
def sampleBls : Bls PublicKey Signature where
  publicKeyFromBytes := .ok
  signatureFromBytes := .ok
  fastAggregateVerify sig ks root := decide (sig = 0xa9 ∧ ks = signerKeys ∧ root = 0x5151)

/-- a node that holds the parent of block 100 and not the block -/
def sampleValidator : BlockValidator PublicKey Signature where
  config := beijingConfig
  bls := sampleBls
  headerHash _ := 0x1234
  hasBlockAndState h _ := decide (h = 0x99)
  hasBlock h _ := decide (h = 0x99)
  deriveSha _ := 0x7777

/-- the chain a node reads after importing `b` as block 100: every verifier, the outsider too,
has a deposit paying 5 a block up to 10 an epoch, and nothing is carried over -/
def chainWith (b : Block) : Apos.ChainHeaderReader where
  getBlockByNumber n := if n = 100 then some b else none
  getDepositInfo a := .ok (if a ∈ outsider :: verifierAddrs then some (5, 10) else none)
  getAccountRewardUnpaid _ := .ok none

theorem forged_verifiers_rewarded :
    validateBody sampleValidator genuineBlock = .ok () ∧
      validateBody sampleValidator forgedBlock = .ok () ∧
      forgedBlock.header = genuineBlock.header ∧
      Apos.accumulateRewards (Apos.newReward beijingConfig) 101 (chainWith genuineBlock) =
        .ok ([(0xa1, 5), (0xb2, 5), (0xc3, 5)], [(0xa1, 0), (0xb2, 0), (0xc3, 0)]) ∧
      Apos.accumulateRewards (Apos.newReward beijingConfig) 101 (chainWith forgedBlock) =
        .ok ([(outsider, 5), (0xb2, 5), (0xc3, 5)], [(outsider, 0), (0xb2, 0), (0xc3, 0)]) := by
  have hgen : validateBody sampleValidator genuineBlock = .ok () := by decide +kernel
  refine ⟨hgen, ?_, rfl, by decide +kernel, by decide +kernel⟩
  rw [@validateBody_congr _ _ sampleValidator forgedBlock genuineBlock rfl rfl rfl]
  exact hgen

end N42

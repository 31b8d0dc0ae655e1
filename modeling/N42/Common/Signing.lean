import N42.Common.Transaction
import N42.Params.Config

/-!
# (key: signing) Signers and the recovered sender

`transaction_signing.go`.  `Signer` is one constructor per signer type; `Sender` follows the
London signer down through the EIP-2930, EIP-155 and Homestead ones to `recoverPlain`, which
rejects out-of-range signature values (`ValidateSignatureValues`) before it asks secp256k1.
Public-key recovery with the keccak address is the parameter `ecrecover` (the vendored
secp256k1 library); the keccak of the RLP signing payload is the parameter `sigHash`.

* `SigHashInput`, `Signer.hash`   what each signer signs: the `From` field is never part of it;
* `Signer.sender`          `Sender(signer, tx)` (the signature cache only stores earlier results);
* `sender_setFrom`         the recovered sender does not depend on the `From` field;
* `recoverPlain_zero_r`    a signature whose `R` is zero recovers no sender.
-/

set_option linter.unusedSectionVars false
set_option linter.unusedVariables false

namespace N42

/-- the signer types of `MakeSigner`; the chain id is the `*big.Int` they carry -/
inductive Signer where
  | london (chainId : Nat)
  | eip2930 (chainId : Nat)
  | eip155 (chainId : Nat)
  | homestead
  | frontier
deriving DecidableEq, Repr

/-- `MakeSigner(config, blockNumber)` -/
def makeSigner (c : ChainConfig) (num : UInt64) : Signer :=
  if c.isLondon num then .london c.chainID
  else if c.isBerlin num then .eip2930 c.chainID
  else if c.isEip1559FeeCollector num then .eip155 c.chainID
  else if c.isHomestead num then .homestead
  else .frontier

/-- the payloads `Signer.Hash` RLP-encodes -/
inductive SigHashInput where
  | frontier (nonce : UInt64) (gasPrice : U256) (gas : UInt64) (toAddr : Option Address)
      (value : U256) (data : List UInt8)
  | eip155 (nonce : UInt64) (gasPrice : U256) (gas : UInt64) (toAddr : Option Address)
      (value : U256) (data : List UInt8) (chainId : Nat)
  | accessList (chainId : Nat) (nonce : UInt64) (gasPrice : U256) (gas : UInt64)
      (toAddr : Option Address) (value : U256) (data : List UInt8) (accessList : AccessList)
  | dynamicFee (chainId : Nat) (nonce : UInt64) (gasTipCap gasFeeCap : U256) (gas : UInt64)
      (toAddr : Option Address) (value : U256) (data : List UInt8) (accessList : AccessList)
  | empty
deriving DecidableEq, Repr

/-- the errors `Sender` returns; `nilSignature` stands for the nil dereference of a missing
`V`, `R` or `S` -/
inductive SenderError where
  | errInvalidSig
  | errInvalidChainId
  | errTxTypeNotSupported
  | errRecover
  | nilSignature
deriving DecidableEq, Repr

/-- `secp256k1N` -/
def secp256k1N : Nat := 0xfffffffffffffffffffffffffffffffebaaedce6af48a03bbfd25e8cd0364141

/-- `crypto.ValidateSignatureValues` -/
def validateSignatureValues (v : Nat) (r s : U256) (homestead : Bool) : Bool :=
  if r.toNat = 0 ∨ s.toNat = 0 then false
  else if homestead ∧ secp256k1N / 2 < s.toNat then false
  else decide (r.toNat < secp256k1N ∧ s.toNat < secp256k1N ∧ (v = 0 ∨ v = 1))

/-- `big.Int.BitLen` -/
def bitLen (x : Int) : Nat := x.natAbs.size

section
variable (ecrecover : Hash → U256 → U256 → Nat → Option Address)

/-- `recoverPlain(sighash, R, S, Vb, homestead)`; `V := byte(Vb.Uint64() - 27)` -/
def recoverPlain (sighash : Hash) (r s : U256) (vb : Int) (homestead : Bool) :
    Except SenderError Address :=
  if 8 < bitLen vb then .error .errInvalidSig
  else
    let v := (vb.natAbs + 256 - 27) % 256
    if !validateSignatureValues v r s homestead then .error .errInvalidSig
    else match ecrecover sighash r s v with
      | some a => .ok a
      | none => .error .errRecover

/-- `isProtectedV` -/
def isProtectedV (v : U256) : Bool :=
  if bitLen v.toNat ≤ 8 then !(v.toNat = 27 ∨ v.toNat = 28 ∨ v.toNat = 1 ∨ v.toNat = 0)
  else true

/-- `Protected()` -/
def Transaction.protected (tx : Transaction) : Bool :=
  match tx.inner with
  | .legacy t => match t.v with
    | some v => isProtectedV v
    | none => false
  | _ => true

variable (sigHash : SigHashInput → Hash)

namespace Signer

/-- `eip2930Signer.Hash(tx)` (also the London signer's for the untyped and access-list
variants) -/
def eip2930Hash (c : Nat) (tx : Transaction) : Hash :=
  match tx.inner with
  | .legacy t => sigHash (.eip155 t.nonce t.gasPrice t.gas t.toAddr t.value t.data c)
  | .accessList t => sigHash (.accessList c t.nonce t.gasPrice t.gas t.toAddr t.value t.data
      t.accessList)
  | .dynamicFee _ => sigHash .empty

/-- `Signer.Hash(tx)` -/
def hash : Signer → Transaction → Hash
  | .london c, tx =>
    match tx.inner with
    | .dynamicFee t => sigHash (.dynamicFee c t.nonce t.gasTipCap t.gasFeeCap t.gas t.toAddr
        t.value t.data t.accessList)
    | _ => eip2930Hash sigHash c tx
  | .eip2930 c, tx => eip2930Hash sigHash c tx
  | .eip155 c, tx => sigHash (.eip155 tx.nonce tx.gasPrice tx.gas tx.toAddr tx.value tx.data c)
  | .homestead, tx => sigHash (.frontier tx.nonce tx.gasPrice tx.gas tx.toAddr tx.value tx.data)
  | .frontier, tx => sigHash (.frontier tx.nonce tx.gasPrice tx.gas tx.toAddr tx.value tx.data)

/-- `HomesteadSigner.Sender` (`homestead = true`) and `FrontierSigner.Sender` -/
def plainSender (homestead : Bool) (sh : Hash) (tx : Transaction) : Except SenderError Address :=
  if tx.txType ≠ legacyTxType then .error .errTxTypeNotSupported
  else match tx.rawSignatureValues with
    | (some v, some r, some s) => recoverPlain ecrecover sh r s v.toNat homestead
    | _ => .error .nilSignature

/-- the chain-id check the typed signers make before recovery -/
def checkChainId (c : Nat) (tx : Transaction) : Bool :=
  tx.chainId = some (BitVec.ofNat 256 c)

/-- `eip2930Signer.Sender(tx)` -/
def eip2930Sender (c : Nat) (tx : Transaction) : Except SenderError Address :=
  match tx.rawSignatureValues with
  | (some v, some r, some s) =>
    if tx.txType = legacyTxType then
      if !tx.protected then plainSender ecrecover true (hash sigHash .homestead tx) tx
      else if !checkChainId c tx then .error .errInvalidChainId
      else recoverPlain ecrecover (eip2930Hash sigHash c tx) r s
        ((v.toNat : Int) - 2 * c - 8) true
    else if tx.txType = accessListTxType then
      if !checkChainId c tx then .error .errInvalidChainId
      else recoverPlain ecrecover (eip2930Hash sigHash c tx) r s (v.toNat + 27) true
    else .error .errTxTypeNotSupported
  | _ => .error .nilSignature

/-- `Sender(signer, tx)` -/
def sender : Signer → Transaction → Except SenderError Address
  | .london c, tx =>
    if tx.txType ≠ dynamicFeeTxType then eip2930Sender ecrecover sigHash c tx
    else match tx.rawSignatureValues with
      | (some v, some r, some s) =>
        if !checkChainId c tx then .error .errInvalidChainId
        else recoverPlain ecrecover (hash sigHash (.london c) tx) r s (v.toNat + 27) true
      | _ => .error .nilSignature
  | .eip2930 c, tx => eip2930Sender ecrecover sigHash c tx
  | .eip155 c, tx =>
    if tx.txType ≠ legacyTxType then .error .errTxTypeNotSupported
    else if !tx.protected then plainSender ecrecover true (hash sigHash .homestead tx) tx
    else if !checkChainId c tx then .error .errInvalidChainId
    else match tx.rawSignatureValues with
      | (some v, some r, some s) =>
        recoverPlain ecrecover (hash sigHash (.eip155 c) tx) r s ((v.toNat : Int) - 2 * c - 8) true
      | _ => .error .nilSignature
  | .homestead, tx => plainSender ecrecover true (hash sigHash .homestead tx) tx
  | .frontier, tx => plainSender ecrecover false (hash sigHash .frontier tx) tx

end Signer

/-! ## what the sender depends on -/

@[simp] theorem Transaction.chainId_setFrom (tx : Transaction) (a : Address) :
    (tx.setFrom a).chainId = tx.chainId := by
  rcases tx with ⟨_ | _ | _⟩ <;> rfl

@[simp] theorem Transaction.protected_setFrom (tx : Transaction) (a : Address) :
    (tx.setFrom a).protected = tx.protected := by
  rcases tx with ⟨_ | _ | _⟩ <;> rfl

@[simp] theorem Signer.eip2930Hash_setFrom (c : Nat) (tx : Transaction) (a : Address) :
    Signer.eip2930Hash sigHash c (tx.setFrom a) = Signer.eip2930Hash sigHash c tx := by
  rcases tx with ⟨_ | _ | _⟩ <;> rfl

@[simp] theorem Signer.hash_setFrom (sg : Signer) (tx : Transaction) (a : Address) :
    Signer.hash sigHash sg (tx.setFrom a) = Signer.hash sigHash sg tx := by
  cases sg <;> rcases tx with ⟨_ | _ | _⟩ <;> rfl

@[simp] theorem Signer.plainSender_setFrom (h : Bool) (sh : Hash) (tx : Transaction)
    (a : Address) :
    Signer.plainSender ecrecover h sh (tx.setFrom a) = Signer.plainSender ecrecover h sh tx := by
  simp [Signer.plainSender]

@[simp] theorem Signer.eip2930Sender_setFrom (c : Nat) (tx : Transaction) (a : Address) :
    Signer.eip2930Sender ecrecover sigHash c (tx.setFrom a)
      = Signer.eip2930Sender ecrecover sigHash c tx := by
  simp [Signer.eip2930Sender, Signer.checkChainId]

/-- **The recovered sender ignores the `From` field**: it reads the signing hash, the chain id
and the signature values, none of which `SetFrom` changes. -/
theorem sender_setFrom (sg : Signer) (tx : Transaction) (a : Address) :
    Signer.sender ecrecover sigHash sg (tx.setFrom a) = Signer.sender ecrecover sigHash sg tx := by
  cases sg <;> simp [Signer.sender, Signer.checkChainId]

/-- a zero `R` is rejected by `ValidateSignatureValues` whatever the rest is -/
theorem recoverPlain_zero_r (sh : Hash) {r : U256} (s : U256) (vb : Int) (h : Bool) (hr : r = 0) :
    recoverPlain ecrecover sh r s vb h = .error .errInvalidSig := by
  unfold recoverPlain validateSignatureValues
  split_ifs <;> simp_all

section zeroR
variable {tx : Transaction} {v s : Option U256} (hsv : tx.rawSignatureValues = (v, some 0, s))
include hsv

theorem Signer.plainSender_ne_ok_of_zero_r (h : Bool) (sh : Hash) (a : Address) :
    Signer.plainSender ecrecover h sh tx ≠ .ok a := by
  unfold Signer.plainSender
  rw [hsv]
  rcases v with _ | v <;> rcases s with _ | s <;> split_ifs <;> simp [recoverPlain_zero_r]

theorem Signer.eip2930Sender_ne_ok_of_zero_r (c : Nat) (a : Address) :
    Signer.eip2930Sender ecrecover sigHash c tx ≠ .ok a := by
  unfold Signer.eip2930Sender
  rw [hsv]
  rcases v with _ | v <;> rcases s with _ | s <;> split_ifs <;>
    simp [recoverPlain_zero_r, Signer.plainSender_ne_ok_of_zero_r ecrecover hsv]

/-- a transaction whose `R` is zero has no sender under any signer: every path of `Sender` ends
in an error or in `recoverPlain` with that `R` -/
theorem sender_ne_ok_of_zero_r (sg : Signer) (a : Address) :
    Signer.sender ecrecover sigHash sg tx ≠ .ok a := by
  cases sg <;> simp only [Signer.sender]
  · -- London: a dynamic-fee transaction is recovered here, the others by the EIP-2930 signer
    split_ifs
    · exact Signer.eip2930Sender_ne_ok_of_zero_r ecrecover sigHash hsv _ a
    all_goals
      rw [hsv]
      rcases v with _ | v <;> rcases s with _ | s <;> simp [recoverPlain_zero_r]
  · exact Signer.eip2930Sender_ne_ok_of_zero_r ecrecover sigHash hsv _ a
  · -- EIP-155: an unprotected transaction goes to the Homestead signer
    split_ifs
    · simp
    · exact Signer.plainSender_ne_ok_of_zero_r ecrecover hsv _ _ a
    · simp
    · rw [hsv]
      rcases v with _ | v <;> rcases s with _ | s <;> simp [recoverPlain_zero_r]
  · exact Signer.plainSender_ne_ok_of_zero_r ecrecover hsv _ _ a
  · exact Signer.plainSender_ne_ok_of_zero_r ecrecover hsv _ _ a

end zeroR

end

end N42

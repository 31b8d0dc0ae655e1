import N42.State.IntraBlockState
import N42.Lib.Monad

/-!
# (key: root) The state root of a block

`IntraBlockState.GenerateRootHash`, which `ValidateState` compares with `header.Root`: one keccak
over the RLP records, in address order, of the accounts in `stateObjectsDirty`.  A record is
`Incarnation`, `Balance`, `Nonce`, `Initialised`, `CodeHash` and `Root`.  Neither the address nor
a storage slot is in it, and no code writes `Root` from the dirty storage.  The RLP encoding and
keccak are parameters; the dirty set is the one `FinalizeTx` gathered, of addresses with a live
object.

* `writeSet`            what `MakeWriteSet` commits for the dirty addresses: each account and the
                        slots it wrote;
* `generateRootHash_congr`   the root reads the records of the dirty accounts and nothing else;
* `storage_write_not_in_root`   two `SetState`s of different values into one slot give different
                        write sets and the same root, whatever the encoding and the hash.
-/

namespace N42

namespace State

/-- the fields of an account `GenerateRootHash` encodes, in its order -/
abbrev RootRecord := UInt16 × U256 × UInt64 × Bool × Hash × Hash

def StateAccount.rootRecord (a : StateAccount) : RootRecord :=
  (a.incarnation, a.balance, a.nonce, a.initialised, a.codeHash, a.root)

/-- `hash.NilHash` -/
def nilHash : Hash := 0xc5d2460186f7233c927e7db2dcc703c0e500b653ca82273b7bfad8045d85a470

/-- `sort.Sort(sortAds)`: `Addresses.Less` compares the 20 bytes big-endian, which is the order
of the addresses as numbers -/
def sortedAddresses (dirty : Finset Address) : List Address :=
  ((dirty.image BitVec.toNat).sort (· ≤ ·)).map (BitVec.ofNat 160)

/-- `s.getStateObject(address).data` of a dirty address: the record of its live object; `.data`
of a missing one is a `nil` dereference -/
def dirtyRecord (s : IbsState) (a : Address) : Option RootRecord :=
  (s.stateObjects a).map fun so => so.data.rootRecord

/-- `GenerateRootHash()` over the dirty set: `NilHash` when it is empty -/
def generateRootHash (encode : RootRecord → List UInt8) (keccak : List UInt8 → Hash)
    (dirty : Finset Address) (s : IbsState) : Option Hash :=
  if dirty = ∅ then some nilHash
  else do
    let records ← (sortedAddresses dirty).mapM (dirtyRecord s)
    pure (keccak (records.flatMap encode))

/-- what `MakeWriteSet` commits for the dirty addresses: the account and the written storage of
each -/
def writeSet (dirty : Finset Address) (s : IbsState) :
    Address → Option (StateAccount × (Hash → Option U256)) :=
  fun a => if a ∈ dirty then (s.stateObjects a).map fun so => (so.data, so.dirtyStorage) else none

theorem mem_sortedAddresses {dirty : Finset Address} {a : Address} :
    a ∈ sortedAddresses dirty ↔ a ∈ dirty := by
  simp only [sortedAddresses, List.mem_map, Finset.mem_sort, Finset.mem_image]
  constructor
  · rintro ⟨n, ⟨b, hb, rfl⟩, rfl⟩
    rwa [BitVec.ofNat_toNat, BitVec.setWidth_eq]
  · intro ha
    exact ⟨a.toNat, ⟨a, ha, rfl⟩, by rw [BitVec.ofNat_toNat, BitVec.setWidth_eq]⟩

/-- **The root reads the records and nothing else.**  Two states whose dirty accounts have the
same records have the same root, however their storage differs. -/
theorem generateRootHash_congr (encode : RootRecord → List UInt8) (keccak : List UInt8 → Hash)
    {dirty : Finset Address} {s₁ s₂ : IbsState}
    (h : ∀ a ∈ dirty, dirtyRecord s₁ a = dirtyRecord s₂ a) :
    generateRootHash encode keccak dirty s₁ = generateRootHash encode keccak dirty s₂ := by
  have hrecords : (sortedAddresses dirty).mapM (dirtyRecord s₁) =
      (sortedAddresses dirty).mapM (dirtyRecord s₂) :=
    List.mapM_congr_of_mem fun a ha => h a (mem_sortedAddresses.mp ha)
  unfold generateRootHash
  rw [hrecords]

/-- one `SSTORE` into slot 1 of `0xa11ce` on `sampleIbs`, of the value 1 or of the value 2 -/
def storedOne : IbsState := (setState 0xa11ce 1 1 sampleIbs).state
def storedTwo : IbsState := (setState 0xa11ce 1 2 sampleIbs).state

theorem storage_write_not_in_root :
    writeSet {0xa11ce} storedOne ≠ writeSet {0xa11ce} storedTwo ∧
      ∀ (encode : RootRecord → List UInt8) (keccak : List UInt8 → Hash),
        generateRootHash encode keccak {0xa11ce} storedOne =
          generateRootHash encode keccak {0xa11ce} storedTwo := by
  have hslot : (writeSet {0xa11ce} storedOne 0xa11ce).map (fun w => w.2 1) = some (some 1) ∧
      (writeSet {0xa11ce} storedTwo 0xa11ce).map (fun w => w.2 1) = some (some 2) := by
    decide +kernel
  have hrecord : dirtyRecord storedOne 0xa11ce = dirtyRecord storedTwo 0xa11ce := by
    decide +kernel
  refine ⟨fun hws => ?_, fun encode keccak => generateRootHash_congr encode keccak ?_⟩
  · have hsame := congrArg (fun w => (w 0xa11ce).map fun p => p.2 1) hws
    simp only [hslot.1, hslot.2] at hsame
    exact absurd hsame (by decide)
  · intro a ha
    rw [Finset.mem_singleton.mp ha]
    exact hrecord

end State

end N42

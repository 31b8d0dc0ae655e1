import N42.State.IntraBlockState
import N42.Lib.AsOf

/-!
# (key: history) Change sets, history indices and the reads of `PlainState`

`PlainStateWriter` writes the plain state and hands every call to its `ChangeSetWriter`, which
keeps, for the block it writes, the value each changed account and slot had before the block;
`WriteChangeSets` stores them under the block number and `WriteHistory` adds the block to the
index of each changed key, the storage index keyed without the incarnation.  `PlainState` at a
block number reads through `GetAsOf`: the change set of the first block from that number on
whose index has the key, else the plain state.

The bytes of an account are its proto encoding, which `DecodeForStorage` reads back whole, so
the tables hold the account itself; the empty value of `originalAccountData` is `none`, and a
zero slot is the empty value of `Bytes()`.

* `updateAccount`, `commitBlock`, `commitBlocks`   the write set of each block through the writers;
* `findByHistoryAccount`, `getAsOfAccount`, `PlainState.readAccountData`   the reads;
* `readAccountData_eq_read`   a read of an account is `AsOf.read` over its change sets;
* `updateAccountData_skips_incarnation`   a change of the incarnation alone leaves no change set;
* `history_returns_next_incarnation`   so a read before a contract's re-creation in a block
                         returns the new incarnation.
-/

namespace N42

namespace State

/-- a slot of the plain state: `PlainGenerateCompositeStorageKey(address, incarnation, key)` -/
abbrev StorageKey := Address × UInt16 × Hash

/-- the key of the storage index, `CompositeKeyWithoutIncarnation`: the slot without its
incarnation -/
def StorageKey.withoutIncarnation (k : StorageKey) : Address × Hash := (k.1, k.2.2)

/-- `IsEmptyCodeHash` -/
def isEmptyCodeHash (codeHash : Hash) : Bool := codeHash == emptyCodeHash || codeHash == 0

/-- the tables the writers fill: `Account`, `Storage` (no zero value), `Code`,
`PlainContractCode`, `IncarnationMap`, the two change sets by block, and the two history
indices, each a set of block numbers for the bitmap chunks of a key -/
structure Db where
  account : Finmap fun _ : Address => StateAccount
  storage : Finmap fun _ : StorageKey => U256
  code : Finmap fun _ : Hash => List UInt8
  plainContractCode : Finmap fun _ : Address × UInt16 => Hash
  incarnationMap : Finmap fun _ : Address => UInt16
  accountChangeSet : ℕ → Finmap fun _ : Address => Option StateAccount
  storageChangeSet : ℕ → Finmap fun _ : StorageKey => U256
  accountsHistory : Address → Finset ℕ
  storageHistory : Address × Hash → Finset ℕ

/-- an empty database -/
def Db.empty : Db := ⟨∅, ∅, ∅, ∅, ∅, fun _ => ∅, fun _ => ∅, fun _ => ∅, fun _ => ∅⟩

/-! ## `ChangeSetWriter` -/

/-- `ChangeSetWriter`: the changes of one block -/
structure ChangeSetWriter where
  accountChanges : Finmap fun _ : Address => Option StateAccount
  storageChanged : Finset Address
  storageChanges : Finmap fun _ : StorageKey => U256
  blockNumber : ℕ

/-- `NewChangeSetWriterPlain(db, blockNumber)` -/
def newChangeSetWriterPlain (blockNumber : ℕ) : ChangeSetWriter := ⟨∅, ∅, ∅, blockNumber⟩

/-- `accountsEqual`: the nonce, the balance of an initialised account, and the code hash; not
the incarnation, nor the storage root -/
def accountsEqual (a1 a2 : StateAccount) : Bool :=
  if a1.nonce != a2.nonce then false
  else if (if !a1.initialised then a2.initialised
      else if !a2.initialised then true
      else a1.balance != a2.balance) then false
  else if (if isEmptyCodeHash a1.codeHash then !isEmptyCodeHash a2.codeHash
      else if isEmptyCodeHash a2.codeHash then true
      else a1.codeHash != a2.codeHash) then false
  else true

/-- `originalAccountData`: nothing for an account not initialised, else the account, with the
code hash and the root blanked when `omitHashes` -/
def originalAccountData (original : StateAccount) (omitHashes : Bool) : Option StateAccount :=
  if !original.initialised then none
  else if omitHashes then some { original with codeHash := emptyCodeHash, root := emptyCodeHash }
  else some original

namespace ChangeSetWriter

/-- `UpdateAccountData`: the original is kept when the account changed, or a slot of it did -/
def updateAccountData (w : ChangeSetWriter) (address : Address) (original account : StateAccount) :
    ChangeSetWriter :=
  if !accountsEqual original account || address ∈ w.storageChanged then
    { w with accountChanges := w.accountChanges.insert address (originalAccountData original true) }
  else w

/-- `DeleteAccount` -/
def deleteAccount (w : ChangeSetWriter) (address : Address) (original : StateAccount) :
    ChangeSetWriter :=
  if !original.initialised then w
  else { w with accountChanges := w.accountChanges.insert address (originalAccountData original false) }

/-- `WriteAccountStorage` -/
def writeAccountStorage (w : ChangeSetWriter) (address : Address) (incarnation : UInt16) (key : Hash)
    (original value : U256) : ChangeSetWriter :=
  if original = value then w
  else { w with storageChanges := w.storageChanges.insert (address, incarnation, key) original,
                storageChanged := insert address w.storageChanged }

/-- `WriteChangeSets`: the changes under the number of the block, the storage ones only when
there are some -/
def writeChangeSets (w : ChangeSetWriter) (db : Db) : Db :=
  let db := { db with accountChangeSet := Function.update db.accountChangeSet w.blockNumber w.accountChanges }
  if w.storageChanges.keys.card = 0 then db
  else { db with storageChangeSet := Function.update db.storageChangeSet w.blockNumber w.storageChanges }

/-- `WriteHistory`: `writeIndex` adds the block to the index of each changed key -/
def writeHistory (w : ChangeSetWriter) (db : Db) : Db :=
  { db with
    accountsHistory := fun a =>
      if a ∈ w.accountChanges then insert w.blockNumber (db.accountsHistory a) else db.accountsHistory a
    storageHistory := fun k =>
      if ∃ sk ∈ w.storageChanges.keys, sk.withoutIncarnation = k then
        insert w.blockNumber (db.storageHistory k)
      else db.storageHistory k }

end ChangeSetWriter

/-! ## `PlainStateWriter` -/

/-- `PlainStateWriter` with its change set writer -/
structure PlainStateWriter where
  db : Db
  csw : ChangeSetWriter

namespace PlainStateWriter

/-- `UpdateAccountData`: the account into `Account` -/
def updateAccountData (w : PlainStateWriter) (address : Address) (original account : StateAccount) :
    PlainStateWriter :=
  ⟨{ w.db with account := w.db.account.insert address account },
    w.csw.updateAccountData address original account⟩

/-- `UpdateAccountCode`: the code under its hash, and the hash under the address and
incarnation -/
def updateAccountCode (w : PlainStateWriter) (address : Address) (incarnation : UInt16)
    (codeHash : Hash) (code : List UInt8) : PlainStateWriter :=
  { w with db := { w.db with code := w.db.code.insert codeHash code,
                             plainContractCode := w.db.plainContractCode.insert (address, incarnation) codeHash } }

/-- `DeleteAccount`: out of `Account`, its incarnation kept in `IncarnationMap` -/
def deleteAccount (w : PlainStateWriter) (address : Address) (original : StateAccount) :
    PlainStateWriter :=
  let db := { w.db with account := w.db.account.erase address }
  let db := if original.incarnation > 0 then
      { db with incarnationMap := db.incarnationMap.insert address original.incarnation }
    else db
  ⟨db, w.csw.deleteAccount address original⟩

/-- `WriteAccountStorage`: a zero value is deleted -/
def writeAccountStorage (w : PlainStateWriter) (address : Address) (incarnation : UInt16) (key : Hash)
    (original value : U256) : PlainStateWriter :=
  let csw := w.csw.writeAccountStorage address incarnation key original value
  if original = value then { w with csw }
  else if value = 0 then ⟨{ w.db with storage := w.db.storage.erase (address, incarnation, key) }, csw⟩
  else ⟨{ w.db with storage := w.db.storage.insert (address, incarnation, key) value }, csw⟩

end PlainStateWriter

/-! ## the write set of a block -/

/-- `intra_block_state.go`'s `SystemAddress` -/
def systemAddress : Address := BitVec.ofNat 160 (2 ^ 160 - 2)

/-- what `updateAccount` and `updateTrie` read of a `stateObject`: its dirty slots in the order
of the range, and the value of each at the start of the block -/
structure CommitObject where
  data : StateAccount
  original : StateAccount
  created : Bool
  selfdestructed : Bool
  code : Option (List UInt8)
  dirtyCode : Bool
  dirtyStorage : List (Hash × U256)
  blockOriginStorage : Hash → U256

/-- `so.empty()` -/
def CommitObject.empty (so : CommitObject) : Bool :=
  so.data.nonce == 0 && so.data.balance == 0 && so.data.codeHash == emptyCodeHash

/-- `updateAccount`: the writer calls for one state object -/
def updateAccount (eip161Enabled isAura : Bool) (w : PlainStateWriter) (address : Address)
    (so : CommitObject) (isDirty : Bool) : PlainStateWriter :=
  let emptyRemoval := eip161Enabled && so.empty && (!isAura || address != systemAddress)
  let w := if so.selfdestructed || (isDirty && emptyRemoval) then w.deleteAccount address so.original
    else w
  if isDirty && (so.created || !so.selfdestructed) && !emptyRemoval then
    let w := match so.code with
      | some code => if so.dirtyCode then w.updateAccountCode address so.data.incarnation so.data.codeHash code
          else w
      | none => w
    let w := so.dirtyStorage.foldl (fun w (kv : Hash × U256) =>
      w.writeAccountStorage address so.data.incarnation kv.1 (so.blockOriginStorage kv.1) kv.2) w
    w.updateAccountData address so.original so.data
  else w

/-- a block: the write set (`MakeWriteSet` of `CommitBlock`, each object with whether it is
dirty) through a `NewPlainStateWriter(db, db, blockNumber)`, then `WriteChangeSets` and
`WriteHistory`; the writes of the kv store do not fail -/
def commitBlock (eip161Enabled isAura : Bool) (db : Db) (blockNumber : ℕ)
    (objects : List (Address × CommitObject × Bool)) : Db :=
  let w := objects.foldl (fun w (o : Address × CommitObject × Bool) =>
    updateAccount eip161Enabled isAura w o.1 o.2.1 o.2.2) ⟨db, newChangeSetWriterPlain blockNumber⟩
  w.csw.writeHistory (w.csw.writeChangeSets w.db)

/-- the blocks `first, first + 1, …` committed in turn -/
def commitBlocks (eip161Enabled isAura : Bool) : Db → ℕ → List (List (Address × CommitObject × Bool)) → Db
  | db, _, [] => db
  | db, first, objects :: blocks =>
    commitBlocks eip161Enabled isAura (commitBlock eip161Enabled isAura db first objects) (first + 1) blocks

/-! ## the reads -/

/-- the code hash of a contract whose change set blanked it, from `PlainContractCode` -/
def restoreCodeHash (db : Db) (address : Address) (acc : StateAccount) : StateAccount :=
  if acc.incarnation > 0 && isEmptyCodeHash acc.codeHash then
    match db.plainContractCode.lookup (address, acc.incarnation) with
    | some codeHash => { acc with codeHash }
    | none => acc
  else acc

/-- `FindByHistory` of an account: `none` is `ErrKeyNotFound`; a block of the index whose change
set lacks the key reads as the empty value -/
def findByHistoryAccount (db : Db) (address : Address) (timestamp : ℕ) : Option (Option StateAccount) :=
  match AsOf.seek (db.accountsHistory address) timestamp with
  | some b => some ((((db.accountChangeSet b).lookup address).join).map (restoreCodeHash db address))
  | none => none

/-- `GetAsOf` of an account -/
def getAsOfAccount (db : Db) (address : Address) (timestamp : ℕ) : Option StateAccount :=
  match findByHistoryAccount db address timestamp with
  | some data => data
  | none => db.account.lookup address

/-- `FindByHistory` of a slot: the index is of the slot without its incarnation, the change set
of the slot with it, and a change set without the slot is `ErrKeyNotFound` -/
def findByHistoryStorage (db : Db) (key : StorageKey) (timestamp : ℕ) : Option U256 :=
  match AsOf.seek (db.storageHistory key.withoutIncarnation) timestamp with
  | some b => (db.storageChangeSet b).lookup key
  | none => none

/-- `GetAsOf` of a slot -/
def getAsOfStorage (db : Db) (key : StorageKey) (timestamp : ℕ) : U256 :=
  match findByHistoryStorage db key timestamp with
  | some v => v
  | none => (db.storage.lookup key).getD 0

namespace PlainState

/-- `PlainState(tx, blockNr).ReadAccountData(address)` -/
def readAccountData (db : Db) (blockNr : ℕ) (address : Address) : Option StateAccount :=
  (getAsOfAccount db address blockNr).map (restoreCodeHash db address)

/-- `PlainState(tx, blockNr).ReadAccountStorage(address, incarnation, key)`: `nil` for zero -/
def readAccountStorage (db : Db) (blockNr : ℕ) (address : Address) (incarnation : UInt16) (key : Hash) :
    Option U256 :=
  let v := getAsOfStorage db (address, incarnation, key) blockNr
  if v = 0 then none else some v

end PlainState

/-! ## what the reads are -/

/-- a second restore changes nothing: the incarnation it looks up under stays -/
theorem restoreCodeHash_restoreCodeHash (db : Db) (address : Address) (acc : StateAccount) :
    restoreCodeHash db address (restoreCodeHash db address acc) = restoreCodeHash db address acc := by
  unfold restoreCodeHash
  by_cases hc : (acc.incarnation > 0 && isEmptyCodeHash acc.codeHash) = true
  · rw [if_pos hc]
    cases hl : db.plainContractCode.lookup (address, acc.incarnation) with
    | none => simp only [hc, if_true, hl]
    | some codeHash =>
      dsimp only
      split
      · rw [hl]
      · rfl
  · rw [if_neg hc, if_neg hc]

/-- **`PlainState` reads as `AsOf.read`** over the change sets of accounts and their index, with
the current value from `Account` and the code hash restored -/
theorem readAccountData_eq_read (db : Db) (blockNr : ℕ) (address : Address) :
    PlainState.readAccountData db blockNr address =
      ((AsOf.read (fun a => db.account.lookup a) (fun b a => (db.accountChangeSet b).lookup a)
        db.accountsHistory blockNr address).join).map (restoreCodeHash db address) := by
  unfold PlainState.readAccountData getAsOfAccount findByHistoryAccount AsOf.read
  cases hs : AsOf.seek (db.accountsHistory address) blockNr with
  | some b =>
    dsimp only
    rw [Option.map_map]
    congr 1
    funext acc
    exact restoreCodeHash_restoreCodeHash db address acc
  | none => rfl

/-- **Reads of a recorded history.**  When the change sets of accounts and their index record
the states `s 0, …, s H` of `Account`, the last of them the current one, `PlainState` at `n`
reads `s (n - 1)`, with the code hash restored -/
theorem readAccountData_of_recorded {db : Db} {s : ℕ → Address → Option StateAccount} {H : ℕ}
    (h : AsOf.Recorded s (fun b a => (db.accountChangeSet b).lookup a) db.accountsHistory H)
    (hcur : s H = fun a => db.account.lookup a) {n : ℕ} (hn₁ : 1 ≤ n) (hn : n ≤ H + 1)
    (address : Address) :
    PlainState.readAccountData db n address = (s (n - 1) address).map (restoreCodeHash db address) := by
  rw [readAccountData_eq_read, ← hcur, h.read_eq hn₁ hn address, Option.join_some]

/-- the slots a read finds in a change set are those of its incarnation: the index is of the
slot without it -/
theorem findByHistoryStorage_eq (db : Db) (key : StorageKey) (timestamp : ℕ) :
    findByHistoryStorage db key timestamp =
      (AsOf.seek (db.storageHistory key.withoutIncarnation) timestamp).bind
        fun b => (db.storageChangeSet b).lookup key := by
  unfold findByHistoryStorage
  split <;> rename_i h <;> rw [h] <;> rfl

/-! ## an incarnation changed alone -/

/-- `accountsEqual` does not see the incarnation, nor the root -/
theorem accountsEqual_incarnation (a : StateAccount) (incarnation : UInt16) (root : Hash) :
    accountsEqual a { a with incarnation, root } = true := by
  unfold accountsEqual
  -- the three tests read the same nonce, balance and code hash on both sides
  cases a.initialised <;> cases isEmptyCodeHash a.codeHash <;> simp

/-- an account that `accountsEqual` sees changed has its original in the change set -/
theorem updateAccountData_records (w : ChangeSetWriter) (address : Address)
    {original account : StateAccount} (h : accountsEqual original account = false) :
    (w.updateAccountData address original account).accountChanges.lookup address =
      some (originalAccountData original true) := by
  unfold ChangeSetWriter.updateAccountData
  rw [h]
  simp

/-- **A change of the incarnation alone leaves no change set**: when no slot of the account
changed before, `UpdateAccountData` from an original to the same account of another
incarnation records nothing -/
theorem updateAccountData_skips_incarnation (w : ChangeSetWriter) {address : Address}
    (h : address ∉ w.storageChanged) (original : StateAccount) (incarnation : UInt16) (root : Hash) :
    w.updateAccountData address original { original with incarnation, root } = w := by
  unfold ChangeSetWriter.updateAccountData
  rw [accountsEqual_incarnation]
  simp [h]

/-! ## a contract re-created within a block -/

/-- a contract address, its code and the hash of the code -/
def contractAddress : Address := BitVec.ofNat 160 0xc0de

def contractCode : List UInt8 := [0x60, 0x00]

def contractCodeHash : Hash := BitVec.ofNat 256 0x1234

/-- the contract as its first creation left it: nonce `1`, no balance, incarnation `1`, and the
zero root of `new(account.StateAccount)` -/
def firstIncarnation : StateAccount := ⟨true, 1, 0, contractCodeHash, 1, 0⟩

/-- the object of the contract created by `CREATE2` in block `1`, from a fresh address -/
def createdObject : CommitObject where
  data := firstIncarnation
  original := StateAccount.empty
  created := true
  selfdestructed := false
  code := some contractCode
  dirtyCode := true
  dirtyStorage := []
  blockOriginStorage := fun _ => 0

/-- the object of block `2`, where the contract selfdestructs in one transaction and the same
`CREATE2` re-creates it in a later one: `CreateAccount` takes the incarnation of the destroyed
object and adds one, and `createObject` keeps its `original`; nonce, balance and code are as
before -/
def recreatedObject : CommitObject where
  data := { firstIncarnation with incarnation := 2 }
  original := firstIncarnation
  created := true
  selfdestructed := false
  code := some contractCode
  dirtyCode := true
  dirtyStorage := []
  blockOriginStorage := fun _ => 0

/-- blocks `1` and `2`, committed as `FinalizeBlockExecution` commits them -/
def recreationChain : Db :=
  commitBlocks true false Db.empty 1 [[(contractAddress, createdObject, true)],
    [(contractAddress, recreatedObject, true)]]

set_option maxRecDepth 10000 in
/-- at the end of block `1` the contract is at incarnation `1`; `PlainState` at block `2`, the
state before block `2`, reads incarnation `2`: block `2` left no change set for the contract,
so the read falls through to the plain state -/
theorem history_returns_next_incarnation :
    (commitBlocks true false Db.empty 1 [[(contractAddress, createdObject, true)]]).account.lookup
        contractAddress = some firstIncarnation ∧
      PlainState.readAccountData recreationChain 2 contractAddress =
        some { firstIncarnation with incarnation := 2 } := by
  decide +kernel

end State

end N42

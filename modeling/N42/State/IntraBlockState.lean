import N42.Params.Protocol
import N42.Lib.Journal

/-!
# (key: ibs) `IntraBlockState`, its state objects and its journal

`modules/state`: the live state objects over a read-only `StateReader`, the lazy balance
increments of accounts no one has read, the refund counter, and the journal entries of
`journal.go` with their `revert`.  Reading an account is a state change here as in the source:
`getStateObject` loads the account into `stateObjects`, unjournaled, and `setStateObject` then
moves a pending balance increment into the loaded object, which it does journal.

* `revert_keeps_lazy_increase`   an increment added inside a snapshot to an unread account, and
                        moved into the account by a read inside the same snapshot, survives the
                        revert: the balance the account had before the snapshot is not restored;
* `revert_suicide_clears_created`   a selfdestruct of a created object, reverted, leaves the object
                        no longer `created`: `Suicide` clears the flag without journaling it;
* `setBalance_loaded_restored`   on a loaded object, a balance change is undone exactly.
-/

set_option linter.unusedSectionVars false
set_option linter.unusedVariables false

namespace N42

namespace State

/-- `account.StateAccount`: the fields the state object reads, and the storage `Root` that
`GenerateRootHash` encodes; no code here writes `Root` -/
structure StateAccount where
  initialised : Bool
  nonce : UInt64
  balance : U256
  codeHash : Hash
  incarnation : UInt16
  root : Hash
deriving DecidableEq, Repr

/-- `account.StateAccount{}` -/
def StateAccount.empty : StateAccount := ⟨false, 0, 0, 0, 0, 0⟩

/-- `stateObject`, without its code and the debugging `fakeStorage` -/
structure StateObject where
  data : StateAccount
  original : StateAccount
  originStorage : Hash → Option U256
  dirtyStorage : Hash → Option U256
  created : Bool
  selfdestructed : Bool
  deleted : Bool

/-- `newObject(db, address, data, original)` -/
def newObject (data original : StateAccount) : StateObject :=
  let data := if data.initialised then data else { data with balance := 0, initialised := true }
  let data := if data.codeHash = 0 then { data with codeHash := emptyCodeHash } else data
  { data, original, originStorage := fun _ => none, dirtyStorage := fun _ => none,
    created := false, selfdestructed := false, deleted := false }

/-- `so.empty()` of EIP-161 -/
def StateObject.empty (so : StateObject) : Bool :=
  so.data.nonce == 0 && so.data.balance == 0 && so.data.codeHash == emptyCodeHash

/-- the database the block reads, which it does not write -/
structure StateReader where
  readAccountData : Address → Option StateAccount
  readAccountStorage : Address → UInt16 → Hash → U256
  readAccountIncarnation : Address → UInt16

/-- `BalanceIncrease`: the increments added to an account no one has read -/
structure BalanceIncrease where
  increase : U256
  count : Nat
  transferred : Bool
deriving DecidableEq, Repr

/-- the fields of `IntraBlockState` the modelled methods read and write -/
structure IbsState where
  stateReader : StateReader
  stateObjects : Address → Option StateObject
  nilAccounts : Address → Bool
  balanceInc : Address → Option BalanceIncrease
  refund : UInt64

namespace IbsState

/-- store `obj` as the live object of `addr`, as an assignment through the pointer does -/
def putObject (s : IbsState) (addr : Address) (obj : StateObject) : IbsState :=
  { s with stateObjects := Function.update s.stateObjects addr (some obj) }

/-- change the live object of `addr`, if there is one -/
def modifyObject (s : IbsState) (addr : Address) (f : StateObject → StateObject) : IbsState :=
  { s with stateObjects := Function.update s.stateObjects addr ((s.stateObjects addr).map f) }

/-- whether `addr` has an increment not yet moved into a loaded object -/
def pendingIncrease (s : IbsState) (addr : Address) : Bool :=
  match s.balanceInc addr with
  | some bi => !bi.transferred
  | none => false

/-- `setStateObject` without its journal entry: a pending increment is added to the object's
balance and marked transferred -/
def installObject (s : IbsState) (addr : Address) (obj : StateObject) : IbsState :=
  match s.balanceInc addr with
  | some bi =>
    if bi.transferred then s.putObject addr obj
    else
      let obj' := { obj with data := { obj.data with balance := obj.data.balance + bi.increase } }
      { s.putObject addr obj' with
        balanceInc := Function.update s.balanceInc addr (some { bi with transferred := true }) }
  | none => s.putObject addr obj

end IbsState

/-- the entries of `journal.go` -/
inductive JournalEntry where
  | createObjectChange (account : Address)
  | resetObjectChange (account : Address) (prev : StateObject)
  | selfdestructChange (account : Address) (prev : Bool) (prevbalance : U256)
  | balanceChange (account : Address) (prev : U256)
  | balanceIncrease (account : Address) (increase : U256)
  | balanceIncreaseTransfer (account : Address)
  | nonceChange (account : Address) (prev : UInt64)
  | storageChange (account : Address) (key : Hash) (prevalue : U256)
  | refundChange (prev : UInt64)
  | touchChange (account : Address)

/-- `setBalance` of a state object: the balance, and the account marked initialised -/
def StateObject.setBalance (so : StateObject) (amount : U256) : StateObject :=
  { so with data := { so.data with balance := amount, initialised := true } }

namespace JournalEntry

/-- `revert(s)` of each entry.  The entries that dereference `s.getStateObject(addr)` find the
live object, which the change they undo created or loaded; the `setStateObject` of
`resetObjectChange` journals into entries the revert then truncates. -/
def revert : JournalEntry → IbsState → IbsState
  | .createObjectChange a, s => { s with stateObjects := Function.update s.stateObjects a none }
  | .resetObjectChange a prev, s => s.installObject a prev
  | .selfdestructChange a prev pb, s =>
    s.modifyObject a fun so => { so.setBalance pb with selfdestructed := prev }
  | .balanceChange a prev, s => s.modifyObject a fun so => so.setBalance prev
  | .balanceIncrease a inc, s =>
    match s.balanceInc a with
    | some bi =>
      let bi := { bi with increase := bi.increase - inc, count := bi.count - 1 }
      if bi.count = 0 then { s with balanceInc := Function.update s.balanceInc a none }
      else { s with balanceInc := Function.update s.balanceInc a (some bi) }
    | none => s
  | .balanceIncreaseTransfer a, s =>
    match s.balanceInc a with
    | some bi =>
      { s with balanceInc := Function.update s.balanceInc a (some { bi with transferred := false }) }
    | none => s
  | .nonceChange a prev, s =>
    s.modifyObject a fun so => { so with data := { so.data with nonce := prev } }
  | .storageChange a key prev, s =>
    s.modifyObject a fun so =>
      { so with dirtyStorage := Function.update so.dirtyStorage key (some prev) }
  | .refundChange prev, s => { s with refund := prev }
  | .touchChange _, s => s

end JournalEntry

/-- the state with its journal, revisions and next revision id -/
abbrev Ibs := Journal.Journaled IbsState JournalEntry

/-! ## loading and creating objects -/

/-- `setStateObject(addr, object)`: the installed object, with the journal entry of a
transferred increment -/
def setStateObject (addr : Address) (obj : StateObject) (j : Ibs) : StateObject × Ibs :=
  let s := j.state.installObject addr obj
  let installed := (s.stateObjects addr).getD obj
  if j.state.pendingIncrease addr then (installed, j.record s [.balanceIncreaseTransfer addr])
  else (installed, j.record s [])

/-- `createObject(addr, previous)` -/
def createObject (addr : Address) (previous : Option StateObject) (j : Ibs) : StateObject × Ibs :=
  let original := match previous with
    | some p => p.original
    | none => StateAccount.empty
  let newobj := newObject StateAccount.empty original
  let newobj := { newobj with data := { newobj.data with nonce := 0 } }
  let entry := match previous with
    | some p => JournalEntry.resetObjectChange addr p
    | none => .createObjectChange addr
  setStateObject addr newobj (j.record j.state [entry])

/-- `getStateObject(addr)`: the live object, else the account loaded from the database, which
the state keeps; an account that does not exist is remembered in `nilAccounts`, and only a
pending increment makes an object for it -/
def getStateObject (addr : Address) (j : Ibs) : Option StateObject × Ibs :=
  match j.state.stateObjects addr with
  | some obj => (some obj, j)
  | none =>
    if j.state.nilAccounts addr then
      if j.state.pendingIncrease addr then
        let r := createObject addr none j
        (some r.1, r.2)
      else (none, j)
    else
      match j.state.stateReader.readAccountData addr with
      | none =>
        let j := { j with state := { j.state with
          nilAccounts := Function.update j.state.nilAccounts addr true } }
        if j.state.pendingIncrease addr then
          let r := createObject addr none j
          (some r.1, r.2)
        else (none, j)
      | some acc =>
        let r := setStateObject addr (newObject acc acc) j
        (some r.1, r.2)

/-- `GetOrNewStateObject(addr)` -/
def getOrNewStateObject (addr : Address) (j : Ibs) : StateObject × Ibs :=
  match getStateObject addr j with
  | (some obj, j) => if obj.deleted then createObject addr (some obj) j else (obj, j)
  | (none, j) => createObject addr none j

/-! ## the setters -/

/-- `so.SetBalance(amount)` on the live object `so` of `addr` -/
def objSetBalance (addr : Address) (so : StateObject) (amount : U256) (j : Ibs) : Ibs :=
  j.record (j.state.putObject addr (so.setBalance amount)) [.balanceChange addr so.data.balance]

/-- `so.AddBalance(amount)`: a zero amount only touches an empty account -/
def objAddBalance (addr : Address) (so : StateObject) (amount : U256) (j : Ibs) : Ibs :=
  if amount = 0 then
    if so.empty then j.record j.state [.touchChange addr] else j
  else objSetBalance addr so (so.data.balance + amount) j

/-- `so.SubBalance(amount)` -/
def objSubBalance (addr : Address) (so : StateObject) (amount : U256) (j : Ibs) : Ibs :=
  if amount = 0 then j else objSetBalance addr so (so.data.balance - amount) j

/-- the `ripemd` precompile, `0x…03` -/
def ripemd : Address := 3

/-- `AddBalance(addr, amount)`: an account no one has read gets the amount added to its
`balanceInc` entry, journaled as `balanceIncrease` -/
def addBalance (addr : Address) (amount : U256) (j : Ibs) : Ibs :=
  let needAccount := (j.state.stateObjects addr).isSome || (addr == ripemd && amount == 0)
  if needAccount then
    let r := getOrNewStateObject addr j
    objAddBalance addr r.1 amount r.2
  else
    let bi := (j.state.balanceInc addr).getD ⟨0, 0, false⟩
    j.record
      { j.state with
        balanceInc := Function.update j.state.balanceInc addr
          (some { bi with increase := bi.increase + amount, count := bi.count + 1 }) }
      [.balanceIncrease addr amount]

/-- `SubBalance(addr, amount)` -/
def subBalance (addr : Address) (amount : U256) (j : Ibs) : Ibs :=
  let r := getOrNewStateObject addr j
  objSubBalance addr r.1 amount r.2

/-- `SetBalance(addr, amount)` -/
def setBalance (addr : Address) (amount : U256) (j : Ibs) : Ibs :=
  let r := getOrNewStateObject addr j
  objSetBalance addr r.1 amount r.2

/-- `SetNonce(addr, nonce)` -/
def setNonce (addr : Address) (nonce : UInt64) (j : Ibs) : Ibs :=
  let r := getOrNewStateObject addr j
  r.2.record (r.2.state.putObject addr { r.1 with data := { r.1.data with nonce := nonce } })
    [.nonceChange addr r.1.data.nonce]

/-- `so.GetCommittedState(key)`: the cached original value, zero for a created object, else
the database value at the object's incarnation, which is then cached -/
def StateObject.getCommittedState (reader : StateReader) (addr : Address) (so : StateObject)
    (key : Hash) : U256 × StateObject :=
  match so.originStorage key with
  | some v => (v, so)
  | none =>
    if so.created then (0, so)
    else
      let v := reader.readAccountStorage addr so.data.incarnation key
      (v, { so with originStorage := Function.update so.originStorage key (some v) })

/-- `so.GetState(key)`: the dirty value, else the committed one -/
def StateObject.getState (reader : StateReader) (addr : Address) (so : StateObject)
    (key : Hash) : U256 × StateObject :=
  match so.dirtyStorage key with
  | some v => (v, so)
  | none => so.getCommittedState reader addr key

/-- `SetState(addr, key, value)`: an unchanged value journals nothing -/
def setState (addr : Address) (key : Hash) (value : U256) (j : Ibs) : Ibs :=
  let r := getOrNewStateObject addr j
  let p := r.1.getState r.2.state.stateReader addr key
  let j := { r.2 with state := r.2.state.putObject addr p.2 }
  if p.1 = value then j
  else
    j.record (j.state.putObject addr
        { p.2 with dirtyStorage := Function.update p.2.dirtyStorage key (some value) })
      [.storageChange addr key p.1]

/-- `CreateAccount(addr, contractCreation)`: a new object over the previous one, with its
balance; a contract is `created` at the next incarnation -/
def createAccount (addr : Address) (contractCreation : Bool) (j : Ibs) : Ibs :=
  let g := getStateObject addr j
  let j := g.2
  let prevInc : UInt16 :=
    match g.1 with
    | some p => if p.selfdestructed then p.data.incarnation
        else j.state.stateReader.readAccountIncarnation addr
    | none => j.state.stateReader.readAccountIncarnation addr
  let c := createObject addr g.1 j
  let newObj := match g.1 with
    | some p => { c.1 with data := { c.1.data with balance := p.data.balance, initialised := true } }
    | none => c.1
  let newObj :=
    if contractCreation then
      { newObj with created := true, data := { newObj.data with incarnation := prevInc + 1 } }
    else { newObj with selfdestructed := false }
  { c.2 with state := c.2.state.putObject addr newObj }

/-- `AddRefund(gas)` -/
def addRefund (gas : UInt64) (j : Ibs) : Ibs :=
  j.record { j.state with refund := j.state.refund + gas } [.refundChange j.state.refund]

/-- `SubRefund(gas)`; the error a counter below `gas` records is not modelled here -/
def subRefund (gas : UInt64) (j : Ibs) : Ibs :=
  j.record { j.state with refund := j.state.refund - gas } [.refundChange j.state.refund]

/-- `Suicide(addr)`: the account is marked, loses its balance, and is no longer `created`; only
the first two are journaled -/
def suicide (addr : Address) (j : Ibs) : Bool × Ibs :=
  match getStateObject addr j with
  | (some so, j) =>
    if so.deleted then (false, j)
    else
      (true, j.record (j.state.putObject addr
          { so with selfdestructed := true, created := false,
                    data := { so.data with balance := 0 } })
        [.selfdestructChange addr so.selfdestructed so.data.balance])
  | (none, j) => (false, j)

/-! ## the getters -/

/-- `GetBalance(addr)` -/
def getBalance (addr : Address) (j : Ibs) : U256 × Ibs :=
  match getStateObject addr j with
  | (some so, j) => (if so.deleted then 0 else so.data.balance, j)
  | (none, j) => (0, j)

/-- `Exist(addr)` -/
def exist (addr : Address) (j : Ibs) : Bool × Ibs :=
  match getStateObject addr j with
  | (some so, j) => (!so.deleted, j)
  | (none, j) => (false, j)

/-- `GetState(addr, key)` -/
def getState (addr : Address) (key : Hash) (j : Ibs) : U256 × Ibs :=
  match getStateObject addr j with
  | (some so, j) =>
    if so.deleted then (0, j)
    else
      let p := so.getState j.state.stateReader addr key
      (p.1, { j with state := j.state.putObject addr p.2 })
  | (none, j) => (0, j)

/-- `GetCommittedState(addr, key)` -/
def getCommittedState (addr : Address) (key : Hash) (j : Ibs) : U256 × Ibs :=
  match getStateObject addr j with
  | (some so, j) =>
    if so.deleted then (0, j)
    else
      let p := so.getCommittedState j.state.stateReader addr key
      (p.1, { j with state := j.state.putObject addr p.2 })
  | (none, j) => (0, j)

/-- `HasSuicided(addr)` -/
def hasSuicided (addr : Address) (j : Ibs) : Bool × Ibs :=
  match getStateObject addr j with
  | (some so, j) => (!so.deleted && !so.created && so.selfdestructed, j)
  | (none, j) => (false, j)

/-- the revert of the journal -/
def revertToSnapshot (revid : Nat) (j : Ibs) : Option Ibs :=
  j.revertToSnapshot JournalEntry.revert revid

/-! ## what loading does -/

section Spec

variable {addr : Address} {j : Ibs}

theorem getStateObject_live {so : StateObject} (h : j.state.stateObjects addr = some so) :
    getStateObject addr j = (some so, j) := by
  simp only [getStateObject, h]

/-- an account read for the first time is loaded from the database and installed -/
theorem getStateObject_load {acc : StateAccount} (hobj : j.state.stateObjects addr = none)
    (hnil : j.state.nilAccounts addr = false)
    (hacc : j.state.stateReader.readAccountData addr = some acc) :
    getStateObject addr j =
      (some (setStateObject addr (newObject acc acc) j).1,
        (setStateObject addr (newObject acc acc) j).2) := by
  simp only [getStateObject, hobj, hnil, hacc, Bool.false_eq_true, if_false]

/-- installing an object with no increment pending journals nothing -/
theorem setStateObject_of_none {obj : StateObject} (h : j.state.balanceInc addr = none) :
    setStateObject addr obj j = (obj, j.record (j.state.putObject addr obj) []) := by
  simp [setStateObject, IbsState.installObject, IbsState.pendingIncrease, h,
    IbsState.putObject]

/-- installing an object moves a pending increment into it, journaled as a transfer -/
theorem setStateObject_of_pending {obj : StateObject} {bi : BalanceIncrease}
    (h : j.state.balanceInc addr = some bi) (ht : bi.transferred = false) :
    setStateObject addr obj j =
      let obj' := { obj with data := { obj.data with balance := obj.data.balance + bi.increase } }
      (obj', j.record
        { j.state.putObject addr obj' with
          balanceInc := Function.update j.state.balanceInc addr (some { bi with transferred := true }) }
        [.balanceIncreaseTransfer addr]) := by
  simp [setStateObject, IbsState.installObject, IbsState.pendingIncrease, h, ht,
    IbsState.putObject]

theorem newObject_balance {acc : StateAccount} (h : acc.initialised = true) (original : StateAccount) :
    (newObject acc original).data.balance = acc.balance := by
  unfold newObject
  dsimp only
  rw [if_pos h]
  split <;> rfl

theorem newObject_deleted (acc original : StateAccount) : (newObject acc original).deleted = false :=
  rfl

theorem getBalance_live {so : StateObject} (h : j.state.stateObjects addr = some so) :
    getBalance addr j = (if so.deleted then 0 else so.data.balance, j) := by
  simp only [getBalance, getStateObject_live h]

end Spec

/-! ## the revert -/

/-- **A lazy increment outlives its revert.**  Take an account the database holds and the state
has not read.  Inside a snapshot, `AddBalance` records the amount as a pending increment and a
read of the balance loads the account with the increment added.  Reverting the snapshot undoes
the increment's two journal entries, but not the load: the account keeps the increment, where
before the snapshot it read as the database balance. -/
theorem revert_keeps_lazy_increase {j : Ibs} {addr : Address} {acc : StateAccount}
    (amount : U256) (hobj : j.state.stateObjects addr = none)
    (hnil : j.state.nilAccounts addr = false) (hinc : j.state.balanceInc addr = none)
    (hacc : j.state.stateReader.readAccountData addr = some acc) (hinit : acc.initialised = true)
    (hr : addr ≠ ripemd) (hids : ∀ r ∈ j.validRevisions, r.id < j.nextRevisionId) :
    (getBalance addr j).1 = acc.balance ∧
      ∃ j', revertToSnapshot j.nextRevisionId
          (getBalance addr (addBalance addr amount j.snapshot.2)).2 = some j' ∧
        (getBalance addr j').1 = acc.balance + amount := by
  -- before the snapshot the read loads the database balance
  have hbefore : (getBalance addr j).1 = acc.balance := by
    simp only [getBalance, getStateObject_load hobj hnil hacc, setStateObject_of_none hinc,
      newObject_deleted, Bool.false_eq_true, if_false]
    exact newObject_balance hinit acc
  refine ⟨hbefore, ?_⟩
  -- inside it, `AddBalance` takes the lazy path
  set j₁ := j.snapshot.2 with hj₁
  have hadd : addBalance addr amount j₁ =
      j₁.record { j₁.state with
        balanceInc := Function.update j₁.state.balanceInc addr (some ⟨0 + amount, 0 + 1, false⟩) }
        [.balanceIncrease addr amount] := by
    have hneed : ((j₁.state.stateObjects addr).isSome || (addr == ripemd && amount == 0)) =
        false := by
      simp [hj₁, Journal.Journaled.snapshot, hobj, hr]
    simp only [addBalance, hneed, Bool.false_eq_true, if_false]
    simp [hj₁, Journal.Journaled.snapshot, hinc]
  -- the read inside the snapshot loads the account and moves the increment into it
  obtain ⟨j₂, hj₂⟩ : ∃ j₂, j₂ = addBalance addr amount j₁ := ⟨_, rfl⟩
  rw [← hj₂]
  rw [hadd] at hj₂
  have hobj₂ : j₂.state.stateObjects addr = none := by
    simp [hj₂, hj₁, Journal.Journaled.snapshot, hobj]
  have hnil₂ : j₂.state.nilAccounts addr = false := by
    simp [hj₂, hj₁, Journal.Journaled.snapshot, hnil]
  have hacc₂ : j₂.state.stateReader.readAccountData addr = some acc := by
    simp [hj₂, hj₁, Journal.Journaled.snapshot, hacc]
  have hinc₂ : j₂.state.balanceInc addr = some ⟨0 + amount, 0 + 1, false⟩ := by
    simp [hj₂]
  set loaded := { newObject acc acc with
    data := { (newObject acc acc).data with balance := (newObject acc acc).data.balance + (0 + amount) } }
  have hread : (getBalance addr j₂).2 = j₂.record
      { j₂.state.putObject addr loaded with
        balanceInc := Function.update j₂.state.balanceInc addr (some ⟨0 + amount, 0 + 1, true⟩) }
      [.balanceIncreaseTransfer addr] := by
    simp only [getBalance, getStateObject_load hobj₂ hnil₂ hacc₂,
      setStateObject_of_pending hinc₂ rfl]
    rfl
  -- the revert undoes the transfer and the increment, and leaves the loaded object
  have hv : (getBalance addr j₂).2.validRevisions = j.snapshot.2.validRevisions := by
    rw [hread, hj₂]
    rfl
  have hentries : (getBalance addr j₂).2.entries =
      j.entries ++ [.balanceIncrease addr amount, .balanceIncreaseTransfer addr] := by
    rw [hread, hj₂]
    simp [hj₁, Journal.Journaled.snapshot]
  refine ⟨_, Journal.Journaled.revertToSnapshot_snapshot hids hv, ?_⟩
  have hlive : (Journal.Journaled.restore JournalEntry.revert (getBalance addr j₂).2
      j.entries.length).stateObjects addr = some loaded := by
    rw [Journal.Journaled.restore, hentries, List.drop_left]
    rw [hread]
    simp [Journal.undoAll, JournalEntry.revert, IbsState.putObject]
  rw [getBalance_live hlive]
  simp [loaded, newObject_deleted, newObject_balance hinit]

/-- the account `0xa11ce` of the database, with balance 10 -/
def sampleAccount : StateAccount := ⟨true, 0, 10, emptyCodeHash, 0, 0⟩

/-- a state over a database that holds only `sampleAccount`, which it has not read -/
def sampleIbs : Ibs :=
  ⟨⟨⟨fun a => if a = 0xa11ce then some sampleAccount else none, fun _ _ _ => 0, fun _ => 0⟩,
    fun _ => none, fun _ => false, fun _ => none, 0⟩, [], [], 0⟩

theorem lazy_increase_survives_revert :
    (getBalance 0xa11ce sampleIbs).1 = 10 ∧
      ∃ j', revertToSnapshot 0
          (getBalance 0xa11ce (addBalance 0xa11ce 5 sampleIbs.snapshot.2)).2 = some j' ∧
        (getBalance 0xa11ce j').1 = 15 :=
  @revert_keeps_lazy_increase sampleIbs 0xa11ce sampleAccount 5 rfl rfl rfl rfl rfl
    (by decide) (by simp [sampleIbs])

/-- **A reverted selfdestruct forgets `created`.**  The revert of `selfdestructChange` restores
the mark and the balance; the flag `Suicide` cleared stays cleared, so a contract created in the
transaction reads its committed storage from the database again after the revert. -/
theorem revert_suicide_clears_created {j : Ibs} {addr : Address} {so : StateObject}
    (hso : j.state.stateObjects addr = some so) (hdel : so.deleted = false)
    (hids : ∀ r ∈ j.validRevisions, r.id < j.nextRevisionId) :
    (suicide addr j.snapshot.2).1 = true ∧
      ∃ j', revertToSnapshot j.nextRevisionId (suicide addr j.snapshot.2).2 = some j' ∧
        j'.state.stateObjects addr = some { so.setBalance so.data.balance with created := false } := by
  have hso₁ : j.snapshot.2.state.stateObjects addr = some so := hso
  have hsuicide : suicide addr j.snapshot.2 = (true, j.snapshot.2.record
      (j.snapshot.2.state.putObject addr
        { so with selfdestructed := true, created := false, data := { so.data with balance := 0 } })
      [.selfdestructChange addr so.selfdestructed so.data.balance]) := by
    simp only [suicide, getStateObject_live hso₁, hdel, Bool.false_eq_true, if_false]
  rw [hsuicide]
  refine ⟨rfl, _, Journal.Journaled.revertToSnapshot_snapshot hids rfl, ?_⟩
  show (Journal.Journaled.restore JournalEntry.revert _ j.entries.length).stateObjects addr = _
  rw [Journal.Journaled.restore_record_snapshot]
  simp [Journal.undoAll, JournalEntry.revert, IbsState.modifyObject, IbsState.putObject,
    StateObject.setBalance]

theorem StateObject.setBalance_self {so : StateObject} (h : so.data.initialised = true) :
    so.setBalance so.data.balance = so := by
  rw [StateObject.setBalance, ← h]

theorem StateObject.setBalance_setBalance (so : StateObject) (a b : U256) :
    (so.setBalance a).setBalance b = so.setBalance b :=
  rfl

/-- **The journal undoes a loaded account's balance.**  On an object the state holds, `SetBalance`
inside a snapshot is reverted to the objects, increments and refund of before the snapshot. -/
theorem setBalance_loaded_restored {j : Ibs} {addr : Address} {so : StateObject} (amount : U256)
    (hso : j.state.stateObjects addr = some so) (hdel : so.deleted = false)
    (hinit : so.data.initialised = true)
    (hids : ∀ r ∈ j.validRevisions, r.id < j.nextRevisionId) :
    ∃ j', revertToSnapshot j.nextRevisionId (setBalance addr amount j.snapshot.2) = some j' ∧
      j'.state.stateObjects = j.state.stateObjects ∧ j'.state.balanceInc = j.state.balanceInc ∧
        j'.state.refund = j.state.refund := by
  have hso₁ : j.snapshot.2.state.stateObjects addr = some so := hso
  have hset : setBalance addr amount j.snapshot.2 = j.snapshot.2.record
      (j.snapshot.2.state.putObject addr (so.setBalance amount))
      [.balanceChange addr so.data.balance] := by
    simp only [setBalance, getOrNewStateObject, getStateObject_live hso₁, hdel,
      Bool.false_eq_true, if_false, objSetBalance]
  rw [hset]
  refine ⟨_, Journal.Journaled.revertToSnapshot_snapshot hids rfl, ?_⟩
  show (Journal.Journaled.restore JournalEntry.revert _ j.entries.length).stateObjects = _ ∧
    (Journal.Journaled.restore JournalEntry.revert _ j.entries.length).balanceInc = _ ∧
    (Journal.Journaled.restore JournalEntry.revert _ j.entries.length).refund = _
  rw [Journal.Journaled.restore_record_snapshot]
  refine ⟨?_, rfl, rfl⟩
  simp [Journal.undoAll, JournalEntry.revert, IbsState.modifyObject, IbsState.putObject,
    StateObject.setBalance_setBalance, StateObject.setBalance_self hinit, ← hso]

end State

end N42

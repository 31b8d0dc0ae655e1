import N42.Params.Protocol
import N42.Lib.Journal
import N42.Lib.Budget

/-!
# (key: sstore) `SSTORE` gas and the refund counter

`gasSStoreEIP2200` (Istanbul) and `makeGasSStoreFunc(clearingRefund)` (EIP-2929 with the
EIP-2200 refund of Berlin, EIP-3529's smaller one from London), run on the part of
`IntraBlockState` they touch: for each slot what `GetCommittedState` returns and the
`dirtyStorage` entry, the refund counter with `AddRefund` / `SubRefund`, the saved error, and the
journal that `Snapshot` / `RevertToSnapshot` use.  A step of a transaction is an `SSTORE` (the
gas function, then `SetState`, or the frame's revert when the gas runs short or the frame is
static), a snapshot, a revert, a selfdestruct refund, a contract creation, or any other journaled
change that leaves storage and the refund alone.

The potential of a slot is the clearing refund while the slot holds zero over a non-zero
committed value.

* `StorageState.SameView`   what a revert must give back; `JournalEntry.revert` respects it,
                           and every operation is undone by the entries it appends (`Journals`);
* `netSStore_state`        the gas functions change nothing but the refund counter, to
                           `SStoreSchedule.refundAfter`;
* `refundAfter_accounting` one `SSTORE` moves the counter by at least the change of its slot's
                           potential, and subtracts only what that potential holds;
* `step_inv`, `run_inv`    every step, hence every run, keeps `Inv`: the counter covers the
                           potential of all slots, in the state and in every state a revert can
                           return to, and no error is saved;
* `refund_covers_cleared_slots`   from the start of a transaction the counter is at least the
                           clearing refund per cleared slot, and `SubRefund` never underflows.
-/

set_option linter.unusedSectionVars false
set_option linter.unusedVariables false

namespace N42

/-- a storage slot: the contract and the key -/
abbrev Slot := Address × Hash

/-- the error `setErrorUnsafe` keeps -/
inductive StateError where
  | refundBelowZero
deriving DecidableEq, Repr

/-- the part of `IntraBlockState` the `SSTORE` rules read and write -/
structure StorageState where
  committed : Slot → U256
  dirty : Slot → Option U256
  refund : UInt64
  savedErr : Option StateError

namespace StorageState

/-- `GetState`: the dirty value if there is one, else the committed one -/
def getState (st : StorageState) (s : Slot) : U256 := (st.dirty s).getD (st.committed s)

/-- `setErrorUnsafe(err)`: only the first error is kept -/
def setErrorUnsafe (st : StorageState) (e : StateError) : StorageState :=
  if st.savedErr = none then { st with savedErr := some e } else st

/-- what a revert must give back: every read of storage, and the refund counter -/
def SameView (s t : StorageState) : Prop :=
  s.getState = t.getState ∧ s.committed = t.committed ∧ s.refund = t.refund

theorem SameView.refl (s : StorageState) : SameView s s := ⟨rfl, rfl, rfl⟩

theorem SameView.trans {s t u : StorageState} (h₁ : SameView s t) (h₂ : SameView t u) :
    SameView s u :=
  ⟨h₁.1.trans h₂.1, h₁.2.1.trans h₂.2.1, h₁.2.2.trans h₂.2.2⟩

end StorageState

/-- the journal entries whose revert touches storage or the refund; `other` stands for every
entry that touches neither (balances, nonces, code, logs, the access list) -/
inductive JournalEntry where
  | storageChange (slot : Slot) (prevalue : U256)
  | refundChange (prev : UInt64)
  /-- `createObjectChange` and `resetObjectChange`: the previous object's storage comes back -/
  | resetObjectChange (addr : Address) (prevCommitted : Hash → U256)
      (prevDirty : Hash → Option U256)
  | accessListAddSlotChange (slot : Slot)
  | other

namespace JournalEntry

/-- `revert(s)` of each entry -/
def revert : JournalEntry → StorageState → StorageState
  | .storageChange slot prevalue, st =>
    { st with dirty := Function.update st.dirty slot (some prevalue) }
  | .refundChange prev, st => { st with refund := prev }
  | .resetObjectChange addr pc pd, st =>
    { st with committed := fun s => if s.1 = addr then pc s.2 else st.committed s,
              dirty := fun s => if s.1 = addr then pd s.2 else st.dirty s }
  | .accessListAddSlotChange _, st => st
  | .other, st => st

theorem revert_respects : Journal.UndoRespects revert StorageState.SameView := by
  intro e s t hst
  obtain ⟨hg, hc, hr⟩ := hst
  cases e with
  | storageChange slot prev =>
    refine ⟨funext fun x => ?_, hc, hr⟩
    by_cases hx : x = slot
    · rw [hx]
      simp [revert, StorageState.getState]
    · have h := congrFun hg x
      simpa [revert, StorageState.getState, Function.update_of_ne hx] using h
  | refundChange prev => exact ⟨hg, hc, rfl⟩
  | resetObjectChange addr pc pd =>
    refine ⟨funext fun x => ?_, funext fun x => ?_, hr⟩
    · by_cases hx : x.1 = addr
      · simp [revert, StorageState.getState, hx]
      · have h := congrFun hg x
        simpa [revert, StorageState.getState, hx] using h
    · by_cases hx : x.1 = addr
      · simp [revert, hx]
      · simpa [revert, hx] using congrFun hc x
  | accessListAddSlotChange _ => exact ⟨hg, hc, hr⟩
  | other => exact ⟨hg, hc, hr⟩

@[simp] theorem savedErr_revert (e : JournalEntry) (st : StorageState) :
    (revert e st).savedErr = st.savedErr := by
  cases e <;> rfl

theorem savedErr_undoAll (es : List JournalEntry) (st : StorageState) :
    (Journal.undoAll revert es st).savedErr = st.savedErr := by
  induction es with
  | nil => rfl
  | cons e es ih => simp only [Journal.undoAll, List.foldr_cons] at ih ⊢; rw [savedErr_revert, ih]

end JournalEntry

/-- the state with its journal -/
abbrev JournaledStorage := Journal.Journaled StorageState JournalEntry

/-- `ibs'` extends the journal of `ibs` and its new entries undo it -/
def Journals (ibs ibs' : JournaledStorage) : Prop :=
  Journal.Extends JournalEntry.revert StorageState.SameView ibs ibs'

theorem Journals.refl (ibs : JournaledStorage) : Journals ibs ibs :=
  Journal.Extends.refl StorageState.SameView.refl ibs

theorem Journals.trans {ibs₁ ibs₂ ibs₃ : JournaledStorage} (h₁ : Journals ibs₁ ibs₂)
    (h₂ : Journals ibs₂ ibs₃) : Journals ibs₁ ibs₃ :=
  Journal.Extends.trans JournalEntry.revert_respects (fun _ _ _ => StorageState.SameView.trans)
    h₁ h₂

/-! ## the operations of `IntraBlockState` -/

/-- `AddRefund(gas)` -/
def addRefund (gas : UInt64) (ibs : JournaledStorage) : JournaledStorage :=
  ibs.record { ibs.state with refund := ibs.state.refund + gas } [.refundChange ibs.state.refund]

/-- `SubRefund(gas)`: a counter below `gas` records the error, and the subtraction wraps -/
def subRefund (gas : UInt64) (ibs : JournaledStorage) : JournaledStorage :=
  let st := if gas > ibs.state.refund then ibs.state.setErrorUnsafe .refundBelowZero
    else ibs.state
  ibs.record { st with refund := ibs.state.refund - gas } [.refundChange ibs.state.refund]

/-- `SetState(addr, key, value)`: an unchanged value journals nothing -/
def setState (slot : Slot) (value : U256) (ibs : JournaledStorage) : JournaledStorage :=
  let prev := ibs.state.getState slot
  if prev = value then ibs
  else ibs.record { ibs.state with dirty := Function.update ibs.state.dirty slot (some value) }
    [.storageChange slot prev]

/-- `AddSlotToAccessList` for a slot not in the list, of an address that is -/
def addSlotToAccessList (slot : Slot) (ibs : JournaledStorage) : JournaledStorage :=
  ibs.record ibs.state [.accessListAddSlotChange slot]

/-- `CreateAccount(addr, true)` as storage sees it: the new object is `created`, with no dirty
storage and zero for every committed read -/
def createAccount (addr : Address) (ibs : JournaledStorage) : JournaledStorage :=
  ibs.record
    { ibs.state with committed := fun s => if s.1 = addr then 0 else ibs.state.committed s,
                     dirty := fun s => if s.1 = addr then none else ibs.state.dirty s }
    [.resetObjectChange addr (fun k => ibs.state.committed (addr, k))
      (fun k => ibs.state.dirty (addr, k))]

@[simp] theorem addRefund_state (gas : UInt64) (ibs : JournaledStorage) :
    (addRefund gas ibs).state = { ibs.state with refund := ibs.state.refund + gas } := rfl

theorem subRefund_state_of_le {gas : UInt64} {ibs : JournaledStorage}
    (h : gas ≤ ibs.state.refund) :
    (subRefund gas ibs).state = { ibs.state with refund := ibs.state.refund - gas } := by
  simp only [subRefund, Journal.Journaled.record_state, gt_iff_lt, UInt64.not_lt.mpr h,
    if_false]

@[simp] theorem addSlotToAccessList_state (slot : Slot) (ibs : JournaledStorage) :
    (addSlotToAccessList slot ibs).state = ibs.state := rfl

theorem setState_getState (slot : Slot) (value : U256) (ibs : JournaledStorage) :
    (setState slot value ibs).state.getState = Function.update ibs.state.getState slot value := by
  funext x
  unfold setState
  by_cases hp : ibs.state.getState slot = value
  · rw [if_pos hp]
    by_cases hx : x = slot
    · rw [hx, Function.update_self, hp]
    · rw [Function.update_of_ne hx]
  · rw [if_neg hp]
    by_cases hx : x = slot
    · rw [hx, Function.update_self]
      simp [StorageState.getState]
    · rw [Function.update_of_ne hx]
      simp [StorageState.getState, Function.update_of_ne hx]

theorem setState_committed (slot : Slot) (value : U256) (ibs : JournaledStorage) :
    (setState slot value ibs).state.committed = ibs.state.committed := by
  unfold setState
  dsimp only
  split <;> rfl

theorem setState_refund (slot : Slot) (value : U256) (ibs : JournaledStorage) :
    (setState slot value ibs).state.refund = ibs.state.refund ∧
      (setState slot value ibs).state.savedErr = ibs.state.savedErr := by
  unfold setState
  dsimp only
  split <;> exact ⟨rfl, rfl⟩

theorem addRefund_journals (gas : UInt64) (ibs : JournaledStorage) :
    Journals ibs (addRefund gas ibs) :=
  Journal.Extends.record ibs ⟨rfl, rfl, rfl⟩

theorem subRefund_journals (gas : UInt64) (ibs : JournaledStorage) :
    Journals ibs (subRefund gas ibs) := by
  refine Journal.Extends.record ibs ?_
  unfold StorageState.setErrorUnsafe
  split_ifs <;> exact ⟨rfl, rfl, rfl⟩

theorem setState_journals (slot : Slot) (value : U256) (ibs : JournaledStorage) :
    Journals ibs (setState slot value ibs) := by
  unfold setState
  dsimp only
  split
  · exact Journals.refl ibs
  · refine Journal.Extends.record ibs ⟨funext fun x => ?_, rfl, rfl⟩
    by_cases hx : x = slot
    · rw [hx]
      simp [Journal.undoAll, JournalEntry.revert, StorageState.getState]
    · simp [Journal.undoAll, JournalEntry.revert, StorageState.getState,
        Function.update_of_ne hx]

theorem addSlotToAccessList_journals (slot : Slot) (ibs : JournaledStorage) :
    Journals ibs (addSlotToAccessList slot ibs) :=
  Journal.Extends.record ibs ⟨rfl, rfl, rfl⟩

theorem createAccount_journals (addr : Address) (ibs : JournaledStorage) :
    Journals ibs (createAccount addr ibs) := by
  refine Journal.Extends.record ibs ⟨funext fun x => ?_, funext fun x => ?_, rfl⟩ <;>
  · obtain ⟨a, k⟩ := x
    by_cases ha : a = addr
    · rw [ha]
      simp [Journal.undoAll, JournalEntry.revert, StorageState.getState]
    · simp [Journal.undoAll, JournalEntry.revert, StorageState.getState, ha]

/-! ## the gas functions -/

/-- the constants one `SSTORE` rule set charges and refunds -/
structure SStoreSchedule where
  /-- the noop (1) and the dirty update (2.2) -/
  sloadGas : UInt64
  /-- create slot (2.1.1) -/
  setGas : UInt64
  /-- write existing slot (2.1.2) -/
  resetGas : UInt64
  /-- delete slot (2.1.2b, 2.2.1.2), taken back on recreate (2.2.1.1) -/
  clearingRefund : UInt64
  /-- reset to original inexistent slot (2.2.2.1) -/
  resetClearRefund : UInt64
  /-- reset to original existing slot (2.2.2.2) -/
  resetRefund : UInt64

/-- the constants of `gasSStoreEIP2200` -/
def eip2200Schedule : SStoreSchedule where
  sloadGas := sloadGasEIP2200
  setGas := sstoreSetGasEIP2200
  resetGas := sstoreResetGasEIP2200
  clearingRefund := sstoreClearsScheduleRefundEIP2200
  resetClearRefund := sstoreSetGasEIP2200 - sloadGasEIP2200
  resetRefund := sstoreResetGasEIP2200 - sloadGasEIP2200

/-- the constants of `makeGasSStoreFunc(clearingRefund)`: `SLOAD_GAS` is the warm read, and the
cold read is taken out of `SSTORE_RESET_GAS` -/
def eip2929Schedule (clearingRefund : UInt64) : SStoreSchedule where
  sloadGas := warmStorageReadCostEIP2929
  setGas := sstoreSetGasEIP2200
  resetGas := sstoreResetGasEIP2200 - coldSloadCostEIP2929
  clearingRefund := clearingRefund
  resetClearRefund := sstoreSetGasEIP2200 - warmStorageReadCostEIP2929
  resetRefund := (sstoreResetGasEIP2200 - coldSloadCostEIP2929) - warmStorageReadCostEIP2929

/-- the net-metering branches both gas functions share, past the sentry: the gas on top of
`cost`, with the refund changes made on the way -/
def netSStore (p : SStoreSchedule) (cost : UInt64) (slot : Slot) (value : U256)
    (ibs : JournaledStorage) : UInt64 × JournaledStorage :=
  let current := ibs.state.getState slot
  if current = value then (cost + p.sloadGas, ibs)
  else
    let original := ibs.state.committed slot
    if original = current then
      if original = 0 then (cost + p.setGas, ibs)
      else (cost + p.resetGas, if value = 0 then addRefund p.clearingRefund ibs else ibs)
    else
      let ibs :=
        if original ≠ 0 then
          if current = 0 then subRefund p.clearingRefund ibs
          else if value = 0 then addRefund p.clearingRefund ibs
          else ibs
        else ibs
      let ibs :=
        if original = value then
          if original = 0 then addRefund p.resetClearRefund ibs else addRefund p.resetRefund ibs
        else ibs
      (cost + p.sloadGas, ibs)

/-- the error a gas function returns -/
inductive SStoreError where
  /-- "not enough gas for reentrancy sentry" -/
  | reentrancySentry
deriving DecidableEq, Repr

/-- `gasSStoreEIP2200` -/
def gasSStoreEIP2200 (contractGas : UInt64) (slot : Slot) (value : U256)
    (ibs : JournaledStorage) : Option (Except SStoreError UInt64 × JournaledStorage) :=
  if contractGas ≤ sstoreSentryGasEIP2200 then some (.error .reentrancySentry, ibs)
  else
    let r := netSStore eip2200Schedule 0 slot value ibs
    some (.ok r.1, r.2)

/-- `makeGasSStoreFunc(clearingRefund)`; a slot missing from the access list costs the cold
read and is added, and an address missing from it is the "impossible case" panic -/
def makeGasSStoreFunc (clearingRefund contractGas : UInt64) (slot : Slot) (value : U256)
    (addrPresent slotPresent : Bool) (ibs : JournaledStorage) :
    Option (Except SStoreError UInt64 × JournaledStorage) :=
  if contractGas ≤ sstoreSentryGasEIP2200 then some (.error .reentrancySentry, ibs)
  else if slotPresent then
    let r := netSStore (eip2929Schedule clearingRefund) 0 slot value ibs
    some (.ok r.1, r.2)
  else if addrPresent then
    let r := netSStore (eip2929Schedule clearingRefund) coldSloadCostEIP2929 slot value
      (addSlotToAccessList slot ibs)
    some (.ok r.1, r.2)
  else none

/-- `gasSStoreEIP2929` -/
def gasSStoreEIP2929 : UInt64 → Slot → U256 → Bool → Bool → JournaledStorage →
    Option (Except SStoreError UInt64 × JournaledStorage) :=
  makeGasSStoreFunc sstoreClearsScheduleRefundEIP2200

/-- `gasSStoreEIP3529` -/
def gasSStoreEIP3529 : UInt64 → Slot → U256 → Bool → Bool → JournaledStorage →
    Option (Except SStoreError UInt64 × JournaledStorage) :=
  makeGasSStoreFunc sstoreClearsScheduleRefundEIP3529

/-- the `SSTORE` rule set of the jump table -/
inductive SStoreRule where
  | eip2200
  | eip2929
  | eip3529
deriving DecidableEq, Repr

namespace SStoreRule

/-- the dynamic gas function `enable2200`, `enable2929` or `enable3529` installs -/
def gasFn : SStoreRule → UInt64 → Slot → U256 → Bool → Bool → JournaledStorage →
    Option (Except SStoreError UInt64 × JournaledStorage)
  | .eip2200, g, s, v, _, _, ibs => gasSStoreEIP2200 g s v ibs
  | .eip2929, g, s, v, ap, sp, ibs => gasSStoreEIP2929 g s v ap sp ibs
  | .eip3529, g, s, v, ap, sp, ibs => gasSStoreEIP3529 g s v ap sp ibs

/-- the schedule the rule's gas function charges by -/
def schedule : SStoreRule → SStoreSchedule
  | .eip2200 => eip2200Schedule
  | .eip2929 => eip2929Schedule sstoreClearsScheduleRefundEIP2200
  | .eip3529 => eip2929Schedule sstoreClearsScheduleRefundEIP3529

/-- the refund a cleared slot is worth under the rule -/
def clearingRefund (rule : SStoreRule) : UInt64 := rule.schedule.clearingRefund

end SStoreRule

theorem netSStore_journals (p : SStoreSchedule) (cost : UInt64) (slot : Slot) (value : U256)
    (ibs : JournaledStorage) : Journals ibs (netSStore p cost slot value ibs).2 := by
  unfold netSStore
  dsimp only
  split_ifs <;>
    first
    | exact Journals.refl ibs
    | exact addRefund_journals _ ibs
    | exact subRefund_journals _ ibs
    | exact (subRefund_journals _ ibs).trans (addRefund_journals _ _)
    | exact (addRefund_journals _ ibs).trans (addRefund_journals _ _)

/-! ## the refund accounting -/

/-- the potential of a slot whose committed value is `original` and which holds `current`: the
clearing refund `c` while it is cleared from a non-zero value -/
def clearedPotential (c : UInt64) (original current : U256) : Nat :=
  if original ≠ 0 ∧ current = 0 then c.toNat else 0

/-- the potential of a slot in a state -/
def potential (c : UInt64) (st : StorageState) (s : Slot) : Nat :=
  clearedPotential c (st.committed s) (st.getState s)

namespace SStoreSchedule

/-- the counter after `netSStore`'s refund changes, branch for branch -/
def refundAfter (p : SStoreSchedule) (current original value : U256) (refund : UInt64) :
    UInt64 :=
  if current = value then refund
  else if original = current then
    if original = 0 then refund else if value = 0 then refund + p.clearingRefund else refund
  else
    let r :=
      if original ≠ 0 then
        if current = 0 then refund - p.clearingRefund
        else if value = 0 then refund + p.clearingRefund
        else refund
      else refund
    if original = value then
      if original = 0 then r + p.resetClearRefund else r + p.resetRefund
    else r

/-- the most one `SSTORE` adds to the counter -/
def maxRefund (p : SStoreSchedule) : Nat :=
  max p.clearingRefund.toNat (max p.resetClearRefund.toNat p.resetRefund.toNat)

end SStoreSchedule

/-- the recreate branch subtracts only what a cleared slot has paid in -/
theorem clearingRefund_le {c : UInt64} {original current : U256} {R : UInt64}
    (ho : original ≠ 0) (hcur : current = 0) (hc : clearedPotential c original current ≤ R.toNat) :
    c ≤ R := by
  rw [clearedPotential, if_pos ⟨ho, hcur⟩] at hc
  exact UInt64.le_iff_toNat_le.mpr hc

/-- **The gas functions change only the refund counter**, to `refundAfter`, as long as the
slot's potential is covered. -/
theorem netSStore_state (p : SStoreSchedule) (cost : UInt64) (slot : Slot) (value : U256)
    (ibs : JournaledStorage)
    (hc : clearedPotential p.clearingRefund (ibs.state.committed slot) (ibs.state.getState slot) ≤
      ibs.state.refund.toNat) :
    (netSStore p cost slot value ibs).2.state =
      { ibs.state with
        refund := p.refundAfter (ibs.state.getState slot) (ibs.state.committed slot) value
          ibs.state.refund } := by
  unfold netSStore SStoreSchedule.refundAfter
  dsimp only
  split_ifs <;>
    first
    | rfl
    | simp only [addRefund_state, subRefund_state_of_le
        (clearingRefund_le ‹ibs.state.committed slot ≠ 0› ‹ibs.state.getState slot = 0› hc)]

theorem clearedPotential_of_original {c : UInt64} {original v : U256} (h : original = 0) :
    clearedPotential c original v = 0 := by
  rw [clearedPotential, if_neg fun hc => hc.1 h]

theorem clearedPotential_of_ne_zero {c : UInt64} {original v : U256} (h : v ≠ 0) :
    clearedPotential c original v = 0 := by
  rw [clearedPotential, if_neg fun hc => h hc.2]

theorem clearedPotential_of_cleared {c : UInt64} {original v : U256} (ho : original ≠ 0)
    (hv : v = 0) : clearedPotential c original v = c.toNat := by
  rw [clearedPotential, if_pos ⟨ho, hv⟩]

/-- **One `SSTORE` pays for its slot.**  The counter after the refund changes, plus the slot's
potential before, is at least the counter before plus the slot's potential after; it grows by at
most `maxRefund`.  The recreate branch subtracts only what the slot's potential holds. -/
theorem refundAfter_accounting (p : SStoreSchedule) {current original value : U256} {R : UInt64}
    (hc : clearedPotential p.clearingRefund original current ≤ R.toNat)
    (hb : R.toNat + p.maxRefund < 2 ^ 64) :
    R.toNat + clearedPotential p.clearingRefund original value ≤
        (p.refundAfter current original value R).toNat +
          clearedPotential p.clearingRefund original current ∧
      (p.refundAfter current original value R).toNat ≤ R.toNat + p.maxRefund := by
  have hmax : p.clearingRefund.toNat ≤ p.maxRefund ∧ p.resetClearRefund.toNat ≤ p.maxRefund ∧
      p.resetRefund.toNat ≤ p.maxRefund := by
    unfold SStoreSchedule.maxRefund
    omega
  have hadd : ∀ {r g : UInt64}, r.toNat ≤ R.toNat → g.toNat ≤ p.maxRefund →
      (r + g).toNat = r.toNat + g.toNat := fun hr hg => by
    rw [UInt64.toNat_add]
    exact Nat.mod_eq_of_lt (by omega)
  unfold SStoreSchedule.refundAfter
  by_cases hnoop : current = value
  · rw [if_pos hnoop, hnoop]
    omega
  rw [if_neg hnoop]
  by_cases hclean : original = current
  · -- a clean slot (2.1) holds no potential; only the delete adds to the counter
    rw [if_pos hclean]
    by_cases ho : original = 0
    · rw [if_pos ho, clearedPotential_of_original ho, clearedPotential_of_original ho]
      omega
    have hcur : current ≠ 0 := hclean ▸ ho
    rw [if_neg ho, clearedPotential_of_ne_zero hcur]
    by_cases hv : value = 0
    · rw [if_pos hv, hadd (Nat.le_refl _) hmax.1, clearedPotential_of_cleared ho hv]
      omega
    · rw [if_neg hv, clearedPotential_of_ne_zero hv]
      omega
  -- a dirty slot (2.2): first the clearing refund, then the reset refund
  rw [if_neg hclean]
  dsimp only
  by_cases ho : original = 0
  · rw [if_neg (not_not.mpr ho), clearedPotential_of_original ho,
      clearedPotential_of_original ho]
    by_cases hov : original = value
    · rw [if_pos hov, if_pos ho, hadd (Nat.le_refl _) hmax.2.1]
      omega
    · rw [if_neg hov]
      omega
  rw [if_pos ho]
  by_cases hcur : current = 0
  · -- recreate (2.2.1.1): the slot's potential pays for the subtraction
    have hv : value ≠ 0 := fun hv => hnoop (hcur.trans hv.symm)
    rw [clearedPotential_of_cleared ho hcur] at hc ⊢
    have hsub : (R - p.clearingRefund).toNat = R.toNat - p.clearingRefund.toNat :=
      UInt64.toNat_sub_of_le _ _ (UInt64.le_iff_toNat_le.mpr hc)
    rw [if_pos hcur, clearedPotential_of_ne_zero hv]
    by_cases hov : original = value
    · rw [if_pos hov, if_neg ho, hadd (by omega) hmax.2.2, hsub]
      omega
    · rw [if_neg hov, hsub]
      omega
  rw [if_neg hcur, clearedPotential_of_ne_zero hcur]
  by_cases hv : value = 0
  · -- delete (2.2.1.2); the value is then not the original one
    have hov : ¬ original = value := fun h => ho (h.trans hv)
    rw [if_pos hv, if_neg hov, hadd (Nat.le_refl _) hmax.1, clearedPotential_of_cleared ho hv]
    omega
  · rw [if_neg hv, clearedPotential_of_ne_zero hv]
    by_cases hov : original = value
    · rw [if_pos hov, if_neg ho, hadd (Nat.le_refl _) hmax.2.2]
      omega
    · rw [if_neg hov]
      omega

/-! ## a transaction's steps -/

/-- one step of a transaction as storage and the refund see it -/
inductive Op where
  /-- `SSTORE` of `value` to `slot` by a frame with `contractGas` left, static when `readOnly`,
  whose snapshot is `frame` -/
  | sstore (slot : Slot) (value : U256) (contractGas : UInt64)
      (addrPresent slotPresent readOnly : Bool) (frame : Nat)
  | snapshot
  | revert (id : Nat)
  /-- `AddRefund(params.SelfdestructRefundGas)` of the selfdestruct gas before London -/
  | selfdestructRefund
  | createAccount (addr : Address)
  /-- a journaled change to neither storage nor the refund -/
  | other

/-- one step.  An `SSTORE` whose gas function fails, whose cost exceeds the gas left
(`UseGas`) or whose frame is static (`ErrWriteProtection` in `opSstore`) ends the frame, and the
call reverts to the frame's snapshot; a panic or an unknown revision is `none` -/
def step (rule : SStoreRule) : Op → JournaledStorage → Option JournaledStorage
  | .sstore slot value gas ap sp ro frame, ibs =>
    match rule.gasFn gas slot value ap sp ibs with
    | none => none
    | some (.ok cost, ibs') =>
      if cost ≤ gas ∧ ro = false then some (setState slot value ibs')
      else ibs'.revertToSnapshot JournalEntry.revert frame
    | some (.error _, ibs') => ibs'.revertToSnapshot JournalEntry.revert frame
  | .snapshot, ibs => some ibs.snapshot.2
  | .revert id, ibs => ibs.revertToSnapshot JournalEntry.revert id
  | .selfdestructRefund, ibs => some (addRefund selfdestructRefundGas ibs)
  | .createAccount addr, ibs => some (createAccount addr ibs)
  | .other, ibs => some (ibs.record ibs.state [.other])

/-- the steps one after the other -/
def run (rule : SStoreRule) : List Op → JournaledStorage → Option JournaledStorage
  | [], ibs => some ibs
  | op :: ops, ibs => (step rule op ibs).bind (run rule ops)


/-! ## the invariant -/

/-- the counter covers the potential of every slot and is at most `N` -/
def Covered (c : UInt64) (N : Nat) (st : StorageState) : Prop :=
  Budget.Covers (potential c st) st.refund.toNat ∧ st.refund.toNat ≤ N

theorem Covered.of_sameView {c : UInt64} {N : Nat} {s t : StorageState}
    (h : StorageState.SameView s t) (ht : Covered c N t) : Covered c N s := by
  obtain ⟨hg, hc, hr⟩ := h
  have hp : potential c s = potential c t := by
    funext x
    simp only [potential, hg, hc]
  rw [Covered, hp, hr]
  exact ht

theorem Covered.mono {c : UInt64} {N N' : Nat} {st : StorageState} (h : Covered c N st)
    (hN : N ≤ N') : Covered c N' st :=
  ⟨h.1, h.2.trans hN⟩

/-- **The invariant of a transaction's execution**: the state, and every state a revert can
return to, is covered, and no error has been saved -/
structure Inv (c : UInt64) (N : Nat) (ibs : JournaledStorage) : Prop where
  covered : Covered c N ibs.state
  restorable : Journal.Restorable JournalEntry.revert (Covered c N) ibs
  noError : ibs.state.savedErr = none

section Steps

variable {c : UInt64} {N : Nat} {ibs ibs' : JournaledStorage}

theorem Inv.mono (h : Inv c N ibs) {N' : Nat} (hN : N ≤ N') : Inv c N' ibs :=
  ⟨h.covered.mono hN, h.restorable.mono fun _ hs => hs.mono hN, h.noError⟩

theorem restorable_of_journals (h : Journal.Restorable JournalEntry.revert (Covered c N) ibs)
    (hj : Journals ibs ibs') : Journal.Restorable JournalEntry.revert (Covered c N) ibs' :=
  Journal.Restorable.extend JournalEntry.revert_respects (fun _ _ hst ht => ht.of_sameView hst)
    h hj

/-- a journaled step into a covered state without error keeps the invariant -/
theorem Inv.journals (h : Inv c N ibs) (hj : Journals ibs ibs') (hcov : Covered c N ibs'.state)
    (herr : ibs'.state.savedErr = none) : Inv c N ibs' :=
  ⟨hcov, restorable_of_journals h.restorable hj, herr⟩

/-- a revert from a restorable state without error lands in the invariant -/
theorem inv_of_revert {id : Nat} (h : Journal.Restorable JournalEntry.revert (Covered c N) ibs)
    (herr : ibs.state.savedErr = none)
    (hr : ibs.revertToSnapshot JournalEntry.revert id = some ibs') : Inv c N ibs' := by
  obtain ⟨hcov, hres⟩ := Journal.Restorable.revert h hr
  obtain ⟨-, r, -, -, hst, -⟩ := Journal.Journaled.revertToSnapshot_eq hr
  refine ⟨hcov, hres, ?_⟩
  rw [hst, Journal.Journaled.restore, JournalEntry.savedErr_undoAll]
  exact herr

end Steps

theorem schedule_maxRefund_le (rule : SStoreRule) :
    rule.schedule.maxRefund ≤ selfdestructRefundGas.toNat := by
  cases rule <;> decide

/-- **What a gas function does**: it fails at the sentry with nothing changed, or charges on top
of a base cost after a journaled access-list update that leaves the state alone -/
theorem gasFn_cases {rule : SStoreRule} {gas : UInt64} {slot : Slot} {value : U256}
    {ap sp : Bool} {ibs ibs' : JournaledStorage} {r : Except SStoreError UInt64}
    (h : rule.gasFn gas slot value ap sp ibs = some (r, ibs')) :
    (∃ e, r = .error e ∧ ibs' = ibs) ∨
      ∃ cost ibs₀, Journals ibs ibs₀ ∧ ibs₀.state = ibs.state ∧
        r = .ok (netSStore rule.schedule cost slot value ibs₀).1 ∧
        ibs' = (netSStore rule.schedule cost slot value ibs₀).2 := by
  have hsentry : ∀ {q : Option (Except SStoreError UInt64 × JournaledStorage)},
      (if gas ≤ sstoreSentryGasEIP2200 then some (.error .reentrancySentry, ibs) else q) =
        some (r, ibs') → (∃ e, r = .error e ∧ ibs' = ibs) ∨ q = some (r, ibs') := by
    intro q hq
    split_ifs at hq
    · simp only [Option.some.injEq, Prod.mk.injEq] at hq
      exact .inl ⟨_, hq.1.symm, hq.2.symm⟩
    · exact .inr hq
  have hnet : ∀ {p : SStoreSchedule} {cost : UInt64} {ibs₀ : JournaledStorage},
      Journals ibs ibs₀ → ibs₀.state = ibs.state →
      some (Except.ok (netSStore p cost slot value ibs₀).1, (netSStore p cost slot value ibs₀).2) =
        some (r, ibs') →
      p = rule.schedule →
      ∃ cost ibs₀, Journals ibs ibs₀ ∧ ibs₀.state = ibs.state ∧
        r = .ok (netSStore rule.schedule cost slot value ibs₀).1 ∧
        ibs' = (netSStore rule.schedule cost slot value ibs₀).2 := by
    intro p cost ibs₀ hj hst hq hp
    simp only [Option.some.injEq, Prod.mk.injEq] at hq
    exact ⟨cost, ibs₀, hj, hst, hp ▸ hq.1.symm, hp ▸ hq.2.symm⟩
  cases rule with
  | eip2200 =>
    rcases hsentry h with he | hq
    · exact .inl he
    · exact .inr (hnet (Journals.refl ibs) rfl hq rfl)
  | eip2929 | eip3529 =>
    rcases hsentry h with he | hq
    · exact .inl he
    · split_ifs at hq
      · exact .inr (hnet (Journals.refl ibs) rfl hq rfl)
      · exact .inr (hnet (addSlotToAccessList_journals slot ibs) rfl hq rfl)

/-- the refund counter is not part of any slot's potential -/
theorem potential_addRefund (c g : UInt64) (ibs : JournaledStorage) :
    potential c (addRefund g ibs).state = potential c ibs.state := rfl

theorem savedErr_addRefund (g : UInt64) (ibs : JournaledStorage) :
    (addRefund g ibs).state.savedErr = ibs.state.savedErr := rfl

/-- the gas functions keep the saved error when the slot's potential is covered -/
theorem netSStore_savedErr (p : SStoreSchedule) (cost : UInt64) (slot : Slot) (value : U256)
    {ibs : JournaledStorage} {N : Nat} (hcov : Covered p.clearingRefund N ibs.state) :
    (netSStore p cost slot value ibs).2.state.savedErr = ibs.state.savedErr := by
  rw [netSStore_state p cost slot value ibs (hcov.1.le slot)]

/-- **A successful `SSTORE` keeps the cover.**  The gas function moves the counter by at least
the change of the slot's potential, and `SetState` changes that potential and no other. -/
theorem sstore_covered (p : SStoreSchedule) (cost : UInt64) (slot : Slot) (value : U256)
    {ibs : JournaledStorage} {N : Nat} (hcov : Covered p.clearingRefund N ibs.state)
    (hb : N + p.maxRefund < 2 ^ 64) :
    Covered p.clearingRefund (N + p.maxRefund)
      (setState slot value (netSStore p cost slot value ibs).2).state := by
  have hc := hcov.1.le slot
  have hst := netSStore_state p cost slot value ibs hc
  obtain ⟨hacc, hbound⟩ := refundAfter_accounting p hc (by have := hcov.2; omega)
  have hcomm : (setState slot value (netSStore p cost slot value ibs).2).state.committed =
      ibs.state.committed := by
    rw [setState_committed, hst]
  have hget : (setState slot value (netSStore p cost slot value ibs).2).state.getState =
      Function.update ibs.state.getState slot value := by
    rw [setState_getState, hst]
    rfl
  have href : (setState slot value (netSStore p cost slot value ibs).2).state.refund =
      p.refundAfter (ibs.state.getState slot) (ibs.state.committed slot) value ibs.state.refund := by
    rw [(setState_refund slot value _).1, hst]
  refine ⟨hcov.1.update (a := slot) (fun x hx => ?_) ?_, ?_⟩
  · simp only [potential, hcomm, hget, Function.update_of_ne hx]
  · simp only [potential, hcomm, hget, href, Function.update_self]
    exact hacc
  · rw [href]
    have := hcov.2
    omega

section Steps

variable {rule : SStoreRule} {N : Nat} {ibs ibs' : JournaledStorage}

/-- **An `SSTORE` step keeps the invariant**, whether it completes or its frame reverts. -/
theorem sstore_inv {slot : Slot} {value : U256} {gas : UInt64} {ap sp ro : Bool} {frame : Nat}
    (h : Inv rule.clearingRefund N ibs) (hN : N + selfdestructRefundGas.toNat < 2 ^ 64)
    (hs : step rule (.sstore slot value gas ap sp ro frame) ibs = some ibs') :
    Inv rule.clearingRefund (N + selfdestructRefundGas.toNat) ibs' := by
  have hmax := schedule_maxRefund_le rule
  simp only [step] at hs
  split at hs
  · exact absurd hs (by simp)
  · rename_i cost ibs₁ hgas
    rcases gasFn_cases hgas with ⟨e, he, -⟩ | ⟨cost₀, ibs₀, hj₀, hst₀, -, hibs₁⟩
    · exact absurd he (by simp)
    have hcov₀ : Covered rule.schedule.clearingRefund N ibs₀.state := hst₀ ▸ h.covered
    have hj₁ : Journals ibs ibs₁ := hibs₁ ▸ hj₀.trans (netSStore_journals _ _ _ _ _)
    have herr₁ : ibs₁.state.savedErr = none := by
      rw [hibs₁, netSStore_savedErr _ _ _ _ hcov₀, hst₀]
      exact h.noError
    split_ifs at hs
    · -- the gas is there and the frame may write: `SetState`
      rw [Option.some.injEq] at hs
      subst hs
      have hcov := sstore_covered rule.schedule cost₀ slot value hcov₀ (by omega)
      rw [← hibs₁] at hcov
      refine (h.mono (by omega)).journals (hj₁.trans (setState_journals slot value ibs₁))
        (hcov.mono (by omega)) ?_
      rw [(setState_refund slot value ibs₁).2]
      exact herr₁
    · -- out of gas, or a static frame: the frame reverts
      exact (inv_of_revert (restorable_of_journals h.restorable hj₁) herr₁ hs).mono (by omega)
  · rename_i e ibs₁ hgas
    rcases gasFn_cases hgas with ⟨e', -, rfl⟩ | ⟨cost₀, ibs₀, -, -, hr, -⟩
    · exact (inv_of_revert h.restorable h.noError hs).mono (by omega)
    · exact absurd hr (by simp)

/-- the counter after the selfdestruct refund, which cannot wrap below the bound -/
theorem selfdestructRefund_inv (h : Inv rule.clearingRefund N ibs)
    (hN : N + selfdestructRefundGas.toNat < 2 ^ 64) :
    Inv rule.clearingRefund (N + selfdestructRefundGas.toNat)
      (addRefund selfdestructRefundGas ibs) := by
  have hR := h.covered.2
  have hadd : (addRefund selfdestructRefundGas ibs).state.refund.toNat =
      ibs.state.refund.toNat + selfdestructRefundGas.toNat := by
    rw [addRefund_state, UInt64.toNat_add]
    exact Nat.mod_eq_of_lt (by omega)
  have hpot := potential_addRefund rule.clearingRefund selfdestructRefundGas ibs
  have hcov : Covered rule.clearingRefund (N + selfdestructRefundGas.toNat)
      (addRefund selfdestructRefundGas ibs).state := by
    refine ⟨?_, ?_⟩
    · rw [hpot, hadd]
      exact h.covered.1.mono (Nat.le_add_right _ _)
    · rw [hadd]
      omega
  have hmono : Inv rule.clearingRefund (N + selfdestructRefundGas.toNat) ibs :=
    h.mono (Nat.le_add_right _ _)
  exact hmono.journals (addRefund_journals _ _) hcov
    ((savedErr_addRefund selfdestructRefundGas ibs).trans h.noError)

/-- a new object zeroes the committed values of its storage, which only lowers the potential -/
theorem createAccount_inv (addr : Address) (h : Inv rule.clearingRefund N ibs) :
    Inv rule.clearingRefund N (createAccount addr ibs) := by
  refine h.journals (createAccount_journals addr ibs) ⟨h.covered.1.of_le fun x => ?_, h.covered.2⟩
    h.noError
  by_cases hx : x.1 = addr
  · simp [createAccount, potential, clearedPotential_of_original, hx]
  · simp [createAccount, potential, StorageState.getState, hx]

/-- **Every step keeps the invariant**, with the bound raised by the largest refund one step
can add. -/
theorem step_inv {op : Op} (h : Inv rule.clearingRefund N ibs)
    (hN : N + selfdestructRefundGas.toNat < 2 ^ 64) (hs : step rule op ibs = some ibs') :
    Inv rule.clearingRefund (N + selfdestructRefundGas.toNat) ibs' := by
  cases op with
  | sstore slot value gas ap sp ro frame => exact sstore_inv h hN hs
  | snapshot =>
    rw [step, Option.some.injEq] at hs
    subst hs
    have hsnap : Inv rule.clearingRefund N ibs.snapshot.2 :=
      ⟨h.covered, h.restorable.snapshot h.covered, h.noError⟩
    exact hsnap.mono (by omega)
  | revert id => exact (inv_of_revert h.restorable h.noError hs).mono (by omega)
  | selfdestructRefund =>
    rw [step, Option.some.injEq] at hs
    subst hs
    exact selfdestructRefund_inv h hN
  | createAccount addr =>
    rw [step, Option.some.injEq] at hs
    subst hs
    exact (createAccount_inv addr h).mono (by omega)
  | other =>
    rw [step, Option.some.injEq] at hs
    subst hs
    exact (h.mono (by omega)).journals (Journal.Extends.record ibs ⟨rfl, rfl, rfl⟩)
      (h.covered.mono (by omega)) h.noError

/-- **Every run keeps the invariant**, by induction on the steps. -/
theorem run_inv (ops : List Op) (h : Inv rule.clearingRefund N ibs)
    (hN : N + selfdestructRefundGas.toNat * ops.length < 2 ^ 64)
    (hr : run rule ops ibs = some ibs') :
    Inv rule.clearingRefund (N + selfdestructRefundGas.toNat * ops.length) ibs' := by
  induction ops generalizing ibs N with
  | nil =>
    rw [run, Option.some.injEq] at hr
    subst hr
    simpa using h
  | cons op ops ih =>
    rw [run, Option.bind_eq_some_iff] at hr
    obtain ⟨ibs₁, h₁, hr⟩ := hr
    have hlen : (op :: ops).length = ops.length + 1 := rfl
    rw [hlen, Nat.mul_succ] at hN ⊢
    have h₁' := step_inv h (by omega) h₁
    have := ih h₁' (by omega) hr
    rwa [Nat.add_assoc, Nat.add_comm selfdestructRefundGas.toNat] at this

end Steps

/-- the start of a transaction: no dirty storage, a zero counter, an empty journal, no error -/
def txStart (committed : Slot → U256) : JournaledStorage :=
  ⟨⟨committed, fun _ => none, 0, none⟩, [], [], 0⟩

theorem txStart_inv (c : UInt64) (committed : Slot → U256) : Inv c 0 (txStart committed) := by
  refine ⟨⟨Budget.covers_zero (fun x => ?_) _, Nat.le_refl _⟩,
    Journal.restorable_nil rfl, rfl⟩
  by_cases hx : committed x = 0
  · exact clearedPotential_of_original hx
  · exact clearedPotential_of_ne_zero hx

/-- the sum of the potential over a set of slots counts its cleared slots -/
theorem sum_potential_eq (c : UInt64) (st : StorageState) (S : Finset Slot) :
    ∑ s ∈ S, potential c st s =
      c.toNat * (S.filter fun s => st.committed s ≠ 0 ∧ st.getState s = 0).card := by
  rw [Finset.card_filter, Finset.mul_sum]
  refine Finset.sum_congr rfl fun x _ => ?_
  unfold potential clearedPotential
  split_ifs <;> simp

/-- **The refund counter never underflows.**  Through any run of a transaction's steps under one
`SSTORE` rule set (`SSTORE`s to any slots, nested snapshots and reverts, failing frames), the
counter is at least the clearing refund times the number of cleared slots of every finite set of
slots, no error is saved, and the recreate branch of the next `SSTORE` finds the clearing refund
in the counter. -/
theorem refund_covers_cleared_slots (rule : SStoreRule) (committed : Slot → U256)
    (ops : List Op) {ibs : JournaledStorage}
    (hlen : selfdestructRefundGas.toNat * ops.length < 2 ^ 64)
    (h : run rule ops (txStart committed) = some ibs) :
    (∀ S : Finset Slot, rule.clearingRefund.toNat *
        (S.filter fun s => ibs.state.committed s ≠ 0 ∧ ibs.state.getState s = 0).card ≤
          ibs.state.refund.toNat) ∧
      ibs.state.savedErr = none ∧
      ∀ slot, ibs.state.committed slot ≠ 0 → ibs.state.getState slot = 0 →
        rule.clearingRefund ≤ ibs.state.refund := by
  have hinv := run_inv ops (txStart_inv rule.clearingRefund committed) (by omega) h
  refine ⟨fun S => ?_, hinv.noError, fun slot ho hz => ?_⟩
  · rw [← sum_potential_eq]
    exact hinv.covered.1 S
  · have hle := hinv.covered.1.le slot
    rw [potential, clearedPotential_of_cleared ho hz] at hle
    exact UInt64.le_iff_toNat_le.mpr hle

/-- a contract slot holding 5 when the transaction starts -/
def sampleSlot : Slot := (0xc0ffee, 1)

def sampleCommitted (s : Slot) : U256 := if s = sampleSlot then 5 else 0

/-- in a call frame: clear the slot (cold), recreate it in a nested frame that reverts, then
write the original value back -/
def sampleOps : List Op :=
  [.snapshot, .sstore sampleSlot 0 30000 true false false 0, .snapshot,
    .sstore sampleSlot 7 30000 true true false 1, .revert 1,
    .sstore sampleSlot 5 30000 true true false 0]

theorem sampleOps_refund_covered :
    ∃ ibs, run .eip3529 sampleOps (txStart sampleCommitted) = some ibs ∧
      (∀ S : Finset Slot, SStoreRule.eip3529.clearingRefund.toNat *
          (S.filter fun s => ibs.state.committed s ≠ 0 ∧ ibs.state.getState s = 0).card ≤
            ibs.state.refund.toNat) ∧
        ibs.state.savedErr = none ∧
        ∀ slot, ibs.state.committed slot ≠ 0 → ibs.state.getState slot = 0 →
          SStoreRule.eip3529.clearingRefund ≤ ibs.state.refund :=
  ⟨_, rfl, refund_covers_cleared_slots .eip3529 sampleCommitted sampleOps (by decide) rfl⟩

/-- the clearing refund of 4800 is taken back by the recreate, restored by the revert and taken
back again by the reset, which adds 2800 -/
example : (run .eip3529 sampleOps (txStart sampleCommitted)).map (·.state.refund) = some 2800 := by
  decide

end N42

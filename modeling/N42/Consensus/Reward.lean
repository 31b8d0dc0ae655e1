import N42.Consensus.Apos

/-!
# (key: reward) The rewards `APos.Rewards` reports

`Reward.SetRewards` and `Reward.buildRewards` of `internal/consensus/apos/reward.go` run the
accumulation of `AccumulateRewards` a second time, over the raw reads of the database: the
canonical hash, the header and the block at a number, `deposit.GetDepositInfo` and the stored
unpaid reward, which the second loop also writes when `setRewards` is set.  The loop body over
the verifiers of a block is the one of `AccumulateRewards` (`creditBlock`), reading the deposit
table through `RewardDb.chain`, the `ChainHeaderReader` a `BlockChain` over the same database
gives.

* `buildWindow_step`, `buildWindow_missing`   one round of the window loop;
* `buildWindow_wraps_nil`   a window that ends at block zero runs past it, as `scanWindow`
                        does, and at the wrapped number finds no canonical hash: `buildRewards`
                        then returns a `nil` map with a `nil` error;
* `first_epoch_rewards_disagree`   with a Beijing genesis, at the first reward block
                        `SetRewards` reports no rewards and no error while `AccumulateRewards`
                        over the same database panics.
-/

namespace N42

namespace Apos

/-- the reads of `buildRewards` over a `kv.RwTx` -/
structure RewardDb where
  /-- `rawdb.ReadCanonicalHash(tx, n)`: the zero hash for a number without one -/
  readCanonicalHash : UInt64 → Except ChainError Hash
  /-- `rawdb.ReadHeader(tx, hash, n)` -/
  readHeader : Hash → UInt64 → Option Header
  /-- `rawdb.ReadBlock(tx, hash, n)` -/
  readBlock : Hash → UInt64 → Option Block
  /-- `header.Hash()` -/
  headerHash : Header → Hash
  /-- `deposit.GetDepositInfo(tx, addr)`, as the pair `GetDepositInfo` of the chain returns -/
  getDepositInfo : Address → Except ChainError (Option (U256 × U256))
  /-- `rawdb.GetAccountReward(tx, addr)`: zero for an account without a stored amount -/
  getAccountReward : Address → Except ChainError U256

/-- the `BlockChain` over the same database, as `consensus.ChainHeaderReader`:
`GetBlockByNumber` drops the error of the hash read and is `nil` without a canonical hash, and
`GetAccountRewardUnpaid` never returns `nil` with a `nil` error -/
def RewardDb.chain (db : RewardDb) : ChainHeaderReader where
  getBlockByNumber n :=
    match db.readCanonicalHash (UInt64.ofNat n.toNat) with
    | .ok h => if h = 0 then none else db.readBlock h (UInt64.ofNat n.toNat)
    | .error _ => none
  getDepositInfo := db.getDepositInfo
  getAccountRewardUnpaid a := (db.getAccountReward a).map some

/-- the reads of one round of the window loop; `none` is the `return nil, err` of a number
without a canonical hash, where `err` is `nil` -/
def readWindowBlock (db : RewardDb) (currentNr : U256) : Except ChainError (Option Block) := do
  let n := UInt64.ofNat currentNr.toNat
  let hash ← db.readCanonicalHash n
  if hash = 0 then return none
  let some header := db.readHeader hash n
    | throw (.db "buildreward header type assert error")
  let some block := db.readBlock (db.headerHash header) header.number64
    | throw (.db "buildreward block type assert error")
  return some block

/-- the first loop of `buildRewards`, counting down with a fuel bound as `scanWindow` does;
`some` is the scan the loop ends with, `none` the early return with no map and no error -/
def buildWindow (db : RewardDb) (endNumber : U256) :
    Nat → U256 → RewardScan → Except ChainError (Option RewardScan)
  | 0, currentNr, st => if U256.cmp currentNr endNumber ≥ 0 then .error .fuel else .ok (some st)
  | fuel + 1, currentNr, st =>
    if U256.cmp currentNr endNumber ≥ 0 then do
      match ← readWindowBlock db currentNr with
      | none => pure none
      | some b =>
        let st ← creditBlock db.chain st b
        buildWindow db endNumber fuel (currentNr - 1) st
    else .ok (some st)

/-- the second loop of `buildRewards` over the rewarded addresses: the payments, and the unpaid
amounts `setAccountRewardUnpaid` writes when `setRewards` is set, in order -/
def splitRewards (r : Reward) (db : RewardDb) (setRewards : Bool)
    (rewardMap : Address → Option U256) :
    List Address → Except ChainError (List (Address × U256)) × List (Address × U256)
  | [] => (.ok [], [])
  | addr :: rest =>
    match db.getAccountReward addr with
    | .error e => (.error e, [])
    | .ok lastSedi =>
      let amount := (rewardMap addr).getD 0 + lastSedi
      let (pay, unpay) := if U256.cmp amount r.rewardLimit ≥ 0 then (amount, 0) else (0, amount)
      let written := if setRewards then [(addr, unpay)] else []
      let (res, writes) := splitRewards r db setRewards rewardMap rest
      (res.map ((addr, pay) :: ·), written ++ writes)

/-- `buildRewards(tx, number, setRewards)`: the map of payments (`none` for a `nil` map) and the
unpaid amounts it writes -/
def buildRewards (r : Reward) (db : RewardDb) (number : U256) (setRewards : Bool) :
    Except ChainError (Option (List (Address × U256))) × List (Address × U256) :=
  let endNumber := number - r.rewardEpoch
  match buildWindow db endNumber (r.rewardEpoch.toNat + 1) (number - 1) RewardScan.empty with
  | .error e => (.error e, [])
  | .ok none => (.ok none, [])
  | .ok (some st) =>
    let (res, writes) := splitRewards r db setRewards st.rewardMap st.keys
    (res.map some, writes)

/-- `SetRewards(tx, number, setRewards)`: the `AccountRewards` of the map, a `nil` map giving
none; the final sort by address text is not modelled -/
def setRewardsOf (r : Reward) (db : RewardDb) (number : U256) (setRewards : Bool) :
    Except ChainError (List (Address × U256)) × List (Address × U256) :=
  let (res, writes) := buildRewards r db number setRewards
  (res.map fun m => m.getD [], writes)

/-! ## the window loop -/

variable {db : RewardDb}

/-- a round that reads a block and credits it goes on one number lower -/
theorem buildWindow_step {endNumber currentNr : U256} {fuel : Nat} {st t : RewardScan}
    {b : Block} (hle : endNumber ≤ currentNr) (hb : readWindowBlock db currentNr = .ok (some b))
    (ht : creditBlock db.chain st b = .ok t) :
    buildWindow db endNumber (fuel + 1) currentNr st =
      buildWindow db endNumber fuel (currentNr - 1) t := by
  rw [buildWindow, if_pos (cmp_nonneg_of_le hle), hb]
  exact congrArg (· >>= _) ht

/-- a round at a number without a canonical hash returns with no map and no error -/
theorem buildWindow_missing {endNumber currentNr : U256} {fuel : Nat} {st : RewardScan}
    (hle : endNumber ≤ currentNr) (hb : readWindowBlock db currentNr = .ok none) :
    buildWindow db endNumber (fuel + 1) currentNr st = .ok none := by
  rw [buildWindow, if_pos (cmp_nonneg_of_le hle), hb]
  rfl

theorem readWindowBlock_of_zero {currentNr : U256}
    (h : db.readCanonicalHash (UInt64.ofNat currentNr.toNat) = .ok 0) :
    readWindowBlock db currentNr = .ok none := by
  simp only [readWindowBlock, h]
  rfl

/-- **A window that ends at block zero runs past it**, as `scanWindow_wraps_panics` does for
`AccumulateRewards`; at the wrapped number no canonical hash is found and the loop returns
with no map and no error -/
theorem buildWindow_wraps_nil (hd : ∀ a, ∃ info, db.getDepositInfo a = .ok info)
    (hmax : db.readCanonicalHash (UInt64.ofNat (0 - 1 : U256).toNat) = .ok 0) :
    ∀ k : ℕ, (∀ n ≤ k, ∃ b, readWindowBlock db (n : U256) = .ok (some b)) →
      ∀ st, buildWindow db 0 (k + 2) (k : U256) st = .ok none := by
  have hd' : ∀ a, ∃ info, db.chain.getDepositInfo a = .ok info := hd
  intro k
  induction k with
  | zero =>
    intro hb st
    obtain ⟨b, hb0⟩ := hb 0 le_rfl
    obtain ⟨t, ht⟩ := creditBlock_ok hd' st b
    rw [Nat.cast_zero] at hb0 ⊢
    rw [buildWindow_step (Nat.zero_le _) hb0 ht]
    exact buildWindow_missing (Nat.zero_le _) (readWindowBlock_of_zero hmax)
  | succ k ih =>
    intro hb st
    obtain ⟨b, hbk⟩ := hb (k + 1) le_rfl
    obtain ⟨t, ht⟩ := creditBlock_ok hd' st b
    rw [buildWindow_step (Nat.zero_le _) hbk ht, natCast_succ_sub_one]
    exact ih (fun n hn => hb n (Nat.le_succ_of_le hn)) t

/-- **The two reward computations disagree on the first epoch.**  With `BeijingBlock = 0`, at
block `RewardEpoch`, over a database whose blocks `0 .. RewardEpoch - 1` all exist and which
has no canonical hash at the wrapped number: `SetRewards` reports no rewards, no error and
writes nothing, while `AccumulateRewards` over the same database panics -/
theorem first_epoch_rewards_disagree (c : ChainConfig) (hB : c.beijingBlock = some 0)
    (hE : 0 < c.rewardEpoch.toNat) (hd : ∀ a, ∃ info, db.getDepositInfo a = .ok info)
    (hb : ∀ n < c.rewardEpoch.toNat, ∃ b, readWindowBlock db (n : U256) = .ok (some b) ∧
      db.chain.getBlockByNumber (n : U256) = some b)
    (hmax : db.readCanonicalHash (UInt64.ofNat (0 - 1 : U256).toNat) = .ok 0)
    (setRewards : Bool) :
    isRewardBlock c (U256.newInt c.rewardEpoch) = .ok true ∧
      setRewardsOf (newReward c) db (U256.newInt c.rewardEpoch) setRewards = (.ok [], []) ∧
      accumulateRewards (newReward c) (U256.newInt c.rewardEpoch) db.chain = .error .panic := by
  have hchain : db.chain.getBlockByNumber (0 - 1) = none := by
    simp only [RewardDb.chain, hmax]
    rfl
  obtain ⟨hrb, hacc⟩ := first_epoch_rewards_panic c hB hE hd
    (fun n hn => (hb n hn).elim fun b hb => ⟨b, hb.2⟩) hchain
  refine ⟨hrb, ?_, hacc⟩
  obtain ⟨k, hk⟩ : ∃ k, c.rewardEpoch.toNat = k + 1 :=
    ⟨_, (Nat.succ_pred_eq_of_pos hE).symm⟩
  have hnum : U256.newInt c.rewardEpoch = ((k + 1 : ℕ) : U256) := by
    rw [← hk]
    rfl
  have hwin := buildWindow_wraps_nil hd hmax k
    (fun n hn => (hb n (by omega)).elim fun b hb => ⟨b, hb.1⟩) RewardScan.empty
  simp only [setRewardsOf, buildRewards, newReward, sub_self, hnum, natCast_succ_sub_one]
  rw [show (((k + 1 : ℕ) : U256)).toNat + 1 = k + 2 by rw [← hnum, U256.toNat_newInt, hk], hwin]
  rfl

/-- the blocks `0` and `1`, without deposit information or stored rewards -/
def twoBlockDb : RewardDb where
  readCanonicalHash n := .ok (if n.toNat < 2 then 1 else 0)
  readHeader _ n := some { emptyBlock.header with number := BitVec.ofNat 256 n.toNat }
  readBlock _ _ := some emptyBlock
  headerHash _ := 1
  getDepositInfo _ := .ok none
  getAccountReward _ := .ok 0

theorem first_epoch_rewards_disagree_twoBlocks :
    beijingGenesis.beijingBlock = some 0 ∧ 0 < beijingGenesis.rewardEpoch.toNat ∧
      (∀ a, ∃ info, twoBlockDb.getDepositInfo a = .ok info) ∧
      (∀ n < beijingGenesis.rewardEpoch.toNat, ∃ b,
        readWindowBlock twoBlockDb (n : U256) = .ok (some b) ∧
          twoBlockDb.chain.getBlockByNumber (n : U256) = some b) ∧
      twoBlockDb.readCanonicalHash (UInt64.ofNat (0 - 1 : U256).toNat) = .ok 0 ∧
      isRewardBlock beijingGenesis (U256.newInt beijingGenesis.rewardEpoch) = .ok true ∧
      setRewardsOf (newReward beijingGenesis) twoBlockDb
        (U256.newInt beijingGenesis.rewardEpoch) true = (.ok [], []) ∧
      accumulateRewards (newReward beijingGenesis) (U256.newInt beijingGenesis.rewardEpoch)
        twoBlockDb.chain = .error .panic := by
  have hd : ∀ a, ∃ info, twoBlockDb.getDepositInfo a = .ok info := fun _ => ⟨none, rfl⟩
  have hb : ∀ n < beijingGenesis.rewardEpoch.toNat, ∃ b,
      readWindowBlock twoBlockDb (n : U256) = .ok (some b) ∧
        twoBlockDb.chain.getBlockByNumber (n : U256) = some b := by
    intro n hn
    have hn2 : n < 2 := hn
    have hcast : (UInt64.ofNat (n : U256).toNat).toNat = n := by
      rw [BitVec.natCast_eq_ofNat, BitVec.toNat_ofNat, UInt64.toNat_ofNat',
        Nat.mod_eq_of_lt (by omega), Nat.mod_eq_of_lt (by omega)]
    refine ⟨emptyBlock, ?_, ?_⟩
    · simp only [readWindowBlock, twoBlockDb, hcast, hn2, if_true]
      rfl
    · simp only [RewardDb.chain, twoBlockDb, hcast, hn2, if_true]
      rfl
  have hmax : twoBlockDb.readCanonicalHash (UInt64.ofNat (0 - 1 : U256).toNat) = .ok 0 := by
    decide
  exact ⟨rfl, by decide, hd, hb, hmax,
    first_epoch_rewards_disagree beijingGenesis rfl (by decide) hd hb hmax true⟩

end Apos

end N42

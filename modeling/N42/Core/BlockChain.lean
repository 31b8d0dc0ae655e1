import N42.Contracts.Deposit

/-!
# (key: chain) Block import, fork choice, reorg, and the node-local tables

`internal/blockchain.go`, `internal/forkchoice.go`, `internal/miner/worker.go`: the chain as a
state machine over the tables it writes.  Importing a block runs `Process`, whose `Finalize`
accumulates the rewards over the canonical chain and the carry-over table; `writeBlockWithState`
then commits the block, its total difficulty and its carry-overs in one database transaction,
and only after that asks the fork choice whether the block is the new head.  The logs of a block
become a `NewLogsEvent` when the import made it canonical, and always when the miner sealed it;
the deposit event loop handles the events in order.  The execution of the transactions is a
parameter (`ChainEnv.execute`): only its logs are read here.

* `ChainState.reader`   what `Finalize` reads of the chain: canonical blocks, deposit
                        information and carry-overs;
* `reorg`               the rewrite of the canonical hashes and of the transaction index;
* `writeBlockWithState`, `insertBlock`, `writeMined`, `deliver`   the steps of the system;
* `reorg_keeps_removed_deposit`   a deposit of a block a reorg removes stays in the registry;
* `side_block_overwrites_carry`   a side block's carry-overs replace the canonical block's;
* `insertBlock_fork_not_shorter`   a heavier fork at the head's height or above is written and
                        never becomes the head;
* `insertBlockPlain`, `insertBlockPlain_side`   the plain state: every block is executed on the
                        latest one, and a side block's result is committed all the same.
-/

namespace N42

namespace Chain

/-- what the chain model takes from outside the code it embeds: the chain configuration, the
header and transaction hashes (keccak of the RLP encoding), the logs the execution of a block
emits, and the deposit contracts the event loop knows -/
structure ChainEnv where
  config : ChainConfig
  headerHash : Header → Hash
  txHash : Transaction → Hash
  execute : Block → List Log
  loop : Deposit.LoopEnv

/-- the tables the chain reads and writes, the head, and the log events not yet handled -/
structure ChainState where
  /-- headers and bodies by hash -/
  blocks : Hash → Option Block
  /-- `ReadTd` -/
  td : Hash → Option U256
  /-- `ReadCanonicalHash`; no entry is the zero hash -/
  canonical : UInt64 → Option Hash
  /-- `currentBlock` -/
  head : Block
  /-- the `modules.Reward` table: `GetAccountReward` -/
  rewards : Address → Option U256
  /-- the `modules.Deposit` table -/
  deposits : Deposit.Registry
  /-- the `modules.TxLookup` index: the block number of a transaction hash -/
  txLookup : Hash → Option UInt64
  /-- the `NewLogsEvent`s sent and not yet handled by the deposit loop -/
  events : List (List Log)

/-- the errors of the import -/
inductive InsertError where
  | errUnknownAncestor
  /-- `"invalid old chain"` -/
  | invalidOldChain
  /-- `"invalid new chain"` -/
  | invalidNewChain
  | reward (e : Apos.ChainError)
  /-- a dereference of a missing total difficulty -/
  | panic
  /-- a walk of `reorg` longer than the block numbers allow, which only an inconsistent table
  of blocks gives -/
  | fuel
deriving DecidableEq, Repr

/-- `WriteStatus` -/
inductive WriteStatus where
  | nonStatTy
  | canonStatTy
  | sideStatTy
deriving DecidableEq, Repr

variable (env : ChainEnv)

/-- `block.Hash()` -/
def hashOf (b : Block) : Hash := env.headerHash b.header

namespace ChainState

variable (st : ChainState)

/-- `GetBlock(hash, number)`: nothing for the zero hash or a stored block of another number -/
def getBlock (hash : Hash) (number : UInt64) : Option Block :=
  if hash = 0 then none
  else
    match st.blocks hash with
    | some b => if b.header.number64 = number then some b else none
    | none => none

/-- `GetBlockByNumber`: the block of the canonical hash at the number -/
def getBlockByNumber (n : U256) : Option Block :=
  match st.canonical (UInt64.ofNat n.toNat) with
  | some h => st.getBlock h (UInt64.ofNat n.toNat)
  | none => none

/-- `ReadTransactionByHash`: through the index to the canonical block at its number -/
def readTransactionByHash (h : Hash) : Option Transaction := do
  let n ← st.txLookup h
  let bh ← st.canonical n
  let b ← st.getBlock bh n
  b.body.txs.find? fun tx => env.txHash tx = h

/-- the chain as `Finalize` reads it; `GetAccountReward` of an address without an entry is 0 -/
def reader : Apos.ChainHeaderReader where
  getBlockByNumber := st.getBlockByNumber
  getDepositInfo := Deposit.chainDepositInfo st.deposits
  getAccountRewardUnpaid a := .ok (some ((st.rewards a).getD 0))

/-- `writeHeadBlock`: the head, its transactions in the index, its canonical hash -/
def writeHeadBlock (b : Block) : ChainState :=
  { st with
    head := b
    txLookup := b.body.txs.foldl
      (fun l tx => Function.update l (env.txHash tx) (some b.header.number64)) st.txLookup
    canonical := Function.update st.canonical b.header.number64 (some (hashOf env b)) }

/-- `rawdb.PutAccountReward` for every entry of the carry-over map -/
def putAccountRewards (nopay : List (Address × U256)) : ChainState :=
  { st with rewards := nopay.foldl (fun r e => Function.update r e.1 (some e.2)) st.rewards }

@[simp] theorem putAccountRewards_head (nopay : List (Address × U256)) :
    (st.putAccountRewards nopay).head = st.head := rfl

@[simp] theorem putAccountRewards_td (nopay : List (Address × U256)) :
    (st.putAccountRewards nopay).td = st.td := rfl

@[simp] theorem putAccountRewards_blocks (nopay : List (Address × U256)) :
    (st.putAccountRewards nopay).blocks = st.blocks := rfl

end ChainState

open ChainState

/-- the first loop of `reorg` when the old chain is the longer one: the old head steps back to
the new head's number, each block it leaves gathered -/
def walkOld (st : ChainState) (target : UInt64) :
    Nat → Block → List Block → Except InsertError (Block × List Block)
  | 0, b, acc => if b.header.number64 = target then .ok (b, acc) else .error .fuel
  | fuel + 1, b, acc =>
    if b.header.number64 = target then .ok (b, acc)
    else
      match st.getBlock b.header.parentHash (b.header.number64 - 1) with
      | none => .error .invalidOldChain
      | some p => walkOld st target fuel p (acc ++ [b])

/-- the second loop of `reorg`: both sides step back until they meet -/
def findCommon (st : ChainState) :
    Nat → Block → Block → List Block → List Block →
      Except InsertError (Block × List Block × List Block)
  | 0, old, new, oldChain, newChain =>
    if hashOf env old = hashOf env new then .ok (old, oldChain, newChain) else .error .fuel
  | fuel + 1, old, new, oldChain, newChain =>
    if hashOf env old = hashOf env new then .ok (old, oldChain, newChain)
    else
      match st.getBlock old.header.parentHash (old.header.number64 - 1) with
      | none => .error .invalidOldChain
      | some old' =>
        match st.getBlock new.header.parentHash (new.header.number64 - 1) with
        | none => .error .invalidNewChain
        | some new' => findCommon st fuel old' new' (oldChain ++ [old]) (newChain ++ [new])

/-- `reorg(nil, oldBlock, newBlock)`.  When the new chain is not the shorter one, the first loop
runs while `newBlock.Number64() != oldBlock.Number64()`, a comparison of two `*uint256.Int`
pointers, which two distinct blocks read from the store never share: it steps back past the
genesis block to `nil` and the reorg fails with `"invalid new chain"`. -/
def reorg (st : ChainState) (oldBlock newBlock : Block) : Except InsertError ChainState := do
  if oldBlock.header.number64 ≤ newBlock.header.number64 then throw .invalidNewChain
  let (oldBlock, oldChain) ← walkOld st newBlock.header.number64
    (oldBlock.header.number64.toNat - newBlock.header.number64.toNat) oldBlock []
  let (commonBlock, oldChain, newChain) ← findCommon env st
    (oldBlock.header.number64.toNat + 1) oldBlock newBlock oldChain []
  let deletedTxs := (oldChain.flatMap fun b => b.body.txs).map env.txHash
  let rewritten := newChain.drop 1
  let addedTxs := (rewritten.flatMap fun b => b.body.txs).map env.txHash
  let st := rewritten.reverse.foldl (fun st b => st.writeHeadBlock env b) st
  let st := { st with
    txLookup := fun h => if h ∈ deletedTxs ∧ h ∉ addedTxs then none else st.txLookup h }
  let number := match newChain[1]? with
    | some b => b.header.number64
    | none => commonBlock.header.number64
  -- the truncation loop stops at the first number without a canonical hash
  match st.canonical (number + 1) with
  | none => pure st
  | some _ => pure { st with canonical := fun k => if number + 1 ≤ k then none else st.canonical k }

/-- `ForkChoice.ReorgNeeded(current, header)` with `preserve` `nil`: a heavier block, or at
equal weight a lower one, or at equal weight and height a coin (`f.rand.Float64() < 0.5`) -/
def reorgNeeded (st : ChainState) (current header : Header) (coin : Bool) :
    Except InsertError Bool := do
  let localTd ← Except.ofOption .panic (st.td (env.headerHash current))
  let externTd ← Except.ofOption .panic (st.td (env.headerHash header))
  let reorg := decide (localTd < externTd)
  if !reorg && externTd = localTd then
    if header.number64 < current.number64 then pure true
    else if header.number64 = current.number64 then pure coin
    else pure false
  else pure reorg

/-- `writeBlockWithState(block, receipts, ibs, nopay)`: the total difficulty, the block and the
carry-overs are committed first; the fork choice and the reorg come after, and a failed reorg
leaves that commit in place -/
def writeBlockWithState (st : ChainState) (block : Block)
    (nopay : Option (List (Address × U256))) (coin : Bool) :
    ChainState × Except InsertError WriteStatus :=
  match st.td block.header.parentHash with
  | none => (st, .error .errUnknownAncestor)
  | some ptd =>
    let h := hashOf env block
    let st := { st with
      td := Function.update st.td h (some (ptd + block.header.difficulty))
      blocks := Function.update st.blocks h (some block) }
    let st := match nopay with
      | some m => st.putAccountRewards m
      | none => st
    match reorgNeeded env st st.head.header block.header coin with
    | .error e => (st, .error e)
    | .ok false => (st, .ok .sideStatTy)
    | .ok true =>
      let r := if block.header.parentHash ≠ hashOf env st.head then reorg env st st.head block
        else .ok st
      match r with
      | .error e => (st, .error e)
      | .ok st => (st.writeHeadBlock env block, .ok .canonStatTy)

/-- the carry-overs `Process` hands back: `Finalize` on the chain as it stands -/
def processNopay (st : ChainState) (block : Block) :
    Except InsertError (Option (List (Address × U256))) :=
  match Apos.rewardMaps env.config block.header.number st.reader with
  | .ok maps => .ok (maps.map Prod.snd)
  | .error e => .error (.reward e)

/-- one block of `insertChain`, validated: `Process`, `writeBlockWithState`, and a
`NewLogsEvent` when the block is canonical and has logs -/
def insertBlock (coin : Bool) (block : Block) (st : ChainState) :
    ChainState × Except InsertError WriteStatus :=
  match processNopay env st block with
  | .error e => (st, .error e)
  | .ok nopay =>
    let logs := env.execute block
    match writeBlockWithState env st block nopay coin with
    | (st, .ok .canonStatTy) =>
      ({ st with events := if logs = [] then st.events else st.events ++ [logs] }, .ok .canonStatTy)
    | r => r

/-- a block the local miner sealed, with the carry-overs its task computed: `WriteBlockWithState`,
then a `NewLogsEvent` whenever the write succeeded and there are logs, canonical or not -/
def writeMined (coin : Bool) (block : Block) (nopay : Option (List (Address × U256)))
    (st : ChainState) : ChainState × Except InsertError WriteStatus :=
  let logs := env.execute block
  match writeBlockWithState env st block nopay coin with
  | (st, .ok s) =>
    ({ st with events := if logs = [] then st.events else st.events ++ [logs] }, .ok s)
  | r => r

/-- the deposit loop handles the oldest event, reading transactions as the chain now indexes
them; `none` where the loop panics or there is no event -/
def deliver (st : ChainState) : Option ChainState :=
  match st.events with
  | [] => none
  | logs :: rest => do
    let reg ← Deposit.handleLogs env.loop (st.readTransactionByHash env) st.deposits logs
    pure { st with deposits := reg, events := rest }

/-! ## what the registry should be -/

/-- the blocks of the canonical chain, genesis first, up to the head's number -/
def canonicalChain (st : ChainState) : List Block :=
  (List.range (st.head.header.number64.toNat + 1)).filterMap fun n => st.getBlockByNumber n

/-- the registry the deposit logs of the canonical chain give, folded in canonical order from an
empty table, transactions read through the index as it stands -/
def canonicalRegistry (st : ChainState) : Option Deposit.Registry :=
  (canonicalChain st).foldlM
    (fun reg b => Deposit.handleLogs env.loop (st.readTransactionByHash env) reg (env.execute b))
    fun _ => none

/-! ## a reorg over a deposit -/

/-- the depositor, its deposit contract, and the transaction that deposits 50 `AMT` -/
def depositor : Address := 0x5e1f
def depositContractAddr : Address := 0xde9
def depositAmount : U256 := BitVec.ofNat 256 (50 * Deposit.amt)

def depositTx : Transaction :=
  ⟨.legacy
    { nonce := 0, gasPrice := 1, gas := 100000, toAddr := some depositContractAddr,
      fromAddr := some depositor, value := depositAmount, data := [], v := some 27,
      r := some 1, s := some 1, sign := [] }⟩

/-- the deposit log of `depositTx`, emitted by the block whose root is `0x11` -/
def depositLog : Log := ⟨depositContractAddr, [0xd1], [], 0xd0⟩

/-- a chain before Beijing, so that no block pays rewards -/
def preBeijingConfig : ChainConfig where
  chainID := 1
  homesteadBlock := some 0
  spuriousDragonBlock := some 0
  istanbulBlock := some 0
  berlinBlock := some 0
  londonBlock := some 0
  shanghaiBlock := some 0
  beijingBlock := some 1000
  eip1559FeeCollector := none
  eip1559FeeCollectorTransition := none
  parlia := false
  rewardEpoch := 1
  rewardLimit := 0

/-- one deposit contract, whose every deposit log carries key `0x4b` and `depositAmount`, and a
BLS check that passes -/
def depositLoop : Deposit.LoopEnv where
  depositContracts a :=
    if a = depositContractAddr then some ⟨0xd1, 0xd2, fun _ => .ok (0x4b, 0x5, depositAmount)⟩
    else none
  verify _ _ _ := true

/-- each header named by its root, `depositTx` hashing to `0xd0` -/
def depositEnv : ChainEnv where
  config := preBeijingConfig
  headerHash h := h.root
  txHash tx := if tx = depositTx then 0xd0 else 0
  execute b := if b.header.root = 0x11 then [depositLog] else []
  loop := depositLoop

/-- the header of a block: its parent's root, its own root, number and difficulty -/
def mkHeader (parent root number difficulty : Nat) : Header :=
  { parentHash := BitVec.ofNat 256 parent, root := BitVec.ofNat 256 root, txHash := 0,
    difficulty := BitVec.ofNat 256 difficulty, number := BitVec.ofNat 256 number,
    signature := 0 }

def genesisBlock : Block := ⟨mkHeader 0 0x10 0 1, ⟨[], []⟩⟩
/-- block 1 of the first branch, with the deposit, and its child -/
def blockA1 : Block := ⟨mkHeader 0x10 0x11 1 1, ⟨[depositTx], []⟩⟩
def blockA2 : Block := ⟨mkHeader 0x11 0x12 2 1, ⟨[], []⟩⟩
/-- block 1 of the second branch, heavier than the first branch's two blocks together -/
def blockB1 : Block := ⟨mkHeader 0x10 0x21 1 5, ⟨[], []⟩⟩

/-- a node holding only the genesis block -/
def genesisState : ChainState where
  blocks h := if h = 0x10 then some genesisBlock else none
  td h := if h = 0x10 then some 1 else none
  canonical n := if n = 0 then some 0x10 else none
  head := genesisBlock
  rewards _ := none
  deposits _ := none
  txLookup _ := none
  events := []

/-- `blockA1` imported, and its deposit event handled by the loop -/
def depositedState : ChainState :=
  let st := (insertBlock depositEnv false blockA1 genesisState).1
  (deliver depositEnv st).getD st

/-- then `blockA2`, then the heavier `blockB1` -/
def reorgedState : ChainState :=
  (insertBlock depositEnv false blockB1 (insertBlock depositEnv false blockA2 depositedState).1).1

theorem reorg_keeps_removed_deposit :
    (deliver depositEnv (insertBlock depositEnv false blockA1 genesisState).1).isSome = true ∧
      (insertBlock depositEnv false blockB1
        (insertBlock depositEnv false blockA2 depositedState).1).2 = .ok .canonStatTy ∧
      reorgedState.head.header = blockB1.header ∧ reorgedState.canonical 1 = some 0x21 ∧
      reorgedState.canonical 2 = none ∧ reorgedState.events = [] ∧
      reorgedState.deposits depositor = some (0x4b, depositAmount) ∧
      (canonicalRegistry depositEnv reorgedState).map (· depositor) = some none := by
  decide +kernel

/-! ## a side block's carry-overs -/

/-- Beijing from block 2 and an epoch of one block, so that every block from 2 on is a reward
block, and a limit no sample total reaches -/
def rewardConfig : ChainConfig :=
  { preBeijingConfig with beijingBlock := some 2, rewardLimit := BitVec.ofNat 256 Deposit.amt }

/-- the verifier, with a deposit of 50 `AMT`, and its reward per block at that size -/
def verifier : Address := 0xa1
def rewardPerBlock : U256 := BitVec.ofNat 256 (25 * 10 ^ 12)

def rewardEnv : ChainEnv := { depositEnv with config := rewardConfig }

/-- a genesis block and block 1, which the verifier signed; two children of block 1 of weights 2
and 1, both signed by the verifier; and a child of the heavier one -/
def rewardGenesis : Block := ⟨mkHeader 0 0x30 0 1, ⟨[], []⟩⟩
def signedBlock : Block := ⟨mkHeader 0x30 0x34 1 1, ⟨[], [⟨verifier, 0x1a⟩]⟩⟩
def epochBlock : Block := ⟨mkHeader 0x34 0x31 2 2, ⟨[], [⟨verifier, 0x1a⟩]⟩⟩
def sideEpochBlock : Block := ⟨mkHeader 0x34 0x32 2 1, ⟨[], [⟨verifier, 0x1a⟩]⟩⟩
def nextEpochBlock : Block := ⟨mkHeader 0x31 0x33 3 1, ⟨[], []⟩⟩

def rewardGenesisState : ChainState :=
  { genesisState with
    blocks := fun h => if h = 0x30 then some rewardGenesis else none
    td := fun h => if h = 0x30 then some 1 else none
    canonical := fun n => if n = 0 then some 0x30 else none
    head := rewardGenesis
    deposits := fun a => if a = verifier then some (0x1a, depositAmount) else none }

/-- block 1 imported -/
def signedState : ChainState := (insertBlock rewardEnv false signedBlock rewardGenesisState).1

/-- then the heavier block 2, then its lighter sibling -/
def afterSideBlock : ChainState :=
  (insertBlock rewardEnv false sideEpochBlock
    (insertBlock rewardEnv false epochBlock signedState).1).1

theorem side_block_overwrites_carry :
    processNopay rewardEnv signedState epochBlock = .ok (some [(verifier, rewardPerBlock)]) ∧
      (insertBlock rewardEnv false epochBlock signedState).2 = .ok .canonStatTy ∧
      (insertBlock rewardEnv false sideEpochBlock
        (insertBlock rewardEnv false epochBlock signedState).1).2 = .ok .sideStatTy ∧
      afterSideBlock.head.header = epochBlock.header ∧
      afterSideBlock.reader.getAccountRewardUnpaid verifier = .ok (some (2 * rewardPerBlock)) ∧
      processNopay rewardEnv afterSideBlock nextEpochBlock =
        .ok (some [(verifier, 3 * rewardPerBlock)]) := by
  decide +kernel

/-! ## a heavier fork that is not shorter -/

theorem reorg_eq_invalidNewChain {st : ChainState} {oldBlock newBlock : Block}
    (h : oldBlock.header.number64 ≤ newBlock.header.number64) :
    reorg env st oldBlock newBlock = .error .invalidNewChain := by
  rw [reorg, if_pos h]
  rfl

theorem reorgNeeded_of_lt {st : ChainState} {current header : Header} {coin : Bool}
    {localTd externTd : U256} (hl : st.td (env.headerHash current) = some localTd)
    (he : st.td (env.headerHash header) = some externTd) (hlt : localTd < externTd) :
    reorgNeeded env st current header coin = .ok true := by
  simp [reorgNeeded, Except.ofOption, hl, he, hlt, BitVec.not_le.mpr hlt]

theorem writeBlockWithState_fork_not_shorter {st : ChainState} {block : Block}
    {nopay : Option (List (Address × U256))} {coin : Bool} {ptd localTd : U256}
    (hparent : st.td block.header.parentHash = some ptd)
    (hlocal : st.td (hashOf env st.head) = some localTd)
    (hnew : hashOf env block ≠ hashOf env st.head)
    (hheavier : localTd < ptd + block.header.difficulty)
    (hside : block.header.parentHash ≠ hashOf env st.head)
    (hheight : st.head.header.number64 ≤ block.header.number64) :
    (writeBlockWithState env st block nopay coin).2 = .error .invalidNewChain ∧
      (writeBlockWithState env st block nopay coin).1.head = st.head ∧
      (writeBlockWithState env st block nopay coin).1.blocks (hashOf env block) = some block ∧
      (writeBlockWithState env st block nopay coin).1.td (hashOf env block) =
        some (ptd + block.header.difficulty) := by
  -- the fork choice runs on the state with the block and its total difficulty committed, and
  -- the carry-overs written there change neither the table of total difficulties nor the head
  have hchoice : ∀ st' : ChainState, st'.td = Function.update st.td (hashOf env block)
        (some (ptd + block.header.difficulty)) → st'.head = st.head →
      reorgNeeded env st' st'.head.header block.header coin = .ok true := by
    intro st' htd hhead
    refine reorgNeeded_of_lt env ?_ ?_ hheavier
    · have hne : env.headerHash st.head.header ≠ hashOf env block := hnew.symm
      rw [htd, hhead, Function.update_of_ne hne]
      exact hlocal
    · rw [htd]
      exact Function.update_self _ _ _
  cases nopay
  all_goals
    simp only [writeBlockWithState, hparent]
    rw [hchoice _ ?_ ?_]
    · simp only [ne_eq, putAccountRewards_head, putAccountRewards_blocks, putAccountRewards_td,
        if_pos hside, reorg_eq_invalidNewChain env hheight, Function.update_self, and_self]
    all_goals rfl

/-- a block heavier than the head, at the head's height or above and not its child, is
written with its total difficulty and does not become the head: the import fails -/
theorem insertBlock_fork_not_shorter {st : ChainState} {block : Block} {coin : Bool}
    {nopay : Option (List (Address × U256))} {ptd localTd : U256}
    (hproc : processNopay env st block = .ok nopay)
    (hparent : st.td block.header.parentHash = some ptd)
    (hlocal : st.td (hashOf env st.head) = some localTd)
    (hnew : hashOf env block ≠ hashOf env st.head)
    (hheavier : localTd < ptd + block.header.difficulty)
    (hside : block.header.parentHash ≠ hashOf env st.head)
    (hheight : st.head.header.number64 ≤ block.header.number64) :
    (insertBlock env coin block st).2 = .error .invalidNewChain ∧
      (insertBlock env coin block st).1.head = st.head ∧
      (insertBlock env coin block st).1.blocks (hashOf env block) = some block ∧
      (insertBlock env coin block st).1.td (hashOf env block) =
        some (ptd + block.header.difficulty) := by
  obtain ⟨hres, hrest⟩ := @writeBlockWithState_fork_not_shorter env st block nopay coin ptd localTd
    hparent hlocal hnew hheavier hside hheight
  have hwrite : writeBlockWithState env st block nopay coin =
      ((writeBlockWithState env st block nopay coin).1, .error .invalidNewChain) := by
    rw [← hres]
  rw [insertBlock, hproc]
  dsimp only
  rw [hwrite]
  exact ⟨rfl, hrest⟩

/-- `blockA1` imported on the genesis block: the head, of total difficulty 2 -/
def forkState : ChainState := (insertBlock depositEnv false blockA1 genesisState).1

theorem heavier_sibling_stays_side :
    (insertBlock depositEnv false blockB1 forkState).2 = .error .invalidNewChain ∧
      (insertBlock depositEnv false blockB1 forkState).1.head = forkState.head ∧
      (insertBlock depositEnv false blockB1 forkState).1.blocks (hashOf depositEnv blockB1) =
        some blockB1 ∧
      (insertBlock depositEnv false blockB1 forkState).1.td (hashOf depositEnv blockB1) =
        some (1 + blockB1.header.difficulty) :=
  insertBlock_fork_not_shorter depositEnv
    (show processNopay depositEnv forkState blockB1 = .ok none by decide +kernel)
    (show forkState.td blockB1.header.parentHash = some 1 by decide +kernel)
    (show forkState.td (hashOf depositEnv forkState.head) = some 2 by decide +kernel)
    (by decide +kernel) (by decide +kernel) (by decide +kernel) (by decide +kernel)

theorem writeBlockWithState_side {st : ChainState} {block : Block}
    {nopay : Option (List (Address × U256))} {coin : Bool}
    (h : (writeBlockWithState env st block nopay coin).2 = .ok .sideStatTy) :
    (st.td block.header.parentHash).isSome ∧
      (writeBlockWithState env st block nopay coin).1.head = st.head := by
  unfold writeBlockWithState at h ⊢
  cases hp : st.td block.header.parentHash with
  | none => simp [hp] at h
  | some ptd =>
    simp only [hp] at h ⊢
    refine ⟨rfl, ?_⟩
    -- the fork choice failed or kept the head: the commit is all that was written; it said
    -- reorganise: the import ends canonical or fails, never side
    split
    next => cases nopay <;> rfl
    next => cases nopay <;> rfl
    next heq =>
      simp only [heq] at h
      split at h <;> simp at h

theorem insertBlock_side {st : ChainState} {block : Block} {coin : Bool}
    (h : (insertBlock env coin block st).2 = .ok .sideStatTy) :
    (processNopay env st block).isOk ∧ (st.td block.header.parentHash).isSome ∧
      (insertBlock env coin block st).1.head = st.head := by
  unfold insertBlock at h ⊢
  cases hp : processNopay env st block with
  | error e => simp [hp] at h
  | ok nopay =>
    simp only [hp] at h ⊢
    have hwrite := @writeBlockWithState_side env st block nopay coin
    rcases hw : writeBlockWithState env st block nopay coin with ⟨st', r⟩
    rw [hw] at hwrite h
    -- only a side write comes back as side; a canonical one is the other branch of the match
    rcases r with e | s
    · cases h
    · cases s with
      | nonStatTy => cases h
      | canonStatTy => cases h
      | sideStatTy =>
        obtain ⟨hparent, hhead⟩ := hwrite rfl
        exact ⟨rfl, hparent, hhead⟩

/-! ## the plain state -/

/-- one block of `insertChain` with the plain state `Process` reads and `CommitBlock` writes:
`evmRecord` executes the block on the latest plain state, through a `PlainStateReader`, whatever
the block's parent, and `writeBlockWithState` commits the result in the database transaction that
writes the block and its total difficulty, before the fork choice.  That transaction fails only
without the parent's total difficulty. -/
def insertBlockPlain {σ : Type} (process : σ → Block → σ) (coin : Bool) (block : Block)
    (st : ChainState) (plain : σ) : (ChainState × σ) × Except InsertError WriteStatus :=
  match processNopay env st block with
  | .error e => ((st, plain), .error e)
  | .ok _ =>
    let r := insertBlock env coin block st
    ((r.1, if (st.td block.header.parentHash).isSome then process plain block else plain), r.2)

/-- the plain state of the canonical chain: `Process` folded over its blocks after genesis -/
def canonicalPlain {σ : Type} (process : σ → Block → σ) (genesis : σ) (st : ChainState) : σ :=
  (canonicalChain st).tail.foldl process genesis

/-- a block that stays on the side was executed on the latest plain state, and that result is
the plain state now, while the head has not moved -/
theorem insertBlockPlain_side {σ : Type} {process : σ → Block → σ} {coin : Bool}
    {block : Block} {st : ChainState} {plain : σ}
    (h : (insertBlockPlain env process coin block st plain).2 = .ok .sideStatTy) :
    (insertBlockPlain env process coin block st plain).1 =
        ((insertBlock env coin block st).1, process plain block) ∧
      (insertBlock env coin block st).1.head = st.head := by
  unfold insertBlockPlain at h ⊢
  cases hp : processNopay env st block with
  | error e =>
    rw [hp] at h
    cases h
  | ok nopay =>
    rw [hp] at h
    obtain ⟨_, hparent, hhead⟩ := insertBlock_side env h
    dsimp only
    rw [if_pos hparent]
    exact ⟨rfl, hhead⟩

/-- a record of the blocks executed, in order: a `Process` that forgets nothing -/
def executedRoots (s : List Hash) (b : Block) : List Hash := s ++ [b.header.root]

/-- block 1 of a third branch, of the weight of `blockA1` -/
def blockC1 : Block := ⟨mkHeader 0x10 0x31 1 1, ⟨[], []⟩⟩

/-- `blockA1`, then `blockA2`, then `blockC1` imported on the genesis block, with the plain
state -/
def plainA1 := insertBlockPlain depositEnv executedRoots false blockA1 genesisState []
def plainA2 := insertBlockPlain depositEnv executedRoots false blockA2 plainA1.1.1 plainA1.1.2
def plainC1 := insertBlockPlain depositEnv executedRoots false blockC1 plainA2.1.1 plainA2.1.2

theorem side_block_moves_plain_state :
    plainA1.2 = .ok .canonStatTy ∧ plainA2.2 = .ok .canonStatTy ∧
      plainC1.2 = .ok .sideStatTy ∧ plainC1.1.1.head.header = blockA2.header ∧
      plainC1.1.2 = [0x11, 0x12, 0x31] ∧
      canonicalPlain executedRoots [] plainC1.1.1 = [0x11, 0x12] := by
  decide +kernel

end Chain

end N42

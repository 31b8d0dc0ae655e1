import N42.Consensus.Apos

/-!
# (key: deposit) The deposit registry and its event loop

`contracts/deposit/contract.go` and `modules/rawdb/accessors_deposit.go`: the node keeps a table
from depositor address to BLS key and amount.  A goroutine fills it from the `NewLogsEvent`s the
chain and the miner send: a `DepositEvent` log of a configured deposit contract whose signature
verifies records the key and amount for the sender of the log's transaction, a `WithdrawnEvent`
log deletes the sender's entry.  A `RemovedLogsEvent` is only logged.  `GetDepositInfo` derives
the reward rates from the amount.

* `Registry`, `depositInfo`   the table and the rate table of `GetDepositInfo`, with its panic
                        on an amount it does not know;
* `handleLog`, `handleLogs`   the body of the event loop for one log and for one event;
* `handleLogs_append`   handling two events one after the other is handling their logs in order.
-/

namespace N42

namespace Deposit

/-- `params.AMT` and `params.Wei` -/
def amt : Nat := 10 ^ 18
def wei : Nat := 1

def dayPerMonth : Nat := 30
def fiftyDeposit : Nat := 50
def oneHundredDeposit : Nat := 100
def fiveHundredDeposit : Nat := 500
def fuji2000Deposit : Nat := 2000
def fuji800Deposit : Nat := 800
def fuji200Deposit : Nat := 200
def fiftyDepositMaxTaskPerEpoch : Nat := 500
def oneHundredDepositMaxTaskPerEpoch : Nat := 100
def fiveHundredDepositMaxTaskPerEpoch : Nat := 100
def fujiMaxTaskPerEpoch : Nat := 50
/-- `0.375 * params.AMT` -/
def fiftyDepositRewardPerMonth : Nat := 375 * 10 ^ 15
def oneHundredDepositRewardPerMonth : Nat := amt
/-- `6.25 * params.AMT` -/
def fiveHundredDepositRewardPerMonth : Nat := 625 * 10 ^ 16
/-- `0.025 * params.AMT` -/
def fuji200RewardPerEpoch : Nat := 25 * 10 ^ 15
/-- `0.1 * params.AMT` -/
def fuji800RewardPerEpoch : Nat := 10 ^ 17
def fuji2000RewardPerMonth : Nat := 10 * amt

/-- the `modules.Deposit` table: the key and the amount of each depositor -/
abbrev Registry := Address → Option (PublicKey × U256)

/-- `deposit.Info` -/
structure Info where
  publicKey : PublicKey
  depositAmount : U256
  rewardPerBlock : U256
  maxRewardPerEpoch : U256
deriving DecidableEq, Repr

/-- the rates of one deposit size: the reward per block and the cap per epoch -/
def rates (depositEther : Nat) : Except Apos.ChainError (Option (U256 × U256)) :=
  let n (x : Nat) : U256 := BitVec.ofNat 256 x
  if depositEther = fiftyDeposit then
    let rpb := n fiftyDepositRewardPerMonth / n (dayPerMonth * fiftyDepositMaxTaskPerEpoch)
    .ok (some (rpb, rpb * n fiftyDepositMaxTaskPerEpoch))
  else if depositEther = oneHundredDeposit then
    let rpb := n oneHundredDepositRewardPerMonth /
      n (dayPerMonth * oneHundredDepositMaxTaskPerEpoch) + n wei
    .ok (some (rpb, rpb * n oneHundredDepositMaxTaskPerEpoch))
  else if depositEther = fiveHundredDeposit then
    let rpb := n fiveHundredDepositRewardPerMonth /
      n (dayPerMonth * fiveHundredDepositMaxTaskPerEpoch) + n wei
    .ok (some (rpb, rpb * n fiveHundredDepositMaxTaskPerEpoch))
  else if depositEther = fuji200Deposit then
    .ok (some (n fuji200RewardPerEpoch / n fujiMaxTaskPerEpoch, n fuji200RewardPerEpoch))
  else if depositEther = fuji800Deposit then
    .ok (some (n fuji800RewardPerEpoch / n fujiMaxTaskPerEpoch, n fuji800RewardPerEpoch))
  else if depositEther = fuji2000Deposit then
    let rpb := n fuji2000RewardPerMonth / n (dayPerMonth * fujiMaxTaskPerEpoch) + n wei
    .ok (some (rpb, rpb * n fujiMaxTaskPerEpoch))
  else if depositEther = 10 then .ok none
  else .error .panic

/-- `GetDepositInfo(tx, addr)`: nothing for an address without an entry; the size is the
amount in whole `AMT`, read as a `uint64` -/
def depositInfo (reg : Registry) (addr : Address) : Except Apos.ChainError (Option Info) :=
  match reg addr with
  | none => .ok none
  | some (pubkey, depositAmount) => do
    let depositEther := (depositAmount / BitVec.ofNat 256 amt).toNat % 2 ^ 64
    let r ← rates depositEther
    pure (r.map fun p => ⟨pubkey, depositAmount, p.1, p.2⟩)

/-- `BlockChain.GetDepositInfo`: the two rates, `nil, nil` without information -/
def chainDepositInfo (reg : Registry) (addr : Address) :
    Except Apos.ChainError (Option (U256 × U256)) := do
  let info ← depositInfo reg addr
  pure (info.map fun i => (i.rewardPerBlock, i.maxRewardPerEpoch))

/-- a `DepositContract` as the event loop uses it -/
structure DepositContract where
  depositSignature : Hash
  withdrawnSignature : Hash
  unpackDepositLogData : List UInt8 → Except String (PublicKey × Signature × U256)

/-- what the event loop reads besides the table: the configured contracts and the BLS check
`signature.Verify(publicKey, amount.Bytes())` -/
structure LoopEnv where
  depositContracts : Address → Option DepositContract
  verify : Signature → PublicKey → U256 → Bool

/-- `rawdb.PutDeposit(rwTx, *tx.From(), pub, amount)` for the transaction `ReadTransactionByHash`
found, and nothing where it found none; `*tx.From()` of a transaction without a sender is a
`nil` dereference (`none`) -/
def putDepositFor (tx : Option Transaction) (entry : Option (PublicKey × U256)) (reg : Registry) :
    Option Registry :=
  match tx with
  | none => some reg
  | some tx => tx.fromAddr.map fun depositor => Function.update reg depositor entry

/-- `handleDepositEvent`: a log that does not unpack or whose signature fails changes nothing -/
def handleDepositEvent (env : LoopEnv) (readTx : Hash → Option Transaction) (txHash : Hash)
    (data : List UInt8) (c : DepositContract) (reg : Registry) : Option Registry :=
  match c.unpackDepositLogData data with
  | .error _ => some reg
  | .ok (pb, sig, amount) =>
    if env.verify sig pb amount then putDepositFor (readTx txHash) (some (pb, amount)) reg
    else some reg

/-- `handleWithdrawnEvent`: `rawdb.DeleteDeposit(rwTx, *tx.From())` -/
def handleWithdrawnEvent (readTx : Hash → Option Transaction) (txHash : Hash) (reg : Registry) :
    Option Registry :=
  putDepositFor (readTx txHash) none reg

/-- the loop body for one log of a `NewLogsEvent`: `l.Topics[0]` of a log without topics is an
index out of range, which stops the node (`none`) -/
def handleLog (env : LoopEnv) (readTx : Hash → Option Transaction) (reg : Registry) (l : Log) :
    Option Registry :=
  match env.depositContracts l.address with
  | none => some reg
  | some c =>
    match l.topics.head? with
    | none => none
    | some t =>
      if t = c.depositSignature then handleDepositEvent env readTx l.txHash l.data c reg
      else if t = c.withdrawnSignature then handleWithdrawnEvent readTx l.txHash reg
      else some reg

/-- the loop body for one `NewLogsEvent` -/
def handleLogs (env : LoopEnv) (readTx : Hash → Option Transaction) (reg : Registry)
    (logs : List Log) : Option Registry :=
  logs.foldlM (handleLog env readTx) reg

theorem handleLogs_append (env : LoopEnv) (readTx : Hash → Option Transaction) (reg : Registry)
    (ls ms : List Log) :
    handleLogs env readTx reg (ls ++ ms) =
      (handleLogs env readTx reg ls).bind fun r => handleLogs env readTx r ms := by
  unfold handleLogs
  rw [List.foldlM_append]
  rfl

end Deposit

end N42

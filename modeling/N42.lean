import N42.Lib.Monad
import N42.Lib.Journal
import N42.Lib.Budget
import N42.Lib.StackCalls
import N42.Common.Types
import N42.Common.Transaction
import N42.Params.Config
import N42.Params.Protocol
import N42.Common.Signing
import N42.Common.Message
import N42.Common.TxProto
import N42.Core.StateTransition
import N42.TxsPool.Validate
import N42.Vm.SStore
import N42.Vm.JumpTable
import N42.State.IntraBlockState
import N42.State.RootHash
import N42.Common.Block
import N42.Common.BlockProto
import N42.Consensus.Apos
import N42.Consensus.Snapshot
import N42.Consensus.Seal
import N42.Core.BlockValidator
import N42.Contracts.Deposit
import N42.Core.BlockChain
import N42.Lib.Heap
import N42.TxsPool.SortedMap
import N42.TxsPool.TxsList
import N42.TxsPool.Priced
import N42.Vm.Analysis
import N42.Consensus.Eip1559
import N42.Consensus.Reward
import N42.Vm.Memory
import N42.Lib.KeyOrder
import N42.TxsPool.Pool
import N42.Lib.Wire
import N42.Common.TxWire
import N42.TxsPool.Truncate
import N42.Lib.Once
import N42.Download.Sync
import N42.Lib.AsOf
import N42.State.History
import N42.Lib.BigEndian
import N42.Rlp.Raw
import N42.Rlp.Encode
import N42.Rlp.Decode
import N42.Rlp.Preimages
import N42.Lib.EState
import N42.Rlp.Stream
import N42.Rlp.StreamSpec
import N42.Rlp.StreamDecode
import N42.Rlp.StreamInv

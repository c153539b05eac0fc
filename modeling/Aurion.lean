import Aurion.Foundation.Bytecode
import Aurion.Foundation.Bytes
import Aurion.Foundation.Check
import Aurion.Foundation.Decoder
import Aurion.Foundation.Dialogue
import Aurion.Foundation.Greedy
import Aurion.Foundation.HashTree
import Aurion.Foundation.Median
import Aurion.Foundation.Metered
import Aurion.Foundation.OrderedSet
import Aurion.Foundation.Program
import Aurion.Foundation.Progress
import Aurion.Foundation.Protocol
import Aurion.Foundation.Replication
import Aurion.Foundation.Search
import Aurion.Foundation.StackProgram
import Aurion.Foundation.Steps
import Aurion.Foundation.Stream
import Aurion.Foundation.Table
import Aurion.Foundation.Utf8
import Aurion.Foundation.Words
import Aurion.Primitives
import Aurion.Core.Block
import Aurion.Core.Sighash
import Aurion.Core.Transaction
import Aurion.Consensus.CompactBits
import Aurion.Consensus.Difficulty
import Aurion.Consensus.Subsidy
import Aurion.Consensus.Verification
import Aurion.Eutxo.Fee
import Aurion.Eutxo.Locktime
import Aurion.Eutxo.Maturity
import Aurion.Eutxo.Record
import Aurion.Script.Assembly
import Aurion.Script.Context
import Aurion.Script.Covenant
import Aurion.Script.Engine
import Aurion.Script.Execution
import Aurion.Script.Limits
import Aurion.Script.Locks
import Aurion.Script.Meaning
import Aurion.Script.Spending
import Aurion.Script.Stack
import Aurion.Rpc.Frame
import Aurion.Rpc.Protocol
import Aurion.Rpc.Reservations
import Aurion.Rpc.Client
import Aurion.Rpc.Server
import Aurion.Rpc.Template
import Aurion.Network.Frame
import Aurion.Network.Gossip
import Aurion.Network.Mesh
import Aurion.Storage.Engine
import Aurion.Node.Authority
import Aurion.Node.Authorization
import Aurion.Node.FailStop
import Aurion.Node.Faults
import Aurion.Node.Invariants
import Aurion.Node.Malleability
import Aurion.Ledger.Accounting
import Aurion.Ledger.Agreement
import Aurion.Ledger.ChainIndex
import Aurion.Ledger.CoinbaseMaturity
import Aurion.Ledger.DoubleSpend
import Aurion.Ledger.HardCap
import Aurion.Ledger.HeaderCommitment
import Aurion.Ledger.Lookup
import Aurion.Ledger.MinimumDifficulty
import Aurion.Ledger.Run
import Aurion.Ledger.Serializability
import Aurion.Ledger.Spending
import Aurion.Ledger.UtxoSet
import Aurion.Mempool.BlockValidity
import Aurion.Mempool.Capacity
import Aurion.Mempool.Confirmation
import Aurion.Mempool.Eviction
import Aurion.Mempool.FeeRate
import Aurion.Mempool.Indices
import Aurion.Mempool.Mineability
import Aurion.Mempool.Pool
import Aurion.Mempool.Selection
import Aurion.Mempool.Validation
import Aurion.Daemon.Handlers
import Aurion.Daemon.Invariant
import Aurion.Daemon.Locktimes
import Aurion.Daemon.MedianTime
import Aurion.Daemon.MedianWindow
import Aurion.Daemon.Modes
import Aurion.Daemon.Progress
import Aurion.Daemon.Service
import Aurion.Daemon.Staleness
import Aurion.Daemon.TemplateParent
import Aurion.Miner.Confirmation
import Aurion.Miner.Delivery
import Aurion.Miner.Loop
import Aurion.Miner.Search
import Aurion.Miner.SolvedTemplate
import Aurion.Miner.TargetBits
import Aurion.Miner.Transport

import ShardedKV.Strings
import ShardedKV.Transitions.Runs
import ShardedKV.Loops.Turns
import ShardedKV.Linked.Doubly
import ShardedKV.Backtracking.Search
import ShardedKV.Loads.Assignment
import ShardedKV.Grouping.Runs
import ShardedKV.Storage.Disk
import ShardedKV.Linearizability.History
import ShardedKV.Linearizability.Locality
import ShardedKV.Linearizability.Retries
import ShardedKV.Services.AgreedLog
import ShardedKV.Services.Sessions
import ShardedKV.Services.WaitChannels
import ShardedKV.Services.Handlers
import ShardedKV.Migration.Protocol
import ShardedKV.Migration.Invariant
import ShardedKV.Replication.Protocol
import ShardedKV.Replication.Invariant
import ShardedKV.Replication.Preservation
import ShardedKV.Replication.Moves
import ShardedKV.Replication.Holding
import ShardedKV.Raft.Cluster
import ShardedKV.Raft.FullLog
import ShardedKV.Raft.Merge
import ShardedKV.Raft.Handlers
import ShardedKV.Raft.Simulation
import ShardedKV.Raft.Elections
import ShardedKV.Raft.Transfers
import ShardedKV.Raft.Calls
import ShardedKV.Raft.Applying
import ShardedKV.Raft.Safety
import ShardedKV.Raft.Transitions
import ShardedKV.Raft.Durability
import ShardedKV.Raft.Order
import ShardedKV.Raft.Delivery
import ShardedKV.Raft.AgreedLog
import ShardedKV.Raft.ApplyLoop
import ShardedKV.Raft.AppendOnly
import ShardedKV.Raft.MatchIndex
import ShardedKV.Raft.Bookkeeping
import ShardedKV.Raft.FastBackup
import ShardedKV.Raft.Compaction
import ShardedKV.Raft.Votes
import ShardedKV.Raft.CommitRule
import ShardedKV.Raft.Overlaps
import ShardedKV.KvRaft.Server
import ShardedKV.KvRaft.System
import ShardedKV.KvRaft.Invariant
import ShardedKV.KvRaft.Steps
import ShardedKV.KvRaft.Linearizability
import ShardedKV.KvRaft.Snapshots
import ShardedKV.KvRaft.Channels
import ShardedKV.KvRaft.Stack
import ShardedKV.KvRaft.EndToEnd
import ShardedKV.ShardCtrler.Config
import ShardedKV.ShardCtrler.Rebalance
import ShardedKV.ShardCtrler.Termination
import ShardedKV.ShardCtrler.Retries
import ShardedKV.ShardCtrler.Assignment
import ShardedKV.ShardCtrler.Balance
import ShardedKV.ShardCtrler.MinimalMoves
import ShardedKV.ShardCtrler.SingleMoves
import ShardedKV.ShardCtrler.Validity
import ShardedKV.ShardCtrler.RangeOrders
import ShardedKV.ShardCtrler.System
import ShardedKV.ShardCtrler.Invariant
import ShardedKV.ShardCtrler.Reads
import ShardedKV.ShardCtrler.Stack
import ShardedKV.ShardKV.Server
import ShardedKV.ShardKV.System
import ShardedKV.ShardKV.Refinement
import ShardedKV.ShardKV.Invariant
import ShardedKV.ShardKV.Steps
import ShardedKV.ShardKV.Safety
import ShardedKV.ShardKV.Confirmation
import ShardedKV.ShardKV.Residency
import ShardedKV.ShardKV.Frames
import ShardedKV.ShardKV.Snapshots
import ShardedKV.ShardKV.Configurations
import ShardedKV.ShardKV.Counterparts
import ShardedKV.ShardKV.Deployment
import ShardedKV.ShardKV.EndToEnd
import ShardedKV.MapReduce.Coordinator
import ShardedKV.MapReduce.Worker
import ShardedKV.MapReduce.Execution
import ShardedKV.MapReduce.DataPath
import ShardedKV.MapReduce.Tables
import ShardedKV.MapReduce.System
import ShardedKV.MapReduce.Reports
import ShardedKV.MapReduce.Pool
import ShardedKV.MapReduce.Files
import ShardedKV.Porcupine.Bitset
import ShardedKV.Porcupine.Checker
import ShardedKV.Porcupine.Linearizations
import ShardedKV.Porcupine.SingleCheck
import ShardedKV.Porcupine.Entries
import ShardedKV.Porcupine.KvModel
import ShardedKV.Porcupine.Decision
import ShardedKV.Porcupine.Parallel
import ShardedKV.Porcupine.Verdicts
import ShardedKV.Porcupine.Partitions

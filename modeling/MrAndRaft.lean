import MrAndRaft.Lib.Prefix
import MrAndRaft.Lib.Quorum
import MrAndRaft.Raft.ClusterLaws
import MrAndRaft.Raft.Votes
import MrAndRaft.Raft.Aliasing
import MrAndRaft.Raft.Messages
import MrAndRaft.Raft.Election
import MrAndRaft.Raft.LogMatching
import MrAndRaft.Raft.Replication
import MrAndRaft.Raft.Completeness
import MrAndRaft.Raft.Commit
import MrAndRaft.Raft.OneStream
import MrAndRaft.Raft.Orderly
import MrAndRaft.Raft.Durability
import MrAndRaft.Lib.ExactlyOnce
import MrAndRaft.Lock.Server
import MrAndRaft.Lock.Service
import MrAndRaft.Lock.Grants
import MrAndRaft.Lock.Replicated
import MrAndRaft.Lock.ApplyLoop
import MrAndRaft.Lock.Acks
import MrAndRaft.Raft.ApplyStream
import MrAndRaft.Raft.TermOrder
import MrAndRaft.Raft.InRange
import MrAndRaft.Raft.Requests
import MrAndRaft.MapReduce.Coordinator
import MrAndRaft.MapReduce.Phases
import MrAndRaft.Lib.FileSystem
import MrAndRaft.Lib.Pieces
import MrAndRaft.MapReduce.Worker
import MrAndRaft.MapReduce.Results
import MrAndRaft.MapReduce.Pool
import MrAndRaft.MapReduce.Finality
import MrAndRaft.MapReduce.Completion
import MrAndRaft.MapReduce.Equivalence
import MrAndRaft.Lib.Locking
import MrAndRaft.Lib.Sections
import MrAndRaft.Bank.Operations
import MrAndRaft.Bank.Deadlock
import MrAndRaft.Bank.Sequential
import MrAndRaft.Bank.Atomicity
import MrAndRaft.Lock.Queue
import MrAndRaft.Lock.Notify
import MrAndRaft.Raft.Idempotence
import MrAndRaft.Raft.CommitRule
import MrAndRaft.Raft.ReplyOrder
import MrAndRaft.Raft.BackOff
import MrAndRaft.Raft.Reordering
import MrAndRaft.Bank.Compare
import MrAndRaft.MapReduce.Recovery
import MrAndRaft.MapReduce.Progress
import MrAndRaft.MapReduce.Reissue
import MrAndRaft.Lib.Batches
import MrAndRaft.Weather.Stations
import MrAndRaft.Weather.Channel
import MrAndRaft.Weather.Mutex
import MrAndRaft.Bank.Failures
import MrAndRaft.Bank.Overflow
import MrAndRaft.Rpc.Network
import MrAndRaft.Rpc.NetworkLaws
import MrAndRaft.Rpc.Delivery
import MrAndRaft.Rpc.Progress
import MrAndRaft.Rpc.Statistics
import MrAndRaft.Lib.Program
import MrAndRaft.Lib.Remote
import MrAndRaft.Rpc.Config
import MrAndRaft.Rpc.ConfigLaws
import MrAndRaft.Rpc.Operations
import MrAndRaft.Rpc.World
import MrAndRaft.Rpc.WorldLaws
import MrAndRaft.Lib.Correspondence
import MrAndRaft.Rpc.Instances
import MrAndRaft.Rpc.Refinement
import MrAndRaft.Raft.Deployed
import MrAndRaft.Raft.Deployment
import MrAndRaft.Raft.CrashedInstances
import MrAndRaft.Raft.Overwriting

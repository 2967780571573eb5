import RaftService.Cluster.Agreement
import RaftService.Cluster.CatchUp
import RaftService.Cluster.Invariant
import RaftService.Cluster.Linearizable
import RaftService.Cluster.Machine
import RaftService.Cluster.SafeReads
import RaftService.Conversions
import RaftService.Counter
import RaftService.KeyValue
import RaftService.LeaderId
import RaftService.Lib.Ascending
import RaftService.Lib.BigEndian
import RaftService.Lib.Decimal
import RaftService.Lib.Order
import RaftService.Lib.PartialOrd
import RaftService.Lib.Progress
import RaftService.Lib.Readers
import RaftService.Lib.Run
import RaftService.Lib.SharedWal
import RaftService.Lib.SortedMap
import RaftService.Lib.Streaming
import RaftService.Lib.Wal
import RaftService.Network.Codec
import RaftService.Network.Exchange
import RaftService.Network.Fruitless
import RaftService.Network.Handlers
import RaftService.Network.Snapshot
import RaftService.Network.Truncation
import RaftService.Node.Provenance
import RaftService.Node.Recoverable
import RaftService.Node.Recovery
import RaftService.Node.Reopened
import RaftService.Node.Storage
import RaftService.Node.Survival
import RaftService.Orchestrator.Bound
import RaftService.Orchestrator.Completion
import RaftService.Orchestrator.Exits
import RaftService.Orchestrator.Leaders
import RaftService.Orchestrator.Lock
import RaftService.Orchestrator.Machine
import RaftService.Orchestrator.Process
import RaftService.Orchestrator.Serving
import RaftService.Orchestrator.Steps
import RaftService.Orchestrator.Stopping
import RaftService.Rocks
import RaftService.StateMachine.Builder
import RaftService.StateMachine.Failures
import RaftService.StateMachine.Install
import RaftService.StateMachine.Owner
import RaftService.StateMachine.Reads
import RaftService.StateMachine.ReferenceLog
import RaftService.StateMachine.Replica
import RaftService.StateMachine.Responders
import RaftService.StateMachine.Snapshot
import RaftService.StateMachine.SnapshotIds
import RaftService.StateMachine.Store
import RaftService.Store.Contents
import RaftService.Store.Crash
import RaftService.Store.Extremes
import RaftService.Store.Keys
import RaftService.Store.Log
import RaftService.Store.LogReaders
import RaftService.Store.PartialPurge
import RaftService.Store.RaftLog
import RaftService.Store.Refinement
import RaftService.Store.Shared
import RaftService.Store.Stage
import RaftService.Types

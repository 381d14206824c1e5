import WorkflowForge.Lib.BTree
import WorkflowForge.Lib.Json
import WorkflowForge.Lib.Comparison
import WorkflowForge.Protocol.Error
import WorkflowForge.Protocol.Binding
import WorkflowForge.Protocol.Definition
import WorkflowForge.Protocol.Operation
import WorkflowForge.Protocol.Wait
import WorkflowForge.Protocol.Reconcile
import WorkflowForge.Protocol.Execution
import WorkflowForge.Protocol.Comparison
import WorkflowForge.Lib.Word
import WorkflowForge.Lib.Except
import WorkflowForge.Protocol.Checkpoint
import WorkflowForge.Protocol.History
import WorkflowForge.Protocol.Limits
import WorkflowForge.Store.Memory
import WorkflowForge.Store.History
import WorkflowForge.Lib.Text
import WorkflowForge.Store.Trait
import WorkflowForge.Store.Reference
import WorkflowForge.Sqlite.Codec
import WorkflowForge.Sqlite.Query
import WorkflowForge.Sqlite.Store
import WorkflowForge.Sqlite.Worker
import WorkflowForge.Sqlite.Artifacts
import WorkflowForge.Sqlite.ReadBack
import WorkflowForge.Engine.Schema
import WorkflowForge.Engine.Effects
import WorkflowForge.Engine.State
import WorkflowForge.Engine.Steps
import WorkflowForge.Engine.Control
import WorkflowForge.Engine.Waits
import WorkflowForge.Engine.Access
import WorkflowForge.Engine.Signals
import WorkflowForge.Engine.Reconcile
import WorkflowForge.Engine.Coordinator
import WorkflowForge.Engine.Semantic
import WorkflowForge.Engine.Start
import WorkflowForge.Store.Dedup
import WorkflowForge.Sqlite.Receipts
import WorkflowForge.Sqlite.Lifecycle
import WorkflowForge.Sqlite.Readers
import WorkflowForge.Sqlite.Accept
import WorkflowForge.Sqlite.Related
import WorkflowForge.Sqlite.Refines
import WorkflowForge.Lib.Transition
import WorkflowForge.Lib.Guard
import WorkflowForge.System.World
import WorkflowForge.System.Edit
import WorkflowForge.System.Records
import WorkflowForge.System.Shape
import WorkflowForge.System.Phase
import WorkflowForge.System.Invariants
import WorkflowForge.System.Certainty
import WorkflowForge.System.Dispatch
import WorkflowForge.System.Terminal
import WorkflowForge.System.Waiting
import WorkflowForge.System.Barrier
import WorkflowForge.System.Delivery
import WorkflowForge.System.Successor
import WorkflowForge.System.Refusal
import WorkflowForge.System.Clients
import WorkflowForge.System.Budgets
import WorkflowForge.System.Resolution
import WorkflowForge.Lib.Stateful
import WorkflowForge.Engine.Binding
import WorkflowForge.Engine.Plan
import WorkflowForge.Engine.Compiler
import WorkflowForge.Engine.Scope
import WorkflowForge.Lib.Unfolding
import WorkflowForge.Lib.Pointer
import WorkflowForge.Engine.Inspect
import WorkflowForge.Engine.Builder
import WorkflowForge.Engine.RootId
import WorkflowForge.Engine.Counts
import WorkflowForge.Engine.Closure
import WorkflowForge.Engine.Assembly
import WorkflowForge.Engine.Recovery
import WorkflowForge.System.Granted
import WorkflowForge.Lib.Sorting
import WorkflowForge.Engine.Reorder
import WorkflowForge.Engine.Agreement
import WorkflowForge.Engine.Registry
import WorkflowForge.Lib.Paging
import WorkflowForge.Sqlite.Migration
import WorkflowForge.Sqlite.Upgrade
import WorkflowForge.Sqlite.Migrated
import WorkflowForge.Engine.Backoff
import WorkflowForge.Engine.Ordering
import WorkflowForge.System.Attempts
import WorkflowForge.Sqlite.Retention
import WorkflowForge.Lib.Render
import WorkflowForge.Engine.Evaluate
import WorkflowForge.Engine.Planner
import WorkflowForge.Engine.Producers
import WorkflowForge.Engine.Construct
import WorkflowForge.Engine.Loop
import WorkflowForge.Engine.Try
import WorkflowForge.Engine.Group
import WorkflowForge.Engine.GroupStop
import WorkflowForge.Engine.GroupOrder
import WorkflowForge.Lib.Schema
import WorkflowForge.Protocol.Published
import WorkflowForge.Protocol.Readable
import WorkflowForge.Engine.Publishing
import WorkflowForge.System.Outcome
import WorkflowForge.System.Wakeup
import WorkflowForge.System.Contracts
import WorkflowForge.Engine.Executor
import WorkflowForge.Engine.Prescribed
import WorkflowForge.Engine.Sound
import WorkflowForge.Engine.GroupSound
import WorkflowForge.Engine.Restarts
import WorkflowForge.Engine.Executions
import WorkflowForge.Engine.Planned
import WorkflowForge.Engine.Determined

import Mathlib.Data.UInt

/-!
# Limits

The budgets of a runtime, with their defaults. Counts and byte totals are natural numbers,
times are 64-bit milliseconds.
-/

namespace WorkflowForge

structure Limits where
  waitsPerRun : Nat := 256
  signalBytes : Nat := 64 * 1024
  waitTimeoutMs : UInt64 := 24 * 60 * 60 * 1000
  documentBytes : Nat := 1024 * 1024
  planBytes : Nat := 16 * 1024 * 1024
  schemaResources : Nat := 64
  nodes : Nat := 256
  jsonDepth : Nat := 64
  bindingDepth : Nat := 32
  bindingSteps : Nat := 10000
  valueBytes : Nat := 1024 * 1024
  runBytes : Nat := 16 * 1024 * 1024
  activeRuns : Nat := 32
  pendingRuns : Nat := 128
  concurrentAttempts : Nat := 32
  attemptTimeoutMs : UInt64 := 30000
  runTimeoutMs : UInt64 := 300000
  terminalRuns : Nat := 1000
  retentionMs : UInt64 := 3600000
  receiptCount : Nat := 10000
  receiptTtlMs : UInt64 := 3600000
  controlDepth : Nat := 8
  groupBranches : Nat := 32
  groupConcurrency : Nat := 32
  activeScopes : Nat := 128
  foreachItems : Nat := 10000
  loopIterations : Nat := 1024
  activations : Nat := 10000
  maxRetryAttempts : UInt32 := 5
  auditEntries : Nat := 256
  evidenceBytes : Nat := 64 * 1024
  lateResponseGraceMs : UInt64 := 1000

end WorkflowForge

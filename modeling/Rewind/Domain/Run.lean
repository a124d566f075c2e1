/-
Runs and their life cycle.

`RunStatus.canTransitionTo` is the one-way life cycle of a run; `Run.validate`
are the cross-field rules a run record meets before it is stored.
-/
import Rewind.Domain.Ids
import Rewind.Lib.Fallible

namespace Rewind

inductive Platform where
  | macOsAarch64
  | linuxX86_64
  | linuxAarch64
deriving DecidableEq

/-- The terminal input retention policy. -/
inductive InputRecordingPolicy where
  | auto
  | always
  | never
deriving DecidableEq

structure CapturePolicy where
  recordInput : InputRecordingPolicy
  captureEnvironment : Bool
deriving DecidableEq

/-- The lifecycle state of a recorded run. -/
inductive RunStatus where
  | preparing
  | running
  | completed
  | failed
  | interrupted
  | crashed
deriving DecidableEq, Repr

namespace RunStatus

/-- Whether `next` is a legal one-way lifecycle transition. -/
def canTransitionTo : RunStatus → RunStatus → Bool
  | preparing, running | preparing, failed | preparing, interrupted | preparing, crashed => true
  | running, completed | running, failed | running, interrupted | running, crashed => true
  | _, _ => false

/-- Whether no further lifecycle transition is permitted. -/
def isTerminal : RunStatus → Bool
  | completed | failed | interrupted | crashed => true
  | preparing | running => false

def asStr : RunStatus → String
  | preparing => "preparing"
  | running => "running"
  | completed => "completed"
  | failed => "failed"
  | interrupted => "interrupted"
  | crashed => "crashed"

instance : ToString RunStatus := ⟨asStr⟩

/-- A run is left for good once its status is terminal. -/
theorem canTransitionTo_of_isTerminal {s : RunStatus} (hs : s.isTerminal = true)
    (next : RunStatus) : s.canTransitionTo next = false := by
  cases s with
  | preparing => exact absurd hs (by decide)
  | running => exact absurd hs (by decide)
  | completed => rfl
  | failed => rfl
  | interrupted => rfl
  | crashed => rfl

end RunStatus

/-- A child process's observed termination result. -/
inductive ProcessExitStatus where
  | code (value : Int32)
  | signal (value : Int32)
  | unknown
deriving DecidableEq

/-- The durable origin of a forked run. -/
structure RunParent where
  runId : RunId
  checkpointId : CheckpointId
deriving DecidableEq

/-- Durable metadata for one supervised execution. -/
structure Run where
  id : RunId
  branchId : BranchId
  parent : Option RunParent
  command : String
  arguments : List String
  workspaceRoot : Bytes
  startedAt : Timestamp
  finishedAt : Option Timestamp
  monotonicDuration : Option MonotonicDuration
  status : RunStatus
  platform : Platform
  capturePolicy : CapturePolicy
  initialSnapshot : Option SnapshotId
  finalSnapshot : Option SnapshotId
  exitStatus : Option ProcessExitStatus
deriving DecidableEq

inductive RunValidationError where
  | emptyCommand
  | selfParent
  | activeRunHasFinishMetadata
  | runningWithoutInitialSnapshot
  | terminalRunMissingFinishMetadata
deriving DecidableEq

instance : ToString RunValidationError where
  toString
    | .emptyCommand => "run command must not be empty"
    | .selfParent => "run cannot name itself as its parent"
    | .activeRunHasFinishMetadata => "active run must not contain finish metadata"
    | .runningWithoutInitialSnapshot => "running run must reference an initial snapshot"
    | .terminalRunMissingFinishMetadata => "terminal run must contain finish time and duration"

/-- Checks cross-field lifecycle invariants before persistence. -/
def Run.validate (run : Run) : Except RunValidationError Unit := do
  if run.command.isEmpty then
    throw .emptyCommand
  if run.parent.any (fun parent => parent.runId = run.id) then
    throw .selfParent
  if run.status = .preparing then
    if run.finishedAt.isSome ∨ run.monotonicDuration.isSome then
      throw .activeRunHasFinishMetadata
  else if run.status = .running then
    if run.initialSnapshot.isNone then
      throw .runningWithoutInitialSnapshot
    if run.finishedAt.isSome ∨ run.monotonicDuration.isSome then
      throw .activeRunHasFinishMetadata
  else if run.finishedAt.isNone ∨ run.monotonicDuration.isNone then
    throw .terminalRunMissingFinishMetadata

/-- The finish columns are filled exactly in the terminal statuses, and a running run has its
first snapshot: nothing else is checked. -/
theorem Run.validate_ok {run : Run} (hcommand : run.command ≠ "")
    (hparent : ∀ parent ∈ run.parent, parent.runId ≠ run.id)
    (hstarted : run.status = .running → run.initialSnapshot.isSome = true)
    (hfinished : run.status.isTerminal = run.finishedAt.isSome)
    (hended : run.status.isTerminal = run.monotonicDuration.isSome) : run.validate = .ok () := by
  have hempty : ¬ run.command.isEmpty = true := by
    rw [String.isEmpty_iff]
    exact hcommand
  have hself : ¬ run.parent.any (fun parent => parent.runId = run.id) = true := by
    rw [Option.any_eq_true]
    rintro ⟨parent, hmem, heq⟩
    exact hparent parent hmem (of_decide_eq_true heq)
  unfold Run.validate
  rw [if_neg hempty, if_neg hself]
  by_cases hterminal : run.status.isTerminal = true
  · have hpreparing : run.status ≠ .preparing := by
      intro h
      rw [h] at hterminal
      exact absurd hterminal (by decide)
    have hrunning : run.status ≠ .running := by
      intro h
      rw [h] at hterminal
      exact absurd hterminal (by decide)
    rw [hterminal] at hfinished hended
    have hcomplete : ¬ (run.finishedAt.isNone ∨ run.monotonicDuration.isNone) := by
      rw [← Option.not_isSome, ← Option.not_isSome, ← hfinished, ← hended]
      decide
    simp only [if_neg hpreparing, if_neg hrunning, if_neg hcomplete]
    rfl
  · rw [Bool.not_eq_true] at hterminal
    rw [hterminal] at hfinished hended
    have hopen : ¬ (run.finishedAt.isSome ∨ run.monotonicDuration.isSome) := by
      rw [← hfinished, ← hended]
      decide
    by_cases hpreparing : run.status = .preparing
    · simp only [if_pos hpreparing, if_neg hopen]
      rfl
    · have hrunning : run.status = .running := by
        cases hstatus : run.status <;> rw [hstatus] at hterminal hpreparing <;>
          first | rfl | exact absurd hterminal (by decide) | exact absurd rfl hpreparing
      have hinitial : ¬ run.initialSnapshot.isNone = true := by
        rw [← Option.not_isSome, hstarted hrunning]
        decide
      simp only [if_neg hpreparing, if_pos hrunning, if_neg hinitial, if_neg hopen]
      rfl
/-! ### Checkpoints -/

/-- Why a workspace checkpoint was requested. -/
inductive CheckpointReason where
  | initial
  | manual
  | processBoundary
  | filesystemQuiescence
  | agentAdapter
  | final
deriving DecidableEq

/-- A committed workspace checkpoint. -/
structure Checkpoint where
  id : CheckpointId
  runId : RunId
  sequence : EventSequence
  label : Option String
  reason : CheckpointReason
  snapshotId : SnapshotId
  createdAt : Timestamp
  monotonicOffset : MonotonicDuration
deriving DecidableEq

/-- The sole way a checkpoint fails its validation. -/
inductive CheckpointValidationError where
  | emptyLabel
deriving DecidableEq

instance : ToString CheckpointValidationError where
  toString | .emptyLabel => "checkpoint label must be absent or nonempty"

/-- Rejects an empty marker label while preserving the distinction from no label. -/
def Checkpoint.validate (checkpoint : Checkpoint) : Except CheckpointValidationError Unit :=
  if checkpoint.label = some "" then .error .emptyLabel else .ok ()

end Rewind

/-
Events of an execution timeline.

An event carries the run that owns it, its authoritative position, two clocks
and one of sixteen payloads.  `Event.validate` is the check every event passes
before it is stored.
-/
import Rewind.Domain.Run
import Rewind.Domain.Snapshot
import Mathlib.Data.List.Destutter
import Mathlib.Data.List.Sort

namespace Rewind

def EVENT_SCHEMA_VERSION : UInt16 := 1

def MAX_DIRTY_PATHS_PER_EVENT : Nat := 4096

def MAX_EVENT_TEXT_BYTES : Nat := 8192

/-! ### Payloads -/

/-- The durable, platform-neutral workspace clone result. -/
inductive WorkspaceCloneStrategy where
  | apfsClone
  | linuxReflink
  | mixed
  | recursiveCopy
deriving DecidableEq

/-- Why input bytes were omitted from an otherwise complete terminal timeline. -/
inductive InputRedactionReason where
  | echoDisabled
  | policyNever
  | echoDetectionUnavailable
  | exportPolicy
deriving DecidableEq

inductive ProcessRelationship where
  | root
  | descendant
deriving DecidableEq

/-- Best-effort metadata for one member of the supervised process tree. -/
structure ProcessObservation where
  processId : ProcessId
  parentProcessId : Option ProcessId
  executable : Option String
  command : String
  relationship : ProcessRelationship
deriving DecidableEq

inductive RecorderFailureKind where
  | snapshot
  | storage
  | concurrentWorkspaceMutation
  | resourceLimit
  | internalInvariant
deriving DecidableEq

structure RecorderFailure where
  kind : RecorderFailureKind
  message : String
deriving DecidableEq

/-- A stable category for nonfatal recording limitations. -/
inductive RecorderWarningCode where
  | cloneFallback
  | watcherOverflow
  | processObservationIncomplete
  | inputEchoDetectionUncertain
  | storageLimit
  | filesystemRace
  | privacyCleanupFailed
  | other
deriving DecidableEq

structure RecorderWarning where
  code : RecorderWarningCode
  message : String
deriving DecidableEq

/-- Typed event data. -/
inductive EventPayload where
  | runStarted (rootProcessId : ProcessId) (terminalStreamId : TerminalStreamId)
  | workspaceIsolated (strategy : WorkspaceCloneStrategy)
  | terminalInput (streamId : TerminalStreamId) (objectId : ObjectId) (byteLen : UInt64)
  | terminalInputRedacted (streamId : TerminalStreamId) (byteLen : UInt64)
      (reason : InputRedactionReason)
  | terminalOutput (streamId : TerminalStreamId) (objectId : ObjectId) (byteLen : UInt64)
  | terminalResized (streamId : TerminalStreamId) (columns rows : UInt16)
  | processObserved (process : ProcessObservation)
  | processExited (processId : ProcessId) (status : ProcessExitStatus)
  | filesystemPathsDirtied (paths : List SnapshotPath)
  | checkpointStarted (checkpointId : CheckpointId) (reason : CheckpointReason)
  | checkpointCommitted (checkpointId : CheckpointId) (snapshotId : SnapshotId)
  | checkpointFailed (checkpointId : CheckpointId) (failure : RecorderFailure)
  | markerCreated (checkpointId : CheckpointId) (label : String)
  | runInterrupted (signal : Option Int32)
  | runCompleted (status : RunStatus) (exitStatus : Option ProcessExitStatus)
  | recorderWarning (warning : RecorderWarning)
deriving DecidableEq

inductive EventPayloadError where
  | emptyTerminalFrame
  | zeroTerminalDimension
  | emptyDirtyPaths
  | tooManyDirtyPaths (actual maximum : Nat)
  | nonCanonicalDirtyPaths
  | emptyMarkerLabel
  | emptyProcessCommand
  | emptyDiagnostic
  | textTooLong
  | nonterminalCompletionStatus
deriving DecidableEq

instance : ToString EventPayloadError where
  toString
    | .emptyTerminalFrame => "terminal frame byte length must be greater than zero"
    | .zeroTerminalDimension => "terminal rows and columns must be greater than zero"
    | .emptyDirtyPaths => "filesystem dirty-path event must not be empty"
    | .tooManyDirtyPaths actual maximum =>
      s!"filesystem dirty-path event contains {actual} paths; maximum is {maximum}"
    | .nonCanonicalDirtyPaths => "filesystem dirty paths must be sorted and unique"
    | .emptyMarkerLabel => "marker label must not be empty"
    | .emptyProcessCommand => "observed process command must not be empty"
    | .emptyDiagnostic => "recorder diagnostic text must not be empty"
    | .textTooLong => "event text exceeds the supported byte length"
    | .nonterminalCompletionStatus =>
      "run completion event must contain a terminal run status"

/-! ### Validation -/

def validateDiagnostic (message : String) : Except EventPayloadError Unit :=
  if message.isEmpty then
    .error .emptyDiagnostic
  else if message.utf8ByteSize > MAX_EVENT_TEXT_BYTES then
    .error .textTooLong
  else
    .ok ()

/-- `paths.windows(2).any(|pair| pair[0] >= pair[1])`. -/
def hasUnsortedPair : List SnapshotPath → Bool
  | p :: q :: rest => decide (¬ p < q) || hasUnsortedPair (q :: rest)
  | _ => false

def validateDirtyPaths (paths : List SnapshotPath) : Except EventPayloadError Unit :=
  if paths = [] then
    .error .emptyDirtyPaths
  else if paths.length > MAX_DIRTY_PATHS_PER_EVENT then
    .error (.tooManyDirtyPaths paths.length MAX_DIRTY_PATHS_PER_EVENT)
  else if hasUnsortedPair paths then
    .error .nonCanonicalDirtyPaths
  else
    .ok ()

def ProcessObservation.validate (process : ProcessObservation) : Except EventPayloadError Unit :=
  if process.command.isEmpty then
    .error .emptyProcessCommand
  else if process.command.utf8ByteSize > MAX_EVENT_TEXT_BYTES
      ∨ process.executable.any (fun value => decide
        (value.utf8ByteSize > MAX_EVENT_TEXT_BYTES)) then
    .error .textTooLong
  else
    .ok ()

/-- Checks bounded-size and cross-field payload invariants. -/
def EventPayload.validate : EventPayload → Except EventPayloadError Unit
  | .terminalInput _ _ byteLen | .terminalInputRedacted _ byteLen _
  | .terminalOutput _ _ byteLen =>
    if byteLen = 0 then .error .emptyTerminalFrame else .ok ()
  | .terminalResized _ columns rows =>
    if columns = 0 ∨ rows = 0 then .error .zeroTerminalDimension else .ok ()
  | .processObserved process => process.validate
  | .filesystemPathsDirtied paths => validateDirtyPaths paths
  | .markerCreated _ label =>
    if label.isEmpty then
      .error .emptyMarkerLabel
    else if label.utf8ByteSize > MAX_EVENT_TEXT_BYTES then
      .error .textTooLong
    else
      .ok ()
  | .checkpointFailed _ failure => validateDiagnostic failure.message
  | .runCompleted status _ =>
    if status.isTerminal then .ok () else .error .nonterminalCompletionStatus
  | .recorderWarning warning => validateDiagnostic warning.message
  | .runStarted .. | .workspaceIsolated .. | .processExited .. | .checkpointStarted ..
  | .checkpointCommitted .. | .runInterrupted .. => .ok ()

/-- `EventPayload::filesystem_paths_dirtied`: sorted, without duplicates, and validated. -/
def EventPayload.newFilesystemPathsDirtied (paths : List SnapshotPath) :
    Except EventPayloadError EventPayload :=
  let sorted := paths.insertionSort fun p q => ¬ q < p
  let payload := EventPayload.filesystemPathsDirtied (sorted.destutter (· ≠ ·))
  payload.validate.map fun _ => payload

/-! ### Events -/

/-- A versioned, totally ordered execution event. -/
structure Event where
  id : EventId
  runId : RunId
  sequence : EventSequence
  wallClock : Timestamp
  monotonicOffset : MonotonicDuration
  schemaVersion : UInt16
  payload : EventPayload
deriving DecidableEq

inductive EventValidationError where
  | unsupportedSchemaVersion (found supported : UInt16)
  | invalidPayload (source : EventPayloadError)
deriving DecidableEq

instance : ToString EventValidationError where
  toString
    | .unsupportedSchemaVersion found supported =>
      s!"unsupported event schema version {found}; supported version is {supported}"
    | .invalidPayload source => s!"invalid event payload: {source}"

/-- Checks the schema and payload invariants before persistence. -/
def Event.validate (event : Event) : Except EventValidationError Unit :=
  if event.schemaVersion ≠ EVENT_SCHEMA_VERSION then
    .error (.unsupportedSchemaVersion event.schemaVersion EVENT_SCHEMA_VERSION)
  else
    event.payload.validate.mapError .invalidPayload

/-- `Event::new` with the generated identifier `id`. -/
def Event.new (id : EventId) (runId : RunId) (sequence : EventSequence) (wallClock : Timestamp)
    (monotonicOffset : MonotonicDuration) (payload : EventPayload) :
    Except EventValidationError Event :=
  let event : Event :=
    { id, runId, sequence, wallClock, monotonicOffset,
      schemaVersion := EVENT_SCHEMA_VERSION, payload }
  event.validate.map fun _ => event

theorem Event.new_eq_ok_iff {id : EventId} {runId : RunId} {sequence : EventSequence}
    {wallClock : Timestamp} {monotonicOffset : MonotonicDuration} {payload : EventPayload}
    {event : Event} :
    Event.new id runId sequence wallClock monotonicOffset payload = .ok event ↔
      payload.validate = .ok () ∧
        event = ⟨id, runId, sequence, wallClock, monotonicOffset, EVENT_SCHEMA_VERSION,
          payload⟩ := by
  unfold Event.new Event.validate
  simp only [ne_eq, not_true_eq_false, if_false]
  rcases payload.validate with error | _
  · simp [Except.map, Except.mapError]
  · simp [Except.map, Except.mapError, eq_comm]

end Rewind

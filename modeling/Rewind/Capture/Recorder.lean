/-
The recorder of a run.

The recorder numbers events with its sequencer, buffers them, and hands them to the
store in batches, with a checkpoint, or with the finalization of the run.  Each method
is a `Call` over the `World`: the database, the recorder, and the log of the store's
answers.  What the world decides (whether a transaction fails, what the clock reads,
which identifiers are generated, what a scan finds) is read from an `Env`, one reading
a tick.
-/
import Rewind.Store.Writer

namespace Rewind

/-! ### Errors, options and reports -/

inductive SnapshotError where
  | store (source : StoreError)
  | scan (message : String)
deriving DecidableEq

inductive CaptureError where
  | store (source : StoreError)
  | snapshot (source : SnapshotError)
  | runStorageLimit (maximum : Nat)
  | invalidEvent (message : String)
  | eventSequenceExhausted
  | clockOutOfRange
  | privacyCleanup (failed : Nat) (source : String)
  | producer (producer message : String)
  | terminalOutputLimit (maximum : UInt64)
deriving DecidableEq

/-- The options the recorder reads. -/
structure CaptureOptions where
  eventBatchSize : Nat
  maxRunBytes : UInt64

/-- A workspace path that a scan left out. -/
structure Exclusion where
  path : SnapshotPath
deriving DecidableEq

structure ScanReport where
  snapshot : Snapshot
  exclusions : List Exclusion

/-- A scan of the workspace: the objects it stores on its way, and what it reports. -/
structure ScanOutcome where
  objects : List StoredObject
  result : Except String ScanReport

/-- A committed checkpoint, as the recorder reports it. -/
structure CheckpointCommit where
  id : CheckpointId
  snapshotId : SnapshotId
  exclusions : Nat

/-! ### State -/

/-- The source of sequence numbers and offsets. -/
structure Sequencer where
  runId : RunId
  next : EventSequence
  lastOffset : MonotonicDuration

def Sequencer.new (runId : RunId) : Sequencer := ⟨runId, .first, .zero⟩

structure Recorder where
  runId : RunId
  options : CaptureOptions
  sequencer : Sequencer
  pending : List Event
  checkpointCount : Nat
  excludedPaths : List SnapshotPath
  accountedObjects : List ObjectId
  logicalObjectBytes : Nat

def Recorder.new (runId : RunId) (options : CaptureOptions) : Recorder where
  runId := runId
  options := options
  sequencer := Sequencer.new runId
  pending := []
  checkpointCount := 0
  excludedPaths := []
  accountedObjects := []
  logicalObjectBytes := 0

/-- The store calls of the recorder. -/
inductive StoreCall where
  | append
  | checkpoint
  | finish
  | other
deriving DecidableEq

/-- A store call and whether the store accepted it. -/
structure Answer where
  call : StoreCall
  accepted : Bool
deriving DecidableEq

/-- What the world decides, by tick. -/
structure Env where
  storeFails : Nat → Bool
  clock : Nat → Option (Timestamp × MonotonicDuration)
  uuid : Nat → Uuid
  scan : Nat → ScanOutcome
  removeWorkspace : Nat → Option String
  openWorkspace : Nat → Option String
  removeEntry : Nat → Option String

/-- The store, the recorder and the clock.  `history` holds the databases of the store from the
start on, the current one last. -/
structure World where
  db : Db
  recorder : Recorder
  tick : Nat
  answers : List Answer
  history : List Db

/-- A method of the recorder. -/
abbrev Method (α : Type) := Call World CaptureError α

/-! ### Reading the world -/

/-- The tick of the next reading. -/
def nextTick : Method Nat := Call.ofFun fun w => (.ok w.tick, { w with tick := w.tick + 1 })

def modifyRecorder (f : Recorder → Recorder) : Method Unit :=
  modify fun w => { w with recorder := f w.recorder }

/-- One transaction of the store, which the world may fail. -/
def transact (env : Env) (call : StoreCall) (f : Db → StoreResult Db) : Method Unit :=
  Call.ofFun fun w =>
    let result := if env.storeFails w.tick then
      .error (.database "commit transaction" .unavailable) else f w.db
    match result with
    | .ok db =>
      (.ok (), ⟨db, w.recorder, w.tick + 1, w.answers ++ [⟨call, true⟩], w.history ++ [db]⟩)
    | .error error =>
      (.error (.store error),
        ⟨w.db, w.recorder, w.tick + 1, w.answers ++ [⟨call, false⟩], w.history⟩)

section Methods

variable (env : Env) (codecs : Codecs)

/-- `Sequencer::now`. -/
def now : Method (Timestamp × MonotonicDuration) := do
  let tick ← nextTick
  match env.clock tick with
  | some reading => return reading
  | none => throw .clockOutOfRange

/-- `timestamp_now`. -/
def timestampNow : Method Timestamp := do
  let reading ← now env
  return reading.1

/-- `Sequencer::next_at`, with the generated identifier `id`. -/
def Sequencer.nextAt (sequencer : Sequencer) (id : EventId) (wallClock : Timestamp)
    (monotonicOffset : MonotonicDuration) (payload : EventPayload) :
    Except CaptureError (Event × Sequencer) := do
  let monotonicOffset :=
    if monotonicOffset.nanoseconds < sequencer.lastOffset.nanoseconds then
      sequencer.lastOffset else monotonicOffset
  let event ← (Event.new id sequencer.runId sequencer.next wallClock monotonicOffset
    payload).mapError
    fun error => .invalidEvent (toString error)
  match sequencer.next.checkedNext with
  | none => throw .eventSequenceExhausted
  | some next => return (event, { sequencer with next, lastOffset := monotonicOffset })

/-- `Sequencer::next`. -/
def sequencerNext (payload : EventPayload) : Method Event := do
  let reading ← now env
  let tick ← nextTick
  let w ← get
  match w.recorder.sequencer.nextAt ⟨env.uuid tick⟩ reading.1 reading.2 payload with
  | .error error => throw error
  | .ok (event, sequencer) => do
    modifyRecorder fun r => { r with sequencer }
    return event

namespace Recorder

def queueEvent (payload : EventPayload) : Method EventSequence := do
  let event ← sequencerNext env payload
  modifyRecorder fun r => { r with pending := r.pending ++ [event] }
  return event.sequence

def flush : Method Unit := do
  let w ← get
  if w.recorder.pending = [] then
    return ()
  else do
    transact env .append fun db => appendEventBatchIn db w.recorder.pending
    modifyRecorder fun r => { r with pending := [] }

def emit (payload : EventPayload) : Method EventSequence := do
  let sequence ← queueEvent env payload
  let w ← get
  if w.recorder.pending.length ≥ w.recorder.options.eventBatchSize then do
    flush env
    return sequence
  else
    return sequence

end Recorder

end Methods

/-! ### Texts -/

/-- The longest prefix of `cs` within `room` bytes of UTF-8. -/
def takeBytes : Nat → List Char → List Char
  | _, [] => []
  | room, c :: cs => if c.utf8Size ≤ room then c :: takeBytes (room - c.utf8Size) cs else []

/-- `sanitize_text`. -/
def sanitizeText (message : String) : String :=
  if message.isEmpty then
    "Recorder operation failed without a diagnostic."
  else if message.utf8ByteSize ≤ MAX_EVENT_TEXT_BYTES then
    message
  else
    String.ofList (takeBytes MAX_EVENT_TEXT_BYTES message.toList)

/-! ### Warnings and storage accounting -/

/-- `BTreeMap::insert`, with the later size kept. -/
def insertCandidate (candidates : List (ObjectId × UInt64)) (candidate : ObjectId × UInt64) :
    List (ObjectId × UInt64) :=
  candidates.filter (fun c => c.1 ≠ candidate.1) ++ [candidate]

/-- The files of a manifest, by object. -/
def manifestObjects (manifest : SnapshotManifest) : List (ObjectId × UInt64) :=
  manifest.entries.foldl (fun candidates entry =>
    match entry.kind with
    | .file objectId size _ => insertCandidate candidates (objectId, size)
    | .directory | .symlink _ => candidates) []

/-- `BTreeSet::extend`. -/
def insertPath (paths : List SnapshotPath) (path : SnapshotPath) : List SnapshotPath :=
  if path ∈ paths then paths else paths.orderedInsert (fun p q => p.text ≤ q.text) path

section Methods

variable (env : Env) (codecs : Codecs)

namespace Recorder

def warning (code : RecorderWarningCode) (message : String) : Method Unit := do
  let _ ← emit env (.recorderWarning ⟨code, sanitizeText message⟩)
  return ()

/-- The logical bytes of the run with `candidates`, each object counted once. -/
def projectedObjectBytes (recorder : Recorder) (candidates : List (ObjectId × UInt64)) :
    Except CaptureError Nat :=
  let additional := ((candidates.filter fun c => c.1 ∉ recorder.accountedObjects).map
    fun c => c.2.toNat).sum
  let projected := recorder.logicalObjectBytes + additional
  if additional < 2 ^ 64 ∧ projected < 2 ^ 64 ∧ projected ≤ recorder.options.maxRunBytes.toNat then
    .ok projected
  else
    .error (.runStorageLimit recorder.options.maxRunBytes.toNat)

def accountObjects (candidates : List (ObjectId × UInt64)) (projected : Nat) : Method Unit :=
  modifyRecorder fun r =>
    { r with
      accountedObjects := r.accountedObjects
        ++ (candidates.map (·.1)).filter fun id => id ∉ r.accountedObjects
      logicalObjectBytes := projected }

def warnRunStorageLimit : Method Unit := do
  let w ← get
  warning env .storageLimit
    s!"Run objects reached the configured {w.recorder.options.maxRunBytes}-byte unique logical storage limit; capture was stopped."

def warnExclusions (count : Nat) : Method Unit :=
  if count = 0 then
    return ()
  else
    warning env .other
      s!"Snapshot policy excluded {count} workspace path(s); replay will show incomplete content and the retained workspace entry will be removed after finalization."

/-- `emit_object_reference`. -/
def emitObjectReference (objectId : ObjectId) (logicalSize : UInt64) (payload : EventPayload) :
    Method EventSequence := do
  let w ← get
  match projectedObjectBytes w.recorder [(objectId, logicalSize)] with
  | .error error => do
    warnRunStorageLimit env
    flush env
    throw error
  | .ok projected => do
    let sequence ← emit env payload
    accountObjects [(objectId, logicalSize)] projected
    return sequence

/-! ### Checkpoints -/

/-- The objects a scan stores on its way. -/
def storeScanned : List StoredObject → Method Unit
  | [] => return ()
  | object :: rest => do
    transact env .other fun db => recordObject db object 0
    storeScanned rest

/-- `scan_workspace`. -/
def scanWorkspace : Method (Except SnapshotError ScanReport) := do
  let tick ← nextTick
  let outcome := env.scan tick
  let stored ← Call.outcome (storeScanned env outcome.objects)
  match stored, outcome.result with
  | .error (.store source), _ => return .error (.store source)
  | .error _, _ => return .error (.scan "store")
  | .ok (), .error message => return .error (.scan message)
  | .ok (), .ok report => return .ok report

/-- The checkpoint that the event `committed` describes. -/
def checkpointOf (checkpointId : CheckpointId) (reason : CheckpointReason) (label : Option String)
    (snapshotId : SnapshotId) (committed : Event) : Checkpoint where
  id := checkpointId
  runId := committed.runId
  sequence := committed.sequence
  label := label
  reason := reason
  snapshotId := snapshotId
  createdAt := committed.wallClock
  monotonicOffset := committed.monotonicOffset

/-- The part of `commit_scanned` after the storage limit: the sequence number of the event is
taken, and the checkpoint is committed under it. -/
def commitNumbered (checkpointId : CheckpointId) (reason : CheckpointReason)
    (label : Option String) (snapshot : Snapshot) : Method Unit := do
  let committed ← sequencerNext env (.checkpointCommitted checkpointId snapshot.id)
  transact env .checkpoint fun db =>
    commitCheckpointWithEvent codecs db
      (checkpointOf checkpointId reason label snapshot.id committed) snapshot committed

/-- `commit_scanned`. -/
def commitScanned (checkpointId : CheckpointId) (reason : CheckpointReason)
    (label : Option String) (report : ScanReport) : Method CheckpointCommit := do
  modifyRecorder fun r =>
    { r with excludedPaths := (report.exclusions.map (·.path)).foldl insertPath r.excludedPaths }
  let objects := manifestObjects report.snapshot.manifest
  let w ← get
  match projectedObjectBytes w.recorder objects with
  | .error error => do
    warnRunStorageLimit env
    let _ ← emit env (.checkpointFailed checkpointId
      ⟨.resourceLimit, "Run storage limit prevented this checkpoint from committing."⟩)
    flush env
    throw error
  | .ok projected => do
    commitNumbered env codecs checkpointId reason label report.snapshot
    accountObjects objects projected
    let w ← get
    if w.recorder.checkpointCount + 1 < 2 ^ 64 then do
      modifyRecorder fun r => { r with checkpointCount := r.checkpointCount + 1 }
      return ⟨checkpointId, report.snapshot.id, report.exclusions.length⟩
    else
      throw .clockOutOfRange

/-- `checkpoint_allocated`. -/
def checkpointAllocated (checkpointId : CheckpointId) (reason : CheckpointReason)
    (label : Option String) : Method CheckpointCommit := do
  let _ ← emit env (.checkpointStarted checkpointId reason)
  flush env
  let _ ← timestampNow env
  let report ← scanWorkspace env
  match report with
  | .error error => do
    let _ ← emit env (.checkpointFailed checkpointId
      ⟨.snapshot, "Authoritative workspace scan failed; no checkpoint was committed."⟩)
    flush env
    throw (.snapshot error)
  | .ok report => commitScanned env codecs checkpointId reason label report

/-- `checkpoint`. -/
def checkpoint (reason : CheckpointReason) (label : Option String) : Method CheckpointCommit := do
  let tick ← nextTick
  checkpointAllocated env codecs ⟨env.uuid tick⟩ reason label

/-- `manual_checkpoint`. -/
def manualCheckpoint (label : Option String) : Method CheckpointId :=
  match label with
  | some label => do
    let tick ← nextTick
    let _ ← emit env (.markerCreated ⟨env.uuid tick⟩ label)
    let commit ← checkpointAllocated env codecs ⟨env.uuid tick⟩ .manual (some label)
    return commit.id
  | none => do
    let commit ← checkpoint env codecs .manual none
    return commit.id

/-! ### Finalization -/

/-- `commit_finish`. -/
def commitFinish (finish : RunFinish) : Method Unit := do
  let w ← get
  transact env .finish fun db => finishRunWithEvents db w.recorder.runId finish w.recorder.pending
  modifyRecorder fun r => { r with pending := [] }

/-- `finish`. -/
def finish (status : RunStatus) (exitStatus : ProcessExitStatus)
    (finalSnapshot : Option SnapshotId) : Method Unit := do
  let _ ← queueEvent env (.runCompleted status (some exitStatus))
  let reading ← now env
  commitFinish env
    { status, finishedAt := reading.1, monotonicDuration := reading.2, finalSnapshot,
      exitStatus := some exitStatus }

/-- `record_cleanup_failure`. -/
def recordCleanupFailure (failed : Nat) (source : String) : Method Unit :=
  Call.attempt <| warning env .privacyCleanupFailed
    s!"Could not remove {failed} excluded path(s) from the retained run workspace: {source}. Inspect or remove that workspace before sharing it."

/-- The loop of `cleanup_exclusions_for_retention`: the failures so far and the first of them. -/
def removeExclusions : List SnapshotPath → Nat → Option String → Method (Nat × Option String)
  | [], failed, firstError => return (failed, firstError)
  | path :: rest, failed, firstError => do
    let tick ← nextTick
    match env.removeEntry tick with
    | none => do
      modifyRecorder fun r => { r with excludedPaths := r.excludedPaths.filter (· ≠ path) }
      removeExclusions rest failed firstError
    | some error => removeExclusions rest (failed + 1) (firstError.or (some error))

/-- `cleanup_exclusions_for_retention`. -/
def cleanupExclusionsForRetention : Method Unit := do
  let w ← get
  let paths := w.recorder.excludedPaths.reverse
  if paths = [] then
    return ()
  else do
    let tick ← nextTick
    match env.openWorkspace tick with
    | some source => do
      recordCleanupFailure env paths.length source
      throw (.privacyCleanup paths.length source)
    | none => do
      let failures ← removeExclusions env paths 0 none
      match failures.2 with
      | none => return ()
      | some source => do
        recordCleanupFailure env failures.1 source
        throw (.privacyCleanup failures.1 source)

/-- The end of both fallbacks: a failed completion, numbered and committed as far as possible. -/
def finishFailed (finalSnapshot : Option SnapshotId) : Method Unit := do
  Call.attempt (do let _ ← queueEvent env (.runCompleted .failed none); return ())
  let reading ← Call.outcome (now env)
  match reading with
  | .ok reading =>
    Call.attempt <| commitFinish env
      { status := .failed, finishedAt := reading.1, monotonicDuration := reading.2,
        finalSnapshot, exitStatus := none }
  | .error _ => return ()

/-- The removal of the workspace in `finish_preparation_failure`. -/
def removeWorkspace : Method Unit := do
  let tick ← nextTick
  match env.removeWorkspace tick with
  | some error => recordCleanupFailure env 1 error
  | none => return ()

/-- `finish_preparation_failure`. -/
def finishPreparationFailure (message : String) : Method Unit := do
  Call.attempt (warning env .other (sanitizeText message))
  removeWorkspace env
  finishFailed env none

/-- The final checkpoint of `finish_running_without_child`, or the initial snapshot for it. -/
def finalCheckpoint (initialSnapshot : SnapshotId) : Method SnapshotId := do
  let committed ← Call.outcome (checkpoint env codecs .final none)
  match committed with
  | .ok commit => do
    Call.attempt (warnExclusions env commit.exclusions)
    return commit.snapshotId
  | .error _ => return initialSnapshot

/-- `finish_running_without_child`. -/
def finishRunningWithoutChild (initialSnapshot : SnapshotId) (message : String) :
    Method Unit := do
  Call.attempt (warning env .other (sanitizeText message))
  let finalSnapshot ← finalCheckpoint env codecs initialSnapshot
  Call.attempt (cleanupExclusionsForRetention env)
  finishFailed env (some finalSnapshot)

end Recorder

end Methods

end Rewind

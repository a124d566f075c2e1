/-
Appending to a run's timeline.

`appendEventBatchIn` is the one path by which events enter the database; the
plain batch, the checkpoint commit and the finalization all call it inside their
transaction.

* **`appendEventBatchIn_ok`** — a batch that is accepted fits the timeline it
  is appended to (`BatchFits`), and the database gains exactly its rows;
* `checkContinues_eq_ok_iff` — the contiguity check accepts what continues the
  stored timeline.
-/
import Rewind.Store.Schema
import Rewind.Lib.Journal

namespace Rewind

/-- The authoritative position of an event. -/
def Event.seq (event : Event) : Nat := event.sequence.get

/-- The monotonic offset of an event, in nanoseconds. -/
def Event.offset (event : Event) : Nat := event.monotonicOffset.asNanoseconds

/-! ### Rows of an event -/

def payloadKind : EventPayload → String
  | .runStarted .. => "run_started"
  | .workspaceIsolated .. => "workspace_isolated"
  | .terminalInput .. => "terminal_input"
  | .terminalInputRedacted .. => "terminal_input_redacted"
  | .terminalOutput .. => "terminal_output"
  | .terminalResized .. => "terminal_resized"
  | .processObserved .. => "process_observed"
  | .processExited .. => "process_exited"
  | .filesystemPathsDirtied .. => "filesystem_paths_dirtied"
  | .checkpointStarted .. => "checkpoint_started"
  | .checkpointCommitted .. => "checkpoint_committed"
  | .checkpointFailed .. => "checkpoint_failed"
  | .markerCreated .. => "marker_created"
  | .runInterrupted .. => "run_interrupted"
  | .runCompleted .. => "run_completed"
  | .recorderWarning .. => "recorder_warning"

def warningCode : RecorderWarningCode → String
  | .cloneFallback => "clone_fallback"
  | .watcherOverflow => "watcher_overflow"
  | .processObservationIncomplete => "process_observation_incomplete"
  | .inputEchoDetectionUncertain => "input_echo_detection_uncertain"
  | .storageLimit => "storage_limit"
  | .filesystemRace => "filesystem_race"
  | .privacyCleanupFailed => "privacy_cleanup_failed"
  | .other => "other"

/-- The row of `events` an event is stored in. -/
def eventRow (event : Event) : EventRow where
  runId := event.runId
  sequence := event.seq
  id := event.id
  wallUnixMs := event.wallClock.unixMilliseconds
  monotonicOffsetNs := event.offset
  schemaVersion := event.schemaVersion
  kind := payloadKind event.payload
  payload := event.payload

/-- The row of `warnings` that indexes a recorder warning. -/
def warningRow? (event : Event) : Option WarningRow :=
  match event.payload with
  | .recorderWarning warning => some
      { runId := event.runId
        sequence := event.seq
        code := warningCode warning.code
        message := warning.message
        createdUnixMs := event.wallClock.unixMilliseconds }
  | _ => none

/-- The row of `terminal_chunks` that indexes a terminal output. -/
def terminalChunkRow? (event : Event) : Option TerminalChunkRow :=
  match event.payload with
  | .terminalOutput streamId objectId byteLen => some
      { runId := event.runId
        streamId
        firstSequence := event.seq
        lastSequence := event.seq
        objectId
        byteLength := byteLen.toNat }
  | _ => none

/-- The object a payload refers to, with the length it claims. -/
def EventPayload.reference? : EventPayload → Option (ObjectId × UInt64)
  | .terminalInput _ objectId byteLen | .terminalOutput _ objectId byteLen =>
    some (objectId, byteLen)
  | _ => none

/-! ### The statements of `append_event_batch_in` -/

/-- One iteration of the loop of `validate_batch`. -/
def validateBatchEvent (runId : RunId) (previous : Option Event) (event : Event) :
    StoreResult Unit := do
  event.validate.mapError fun source => .invalidEvent (toString event.id) (toString source)
  ensure (event.runId = runId)
    (.eventOrder s!"batch mixes runs {runId} and {event.runId}")
  match previous with
  | none => .ok ()
  | some previous => do
    ensure (previous.sequence.checkedNext = some event.sequence)
      (.eventOrder s!"sequence {previous.seq} is followed by {event.seq}")
    ensure (previous.offset ≤ event.offset)
      (.eventOrder s!"monotonic offset {previous.offset} is followed by {event.offset}")

/-- The loop of `validate_batch`. -/
def validateBatchFrom (runId : RunId) : Option Event → List Event → StoreResult Unit
  | _, [] => .ok ()
  | previous, event :: rest => do
    validateBatchEvent runId previous event
    validateBatchFrom runId (some event) rest

/-- `validate_batch`, for the batch `first :: rest`. -/
def validateBatch (first : Event) (rest : List Event) : StoreResult Unit :=
  validateBatchFrom first.runId none (first :: rest)

/-- Only a run that exists and is active takes events. -/
def requireActive (db : Db) (runId : RunId) : StoreResult Unit :=
  match db.run? runId with
  | none => .error (.notFound "run" (toString runId))
  | some row =>
    ensure (row.status.isTerminal = false)
      (.eventOrder s!"cannot append to {row.status} run {runId}")

/-- The contiguity check: the first event of a batch follows the last stored one. -/
def checkContinues (db : Db) (first : Event) : StoreResult Unit :=
  let previous := db.lastEvent? first.runId
  let mismatch (expected : Nat) : StoreError :=
    .eventOrder s!"run {first.runId} expected sequence {expected}, received {first.seq}"
  match previous with
  | none => ensure (first.seq = EventSequence.first.get) (mismatch EventSequence.first.get)
  | some previous => do
    ensure (previous.sequence + 1 < 2 ^ 64)
      (.eventOrder s!"run {first.runId} exhausted event sequence numbers")
    ensure (first.seq = previous.sequence + 1) (mismatch (previous.sequence + 1))
    ensure (previous.monotonicOffsetNs ≤ first.offset)
      (.eventOrder
        s!"run {first.runId} monotonic offset moved backward from {previous.monotonicOffsetNs} to {first.offset}")

/-- `validate_referenced_object`. -/
def validateReferencedObject (db : Db) (event : Event) : StoreResult Unit :=
  match event.payload.reference? with
  | none => .ok ()
  | some (objectId, byteLen) => do
    let recorded := (db.object? objectId).map (·.logicalSize)
    let expected ← sqlU64 "terminal frame byte length" byteLen.toNat
    ensure (recorded = some expected)
      (.invalidEvent (toString event.id)
        s!"terminal object {objectId} has stored length {recorded}, expected {expected}")

/-- Indexes a recorder warning. -/
def indexWarning (db : Db) (event : Event) : StoreResult Db :=
  match warningRow? event with
  | none => .ok db
  | some row => do
    let _ ← sqlU64 "warning event sequence" event.seq
    orDatabase "index recorder warning" (db.insertWarning row)

/-- Indexes a terminal output chunk. -/
def indexTerminalChunk (db : Db) (event : Event) : StoreResult Db :=
  match terminalChunkRow? event with
  | none => .ok db
  | some row => do
    let _ ← sqlU64 "terminal chunk sequence" event.seq
    let _ ← sqlU64 "terminal chunk byte length" row.byteLength
    orDatabase "index terminal output chunk" (db.insertTerminalChunk row)

/-- One iteration of the insertion loop of `append_event_batch_in`. -/
def appendEvent (db : Db) (event : Event) : StoreResult Db := do
  let _ ← sqlU64 "event sequence" event.seq
  let _ ← sqlU64 "event monotonic offset" event.offset
  let db ← orDatabase "insert event" (db.insertEvent (eventRow event))
  validateReferencedObject db event
  let db ← indexWarning db event
  indexTerminalChunk db event

/-- `append_event_batch_in`. -/
def appendEventBatchIn (db : Db) : List Event → StoreResult Db
  | [] => .ok db
  | first :: rest => do
    validateBatch first rest
    requireActive db first.runId
    checkContinues db first
    (first :: rest).foldlM appendEvent db

/-! ### What an accepted batch is -/

namespace Db

/-- The number of the last stored event of a run; zero before its first event. -/
def lastSequence (db : Db) (runId : RunId) : Nat := ((db.lastEvent? runId).map (·.sequence)).getD 0

/-- The monotonic offset of the last stored event of a run. -/
def lastOffset (db : Db) (runId : RunId) : Nat :=
  ((db.lastEvent? runId).map (·.monotonicOffsetNs)).getD 0

/-- The database with the rows of a batch. -/
def withEvents (db : Db) (events : List Event) : Db :=
  { db with
    events := db.events ++ events.map eventRow
    warnings := db.warnings ++ events.filterMap warningRow?
    terminalChunks := db.terminalChunks ++ events.filterMap terminalChunkRow? }

@[simp] theorem withEvents_nil (db : Db) : db.withEvents [] = db := by simp [withEvents]

theorem withEvents_append (db : Db) (xs ys : List Event) :
    db.withEvents (xs ++ ys) = (db.withEvents xs).withEvents ys := by
  simp [withEvents, List.append_assoc]

@[simp] theorem run?_withEvents (db : Db) (events : List Event) (id : RunId) :
    (db.withEvents events).run? id = db.run? id := rfl

@[simp] theorem object?_withEvents (db : Db) (events : List Event) (id : ObjectId) :
    (db.withEvents events).object? id = db.object? id := rfl

theorem eventsOf_withEvents (db : Db) (events : List Event) (id : RunId) :
    (db.withEvents events).eventsOf id
      = db.eventsOf id ++ (events.filter fun e => e.runId = id).map eventRow := by
  have hmap : (events.map eventRow).filter (fun row => decide (row.runId = id))
      = (events.filter fun e => e.runId = id).map eventRow := by
    rw [List.filter_map]
    rfl
  rw [eventsOf, withEvents, List.filter_append, hmap]
  rfl

end Db

/-- The object an event refers to is recorded with the length the event claims. -/
def ReferenceRecorded (db : Db) (event : Event) : Prop :=
  ∀ objectId byteLen, event.payload.reference? = some (objectId, byteLen) →
    ∃ row, db.object? objectId = some row ∧ row.logicalSize = byteLen.toNat

/-- `events` can be appended to the timeline of the active run `runId`. -/
structure BatchFits (db : Db) (runId : RunId) (events : List Event) : Prop where
  owned : ∀ event ∈ events, event.runId = runId
  valid : ∀ event ∈ events, event.validate = .ok ()
  active : ∃ row, db.run? runId = some row ∧ row.status.isTerminal = false
  continues : Continues Event.seq Event.offset (db.lastSequence runId) (db.lastOffset runId) events
  references : ∀ event ∈ events, ReferenceRecorded db event
  storable : ∀ event ∈ events, event.seq < 2 ^ 63 ∧ event.offset < 2 ^ 63

/-! ### Inversion of the checks -/

theorem validateBatchEvent_none_eq_ok_iff {runId : RunId} {event : Event} :
    validateBatchEvent runId none event = .ok () ↔
      event.validate = .ok () ∧ event.runId = runId := by
  unfold validateBatchEvent
  rw [Except.bind_eq_ok_iff]
  simp only [ensure_bind_eq_ok_iff, Except.mapError_eq_ok_iff, and_true]
  constructor
  · rintro ⟨_, hvalid, howned⟩
    exact ⟨hvalid, howned⟩
  · rintro ⟨hvalid, howned⟩
    exact ⟨(), hvalid, howned⟩

theorem validateBatchEvent_some_eq_ok_iff {runId : RunId} {previous event : Event} :
    validateBatchEvent runId (some previous) event = .ok () ↔
      event.validate = .ok () ∧ event.runId = runId ∧ event.seq = previous.seq + 1
        ∧ previous.offset ≤ event.offset := by
  unfold validateBatchEvent
  rw [Except.bind_eq_ok_iff]
  simp only [ensure_bind_eq_ok_iff, Except.mapError_eq_ok_iff, ensure_eq_ok_iff,
    EventSequence.checkedNext_eq_some_iff]
  constructor
  · rintro ⟨_, hvalid, howned, hseq, hoffset⟩
    exact ⟨hvalid, howned, hseq, hoffset⟩
  · rintro ⟨hvalid, howned, hseq, hoffset⟩
    exact ⟨(), hvalid, howned, hseq, hoffset⟩

theorem validateBatchFrom_some_eq_ok_iff {runId : RunId} {previous : Event} {events : List Event} :
    validateBatchFrom runId (some previous) events = .ok () ↔
      (∀ event ∈ events, event.runId = runId ∧ event.validate = .ok ())
        ∧ Continues Event.seq Event.offset previous.seq previous.offset events := by
  induction events generalizing previous with
  | nil => simp [validateBatchFrom]
  | cons event rest ih =>
    rw [validateBatchFrom, Except.bind_eq_ok_iff, continues_cons]
    constructor
    · rintro ⟨_, hevent, hrest⟩
      obtain ⟨hvalid, howned, hseq, hoffset⟩ := validateBatchEvent_some_eq_ok_iff.mp hevent
      obtain ⟨hall, hcontinues⟩ := ih.mp hrest
      rw [← hseq]
      exact ⟨List.forall_mem_cons.mpr ⟨⟨howned, hvalid⟩, hall⟩, rfl, hoffset, hcontinues⟩
    · rintro ⟨hall, hseq, hoffset, hcontinues⟩
      obtain ⟨⟨howned, hvalid⟩, hrest⟩ := List.forall_mem_cons.mp hall
      rw [← hseq] at hcontinues
      exact ⟨(), validateBatchEvent_some_eq_ok_iff.mpr ⟨hvalid, howned, hseq, hoffset⟩,
        ih.mpr ⟨hrest, hcontinues⟩⟩

theorem validateBatch_eq_ok_iff {first : Event} {rest : List Event} :
    validateBatch first rest = .ok () ↔
      (∀ event ∈ first :: rest, event.runId = first.runId ∧ event.validate = .ok ())
        ∧ Continues Event.seq Event.offset first.seq first.offset rest := by
  rw [validateBatch, validateBatchFrom, Except.bind_eq_ok_iff, List.forall_mem_cons]
  constructor
  · rintro ⟨_, hfirst, hrest⟩
    obtain ⟨hvalid, howned⟩ := validateBatchEvent_none_eq_ok_iff.mp hfirst
    obtain ⟨hall, hcontinues⟩ := validateBatchFrom_some_eq_ok_iff.mp hrest
    exact ⟨⟨⟨howned, hvalid⟩, hall⟩, hcontinues⟩
  · rintro ⟨⟨⟨howned, hvalid⟩, hall⟩, hcontinues⟩
    exact ⟨(), validateBatchEvent_none_eq_ok_iff.mpr ⟨hvalid, howned⟩,
      validateBatchFrom_some_eq_ok_iff.mpr ⟨hall, hcontinues⟩⟩

theorem requireActive_eq_ok_iff {db : Db} {runId : RunId} :
    requireActive db runId = .ok () ↔
      ∃ row, db.run? runId = some row ∧ row.status.isTerminal = false := by
  unfold requireActive
  rcases db.run? runId with _ | row
  · simp
  · simp [ensure_eq_ok_iff]

theorem checkContinues_eq_ok_iff {db : Db} {first : Event} :
    checkContinues db first = .ok () ↔
      first.seq = db.lastSequence first.runId + 1
        ∧ db.lastOffset first.runId ≤ first.offset := by
  unfold checkContinues Db.lastSequence Db.lastOffset
  rcases db.lastEvent? first.runId with _ | previous
  · simp [ensure_eq_ok_iff]
  · have hlt : first.seq < 2 ^ 64 := first.sequence.lt
    simp only [ensure_bind_eq_ok_iff, ensure_eq_ok_iff, Option.map_some, Option.getD_some]
    constructor
    · rintro ⟨-, hseq, hoffset⟩
      exact ⟨hseq, hoffset⟩
    · rintro ⟨hseq, hoffset⟩
      exact ⟨by omega, hseq, hoffset⟩

theorem validateReferencedObject_ok {db : Db} {event : Event}
    (h : validateReferencedObject db event = .ok ()) : ReferenceRecorded db event := by
  intro objectId byteLen href
  unfold validateReferencedObject at h
  rw [href] at h
  obtain ⟨expected, hexpected, hrecorded⟩ := Except.bind_eq_ok_iff.mp h
  obtain ⟨-, rfl⟩ := sqlU64_eq_ok_iff.mp hexpected
  exact Option.map_eq_some_iff.mp (ensure_eq_ok_iff.mp hrecorded)

theorem indexWarning_ok {db db' : Db} {event : Event} (h : indexWarning db event = .ok db') :
    db' = { db with warnings := db.warnings ++ (warningRow? event).toList } := by
  unfold indexWarning at h
  rcases hrow : warningRow? event with _ | row
  · rw [hrow] at h
    obtain rfl := Except.ok.inj h
    simp
  · rw [hrow] at h
    obtain ⟨_, -, hinsert⟩ := Except.bind_eq_ok_iff.mp h
    exact (Db.insertWarning_eq_ok_iff.mp (orDatabase_eq_ok_iff.mp hinsert)).2.2

theorem indexTerminalChunk_ok {db db' : Db} {event : Event}
    (h : indexTerminalChunk db event = .ok db') :
    db' = { db with terminalChunks := db.terminalChunks ++ (terminalChunkRow? event).toList } := by
  unfold indexTerminalChunk at h
  rcases hrow : terminalChunkRow? event with _ | row
  · rw [hrow] at h
    obtain rfl := Except.ok.inj h
    simp
  · rw [hrow] at h
    obtain ⟨_, -, h⟩ := Except.bind_eq_ok_iff.mp h
    obtain ⟨_, -, hinsert⟩ := Except.bind_eq_ok_iff.mp h
    exact (Db.insertTerminalChunk_eq_ok_iff.mp (orDatabase_eq_ok_iff.mp hinsert)).2.2.2.2

/-- An event that is inserted adds its rows, and its object is recorded. -/
theorem appendEvent_ok {db db' : Db} {event : Event} (h : appendEvent db event = .ok db') :
    db' = db.withEvents [event] ∧ ReferenceRecorded db event
      ∧ event.seq < 2 ^ 63 ∧ event.offset < 2 ^ 63 := by
  unfold appendEvent at h
  obtain ⟨_, hseq, h⟩ := Except.bind_eq_ok_iff.mp h
  obtain ⟨_, hoffset, h⟩ := Except.bind_eq_ok_iff.mp h
  obtain ⟨db₁, hinsert, h⟩ := Except.bind_eq_ok_iff.mp h
  obtain ⟨_, hreference, h⟩ := Except.bind_eq_ok_iff.mp h
  obtain ⟨db₂, hwarning, hchunk⟩ := Except.bind_eq_ok_iff.mp h
  obtain ⟨-, -, -, -, rfl⟩ := Db.insertEvent_eq_ok_iff.mp (orDatabase_eq_ok_iff.mp hinsert)
  obtain rfl := indexWarning_ok hwarning
  obtain rfl := indexTerminalChunk_ok hchunk
  refine ⟨?_, validateReferencedObject_ok hreference, (sqlU64_eq_ok_iff.mp hseq).1,
    (sqlU64_eq_ok_iff.mp hoffset).1⟩
  have hwarnings : [event].filterMap warningRow? = (warningRow? event).toList := by
    rcases hrow : warningRow? event with _ | row <;> simp [hrow]
  have hchunks : [event].filterMap terminalChunkRow? = (terminalChunkRow? event).toList := by
    rcases hrow : terminalChunkRow? event with _ | row <;> simp [hrow]
  simp only [Db.withEvents, hwarnings, hchunks, List.map_cons, List.map_nil]

/-- The insertion loop: what each iteration adds, all of them add. -/
theorem foldlM_appendEvent_ok {db db' : Db} {events : List Event}
    (h : events.foldlM appendEvent db = .ok db') :
    db' = db.withEvents events ∧ (∀ event ∈ events, ReferenceRecorded db event)
      ∧ ∀ event ∈ events, event.seq < 2 ^ 63 ∧ event.offset < 2 ^ 63 := by
  induction events generalizing db with
  | nil =>
    obtain rfl := Except.ok.inj h
    simp
  | cons event rest ih =>
    obtain ⟨db₁, hevent, hrest⟩ := List.foldlM_eq_ok_cons.mp h
    obtain ⟨rfl, hreference, hstorable⟩ := appendEvent_ok hevent
    obtain ⟨rfl, hreferences, hstorables⟩ := ih hrest
    refine ⟨?_, List.forall_mem_cons.mpr ⟨hreference, fun e he => ?_⟩,
      List.forall_mem_cons.mpr ⟨hstorable, hstorables⟩⟩
    · rw [← Db.withEvents_append, List.singleton_append]
    · exact hreferences e he

/-- **Accepted batches.**  A batch that is appended fits the timeline of its run, and the
database gains the rows of the batch and nothing else. -/
theorem appendEventBatchIn_ok {db db' : Db} {events : List Event}
    (h : appendEventBatchIn db events = .ok db') :
    db' = db.withEvents events ∧ ∀ first ∈ events.head?, BatchFits db first.runId events := by
  cases events with
  | nil =>
    obtain rfl := Except.ok.inj h
    simp
  | cons first rest =>
    unfold appendEventBatchIn at h
    obtain ⟨_, hbatch, h⟩ := Except.bind_eq_ok_iff.mp h
    obtain ⟨_, hactive, h⟩ := Except.bind_eq_ok_iff.mp h
    obtain ⟨_, hfirst, hinsert⟩ := Except.bind_eq_ok_iff.mp h
    obtain ⟨hall, hcontinues⟩ := validateBatch_eq_ok_iff.mp hbatch
    obtain ⟨hseq, hoffset⟩ := checkContinues_eq_ok_iff.mp hfirst
    obtain ⟨hdb, hreferences, hstorable⟩ := foldlM_appendEvent_ok hinsert
    refine ⟨hdb, ?_⟩
    intro first' hfirst'
    obtain rfl : first = first' := by simpa using hfirst'
    refine
      { owned := fun event hevent => (hall event hevent).1
        valid := fun event hevent => (hall event hevent).2
        active := requireActive_eq_ok_iff.mp hactive
        continues := ?_
        references := hreferences
        storable := hstorable }
    rw [continues_cons, ← hseq]
    exact ⟨rfl, hoffset, hcontinues⟩

/-! ### Batches that are accepted -/

/-- An event with no row beside its own, which refers to no object. -/
structure Event.Plain (event : Event) : Prop where
  reference : event.payload.reference? = none
  warning : warningRow? event = none
  chunk : terminalChunkRow? event = none
  version : 1 ≤ event.schemaVersion

theorem appendEvent_plain {db : Db} {event : Event} (hevent : event.Plain)
    (hstorable : event.seq < 2 ^ 63 ∧ event.offset < 2 ^ 63)
    (hrun : (db.run? event.runId).isSome) (hid : event.id ∉ db.events.map (·.id))
    (hkey : (event.runId, event.seq) ∉ db.events.map fun row => (row.runId, row.sequence)) :
    appendEvent db event = .ok (db.withEvents [event]) := by
  have hinserted : db.insertEvent (eventRow event)
      = .ok { db with events := db.events ++ [eventRow event] } :=
    Db.insertEvent_eq_ok_iff.mpr ⟨hevent.version, hrun, hid, hkey, rfl⟩
  have hrows : db.withEvents [event] = { db with events := db.events ++ [eventRow event] } := by
    simp [Db.withEvents, hevent.warning, hevent.chunk]
  refine Except.bind_eq_ok_iff.mpr ⟨_, sqlU64_eq_ok_iff.mpr ⟨hstorable.1, rfl⟩,
    Except.bind_eq_ok_iff.mpr ⟨_, sqlU64_eq_ok_iff.mpr ⟨hstorable.2, rfl⟩,
      Except.bind_eq_ok_iff.mpr ⟨_, orDatabase_eq_ok_iff.mpr hinserted, ?_⟩⟩⟩
  simp only [validateReferencedObject, hevent.reference, indexWarning, hevent.warning,
    indexTerminalChunk, hevent.chunk, hrows]
  rfl

/-- The insertion loop takes plain events whose keys are new. -/
theorem foldlM_appendEvent_plain {db : Db} {events : List Event}
    (hplain : ∀ event ∈ events, event.Plain)
    (hstorable : ∀ event ∈ events, event.seq < 2 ^ 63 ∧ event.offset < 2 ^ 63)
    (hrun : ∀ event ∈ events, (db.run? event.runId).isSome)
    (hids : ((db.events ++ events.map eventRow).map (·.id)).Nodup)
    (hkeys : ((db.events ++ events.map eventRow).map fun row => (row.runId, row.sequence)).Nodup) :
    events.foldlM appendEvent db = .ok (db.withEvents events) := by
  induction events generalizing db with
  | nil => rw [Db.withEvents_nil, List.foldlM_nil]; rfl
  | cons event rest ih =>
    obtain ⟨hevent, hrest⟩ := List.forall_mem_cons.mp hplain
    obtain ⟨hstorableEvent, hstorableRest⟩ := List.forall_mem_cons.mp hstorable
    obtain ⟨hrunEvent, hrunRest⟩ := List.forall_mem_cons.mp hrun
    have hrows : (db.withEvents [event]).events = db.events ++ [eventRow event] := rfl
    have hnew : ∀ {κ : Type} (key : EventRow → κ),
        ((db.events ++ (event :: rest).map eventRow).map key).Nodup →
          key (eventRow event) ∉ db.events.map key := by
      intro κ key hnodup hmem
      rw [List.map_append] at hnodup
      exact List.disjoint_of_nodup_append hnodup hmem (List.mem_cons_self ..)
    have hfirst := appendEvent_plain hevent hstorableEvent hrunEvent (hnew _ hids) (hnew _ hkeys)
    rw [List.map_cons, List.append_cons, ← hrows] at hids hkeys
    refine List.foldlM_eq_ok_cons.mpr ⟨_, hfirst, ?_⟩
    rw [show event :: rest = [event] ++ rest from rfl, Db.withEvents_append]
    exact ih hrest hstorableRest hrunRest hids hkeys

/-- **A batch of plain events** that fits and whose keys are new is accepted. -/
theorem appendEventBatchIn_plain {db : Db} {runId : RunId} {events : List Event}
    (hfits : BatchFits db runId events) (hplain : ∀ event ∈ events, event.Plain)
    (hids : ((db.events ++ events.map eventRow).map (·.id)).Nodup)
    (hkeys : ((db.events ++ events.map eventRow).map fun row => (row.runId, row.sequence)).Nodup) :
    appendEventBatchIn db events = .ok (db.withEvents events) := by
  obtain ⟨row, hrow, hactive⟩ := hfits.active
  have hrun : ∀ event ∈ events, (db.run? event.runId).isSome := by
    intro event hevent
    rw [hfits.owned event hevent, hrow]
    rfl
  have hinserted := foldlM_appendEvent_plain hplain hfits.storable hrun hids hkeys
  cases events with
  | nil => rw [Db.withEvents_nil]; rfl
  | cons first rest =>
    obtain ⟨hseq, hoffset, hrest⟩ := (continues_cons ..).mp hfits.continues
    have howned : first.runId = runId := hfits.owned first (List.mem_cons_self ..)
    have hbatch : validateBatch first rest = .ok () := by
      refine validateBatch_eq_ok_iff.mpr ⟨fun event hevent => ?_, hseq ▸ hrest⟩
      exact ⟨(hfits.owned event hevent).trans howned.symm, hfits.valid event hevent⟩
    refine Except.bind_eq_ok_iff.mpr ⟨(), hbatch, Except.bind_eq_ok_iff.mpr ⟨(), ?_,
      Except.bind_eq_ok_iff.mpr ⟨(), ?_, hinserted⟩⟩⟩
    · exact requireActive_eq_ok_iff.mpr ⟨row, howned ▸ hrow, hactive⟩
    · exact checkContinues_eq_ok_iff.mpr (howned ▸ ⟨hseq, hoffset⟩)

end Rewind

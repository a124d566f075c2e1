/-
What the store returns.

Rows are decoded to the records they were written from, and listings are read page by page.  The
payload of an object is read from its file, in as many parts as the file system likes.

* `loadTimeline`, `listRunObjectIds` — pages of a run's events and objects;
* `timelinePager_reads`, `objectPager_reads` — what the pages are pages of;
* `openObjectReader`, `objectReads` — a file's payload, verified at its end.
-/
import Rewind.Store.Bundle
import Rewind.Store.Reachable
import Rewind.Store.References
import Rewind.Lib.Paging

namespace Rewind

/-! ### Rows -/

/-- `decode_u64`. -/
def decodeU64 (field : String) (value : Nat) : StoreResult UInt64 :=
  if value < 2 ^ 64 then .ok (UInt64.ofNat value) else .error (.numericRange field value)

/-- `decode_event`. -/
def decodeEvent (row : EventRow) : StoreResult Event := do
  ensure (payloadKind row.payload = row.kind)
    (.invalidEvent (toString row.id)
      s!"stored kind \"{row.kind}\" disagrees with typed payload \"{payloadKind row.payload}\"")
  let sequence ← decodeU64 "event sequence" row.sequence
  let sequence ← (EventSequence.new sequence).elim
    (.error (.invalidEvent (toString row.id) "event sequence is zero")) .ok
  let offset ← decodeU64 "event monotonic offset" row.monotonicOffsetNs
  let event : Event :=
    { id := row.id
      runId := row.runId
      sequence
      wallClock := ⟨row.wallUnixMs⟩
      monotonicOffset := ⟨offset⟩
      schemaVersion := row.schemaVersion
      payload := row.payload }
  event.validate.mapError fun source => .invalidEvent (toString event.id) (toString source)
  return event

/-- `decode_checkpoint`. -/
def decodeCheckpoint (row : CheckpointRow) : StoreResult Checkpoint := do
  let sequence ← decodeU64 "checkpoint sequence" row.sequence
  let sequence ← (EventSequence.new sequence).elim
    (.error (.invalidCheckpoint (toString row.id) "checkpoint sequence is zero")) .ok
  let offset ← decodeU64 "checkpoint monotonic offset" row.monotonicOffsetNs
  let checkpoint : Checkpoint :=
    { id := row.id
      runId := row.runId
      sequence
      label := row.label
      reason := row.reason
      snapshotId := row.snapshotId
      createdAt := ⟨row.createdUnixMs⟩
      monotonicOffset := ⟨offset⟩ }
  checkpoint.validate.mapError fun source =>
    .invalidCheckpoint (toString checkpoint.id) (toString source)
  return checkpoint

/-- `load_checkpoints`. -/
def loadCheckpoints (db : Db) (runId : RunId) : StoreResult (List Checkpoint) :=
  ((db.checkpoints.filter fun row => row.runId = runId).insertionSort
    fun row row' => row.sequence ≤ row'.sequence).mapM decodeCheckpoint

/-! ### Runs -/

/-- The `Debug` text of an optional text without characters that need an escape. -/
def debugText : Option String → String
  | none => "None"
  | some value => s!"Some(\"{value}\")"

/-- The `Debug` text of an optional number. -/
def debugNumber : Option Int32 → String
  | none => "None"
  | some value => s!"Some({value})"

/-- `decode_exit_status`. -/
def decodeExitStatus (kind : Option ExitKind) (value : Option Int32) :
    StoreResult (Option ProcessExitStatus) :=
  match kind, value with
  | none, none => .ok none
  | some .code, some value => .ok (some (.code value))
  | some .signal, some value => .ok (some (.signal value))
  | some .unknown, none => .ok (some .unknown)
  | _, _ => .error (.invalidEnum "process exit status"
      s!"kind={debugText (kind.map ExitKind.asStr)}, value={debugNumber value}")

/-- The loop of `load_arguments` over the rows of one run. -/
def loadArguments (runId : RunId) : List String → List RunArgumentRow → StoreResult (List String)
  | values, [] => .ok values
  | values, row :: rest => do
    ensure (row.position = values.length)
      (.invalidRun (toString runId) s!"argument position {row.position} followed {values.length}")
    loadArguments runId (values ++ [row.value]) rest

/-- `decode_run`. -/
def decodeRun (row : RunRow) (parent : Option RunParentRow) (arguments : List String) :
    StoreResult Run := do
  let duration ← row.monotonicDurationNs.mapM (decodeU64 "run monotonic duration")
  let exitStatus ← decodeExitStatus row.exitKind row.exitValue
  let run : Run :=
    { id := row.id
      branchId := row.branchId
      parent := parent.map fun parent => ⟨parent.parentRunId, parent.checkpointId⟩
      command := row.command
      arguments
      workspaceRoot := row.workspaceRoot
      startedAt := ⟨row.startedUnixMs⟩
      finishedAt := row.finishedUnixMs.map (⟨·⟩)
      monotonicDuration := duration.map (⟨·⟩)
      status := row.status
      platform := row.platform
      capturePolicy := ⟨row.recordInput, row.captureEnvironment⟩
      initialSnapshot := row.initialSnapshotId
      finalSnapshot := row.finalSnapshotId
      exitStatus }
  run.validate.mapError fun source => .invalidRun (toString run.id) (toString source)
  return run

/-- `load_run`. -/
def loadRun (db : Db) (runId : RunId) : StoreResult Run := do
  let row ← (db.run? runId).elim (.error (.notFound "run" (toString runId))) .ok
  let arguments ← loadArguments runId []
    ((db.runArguments.filter fun row => row.runId = runId).insertionSort
      fun row row' => row.position ≤ row'.position)
  decodeRun row (Table.find (·.childRunId) db.runParents runId) arguments

/-- A run is loaded from its row. -/
theorem loadRun_ok {db : Db} {runId : RunId} {run : Run} (h : loadRun db runId = .ok run) :
    ∃ row, db.run? runId = some row ∧ run.id = runId ∧ run.initialSnapshot = row.initialSnapshotId
      ∧ run.finalSnapshot = row.finalSnapshotId := by
  obtain ⟨row, hrow, h⟩ := Except.bind_eq_ok_iff.mp h
  obtain ⟨arguments, -, h⟩ := Except.bind_eq_ok_iff.mp h
  obtain ⟨duration, -, h⟩ := Except.bind_eq_ok_iff.mp h
  obtain ⟨exitStatus, -, h⟩ := Except.bind_eq_ok_iff.mp h
  obtain ⟨_, -, h⟩ := Except.bind_eq_ok_iff.mp h
  obtain rfl := Except.ok.inj h
  rcases hfind : db.run? runId with _ | found
  · rw [hfind] at hrow
    exact absurd hrow (by simp)
  · rw [hfind] at hrow
    obtain rfl := Except.ok.inj hrow
    have hid : found.id = runId := Table.find_some_key RunRow.id hfind
    exact ⟨found, rfl, hid, rfl, rfl⟩

theorem id_of_loadRun {db : Db} {runId : RunId} {run : Run} (h : loadRun db runId = .ok run) :
    run.id = runId := by
  obtain ⟨row, -, hid, -⟩ := loadRun_ok h
  exact hid

/-! ### Pages -/

def MAX_TIMELINE_PAGE : Nat := 10000

def MAX_OBJECT_PAGE : Nat := MAX_TIMELINE_PAGE

/-- The key after which a page of the timeline starts. -/
def timelineCursor (after : Option EventSequence) : Nat := (after.map EventSequence.get).getD 0

/-- `load_timeline`. -/
def loadTimeline (db : Db) (runId : RunId) (after : Option EventSequence) (limit : UInt32) :
    StoreResult (Page Event) := do
  ensure (limit.toNat ≠ 0 ∧ limit.toNat ≤ MAX_TIMELINE_PAGE)
    (.invalidPageLimit limit.toNat MAX_TIMELINE_PAGE)
  let after ← sqlU64 "timeline cursor" (timelineCursor after)
  loadPage EventRow.sequence decodeEvent (db.eventsOf runId) after limit.toNat

/-- The text of an object identifier, by which a listing of objects is ordered. -/
def ObjectId.hex (id : ObjectId) : Bytes := id.digest.hex

/-- The key after which a page of objects starts. -/
def objectCursor (after : Option ObjectId) : Bytes := (after.map ObjectId.hex).getD []

/-- `query_object_ids`, over the rows that the query selects from. -/
def queryObjectIds (ids : List ObjectId) (after : Option ObjectId) (limit : UInt32) :
    StoreResult (Page ObjectId) := do
  ensure (limit.toNat ≠ 0 ∧ limit.toNat ≤ MAX_OBJECT_PAGE)
    (.invalidPageLimit limit.toNat MAX_OBJECT_PAGE)
  loadPage ObjectId.hex .ok ids (objectCursor after) limit.toNat

/-- The snapshots that a run and its checkpoints name. -/
def Db.runSnapshotIds (db : Db) (runId : RunId) : List SnapshotId :=
  (db.checkpoints.filter fun row => row.runId = runId).map (·.snapshotId)
    ++ (db.runs.filter fun row => row.id = runId).filterMap (·.initialSnapshotId)
    ++ (db.runs.filter fun row => row.id = runId).filterMap (·.finalSnapshotId)

/-- The objects of a run's snapshots and terminal events; `UNION` keeps each of them once. -/
def Db.runObjectIds (db : Db) (runId : RunId) : List ObjectId :=
  ((db.snapshotEntries.filter fun row => row.snapshotId ∈ db.runSnapshotIds runId).filterMap
      (·.objectId)
    ++ (db.eventsOf runId).filterMap fun row => row.payload.reference?.map (·.1)).dedup

/-- `list_run_object_ids`. -/
def listRunObjectIds (db : Db) (runId : RunId) (after : Option ObjectId) (limit : UInt32) :
    StoreResult (Page ObjectId) := queryObjectIds (db.runObjectIds runId) after limit

theorem decodeU64_eq_ok_iff {field : String} {value : Nat} {n : UInt64} :
    decodeU64 field value = .ok n ↔ n.toNat = value := by
  unfold decodeU64
  by_cases h : value < 2 ^ 64
  · rw [if_pos h, Except.ok.injEq]
    constructor
    · rintro rfl
      exact UInt64.toNat_ofNat_of_lt h
    · rintro rfl
      exact UInt64.ofNat_toNat
  · rw [if_neg h]
    constructor
    · intro herr
      exact absurd herr (by simp)
    · rintro rfl
      exact absurd n.toNat_lt h

/-- A row that decodes has the fields of its event. -/
theorem new_eq_ok {n : UInt64} {error : StoreError} {sequence : EventSequence}
    (h : (EventSequence.new n).elim (.error error) .ok = Except.ok sequence) :
    sequence.get = n.toNat := by
  unfold EventSequence.new at h
  by_cases hpos : 0 < n.toNat
  · rw [dif_pos hpos] at h
    obtain rfl := Except.ok.inj h
    rfl
  · rw [dif_neg hpos] at h
    exact absurd h (by simp)

theorem decodeEvent_ok {row : EventRow} {event : Event} (h : decodeEvent row = .ok event) :
    event.sequence.get = row.sequence ∧ event.runId = row.runId ∧ event.payload = row.payload := by
  obtain ⟨-, h⟩ := ensure_bind_eq_ok_iff.mp h
  obtain ⟨n, hn, h⟩ := Except.bind_eq_ok_iff.mp h
  obtain ⟨sequence, hsequence, h⟩ := Except.bind_eq_ok_iff.mp h
  obtain ⟨offset, -, h⟩ := Except.bind_eq_ok_iff.mp h
  obtain ⟨_, -, h⟩ := Except.bind_eq_ok_iff.mp h
  obtain rfl := Except.ok.inj h
  refine ⟨?_, rfl, rfl⟩
  show sequence.get = row.sequence
  rw [← decodeU64_eq_ok_iff.mp hn]
  exact new_eq_ok hsequence

theorem decodeCheckpoint_ok {row : CheckpointRow} {checkpoint : Checkpoint}
    (h : decodeCheckpoint row = .ok checkpoint) :
    checkpoint.sequence.get = row.sequence ∧ checkpoint.snapshotId = row.snapshotId := by
  obtain ⟨n, hn, h⟩ := Except.bind_eq_ok_iff.mp h
  obtain ⟨sequence, hsequence, h⟩ := Except.bind_eq_ok_iff.mp h
  obtain ⟨offset, -, h⟩ := Except.bind_eq_ok_iff.mp h
  obtain ⟨_, -, h⟩ := Except.bind_eq_ok_iff.mp h
  obtain rfl := Except.ok.inj h
  refine ⟨?_, rfl⟩
  show sequence.get = row.sequence
  rw [← decodeU64_eq_ok_iff.mp hn]
  exact new_eq_ok hsequence

/-- The timeline of a run, page by page. -/
def timelinePager (db : Db) (runId : RunId) (limit : UInt32) :
    Pager Event (Option EventSequence) StoreError :=
  Pager.ofTable EventRow.sequence decodeEvent (db.eventsOf runId) timelineCursor
    (fun event => some event.sequence) (fun after => loadTimeline db runId after limit)
    (by
      intro cursor page h
      obtain ⟨hlimit, h⟩ := ensure_bind_eq_ok_iff.mp h
      obtain ⟨after, hafter, h⟩ := Except.bind_eq_ok_iff.mp h
      obtain ⟨-, rfl⟩ := sqlU64_eq_ok_iff.mp hafter
      exact ⟨limit.toNat, Nat.pos_of_ne_zero hlimit.1, h⟩)
    fun h => (decodeEvent_ok h).1

/-- The objects of a listing, page by page. -/
def objectPager (ids : List ObjectId) (limit : UInt32) :
    Pager ObjectId (Option ObjectId) StoreError :=
  Pager.ofTable ObjectId.hex .ok ids objectCursor some (fun after => queryObjectIds ids after limit)
    (by
      intro cursor page h
      obtain ⟨hlimit, h⟩ := ensure_bind_eq_ok_iff.mp h
      exact ⟨limit.toNat, Nat.pos_of_ne_zero hlimit.1, h⟩)
    (by
      intro row id h
      obtain rfl := Except.ok.inj h
      rfl)

/-! ### What the pages are pages of -/

theorem timelinePager_reads {db : Db} (hdb : db.WellFormed) (runId : RunId) (limit : UInt32) :
    (timelinePager db runId limit).Reads EventRow.sequence decodeEvent (db.eventsOf runId)
      timelineCursor where
  load := by
    intro cursor page h
    obtain ⟨hlimit, h⟩ := ensure_bind_eq_ok_iff.mp h
    obtain ⟨after, hafter, h⟩ := Except.bind_eq_ok_iff.mp h
    obtain ⟨-, rfl⟩ := sqlU64_eq_ok_iff.mp hafter
    exact ⟨limit.toNat, Nat.pos_of_ne_zero hlimit.1, h⟩
  position := fun h => (decodeEvent_ok h).1
  distinct := by
    rw [List.Nodup, List.pairwise_map]
    exact (hdb.timelines runId).pairwise_seq.imp fun h => (ne_of_lt h)

/-- The timeline of a run is a listing of all its events. -/
theorem rowsAfter_eventsOf {db : Db} (hdb : db.WellFormed) (runId : RunId) :
    rowsAfter EventRow.sequence (db.eventsOf runId) 0 = db.eventsOf runId := by
  have hsorted := (hdb.timelines runId).pairwise_seq
  have hdistinct : ((db.eventsOf runId).map EventRow.sequence).Nodup := by
    rw [List.Nodup, List.pairwise_map]
    exact hsorted.imp fun h => ne_of_lt h
  refine eq_of_pairwise_key (rowsAfter_pairwise hdistinct 0) hsorted ?_
  intro row
  rw [mem_rowsAfter]
  exact ⟨fun h => h.1, fun h => ⟨h, (hdb.timelines runId).lt_seq h⟩⟩

/-- **The pages of a timeline** hold every event of the run once, in the order of the run. -/
theorem timeline_visits {db : Db} (hdb : db.WellFormed) {runId : RunId} {limit : UInt32}
    {events : List Event} (h : (timelinePager db runId limit).Visits none events) :
    (db.eventsOf runId).mapM decodeEvent = .ok events := by
  have hrows := (timelinePager_reads hdb runId limit).rows h
  rw [show timelineCursor none = 0 from rfl, rowsAfter_eventsOf hdb] at hrows
  exact List.mapM_eq_ok_iff.mpr hrows

/-- Objects and their texts are in one order. -/
theorem hex_lt_iff {id id' : ObjectId} : id.hex < id'.hex ↔ id < id' :=
  toHex_lt_iff id.digest.bytes id'.digest.bytes

theorem hex_injective : Function.Injective ObjectId.hex := by
  intro id id' h
  have hless : ¬ id < id' := fun hlt => absurd (hex_lt_iff.mpr hlt) (by rw [h]; exact lt_irrefl _)
  have hgreater : ¬ id' < id := fun hlt => absurd (hex_lt_iff.mpr hlt)
    (by rw [h]; exact lt_irrefl _)
  exact le_antisymm (not_lt.mp hgreater) (not_lt.mp hless)

theorem nil_lt_hex (id : ObjectId) : [] < id.hex := by
  have hlength := id.digest.length_hex
  rcases hhex : id.hex with _ | ⟨b, rest⟩
  · rw [ObjectId.hex] at hhex
    rw [hhex] at hlength
    exact absurd hlength (by simp)
  · exact List.nil_lt_cons b rest

theorem objectPager_reads {ids : List ObjectId} (hnodup : ids.Nodup) (limit : UInt32) :
    (objectPager ids limit).Reads ObjectId.hex .ok ids objectCursor where
  load := by
    intro cursor page h
    obtain ⟨hlimit, h⟩ := ensure_bind_eq_ok_iff.mp h
    exact ⟨limit.toNat, Nat.pos_of_ne_zero hlimit.1, h⟩
  position := by
    intro row id h
    obtain rfl := Except.ok.inj h
    rfl
  distinct := hnodup.map hex_injective

/-- **The pages of objects** hold every object of the listing once, in ascending order. -/
theorem objects_visits {ids : List ObjectId} (hnodup : ids.Nodup) {limit : UInt32}
    {items : List ObjectId} (h : (objectPager ids limit).Visits none items) :
    items.Pairwise (· < ·) ∧ ∀ id, id ∈ items ↔ id ∈ ids := by
  have hrows := (objectPager_reads hnodup limit).rows h
  have hitems : rowsAfter ObjectId.hex ids [] = items := by
    rw [← List.forall₂_eq_eq_eq]
    exact hrows.imp fun _ _ hid => Except.ok.inj hid
  have hsorted := rowsAfter_pairwise (hnodup.map hex_injective) []
  rw [hitems] at hsorted
  refine ⟨hsorted.imp fun hlt => hex_lt_iff.mp hlt, fun id => ?_⟩
  rw [← hitems, mem_rowsAfter]
  exact ⟨fun hid => hid.1, fun hid => ⟨hid, nil_lt_hex id⟩⟩

/-- The pages of objects can be read to their end. -/
theorem exists_objects_visits (ids : List ObjectId) {limit : UInt32}
    (hlimit : limit.toNat ≠ 0 ∧ limit.toNat ≤ MAX_OBJECT_PAGE) :
    ∃ items, (objectPager ids limit).Visits none items := by
  refine Pager.exists_visits (fun cursor => ?_) none
  have hdecode : ∀ rows : List ObjectId,
      rows.mapM (Except.ok : ObjectId → StoreResult ObjectId) = .ok rows := by
    intro rows
    exact List.mapM_eq_ok_iff.mpr (List.forall₂_same.mpr fun _ _ => rfl)
  have hload : ∃ page, loadPage ObjectId.hex (Except.ok : ObjectId → StoreResult ObjectId) ids
      (objectCursor cursor) limit.toNat = .ok page :=
    ⟨_, Except.bind_eq_ok_iff.mpr ⟨_, hdecode _, rfl⟩⟩
  obtain ⟨page, hpage⟩ := hload
  exact ⟨page, ensure_bind_eq_ok_iff.mpr ⟨hlimit, hpage⟩⟩

theorem nodup_runObjectIds (db : Db) (runId : RunId) : (db.runObjectIds runId).Nodup :=
  List.nodup_dedup _

/-- The objects of a run, page by page. -/
def runObjectPager (db : Db) (runId : RunId) (limit : UInt32) :
    Pager ObjectId (Option ObjectId) StoreError :=
  { objectPager (db.runObjectIds runId) limit with
    load := fun after => listRunObjectIds db runId after limit }

/-- Read to their end, the pages of a run's objects hold them all, in ascending order. -/
theorem visits_runObjectIds {db : Db} {runId : RunId} {ids : List ObjectId}
    (hsorted : ids.Pairwise (· < ·)) (hmem : ∀ id, id ∈ ids ↔ id ∈ db.runObjectIds runId)
    {limit : UInt32} (hlimit : limit.toNat ≠ 0 ∧ limit.toNat ≤ MAX_OBJECT_PAGE) :
    (runObjectPager db runId limit).Visits none ids := by
  obtain ⟨items, hvisits⟩ := exists_objects_visits (db.runObjectIds runId) hlimit
  obtain ⟨hitems, hall⟩ := objects_visits (nodup_runObjectIds db runId) hvisits
  have hsame : ids = items := by
    refine @eq_of_pairwise_key _ _ _ (fun id : ObjectId => id) _ _ hsorted hitems fun id => ?_
    rw [hmem, hall]
  rw [hsame]
  exact hvisits

/-! ### Payloads -/

/-- `ObjectStore::open_reader` on the content of an object's file: the length of the payload, and
the bytes behind the header. -/
def openReader (maximum : Nat) (content : Bytes) : StoreResult (Nat × Bytes) := do
  ensure (HEADER_LEN ≤ content.length) (.io "read object envelope header")
  let logicalSize ← decodeHeader (content.take HEADER_LEN)
  ensure (logicalSize + HEADER_LEN < 2 ^ 64) .objectTooLarge
  ensure (content.length = logicalSize + HEADER_LEN)
    (.malformedObjectEnvelope "logical length does not match stored size")
  ensure (logicalSize ≤ maximum) (.objectReadLimit logicalSize maximum)
  return (logicalSize, content.drop HEADER_LEN)

/-- `File::open` on the path of an object. -/
def openObject (files : Files) (id : ObjectId) : StoreResult Bytes :=
  match files.node? (pathFor id) with
  | some (.file content) => .ok content
  | _ => .error (.io "open object")

/-- `open_object_reader`. -/
def openObjectReader (files : Files) (id : ObjectId) (maximum : Nat) :
    StoreResult (Nat × Bytes) := openObject files id >>= openReader maximum

/-- `load_object`. -/
def loadObject (codecs : Codecs) (files : Files) (id : ObjectId) (maximum : Nat) :
    StoreResult Bytes := openObject files id >>= readObject codecs id maximum

/-- What `ObjectReader::read` returns, call after call: `remaining` bytes of the file, if that has
as many and no more, and their digest is the object's. -/
def objectReads (codecs : Codecs) (id : ObjectId) : Nat → Bytes → Reader → Reader
  | 0, _, .ok (_ :: _) :: _ => [.error "object grew while it was read"]
  | 0, _, .error error :: _ => [.error error]
  | 0, hashed, _ =>
    if codecs.blake3 hashed = id.digest then []
    else [.error s!"object digest mismatch: expected {id}, computed {ObjectId.digestOf codecs hashed}"]
  | _ + 1, _, [] | _ + 1, _, .ok [] :: _ => [.error "object ended before its declared length"]
  | _ + 1, _, .error error :: _ => [.error error]
  | remaining + 1, hashed, .ok chunk :: rest =>
    if remaining + 1 < chunk.length then
      [.ok (chunk.take (remaining + 1)), .error "object grew while it was read"]
    else
      .ok chunk :: objectReads codecs id (remaining + 1 - chunk.length) (hashed ++ chunk) rest

end Rewind

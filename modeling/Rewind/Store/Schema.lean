/-
The metadata database: its tables, its errors and its `INSERT` statements.

Every table is the list of its rows in insertion order.  An `INSERT` is refused
by the constraints of the schema; a statement that fails fails its transaction,
and a transaction that fails leaves the database as it was, so that statements
are functions `Db → Except _ Db`.  Integer columns hold natural numbers: their
`CHECK`s exclude negative values and `sqlU64` those above `i64::MAX`.
-/
import Rewind.Domain.Event
import Rewind.Lib.Table

namespace Rewind

/-! ### Errors -/

/-- The failures of a statement: a constraint of the schema, a sum above `i64::MAX`, or the
database itself (I/O, a full disk, a busy lock). -/
inductive SqlError where
  | unique
  | foreignKey
  | check
  | notNull
  | overflow
  | unavailable
deriving DecidableEq, Repr

inductive StoreError where
  | database (operation : String) (source : SqlError)
  | io (operation : String)
  | objectDigestMismatch (expected actual : ObjectId)
  | objectCollision (id : ObjectId)
  | objectReferenced (id : ObjectId)
  | malformedObjectEnvelope (message : String)
  | unsupportedObjectEnvelopeVersion (version : UInt8)
  | unsupportedObjectCompression (method : UInt8)
  | objectTooLarge
  | objectReadLimit (actual maximum : Nat)
  | notFound (entity id : String)
  | eventOrder (message : String)
  | invalidEvent (id message : String)
  | invalidPageLimit (requested maximum : Nat)
  | invalidRun (id message : String)
  | invalidSnapshot (id message : String)
  | invalidCheckpoint (id message : String)
  | parentCycle (child parent : String)
  | numericRange (field : String) (value : Nat)
  | invalidIdentifier (kind value : String)
  | invalidEnum (kind value : String)
  | invariant (message : String)
deriving DecidableEq

/-- The result of a statement or of a transaction. -/
abbrev StoreResult (α : Type) := Except StoreError α

/-- `sql_u64`: the values an `INTEGER` column can hold. -/
def sqlU64 (field : String) (value : Nat) : StoreResult Nat :=
  if value < 2 ^ 63 then .ok value else .error (.numericRange field value)

theorem sqlU64_eq_ok_iff {field : String} {value column : Nat} :
    sqlU64 field value = .ok column ↔ value < 2 ^ 63 ∧ column = value := by
  unfold sqlU64
  by_cases h : value < 2 ^ 63
  · rw [if_pos h, Except.ok.injEq]
    exact ⟨fun heq => ⟨h, heq.symm⟩, fun hand => hand.2.symm⟩
  · rw [if_neg h]
    constructor
    · intro herr
      exact absurd herr (by simp)
    · intro hand
      exact absurd hand.1 h

/-- `map_err(|source| StoreError::Database { operation, source })`. -/
def orDatabase (operation : String) {α : Type} (result : Except SqlError α) : StoreResult α :=
  result.mapError (.database operation)

theorem orDatabase_eq_ok_iff {operation : String} {α : Type} {result : Except SqlError α} {a : α} :
    orDatabase operation result = .ok a ↔ result = .ok a := Except.mapError_eq_ok_iff

/-! ### Rows -/

/-- The sole compression method of stored objects. -/
inductive CompressionMethod where
  | none
deriving DecidableEq

structure ObjectRow where
  id : ObjectId
  logicalSize : Nat
  storedSize : Nat
  compression : CompressionMethod
  createdUnixMs : Int64
deriving DecidableEq

structure SnapshotRow where
  id : SnapshotId
  schemaVersion : UInt16
  entryCount : Nat
  logicalBytes : Nat
  createdUnixMs : Int64
deriving DecidableEq

structure SnapshotEntryRow where
  snapshotId : SnapshotId
  path : Bytes
  kind : String
  objectId : Option ObjectId
  symlinkTarget : Option String
  executable : Bool
  unixMode : UInt16
  logicalSize : Nat
deriving DecidableEq

inductive ExitKind where
  | code
  | signal
  | unknown
deriving DecidableEq

/-- The spelling of `exit_kind`. -/
def ExitKind.asStr : ExitKind → String
  | code => "code"
  | signal => "signal"
  | unknown => "unknown"

structure RunRow where
  id : RunId
  branchId : BranchId
  command : String
  workspaceRoot : Bytes
  startedUnixMs : Int64
  finishedUnixMs : Option Int64
  monotonicDurationNs : Option Nat
  status : RunStatus
  platform : Platform
  recordInput : InputRecordingPolicy
  captureEnvironment : Bool
  initialSnapshotId : Option SnapshotId
  finalSnapshotId : Option SnapshotId
  exitKind : Option ExitKind
  exitValue : Option Int32
deriving DecidableEq

structure RunArgumentRow where
  runId : RunId
  position : Nat
  value : String
deriving DecidableEq

structure RunParentRow where
  childRunId : RunId
  parentRunId : RunId
  checkpointId : CheckpointId
deriving DecidableEq

/-- A row of `events`; `payload` stands for the JSON text in `payload_json`. -/
structure EventRow where
  runId : RunId
  sequence : Nat
  id : EventId
  wallUnixMs : Int64
  monotonicOffsetNs : Nat
  schemaVersion : UInt16
  kind : String
  payload : EventPayload
deriving DecidableEq

structure CheckpointRow where
  id : CheckpointId
  runId : RunId
  sequence : Nat
  label : Option String
  reason : CheckpointReason
  snapshotId : SnapshotId
  createdUnixMs : Int64
  monotonicOffsetNs : Nat
deriving DecidableEq

structure TerminalChunkRow where
  runId : RunId
  streamId : TerminalStreamId
  firstSequence : Nat
  lastSequence : Nat
  objectId : ObjectId
  byteLength : Nat
deriving DecidableEq

structure WarningRow where
  runId : RunId
  sequence : Nat
  code : String
  message : String
  createdUnixMs : Int64
deriving DecidableEq

/-- The metadata database. -/
structure Db where
  objects : List ObjectRow
  snapshots : List SnapshotRow
  snapshotEntries : List SnapshotEntryRow
  runs : List RunRow
  runArguments : List RunArgumentRow
  runParents : List RunParentRow
  events : List EventRow
  checkpoints : List CheckpointRow
  terminalChunks : List TerminalChunkRow
  warnings : List WarningRow
deriving DecidableEq

namespace Db

/-- A database after its migrations. -/
def empty : Db := ⟨[], [], [], [], [], [], [], [], [], []⟩

/-! ### Queries -/

def object? (db : Db) (id : ObjectId) : Option ObjectRow := Table.find (·.id) db.objects id

def snapshot? (db : Db) (id : SnapshotId) : Option SnapshotRow := Table.find (·.id) db.snapshots id

def run? (db : Db) (id : RunId) : Option RunRow := Table.find (·.id) db.runs id

/-- The rows of `events` that belong to a run. -/
def eventsOf (db : Db) (id : RunId) : List EventRow := db.events.filter fun row => row.runId = id

/-- `SELECT … FROM events WHERE run_id = ?1 ORDER BY sequence DESC LIMIT 1`. -/
def lastEvent? (db : Db) (id : RunId) : Option EventRow :=
  Table.maxBy (·.sequence) (db.eventsOf id)

/-- Both active statuses leave the finish columns empty, the others fill them. -/
def finishColumnsAgree (row : RunRow) : Prop :=
  (row.status.isTerminal = row.finishedUnixMs.isSome)
    ∧ (row.status.isTerminal = row.monotonicDurationNs.isSome)

instance (row : RunRow) : Decidable (finishColumnsAgree row) := inferInstanceAs (Decidable (_ ∧ _))

/-- `exit_value` is present exactly for an exit code and a signal. -/
def exitColumnsAgree (row : RunRow) : Bool :=
  match row.exitKind, row.exitValue with
  | none, none | some .code, some _ | some .signal, some _ | some .unknown, none => true
  | _, _ => false

/-- The columns of an entry fit its kind. -/
def entryColumnsAgree (row : SnapshotEntryRow) : Bool :=
  match row.kind, row.objectId, row.symlinkTarget with
  | "file", some _, none => true
  | "directory", none, none => row.logicalSize = 0
  | "symlink", none, some _ => row.logicalSize = 0
  | _, _, _ => false

/-- A snapshot column refers to a row of `snapshots`, or is empty. -/
def snapshotExists (db : Db) (id : Option SnapshotId) : Prop :=
  ∀ snapshotId, id = some snapshotId → (db.snapshot? snapshotId).isSome

instance (db : Db) (id : Option SnapshotId) : Decidable (db.snapshotExists id) :=
  match id with
  | none => .isTrue fun _ h => absurd h (by simp)
  | some snapshotId =>
    decidable_of_iff ((db.snapshot? snapshotId).isSome) (by simp [snapshotExists])

/-- The constraints on a row of `runs` that refer to no other row of `runs`. -/
def checkRunRow (db : Db) (row : RunRow) : Except SqlError Unit := do
  ensure (row.command ≠ "") .check
  ensure (finishColumnsAgree row) .check
  ensure (exitColumnsAgree row) .check
  ensure (db.snapshotExists row.initialSnapshotId) .foreignKey
  ensure (db.snapshotExists row.finalSnapshotId) .foreignKey

/-! ### Insertions -/

/-- Appends a row under its unique key. -/
def insertRow {ρ κ : Type} [DecidableEq κ] (key : ρ → κ) (rows : List ρ) (row : ρ) :
    Except SqlError (List ρ) :=
  if key row ∈ rows.map key then .error .unique else .ok (rows ++ [row])

theorem insertRow_eq_ok_iff {ρ κ : Type} [DecidableEq κ] {key : ρ → κ} {rows rows' : List ρ}
    {row : ρ} :
    insertRow key rows row = .ok rows' ↔ key row ∉ rows.map key ∧ rows' = rows ++ [row] := by
  unfold insertRow
  by_cases h : key row ∈ rows.map key
  · simp [h]
  · rw [if_neg h, Except.ok.injEq]
    exact ⟨fun heq => ⟨h, heq.symm⟩, fun hand => hand.2.symm⟩

/-- `INSERT INTO objects … ON CONFLICT(id) DO NOTHING`. -/
def insertObject (db : Db) (row : ObjectRow) : Db :=
  if row.id ∈ db.objects.map (·.id) then db else { db with objects := db.objects ++ [row] }

/-- `INSERT INTO snapshots … ON CONFLICT(id) DO NOTHING`, with whether a row was inserted. -/
def insertSnapshot (db : Db) (row : SnapshotRow) : Db × Bool :=
  if row.id ∈ db.snapshots.map (·.id) then
    (db, false)
  else
    ({ db with snapshots := db.snapshots ++ [row] }, true)

def insertSnapshotEntry (db : Db) (row : SnapshotEntryRow) : Except SqlError Db := do
  ensure (row.path ≠ []) .check
  ensure (row.unixMode.toNat ≤ 4095) .check
  ensure (entryColumnsAgree row) .check
  ensure (db.snapshot? row.snapshotId).isSome .foreignKey
  ensure (∀ objectId ∈ row.objectId, (db.object? objectId).isSome) .foreignKey
  let snapshotEntries ← insertRow (fun row => (row.snapshotId, row.path)) db.snapshotEntries row
  return { db with snapshotEntries }

def insertRun (db : Db) (row : RunRow) : Except SqlError Db := do
  db.checkRunRow row
  let runs ← insertRow (·.id) db.runs row
  return { db with runs }

def insertRunArgument (db : Db) (row : RunArgumentRow) : Except SqlError Db := do
  ensure (db.run? row.runId).isSome .foreignKey
  let runArguments ← insertRow (fun row => (row.runId, row.position)) db.runArguments row
  return { db with runArguments }

def insertRunParent (db : Db) (row : RunParentRow) : Except SqlError Db := do
  ensure (row.childRunId ≠ row.parentRunId) .check
  ensure (db.run? row.childRunId).isSome .foreignKey
  ensure (db.run? row.parentRunId).isSome .foreignKey
  ensure (∃ c ∈ db.checkpoints, c.runId = row.parentRunId ∧ c.id = row.checkpointId) .foreignKey
  let runParents ← insertRow (·.childRunId) db.runParents row
  return { db with runParents }

def insertEvent (db : Db) (row : EventRow) : Except SqlError Db := do
  ensure (1 ≤ row.schemaVersion) .check
  ensure (db.run? row.runId).isSome .foreignKey
  ensure (row.id ∉ db.events.map (·.id)) .unique
  let events ← insertRow (fun row => (row.runId, row.sequence)) db.events row
  return { db with events }

def insertCheckpoint (db : Db) (row : CheckpointRow) : Except SqlError Db := do
  ensure (db.run? row.runId).isSome .foreignKey
  ensure (db.snapshot? row.snapshotId).isSome .foreignKey
  ensure ((row.runId, row.sequence) ∉ db.checkpoints.map fun c => (c.runId, c.sequence)) .unique
  let checkpoints ← insertRow (·.id) db.checkpoints row
  return { db with checkpoints }

def insertTerminalChunk (db : Db) (row : TerminalChunkRow) : Except SqlError Db := do
  ensure (row.firstSequence ≤ row.lastSequence) .check
  ensure (db.run? row.runId).isSome .foreignKey
  ensure (db.object? row.objectId).isSome .foreignKey
  let terminalChunks ←
    insertRow (fun row => (row.runId, row.streamId, row.firstSequence)) db.terminalChunks row
  return { db with terminalChunks }

def insertWarning (db : Db) (row : WarningRow) : Except SqlError Db := do
  ensure (db.run? row.runId).isSome .foreignKey
  let warnings ← insertRow (fun row => (row.runId, row.sequence)) db.warnings row
  return { db with warnings }

/-! ### Updates of runs -/

/-- `UPDATE runs SET … WHERE p`: the database and the number of changed rows. -/
def updateRuns (db : Db) (p : RunRow → Bool) (f : RunRow → RunRow) :
    Except SqlError (Db × Nat) := do
  (db.runs.filter p).forM fun row => db.checkRunRow (f row)
  return ({ db with runs := Table.update p f db.runs }, (db.runs.filter p).length)

theorem updateRuns_eq_ok {db db' : Db} {p : RunRow → Bool} {f : RunRow → RunRow} {changed : Nat}
    (h : db.updateRuns p f = .ok (db', changed)) :
    db' = { db with runs := Table.update p f db.runs } ∧ changed = (db.runs.filter p).length := by
  obtain ⟨_, -, hpair⟩ := Except.bind_eq_ok_iff.mp h
  obtain ⟨rfl, rfl⟩ := Prod.mk.inj (Except.ok.inj hpair)
  exact ⟨rfl, rfl⟩

/-- The rows an update leaves meet the constraints of the table. -/
theorem updateRuns_checked {db db' : Db} {p : RunRow → Bool} {f : RunRow → RunRow} {changed : Nat}
    (h : db.updateRuns p f = .ok (db', changed)) :
    ∀ row ∈ db.runs, p row = true → db.checkRunRow (f row) = .ok () := by
  obtain ⟨_, hchecked, -⟩ := Except.bind_eq_ok_iff.mp h
  intro row hrow hp
  exact List.forM_eq_ok_iff.mp hchecked row (List.mem_filter.mpr ⟨hrow, hp⟩)

theorem checkRunRow_eq_ok_iff {db : Db} {row : RunRow} :
    db.checkRunRow row = .ok () ↔
      row.command ≠ "" ∧ finishColumnsAgree row ∧ exitColumnsAgree row = true
        ∧ db.snapshotExists row.initialSnapshotId ∧ db.snapshotExists row.finalSnapshotId := by
  simp only [checkRunRow, ensure_bind_eq_ok_iff, ensure_eq_ok_iff]

/-! ### What an insertion does -/

theorem insertEvent_eq_ok_iff {db db' : Db} {row : EventRow} :
    db.insertEvent row = .ok db' ↔
      1 ≤ row.schemaVersion ∧ (db.run? row.runId).isSome ∧ row.id ∉ db.events.map (·.id)
        ∧ (row.runId, row.sequence) ∉ db.events.map (fun row => (row.runId, row.sequence))
        ∧ db' = { db with events := db.events ++ [row] } := by
  simp only [insertEvent, ensure_bind_eq_ok_iff]
  simp only [Except.bind_eq_ok_iff, insertRow_eq_ok_iff, Except.pure_eq_ok_iff]
  constructor
  · rintro ⟨hversion, hrun, hid, events, ⟨hfresh, rfl⟩, rfl⟩
    exact ⟨hversion, hrun, hid, hfresh, rfl⟩
  · rintro ⟨hversion, hrun, hid, hfresh, rfl⟩
    exact ⟨hversion, hrun, hid, _, ⟨hfresh, rfl⟩, rfl⟩

theorem insertWarning_eq_ok_iff {db db' : Db} {row : WarningRow} :
    db.insertWarning row = .ok db' ↔
      (db.run? row.runId).isSome
        ∧ (row.runId, row.sequence) ∉ db.warnings.map (fun row => (row.runId, row.sequence))
        ∧ db' = { db with warnings := db.warnings ++ [row] } := by
  simp only [insertWarning, ensure_bind_eq_ok_iff]
  simp only [Except.bind_eq_ok_iff, insertRow_eq_ok_iff, Except.pure_eq_ok_iff]
  constructor
  · rintro ⟨hrun, warnings, ⟨hfresh, rfl⟩, rfl⟩
    exact ⟨hrun, hfresh, rfl⟩
  · rintro ⟨hrun, hfresh, rfl⟩
    exact ⟨hrun, _, ⟨hfresh, rfl⟩, rfl⟩

theorem insertTerminalChunk_eq_ok_iff {db db' : Db} {row : TerminalChunkRow} :
    db.insertTerminalChunk row = .ok db' ↔
      row.firstSequence ≤ row.lastSequence ∧ (db.run? row.runId).isSome
        ∧ (db.object? row.objectId).isSome
        ∧ (row.runId, row.streamId, row.firstSequence)
            ∉ db.terminalChunks.map (fun row => (row.runId, row.streamId, row.firstSequence))
        ∧ db' = { db with terminalChunks := db.terminalChunks ++ [row] } := by
  simp only [insertTerminalChunk, ensure_bind_eq_ok_iff]
  simp only [Except.bind_eq_ok_iff, insertRow_eq_ok_iff, Except.pure_eq_ok_iff]
  constructor
  · rintro ⟨hrange, hrun, hobject, chunks, ⟨hfresh, rfl⟩, rfl⟩
    exact ⟨hrange, hrun, hobject, hfresh, rfl⟩
  · rintro ⟨hrange, hrun, hobject, hfresh, rfl⟩
    exact ⟨hrange, hrun, hobject, _, ⟨hfresh, rfl⟩, rfl⟩

theorem insertCheckpoint_eq_ok_iff {db db' : Db} {row : CheckpointRow} :
    db.insertCheckpoint row = .ok db' ↔
      (db.run? row.runId).isSome ∧ (db.snapshot? row.snapshotId).isSome
        ∧ (row.runId, row.sequence) ∉ db.checkpoints.map (fun c => (c.runId, c.sequence))
        ∧ row.id ∉ db.checkpoints.map (·.id)
        ∧ db' = { db with checkpoints := db.checkpoints ++ [row] } := by
  simp only [insertCheckpoint, ensure_bind_eq_ok_iff]
  simp only [Except.bind_eq_ok_iff, insertRow_eq_ok_iff, Except.pure_eq_ok_iff]
  constructor
  · rintro ⟨hrun, hsnapshot, hsequence, checkpoints, ⟨hfresh, rfl⟩, rfl⟩
    exact ⟨hrun, hsnapshot, hsequence, hfresh, rfl⟩
  · rintro ⟨hrun, hsnapshot, hsequence, hfresh, rfl⟩
    exact ⟨hrun, hsnapshot, hsequence, _, ⟨hfresh, rfl⟩, rfl⟩

end Db

end Rewind

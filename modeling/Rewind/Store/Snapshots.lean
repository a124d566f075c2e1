/-
Snapshots and checkpoints.

`storeSnapshotIn` stores a manifest under its digest, once; `commitCheckpointIn`
stores a snapshot together with the checkpoint that refers to it and, for an
initial or final checkpoint, links it to the run.

* `storeSnapshotIn_ok`, `setRunSnapshot_ok` — what a statement has done when it
  returns;
* **`commitCheckpointIn_ok`** — a committed checkpoint adds its row and its
  snapshot, and changes the run only in the linked column.
-/
import Rewind.Store.Events

namespace Rewind

variable (codecs : Codecs)

/-! ### Loading -/

/-- `validate_snapshot`. -/
def validateSnapshot (snapshot : Snapshot) : StoreResult Unit :=
  let actual := SnapshotId.digestOf codecs snapshot.manifest
  ensure (actual = snapshot.id)
    (.invalidSnapshot (toString snapshot.id) s!"canonical manifest digest is {actual}")

/-- The kind of an entry, from the columns of its row. -/
def decodeEntryKind (row : SnapshotEntryRow) : Option SnapshotEntryKind :=
  match row.kind, row.objectId, row.symlinkTarget, row.executable, row.logicalSize with
  | "directory", none, none, false, 0 => some .directory
  | "file", some objectId, none, executable, size =>
    some (.file objectId (UInt64.ofNat size) executable)
  | "symlink", none, some target, false, 0 => some (.symlink target)
  | _, _, _, _, _ => none

/-- The body of the row loop of `load_snapshot_from`. -/
def decodeEntry (snapshotId : SnapshotId) (row : SnapshotEntryRow) : StoreResult SnapshotEntry := do
  let invalid (message : String) : StoreError := .invalidSnapshot (toString snapshotId) message
  let permissions ← (UnixPermissions.new row.unixMode).elim
    (.error (invalid s!"unsupported Unix permission bits {row.unixMode}")) .ok
  let kind ← (decodeEntryKind row).elim
    (.error (invalid s!"invalid entry columns for {decodeUtf8 row.path}")) .ok
  if hutf8 : validUtf8 row.path = true then
    let path ← (SnapshotPath.fromStr row.path hutf8).mapError fun source =>
      invalid (toString source)
    return { path, kind, permissions }
  else
    throw (.database "read snapshot entry" .unavailable)

/-- The summed sizes of the files among `entries`; `none` when they overflow a `u64`. -/
def logicalBytes (entries : List SnapshotEntry) : Option Nat :=
  entries.foldlM (fun total entry =>
    match entry.kind with
    | .file _ size _ => if total + size.toNat < 2 ^ 64 then some (total + size.toNat) else none
    | .directory | .symlink _ => some total) 0

/-- The rows of a snapshot, `ORDER BY path`. -/
def Db.entriesOf (db : Db) (snapshotId : SnapshotId) : List SnapshotEntryRow :=
  (db.snapshotEntries.filter fun row => row.snapshotId = snapshotId).insertionSort
    fun r r' => r.path ≤ r'.path

/-- `load_snapshot_from`. -/
def loadSnapshotFrom (db : Db) (snapshotId : SnapshotId) : StoreResult Snapshot := do
  let invalid (message : String) : StoreError := .invalidSnapshot (toString snapshotId) message
  let metadata ← (db.snapshot? snapshotId).elim
    (.error (.notFound "snapshot" (toString snapshotId))) .ok
  let entries ← (db.entriesOf snapshotId).mapM (decodeEntry snapshotId)
  let total ← (logicalBytes entries).elim (.error (invalid "logical byte total overflowed")) .ok
  let total ← sqlU64 "snapshot logical bytes" total
  ensure (entries.length = metadata.entryCount ∧ total = metadata.logicalBytes)
    (invalid "entry count or logical byte total disagrees with metadata")
  let manifest ← (SnapshotManifest.fromCanonicalEntries metadata.schemaVersion entries).mapError
    fun source => invalid (toString source)
  let snapshot : Snapshot := { id := snapshotId, manifest }
  validateSnapshot codecs snapshot
  return snapshot

/-! ### Storing -/

/-- The row of `snapshot_entries` for an entry. -/
def entryRow (snapshotId : SnapshotId) (entry : SnapshotEntry) : SnapshotEntryRow :=
  match entry.kind with
  | .directory =>
    { snapshotId, path := entry.path.text, kind := "directory", objectId := none,
      symlinkTarget := none, executable := false, unixMode := entry.permissions.bits,
      logicalSize := 0 }
  | .file objectId size executable =>
    { snapshotId, path := entry.path.text, kind := "file", objectId := some objectId,
      symlinkTarget := none, executable, unixMode := entry.permissions.bits,
      logicalSize := size.toNat }
  | .symlink target =>
    { snapshotId, path := entry.path.text, kind := "symlink", objectId := none,
      symlinkTarget := some target, executable := false, unixMode := entry.permissions.bits,
      logicalSize := 0 }

/-- One iteration of the insertion loop of `store_snapshot_in`. -/
def storeEntry (snapshotId : SnapshotId) (db : Db) (entry : SnapshotEntry) : StoreResult Db := do
  let row := entryRow snapshotId entry
  let _ ← sqlU64 "snapshot file size" row.logicalSize
  orDatabase "insert snapshot entry" (db.insertSnapshotEntry row)

/-- `store_snapshot_in`. -/
def storeSnapshotIn (db : Db) (snapshot : Snapshot) (createdAt : Timestamp) : StoreResult Db := do
  let entries := snapshot.manifest.entries
  ensure (entries.length < 2 ^ 63) (.numericRange "snapshot entry count" entries.length)
  let total ← (logicalBytes entries).elim
    (.error (.numericRange "snapshot logical bytes" (2 ^ 128 - 1))) .ok
  let total ← sqlU64 "snapshot logical bytes" total
  let (db', inserted) := db.insertSnapshot
    { id := snapshot.id
      schemaVersion := snapshot.manifest.schemaVersion
      entryCount := entries.length
      logicalBytes := total
      createdUnixMs := createdAt.unixMilliseconds }
  if inserted then
    entries.foldlM (storeEntry snapshot.id) db'
  else
    let existing ← loadSnapshotFrom codecs db' snapshot.id
    ensure (existing = snapshot)
      (.invalidSnapshot (toString snapshot.id)
        "existing snapshot metadata differs from supplied manifest")
    return db'

/-- `store_snapshot`. -/
def storeSnapshot (db : Db) (snapshot : Snapshot) (createdAt : Timestamp) : StoreResult Db := do
  validateSnapshot codecs snapshot
  storeSnapshotIn codecs db snapshot createdAt

/-! ### Checkpoints -/

/-- The run whose initial link may be set to `snapshotId`. -/
def initialLinkable (runId : RunId) (snapshotId : SnapshotId) (row : RunRow) : Bool :=
  row.id = runId ∧ (row.initialSnapshotId = none ∨ row.initialSnapshotId = some snapshotId)

/-- The run whose final link may be set to `snapshotId`. -/
def finalLinkable (runId : RunId) (snapshotId : SnapshotId) (row : RunRow) : Bool :=
  row.id = runId ∧ (row.finalSnapshotId = none ∨ row.finalSnapshotId = some snapshotId)

/-- The statement `set_run_snapshot` chooses for a column. -/
def linkSnapshot (db : Db) (runId : RunId) (column : String) (snapshotId : SnapshotId) :
    StoreResult (Db × Nat) :=
  match column with
  | "initial_snapshot_id" =>
    orDatabase "link checkpoint snapshot to run"
      (db.updateRuns (initialLinkable runId snapshotId)
        fun row => { row with initialSnapshotId := some snapshotId })
  | "final_snapshot_id" =>
    orDatabase "link checkpoint snapshot to run"
      (db.updateRuns (finalLinkable runId snapshotId)
        fun row => { row with finalSnapshotId := some snapshotId })
  | _ => .error (.invariant s!"unsupported run snapshot column {column}")

/-- `set_run_snapshot`: links a snapshot to a run unless the column names another one. -/
def setRunSnapshot (db : Db) (runId : RunId) (column : String) (snapshotId : SnapshotId) :
    StoreResult Db := do
  let (db, changed) ← linkSnapshot db runId column snapshotId
  ensure (changed = 1)
    (.invalidCheckpoint (toString snapshotId)
      s!"run {runId} is missing or already references a different {column}")
  return db

/-- `commit_checkpoint_in`. -/
def commitCheckpointIn (db : Db) (checkpoint : Checkpoint) (snapshot : Snapshot) :
    StoreResult Db := do
  let db ← storeSnapshotIn codecs db snapshot checkpoint.createdAt
  let sequence ← sqlU64 "checkpoint sequence" checkpoint.sequence.get
  let offset ← sqlU64 "checkpoint monotonic offset" checkpoint.monotonicOffset.asNanoseconds
  let db ← orDatabase "insert checkpoint" <| db.insertCheckpoint
    { id := checkpoint.id
      runId := checkpoint.runId
      sequence
      label := checkpoint.label
      reason := checkpoint.reason
      snapshotId := checkpoint.snapshotId
      createdUnixMs := checkpoint.createdAt.unixMilliseconds
      monotonicOffsetNs := offset }
  match checkpoint.reason with
  | .initial => setRunSnapshot db checkpoint.runId "initial_snapshot_id" checkpoint.snapshotId
  | .final => setRunSnapshot db checkpoint.runId "final_snapshot_id" checkpoint.snapshotId
  | .manual | .processBoundary | .filesystemQuiescence | .agentAdapter => return db

/-- `validate_checkpoint_snapshot`. -/
def validateCheckpointSnapshot (checkpoint : Checkpoint) (snapshot : Snapshot) :
    StoreResult Unit := do
  checkpoint.validate.mapError fun source =>
    .invalidCheckpoint (toString checkpoint.id) (toString source)
  ensure (checkpoint.snapshotId = snapshot.id)
    (.invalidCheckpoint (toString checkpoint.id)
      s!"checkpoint snapshot {checkpoint.snapshotId} does not match supplied snapshot {snapshot.id}")
  validateSnapshot codecs snapshot

/-- `commit_checkpoint`. -/
def commitCheckpoint (db : Db) (checkpoint : Checkpoint) (snapshot : Snapshot) :
    StoreResult Db := do
  validateCheckpointSnapshot codecs checkpoint snapshot
  commitCheckpointIn codecs db checkpoint snapshot

/-- The event that describes a committed checkpoint. -/
def describesCheckpoint (event : Event) (checkpoint : Checkpoint) : Prop :=
  event.runId = checkpoint.runId ∧ event.sequence = checkpoint.sequence
    ∧ event.wallClock = checkpoint.createdAt
    ∧ event.monotonicOffset = checkpoint.monotonicOffset
    ∧ event.payload = .checkpointCommitted checkpoint.id checkpoint.snapshotId

instance (event : Event) (checkpoint : Checkpoint) :
    Decidable (describesCheckpoint event checkpoint) := inferInstanceAs (Decidable (_ ∧ _))

/-- `commit_checkpoint_with_event`. -/
def commitCheckpointWithEvent (db : Db) (checkpoint : Checkpoint) (snapshot : Snapshot)
    (event : Event) : StoreResult Db := do
  validateCheckpointSnapshot codecs checkpoint snapshot
  ensure (describesCheckpoint event checkpoint)
    (.invalidCheckpoint (toString checkpoint.id)
      "committed event does not exactly describe the checkpoint")
  let db ← commitCheckpointIn codecs db checkpoint snapshot
  appendEventBatchIn db [event]

/-! ### What the statements have done -/

variable {codecs}

/-- The row of `snapshots` for a snapshot whose files hold `total` bytes. -/
def snapshotRow (snapshot : Snapshot) (createdAt : Timestamp) (total : Nat) : SnapshotRow where
  id := snapshot.id
  schemaVersion := snapshot.manifest.schemaVersion
  entryCount := snapshot.manifest.entries.length
  logicalBytes := total
  createdUnixMs := createdAt.unixMilliseconds

theorem storeEntry_ok {snapshotId : SnapshotId} {db db' : Db} {entry : SnapshotEntry}
    (h : storeEntry snapshotId db entry = .ok db') :
    db' = { db with snapshotEntries := db.snapshotEntries ++ [entryRow snapshotId entry] }
      ∧ ∀ objectId ∈ (entryRow snapshotId entry).objectId, (db.object? objectId).isSome := by
  unfold storeEntry at h
  obtain ⟨_, -, h⟩ := Except.bind_eq_ok_iff.mp h
  have hinsert := orDatabase_eq_ok_iff.mp h
  simp only [Db.insertSnapshotEntry, ensure_bind_eq_ok_iff] at hinsert
  obtain ⟨-, -, -, -, hobject, hinsert⟩ := hinsert
  obtain ⟨_, hrow, hdb⟩ := Except.bind_eq_ok_iff.mp hinsert
  obtain ⟨-, rfl⟩ := Db.insertRow_eq_ok_iff.mp hrow
  exact ⟨(Except.ok.inj hdb).symm, hobject⟩

theorem foldlM_storeEntry_ok {snapshotId : SnapshotId} {db db' : Db}
    {entries : List SnapshotEntry} (h : entries.foldlM (storeEntry snapshotId) db = .ok db') :
    db' = { db with
        snapshotEntries := db.snapshotEntries ++ entries.map (entryRow snapshotId) }
      ∧ ∀ entry ∈ entries, ∀ objectId ∈ (entryRow snapshotId entry).objectId,
          (db.object? objectId).isSome := by
  induction entries generalizing db with
  | nil =>
    obtain rfl := Except.ok.inj h
    simp
  | cons entry rest ih =>
    obtain ⟨db₁, hentry, hrest⟩ := List.foldlM_eq_ok_cons.mp h
    obtain ⟨rfl, hobject⟩ := storeEntry_ok hentry
    obtain ⟨rfl, hobjects⟩ := ih hrest
    refine ⟨?_, List.forall_mem_cons.mpr ⟨hobject, hobjects⟩⟩
    simp only [List.map_cons, List.append_assoc, List.singleton_append]

/-- A stored snapshot was there already, or its rows are new and its objects recorded. -/
theorem storeSnapshotIn_ok {db db' : Db} {snapshot : Snapshot} {createdAt : Timestamp}
    (h : storeSnapshotIn codecs db snapshot createdAt = .ok db') :
    (db' = db ∧ loadSnapshotFrom codecs db snapshot.id = .ok snapshot)
      ∨ (snapshot.id ∉ db.snapshots.map (·.id)
          ∧ (∀ entry ∈ snapshot.manifest.entries,
              ∀ objectId ∈ (entryRow snapshot.id entry).objectId, (db.object? objectId).isSome)
          ∧ ∃ total, db' =
            { db with
              snapshots := db.snapshots ++ [snapshotRow snapshot createdAt total]
              snapshotEntries :=
                db.snapshotEntries ++ snapshot.manifest.entries.map (entryRow snapshot.id) }) := by
  unfold storeSnapshotIn at h
  simp only [ensure_bind_eq_ok_iff] at h
  obtain ⟨-, h⟩ := h
  obtain ⟨total, -, h⟩ := Except.bind_eq_ok_iff.mp h
  obtain ⟨total, -, h⟩ := Except.bind_eq_ok_iff.mp h
  by_cases hpresent : snapshot.id ∈ db.snapshots.map (·.id)
  · left
    simp only [Db.insertSnapshot, if_pos hpresent, Bool.false_eq_true, if_false] at h
    obtain ⟨existing, hload, h⟩ := Except.bind_eq_ok_iff.mp h
    obtain ⟨rfl, hdb⟩ := ensure_bind_eq_ok_iff.mp h
    exact ⟨(Except.ok.inj hdb).symm, hload⟩
  · right
    simp only [Db.insertSnapshot, if_neg hpresent, if_true] at h
    obtain ⟨rfl, hobjects⟩ := foldlM_storeEntry_ok h
    exact ⟨hpresent, hobjects, total, rfl⟩

/-- Storing a snapshot leaves the other tables alone. -/
theorem storeSnapshotIn_frame {db db' : Db} {snapshot : Snapshot} {createdAt : Timestamp}
    (h : storeSnapshotIn codecs db snapshot createdAt = .ok db') :
    ∃ snapshots snapshotEntries, db' = { db with snapshots, snapshotEntries } := by
  rcases storeSnapshotIn_ok h with ⟨rfl, -⟩ | ⟨-, -, total, rfl⟩
  · exact ⟨db'.snapshots, db'.snapshotEntries, rfl⟩
  · exact ⟨_, _, rfl⟩

/-- The runs after the link of a checkpoint. -/
def linkedRuns (checkpoint : Checkpoint) (runs : List RunRow) : List RunRow :=
  match checkpoint.reason with
  | .initial => Table.update (initialLinkable checkpoint.runId checkpoint.snapshotId)
      (fun row => { row with initialSnapshotId := some checkpoint.snapshotId }) runs
  | .final => Table.update (finalLinkable checkpoint.runId checkpoint.snapshotId)
      (fun row => { row with finalSnapshotId := some checkpoint.snapshotId }) runs
  | .manual | .processBoundary | .filesystemQuiescence | .agentAdapter => runs

theorem linkedRuns_initial {checkpoint : Checkpoint} (h : checkpoint.reason = .initial)
    (runs : List RunRow) :
    linkedRuns checkpoint runs
      = Table.update (initialLinkable checkpoint.runId checkpoint.snapshotId)
          (fun row => { row with initialSnapshotId := some checkpoint.snapshotId }) runs := by
  rw [linkedRuns, h]

theorem linkedRuns_final {checkpoint : Checkpoint} (h : checkpoint.reason = .final)
    (runs : List RunRow) :
    linkedRuns checkpoint runs
      = Table.update (finalLinkable checkpoint.runId checkpoint.snapshotId)
          (fun row => { row with finalSnapshotId := some checkpoint.snapshotId }) runs := by
  rw [linkedRuns, h]

/-- A link updates the two snapshot columns and nothing else. -/
theorem linkedRuns_eq_update (checkpoint : Checkpoint) (runs : List RunRow) :
    ∃ p f, linkedRuns checkpoint runs = Table.update p f runs
      ∧ ∀ row, ∃ initialSnapshotId finalSnapshotId,
          f row = { row with initialSnapshotId, finalSnapshotId } := by
  cases hreason : checkpoint.reason
  case initial =>
    refine ⟨_, _, linkedRuns_initial hreason runs, fun row => ?_⟩
    exact ⟨some checkpoint.snapshotId, row.finalSnapshotId, rfl⟩
  case final =>
    refine ⟨_, _, linkedRuns_final hreason runs, fun row => ?_⟩
    exact ⟨row.initialSnapshotId, some checkpoint.snapshotId, rfl⟩
  all_goals
    refine ⟨fun _ => false, id, ?_, fun row => ?_⟩
    · simp [linkedRuns, hreason, Table.update]
    · exact ⟨row.initialSnapshotId, row.finalSnapshotId, rfl⟩

/-- The run a checkpoint links to lets the link be set. -/
def Linkable (checkpoint : Checkpoint) (runs : List RunRow) : Prop :=
  match checkpoint.reason with
  | .initial =>
    (runs.filter (initialLinkable checkpoint.runId checkpoint.snapshotId)).length = 1
  | .final => (runs.filter (finalLinkable checkpoint.runId checkpoint.snapshotId)).length = 1
  | .manual | .processBoundary | .filesystemQuiescence | .agentAdapter => True

theorem setRunSnapshot_initial_ok {db db' : Db} {runId : RunId} {snapshotId : SnapshotId}
    (h : setRunSnapshot db runId "initial_snapshot_id" snapshotId = .ok db') :
    (db.runs.filter (initialLinkable runId snapshotId)).length = 1
      ∧ db' = { db with
          runs := Table.update (initialLinkable runId snapshotId)
            (fun row => { row with initialSnapshotId := some snapshotId }) db.runs } := by
  obtain ⟨⟨db₁, changed⟩, hlink, h⟩ := Except.bind_eq_ok_iff.mp h
  obtain ⟨rfl, rfl⟩ := Db.updateRuns_eq_ok (orDatabase_eq_ok_iff.mp hlink)
  obtain ⟨hchanged, hdb⟩ := ensure_bind_eq_ok_iff.mp h
  exact ⟨hchanged, (Except.ok.inj hdb).symm⟩

theorem setRunSnapshot_final_ok {db db' : Db} {runId : RunId} {snapshotId : SnapshotId}
    (h : setRunSnapshot db runId "final_snapshot_id" snapshotId = .ok db') :
    (db.runs.filter (finalLinkable runId snapshotId)).length = 1
      ∧ db' = { db with
          runs := Table.update (finalLinkable runId snapshotId)
            (fun row => { row with finalSnapshotId := some snapshotId }) db.runs } := by
  obtain ⟨⟨db₁, changed⟩, hlink, h⟩ := Except.bind_eq_ok_iff.mp h
  obtain ⟨rfl, rfl⟩ := Db.updateRuns_eq_ok (orDatabase_eq_ok_iff.mp hlink)
  obtain ⟨hchanged, hdb⟩ := ensure_bind_eq_ok_iff.mp h
  exact ⟨hchanged, (Except.ok.inj hdb).symm⟩

/-- The row of `checkpoints` for a checkpoint. -/
def checkpointRow (checkpoint : Checkpoint) : CheckpointRow where
  id := checkpoint.id
  runId := checkpoint.runId
  sequence := checkpoint.sequence.get
  label := checkpoint.label
  reason := checkpoint.reason
  snapshotId := checkpoint.snapshotId
  createdUnixMs := checkpoint.createdAt.unixMilliseconds
  monotonicOffsetNs := checkpoint.monotonicOffset.asNanoseconds

/-- **Committed checkpoints.**  A checkpoint that is committed stores its snapshot, adds its row
and links the run. -/
theorem commitCheckpointIn_ok {db db' : Db} {checkpoint : Checkpoint} {snapshot : Snapshot}
    (h : commitCheckpointIn codecs db checkpoint snapshot = .ok db') :
    ∃ db₁, storeSnapshotIn codecs db snapshot checkpoint.createdAt = .ok db₁
      ∧ (db.run? checkpoint.runId).isSome
      ∧ Linkable checkpoint db.runs
      ∧ checkpoint.id ∉ db.checkpoints.map (·.id)
      ∧ db' = { db₁ with
          checkpoints := db.checkpoints ++ [checkpointRow checkpoint]
          runs := linkedRuns checkpoint db.runs } := by
  obtain ⟨db₁, hstore, h⟩ := Except.bind_eq_ok_iff.mp h
  obtain ⟨sequence, hsequence, h⟩ := Except.bind_eq_ok_iff.mp h
  obtain ⟨offset, hoffset, h⟩ := Except.bind_eq_ok_iff.mp h
  obtain ⟨db₂, hinsert, hlink⟩ := Except.bind_eq_ok_iff.mp h
  obtain ⟨-, rfl⟩ := sqlU64_eq_ok_iff.mp hsequence
  obtain ⟨-, rfl⟩ := sqlU64_eq_ok_iff.mp hoffset
  obtain ⟨hrun, -, -, hfresh, rfl⟩ :=
    Db.insertCheckpoint_eq_ok_iff.mp (orDatabase_eq_ok_iff.mp hinsert)
  have hframe := storeSnapshotIn_frame hstore
  refine ⟨db₁, hstore, ?_⟩
  obtain ⟨snapshots, snapshotEntries, rfl⟩ := hframe
  -- the link of a checkpoint is the last statement, chosen by the reason
  unfold Linkable linkedRuns
  cases hreason : checkpoint.reason <;> rw [hreason] at hlink
  case initial =>
    obtain ⟨hlinkable, rfl⟩ := setRunSnapshot_initial_ok hlink
    exact ⟨hrun, hlinkable, hfresh, by simp only [checkpointRow, hreason]⟩
  case final =>
    obtain ⟨hlinkable, rfl⟩ := setRunSnapshot_final_ok hlink
    exact ⟨hrun, hlinkable, hfresh, by simp only [checkpointRow, hreason]⟩
  all_goals
    obtain rfl := Except.ok.inj hlink
    exact ⟨hrun, trivial, hfresh, by simp only [checkpointRow, hreason]⟩

end Rewind

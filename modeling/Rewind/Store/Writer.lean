/-
The store's writer as a machine.

An `Op` is one public operation of the writer, with its arguments; a `Request` is
an operation together with whether the database fails it (I/O, a full disk, a lost
lock, a crash before the commit).  Each operation is one transaction: `step` is the
operation's result when it returns `Ok`, and the old database otherwise.
-/
import Rewind.Lib.Runs
import Rewind.Store.Objects

namespace Rewind

/-- A public operation of the store's writer. -/
inductive Op where
  | createRun (run : Run)
  | markRunRunning (runId : RunId) (initialSnapshot : SnapshotId)
  | appendEventBatch (events : List Event)
  | storeSnapshot (snapshot : Snapshot) (createdAt : Timestamp)
  | commitCheckpoint (checkpoint : Checkpoint) (snapshot : Snapshot)
  | commitCheckpointWithEvent (checkpoint : Checkpoint) (snapshot : Snapshot) (event : Event)
  | finishRun (runId : RunId) (finish : RunFinish)
  | finishRunWithEvents (runId : RunId) (finish : RunFinish) (events : List Event)
  | markInterruptedRuns (recoveredAt : Timestamp)
  | recordObject (stored : StoredObject) (createdUnixMs : Int64)
  | deleteObject (id : ObjectId)

/-- The transaction of an operation. -/
def Op.exec (codecs : Codecs) (db : Db) : Op → StoreResult Db
  | .createRun run => Rewind.createRun db run
  | .markRunRunning runId initialSnapshot => Rewind.markRunRunning db runId initialSnapshot
  | .appendEventBatch events => appendEventBatchIn db events
  | .storeSnapshot snapshot createdAt => Rewind.storeSnapshot codecs db snapshot createdAt
  | .commitCheckpoint checkpoint snapshot =>
    Rewind.commitCheckpoint codecs db checkpoint snapshot
  | .commitCheckpointWithEvent checkpoint snapshot event =>
    Rewind.commitCheckpointWithEvent codecs db checkpoint snapshot event
  | .finishRun runId finish => Rewind.finishRun db runId finish
  | .finishRunWithEvents runId finish events =>
    Rewind.finishRunWithEvents db runId finish events
  | .markInterruptedRuns recoveredAt => (Rewind.markInterruptedRuns db recoveredAt).map (·.1)
  | .recordObject stored createdUnixMs => Rewind.recordObject db stored createdUnixMs
  | .deleteObject id => deleteObjectRow db id

/-- An operation, and whether the database fails it. -/
structure Request where
  op : Op
  fails : Bool

/-- What a request returns. -/
def Request.result (codecs : Codecs) (db : Db) (request : Request) : StoreResult Db :=
  if request.fails then
    .error (.database "commit transaction" .unavailable)
  else
    request.op.exec codecs db

/-- The database after a request; a failing request has changed nothing. -/
def step (codecs : Codecs) (db : Db) (request : Request) : Db :=
  match request.result codecs db with
  | .ok db' => db'
  | .error _ => db

section Steps

variable {codecs : Codecs}

/-- A step leaves the database alone or is an operation that returned `Ok`. -/
theorem step_cases (codecs : Codecs) (db : Db) (request : Request) :
    step codecs db request = db
      ∨ (request.fails = false
          ∧ Op.exec codecs db request.op = .ok (step codecs db request)) := by
  unfold step Request.result
  cases hfails : request.fails
  · rcases hexec : request.op.exec codecs db with error | db'
    · exact Or.inl (by simp)
    · exact Or.inr ⟨rfl, by simp⟩
  · exact Or.inl (by simp)

/-- An operation that returns `Ok` is done, unless the database fails it. -/
theorem step_of_exec {op : Op} {db db' : Db} (h : op.exec codecs db = .ok db') :
    step codecs db ⟨op, false⟩ = db' := by
  rw [step, Request.result, if_neg Bool.false_ne_true, h]

/-- A relation that each statement of the writer establishes between the databases before and
after it.  Operations are made of these statements. -/
structure StatementsRelate (codecs : Codecs) (R : Db → Db → Prop) : Prop where
  refl : ∀ db, R db db
  trans : ∀ {db₁ db₂ db₃}, R db₁ db₂ → R db₂ db₃ → R db₁ db₃
  createRun : ∀ {db db' run}, createRun db run = .ok db' → R db db'
  markRunRunning : ∀ {db db' runId initialSnapshot},
    markRunRunning db runId initialSnapshot = .ok db' → R db db'
  append : ∀ {db db' events}, appendEventBatchIn db events = .ok db' → R db db'
  storeSnapshot : ∀ {db db' snapshot createdAt},
    storeSnapshotIn codecs db snapshot createdAt = .ok db' → R db db'
  checkpoint : ∀ {db db' checkpoint snapshot},
    commitCheckpointIn codecs db checkpoint snapshot = .ok db' → R db db'
  finish : ∀ {db db' runId finish}, finishRunIn db runId finish = .ok db' → R db db'
  recover : ∀ {db db' recoveredAt runIds},
    markInterruptedRuns db recoveredAt = .ok (db', runIds) → R db db'
  recordObject : ∀ {db db' stored createdUnixMs},
    recordObject db stored createdUnixMs = .ok db' → R db db'
  deleteObject : ∀ {db db' id}, deleteObjectRow db id = .ok db' → R db db'

theorem storeSnapshot_ok {db db' : Db} {snapshot : Snapshot} {createdAt : Timestamp}
    (h : storeSnapshot codecs db snapshot createdAt = .ok db') :
    SnapshotId.digestOf codecs snapshot.manifest = snapshot.id
      ∧ storeSnapshotIn codecs db snapshot createdAt = .ok db' := by
  obtain ⟨_, hvalid, hstore⟩ := Except.bind_eq_ok_iff.mp h
  exact ⟨ensure_eq_ok_iff.mp hvalid, hstore⟩

theorem validateCheckpointSnapshot_ok {checkpoint : Checkpoint} {snapshot : Snapshot}
    (h : validateCheckpointSnapshot codecs checkpoint snapshot = .ok ()) :
    checkpoint.snapshotId = snapshot.id
      ∧ SnapshotId.digestOf codecs snapshot.manifest = snapshot.id := by
  obtain ⟨_, -, h⟩ := Except.bind_eq_ok_iff.mp h
  obtain ⟨hsnapshot, hvalid⟩ := ensure_bind_eq_ok_iff.mp h
  exact ⟨hsnapshot, ensure_eq_ok_iff.mp hvalid⟩

theorem commitCheckpoint_ok {db db' : Db} {checkpoint : Checkpoint} {snapshot : Snapshot}
    (h : commitCheckpoint codecs db checkpoint snapshot = .ok db') :
    checkpoint.snapshotId = snapshot.id
      ∧ commitCheckpointIn codecs db checkpoint snapshot = .ok db' := by
  obtain ⟨_, hvalid, hcommit⟩ := Except.bind_eq_ok_iff.mp h
  exact ⟨(validateCheckpointSnapshot_ok hvalid).1, hcommit⟩

theorem commitCheckpointWithEvent_ok {db db' : Db} {checkpoint : Checkpoint}
    {snapshot : Snapshot} {event : Event}
    (h : commitCheckpointWithEvent codecs db checkpoint snapshot event = .ok db') :
    checkpoint.snapshotId = snapshot.id ∧ describesCheckpoint event checkpoint
      ∧ ∃ db₁, commitCheckpointIn codecs db checkpoint snapshot = .ok db₁
          ∧ appendEventBatchIn db₁ [event] = .ok db' := by
  obtain ⟨_, hvalid, h⟩ := Except.bind_eq_ok_iff.mp h
  obtain ⟨hdescribes, h⟩ := ensure_bind_eq_ok_iff.mp h
  obtain ⟨db₁, hcommit, happend⟩ := Except.bind_eq_ok_iff.mp h
  exact ⟨(validateCheckpointSnapshot_ok hvalid).1, hdescribes, db₁, hcommit, happend⟩

/-- What the statements establish, every successful operation establishes. -/
theorem StatementsRelate.exec {R : Db → Db → Prop} (hR : StatementsRelate codecs R) {db db' : Db}
    {op : Op} (h : op.exec codecs db = .ok db') : R db db' := by
  cases op with
  | createRun run => exact hR.createRun h
  | markRunRunning runId initialSnapshot => exact hR.markRunRunning h
  | appendEventBatch events => exact hR.append h
  | storeSnapshot snapshot createdAt => exact hR.storeSnapshot (storeSnapshot_ok h).2
  | commitCheckpoint checkpoint snapshot => exact hR.checkpoint (commitCheckpoint_ok h).2
  | commitCheckpointWithEvent checkpoint snapshot event =>
    obtain ⟨-, -, db₁, hcommit, happend⟩ := commitCheckpointWithEvent_ok h
    exact hR.trans (hR.checkpoint hcommit) (hR.append happend)
  | finishRun runId finish => exact hR.finish h
  | finishRunWithEvents runId finish events =>
    obtain ⟨_, _, db₁, -, -, -, happend, hfinish⟩ := finishRunWithEvents_ok h
    exact hR.trans (hR.append happend) (hR.finish hfinish)
  | markInterruptedRuns recoveredAt =>
    rcases hrecover : Rewind.markInterruptedRuns db recoveredAt with error | ⟨db₁, runIds⟩
    · rw [Op.exec, hrecover] at h
      exact absurd h (by simp [Except.map])
    · rw [Op.exec, hrecover] at h
      obtain rfl := Except.ok.inj h
      exact hR.recover hrecover
  | recordObject stored createdUnixMs => exact hR.recordObject h
  | deleteObject id => exact hR.deleteObject h

/-- What the statements establish, every step establishes. -/
theorem StatementsRelate.step {R : Db → Db → Prop} (hR : StatementsRelate codecs R) (db : Db)
    (request : Request) : R db (step codecs db request) := by
  rcases step_cases codecs db request with hsame | ⟨-, hexec⟩
  · rw [hsame]
    exact hR.refl db
  · exact hR.exec hexec

/-- What the statements establish, every run of the writer establishes. -/
theorem StatementsRelate.run {R : Db → Db → Prop} (hR : StatementsRelate codecs R) (db : Db)
    (requests : List Request) : R db (Machine.run (Rewind.step codecs) db requests) :=
  Machine.run_rel hR.refl (fun _ _ _ => hR.trans) hR.step db requests

end Steps

/-! ### Sample records -/

namespace Sample

/-- The text `serde_json` writes for the manifest without entries. -/
def emptyManifestJson : Bytes := utf8 "\x7b\"schema_version\":1,\"entries\":[]\x7d"

/-- The BLAKE3 digest of `emptyManifestJson`. -/
def emptyManifestDigest : Digest where
  bytes := [83, 247, 111, 224, 37, 220, 252, 141, 81, 214, 169, 41, 8, 159, 154, 187,
    24, 42, 6, 61, 12, 52, 63, 181, 133, 174, 51, 172, 175, 45, 95, 236]
  length_eq := rfl

/-- A chunk of terminal output, `a`. -/
def output : Bytes := [97]

/-- The BLAKE3 digest of `output`. -/
def outputId : ObjectId where
  digest := {
    bytes := [23, 118, 47, 221, 217, 105, 164, 83, 146, 93, 101, 113, 122, 195, 238, 162,
      19, 32, 182, 107, 84, 52, 47, 222, 21, 18, 141, 108, 175, 33, 33, 95]
    length_eq := by decide }

/-- The codecs on the manifest without entries and on the chunk; elsewhere bytes are their own
digest as far as they fit. -/
def codecs : Codecs where
  blake3 bytes :=
    if bytes = emptyManifestJson then
      emptyManifestDigest
    else if bytes = output then
      outputId.digest
    else
      ⟨(bytes ++ List.replicate 32 0).take 32, by
        rw [List.length_take, List.length_append, List.length_replicate]
        omega⟩
  manifestJson manifest :=
    if manifest.entries = [] then emptyManifestJson else manifest.entries.flatMap (·.path.text)

def runId : RunId := ⟨⟨0x018f00000000700080000000000000a1⟩⟩

theorem schemaVersion_one : (1 : UInt16) = SNAPSHOT_SCHEMA_VERSION := rfl

def emptySnapshot : Snapshot where
  id := ⟨emptyManifestDigest⟩
  manifest := ⟨1, [], schemaVersion_one, rfl⟩

/-- A run in preparation. -/
def run : Run where
  id := runId
  branchId := ⟨runId.uuid⟩
  parent := none
  command := "agent"
  arguments := ["--fix"]
  workspaceRoot := utf8 "/work"
  startedAt := ⟨0⟩
  finishedAt := none
  monotonicDuration := none
  status := .preparing
  platform := .linuxX86_64
  capturePolicy := ⟨.auto, false⟩
  initialSnapshot := none
  finalSnapshot := none
  exitStatus := none

instance instNeZeroHundred : NeZero 100 := ⟨by decide⟩

/-- The event numbered `n + 1`, `n` nanoseconds into the run. -/
def event (n : Fin 100) (payload : EventPayload) : Event where
  id := ⟨⟨n.val⟩⟩
  runId := runId
  sequence := ⟨n.val + 1, Nat.succ_pos _, by omega⟩
  wallClock := ⟨0⟩
  monotonicOffset := ⟨UInt64.ofNat n.val⟩
  schemaVersion := 1
  payload := payload

/-- A checkpoint of the empty workspace at the event numbered `n + 1`. -/
def checkpoint (n : Fin 100) (reason : CheckpointReason) : Checkpoint where
  id := ⟨⟨n.val⟩⟩
  runId := runId
  sequence := (event n (.runInterrupted none)).sequence
  label := none
  reason := reason
  snapshotId := emptySnapshot.id
  createdAt := ⟨0⟩
  monotonicOffset := ⟨UInt64.ofNat n.val⟩

/-- A finalization. -/
def finish (status : RunStatus) (finalSnapshot : Option SnapshotId) : RunFinish where
  status := status
  finishedAt := ⟨1⟩
  monotonicDuration := ⟨1⟩
  finalSnapshot := finalSnapshot
  exitStatus := none

end Sample

end Rewind

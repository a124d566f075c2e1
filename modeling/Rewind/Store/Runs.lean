/-
The life of a run's row: creation, the start of capture, finalization and the
recovery of runs that a stopped recorder left active.

Five statements update a row of `runs`: the two links of a checkpoint, and the
three below.  Each lemma `…_ok` states the row it leaves behind.
-/
import Rewind.Store.Snapshots

namespace Rewind

/-- Terminal fields applied exactly once when a run leaves an active state. -/
structure RunFinish where
  status : RunStatus
  finishedAt : Timestamp
  monotonicDuration : MonotonicDuration
  finalSnapshot : Option SnapshotId
  exitStatus : Option ProcessExitStatus
deriving DecidableEq

/-- The columns of an exit status. -/
def encodeExitStatus : Option ProcessExitStatus → Option ExitKind × Option Int32
  | none => (none, none)
  | some (.code value) => (some .code, some value)
  | some (.signal value) => (some .signal, some value)
  | some .unknown => (some .unknown, none)

/-! ### Creation -/

/-- The parents of `id` in `run_parents`, `id` first.  A child has one parent row, so `fuel`
steps up reach every ancestor once there are no more than `fuel` rows. -/
def ancestors (db : Db) : Nat → RunId → List RunId
  | 0, id => [id]
  | fuel + 1, id =>
    match Table.find (·.childRunId) db.runParents id with
    | none => [id]
    | some row => id :: ancestors db fuel row.parentRunId

/-- `reject_parent_cycle`. -/
def rejectParentCycle (db : Db) (child parent : RunId) : StoreResult Unit := do
  ensure (child ≠ parent) (.parentCycle (toString child) (toString parent))
  ensure (child ∉ ancestors db db.runParents.length parent)
    (.parentCycle (toString child) (toString parent))

/-- The ancestry check of a forked run. -/
def checkParent (db : Db) (run : Run) : StoreResult Unit :=
  match run.parent with
  | none => .ok ()
  | some parent => rejectParentCycle db run.id parent.runId

/-- The row of `runs` for a run. -/
def runRow (run : Run) : RunRow where
  id := run.id
  branchId := run.branchId
  command := run.command
  workspaceRoot := run.workspaceRoot
  startedUnixMs := run.startedAt.unixMilliseconds
  finishedUnixMs := run.finishedAt.map (·.unixMilliseconds)
  monotonicDurationNs := run.monotonicDuration.map (·.asNanoseconds)
  status := run.status
  platform := run.platform
  recordInput := run.capturePolicy.recordInput
  captureEnvironment := run.capturePolicy.captureEnvironment
  initialSnapshotId := run.initialSnapshot
  finalSnapshotId := run.finalSnapshot
  exitKind := (encodeExitStatus run.exitStatus).1
  exitValue := (encodeExitStatus run.exitStatus).2

/-- The loop that inserts the arguments of a run. -/
def insertArguments (runId : RunId) : Db → Nat → List String → StoreResult Db
  | db, _, [] => .ok db
  | db, position, argument :: rest => do
    ensure (position < 2 ^ 63) (.numericRange "run argument position" position)
    let db ← orDatabase "insert run argument"
      (db.insertRunArgument { runId, position, value := argument })
    insertArguments runId db (position + 1) rest

/-- The parent row of a forked run. -/
def insertParent (db : Db) (run : Run) : StoreResult Db :=
  match run.parent with
  | none => .ok db
  | some parent =>
    orDatabase "insert run parent"
      (db.insertRunParent
        { childRunId := run.id
          parentRunId := parent.runId
          checkpointId := parent.checkpointId })

/-- `create_run`. -/
def createRun (db : Db) (run : Run) : StoreResult Db := do
  run.validate.mapError fun source => .invalidRun (toString run.id) (toString source)
  ensure (run.status = .preparing)
    (.invalidRun (toString run.id) "new runs must begin in preparing state")
  ensure (validUtf8 run.workspaceRoot = true)
    (.invalidRun (toString run.id) "workspace root is not valid UTF-8")
  checkParent db run
  let _ ← sqlU64 "run monotonic duration" ((run.monotonicDuration.map (·.asNanoseconds)).getD 0)
  let db ← orDatabase "insert run" (db.insertRun (runRow run))
  let db ← insertArguments run.id db 0 run.arguments
  insertParent db run

/-! ### The start of capture -/

/-- `missing_or_state_error`. -/
def missingOrStateError (db : Db) (runId : RunId) (required : String) : StoreError :=
  match db.run? runId with
  | some row =>
    .invalidRun (toString runId) s!"run must be {required}, but is {row.status}"
  | none => .notFound "run" (toString runId)

/-- The run `mark_run_running` changes. -/
def isPreparing (runId : RunId) (row : RunRow) : Bool := row.id = runId ∧ row.status = .preparing

/-- `mark_run_running`. -/
def markRunRunning (db : Db) (runId : RunId) (initialSnapshot : SnapshotId) : StoreResult Db := do
  let (db', changed) ← orDatabase "mark run running"
    (db.updateRuns (isPreparing runId) fun row =>
      { row with status := .running, initialSnapshotId := some initialSnapshot })
  ensure (changed = 1) (missingOrStateError db runId "preparing")
  return db'

/-! ### Finalization -/

/-- The row of a run after its finalization. -/
def finishedRow (finish : RunFinish) (row : RunRow) : RunRow :=
  { row with
    status := finish.status
    finishedUnixMs := some finish.finishedAt.unixMilliseconds
    monotonicDurationNs := some finish.monotonicDuration.asNanoseconds
    finalSnapshotId := finish.finalSnapshot
    exitKind := (encodeExitStatus finish.exitStatus).1
    exitValue := (encodeExitStatus finish.exitStatus).2 }

/-- `finish_run_in`. -/
def finishRunIn (db : Db) (runId : RunId) (finish : RunFinish) : StoreResult Db := do
  ensure (finish.status.isTerminal = true)
    (.invalidRun (toString runId) s!"finish status {finish.status} is not terminal")
  let current ← (db.run? runId).elim (.error (.notFound "run" (toString runId))) .ok
  ensure (current.status.canTransitionTo finish.status = true)
    (.invalidRun (toString runId)
      s!"illegal status transition from {current.status} to {finish.status}")
  let _ ← sqlU64 "run monotonic duration" finish.monotonicDuration.asNanoseconds
  let (db, _) ← orDatabase "update finalized run"
    (db.updateRuns (fun row => row.id = runId) (finishedRow finish))
  return db

/-- `finish_run`. -/
def finishRun (db : Db) (runId : RunId) (finish : RunFinish) : StoreResult Db :=
  finishRunIn db runId finish

/-- The checks `finish_run_with_events` makes on the last event of the batch. -/
def checkTerminalEvent (runId : RunId) (finish : RunFinish) (last : Event) : StoreResult Unit :=
  match last.payload with
  | .runCompleted status exitStatus =>
    ensure (last.runId = runId ∧ status = finish.status ∧ exitStatus = finish.exitStatus)
      (.invalidEvent (toString last.id)
        "terminal event disagrees with run finalization metadata")
  | _ =>
    .error (.invalidEvent (toString last.id) "finalization batch must end with RunCompleted")

/-- `finish_run_with_events`. -/
def finishRunWithEvents (db : Db) (runId : RunId) (finish : RunFinish) (events : List Event) :
    StoreResult Db := do
  let last ← events.getLast?.elim
    (.error (.eventOrder s!"run {runId} finalization requires a terminal event")) .ok
  checkTerminalEvent runId finish last
  let db ← appendEventBatchIn db events
  finishRunIn db runId finish

/-! ### Recovery -/

/-- The runs that are still active. -/
def isActive (row : RunRow) : Bool := !row.status.isTerminal

/-- The row of an active run after its recovery. -/
def interruptedRow (db : Db) (recoveredAt : Timestamp) (row : RunRow) : RunRow :=
  { row with
    status := .interrupted
    finishedUnixMs := some recoveredAt.unixMilliseconds
    monotonicDurationNs := some
      (((Table.maxBy (·.monotonicOffsetNs) (db.eventsOf row.id)).map (·.monotonicOffsetNs)).getD 0)
        }

/-- The warning that makes a recovery visible. -/
def recoveryWarning (db : Db) (recoveredAt : Timestamp) (runId : RunId) : WarningRow where
  runId := runId
  sequence := ((Table.maxBy (·.sequence) (db.warnings.filter fun row => row.runId = runId)).map
    (·.sequence + 1)).getD 1
  code := "incomplete_run_recovered"
  message := "A previous recorder stopped without finalizing this run."
  createdUnixMs := recoveredAt.unixMilliseconds

/-- The body of the loop of `mark_interrupted_runs`. -/
def recoverRun (recoveredAt : Timestamp) (db : Db) (runId : RunId) : StoreResult Db := do
  let (db, _) ← orDatabase "mark interrupted run"
    (db.updateRuns (fun row => row.id = runId ∧ isActive row) (interruptedRow db recoveredAt))
  orDatabase "record interrupted-run warning"
    (db.insertWarning (recoveryWarning db recoveredAt runId))

/-- `SELECT id FROM runs WHERE status IN ('preparing', 'running') ORDER BY id`. -/
def activeRunIds (db : Db) : List RunId :=
  ((db.runs.filter isActive).map (·.id)).insertionSort
    fun id id' => id.uuid.bits.toNat ≤ id'.uuid.bits.toNat

/-- `mark_interrupted_runs`. -/
def markInterruptedRuns (db : Db) (recoveredAt : Timestamp) : StoreResult (Db × List RunId) := do
  let runIds := activeRunIds db
  let db ← runIds.foldlM (recoverRun recoveredAt) db
  return (db, runIds)

/-! ### What the statements have done -/

/-- The rows of `run_arguments` for the arguments of a run, from `position` on. -/
def argumentRows (runId : RunId) : Nat → List String → List RunArgumentRow
  | _, [] => []
  | position, argument :: rest =>
    { runId, position, value := argument } :: argumentRows runId (position + 1) rest

theorem insertArguments_ok {runId : RunId} {db db' : Db} {position : Nat} {arguments : List String}
    (h : insertArguments runId db position arguments = .ok db') :
    db' = { db with runArguments := db.runArguments ++ argumentRows runId position arguments } := by
  induction arguments generalizing db position with
  | nil =>
    obtain rfl := Except.ok.inj h
    rw [argumentRows, List.append_nil]
  | cons argument rest ih =>
    obtain ⟨-, h⟩ := ensure_bind_eq_ok_iff.mp h
    obtain ⟨db₁, hinsert, hrest⟩ := Except.bind_eq_ok_iff.mp h
    have hinsert := orDatabase_eq_ok_iff.mp hinsert
    simp only [Db.insertRunArgument, ensure_bind_eq_ok_iff] at hinsert
    obtain ⟨-, hinsert⟩ := hinsert
    obtain ⟨_, hrow, hdb⟩ := Except.bind_eq_ok_iff.mp hinsert
    obtain ⟨-, rfl⟩ := Db.insertRow_eq_ok_iff.mp hrow
    obtain rfl := Except.ok.inj hdb
    rw [ih hrest]
    simp only [argumentRows, List.append_assoc, List.singleton_append]

/-- The edge of a forked run is new, and leads to a checkpoint of another run of the table. -/
theorem insertParent_ok {db db' : Db} {run : Run} (h : insertParent db run = .ok db') :
    (run.parent = none ∧ db' = db) ∨ ∃ parent, run.parent = some parent ∧ run.id ≠ parent.runId
      ∧ (db.run? parent.runId).isSome
      ∧ (∃ c ∈ db.checkpoints, c.runId = parent.runId ∧ c.id = parent.checkpointId)
      ∧ run.id ∉ db.runParents.map (·.childRunId)
      ∧ db' = { db with
          runParents := db.runParents ++ [⟨run.id, parent.runId, parent.checkpointId⟩] } := by
  unfold insertParent at h
  rcases hparent : run.parent with _ | parent
  · rw [hparent] at h
    obtain rfl := Except.ok.inj h
    exact Or.inl ⟨rfl, rfl⟩
  · rw [hparent] at h
    have hinsert := orDatabase_eq_ok_iff.mp h
    simp only [Db.insertRunParent, ensure_bind_eq_ok_iff] at hinsert
    obtain ⟨hproper, -, hknown, hcheckpoint, hinsert⟩ := hinsert
    obtain ⟨_, hrow, hdb⟩ := Except.bind_eq_ok_iff.mp hinsert
    obtain ⟨hfresh, rfl⟩ := Db.insertRow_eq_ok_iff.mp hrow
    exact Or.inr ⟨parent, rfl, hproper, hknown, hcheckpoint, hfresh, (Except.ok.inj hdb).symm⟩

/-- The statements of a creation: the row, the arguments and the edge. -/
theorem createRun_statements {db db' : Db} {run : Run} (h : createRun db run = .ok db') :
    run.validate = .ok () ∧ run.status = .preparing ∧ run.id ∉ db.runs.map (·.id)
      ∧ db.checkRunRow (runRow run) = .ok ()
      ∧ insertParent { db with
          runs := db.runs ++ [runRow run]
          runArguments := db.runArguments ++ argumentRows run.id 0 run.arguments } run
            = .ok db' := by
  obtain ⟨_, hvalid, h⟩ := Except.bind_eq_ok_iff.mp h
  obtain ⟨hstatus, h⟩ := ensure_bind_eq_ok_iff.mp h
  obtain ⟨-, h⟩ := ensure_bind_eq_ok_iff.mp h
  obtain ⟨_, -, h⟩ := Except.bind_eq_ok_iff.mp h
  obtain ⟨_, -, h⟩ := Except.bind_eq_ok_iff.mp h
  obtain ⟨db₁, hrun, h⟩ := Except.bind_eq_ok_iff.mp h
  obtain ⟨db₂, harguments, hparent⟩ := Except.bind_eq_ok_iff.mp h
  obtain ⟨_, hchecked, hinsert⟩ := Except.bind_eq_ok_iff.mp (orDatabase_eq_ok_iff.mp hrun)
  obtain ⟨_, hrow, hdb⟩ := Except.bind_eq_ok_iff.mp hinsert
  obtain ⟨hfresh, rfl⟩ := Db.insertRow_eq_ok_iff.mp hrow
  obtain rfl := Except.ok.inj hdb
  obtain rfl := insertArguments_ok harguments
  exact ⟨Except.mapError_eq_ok_iff.mp hvalid, hstatus, hfresh, hchecked, hparent⟩

/-- A created run is new, preparing, and the only row the table gains. -/
theorem createRun_ok {db db' : Db} {run : Run} (h : createRun db run = .ok db') :
    run.validate = .ok () ∧ run.status = .preparing ∧ run.id ∉ db.runs.map (·.id)
      ∧ ∃ runArguments runParents,
          db' = { db with runs := db.runs ++ [runRow run], runArguments, runParents } := by
  obtain ⟨hvalid, hstatus, hfresh, -, hparent⟩ := createRun_statements h
  refine ⟨hvalid, hstatus, hfresh, ?_⟩
  rcases insertParent_ok hparent with ⟨-, rfl⟩ | ⟨parent, -, -, -, -, -, rfl⟩
  · exact ⟨_, db.runParents, rfl⟩
  · exact ⟨_, _, rfl⟩

theorem markRunRunning_ok {db db' : Db} {runId : RunId} {initialSnapshot : SnapshotId}
    (h : markRunRunning db runId initialSnapshot = .ok db') :
    (db.runs.filter (isPreparing runId)).length = 1
      ∧ db' = { db with
          runs := Table.update (isPreparing runId)
            (fun row => { row with
              status := .running
              initialSnapshotId := some initialSnapshot }) db.runs } := by
  obtain ⟨⟨db₁, changed⟩, hupdate, h⟩ := Except.bind_eq_ok_iff.mp h
  obtain ⟨rfl, rfl⟩ := Db.updateRuns_eq_ok (orDatabase_eq_ok_iff.mp hupdate)
  obtain ⟨hchanged, hdb⟩ := ensure_bind_eq_ok_iff.mp h
  exact ⟨hchanged, (Except.ok.inj hdb).symm⟩

theorem finishRunIn_ok {db db' : Db} {runId : RunId} {finish : RunFinish}
    (h : finishRunIn db runId finish = .ok db') :
    finish.status.isTerminal = true
      ∧ (∃ row, db.run? runId = some row ∧ row.status.canTransitionTo finish.status = true)
      ∧ db' = { db with
          runs := Table.update (fun row => row.id = runId) (finishedRow finish) db.runs } := by
  obtain ⟨hterminal, h⟩ := ensure_bind_eq_ok_iff.mp h
  obtain ⟨current, hcurrent, h⟩ := Except.bind_eq_ok_iff.mp h
  obtain ⟨htransition, h⟩ := ensure_bind_eq_ok_iff.mp h
  obtain ⟨_, -, h⟩ := Except.bind_eq_ok_iff.mp h
  obtain ⟨⟨db₁, changed⟩, hupdate, hdb⟩ := Except.bind_eq_ok_iff.mp h
  obtain ⟨rfl, -⟩ := Db.updateRuns_eq_ok (orDatabase_eq_ok_iff.mp hupdate)
  rcases hrun : db.run? runId with _ | row
  · rw [hrun] at hcurrent
    exact absurd hcurrent (by simp)
  · rw [hrun] at hcurrent
    obtain rfl := Except.ok.inj hcurrent
    exact ⟨hterminal, ⟨row, rfl, htransition⟩, (Except.ok.inj hdb).symm⟩

theorem checkTerminalEvent_ok {runId : RunId} {finish : RunFinish} {last : Event}
    (h : checkTerminalEvent runId finish last = .ok ()) :
    last.runId = runId ∧ last.payload = .runCompleted finish.status finish.exitStatus := by
  unfold checkTerminalEvent at h
  cases hpayload : last.payload <;> rw [hpayload] at h
  case runCompleted status exitStatus =>
    obtain ⟨hrun, rfl, rfl⟩ := ensure_eq_ok_iff.mp h
    exact ⟨hrun, rfl⟩
  all_goals exact absurd h (by simp)

/-- A finalization appends a batch that ends with the run's terminal event. -/
theorem finishRunWithEvents_ok {db db' : Db} {runId : RunId} {finish : RunFinish}
    {events : List Event} (h : finishRunWithEvents db runId finish events = .ok db') :
    ∃ init last db₁, events = init ++ [last] ∧ last.runId = runId
      ∧ last.payload = .runCompleted finish.status finish.exitStatus
      ∧ appendEventBatchIn db events = .ok db₁ ∧ finishRunIn db₁ runId finish = .ok db' := by
  obtain ⟨last, hlast, h⟩ := Except.bind_eq_ok_iff.mp h
  obtain ⟨_, hcheck, h⟩ := Except.bind_eq_ok_iff.mp h
  obtain ⟨db₁, happend, hfinish⟩ := Except.bind_eq_ok_iff.mp h
  obtain ⟨hrun, hpayload⟩ := checkTerminalEvent_ok hcheck
  rcases List.eq_nil_or_concat events with rfl | ⟨init, last', rfl⟩
  · exact absurd hlast (by simp)
  · rw [List.concat_eq_append] at hlast happend ⊢
    obtain rfl : last' = last := by
      rw [List.getLast?_append] at hlast
      simpa using hlast
    exact ⟨init, last', db₁, rfl, hrun, hpayload, happend, hfinish⟩

@[simp] theorem isActive_interruptedRow (db : Db) (recoveredAt : Timestamp) (row : RunRow) :
    isActive (interruptedRow db recoveredAt row) = false := rfl

theorem recoverRun_ok {recoveredAt : Timestamp} {db db' : Db} {runId : RunId}
    (h : recoverRun recoveredAt db runId = .ok db') :
    ∃ warning, db' = { db with
      runs := Table.update (fun row => row.id = runId ∧ isActive row)
        (interruptedRow db recoveredAt) db.runs
      warnings := db.warnings ++ [warning] } := by
  obtain ⟨⟨db₁, changed⟩, hupdate, hinsert⟩ := Except.bind_eq_ok_iff.mp h
  obtain ⟨rfl, -⟩ := Db.updateRuns_eq_ok (orDatabase_eq_ok_iff.mp hupdate)
  exact ⟨_, (Db.insertWarning_eq_ok_iff.mp (orDatabase_eq_ok_iff.mp hinsert)).2.2⟩

/-- The loop of the recovery: every active run it names becomes interrupted. -/
theorem foldlM_recoverRun_ok {recoveredAt : Timestamp} {db db' : Db} {runIds : List RunId}
    (h : runIds.foldlM (recoverRun recoveredAt) db = .ok db') :
    ∃ warnings, db' = { db with
      runs := Table.update (fun row => row.id ∈ runIds ∧ isActive row)
        (interruptedRow db recoveredAt) db.runs
      warnings := db.warnings ++ warnings } := by
  induction runIds generalizing db with
  | nil =>
    obtain rfl := Except.ok.inj h
    refine ⟨[], ?_⟩
    simp [Table.update]
  | cons runId rest ih =>
    obtain ⟨db₁, hfirst, hrest⟩ := List.foldlM_eq_ok_cons.mp h
    obtain ⟨warning, rfl⟩ := recoverRun_ok hfirst
    obtain ⟨warnings, rfl⟩ := ih hrest
    refine ⟨warning :: warnings, ?_⟩
    simp only [List.append_assoc, List.singleton_append, Db.mk.injEq, true_and, and_true]
    -- the loop writes no event, so that every iteration reads the same offsets
    change Table.update (fun row => row.id ∈ rest ∧ isActive row) (interruptedRow db recoveredAt)
      (Table.update (fun row => row.id = runId ∧ isActive row) (interruptedRow db recoveredAt)
        db.runs) = _
    rw [Table.update_update]
    · refine Table.update_congr fun row _ => ⟨?_, fun _ => rfl⟩
      by_cases hrow : row.id = runId <;> cases isActive row <;> simp [hrow]
    · intro row _ _
      simp

/-- **Recovery.**  Every active run becomes interrupted, every other row stays, and no event
is touched. -/
theorem markInterruptedRuns_ok {db db' : Db} {recoveredAt : Timestamp} {runIds : List RunId}
    (h : markInterruptedRuns db recoveredAt = .ok (db', runIds)) :
    runIds = activeRunIds db
      ∧ ∃ warnings, db' = { db with
          runs := Table.update isActive (interruptedRow db recoveredAt) db.runs
          warnings := db.warnings ++ warnings } := by
  obtain ⟨db₁, hloop, hpair⟩ := Except.bind_eq_ok_iff.mp h
  obtain ⟨rfl, rfl⟩ := Prod.mk.inj (Except.ok.inj hpair)
  obtain ⟨warnings, rfl⟩ := foldlM_recoverRun_ok hloop
  refine ⟨rfl, warnings, ?_⟩
  simp only [Db.mk.injEq, true_and, and_true]
  refine Table.update_congr fun row hrow => ⟨?_, fun _ => rfl⟩
  cases hactive : isActive row
  · simp
  · have hmem : row.id ∈ activeRunIds db := by
      rw [activeRunIds, List.mem_insertionSort]
      exact List.mem_map_of_mem (List.mem_filter.mpr ⟨hrow, hactive⟩)
    simp [hmem]

end Rewind

/-
Run records.

A run is spread over three tables: its row, its arguments, and the edge to its parent.  Identifiers
and enumerations are text there.  `load_run` reads one run; `list_runs` reads all of them in two
queries, and gathers the arguments by their owners.

* `RawRun.decode_rawRun` — the columns of a row are read back;
* `loadArgumentRows_ok` — one ordered query gathers the arguments of every run;
* `loadRun_createRun`, `SameRecord` — a run is what it was created as, until its life cycle goes on;
* **`run_records`** — both readers return the run, in any database the writer reaches.
-/
import Rewind.Domain.Spellings
import Rewind.Lib.SortedMap
import Rewind.Store.Ancestry
import Rewind.Store.Recovery

namespace Rewind

/-- Identifiers of runs compare as their UUIDs. -/
instance : LinearOrder RunId :=
  LinearOrder.lift' (fun id => id.uuid.bits.toNat) fun id id' h => by
    obtain ⟨⟨bits⟩⟩ := id
    obtain ⟨⟨bits'⟩⟩ := id'
    exact congrArg (fun bits => RunId.mk ⟨bits⟩) (BitVec.eq_of_toNat_eq h)

/-- `parse_id`. -/
def parseId {α : Type} (kind : String) (parse : String → Option α) (value : String) :
    StoreResult α := (parse value).elim (.error (.invalidIdentifier kind value)) .ok

/-- `parse_enum`. -/
def parseEnum {α : Type} (kind : String) (parse : String → Option α) (value : String) :
    StoreResult α := (parse value).elim (.error (.invalidEnum kind value)) .ok

def parseRunId (input : String) : Option RunId := (parseRecordId input).map RunId.mk

def parseBranchId (input : String) : Option BranchId := (parseRecordId input).map BranchId.mk

def parseCheckpointId (input : String) : Option CheckpointId :=
  (parseRecordId input).map CheckpointId.mk

/-! ### One row -/

/-- The columns of `run_select`; the text of a path is its bytes. -/
structure RawRun where
  id : String
  branchId : String
  parentRunId : Option String
  parentCheckpointId : Option String
  command : String
  workspaceRoot : Bytes
  startedUnixMs : Int64
  finishedUnixMs : Option Int64
  monotonicDurationNs : Option Nat
  status : String
  platform : String
  recordInput : String
  captureEnvironment : Bool
  initialSnapshotId : Option String
  finalSnapshotId : Option String
  exitKind : Option String
  exitValue : Option Int32

/-- `raw_run`: the text that the statements have written into the columns. -/
def rawRun (row : RunRow) (parent : Option RunParentRow) : RawRun where
  id := toString row.id
  branchId := toString row.branchId
  parentRunId := parent.map fun parent => toString parent.parentRunId
  parentCheckpointId := parent.map fun parent => toString parent.checkpointId
  command := row.command
  workspaceRoot := row.workspaceRoot
  startedUnixMs := row.startedUnixMs
  finishedUnixMs := row.finishedUnixMs
  monotonicDurationNs := row.monotonicDurationNs
  status := row.status.asStr
  platform := row.platform.asStr
  recordInput := row.recordInput.asStr
  captureEnvironment := row.captureEnvironment
  initialSnapshotId := row.initialSnapshotId.map toString
  finalSnapshotId := row.finalSnapshotId.map toString
  exitKind := row.exitKind.map ExitKind.asStr
  exitValue := row.exitValue

namespace RawRun

/-- `decode_exit_status`, on the text of the kind. -/
def decodeExitStatus (kind : Option String) (value : Option Int32) :
    StoreResult (Option ProcessExitStatus) :=
  match kind, value with
  | none, none => .ok none
  | some "code", some value => .ok (some (.code value))
  | some "signal", some value => .ok (some (.signal value))
  | some "unknown", none => .ok (some .unknown)
  | _, _ => .error (.invalidEnum "process exit status"
      s!"kind={debugText kind}, value={debugNumber value}")

/-- The parent of a run: both of its columns are filled, or none is. -/
def decodeParent (raw : RawRun) : StoreResult (Option RunParent) :=
  match raw.parentRunId, raw.parentCheckpointId with
  | some runId, some checkpointId => do
    let runId ← parseId "parent run ID" parseRunId runId
    let checkpointId ← parseId "parent checkpoint ID" parseCheckpointId checkpointId
    return some ⟨runId, checkpointId⟩
  | none, none => .ok none
  | _, _ => .error (.invalidRun raw.id "parent relationship is incomplete")

/-- `decode_run`. -/
def decode (raw : RawRun) (arguments : List String) : StoreResult Run := do
  let id ← parseId "run ID" parseRunId raw.id
  let parent ← raw.decodeParent
  let duration ← raw.monotonicDurationNs.mapM (decodeU64 "run monotonic duration")
  let branchId ← parseId "branch ID" parseBranchId raw.branchId
  let status ← parseEnum "run status" RunStatus.fromStr raw.status
  let platform ← parseEnum "platform" Platform.fromStr raw.platform
  let recordInput ←
    parseEnum "input recording policy" InputRecordingPolicy.fromStr raw.recordInput
  let initialSnapshot ←
    raw.initialSnapshotId.mapM (parseId "initial snapshot ID" parseSnapshotId)
  let finalSnapshot ← raw.finalSnapshotId.mapM (parseId "final snapshot ID" parseSnapshotId)
  let exitStatus ← decodeExitStatus raw.exitKind raw.exitValue
  let run : Run :=
    { id
      branchId
      parent
      command := raw.command
      arguments
      workspaceRoot := raw.workspaceRoot
      startedAt := ⟨raw.startedUnixMs⟩
      finishedAt := raw.finishedUnixMs.map (⟨·⟩)
      monotonicDuration := duration.map (⟨·⟩)
      status
      platform
      capturePolicy := ⟨recordInput, raw.captureEnvironment⟩
      initialSnapshot
      finalSnapshot
      exitStatus }
  run.validate.mapError fun source => .invalidRun (toString run.id) (toString source)
  return run

end RawRun

/-! ### The two readers -/

/-- The map of arguments by their owners. -/
abbrev ArgumentMap := SortedMap RunId (List String)

/-- The arguments of a run, none where the map has no entry. -/
def ArgumentMap.of (arguments : ArgumentMap) (id : RunId) : List String :=
  (arguments.get? id).getD []

/-- The loop of `load_arguments` over the rows of its query. -/
def loadArgumentRows : ArgumentMap → List RunArgumentRow → StoreResult ArgumentMap
  | arguments, [] => .ok arguments
  | arguments, row :: rest => do
    let id ← parseId "run ID" parseRunId (toString row.runId)
    let values := arguments.of id
    ensure (row.position = values.length)
      (.invalidRun (toString row.runId)
        s!"argument position {row.position} followed {values.length}")
    loadArgumentRows (arguments.insert id (values ++ [row.value])) rest

/-- The text of an identifier, which the database compares byte by byte. -/
def RunId.text (id : RunId) : Bytes := utf8 (toString id)

/-- `ORDER BY run_id, position`. -/
def argumentOrder (row row' : RunArgumentRow) : Prop :=
  row.runId.text < row'.runId.text
    ∨ (row.runId.text = row'.runId.text ∧ row.position ≤ row'.position)

instance : DecidableRel argumentOrder := fun _ _ => inferInstanceAs (Decidable (_ ∨ _))

/-- The query of `load_arguments`, for one run or for all of them. -/
def queryArguments (db : Db) : Option RunId → List RunArgumentRow
  | some id => (db.runArguments.filter fun row => row.runId = id).insertionSort argumentOrder
  | none => db.runArguments.insertionSort argumentOrder

/-- `load_arguments`. -/
def loadRunArguments (db : Db) (runId : Option RunId) : StoreResult ArgumentMap :=
  loadArgumentRows .empty (queryArguments db runId)

/-- `LEFT JOIN run_parents ON run_parents.child_run_id = runs.id`. -/
def joinedRun (db : Db) (row : RunRow) : RawRun :=
  rawRun row (Table.find (·.childRunId) db.runParents row.id)

/-- `load_run`. -/
def loadRunRecord (db : Db) (runId : RunId) : StoreResult Run := do
  let row ← (db.run? runId).elim (.error (.notFound "run" (toString runId))) .ok
  let arguments ← loadRunArguments db (some runId)
  (joinedRun db row).decode (arguments.of runId)

/-- `ORDER BY runs.started_unix_ms DESC, runs.id DESC`. -/
def newestFirst (row row' : RunRow) : Prop :=
  row'.startedUnixMs < row.startedUnixMs
    ∨ (row'.startedUnixMs = row.startedUnixMs ∧ row'.id.text ≤ row.id.text)

instance : DecidableRel newestFirst := fun _ _ => inferInstanceAs (Decidable (_ ∨ _))

/-- The runs of a listing; each of them takes its arguments out of the map. -/
def decodeListed : ArgumentMap → List RawRun → StoreResult (List Run)
  | _, [] => .ok []
  | arguments, raw :: rest => do
    let runId ← parseId "run ID" parseRunId raw.id
    let run ← raw.decode (arguments.of runId)
    let runs ← decodeListed (arguments.erase runId) rest
    return run :: runs

/-- `list_runs`. -/
def listRuns (db : Db) : StoreResult (List Run) := do
  let arguments ← loadRunArguments db none
  decodeListed arguments ((db.runs.insertionSort newestFirst).map (joinedRun db))

/-! ### Identifiers of version 7 -/

/-- The identifiers of a run: no other can be built. -/
structure Run.Canonical (run : Run) : Prop where
  id : run.id.uuid.version = 7
  branchId : run.branchId.uuid.version = 7
  parent : ∀ parent ∈ run.parent,
    parent.runId.uuid.version = 7 ∧ parent.checkpointId.uuid.version = 7

/-- The runs that an operation creates have identifiers of version 7. -/
def Op.Canonical (op : Op) : Prop := ∀ run, op = .createRun run → run.Canonical

/-- The identifiers in the tables of runs. -/
structure Db.Canonical (db : Db) : Prop where
  runs : ∀ row ∈ db.runs, row.id.uuid.version = 7 ∧ row.branchId.uuid.version = 7
  parents : ∀ row ∈ db.runParents,
    row.parentRunId.uuid.version = 7 ∧ row.checkpointId.uuid.version = 7

section Parsing

variable {kind : String} {id : RunId}

theorem parseRunId_toString (h : id.uuid.version = 7) :
    parseId kind parseRunId (toString id) = .ok id := by
  have hparse : parseRecordId (toString id) = some id.uuid := parseRecordId_eq_some_iff.mpr ⟨rfl, h⟩
  rw [parseId, parseRunId, hparse]
  rfl

theorem parseBranchId_toString {id : BranchId} (h : id.uuid.version = 7) :
    parseId kind parseBranchId (toString id) = .ok id := by
  have hparse : parseRecordId (toString id) = some id.uuid := parseRecordId_eq_some_iff.mpr ⟨rfl, h⟩
  rw [parseId, parseBranchId, hparse]
  rfl

theorem parseCheckpointId_toString {id : CheckpointId} (h : id.uuid.version = 7) :
    parseId kind parseCheckpointId (toString id) = .ok id := by
  have hparse : parseRecordId (toString id) = some id.uuid := parseRecordId_eq_some_iff.mpr ⟨rfl, h⟩
  rw [parseId, parseCheckpointId, hparse]
  rfl

theorem parseEnum_asStr {α : Type} {parse : String → Option α} {asStr : α → String}
    (h : ∀ value, parse (asStr value) = some value) (value : α) :
    parseEnum kind parse (asStr value) = .ok value := by
  rw [parseEnum, h]
  rfl

theorem parseSnapshotIds (id : Option SnapshotId) :
    (id.map toString).mapM (parseId kind parseSnapshotId) = .ok id := by
  rcases id with _ | id
  · rfl
  · have hparse : parseSnapshotId (toString id) = some id := parseSnapshotId_eq_some_iff.mpr rfl
    show (some <$> parseId kind parseSnapshotId (toString id)) = _
    rw [parseId, hparse]
    rfl

end Parsing

theorem decodeExitStatus_asStr (kind : Option ExitKind) (value : Option Int32) :
    RawRun.decodeExitStatus (kind.map ExitKind.asStr) value = decodeExitStatus kind value := by
  rcases kind with _ | (_ | _ | _) <;> rcases value with _ | value <;> rfl

theorem decodeParent_rawRun {row : RunRow} {parent : Option RunParentRow}
    (h : ∀ edge ∈ parent, edge.parentRunId.uuid.version = 7 ∧ edge.checkpointId.uuid.version = 7) :
    (rawRun row parent).decodeParent
      = .ok (parent.map fun parent => ⟨parent.parentRunId, parent.checkpointId⟩) := by
  rcases parent with _ | edge
  · rfl
  · obtain ⟨hrun, hcheckpoint⟩ := h edge rfl
    simp only [RawRun.decodeParent, rawRun, Option.map_some, parseRunId_toString hrun,
      parseCheckpointId_toString hcheckpoint]
    rfl

/-- The text of a row decodes as the row itself does. -/
theorem RawRun.decode_rawRun {row : RunRow} {parent : Option RunParentRow}
    (hid : row.id.uuid.version = 7) (hbranch : row.branchId.uuid.version = 7)
    (hparent : ∀ edge ∈ parent,
      edge.parentRunId.uuid.version = 7 ∧ edge.checkpointId.uuid.version = 7)
    (arguments : List String) :
    (rawRun row parent).decode arguments = decodeRun row parent arguments := by
  have hbind : ∀ {α β : Type} (a : α) (f : α → StoreResult β), (Except.ok a >>= f) = f a :=
    fun _ _ => rfl
  unfold RawRun.decode
  rw [decodeParent_rawRun hparent]
  simp only [rawRun, parseRunId_toString hid, parseBranchId_toString hbranch,
    parseEnum_asStr RunStatus.fromStr_asStr, parseEnum_asStr Platform.fromStr_asStr,
    parseEnum_asStr InputRecordingPolicy.fromStr_asStr, parseSnapshotIds, hbind,
    decodeExitStatus_asStr]
  rfl

/-! ### What an operation does to the records -/

/-- The operations that carry on the life cycle of a run. -/
def Op.Advances (id : RunId) : Op → Prop
  | .markRunRunning runId _ | .finishRun runId _ | .finishRunWithEvents runId _ _ => runId = id
  | .commitCheckpoint checkpoint _ | .commitCheckpointWithEvent checkpoint _ _ =>
    checkpoint.runId = id ∧ (checkpoint.reason = .initial ∨ checkpoint.reason = .final)
  | .markInterruptedRuns _ => True
  | .createRun _ | .appendEventBatch _ | .storeSnapshot _ _ | .recordObject _ _ | .deleteObject _ =>
    False

/-- Arguments and edges stay; a row stays too, unless `advances` holds of its run. -/
structure RecordsUpdated (advances : RunId → Prop) (db db' : Db) : Prop where
  arguments : db'.runArguments = db.runArguments
  parents : db'.runParents = db.runParents
  runs : ∃ p f, db'.runs = Table.update p f db.runs
    ∧ (∀ row, (f row).id = row.id ∧ (f row).branchId = row.branchId)
    ∧ ∀ row, p row = true → advances row.id

theorem RecordsUpdated.of_eq {advances : RunId → Prop} {db db' : Db}
    (harguments : db'.runArguments = db.runArguments) (hparents : db'.runParents = db.runParents)
    (hruns : db'.runs = db.runs) : RecordsUpdated advances db db' := by
  refine ⟨harguments, hparents, fun _ => false, id, ?_, fun _ => ⟨rfl, rfl⟩, fun _ h => ?_⟩
  · simp [hruns, Table.update]
  · exact absurd h (by simp)

theorem recordsUpdated_finishRunIn {db db' : Db} {runId : RunId} {finish : RunFinish}
    (h : finishRunIn db runId finish = .ok db') :
    RecordsUpdated (fun id => runId = id) db db' := by
  obtain ⟨-, -, rfl⟩ := finishRunIn_ok h
  exact ⟨rfl, rfl, _, _, rfl, fun _ => ⟨rfl, rfl⟩, fun _ hrow => (of_decide_eq_true hrow).symm⟩

theorem recordsUpdated_checkpoint {codecs : Codecs} {db db' : Db} {checkpoint : Checkpoint}
    {snapshot : Snapshot} (h : commitCheckpointIn codecs db checkpoint snapshot = .ok db') :
    RecordsUpdated (fun id => checkpoint.runId = id
      ∧ (checkpoint.reason = .initial ∨ checkpoint.reason = .final)) db db' := by
  obtain ⟨db₁, hstore, -, -, -, rfl⟩ := commitCheckpointIn_ok h
  obtain ⟨snapshots, snapshotEntries, rfl⟩ := storeSnapshotIn_frame hstore
  cases hreason : checkpoint.reason
  case initial =>
    refine ⟨rfl, rfl, _, _, linkedRuns_initial hreason db.runs, fun _ => ⟨rfl, rfl⟩, ?_⟩
    intro row hrow
    exact ⟨(of_decide_eq_true hrow).1.symm, Or.inl rfl⟩
  case final =>
    refine ⟨rfl, rfl, _, _, linkedRuns_final hreason db.runs, fun _ => ⟨rfl, rfl⟩, ?_⟩
    intro row hrow
    exact ⟨(of_decide_eq_true hrow).1.symm, Or.inr rfl⟩
  all_goals
    refine RecordsUpdated.of_eq rfl rfl ?_
    simp only [linkedRuns, hreason]

/-- An operation creates a run, or updates the rows of the runs that it advances. -/
theorem exec_records {codecs : Codecs} {db db' : Db} {op : Op} (h : op.exec codecs db = .ok db') :
    (∃ run, op = .createRun run ∧ createRun db run = .ok db')
      ∨ RecordsUpdated (fun id => op.Advances id) db db' := by
  cases op with
  | createRun run => exact Or.inl ⟨run, rfl, h⟩
  | markRunRunning runId initialSnapshot =>
    obtain ⟨-, rfl⟩ := markRunRunning_ok h
    refine Or.inr ⟨rfl, rfl, _, _, rfl, fun _ => ⟨rfl, rfl⟩, fun _ hrow => ?_⟩
    exact (of_decide_eq_true hrow).1.symm
  | appendEventBatch events =>
    obtain ⟨rfl, -⟩ := appendEventBatchIn_ok h
    exact Or.inr (RecordsUpdated.of_eq rfl rfl rfl)
  | storeSnapshot snapshot createdAt =>
    obtain ⟨snapshots, snapshotEntries, rfl⟩ := storeSnapshotIn_frame (storeSnapshot_ok h).2
    exact Or.inr (RecordsUpdated.of_eq rfl rfl rfl)
  | commitCheckpoint checkpoint snapshot =>
    exact Or.inr (recordsUpdated_checkpoint (commitCheckpoint_ok h).2)
  | commitCheckpointWithEvent checkpoint snapshot event =>
    obtain ⟨-, -, db₁, hcommit, happend⟩ := commitCheckpointWithEvent_ok h
    obtain ⟨rfl, -⟩ := appendEventBatchIn_ok happend
    -- the event leaves the tables of runs as the checkpoint has left them
    obtain ⟨harguments, hparents, hruns⟩ := recordsUpdated_checkpoint hcommit
    exact Or.inr ⟨harguments, hparents, hruns⟩
  | finishRun runId finish => exact Or.inr (recordsUpdated_finishRunIn h)
  | finishRunWithEvents runId finish events =>
    obtain ⟨_, _, db₁, -, -, -, happend, hfinish⟩ := finishRunWithEvents_ok h
    obtain ⟨rfl, -⟩ := appendEventBatchIn_ok happend
    obtain ⟨harguments, hparents, hruns⟩ := recordsUpdated_finishRunIn hfinish
    exact Or.inr ⟨harguments, hparents, hruns⟩
  | markInterruptedRuns recoveredAt =>
    rcases hrecover : Rewind.markInterruptedRuns db recoveredAt with error | ⟨db₁, runIds⟩
    · rw [Op.exec, hrecover] at h
      exact absurd h (by simp [Except.map])
    · rw [Op.exec, hrecover] at h
      obtain rfl := Except.ok.inj h
      obtain ⟨-, warnings, rfl⟩ := markInterruptedRuns_ok hrecover
      exact Or.inr ⟨rfl, rfl, _, _, rfl, fun _ => ⟨rfl, rfl⟩, fun _ _ => trivial⟩
  | recordObject stored createdUnixMs =>
    obtain ⟨row, -, -, -, rfl, -⟩ := recordObject_ok h
    obtain ⟨rows, -, hrows⟩ := Db.insertObject_frame _ row
    rw [hrows]
    exact Or.inr (RecordsUpdated.of_eq rfl rfl rfl)
  | deleteObject id =>
    obtain ⟨-, rfl⟩ := deleteObjectRow_ok h
    exact Or.inr (RecordsUpdated.of_eq rfl rfl rfl)

/-- The tables after a creation. -/
theorem createRun_records {db db' : Db} {run : Run} (h : createRun db run = .ok db') :
    run.id ∉ db.runs.map (·.id) ∧ db'.runs = db.runs ++ [runRow run]
      ∧ db'.runArguments = db.runArguments ++ argumentRows run.id 0 run.arguments
      ∧ db'.runParents = db.runParents ++ (run.parent.map fun parent =>
          (⟨run.id, parent.runId, parent.checkpointId⟩ : RunParentRow)).toList := by
  obtain ⟨-, -, hfresh, -, hparent⟩ := createRun_statements h
  rcases insertParent_ok hparent with ⟨hnone, rfl⟩ | ⟨parent, hsome, -, -, -, -, rfl⟩
  · rw [hnone]
    exact ⟨hfresh, rfl, rfl, (List.append_nil _).symm⟩
  · rw [hsome]
    exact ⟨hfresh, rfl, rfl, rfl⟩

theorem canonical_createRun {db db' : Db} {run : Run} (h : createRun db run = .ok db')
    (hrun : run.Canonical) (hdb : db.Canonical) : db'.Canonical := by
  obtain ⟨-, hruns, -, hparents⟩ := createRun_records h
  refine ⟨fun row hrow => ?_, fun row hrow => ?_⟩
  · rw [hruns] at hrow
    rcases List.mem_append.mp hrow with hold | hnew
    · exact hdb.runs row hold
    · obtain rfl := List.mem_singleton.mp hnew
      exact ⟨hrun.id, hrun.branchId⟩
  · rw [hparents] at hrow
    rcases List.mem_append.mp hrow with hold | hnew
    · exact hdb.parents row hold
    · obtain ⟨parent, hparent, rfl⟩ := Option.map_eq_some_iff.mp (Option.mem_toList.mp hnew)
      exact hrun.parent parent hparent

/-- A created run brings identifiers of version 7; the other operations bring none. -/
theorem canonical_step {codecs : Codecs} {db : Db} {request : Request}
    (hop : request.op.Canonical) (hdb : db.Canonical) : (step codecs db request).Canonical := by
  rcases step_cases codecs db request with hsame | ⟨-, hexec⟩
  · rw [hsame]
    exact hdb
  · rcases exec_records hexec with ⟨run, hcreate, h⟩ | ⟨-, hparents, p, f, hruns, hf, -⟩
    · exact canonical_createRun h (hop run hcreate) hdb
    · refine ⟨fun row hrow => ?_, fun row hrow => ?_⟩
      · rw [hruns] at hrow
        obtain ⟨row, hold, rfl⟩ := List.mem_map.mp hrow
        cases hp : p row
        · exact hdb.runs row hold
        · show (f row).id.uuid.version = 7 ∧ (f row).branchId.uuid.version = 7
          rw [(hf row).1, (hf row).2]
          exact hdb.runs row hold
      · rw [hparents] at hrow
        exact hdb.parents row hrow

theorem canonical_run {codecs : Codecs} {db : Db} {requests : List Request}
    (hops : ∀ request ∈ requests, request.op.Canonical) (hdb : db.Canonical) :
    (Machine.run (step codecs) db requests).Canonical :=
  Machine.run_invariant_of_legal (fun _ _ => canonical_step) hops hdb

theorem canonical_empty : Db.empty.Canonical where
  runs := fun _ h => absurd h List.not_mem_nil
  parents := fun _ h => absurd h List.not_mem_nil

/-! ### The arguments of all runs -/

theorem ArgumentMap.of_insert_self (arguments : ArgumentMap) (id : RunId) (values : List String) :
    ArgumentMap.of (arguments.insert id values) id = values := by
  rw [ArgumentMap.of, SortedMap.get?_insert_self]
  rfl

theorem ArgumentMap.of_insert_of_ne (arguments : ArgumentMap) {id id' : RunId}
    (values : List String) (h : id' ≠ id) :
    ArgumentMap.of (arguments.insert id values) id' = arguments.of id' := by
  rw [ArgumentMap.of, SortedMap.get?_insert_of_ne _ _ h]
  rfl

/-- Where the positions of each run follow those of the map, every row goes to its owner. -/
theorem loadArgumentRows_ok {rows : List RunArgumentRow} {arguments : ArgumentMap}
    (hids : ∀ row ∈ rows, row.runId.uuid.version = 7)
    (hpositions : ∀ id, ∃ count, (rows.filter fun row => row.runId = id).map (·.position)
      = List.range' (arguments.of id).length count) :
    ∃ arguments' : ArgumentMap, loadArgumentRows arguments rows = .ok arguments'
      ∧ ∀ id, arguments'.of id
          = arguments.of id ++ (rows.filter fun row => row.runId = id).map (·.value) := by
  induction rows generalizing arguments with
  | nil => exact ⟨arguments, rfl, fun id => by simp⟩
  | cons row rest ih =>
    obtain ⟨hid, hrest⟩ := List.forall_mem_cons.mp hids
    have hhead : row.position = (arguments.of row.runId).length := by
      obtain ⟨count, h⟩ := hpositions row.runId
      rw [List.filter_cons_of_pos (by simp), List.map_cons] at h
      rcases count with _ | count
      · exact absurd h (by simp)
      · rw [List.range'_succ, List.cons.injEq] at h
        exact h.1
    have hnext : ∀ id, ∃ count, (rest.filter fun row => row.runId = id).map (·.position)
        = List.range' (ArgumentMap.of (arguments.insert row.runId
            (arguments.of row.runId ++ [row.value])) id).length count := by
      intro id
      obtain ⟨count, h⟩ := hpositions id
      by_cases hown : row.runId = id
      · subst hown
        rw [List.filter_cons_of_pos (by simp), List.map_cons] at h
        rcases count with _ | count
        · exact absurd h (by simp)
        · rw [List.range'_succ, List.cons.injEq] at h
          refine ⟨count, ?_⟩
          rw [ArgumentMap.of_insert_self, List.length_append]
          exact h.2
      · rw [List.filter_cons_of_neg (by simpa using hown)] at h
        refine ⟨count, ?_⟩
        rw [ArgumentMap.of_insert_of_ne _ _ (Ne.symm hown)]
        exact h
    obtain ⟨arguments', hload, hof⟩ := ih hrest hnext
    refine ⟨arguments', ?_, fun id => ?_⟩
    · rw [loadArgumentRows, parseRunId_toString hid]
      exact ensure_bind_eq_ok_iff.mpr ⟨hhead, hload⟩
    · rw [hof id]
      by_cases hown : row.runId = id
      · subst hown
        rw [ArgumentMap.of_insert_self, List.filter_cons_of_pos (by simp), List.map_cons,
          List.append_assoc, List.singleton_append]
      · rw [ArgumentMap.of_insert_of_ne _ _ (Ne.symm hown),
          List.filter_cons_of_neg (by simpa using hown)]

instance : Std.Total argumentOrder := ⟨fun row row' => by
  unfold argumentOrder
  rcases lt_trichotomy row.runId.text row'.runId.text with h | h | h
  · exact Or.inl (Or.inl h)
  · rcases Nat.le_total row.position row'.position with hle | hle
    · exact Or.inl (Or.inr ⟨h, hle⟩)
    · exact Or.inr (Or.inr ⟨h.symm, hle⟩)
  · exact Or.inr (Or.inl h)⟩

instance : IsTrans RunArgumentRow argumentOrder := ⟨fun row row' row'' h h' => by
  rcases h with h | ⟨heq, hle⟩
  · rcases h' with h' | ⟨heq', -⟩
    · exact Or.inl (h.trans h')
    · exact Or.inl (h.trans_eq heq')
  · rcases h' with h' | ⟨heq', hle'⟩
    · exact Or.inl (heq.trans_lt h')
    · exact Or.inr ⟨heq.trans heq', hle.trans hle'⟩⟩

/-- Sorting brings the arguments of one run nowhere else: they are in order already. -/
theorem filter_insertionSort {rows : List RunArgumentRow} {id : RunId} {count : Nat}
    (h : (rows.filter fun row => row.runId = id).map (·.position) = List.range' 0 count) :
    (rows.insertionSort argumentOrder).filter (fun row => row.runId = id)
      = rows.filter fun row => row.runId = id := by
  have hpositions : ((rows.filter fun row => row.runId = id).map (·.position)).Pairwise
    (· < ·) := by
    rw [h]
    exact List.pairwise_lt_range'
  have hstrict := List.pairwise_map.mp hpositions
  have hperm := (List.perm_insertionSort argumentOrder rows).filter fun row => row.runId = id
  have hsorted : ((rows.insertionSort argumentOrder).filter fun row => row.runId = id).Pairwise
      fun row row' => row.position ≤ row'.position := by
    refine List.Pairwise.imp_of_mem (fun hrow hrow' hle => ?_)
      ((List.pairwise_insertionSort argumentOrder rows).filter _)
    have hown := of_decide_eq_true (List.mem_filter.mp hrow).2
    have hown' := of_decide_eq_true (List.mem_filter.mp hrow').2
    rcases hle with hless | ⟨-, hle⟩
    · rw [hown, hown'] at hless
      exact absurd hless (lt_irrefl _)
    · exact hle
  have hinjective : ∀ row ∈ rows.filter (fun row => row.runId = id),
      ∀ row' ∈ rows.filter (fun row => row.runId = id), row.position = row'.position
        → row = row' := by
    intro row hrow row' hrow' hsame
    exact List.inj_on_of_nodup_map (hpositions.imp fun hlt => ne_of_lt hlt) hrow hrow' hsame
  refine List.Perm.eq_of_pairwise (fun row row' hrow hrow' hle hle' => ?_) hsorted
    (hstrict.imp Nat.le_of_lt) hperm
  exact hinjective row (hperm.mem_iff.mp hrow) row' hrow' (Nat.le_antisymm hle hle')

/-! ### What the readers return -/

/-- What a decoded run has of its row. -/
theorem decodeRun_fields {row : RunRow} {edge : Option RunParentRow} {arguments : List String}
    {run : Run} (h : decodeRun row edge arguments = .ok run) :
    run.id = row.id ∧ run.startedAt.unixMilliseconds = row.startedUnixMs := by
  obtain ⟨duration, -, h⟩ := Except.bind_eq_ok_iff.mp h
  obtain ⟨exitStatus, -, h⟩ := Except.bind_eq_ok_iff.mp h
  obtain ⟨_, -, h⟩ := Except.bind_eq_ok_iff.mp h
  obtain rfl := Except.ok.inj h
  exact ⟨rfl, rfl⟩

/-- What both readers rely on. -/
structure Db.Readable (db : Db) : Prop where
  runs : db.RunsReadable
  canonical : db.Canonical

namespace Db.Readable

variable {db : Db} (hdb : db.Readable)

include hdb

theorem argumentIds : ∀ row ∈ db.runArguments, row.runId.uuid.version = 7 := by
  intro row hrow
  obtain ⟨owner, howner, hid⟩ := List.mem_map.mp (hdb.runs.argumentsOwned row hrow)
  rw [← hid]
  exact (hdb.canonical.runs owner howner).1

/-- The query for all runs gathers the arguments of each. -/
theorem loadAllArguments : ∃ arguments, loadRunArguments db none = .ok arguments
    ∧ ∀ id, arguments.of id
        = (db.runArguments.filter fun row => row.runId = id).map (·.value) := by
  have hfilter : ∀ id, (queryArguments db none).filter (fun row => row.runId = id)
      = db.runArguments.filter fun row => row.runId = id := by
    intro id
    obtain ⟨count, hcount⟩ := hdb.runs.arguments id
    exact filter_insertionSort hcount
  obtain ⟨arguments, hload, hof⟩ := @loadArgumentRows_ok (queryArguments db none) .empty
    (fun row hrow => hdb.argumentIds row ((List.mem_insertionSort argumentOrder).mp hrow))
    (fun id => by
      rw [hfilter id]
      exact hdb.runs.arguments id)
  refine ⟨arguments, hload, fun id => ?_⟩
  rw [hof id, hfilter id]
  rfl

/-- The query for one run gathers its arguments. -/
theorem loadOwnArguments (id : RunId) : ∃ arguments, loadRunArguments db (some id) = .ok arguments
    ∧ arguments.of id
        = (db.runArguments.filter fun row => row.runId = id).map (·.value) := by
  have hown : (db.runArguments.filter fun row => row.runId = id).filter
      (fun row => row.runId = id) = db.runArguments.filter fun row => row.runId = id := by
    rw [List.filter_filter]
    simp
  have hother : ∀ id', id' ≠ id → (db.runArguments.filter fun row => row.runId = id).filter
      (fun row => row.runId = id') = [] := by
    intro id' hne
    rw [List.filter_eq_nil_iff]
    intro row hrow hsame
    exact hne ((of_decide_eq_true hsame).symm.trans (of_decide_eq_true (List.mem_filter.mp hrow).2))
  have hcounts : ∀ id', ∃ count, ((db.runArguments.filter fun row => row.runId = id).filter
      fun row => row.runId = id').map (·.position) = List.range' 0 count := by
    intro id'
    by_cases hid : id' = id
    · rw [hid, hown]
      exact hdb.runs.arguments id
    · exact ⟨0, by rw [hother id' hid]; rfl⟩
  have hfilter : ∀ id', (queryArguments db (some id)).filter (fun row => row.runId = id')
      = (db.runArguments.filter fun row => row.runId = id).filter fun row => row.runId = id' := by
    intro id'
    obtain ⟨count, hcount⟩ := hcounts id'
    exact filter_insertionSort hcount
  obtain ⟨arguments, hload, hof⟩ := @loadArgumentRows_ok (queryArguments db (some id)) .empty
    (fun row hrow => hdb.argumentIds row
      (List.mem_filter.mp ((List.mem_insertionSort argumentOrder).mp hrow)).1)
    (fun id' => by
      rw [hfilter id']
      exact hcounts id')
  refine ⟨arguments, hload, ?_⟩
  rw [hof id, hfilter id, hown]
  rfl

/-- The row of a run decodes, with its arguments, as the row itself does. -/
theorem decode_joinedRun {row : RunRow} (hrow : row ∈ db.runs) (arguments : List String) :
    (joinedRun db row).decode arguments
      = decodeRun row (Table.find (·.childRunId) db.runParents row.id) arguments := by
  obtain ⟨hid, hbranch⟩ := hdb.canonical.runs row hrow
  refine RawRun.decode_rawRun hid hbranch (fun edge hedge => ?_) arguments
  exact hdb.canonical.parents edge (Table.mem_of_find _ hedge)

/-- `load_run` reads the row of the run, its edge and its arguments. -/
theorem loadRunRecord_eq {row : RunRow} (hrow : row ∈ db.runs) :
    loadRunRecord db row.id
      = decodeRun row (Table.find (·.childRunId) db.runParents row.id)
          ((db.runArguments.filter fun argument => argument.runId = row.id).map (·.value)) := by
  have hfind : db.run? row.id = some row := Table.find_of_mem _ hdb.runs.ids hrow
  obtain ⟨arguments, hload, hof⟩ := hdb.loadOwnArguments row.id
  rw [← hof, ← hdb.decode_joinedRun hrow, loadRunRecord, hfind, hload]
  simp only [Option.elim_some, Bind.bind, Except.bind]

/-- The text of the columns makes no difference to `load_run`. -/
theorem loadRunRecord_eq_loadRun {row : RunRow} (hrow : row ∈ db.runs) :
    loadRunRecord db row.id = loadRun db row.id := by
  have hfind : db.run? row.id = some row := Table.find_of_mem _ hdb.runs.ids hrow
  obtain ⟨count, hpositions⟩ := hdb.runs.arguments row.id
  rw [hdb.loadRunRecord_eq hrow, loadRun, hfind, sorted_of_range' hpositions,
    loadArguments_ok hpositions, List.nil_append]
  simp only [Option.elim_some, Bind.bind, Except.bind]

theorem exists_loadRunRecord {row : RunRow} (hrow : row ∈ db.runs) :
    ∃ run, loadRunRecord db row.id = .ok run := by
  rw [hdb.loadRunRecord_eq_loadRun hrow]
  exact hdb.runs.loadRun hrow

theorem fields_of_loadRunRecord {row : RunRow} {run : Run} (hrow : row ∈ db.runs)
    (h : loadRunRecord db row.id = .ok run) :
    run.id = row.id ∧ run.startedAt.unixMilliseconds = row.startedUnixMs := by
  rw [hdb.loadRunRecord_eq hrow] at h
  exact decodeRun_fields h

/-- A listing has the runs of its rows, as `load_run` returns them. -/
theorem decodeListed_ok {rows : List RunRow} {arguments : ArgumentMap}
    (hrows : ∀ row ∈ rows, row ∈ db.runs) (hnodup : (rows.map (·.id)).Nodup)
    (hof : ∀ row ∈ rows, arguments.of row.id
      = (db.runArguments.filter fun argument => argument.runId = row.id).map (·.value)) :
    ∃ runs, decodeListed arguments (rows.map (joinedRun db)) = .ok runs
      ∧ List.Forall₂ (fun row run => row ∈ db.runs ∧ loadRunRecord db row.id = .ok run) rows
        runs := by
  induction rows generalizing arguments with
  | nil => exact ⟨[], rfl, .nil⟩
  | cons row rest ih =>
    obtain ⟨hrow, hrest⟩ := List.forall_mem_cons.mp hrows
    obtain ⟨hvalues, hothers⟩ := List.forall_mem_cons.mp hof
    rw [List.map_cons, List.nodup_cons] at hnodup
    obtain ⟨run, hrun⟩ := hdb.exists_loadRunRecord hrow
    have hdecode : (joinedRun db row).decode (arguments.of row.id) = .ok run := by
      rw [hvalues, hdb.decode_joinedRun hrow, ← hdb.loadRunRecord_eq hrow]
      exact hrun
    -- what the row takes out of the map, no other row asks for
    obtain ⟨runs, hruns, hpairs⟩ := @ih (arguments.erase row.id) hrest hnodup.2 (by
      intro row' hrow'
      have hne : row'.id ≠ row.id := by
        intro heq
        exact hnodup.1 (heq ▸ List.mem_map_of_mem hrow')
      rw [ArgumentMap.of, SortedMap.get?_erase_of_ne _ hne]
      exact hothers row' hrow')
    have hid : parseId "run ID" parseRunId (joinedRun db row).id = .ok row.id :=
      parseRunId_toString (hdb.canonical.runs row hrow).1
    refine ⟨run :: runs, ?_, .cons ⟨hrow, hrun⟩ hpairs⟩
    rw [List.map_cons, decodeListed, hid]
    refine Except.bind_eq_ok_iff.mpr ⟨row.id, rfl, ?_⟩
    exact Except.bind_eq_ok_iff.mpr ⟨run, hdecode, Except.bind_eq_ok_iff.mpr ⟨runs, hruns, rfl⟩⟩

end Db.Readable

/-! ### A run as it was created -/

theorem decodeExitStatus_encode (exitStatus : Option ProcessExitStatus) :
    decodeExitStatus (encodeExitStatus exitStatus).1 (encodeExitStatus exitStatus).2
      = .ok exitStatus := by
  rcases exitStatus with _ | (_ | _ | _) <;> rfl

theorem decodeDuration (duration : Option MonotonicDuration) :
    (duration.map (·.asNanoseconds)).mapM (decodeU64 "run monotonic duration")
      = .ok (duration.map (·.nanoseconds)) := by
  rcases duration with _ | duration
  · rfl
  · show (some <$> decodeU64 "run monotonic duration" duration.nanoseconds.toNat) = _
    rw [decodeU64_eq_ok_iff.mpr rfl]
    rfl

/-- The row of a valid run decodes to the run. -/
theorem decodeRun_runRow {run : Run} {edge : Option RunParentRow} (hvalid : run.validate = .ok ())
    (hedge : edge.map (fun edge => (⟨edge.parentRunId, edge.checkpointId⟩ : RunParent))
      = run.parent) :
    decodeRun (runRow run) edge run.arguments = .ok run := by
  have hfinished : (run.finishedAt.map (·.unixMilliseconds)).map Timestamp.mk = run.finishedAt := by
    rcases run.finishedAt with _ | _ <;> rfl
  have hduration : (run.monotonicDuration.map (·.nanoseconds)).map MonotonicDuration.mk
      = run.monotonicDuration := by
    rcases run.monotonicDuration with _ | _ <;> rfl
  refine Except.bind_eq_ok_iff.mpr ⟨_, decodeDuration run.monotonicDuration, ?_⟩
  refine Except.bind_eq_ok_iff.mpr ⟨_, decodeExitStatus_encode run.exitStatus, ?_⟩
  simp only [runRow, hfinished, hduration, hedge]
  exact Except.bind_eq_ok_iff.mpr ⟨(), Except.mapError_eq_ok_iff.mpr hvalid, rfl⟩

/-- The row, the arguments and the edge of a run are the same in both databases. -/
structure SameRecord (id : RunId) (db db' : Db) : Prop where
  row : db'.run? id = db.run? id
  arguments : db'.runArguments.filter (fun row => row.runId = id)
    = db.runArguments.filter fun row => row.runId = id
  edge : Table.find (·.childRunId) db'.runParents id = Table.find (·.childRunId) db.runParents id

theorem SameRecord.loadRunRecord_eq {id : RunId} {db db' : Db} (h : SameRecord id db db') :
    loadRunRecord db' id = loadRunRecord db id := by
  unfold loadRunRecord loadRunArguments queryArguments joinedRun
  rw [h.row]
  rcases hrow : db.run? id with _ | row
  · rfl
  · have hid : row.id = id := Table.find_some_key _ hrow
    simp only [Option.elim_some, Bind.bind, Except.bind, h.arguments, hid, h.edge]

/-- The operations that do not advance a run leave its record alone. -/
theorem sameRecord_step {codecs : Codecs} {db : Db} {request : Request} {id : RunId}
    (hknown : id ∈ db.runs.map (·.id)) (hop : ¬ request.op.Advances id) :
    SameRecord id db (step codecs db request)
      ∧ id ∈ (step codecs db request).runs.map (·.id) := by
  rcases step_cases codecs db request with hsame | ⟨-, hexec⟩
  · rw [hsame]
    exact ⟨⟨rfl, rfl, rfl⟩, hknown⟩
  · rcases exec_records hexec with ⟨run, -, h⟩ | ⟨harguments, hparents, p, f, hruns, hf, hp⟩
    · obtain ⟨hfresh, hruns, harguments, hparents⟩ := createRun_records h
      have hne : run.id ≠ id := fun heq => hfresh (heq ▸ hknown)
      refine ⟨⟨?_, ?_, ?_⟩, ?_⟩
      · rw [Db.run?, hruns, Table.find_append]
        obtain ⟨row, hrow⟩ := Option.isSome_iff_exists.mp
          ((Table.find_isSome_iff RunRow.id).mpr hknown)
        rw [hrow, Db.run?, hrow]
        rfl
      · rw [harguments, List.filter_append, List.append_right_eq_self, List.filter_eq_nil_iff]
        intro row hrow hown
        exact hne ((runId_of_mem_argumentRows hrow).symm.trans (of_decide_eq_true hown))
      · rw [hparents, Table.find_append]
        rcases run.parent with _ | parent
        · exact Option.or_none
        · show (Table.find _ db.runParents id).or (Table.find (·.childRunId) [_] id) = _
          rw [Table.find_cons, if_neg hne]
          exact Option.or_none
      · rw [hruns, List.map_append]
        exact List.mem_append_left _ hknown
    · refine ⟨⟨?_, ?_, ?_⟩, ?_⟩
      · rw [Db.run?, hruns, Table.find_update RunRow.id (fun row => (hf row).1)]
        rcases hrow : Table.find (·.id) db.runs id with _ | row
        · rw [Db.run?, hrow]
          rfl
        · have hid : row.id = id := Table.find_some_key _ hrow
          have hkept : p row = false := by
            rw [Bool.eq_false_iff]
            intro hselected
            exact hop (hid ▸ hp row hselected)
          rw [Db.run?, hrow, Option.map_some, hkept]
          rfl
      · rw [harguments]
      · rw [hparents]
      · rw [hruns, Table.map_key_update RunRow.id fun row => (hf row).1]
        exact hknown

theorem sameRecord_run {codecs : Codecs} {db : Db} {requests : List Request} {id : RunId}
    (hknown : id ∈ db.runs.map (·.id)) (hops : ∀ request ∈ requests, ¬ request.op.Advances id) :
    SameRecord id db (Machine.run (step codecs) db requests) := by
  have hkept : SameRecord id db (Machine.run (step codecs) db requests)
      ∧ id ∈ (Machine.run (step codecs) db requests).runs.map (·.id) := by
    refine Machine.run_invariant_of_legal
      (I := fun db' => SameRecord id db db' ∧ id ∈ db'.runs.map (·.id))
      (L := fun request : Request => ¬ request.op.Advances id) ?_ hops ⟨⟨rfl, rfl, rfl⟩, hknown⟩
    rintro db' request hop ⟨hsame, hin⟩
    obtain ⟨hnext, hstill⟩ := sameRecord_step hin hop
    exact ⟨⟨hnext.row.trans hsame.row, hnext.arguments.trans hsame.arguments,
      hnext.edge.trans hsame.edge⟩, hstill⟩
  exact hkept.1

/-! ### The order of a listing -/

theorem RunId.text_injective {id id' : RunId} (h : id.text = id'.text) : id = id' :=
  RunId.toString_injective (utf8_injective h)

instance : Std.Total newestFirst := ⟨fun row row' => by
  unfold newestFirst
  simp only [Int64.lt_iff_toInt_lt, ← Int64.toInt_inj]
  rcases le_total row.id.text row'.id.text with hid | hid
  · rcases lt_trichotomy row.startedUnixMs.toInt row'.startedUnixMs.toInt with h | h | h
    · exact Or.inr (Or.inl h)
    · exact Or.inr (Or.inr ⟨h, hid⟩)
    · exact Or.inl (Or.inl h)
  · rcases lt_trichotomy row.startedUnixMs.toInt row'.startedUnixMs.toInt with h | h | h
    · exact Or.inr (Or.inl h)
    · exact Or.inl (Or.inr ⟨h.symm, hid⟩)
    · exact Or.inl (Or.inl h)⟩

instance : IsTrans RunRow newestFirst := ⟨fun row row' row'' h h' => by
  unfold newestFirst at *
  simp only [Int64.lt_iff_toInt_lt, ← Int64.toInt_inj] at *
  rcases h with h | ⟨heq, hle⟩
  · rcases h' with h' | ⟨heq', -⟩
    · exact Or.inl (h'.trans h)
    · exact Or.inl (heq'.trans_lt h)
  · rcases h' with h' | ⟨heq', hle'⟩
    · exact Or.inl (h'.trans_eq heq)
    · exact Or.inr ⟨heq'.trans heq, hle'.trans hle⟩⟩

/-- A listing has the newest run first, and of two that started together the greater identifier. -/
def Run.NewerThan (run run' : Run) : Prop :=
  run'.startedAt.unixMilliseconds < run.startedAt.unixMilliseconds
    ∨ (run'.startedAt = run.startedAt ∧ run'.id.text < run.id.text)

theorem newerThan_of_rows {row row' : RunRow} {run run' : Run} (hrow : newestFirst row row')
    (hne : row.id ≠ row'.id) (hid : run.id = row.id) (hid' : run'.id = row'.id)
    (hstarted : run.startedAt.unixMilliseconds = row.startedUnixMs)
    (hstarted' : run'.startedAt.unixMilliseconds = row'.startedUnixMs) : run.NewerThan run' := by
  rcases hrow with hless | ⟨hsame, hle⟩
  · refine Or.inl ?_
    rw [hstarted, hstarted']
    exact hless
  · refine Or.inr ⟨?_, ?_⟩
    · have htimes : run'.startedAt.unixMilliseconds = run.startedAt.unixMilliseconds := by
        rw [hstarted, hstarted', hsame]
      rcases hrun : run.startedAt with ⟨time⟩
      rcases hrun' : run'.startedAt with ⟨time'⟩
      rw [hrun, hrun'] at htimes
      exact congrArg Timestamp.mk htimes
    · rw [hid, hid']
      exact lt_of_le_of_ne hle fun heq => hne (RunId.text_injective heq.symm)

/-! ### Reachable stores -/

/-- Every database that the writer reaches is readable. -/
theorem readable_run (codecs : Codecs) {requests : List Request}
    (hids : ∀ request ∈ requests, request.op.Canonical) :
    (Machine.run (step codecs) Db.empty requests).Readable where
  runs := (statements_keepReadable codecs).run Db.empty requests runsReadable_empty
  canonical := canonical_run hids canonical_empty

theorem argumentRows_values (runId : RunId) (position : Nat) (arguments : List String) :
    (argumentRows runId position arguments).map (·.value) = arguments := by
  induction arguments generalizing position with
  | nil => rfl
  | cons argument rest ih => rw [argumentRows, List.map_cons, ih]

/-- A created run is read as it was created. -/
theorem loadRun_createRun {db db' : Db} {run : Run} (h : createRun db run = .ok db')
    (hdb : db.Readable) (hedges : ∀ row ∈ db.runParents, row.childRunId ∈ db.runs.map (·.id))
    (hrun : run.Canonical) : loadRunRecord db' run.id = .ok run := by
  obtain ⟨hvalid, -, -, -, -⟩ := createRun_statements h
  obtain ⟨hfresh, hruns, harguments, hparents⟩ := createRun_records h
  have hdb' : db'.Readable :=
    ⟨runsReadable_createRun h hdb.runs, canonical_createRun h hrun hdb.canonical⟩
  have hmem : runRow run ∈ db'.runs := by
    rw [hruns]
    exact List.mem_append_right _ (List.mem_singleton_self _)
  have hvalues : (db'.runArguments.filter fun row => row.runId = run.id).map (·.value)
      = run.arguments := by
    rw [harguments, ownArguments_createRun hdb.runs hfresh, argumentRows_values]
  have hedge : (Table.find (·.childRunId) db'.runParents run.id).map
      (fun edge => (⟨edge.parentRunId, edge.checkpointId⟩ : RunParent)) = run.parent := by
    have hnone : Table.find (·.childRunId) db.runParents run.id = none := by
      rw [Table.find_eq_none_iff]
      intro hchild
      obtain ⟨row, hrow, hid⟩ := List.mem_map.mp hchild
      exact hfresh (hid ▸ hedges row hrow)
    rw [hparents, Table.find_append, hnone, Option.none_or]
    rcases run.parent with _ | parent
    · rfl
    · show (Table.find RunParentRow.childRunId [_] run.id).map _ = _
      rw [Table.find_cons, if_pos rfl]
      rfl
  have hload := hdb'.loadRunRecord_eq hmem
  rw [show (runRow run).id = run.id from rfl] at hload
  rw [hload, hvalues]
  exact decodeRun_runRow hvalid hedge

/-- **Run records.**  In every database the writer reaches, a run that is created is read back as it
was, for as long as no operation advances it; and a listing has every run of the table once, the
newest first, each as `load_run` returns it. -/
theorem run_records (codecs : Codecs) (requests : List Request)
    (hids : ∀ request ∈ requests, request.op.Canonical) :
    let db := Machine.run (step codecs) Db.empty requests
    (∀ run db', run.Canonical → createRun db run = .ok db' →
        ∀ more : List Request, (∀ request ∈ more, ¬ request.op.Advances run.id) →
          loadRunRecord (Machine.run (step codecs) db' more) run.id = .ok run)
      ∧ ∃ runs, listRuns db = .ok runs
          ∧ (runs.map (·.id)).Perm (db.runs.map (·.id)) ∧ (runs.map (·.id)).Nodup
          ∧ runs.Pairwise Run.NewerThan
          ∧ ∀ run ∈ runs, loadRunRecord db run.id = .ok run := by
  intro db
  have hdb : db.Readable := readable_run codecs hids
  have hancestral : db.Ancestral :=
    ((statements_keepAncestry codecs).run Db.empty requests ancestral_empty).1
  refine ⟨fun run db' hrun hcreate more hmore => ?_, ?_⟩
  · obtain ⟨-, hruns, -, -⟩ := createRun_records hcreate
    have hknown : run.id ∈ db'.runs.map (·.id) := by
      rw [hruns, List.map_append]
      exact List.mem_append_right _ (List.mem_singleton_self run.id)
    rw [(sameRecord_run hknown hmore).loadRunRecord_eq]
    exact loadRun_createRun hcreate hdb (fun row hrow => (hancestral.known row hrow).1) hrun
  · have hperm := List.perm_insertionSort newestFirst db.runs
    have hnodup : ((db.runs.insertionSort newestFirst).map (·.id)).Nodup :=
      (hperm.map RunRow.id).nodup_iff.mpr hdb.runs.ids
    obtain ⟨arguments, hload, hof⟩ := hdb.loadAllArguments
    obtain ⟨runs, hlisted, hpairs⟩ := @Db.Readable.decodeListed_ok db hdb
      (db.runs.insertionSort newestFirst) arguments (fun row hrow => hperm.mem_iff.mp hrow) hnodup
      fun row _ => hof row.id
    have hids : runs.map (·.id) = (db.runs.insertionSort newestFirst).map (·.id) := by
      rw [← List.forall₂_eq_eq_eq, List.forall₂_map_left_iff, List.forall₂_map_right_iff]
      exact hpairs.flip.imp fun run row h => (hdb.fields_of_loadRunRecord h.1 h.2).1
    refine ⟨runs, Except.bind_eq_ok_iff.mpr ⟨arguments, hload, hlisted⟩, ?_, ?_, ?_,
      fun run hrun => ?_⟩
    · rw [hids]
      exact hperm.map RunRow.id
    · rw [hids]
      exact hnodup
    · refine pairwise_of_forall₂ (fun row row' run run' h h' hless => ?_) hpairs
        ((List.pairwise_insertionSort newestFirst db.runs).and (List.pairwise_map.mp hnodup))
      obtain ⟨hid, hstarted⟩ := hdb.fields_of_loadRunRecord h.1 h.2
      obtain ⟨hid', hstarted'⟩ := hdb.fields_of_loadRunRecord h'.1 h'.2
      exact newerThan_of_rows hless.1 hless.2 hid hid' hstarted hstarted'
    · obtain ⟨row, -, hrow, hload⟩ := exists_of_forall₂ hpairs hrun
      rw [(hdb.fields_of_loadRunRecord hrow hload).1]
      exact hload

namespace Sample

/-- A later run of the command, with more arguments. -/
def laterRun : Run :=
  { run with
    id := ⟨⟨0x7000_8000_0000_0000_0002⟩⟩
    branchId := ⟨⟨0x7000_8000_0000_0000_0002⟩⟩
    arguments := ["--fix", "--all"]
    startedAt := ⟨5⟩ }

theorem canonical_run : run.Canonical := by
  refine ⟨by decide, by decide, fun parent hparent => ?_⟩
  exact absurd hparent (by simp [run])

theorem canonical_laterRun : laterRun.Canonical := by
  refine ⟨by decide, by decide, fun parent hparent => ?_⟩
  exact absurd hparent (by simp [laterRun, run])

/-- The two runs are created. -/
def twoRuns : List Request := [⟨.createRun run, false⟩, ⟨.createRun laterRun, false⟩]

theorem canonical_twoRuns : ∀ request ∈ twoRuns, request.op.Canonical := by
  intro request hrequest created hcreated
  rcases List.mem_pair.mp hrequest with rfl | rfl
  · rw [← Op.createRun.inj hcreated]
    exact canonical_run
  · rw [← Op.createRun.inj hcreated]
    exact canonical_laterRun

/-- The other run is started. -/
def startedFirst : List Request :=
  [⟨.storeSnapshot emptySnapshot ⟨0⟩, false⟩, ⟨.markRunRunning runId emptySnapshot.id, false⟩]

theorem startedFirst_advances : ∀ request ∈ startedFirst, ¬ request.op.Advances laterRun.id := by
  intro request hrequest
  rcases List.mem_pair.mp hrequest with rfl | rfl
  · exact id
  · exact (by decide : runId ≠ laterRun.id)

end Sample

/-- Two runs of a store, the first of which is started. -/
theorem run_records_sample :
    ∃ db, createRun (Machine.run (step Sample.codecs) Db.empty [⟨.createRun Sample.run, false⟩])
        Sample.laterRun = .ok db
      ∧ loadRunRecord (Machine.run (step Sample.codecs) db Sample.startedFirst) Sample.laterRun.id
        = .ok Sample.laterRun
      ∧ listRuns (Machine.run (step Sample.codecs) Db.empty Sample.twoRuns)
        = .ok [Sample.laterRun, Sample.run]
      ∧ [Sample.laterRun, Sample.run].Pairwise Run.NewerThan := by
  have hcreated := Sample.canonical_twoRuns
  have hfirst : ∀ request ∈ [(⟨.createRun Sample.run, false⟩ : Request)], request.op.Canonical :=
    fun request hrequest => hcreated request (List.mem_of_mem_take (i := 1) hrequest)
  have hlisted : listRuns (Machine.run (step Sample.codecs) Db.empty Sample.twoRuns)
      = .ok [Sample.laterRun, Sample.run] := by decide +kernel
  obtain ⟨-, runs, hruns, -, -, hnewer, -⟩ := run_records Sample.codecs _ hcreated
  obtain rfl := Except.ok.inj (hruns.symm.trans hlisted)
  exact ⟨_, rfl, (run_records Sample.codecs _ hfirst).1 Sample.laterRun _
    Sample.canonical_laterRun rfl _ Sample.startedFirst_advances, hlisted, hnewer⟩

end Rewind

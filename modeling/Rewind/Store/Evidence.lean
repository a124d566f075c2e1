/-
The evidence a comparison of runs reads.

Appending a batch indexes its warnings and its terminal output in tables of their own; a recovery
adds warnings of its own, and a checkpoint comes with an event or without.  The totals over these
tables are what a comparison reads of a run, instead of the run's events.

* `exec_writes` — the rows that an operation adds to the timeline and to its indexes;
* `Indexed` — the indexes as a function of the events, and of what the recoveries have reported;
* **`evidence_exact`** — the totals are those of the events, in any database the writer reaches.
-/
import Rewind.Store.RunRecords

namespace Rewind

/-- Store-derived evidence of a run. -/
structure ComparisonInput where
  run : Run
  checkpointCount : UInt64
  terminalOutputBytes : UInt64
  warningCount : UInt64

/-- `COALESCE(SUM(…), 0)` over natural numbers. -/
def sumColumn (values : List Nat) : Except SqlError Nat :=
  if values.sum < 2 ^ 63 then .ok values.sum else .error .overflow

theorem sumColumn_eq_ok_iff {values : List Nat} {total : Nat} :
    sumColumn values = .ok total ↔ values.sum < 2 ^ 63 ∧ total = values.sum := by
  unfold sumColumn
  by_cases h : values.sum < 2 ^ 63
  · rw [if_pos h, Except.ok.injEq]
    exact ⟨fun heq => ⟨h, heq.symm⟩, fun hand => hand.2.symm⟩
  · rw [if_neg h]
    exact ⟨fun herr => absurd herr (by simp), fun hand => absurd hand.1 h⟩

namespace Db

variable (db : Db) (runId : RunId)

def checkpointsOf : List CheckpointRow := db.checkpoints.filter fun row => row.runId = runId

def terminalChunksOf : List TerminalChunkRow :=
  db.terminalChunks.filter fun row => row.runId = runId

def warningsOf : List WarningRow := db.warnings.filter fun row => row.runId = runId

end Db

/-- `load_comparison_input`. -/
def loadComparisonInput (db : Db) (runId : RunId) : StoreResult ComparisonInput := do
  let run ← loadRunRecord db runId
  let bytes ← orDatabase "load comparison evidence"
    (sumColumn ((db.terminalChunksOf runId).map (·.byteLength)))
  let checkpointCount ← decodeU64 "checkpoint count" (db.checkpointsOf runId).length
  let terminalOutputBytes ← decodeU64 "terminal output bytes" bytes
  let warningCount ← decodeU64 "warning count" (db.warningsOf runId).length
  return { run, checkpointCount, terminalOutputBytes, warningCount }

/-! ### What the operations write -/

namespace Op

/-- The events that an operation appends. -/
def appended : Op → List Event
  | .appendEventBatch events | .finishRunWithEvents _ _ events => events
  | .commitCheckpointWithEvent _ _ event => [event]
  | .createRun _ | .markRunRunning _ _ | .storeSnapshot _ _ | .commitCheckpoint _ _
  | .finishRun _ _ | .markInterruptedRuns _ | .recordObject _ _ | .deleteObject _ => []

/-- The checkpoint that an operation commits, with or without an event. -/
def checkpoints : Op → List Checkpoint
  | .commitCheckpoint checkpoint _ | .commitCheckpointWithEvent checkpoint _ _ => [checkpoint]
  | .createRun _ | .markRunRunning _ _ | .appendEventBatch _ | .storeSnapshot _ _
  | .finishRun _ _ | .finishRunWithEvents _ _ _ | .markInterruptedRuns _ | .recordObject _ _
  | .deleteObject _ => []

/-- The runs that an operation recovers, and the clock it reads. -/
def recovery (db : Db) : Op → List (RunId × Timestamp)
  | .markInterruptedRuns recoveredAt => (activeRunIds db).map fun id => (id, recoveredAt)
  | .createRun _ | .markRunRunning _ _ | .appendEventBatch _ | .storeSnapshot _ _
  | .commitCheckpoint _ _ | .commitCheckpointWithEvent _ _ _ | .finishRun _ _
  | .finishRunWithEvents _ _ _ | .recordObject _ _ | .deleteObject _ => []

end Op

/-- The rows that an operation adds to the timelines and to their indexes. -/
structure Writes (db db' : Db) (op : Op) : Prop where
  events : db'.events = db.events ++ op.appended.map eventRow
  terminalChunks : db'.terminalChunks
    = db.terminalChunks ++ op.appended.filterMap terminalChunkRow?
  warnings : db'.warnings = db.warnings ++ op.appended.filterMap warningRow?
    ++ (op.recovery db).map fun r => recoveryWarning db r.2 r.1
  checkpoints : db'.checkpoints = db.checkpoints ++ op.checkpoints.map checkpointRow

/-- A statement that writes to none of these tables. -/
theorem Writes.of_eq {db db' : Db} {op : Op} (hevents : db'.events = db.events)
    (hchunks : db'.terminalChunks = db.terminalChunks) (hwarnings : db'.warnings = db.warnings)
    (hcheckpoints : db'.checkpoints = db.checkpoints) (happended : op.appended = [])
    (hcommitted : op.checkpoints = []) (hrecovery : op.recovery db = []) : Writes db db' op := by
  constructor
  · rw [hevents, happended, List.map_nil, List.append_nil]
  · rw [hchunks, happended, List.filterMap_nil, List.append_nil]
  · rw [hwarnings, happended, hrecovery, List.filterMap_nil, List.map_nil, List.append_nil,
      List.append_nil]
  · rw [hcheckpoints, hcommitted, List.map_nil, List.append_nil]

theorem exec_writes {codecs : Codecs} {db db' : Db} {op : Op} (hdb : db.RunsReadable)
    (h : op.exec codecs db = .ok db') : Writes db db' op := by
  cases op with
  | createRun run =>
    obtain ⟨-, -, -, runArguments, runParents, rfl⟩ := createRun_ok h
    exact Writes.of_eq rfl rfl rfl rfl rfl rfl rfl
  | markRunRunning runId initialSnapshot =>
    obtain ⟨-, rfl⟩ := markRunRunning_ok h
    exact Writes.of_eq rfl rfl rfl rfl rfl rfl rfl
  | appendEventBatch events =>
    obtain ⟨rfl, -⟩ := appendEventBatchIn_ok h
    exact ⟨rfl, rfl, (List.append_nil _).symm, (List.append_nil _).symm⟩
  | storeSnapshot snapshot createdAt =>
    obtain ⟨snapshots, snapshotEntries, rfl⟩ := storeSnapshotIn_frame (storeSnapshot_ok h).2
    exact Writes.of_eq rfl rfl rfl rfl rfl rfl rfl
  | commitCheckpoint checkpoint snapshot =>
    obtain ⟨db₁, hstore, -, -, -, rfl⟩ := commitCheckpointIn_ok (commitCheckpoint_ok h).2
    obtain ⟨snapshots, snapshotEntries, rfl⟩ := storeSnapshotIn_frame hstore
    refine ⟨(List.append_nil _).symm, (List.append_nil _).symm, ?_, rfl⟩
    exact ((List.append_nil _).trans (List.append_nil _)).symm
  | commitCheckpointWithEvent checkpoint snapshot event =>
    obtain ⟨-, -, db₁, hcommit, happend⟩ := commitCheckpointWithEvent_ok h
    obtain ⟨rfl, -⟩ := appendEventBatchIn_ok happend
    obtain ⟨db₂, hstore, -, -, -, rfl⟩ := commitCheckpointIn_ok hcommit
    obtain ⟨snapshots, snapshotEntries, rfl⟩ := storeSnapshotIn_frame hstore
    exact ⟨rfl, rfl, (List.append_nil _).symm, rfl⟩
  | finishRun runId finish =>
    obtain ⟨-, -, rfl⟩ := finishRunIn_ok h
    exact Writes.of_eq rfl rfl rfl rfl rfl rfl rfl
  | finishRunWithEvents runId finish events =>
    obtain ⟨_, _, db₁, -, -, -, happend, hfinish⟩ := finishRunWithEvents_ok h
    obtain ⟨-, -, rfl⟩ := finishRunIn_ok hfinish
    obtain ⟨rfl, -⟩ := appendEventBatchIn_ok happend
    exact ⟨rfl, rfl, (List.append_nil _).symm, (List.append_nil _).symm⟩
  | markInterruptedRuns recoveredAt =>
    rw [Op.exec, markInterruptedRuns_eq hdb] at h
    obtain rfl := Except.ok.inj h
    refine ⟨(List.append_nil _).symm, (List.append_nil _).symm, ?_, (List.append_nil _).symm⟩
    simp only [Op.appended, Op.recovery, List.filterMap_nil, List.append_nil, List.map_map]
    rfl
  | recordObject stored createdUnixMs =>
    obtain ⟨row, -, -, -, rfl, -⟩ := recordObject_ok h
    obtain ⟨rows, -, hrows⟩ := Db.insertObject_frame _ row
    rw [hrows]
    exact Writes.of_eq rfl rfl rfl rfl rfl rfl rfl
  | deleteObject id =>
    obtain ⟨-, rfl⟩ := deleteObjectRow_ok h
    exact Writes.of_eq rfl rfl rfl rfl rfl rfl rfl

/-! ### Indexes of the events -/

/-- The row that indexes a stored event as terminal output. -/
def EventRow.terminalChunk? (row : EventRow) : Option TerminalChunkRow :=
  match row.payload with
  | .terminalOutput streamId objectId byteLen => some
      { runId := row.runId
        streamId
        firstSequence := row.sequence
        lastSequence := row.sequence
        objectId
        byteLength := byteLen.toNat }
  | _ => none

/-- The bytes of a stored terminal output. -/
def EventRow.outputBytes? (row : EventRow) : Option Nat :=
  match row.payload with
  | .terminalOutput _ _ byteLen => some byteLen.toNat
  | _ => none

def EventRow.isWarning (row : EventRow) : Bool :=
  match row.payload with
  | .recorderWarning _ => true
  | _ => false

theorem terminalChunk?_eventRow (event : Event) :
    (eventRow event).terminalChunk? = terminalChunkRow? event := by
  unfold EventRow.terminalChunk? terminalChunkRow? eventRow
  cases event.payload <;> rfl

theorem outputBytes?_eq (row : EventRow) :
    row.outputBytes? = row.terminalChunk?.map (·.byteLength) := by
  unfold EventRow.outputBytes? EventRow.terminalChunk?
  cases row.payload <;> rfl

theorem runId_of_terminalChunk? {row : EventRow} {chunk : TerminalChunkRow}
    (h : row.terminalChunk? = some chunk) : chunk.runId = row.runId := by
  unfold EventRow.terminalChunk? at h
  split at h
  · obtain rfl := Option.some.inj h
    rfl
  · exact absurd h (by simp)

theorem warningRow?_spec (event : Event) :
    (∃ warning, warningRow? event = some warning ∧ warning.runId = event.runId
        ∧ (eventRow event).isWarning = true)
      ∨ (warningRow? event = none ∧ (eventRow event).isWarning = false) := by
  unfold warningRow? EventRow.isWarning eventRow
  cases event.payload
  case recorderWarning => exact Or.inl ⟨_, rfl, rfl, rfl⟩
  all_goals exact Or.inr ⟨rfl, rfl⟩

/-- The warnings that a batch indexes for a run are its warning events there. -/
theorem length_warnings_appended (events : List Event) (id : RunId) :
    ((events.filterMap warningRow?).filter fun row => row.runId = id).length
      = ((events.map eventRow).filter fun row => row.runId = id).countP EventRow.isWarning := by
  induction events with
  | nil => rfl
  | cons event rest ih =>
    have hrun : (eventRow event).runId = event.runId := rfl
    rw [List.map_cons]
    rcases warningRow?_spec event with ⟨warning, hrow, hown, hwarning⟩ | ⟨hrow, hother⟩
    · rw [List.filterMap_cons_some hrow]
      by_cases hid : event.runId = id
      · rw [List.filter_cons_of_pos (by simp [hown, hid]),
          List.filter_cons_of_pos (by simp [hrun, hid]),
          List.length_cons, List.countP_cons_of_pos hwarning, ih]
      · rw [List.filter_cons_of_neg (by simp [hown, hid]),
          List.filter_cons_of_neg (by simp [hrun, hid]),
          ih]
    · rw [List.filterMap_cons_none hrow, ih]
      by_cases hid : event.runId = id
      · rw [List.filter_cons_of_pos (by simp [hrun, hid]),
          List.countP_cons_of_neg (by simp [hother])]
      · rw [List.filter_cons_of_neg (by simp [hrun, hid])]

/-- A recovery adds one warning for each time it names a run. -/
theorem length_warnings_recovered (db : Db) (recovery : List (RunId × Timestamp)) (id : RunId) :
    ((recovery.map fun r => recoveryWarning db r.2 r.1).filter fun row => row.runId = id).length
      = (recovery.map Prod.fst).count id := by
  rw [← List.countP_eq_length_filter, List.countP_map, List.count, List.countP_map]
  refine List.countP_congr fun r _ => ?_
  simp [recoveryWarning]

/-! ### Requests -/

namespace Request

variable (codecs : Codecs)

/-- The runs that a request has recovered. -/
def recovered (db : Db) (request : Request) : List RunId :=
  match request.result codecs db with
  | .ok _ => (request.op.recovery db).map Prod.fst
  | .error _ => []

/-- The checkpoint that a request has committed together with an event. -/
def committed (db : Db) (request : Request) : List (Checkpoint × Event) :=
  match request.result codecs db, request.op with
  | .ok _, .commitCheckpointWithEvent checkpoint _ event => [(checkpoint, event)]
  | _, _ => []

/-- A request changes nothing, or is an operation that returned `Ok`. -/
theorem cases_result {codecs : Codecs} (db : Db) (request : Request) :
    (∃ error, request.result codecs db = .error error ∧ step codecs db request = db)
      ∨ (request.result codecs db = .ok (step codecs db request)
          ∧ request.op.exec codecs db = .ok (step codecs db request)) := by
  rcases hresult : request.result codecs db with error | db'
  · exact Or.inl ⟨error, rfl, by rw [step, hresult]⟩
  · have hstep : step codecs db request = db' := by rw [step, hresult]
    rw [hstep]
    refine Or.inr ⟨rfl, ?_⟩
    unfold result at hresult
    split at hresult
    · exact absurd hresult (by simp)
    · exact hresult

end Request

/-- The terminal output and the warnings of a database are those of its events, and one warning for
each recovery. -/
structure Indexed (db : Db) (recovered : List RunId) : Prop where
  readable : db.RunsReadable
  chunks : db.terminalChunks = db.events.filterMap EventRow.terminalChunk?
  warnings : ∀ id, (db.warningsOf id).length
    = (db.eventsOf id).countP EventRow.isWarning + recovered.count id

theorem indexed_step {codecs : Codecs} {db : Db} {recovered : List RunId} (request : Request)
    (hdb : Indexed db recovered) :
    Indexed (step codecs db request) (recovered ++ request.recovered codecs db) := by
  have hreadable : (step codecs db request).RunsReadable :=
    (statements_keepReadable codecs).step db request hdb.readable
  rcases @Request.cases_result codecs db request with ⟨error, hresult, hsame⟩ | ⟨hresult, hexec⟩
  · rw [hsame, Request.recovered, hresult, List.append_nil]
    exact hdb
  · have hwrites := exec_writes hdb.readable hexec
    refine ⟨hreadable, ?_, fun id => ?_⟩
    · rw [hwrites.terminalChunks, hwrites.events, List.filterMap_append, hdb.chunks,
        List.filterMap_map]
      exact congrArg _ (List.filterMap_congr fun event _ => (terminalChunk?_eventRow event).symm)
    · have hold := hdb.warnings id
      have hnew := length_warnings_appended request.op.appended id
      have hlate := length_warnings_recovered db (request.op.recovery db) id
      rw [Db.warningsOf] at hold ⊢
      rw [Db.eventsOf] at hold ⊢
      rw [hwrites.warnings, hwrites.events, Request.recovered, hresult]
      simp only [List.filter_append, List.length_append, List.countP_append, List.count_append]
      omega

/-- The checkpoints of a database are those that came with an event, each with its event. -/
structure Described (db : Db) (committed : List (Checkpoint × Event)) : Prop where
  readable : db.RunsReadable
  checkpoints : db.checkpoints = committed.map fun c => checkpointRow c.1
  events : (committed.map fun c => eventRow c.2).Sublist db.events
  described : ∀ c ∈ committed, describesCheckpoint c.2 c.1

/-- The operations that commit a checkpoint commit it with its event. -/
def Op.WithEvent (op : Op) : Prop :=
  ∀ checkpoint snapshot, op ≠ .commitCheckpoint checkpoint snapshot

theorem described_step {codecs : Codecs} {db : Db} {committed : List (Checkpoint × Event)}
    (request : Request) (hop : request.op.WithEvent) (hdb : Described db committed) :
    Described (step codecs db request) (committed ++ request.committed codecs db) := by
  have hreadable : (step codecs db request).RunsReadable :=
    (statements_keepReadable codecs).step db request hdb.readable
  rcases @Request.cases_result codecs db request with ⟨error, hresult, hsame⟩ | ⟨hresult, hexec⟩
  · rw [hsame, Request.committed, hresult, List.append_nil]
    exact hdb
  · have hwrites := exec_writes hdb.readable hexec
    -- an operation without a checkpoint may append events, but commits none
    have hnone : request.op.checkpoints = [] → request.committed codecs db = [] →
        Described (step codecs db request) (committed ++ request.committed codecs db) := by
      intro hcheckpoints hcommitted
      rw [hcommitted, List.append_nil]
      refine ⟨hreadable, ?_, ?_, hdb.described⟩
      · rw [hwrites.checkpoints, hcheckpoints, List.map_nil, List.append_nil, hdb.checkpoints]
      · rw [hwrites.events]
        exact hdb.events.trans (List.sublist_append_left _ _)
    rcases hrequest : request.op
    case commitCheckpoint checkpoint snapshot => exact absurd hrequest (hop checkpoint snapshot)
    case commitCheckpointWithEvent checkpoint snapshot event =>
      rw [hrequest] at hexec hwrites
      obtain ⟨-, hdescribes, -⟩ := commitCheckpointWithEvent_ok hexec
      have hcommitted : request.committed codecs db = [(checkpoint, event)] := by
        rw [Request.committed, hresult, hrequest]
      rw [hcommitted]
      refine ⟨hreadable, ?_, ?_, ?_⟩
      · rw [hwrites.checkpoints, hdb.checkpoints, List.map_append]
        rfl
      · rw [hwrites.events, List.map_append]
        exact hdb.events.append (List.Sublist.refl _)
      · intro c hc
        rcases List.mem_append.mp hc with hold | hnew
        · exact hdb.described c hold
        · rw [List.mem_singleton.mp hnew]
          exact hdescribes
    all_goals exact hnone (by rw [hrequest]; rfl) (by rw [Request.committed, hresult, hrequest])

theorem indexed_empty : Indexed Db.empty [] := ⟨runsReadable_empty, rfl, fun _ => rfl⟩

theorem described_empty : Described Db.empty [] :=
  ⟨runsReadable_empty, rfl, .slnil, fun _ h => absurd h List.not_mem_nil⟩

/-! ### The totals -/

/-- The lengths in the index of a run are those of its terminal output. -/
theorem Indexed.byteLengths {db : Db} {recovered : List RunId} (hdb : Indexed db recovered)
    (runId : RunId) :
    (db.terminalChunksOf runId).map (·.byteLength)
      = (db.eventsOf runId).filterMap EventRow.outputBytes? := by
  rw [Db.terminalChunksOf, Db.eventsOf, hdb.chunks]
  induction db.events with
  | nil => rfl
  | cons row rest ih =>
    rcases hchunk : row.terminalChunk? with _ | chunk
    · rw [List.filterMap_cons_none hchunk, ih]
      by_cases hid : row.runId = runId
      · rw [List.filter_cons_of_pos (by simp [hid]),
          List.filterMap_cons_none (by rw [outputBytes?_eq, hchunk]; rfl)]
      · rw [List.filter_cons_of_neg (by simp [hid])]
    · have hown := runId_of_terminalChunk? hchunk
      rw [List.filterMap_cons_some hchunk]
      by_cases hid : row.runId = runId
      · rw [List.filter_cons_of_pos (by simp [hown, hid]), List.filter_cons_of_pos (by simp [hid]),
          List.map_cons, ih,
          List.filterMap_cons_some (by rw [outputBytes?_eq, hchunk]; rfl)]
      · rw [List.filter_cons_of_neg (by simp [hown, hid]), List.filter_cons_of_neg (by simp [hid]),
          ih]

/-- The checkpoints of a run are those that came with one of its events. -/
theorem Described.checkpointsOf {db : Db} {committed : List (Checkpoint × Event)}
    (hdb : Described db committed) (runId : RunId) :
    (db.checkpointsOf runId).length
      = (committed.filter fun c => c.2.runId = runId).length := by
  rw [Db.checkpointsOf, hdb.checkpoints, List.filter_map, List.length_map]
  refine congrArg List.length (List.filter_congr fun c hc => ?_)
  have hrun : c.2.runId = c.1.runId := (hdb.described c hc).1
  show decide (c.1.runId = runId) = _
  rw [hrun]

theorem Described.eventsOf {db : Db} {committed : List (Checkpoint × Event)}
    (hdb : Described db committed) (runId : RunId) :
    ((committed.filter fun c => c.2.runId = runId).map fun c => eventRow c.2).Sublist
      (db.eventsOf runId) := by
  have hsublist := hdb.events.filter fun row => decide (row.runId = runId)
  rw [List.filter_map] at hsublist
  exact hsublist

/-- What a comparison loads, it has read from the indexes. -/
theorem loadComparisonInput_ok {db : Db} {runId : RunId} {input : ComparisonInput}
    (h : loadComparisonInput db runId = .ok input) :
    loadRunRecord db runId = .ok input.run
      ∧ input.terminalOutputBytes.toNat = ((db.terminalChunksOf runId).map (·.byteLength)).sum
      ∧ input.warningCount.toNat = (db.warningsOf runId).length
      ∧ input.checkpointCount.toNat = (db.checkpointsOf runId).length := by
  obtain ⟨run, hrun, h⟩ := Except.bind_eq_ok_iff.mp h
  obtain ⟨bytes, hbytes, h⟩ := Except.bind_eq_ok_iff.mp h
  obtain ⟨checkpointCount, hcheckpoints, h⟩ := Except.bind_eq_ok_iff.mp h
  obtain ⟨terminalOutputBytes, houtput, h⟩ := Except.bind_eq_ok_iff.mp h
  obtain ⟨warningCount, hwarnings, h⟩ := Except.bind_eq_ok_iff.mp h
  obtain rfl := Except.ok.inj h
  obtain ⟨-, rfl⟩ := sumColumn_eq_ok_iff.mp (orDatabase_eq_ok_iff.mp hbytes)
  exact ⟨hrun, decodeU64_eq_ok_iff.mp houtput, decodeU64_eq_ok_iff.mp hwarnings,
    decodeU64_eq_ok_iff.mp hcheckpoints⟩

/-- A comparison loads a run whose totals fit their columns. -/
theorem exists_loadComparisonInput {db : Db} {runId : RunId} {run : Run}
    (hrun : loadRunRecord db runId = .ok run)
    (hbytes : ((db.terminalChunksOf runId).map (·.byteLength)).sum < 2 ^ 63)
    (hwarnings : db.warnings.length < 2 ^ 63) (hcheckpoints : db.checkpoints.length < 2 ^ 63) :
    ∃ input, loadComparisonInput db runId = .ok input := by
  have hdecode : ∀ (field : String) {value : Nat}, value < 2 ^ 64 →
      decodeU64 field value = .ok (UInt64.ofNat value) := by
    intro field value h
    rw [decodeU64, if_pos h]
  have hwarningsOf : (db.warningsOf runId).length < 2 ^ 64 := by
    have hle : (db.warningsOf runId).length ≤ db.warnings.length := List.length_filter_le _ _
    omega
  have hcheckpointsOf : (db.checkpointsOf runId).length < 2 ^ 64 := by
    have hle : (db.checkpointsOf runId).length ≤ db.checkpoints.length := List.length_filter_le _ _
    omega
  refine ⟨⟨run, UInt64.ofNat (db.checkpointsOf runId).length,
    UInt64.ofNat ((db.terminalChunksOf runId).map (·.byteLength)).sum,
    UInt64.ofNat (db.warningsOf runId).length⟩, ?_⟩
  refine Except.bind_eq_ok_iff.mpr ⟨run, hrun, ?_⟩
  refine Except.bind_eq_ok_iff.mpr
    ⟨_, orDatabase_eq_ok_iff.mpr (sumColumn_eq_ok_iff.mpr ⟨hbytes, rfl⟩), ?_⟩
  refine Except.bind_eq_ok_iff.mpr ⟨_, hdecode _ hcheckpointsOf, ?_⟩
  refine Except.bind_eq_ok_iff.mpr ⟨_, hdecode _ (by omega), ?_⟩
  exact Except.bind_eq_ok_iff.mpr ⟨_, hdecode _ hwarningsOf, rfl⟩

/-- **Evidence.**  In every database the writer reaches, the terminal bytes that a comparison loads
are the bytes of the run's terminal output, and its warnings are the run's warning events and one
for each time the run was recovered.  Where every checkpoint is committed with its event, the
checkpoints are as many as these events, each with a checkpoint of its number, run and snapshot. -/
theorem evidence_exact (codecs : Codecs) (requests : List Request) (runId : RunId) :
    let db := Machine.run (step codecs) Db.empty requests
    let recovered := Machine.notes (step codecs) (fun db request => request.recovered codecs db)
      Db.empty requests
    let committed := Machine.notes (step codecs) (fun db request => request.committed codecs db)
      Db.empty requests
    (∀ input, loadComparisonInput db runId = .ok input →
        input.terminalOutputBytes.toNat
            = ((db.eventsOf runId).filterMap EventRow.outputBytes?).sum
          ∧ input.warningCount.toNat
            = (db.eventsOf runId).countP EventRow.isWarning + recovered.count runId
          ∧ ((∀ request ∈ requests, request.op.WithEvent) →
              input.checkpointCount.toNat = (committed.filter fun c => c.2.runId = runId).length
                ∧ ((committed.filter fun c => c.2.runId = runId).map fun c => eventRow c.2).Sublist
                    (db.eventsOf runId)
                ∧ ∀ c ∈ committed, ∃ row ∈ db.checkpoints, row.runId = c.2.runId
                    ∧ row.sequence = c.2.seq
                    ∧ c.2.payload = .checkpointCommitted row.id row.snapshotId))
      ∧ ((∀ request ∈ requests, request.op.Canonical) → runId ∈ db.runs.map (·.id) →
          ((db.eventsOf runId).filterMap EventRow.outputBytes?).sum < 2 ^ 63 →
          db.warnings.length < 2 ^ 63 → db.checkpoints.length < 2 ^ 63 →
          ∃ input, loadComparisonInput db runId = .ok input) := by
  intro db recovered committed
  have hindexed : Indexed db recovered :=
    Machine.run_notes_invariant (L := fun _ => True)
      (fun _ _ request _ hdb => indexed_step request hdb) (fun _ _ => trivial) indexed_empty
  refine ⟨fun input hinput => ?_, fun hids hknown hbytes hwarnings hcheckpoints => ?_⟩
  · obtain ⟨-, hbytes, hwarnings, hcheckpoints⟩ := loadComparisonInput_ok hinput
    refine ⟨?_, ?_, fun hops => ?_⟩
    · rw [hbytes, hindexed.byteLengths]
    · rw [hwarnings, hindexed.warnings]
    · have hdescribed : Described db committed :=
        Machine.run_notes_invariant (L := fun request : Request => request.op.WithEvent)
          (fun _ _ request hop hdb => described_step request hop hdb) hops described_empty
      refine ⟨?_, hdescribed.eventsOf runId, fun c hc => ?_⟩
      · rw [hcheckpoints, hdescribed.checkpointsOf]
      · obtain ⟨hrun, hsequence, -, -, hpayload⟩ := hdescribed.described c hc
        refine ⟨checkpointRow c.1, ?_, hrun.symm, ?_, hpayload⟩
        · rw [hdescribed.checkpoints]
          exact List.mem_map_of_mem hc
        · show c.1.sequence.get = c.2.sequence.get
          rw [hsequence]
  · obtain ⟨row, hrow, rfl⟩ := List.mem_map.mp hknown
    obtain ⟨run, hrun⟩ := (readable_run codecs hids).exists_loadRunRecord hrow
    refine exists_loadComparisonInput hrun ?_ hwarnings hcheckpoints
    rw [hindexed.byteLengths]
    exact hbytes

end Rewind

/-
Startup recovery.

A process that ends without finalizing its run leaves it active, at any boundary between two
transactions.  The next writer interrupts every such run.  The row it writes must pass what
`load_run` checks, whatever the run had reached.

* `Db.RunsReadable` — what every reachable database keeps: rows that `load_run` accepts;
* `Db.WarningsNoted` — the warnings of an active run are those of its events, so that the key of
  the next warning is no larger than the number of the next event;
* **`recovery_exact`** — the recovery of any reachable database.
-/
import Rewind.Store.Queries

namespace Rewind

/-! ### Rows that load -/

/-- What `load_run` relies on in a row of `runs`. -/
structure Db.RowReadable (db : Db) (row : RunRow) : Prop where
  checked : db.checkRunRow row = .ok ()
  started : row.status = .running → row.initialSnapshotId.isSome = true
  duration : ∀ duration ∈ row.monotonicDurationNs, duration < 2 ^ 64

/-- What `load_run` relies on in the tables. -/
structure Db.RunsReadable (db : Db) : Prop where
  ids : (db.runs.map (·.id)).Nodup
  rows : ∀ row ∈ db.runs, db.RowReadable row
  argumentsOwned : ∀ row ∈ db.runArguments, row.runId ∈ db.runs.map (·.id)
  arguments : ∀ id, ∃ count,
    (db.runArguments.filter fun row => row.runId = id).map (·.position) = List.range' 0 count
  proper : ∀ row ∈ db.runParents, row.childRunId ≠ row.parentRunId
  offsets : ∀ row ∈ db.events, row.monotonicOffsetNs < 2 ^ 63

theorem runsReadable_empty : Db.empty.RunsReadable where
  ids := List.nodup_nil
  rows := fun _ h => absurd h List.not_mem_nil
  argumentsOwned := fun _ h => absurd h List.not_mem_nil
  arguments := fun _ => ⟨0, rfl⟩
  proper := fun _ h => absurd h List.not_mem_nil
  offsets := fun _ h => absurd h List.not_mem_nil

/-- Arguments whose positions follow one another load. -/
theorem loadArguments_ok {runId : RunId} {values : List String} {rows : List RunArgumentRow}
    {count : Nat} (h : rows.map (·.position) = List.range' values.length count) :
    loadArguments runId values rows = .ok (values ++ rows.map (·.value)) := by
  induction rows generalizing values count with
  | nil =>
    rw [loadArguments, List.map_nil, List.append_nil]
  | cons row rest ih =>
    rcases count with _ | count
    · exact absurd h (by simp)
    · rw [List.map_cons, List.range'_succ, List.cons.injEq] at h
      obtain ⟨hposition, hrest⟩ := h
      have hnext := @ih (values ++ [row.value]) count (by simpa using hrest)
      rw [loadArguments, ensure_bind_eq_ok_iff]
      refine ⟨hposition, ?_⟩
      rw [hnext, List.map_cons, List.append_assoc, List.singleton_append]

theorem sorted_of_range' {rows : List RunArgumentRow} {start count : Nat}
    (h : rows.map (·.position) = List.range' start count) :
    rows.insertionSort (fun row row' => row.position ≤ row'.position) = rows := by
  have hpositions : (rows.map (·.position)).Pairwise (· < ·) := by
    rw [h]
    exact List.pairwise_lt_range'
  refine List.Pairwise.insertionSort_eq ?_
  exact (List.pairwise_map.mp hpositions).imp Nat.le_of_lt

theorem decodeExitStatus_ok {row : RunRow} (h : Db.exitColumnsAgree row = true) :
    ∃ exitStatus, decodeExitStatus row.exitKind row.exitValue = .ok exitStatus := by
  unfold Db.exitColumnsAgree at h
  rcases hkind : row.exitKind with _ | (_ | _ | _) <;> rcases hvalue : row.exitValue with _ | value
    <;> rw [hkind, hvalue] at h <;> first | exact ⟨_, rfl⟩ | exact absurd h (by simp)

/-- A row that meets the constraints of its table decodes, once its run has started properly. -/
theorem decodeRun_ok {db : Db} {row : RunRow} {parent : Option RunParentRow}
    {arguments : List String} (hrow : db.RowReadable row)
    (hparent : ∀ edge ∈ parent, edge.parentRunId ≠ row.id) :
    ∃ run, decodeRun row parent arguments = .ok run := by
  obtain ⟨hcommand, ⟨hfinished, hended⟩, hexit, -, -⟩ := Db.checkRunRow_eq_ok_iff.mp hrow.checked
  obtain ⟨exitStatus, hexitStatus⟩ := decodeExitStatus_ok hexit
  have hdecoded : ∃ duration, row.monotonicDurationNs.mapM (decodeU64 "run monotonic duration")
      = .ok duration ∧ duration.isSome = row.monotonicDurationNs.isSome := by
    rcases hvalue : row.monotonicDurationNs with _ | value
    · exact ⟨none, rfl, rfl⟩
    · have hfits : value < 2 ^ 64 := hrow.duration value hvalue
      refine ⟨some (UInt64.ofNat value), ?_, rfl⟩
      show (some <$> decodeU64 "run monotonic duration" value) = _
      rw [decodeU64, if_pos hfits]
      rfl
  obtain ⟨duration, hmap, hsome⟩ := hdecoded
  refine ⟨_, Except.bind_eq_ok_iff.mpr ⟨duration, hmap, Except.bind_eq_ok_iff.mpr
    ⟨exitStatus, hexitStatus, Except.bind_eq_ok_iff.mpr ⟨(), ?_, rfl⟩⟩⟩⟩
  refine Except.mapError_eq_ok_iff.mpr (Run.validate_ok hcommand ?_ hrow.started ?_ ?_)
  · intro origin horigin
    obtain ⟨edge, hedge, rfl⟩ := Option.map_eq_some_iff.mp horigin
    exact hparent edge hedge
  · rw [Option.isSome_map]
    exact hfinished
  · rw [Option.isSome_map, hsome]
    exact hended

/-- In a readable database every run loads. -/
theorem Db.RunsReadable.loadRun {db : Db} (h : db.RunsReadable) {row : RunRow}
    (hrow : row ∈ db.runs) : ∃ run, loadRun db row.id = .ok run := by
  have hfind : db.run? row.id = some row := Table.find_of_mem _ h.ids hrow
  obtain ⟨count, hpositions⟩ := h.arguments row.id
  obtain ⟨run, hrun⟩ := @decodeRun_ok db row (Table.find (·.childRunId) db.runParents row.id)
    ((db.runArguments.filter fun argument => argument.runId = row.id).map (·.value))
    (h.rows row hrow) (by
      intro edge hedge heq
      have hchild : edge.childRunId = row.id := Table.find_some_key _ hedge
      exact h.proper edge (Table.mem_of_find _ hedge) (hchild.trans heq.symm))
  refine ⟨run, Except.bind_eq_ok_iff.mpr ⟨row, by rw [hfind]; rfl, ?_⟩⟩
  refine Except.bind_eq_ok_iff.mpr ⟨_, ?_, hrun⟩
  rw [sorted_of_range' hpositions, loadArguments_ok hpositions, List.nil_append]

/-! ### Statements keep the rows loadable -/

/-- The snapshots of `db` are still there in `db'`. -/
def SnapshotsKept (db db' : Db) : Prop :=
  ∀ id, (db.snapshot? id).isSome = true → (db'.snapshot? id).isSome = true

theorem Db.RowReadable.mono {db db' : Db} {row : RunRow} (hrow : db.RowReadable row)
    (hkept : SnapshotsKept db db') : db'.RowReadable row := by
  obtain ⟨hcommand, hfinish, hexit, hinitial, hfinal⟩ := Db.checkRunRow_eq_ok_iff.mp hrow.checked
  refine ⟨Db.checkRunRow_eq_ok_iff.mpr ⟨hcommand, hfinish, hexit, ?_, ?_⟩, hrow.started,
    hrow.duration⟩
  · intro id hid
    exact hkept id (hinitial id hid)
  · intro id hid
    exact hkept id (hfinal id hid)

/-- A statement that updates runs: the rows it writes load, and the others it leaves alone. -/
theorem Db.RunsReadable.of_update {db db' : Db} (h : db.RunsReadable) {p : RunRow → Bool}
    {f : RunRow → RunRow} (hruns : db'.runs = Table.update p f db.runs)
    (hid : ∀ row, (f row).id = row.id)
    (hrows : ∀ row ∈ db.runs, p row = true → db'.RowReadable (f row))
    (hkept : SnapshotsKept db db') (harguments : db'.runArguments = db.runArguments)
    (hparents : db'.runParents = db.runParents) (hevents : db'.events = db.events) :
    db'.RunsReadable := by
  have hids : db'.runs.map (·.id) = db.runs.map (·.id) := by
    rw [hruns, Table.map_key_update _ hid]
  constructor
  · rw [hids]
    exact h.ids
  · intro row hrow
    rw [hruns, Table.update] at hrow
    obtain ⟨row, hold, rfl⟩ := List.mem_map.mp hrow
    cases hp : p row
    · exact (h.rows row hold).mono hkept
    · exact hrows row hold hp
  · rw [harguments, hids]
    exact h.argumentsOwned
  · rw [harguments]
    exact h.arguments
  · rw [hparents]
    exact h.proper
  · rw [hevents]
    exact h.offsets

/-- A statement that leaves runs, arguments and edges alone. -/
theorem Db.RunsReadable.of_eq {db db' : Db} (h : db.RunsReadable) (hruns : db'.runs = db.runs)
    (hkept : SnapshotsKept db db') (harguments : db'.runArguments = db.runArguments)
    (hparents : db'.runParents = db.runParents)
    (hoffsets : ∀ row ∈ db'.events, row.monotonicOffsetNs < 2 ^ 63) : db'.RunsReadable := by
  constructor
  · rw [hruns]
    exact h.ids
  · intro row hrow
    rw [hruns] at hrow
    exact (h.rows row hrow).mono hkept
  · rw [harguments, hruns]
    exact h.argumentsOwned
  · rw [harguments]
    exact h.arguments
  · rw [hparents]
    exact h.proper
  · exact hoffsets

theorem argumentRows_positions (runId : RunId) (position : Nat) (arguments : List String) :
    (argumentRows runId position arguments).map (·.position)
      = List.range' position arguments.length := by
  induction arguments generalizing position with
  | nil => rfl
  | cons argument rest ih =>
    rw [argumentRows, List.map_cons, ih, List.length_cons, List.range'_succ]

theorem runId_of_mem_argumentRows {runId : RunId} {position : Nat} {arguments : List String}
    {row : RunArgumentRow} (h : row ∈ argumentRows runId position arguments) :
    row.runId = runId := by
  induction arguments generalizing position with
  | nil => exact absurd h List.not_mem_nil
  | cons argument rest ih =>
    rcases List.mem_cons.mp h with rfl | hrest
    · rfl
    · exact ih hrest

/-- The arguments of a new run are those it was created with. -/
theorem ownArguments_createRun {db : Db} (hdb : db.RunsReadable) {run : Run}
    (hfresh : run.id ∉ db.runs.map (·.id)) :
    (db.runArguments ++ argumentRows run.id 0 run.arguments).filter
        (fun row => row.runId = run.id) = argumentRows run.id 0 run.arguments := by
  have hnone : db.runArguments.filter (fun row => row.runId = run.id) = [] := by
    rw [List.filter_eq_nil_iff]
    intro row hrow hown
    exact hfresh (of_decide_eq_true hown ▸ hdb.argumentsOwned row hrow)
  rw [List.filter_append, hnone, List.nil_append, List.filter_eq_self]
  intro row hrow
  exact decide_eq_true (runId_of_mem_argumentRows hrow)

/-- The arguments of a created run are numbered from 0 on; those of the others stay. -/
theorem arguments_createRun {db : Db} (h : db.RunsReadable) {run : Run}
    (hfresh : run.id ∉ db.runs.map (·.id)) (id : RunId) :
    ∃ count, ((db.runArguments ++ argumentRows run.id 0 run.arguments).filter
        fun row => row.runId = id).map (·.position) = List.range' 0 count := by
  by_cases hid : id = run.id
  · rw [hid, ownArguments_createRun h hfresh, argumentRows_positions]
    exact ⟨run.arguments.length, rfl⟩
  · have hnone : (argumentRows run.id 0 run.arguments).filter (fun row => row.runId = id) = [] := by
      rw [List.filter_eq_nil_iff]
      intro row hrow hsame
      exact hid ((of_decide_eq_true hsame).symm.trans (runId_of_mem_argumentRows hrow))
    rw [List.filter_append, hnone, List.append_nil]
    exact h.arguments id

theorem runsReadable_createRun {db db' : Db} {run : Run} (h : createRun db run = .ok db')
    (hdb : db.RunsReadable) : db'.RunsReadable := by
  obtain ⟨-, hstatus, hfresh, hchecked, hparent⟩ := createRun_statements h
  have hnew : db.RowReadable (runRow run) := by
    refine ⟨hchecked, fun hrunning => ?_, fun duration hduration => ?_⟩
    · exact absurd (hstatus.symm.trans hrunning) (by decide)
    · obtain ⟨value, -, rfl⟩ := Option.map_eq_some_iff.mp hduration
      exact value.nanoseconds.toNat_lt
  -- the row and the arguments first: the edge is the last statement, if there is one
  have hcreated : Db.RunsReadable { db with
      runs := db.runs ++ [runRow run]
      runArguments := db.runArguments ++ argumentRows run.id 0 run.arguments } := by
    constructor
    · exact Table.insert_nodup _ hdb.ids hfresh
    · intro row hrow
      rcases List.mem_append.mp hrow with hold | hlast
      · exact (hdb.rows row hold).mono fun _ h => h
      · obtain rfl := List.mem_singleton.mp hlast
        exact hnew.mono fun _ h => h
    · intro row hrow
      show row.runId ∈ (db.runs ++ [runRow run]).map (·.id)
      rw [List.map_append]
      rcases List.mem_append.mp hrow with hold | hlast
      · exact List.mem_append_left _ (hdb.argumentsOwned row hold)
      · rw [runId_of_mem_argumentRows hlast]
        exact List.mem_append_right _ (List.mem_singleton_self run.id)
    · exact arguments_createRun hdb hfresh
    · exact hdb.proper
    · exact hdb.offsets
  rcases insertParent_ok hparent with ⟨-, rfl⟩ | ⟨parent, -, hproper, -, -, -, rfl⟩
  · exact hcreated
  · refine ⟨hcreated.ids, fun row' hrow' => (hcreated.rows row' hrow').mono fun _ h => h,
      hcreated.argumentsOwned, hcreated.arguments, ?_, hcreated.offsets⟩
    intro row' hrow'
    rcases List.mem_append.mp hrow' with hold | hlast
    · exact hcreated.proper row' hold
    · obtain rfl := List.mem_singleton.mp hlast
      exact hproper

theorem runsReadable_markRunRunning {db db' : Db} {runId : RunId} {initialSnapshot : SnapshotId}
    (h : markRunRunning db runId initialSnapshot = .ok db') (hdb : db.RunsReadable) :
    db'.RunsReadable := by
  obtain ⟨-, hruns⟩ := markRunRunning_ok h
  obtain ⟨⟨_, _⟩, hupdate, -⟩ := Except.bind_eq_ok_iff.mp h
  have hchecked := Db.updateRuns_checked (orDatabase_eq_ok_iff.mp hupdate)
  rw [hruns]
  refine hdb.of_update rfl (fun _ => rfl) (fun row hrow hp => ?_) (fun _ h => h) rfl rfl rfl
  have hreadable : db.RowReadable { row with
      status := .running
      initialSnapshotId := some initialSnapshot } :=
    ⟨hchecked row hrow hp, fun _ => rfl, (hdb.rows row hrow).duration⟩
  exact hreadable.mono fun _ h => h

theorem runsReadable_finishRunIn {db db' : Db} {runId : RunId} {finish : RunFinish}
    (h : finishRunIn db runId finish = .ok db') (hdb : db.RunsReadable) : db'.RunsReadable := by
  obtain ⟨hterminal, -, hruns⟩ := finishRunIn_ok h
  obtain ⟨-, h⟩ := ensure_bind_eq_ok_iff.mp h
  obtain ⟨_, -, h⟩ := Except.bind_eq_ok_iff.mp h
  obtain ⟨-, h⟩ := ensure_bind_eq_ok_iff.mp h
  obtain ⟨_, -, h⟩ := Except.bind_eq_ok_iff.mp h
  obtain ⟨⟨_, _⟩, hupdate, -⟩ := Except.bind_eq_ok_iff.mp h
  have hchecked := Db.updateRuns_checked (orDatabase_eq_ok_iff.mp hupdate)
  rw [hruns]
  refine hdb.of_update rfl (fun _ => rfl) (fun row hrow hp => ?_) (fun _ h => h) rfl rfl rfl
  have hreadable : db.RowReadable (finishedRow finish row) := by
    refine ⟨hchecked row hrow hp, fun hrunning => ?_, fun duration hduration => ?_⟩
    · have hfinish : finish.status = .running := hrunning
      rw [hfinish] at hterminal
      exact absurd hterminal (by decide)
    · obtain rfl := Option.some.inj hduration
      exact finish.monotonicDuration.nanoseconds.toNat_lt
  exact hreadable.mono fun _ h => h

/-- The duration a recovery finds fits the column: it is the offset of an event, or zero. -/
theorem largestOffset_lt {db : Db} (hdb : db.RunsReadable) (id : RunId) :
    ((Table.maxBy (·.monotonicOffsetNs) (db.eventsOf id)).map (·.monotonicOffsetNs)).getD 0
      < 2 ^ 64 := by
  rcases hlast : Table.maxBy (·.monotonicOffsetNs) (db.eventsOf id) with _ | last
  · rw [hlast]
    show 0 < 2 ^ 64
    omega
  · have hmem := (Table.maxBy_spec hlast).1
    have hfits := hdb.offsets last (List.mem_filter.mp hmem).1
    rw [hlast]
    show last.monotonicOffsetNs < 2 ^ 64
    omega

/-- A recovered row loads, whatever its run had reached. -/
theorem rowReadable_interruptedRow {db : Db} (hdb : db.RunsReadable) (recoveredAt : Timestamp)
    {row : RunRow} (hrow : db.RowReadable row) :
      db.RowReadable (interruptedRow db recoveredAt row) := by
  obtain ⟨hcommand, -, hexit, hinitial, hfinal⟩ := Db.checkRunRow_eq_ok_iff.mp hrow.checked
  refine ⟨Db.checkRunRow_eq_ok_iff.mpr ⟨hcommand, ⟨rfl, rfl⟩, hexit, hinitial, hfinal⟩, ?_, ?_⟩
  · intro hrunning
    exact absurd (show RunStatus.interrupted = .running from hrunning) (by decide)
  · intro duration hduration
    obtain rfl := Option.some.inj hduration
    exact largestOffset_lt hdb row.id

theorem runsReadable_recover {db db' : Db} {recoveredAt : Timestamp} {runIds : List RunId}
    (h : markInterruptedRuns db recoveredAt = .ok (db', runIds)) (hdb : db.RunsReadable) :
    db'.RunsReadable := by
  obtain ⟨-, warnings, rfl⟩ := markInterruptedRuns_ok h
  refine hdb.of_update rfl (fun _ => rfl) (fun row hrow _ => ?_) (fun _ h => h) rfl rfl rfl
  exact (rowReadable_interruptedRow hdb recoveredAt (hdb.rows row hrow)).mono fun _ h => h

theorem snapshotsKept_storeSnapshotIn {codecs : Codecs} {db db' : Db} {snapshot : Snapshot}
    {createdAt : Timestamp} (h : storeSnapshotIn codecs db snapshot createdAt = .ok db') :
    SnapshotsKept db db' := by
  intro id hid
  rcases storeSnapshotIn_ok h with ⟨rfl, -⟩ | ⟨-, -, total, rfl⟩
  · exact hid
  · show (Table.find (·.id) (db.snapshots ++ [snapshotRow snapshot createdAt total]) id).isSome
      = true
    obtain ⟨row, hrow⟩ := Option.isSome_iff_exists.mp hid
    have hfind : Table.find (·.id) db.snapshots id = some row := hrow
    rw [Table.find_append, hfind]
    rfl

/-- A checkpoint links a run to a snapshot that is there. -/
theorem runsReadable_checkpoint {codecs : Codecs} {db db' : Db} {checkpoint : Checkpoint}
    {snapshot : Snapshot} (h : commitCheckpointIn codecs db checkpoint snapshot = .ok db')
    (hdb : db.RunsReadable) : db'.RunsReadable := by
  obtain ⟨db₁, hstore, -, -, -, hruns⟩ := commitCheckpointIn_ok h
  have hsnapshot : (db₁.snapshot? checkpoint.snapshotId).isSome = true := by
    obtain ⟨db₂, hstore', h⟩ := Except.bind_eq_ok_iff.mp h
    obtain rfl := Except.ok.inj (hstore.symm.trans hstore')
    obtain ⟨_, -, h⟩ := Except.bind_eq_ok_iff.mp h
    obtain ⟨_, -, h⟩ := Except.bind_eq_ok_iff.mp h
    obtain ⟨_, hinsert, -⟩ := Except.bind_eq_ok_iff.mp h
    exact (Db.insertCheckpoint_eq_ok_iff.mp (orDatabase_eq_ok_iff.mp hinsert)).2.1
  have hkept := snapshotsKept_storeSnapshotIn hstore
  have hlinked : db₁.snapshotExists (some checkpoint.snapshotId) := by
    intro id hid
    obtain rfl := Option.some.inj hid
    exact hsnapshot
  obtain ⟨snapshots, snapshotEntries, rfl⟩ := storeSnapshotIn_frame hstore
  rw [hruns]
  cases hreason : checkpoint.reason
  case initial =>
    refine hdb.of_update (linkedRuns_initial hreason db.runs) (fun _ => rfl) ?_ hkept rfl rfl rfl
    intro row hrow _
    have hold := (hdb.rows row hrow).mono hkept
    obtain ⟨hcommand, hfinish, hexit, -, hfinal⟩ := Db.checkRunRow_eq_ok_iff.mp hold.checked
    exact ⟨Db.checkRunRow_eq_ok_iff.mpr ⟨hcommand, hfinish, hexit, hlinked, hfinal⟩,
      fun _ => rfl, hold.duration⟩
  case final =>
    refine hdb.of_update (linkedRuns_final hreason db.runs) (fun _ => rfl) ?_ hkept rfl rfl rfl
    intro row hrow _
    have hold := (hdb.rows row hrow).mono hkept
    obtain ⟨hcommand, hfinish, hexit, hinitial, -⟩ := Db.checkRunRow_eq_ok_iff.mp hold.checked
    exact ⟨Db.checkRunRow_eq_ok_iff.mpr ⟨hcommand, hfinish, hexit, hinitial, hlinked⟩,
      hold.started, hold.duration⟩
  all_goals
    refine hdb.of_eq ?_ hkept rfl rfl hdb.offsets
    simp only [linkedRuns, hreason]

theorem statements_keepReadable (codecs : Codecs) :
    StatementsRelate codecs fun db db' => db.RunsReadable → db'.RunsReadable where
  refl _ hdb := hdb
  trans h₁₂ h₂₃ hdb := h₂₃ (h₁₂ hdb)
  createRun := runsReadable_createRun
  markRunRunning := runsReadable_markRunRunning
  append {db _ events} h hdb := by
    obtain ⟨rfl, hfits⟩ := appendEventBatchIn_ok h
    refine hdb.of_eq rfl (fun _ h => h) rfl rfl fun row hrow => ?_
    rcases List.mem_append.mp hrow with hold | hnew
    · exact hdb.offsets row hold
    · obtain ⟨event, hevent, rfl⟩ := List.mem_map.mp hnew
      rcases events with _ | ⟨first, rest⟩
      · exact absurd hevent List.not_mem_nil
      · exact ((hfits first rfl).storable event hevent).2
  storeSnapshot h hdb := by
    have hkept := snapshotsKept_storeSnapshotIn h
    obtain ⟨snapshots, snapshotEntries, rfl⟩ := storeSnapshotIn_frame h
    exact hdb.of_eq rfl hkept rfl rfl hdb.offsets
  checkpoint := runsReadable_checkpoint
  finish := runsReadable_finishRunIn
  recover := runsReadable_recover
  recordObject h hdb := by
    obtain ⟨row, -, -, -, rfl, -⟩ := recordObject_ok h
    obtain ⟨rows, -, hrows⟩ := Db.insertObject_frame _ row
    rw [hrows]
    exact hdb.of_eq rfl (fun _ h => h) rfl rfl hdb.offsets
  deleteObject h hdb := by
    obtain ⟨-, rfl⟩ := deleteObjectRow_ok h
    exact hdb.of_eq rfl (fun _ h => h) rfl rfl hdb.offsets

/-! ### The recovery succeeds -/

/-- The key of the next warning of a run is larger than those there are. -/
theorem recoveryWarning_fresh (db : Db) (recoveredAt : Timestamp) (runId : RunId) :
    (runId, (recoveryWarning db recoveredAt runId).sequence)
      ∉ db.warnings.map fun row => (row.runId, row.sequence) := by
  intro hmem
  obtain ⟨row, hrow, hkey⟩ := List.mem_map.mp hmem
  obtain ⟨hrun, hsequence⟩ := Prod.mk.inj hkey
  have hown : row ∈ db.warnings.filter fun row => row.runId = runId :=
    List.mem_filter.mpr ⟨hrow, decide_eq_true hrun⟩
  rcases hbest : Table.maxBy (·.sequence) (db.warnings.filter fun row => row.runId = runId)
    with _ | best
  · rw [Table.maxBy_eq_none_iff.mp hbest] at hown
    exact absurd hown List.not_mem_nil
  · have hle := (Table.maxBy_spec hbest).2 row hown
    rw [recoveryWarning, hbest] at hsequence
    have hnext : row.sequence = best.sequence + 1 := hsequence
    omega

/-- The next warning of one run does not depend on the warnings of another. -/
theorem recoveryWarning_other {db : Db} {runs : List RunRow} {warning : WarningRow} {runId : RunId}
    (h : warning.runId ≠ runId) (recoveredAt : Timestamp) :
    recoveryWarning { db with runs, warnings := db.warnings ++ [warning] } recoveredAt runId
      = recoveryWarning db recoveredAt runId := by
  have hfilter : (db.warnings ++ [warning]).filter (fun row => row.runId = runId)
      = db.warnings.filter fun row => row.runId = runId := by
    rw [List.filter_append, List.filter_singleton, decide_eq_false h]
    exact List.append_nil _
  simp only [recoveryWarning, hfilter]

theorem id_interruptedRow (db : Db) (recoveredAt : Timestamp) (row : RunRow) :
    (interruptedRow db recoveredAt row).id = row.id := rfl

theorem ids_recovered (db : Db) (recoveredAt : Timestamp) (p : RunRow → Bool) :
    (Table.update p (interruptedRow db recoveredAt) db.runs).map (·.id) = db.runs.map (·.id) :=
  Table.map_key_update _ (id_interruptedRow db recoveredAt) _

theorem recoverRun_eq {db : Db} (hdb : db.RunsReadable) {runId : RunId}
    (hrun : runId ∈ db.runs.map (·.id)) (recoveredAt : Timestamp) :
    recoverRun recoveredAt db runId = .ok { db with
      runs := Table.update (fun row => row.id = runId ∧ isActive row)
        (interruptedRow db recoveredAt) db.runs
      warnings := db.warnings ++ [recoveryWarning db recoveredAt runId] } := by
  let runs := Table.update (fun row => row.id = runId ∧ isActive row)
    (interruptedRow db recoveredAt) db.runs
  refine Except.bind_eq_ok_iff.mpr ⟨({ db with runs }, _), orDatabase_eq_ok_iff.mpr
    (Except.bind_eq_ok_iff.mpr ⟨(), ?_, rfl⟩), orDatabase_eq_ok_iff.mpr ?_⟩
  · refine List.forM_eq_ok_iff.mpr fun row hrow => ?_
    exact (rowReadable_interruptedRow hdb recoveredAt
      (hdb.rows row (List.mem_filter.mp hrow).1)).checked
  · refine Db.insertWarning_eq_ok_iff.mpr ⟨(Table.find_isSome_iff _).mpr ?_, ?_, rfl⟩
    · exact (ids_recovered db recoveredAt _).symm ▸ hrun
    · exact recoveryWarning_fresh db recoveredAt runId

/-- The loop of the recovery returns, with one warning for each run it names. -/
theorem foldlM_recoverRun_eq {db : Db} (hdb : db.RunsReadable) {runIds : List RunId}
    (hnodup : runIds.Nodup) (hruns : ∀ runId ∈ runIds, runId ∈ db.runs.map (·.id))
    (recoveredAt : Timestamp) :
    ∃ db', runIds.foldlM (recoverRun recoveredAt) db = .ok db'
      ∧ db'.warnings = db.warnings ++ runIds.map (recoveryWarning db recoveredAt) := by
  induction runIds generalizing db with
  | nil => exact ⟨db, rfl, (List.append_nil _).symm⟩
  | cons runId rest ih =>
    obtain ⟨hnew, hdistinct⟩ := List.nodup_cons.mp hnodup
    obtain ⟨hrun, hrest⟩ := List.forall_mem_cons.mp hruns
    have hfirst := recoverRun_eq hdb hrun recoveredAt
    let runs := Table.update (fun row => row.id = runId ∧ isActive row)
      (interruptedRow db recoveredAt) db.runs
    let db₁ : Db :=
      { db with runs, warnings := db.warnings ++ [recoveryWarning db recoveredAt runId] }
    have hdb₁ : db₁.RunsReadable := by
      refine @Db.RunsReadable.of_update db db₁ hdb _ _ rfl (fun _ => rfl) (fun row hrow _ => ?_)
        (fun _ h => h)
        rfl rfl rfl
      exact (rowReadable_interruptedRow hdb recoveredAt (hdb.rows row hrow)).mono fun _ h => h
    have hids : db₁.runs.map (·.id) = db.runs.map (·.id) := ids_recovered db recoveredAt _
    obtain ⟨db', hloop, hwarnings⟩ := ih hdb₁ hdistinct fun id hid => hids ▸ hrest id hid
    refine ⟨db', List.foldlM_eq_ok_cons.mpr ⟨db₁, hfirst, hloop⟩, ?_⟩
    -- the runs still to come have other keys, so that their warnings are those of `db`
    have hsame : rest.map (recoveryWarning db₁ recoveredAt)
        = rest.map (recoveryWarning db recoveredAt) := by
      refine List.map_congr_left fun id hid => recoveryWarning_other ?_ recoveredAt
      intro heq
      have hid' : runId = id := heq
      exact hnew (hid' ▸ hid)
    rw [hwarnings, hsame, List.map_cons]
    show (db.warnings ++ [_]) ++ _ = _
    rw [List.append_assoc, List.singleton_append]

theorem mem_activeRunIds {db : Db} {id : RunId} :
    id ∈ activeRunIds db ↔ ∃ row ∈ db.runs, row.id = id ∧ isActive row = true := by
  rw [activeRunIds, List.mem_insertionSort, List.mem_map]
  constructor
  · rintro ⟨row, hrow, rfl⟩
    obtain ⟨hmem, hactive⟩ := List.mem_filter.mp hrow
    exact ⟨row, hmem, rfl, hactive⟩
  · rintro ⟨row, hmem, rfl, hactive⟩
    exact ⟨row, List.mem_filter.mpr ⟨hmem, hactive⟩, rfl⟩

theorem nodup_activeRunIds {db : Db} (hdb : db.RunsReadable) : (activeRunIds db).Nodup := by
  rw [activeRunIds, (List.perm_insertionSort _ _).nodup_iff]
  exact (List.filter_sublist.map _).nodup hdb.ids

/-- A recovery returns, and these are all its changes. -/
theorem markInterruptedRuns_eq {db : Db} (hdb : db.RunsReadable) (recoveredAt : Timestamp) :
    markInterruptedRuns db recoveredAt = .ok
      ({ db with
          runs := Table.update isActive (interruptedRow db recoveredAt) db.runs
          warnings := db.warnings ++ (activeRunIds db).map (recoveryWarning db recoveredAt) },
        activeRunIds db) := by
  have hruns : ∀ runId ∈ activeRunIds db, runId ∈ db.runs.map (·.id) := by
    intro runId hrun
    obtain ⟨row, hrow, rfl, -⟩ := mem_activeRunIds.mp hrun
    exact List.mem_map_of_mem hrow
  obtain ⟨db', hloop, hwarnings⟩ :=
    foldlM_recoverRun_eq hdb (nodup_activeRunIds hdb) hruns recoveredAt
  have hrecover : markInterruptedRuns db recoveredAt = .ok (db', activeRunIds db) :=
    Except.bind_eq_ok_iff.mpr ⟨db', hloop, rfl⟩
  obtain ⟨-, warnings, rfl⟩ := markInterruptedRuns_ok hrecover
  have hnew : db.warnings ++ warnings = _ := hwarnings
  rw [hrecover, hnew]

/-! ### Warnings of active runs -/

/-- What a recovery finds. -/
structure Db.Recoverable (db : Db) : Prop where
  readable : db.RunsReadable
  wellFormed : db.WellFormed
  noted : ∀ warning ∈ db.warnings,
    db.isTerminal warning.runId ∨ ∃ row ∈ db.eventsOf warning.runId, row.sequence = warning.sequence

theorem recoverable_empty : Db.empty.Recoverable :=
  ⟨runsReadable_empty, wellFormed_empty, fun _ h => absurd h List.not_mem_nil⟩

/-- A warning that was accounted for stays so, as the timelines grow. -/
theorem noted_of_extends {db db' : Db} (hext : TimelinesExtend db db') {warning : WarningRow}
    (h : db.isTerminal warning.runId
      ∨ ∃ row ∈ db.eventsOf warning.runId, row.sequence = warning.sequence) :
    db'.isTerminal warning.runId
      ∨ ∃ row ∈ db'.eventsOf warning.runId, row.sequence = warning.sequence := by
  rcases h with hterminal | ⟨row, hrow, hsequence⟩
  · exact Or.inl (hext.terminal _ hterminal).1
  · obtain ⟨hmem, hown⟩ := List.mem_filter.mp hrow
    exact Or.inr ⟨row, List.mem_filter.mpr ⟨hext.grows.subset hmem, hown⟩, hsequence⟩

/-- A statement that adds no warning. -/
theorem Db.Recoverable.of_warnings {db db' : Db} (hdb : db.Recoverable)
    (hreadable : db.RunsReadable → db'.RunsReadable) (htimelines : KeepsTimelines db db')
    (hwarnings : db'.warnings = db.warnings) : db'.Recoverable := by
  obtain ⟨hwellFormed, hext⟩ := htimelines hdb.wellFormed
  refine ⟨hreadable hdb.readable, hwellFormed, fun warning hwarning => ?_⟩
  rw [hwarnings] at hwarning
  exact noted_of_extends hext (hdb.noted warning hwarning)

/-- The warnings of a batch are its warning events, under their numbers. -/
theorem recoverable_append {db db' : Db} {events : List Event}
    (h : appendEventBatchIn db events = .ok db')
    (hreadable : db.RunsReadable → db'.RunsReadable) (hdb : db.Recoverable) : db'.Recoverable := by
  obtain ⟨hwellFormed, hext⟩ := keepsTimelines_append h hdb.wellFormed
  refine ⟨hreadable hdb.readable, hwellFormed, fun warning hwarning => ?_⟩
  obtain ⟨rfl, -⟩ := appendEventBatchIn_ok h
  rcases List.mem_append.mp hwarning with hold | hnew
  · exact noted_of_extends hext (hdb.noted warning hold)
  · obtain ⟨event, hevent, hrow⟩ := List.mem_filterMap.mp hnew
    have hcolumns : event.runId = warning.runId ∧ event.seq = warning.sequence := by
      unfold warningRow? at hrow
      split at hrow
      · obtain rfl := Option.some.inj hrow
        exact ⟨rfl, rfl⟩
      · exact absurd hrow (by simp)
    refine Or.inr ⟨eventRow event, List.mem_filter.mpr ⟨?_, decide_eq_true hcolumns.1⟩, hcolumns.2⟩
    exact List.mem_append_right _ (List.mem_map_of_mem hevent)

/-- The warnings of a recovery belong to the runs it has ended. -/
theorem recoverable_recover {db db' : Db} {recoveredAt : Timestamp} {runIds : List RunId}
    (h : markInterruptedRuns db recoveredAt = .ok (db', runIds))
      (htimelines : KeepsTimelines db db')
    (hdb : db.Recoverable) : db'.Recoverable := by
  obtain ⟨hwellFormed, hext⟩ := htimelines hdb.wellFormed
  refine ⟨runsReadable_recover h hdb.readable, hwellFormed, fun warning hwarning => ?_⟩
  rw [markInterruptedRuns_eq hdb.readable] at h
  obtain ⟨rfl, rfl⟩ := Prod.mk.inj (Except.ok.inj h)
  rcases List.mem_append.mp hwarning with hold | hnew
  · exact noted_of_extends hext (hdb.noted warning hold)
  · obtain ⟨runId, hrunId, rfl⟩ := List.mem_map.mp hnew
    obtain ⟨row, hrow, rfl, hactive⟩ := mem_activeRunIds.mp hrunId
    refine Or.inl ⟨interruptedRow db recoveredAt row, ?_, rfl⟩
    show Table.find (·.id) (Table.update isActive (interruptedRow db recoveredAt) db.runs) row.id
      = _
    rw [Table.find_update _ (id_interruptedRow db recoveredAt),
      Table.find_of_mem _ hdb.readable.ids hrow, Option.map_some, if_pos hactive]

theorem statements_keepRecoverable (codecs : Codecs) :
    StatementsRelate codecs fun db db' => db.Recoverable → db'.Recoverable where
  refl _ hdb := hdb
  trans h₁₂ h₂₃ hdb := h₂₃ (h₁₂ hdb)
  createRun h hdb := by
    have htimelines := keepsTimelines_createRun h
    have hreadable := runsReadable_createRun h
    obtain ⟨-, -, -, runArguments, runParents, rfl⟩ := createRun_ok h
    exact hdb.of_warnings hreadable htimelines rfl
  markRunRunning h hdb := by
    have htimelines := (statements_keepTimelines codecs).markRunRunning h
    have hreadable := runsReadable_markRunRunning h
    obtain ⟨-, rfl⟩ := markRunRunning_ok h
    exact hdb.of_warnings hreadable htimelines rfl
  append h := recoverable_append h ((statements_keepReadable codecs).append h)
  storeSnapshot h hdb := by
    have htimelines := keepsTimelines_storeSnapshot h
    have hreadable := (statements_keepReadable codecs).storeSnapshot h
    obtain ⟨snapshots, snapshotEntries, rfl⟩ := storeSnapshotIn_frame h
    exact hdb.of_warnings hreadable htimelines rfl
  checkpoint h hdb := by
    have htimelines := keepsTimelines_checkpoint h
    have hreadable := runsReadable_checkpoint h
    obtain ⟨db₁, hstore, -, -, -, rfl⟩ := commitCheckpointIn_ok h
    obtain ⟨snapshots, snapshotEntries, rfl⟩ := storeSnapshotIn_frame hstore
    exact hdb.of_warnings hreadable htimelines rfl
  finish h hdb := by
    have htimelines := (statements_keepTimelines codecs).finish h
    have hreadable := runsReadable_finishRunIn h
    obtain ⟨-, -, rfl⟩ := finishRunIn_ok h
    exact hdb.of_warnings hreadable htimelines rfl
  recover h := recoverable_recover h ((statements_keepTimelines codecs).recover h)
  recordObject h hdb := by
    have htimelines := (statements_keepTimelines codecs).recordObject h
    have hreadable := (statements_keepReadable codecs).recordObject h
    obtain ⟨row, -, -, -, rfl, -⟩ := recordObject_ok h
    obtain ⟨rows, -, hrows⟩ := Db.insertObject_frame _ row
    exact hdb.of_warnings hreadable htimelines (by rw [hrows])
  deleteObject h hdb := by
    have htimelines := (statements_keepTimelines codecs).deleteObject h
    have hreadable := (statements_keepReadable codecs).deleteObject h
    obtain ⟨-, rfl⟩ := deleteObjectRow_ok h
    exact hdb.of_warnings hreadable htimelines rfl

/-- The next warning of an active run comes no later than its next event. -/
theorem recoveryWarning_le {db : Db} (hdb : db.Recoverable) (recoveredAt : Timestamp)
    {runId : RunId} (hactive : runId ∈ activeRunIds db) :
    (recoveryWarning db recoveredAt runId).sequence ≤ (db.eventsOf runId).length + 1 := by
  rcases hbest : Table.maxBy (·.sequence) (db.warnings.filter fun row => row.runId = runId)
    with _ | best
  · rw [recoveryWarning, hbest]
    show 1 ≤ _
    omega
  · obtain ⟨hmem, hown⟩ := List.mem_filter.mp (Table.maxBy_spec hbest).1
    obtain rfl := of_decide_eq_true hown
    obtain ⟨row, hrow, hid, hopen⟩ := mem_activeRunIds.mp hactive
    rcases hdb.noted best hmem with ⟨row', hfind, hterminal⟩ | ⟨event, hevent, hsequence⟩
    · -- the run is active, so that it has no warning of a recovery
      have hsame := Table.find_of_mem _ hdb.readable.ids hrow
      rw [hid] at hsame
      obtain rfl := Option.some.inj (hsame.symm.trans hfind)
      rw [isActive, hterminal] at hopen
      exact absurd hopen (by decide)
    · have hnumbers := (hdb.wellFormed.timelines best.runId).map_seq
      have hnumber : event.sequence ∈ (db.eventsOf best.runId).map (·.sequence) :=
        List.mem_map_of_mem hevent
      rw [hnumbers, List.mem_range'_1] at hnumber
      rw [recoveryWarning, hbest]
      show best.sequence + 1 ≤ _
      omega

/-! ### Exactness -/

/-- **Startup recovery is exact.**  In every database the writer reaches, a recovery returns and
leaves no run active.  It interrupts the active runs and no other: each gets a finish time, the
largest offset among its events as its duration, and one warning under a key it has not used, which
is no larger than the number of its next event.  Nothing else changes, every run still loads, and a
second recovery finds nothing to do. -/
theorem recovery_exact (codecs : Codecs) (requests : List Request) (recoveredAt again : Timestamp) :
    let db := Machine.run (step codecs) Db.empty requests
    ∃ db', markInterruptedRuns db recoveredAt = .ok (db', activeRunIds db)
      ∧ (∀ row ∈ db'.runs, row.status.isTerminal = true)
      ∧ db' = { db with
          runs := db.runs.map fun row =>
            if row.status.isTerminal then row else
              { row with
                status := .interrupted
                finishedUnixMs := some recoveredAt.unixMilliseconds
                monotonicDurationNs :=
                  some (((db.eventsOf row.id).map (·.monotonicOffsetNs)).foldr max 0) }
          warnings := db.warnings ++ (activeRunIds db).map (recoveryWarning db recoveredAt) }
      ∧ (activeRunIds db).Nodup
      ∧ (∀ id, id ∈ activeRunIds db ↔
          ∃ row ∈ db.runs, row.id = id ∧ row.status.isTerminal = false)
      ∧ (∀ id ∈ activeRunIds db,
          (recoveryWarning db recoveredAt id).runId = id
            ∧ (id, (recoveryWarning db recoveredAt id).sequence)
                ∉ db.warnings.map (fun row => (row.runId, row.sequence))
            ∧ (recoveryWarning db recoveredAt id).sequence ≤ (db.eventsOf id).length + 1)
      ∧ (∀ row ∈ db'.runs, ∃ run, loadRun db' row.id = .ok run)
      ∧ markInterruptedRuns db' again = .ok (db', []) := by
  intro db
  have hdb : db.Recoverable :=
    (statements_keepRecoverable codecs).run Db.empty requests recoverable_empty
  have hrecover := markInterruptedRuns_eq hdb.readable recoveredAt
  have hdb' := runsReadable_recover hrecover hdb.readable
  have hended : ∀ row ∈ Table.update isActive (interruptedRow db recoveredAt) db.runs,
      row.status.isTerminal = true := by
    intro row hrow
    obtain ⟨old, -, rfl⟩ := List.mem_map.mp hrow
    cases hactive : isActive old
    · have hterminal := hactive
      rw [isActive, Bool.not_eq_false'] at hterminal
      simpa [hactive] using hterminal
    · simp only [if_true]
      rfl
  refine ⟨_, hrecover, hended, ?_, nodup_activeRunIds hdb.readable, fun id => ?_, fun id hid => ?_,
    fun row hrow => hdb'.loadRun hrow, ?_⟩
  · simp only [Db.mk.injEq, true_and, and_true]
    refine List.map_congr_left fun row _ => ?_
    rw [isActive, interruptedRow, Table.maxBy_getD]
    cases row.status.isTerminal <;> rfl
  · rw [mem_activeRunIds]
    simp only [isActive, Bool.not_eq_true']
  · exact ⟨rfl, recoveryWarning_fresh db recoveredAt id, recoveryWarning_le hdb recoveredAt hid⟩
  · -- no run is active any more, so that the second loop is empty
    have hnone : activeRunIds { db with
        runs := Table.update isActive (interruptedRow db recoveredAt) db.runs
        warnings := db.warnings ++ (activeRunIds db).map (recoveryWarning db recoveredAt) }
          = [] := by
      rw [List.eq_nil_iff_forall_not_mem]
      intro id hid
      obtain ⟨row, hrow, -, hactive⟩ := mem_activeRunIds.mp hid
      rw [isActive, hended row hrow] at hactive
      exact absurd hactive (by decide)
    rw [markInterruptedRuns, hnone]
    rfl

end Rewind

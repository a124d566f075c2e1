/-
The life cycle of a run's row.

Each change of status should be a legal transition, a terminal row should never
change again, and a snapshot link that a committed checkpoint has set should stay.
`RunsLawful` says so of one step.  Three operations can break it: the start of
capture and a finalization overwrite a link without looking at it, and a checkpoint
committed without an event may link a snapshot to a run that has ended.

* `Op.Respects` — the condition, on the database and the arguments of an operation;
* `runsLawful_iff_respects` — a successful operation is lawful exactly under it;
* **`runs_lawful`** — every run of the writer whose requests respect it is lawful.
-/
import Rewind.Store.Timeline

namespace Rewind

/-- The columns that end with the run. -/
def RunRow.lifeColumns (row : RunRow) :=
  (row.status, row.finishedUnixMs, row.monotonicDurationNs, row.exitKind, row.exitValue,
    row.initialSnapshotId, row.finalSnapshotId)

/-- The law of one row: `row'` is what a step has made of `row`, with `checkpoints` committed. -/
structure RowLaw (checkpoints : List CheckpointRow) (row row' : RunRow) : Prop where
  status : row'.status = row.status ∨ row.status.canTransitionTo row'.status = true
  frozen : row.status.isTerminal = true → row'.lifeColumns = row.lifeColumns
  initialKept : ∀ c ∈ checkpoints, c.runId = row.id → c.reason = .initial →
    row.initialSnapshotId = some c.snapshotId → row'.initialSnapshotId = some c.snapshotId
  finalKept : ∀ c ∈ checkpoints, c.runId = row.id → c.reason = .final →
    row.finalSnapshotId = some c.snapshotId → row'.finalSnapshotId = some c.snapshotId

/-- Every row that `db` holds is still there in `db'`, changed within the law. -/
def RunsLawful (db db' : Db) : Prop :=
  ∀ runId row, db.run? runId = some row → ∃ row', db'.run? runId = some row'
    ∧ RowLaw db.checkpoints row row'

/-- The operation replaces no link that a committed checkpoint has set, and sets none on a run
that has ended. -/
def Op.Respects (db : Db) : Op → Prop
  | .markRunRunning runId initialSnapshot =>
    ∀ row ∈ db.run? runId, row.status = .preparing →
      ∀ c ∈ db.checkpoints, c.runId = row.id → c.reason = .initial →
        row.initialSnapshotId = some c.snapshotId → initialSnapshot = c.snapshotId
  | .finishRun runId finish | .finishRunWithEvents runId finish _ =>
    ∀ row ∈ db.run? runId, row.status.canTransitionTo finish.status = true →
      ∀ c ∈ db.checkpoints, c.runId = row.id → c.reason = .final →
        row.finalSnapshotId = some c.snapshotId → finish.finalSnapshot = some c.snapshotId
  | .commitCheckpoint checkpoint _ =>
    ∀ row ∈ db.run? checkpoint.runId, row.status.isTerminal = true →
      (checkpoint.reason = .initial → row.initialSnapshotId ≠ none)
        ∧ (checkpoint.reason = .final → row.finalSnapshotId ≠ none)
  | _ => True

instance (db : Db) : (op : Op) → Decidable (op.Respects db)
  | .markRunRunning .. | .finishRun .. | .finishRunWithEvents .. | .commitCheckpoint .. => by
    unfold Op.Respects
    infer_instance
  | .createRun .. | .appendEventBatch .. | .storeSnapshot .. | .commitCheckpointWithEvent ..
  | .markInterruptedRuns .. | .recordObject .. | .deleteObject .. => .isTrue trivial

/-! ### The law of a statement -/

theorem RowLaw.refl (checkpoints : List CheckpointRow) (row : RunRow) :
    RowLaw checkpoints row row where
  status := Or.inl rfl
  frozen := fun _ => rfl
  initialKept := fun _ _ _ _ h => h
  finalKept := fun _ _ _ _ h => h

theorem RunsLawful.of_eq {db db' : Db} (hruns : db'.runs = db.runs) : RunsLawful db db' := by
  intro runId row hrow
  refine ⟨row, ?_, RowLaw.refl _ row⟩
  rw [← hrow, Db.run?, hruns]
  rfl

/-- A statement that updates runs is lawful exactly when it is on the rows it selects. -/
theorem runsLawful_update_iff {db db' : Db} {p : RunRow → Bool} {f : RunRow → RunRow}
    (hruns : db'.runs = Table.update p f db.runs) (hid : ∀ row, (f row).id = row.id) :
    RunsLawful db db' ↔
      ∀ runId row, db.run? runId = some row → p row = true → RowLaw db.checkpoints row (f row) := by
  have hfind : ∀ runId row, db.run? runId = some row →
      db'.run? runId = some (if p row then f row else row) := by
    intro runId row hrow
    rw [Db.run?, hruns, Table.find_update _ hid]
    rw [Db.run?] at hrow
    rw [hrow]
    rfl
  constructor
  · intro hlaw runId row hrow hp
    obtain ⟨row', hrow', hrowLaw⟩ := hlaw runId row hrow
    rw [hfind runId row hrow, if_pos hp] at hrow'
    obtain rfl := Option.some.inj hrow'
    exact hrowLaw
  · intro hlaw runId row hrow
    refine ⟨_, hfind runId row hrow, ?_⟩
    cases hp : p row
    · exact RowLaw.refl _ row
    · exact hlaw runId row hrow hp

theorem createRun_lawful {db db' : Db} {run : Run} (h : createRun db run = .ok db') :
    RunsLawful db db' := by
  obtain ⟨-, -, -, runArguments, runParents, rfl⟩ := createRun_ok h
  intro runId row hrow
  refine ⟨row, ?_, RowLaw.refl _ row⟩
  have hfind : Table.find (·.id) db.runs runId = some row := hrow
  show Table.find (·.id) (db.runs ++ [runRow run]) runId = some row
  rw [Table.find_append, hfind]
  rfl

theorem markRunRunning_lawful_iff {db db' : Db} {runId : RunId} {initialSnapshot : SnapshotId}
    (h : markRunRunning db runId initialSnapshot = .ok db') :
    RunsLawful db db' ↔ (Op.markRunRunning runId initialSnapshot).Respects db := by
  obtain ⟨-, hdb⟩ := markRunRunning_ok h
  have hruns := congrArg Db.runs hdb
  refine (runsLawful_update_iff hruns fun _ => rfl).trans ?_
  constructor
  · intro hlaw row hrow hpreparing c hc hrun hreason hlink
    have hselected := decide_eq_true (And.intro (Table.find_some_key _ hrow) hpreparing)
    exact Option.some.inj ((hlaw runId row hrow hselected).initialKept c hc hrun hreason hlink)
  · intro hrespects runId' row hrow hselected
    obtain ⟨hid, hpreparing⟩ := of_decide_eq_true hselected
    obtain rfl : runId' = runId := (Table.find_some_key _ hrow).symm.trans hid
    refine ⟨Or.inr ?_, fun hterminal => ?_, ?_, fun _ _ _ _ hlink => hlink⟩
    · rw [hpreparing]
      rfl
    · rw [hpreparing] at hterminal
      exact absurd hterminal (by decide)
    · intro c hc hrun hreason hlink
      exact congrArg some (hrespects row hrow hpreparing c hc hrun hreason hlink)

theorem finishRunIn_lawful_iff {db db' : Db} {runId : RunId} {finish : RunFinish}
    (h : finishRunIn db runId finish = .ok db') :
    RunsLawful db db' ↔ (Op.finishRun runId finish).Respects db := by
  obtain ⟨-, ⟨row₀, hrow₀, htransition⟩, hdb⟩ := finishRunIn_ok h
  have hruns := congrArg Db.runs hdb
  refine (runsLawful_update_iff hruns fun _ => rfl).trans ?_
  constructor
  · intro hlaw row hrow _ c hc hrun hreason hlink
    have hselected := decide_eq_true (Table.find_some_key _ hrow)
    exact (hlaw runId row hrow hselected).finalKept c hc hrun hreason hlink
  · intro hrespects runId' row hrow hselected
    obtain rfl : runId' = runId :=
      (Table.find_some_key _ hrow).symm.trans (of_decide_eq_true hselected)
    obtain rfl := Option.some.inj (hrow.symm.trans hrow₀)
    refine ⟨Or.inr htransition, fun hterminal => ?_, fun _ _ _ _ hlink => hlink, ?_⟩
    · rw [RunStatus.canTransitionTo_of_isTerminal hterminal] at htransition
      exact absurd htransition (by decide)
    · intro c hc hrun hreason hlink
      exact hrespects row hrow htransition c hc hrun hreason hlink

theorem markInterruptedRuns_lawful {db db' : Db} {recoveredAt : Timestamp} {runIds : List RunId}
    (h : markInterruptedRuns db recoveredAt = .ok (db', runIds)) : RunsLawful db db' := by
  obtain ⟨-, warnings, hdb⟩ := markInterruptedRuns_ok h
  have hruns := congrArg Db.runs hdb
  refine (runsLawful_update_iff hruns fun _ => rfl).mpr ?_
  intro runId row _ hactive
  have hopen : row.status.isTerminal = false := by
    rwa [isActive, Bool.not_eq_true'] at hactive
  refine ⟨Or.inr ?_, fun hterminal => ?_, fun _ _ _ _ hlink => hlink, fun _ _ _ _ hlink => hlink⟩
  · show row.status.canTransitionTo .interrupted = true
    cases hstatus : row.status <;> rw [hstatus] at hopen <;>
      first | rfl | exact absurd hopen (by decide)
  · exact absurd hopen (by rw [hterminal]; decide)

/-- A checkpoint that is not linked to an ended run is lawful. -/
theorem commitCheckpointIn_lawful_iff {codecs : Codecs} {db db' : Db} {checkpoint : Checkpoint}
    {snapshot : Snapshot} (h : commitCheckpointIn codecs db checkpoint snapshot = .ok db') :
    RunsLawful db db' ↔ (Op.commitCheckpoint checkpoint snapshot).Respects db := by
  obtain ⟨db₁, -, -, -, -, hdb⟩ := commitCheckpointIn_ok h
  cases hreason : checkpoint.reason
  case initial =>
    have hruns := (congrArg Db.runs hdb).trans (linkedRuns_initial hreason db.runs)
    refine (runsLawful_update_iff hruns fun _ => rfl).trans ?_
    constructor
    · intro hlaw row hrow hterminal
      refine ⟨fun _ hnone => ?_, fun hfinal => absurd (hreason.symm.trans hfinal) (by decide)⟩
      have hselected : initialLinkable checkpoint.runId checkpoint.snapshotId row = true :=
        decide_eq_true ⟨Table.find_some_key _ hrow, Or.inl hnone⟩
      have hfrozen := (hlaw checkpoint.runId row hrow hselected).frozen hterminal
      simp [RunRow.lifeColumns, hnone] at hfrozen
    · intro hrespects runId row hrow hselected
      obtain ⟨hid, hlinkable⟩ := of_decide_eq_true hselected
      obtain rfl : runId = checkpoint.runId := (Table.find_some_key _ hrow).symm.trans hid
      refine ⟨Or.inl rfl, fun hterminal => ?_, ?_, fun _ _ _ _ hlink => hlink⟩
      · rcases hlinkable with hnone | hsame
        · exact absurd hnone ((hrespects row hrow hterminal).1 hreason)
        · simp [RunRow.lifeColumns, hsame]
      · intro c _ _ _ hlink
        rcases hlinkable with hnone | hsame
        · exact absurd (hnone.symm.trans hlink) (by simp)
        · exact hsame.symm.trans hlink
  case final =>
    have hruns := (congrArg Db.runs hdb).trans (linkedRuns_final hreason db.runs)
    refine (runsLawful_update_iff hruns fun _ => rfl).trans ?_
    constructor
    · intro hlaw row hrow hterminal
      refine ⟨fun hinitial => absurd (hreason.symm.trans hinitial) (by decide), fun _ hnone => ?_⟩
      have hselected : finalLinkable checkpoint.runId checkpoint.snapshotId row = true :=
        decide_eq_true ⟨Table.find_some_key _ hrow, Or.inl hnone⟩
      have hfrozen := (hlaw checkpoint.runId row hrow hselected).frozen hterminal
      simp [RunRow.lifeColumns, hnone] at hfrozen
    · intro hrespects runId row hrow hselected
      obtain ⟨hid, hlinkable⟩ := of_decide_eq_true hselected
      obtain rfl : runId = checkpoint.runId := (Table.find_some_key _ hrow).symm.trans hid
      refine ⟨Or.inl rfl, fun hterminal => ?_, fun _ _ _ _ hlink => hlink, ?_⟩
      · rcases hlinkable with hnone | hsame
        · exact absurd hnone ((hrespects row hrow hterminal).2 hreason)
        · simp [RunRow.lifeColumns, hsame]
      · intro c _ _ _ hlink
        rcases hlinkable with hnone | hsame
        · exact absurd (hnone.symm.trans hlink) (by simp)
        · exact hsame.symm.trans hlink
  all_goals
    refine ⟨fun _ row _ _ => ?_, fun _ => RunsLawful.of_eq ?_⟩
    · simp [hreason]
    · rw [hdb]
      simp only [linkedRuns, hreason]

/-! ### Operations and runs of the writer -/

/-- A run that takes events is not terminal. -/
theorem not_isTerminal_of_append {db db' : Db} {event : Event} {row : RunRow}
    (h : appendEventBatchIn db [event] = .ok db') (hrow : db.run? event.runId = some row) :
    row.status.isTerminal = false := by
  obtain ⟨-, hfits⟩ := appendEventBatchIn_ok h
  obtain ⟨row', hrow', hactive⟩ := (hfits event rfl).active
  obtain rfl := Option.some.inj (hrow.symm.trans hrow')
  exact hactive

/-- A checkpoint committed with its event finds its run active, and stays within the law. -/
theorem commitCheckpointWithEvent_lawful {codecs : Codecs} {db db' : Db} {checkpoint : Checkpoint}
    {snapshot : Snapshot} {event : Event}
    (h : commitCheckpointWithEvent codecs db checkpoint snapshot event = .ok db') :
    RunsLawful db db' := by
  obtain ⟨-, hdescribes, db₁, hcommit, happend⟩ := commitCheckpointWithEvent_ok h
  obtain ⟨rfl, -⟩ := appendEventBatchIn_ok happend
  refine (commitCheckpointIn_lawful_iff hcommit).mpr fun row hrow hterminal => ?_
  -- the append has found the run active, and a link does not change a status
  obtain ⟨db₂, -, -, -, -, rfl⟩ := commitCheckpointIn_ok hcommit
  obtain ⟨p, f, hlinked, hf⟩ := linkedRuns_eq_update checkpoint db.runs
  have hid : ∀ row, (f row).id = row.id := by
    intro row
    obtain ⟨_, _, hfrow⟩ := hf row
    rw [hfrow]
  have hfind : Db.run? { db₂ with
      checkpoints := db.checkpoints ++ [checkpointRow checkpoint]
      runs := linkedRuns checkpoint db.runs } event.runId
        = some (if p row then f row else row) := by
    rw [Db.run?, hlinked, Table.find_update _ hid, hdescribes.1]
    rw [Db.run?] at hrow
    rw [hrow]
    rfl
  have hactive := not_isTerminal_of_append happend hfind
  have hstatus : (if p row then f row else row).status = row.status := by
    obtain ⟨_, _, hfrow⟩ := hf row
    cases hp : p row
    · rfl
    · rw [if_pos rfl, hfrow]
  rw [hstatus, hterminal] at hactive
  exact absurd hactive (by decide)

/-- **The law of one operation.**  An operation that succeeds is lawful exactly when it respects
the links that checkpoints have set. -/
theorem runsLawful_iff_respects {codecs : Codecs} {db db' : Db} {op : Op}
    (h : op.exec codecs db = .ok db') : RunsLawful db db' ↔ op.Respects db := by
  cases op with
  | createRun run => exact iff_of_true (createRun_lawful h) trivial
  | markRunRunning runId initialSnapshot => exact markRunRunning_lawful_iff h
  | appendEventBatch events =>
    obtain ⟨rfl, -⟩ := appendEventBatchIn_ok h
    exact iff_of_true (RunsLawful.of_eq rfl) trivial
  | storeSnapshot snapshot createdAt =>
    obtain ⟨snapshots, snapshotEntries, rfl⟩ := storeSnapshotIn_frame (storeSnapshot_ok h).2
    exact iff_of_true (RunsLawful.of_eq rfl) trivial
  | commitCheckpoint checkpoint snapshot =>
    exact commitCheckpointIn_lawful_iff (commitCheckpoint_ok h).2
  | commitCheckpointWithEvent checkpoint snapshot event =>
    exact iff_of_true (commitCheckpointWithEvent_lawful h) trivial
  | finishRun runId finish => exact finishRunIn_lawful_iff h
  | finishRunWithEvents runId finish events =>
    obtain ⟨_, _, db₁, -, -, -, happend, hfinish⟩ := finishRunWithEvents_ok h
    obtain ⟨rfl, -⟩ := appendEventBatchIn_ok happend
    have hiff := finishRunIn_lawful_iff hfinish
    exact hiff
  | markInterruptedRuns recoveredAt =>
    rcases hrecover : Rewind.markInterruptedRuns db recoveredAt with error | ⟨db₁, runIds⟩
    · rw [Op.exec, hrecover] at h
      exact absurd h (by simp [Except.map])
    · rw [Op.exec, hrecover] at h
      obtain rfl := Except.ok.inj h
      exact iff_of_true (markInterruptedRuns_lawful hrecover) trivial
  | recordObject stored createdUnixMs =>
    obtain ⟨row, -, -, -, rfl, -⟩ := recordObject_ok h
    obtain ⟨rows, -, hdb⟩ := Db.insertObject_frame db row
    exact iff_of_true (RunsLawful.of_eq (by rw [hdb])) trivial
  | deleteObject id =>
    obtain ⟨-, rfl⟩ := deleteObjectRow_ok h
    exact iff_of_true (RunsLawful.of_eq rfl) trivial

/-- **Lawful life cycles.**  In a run of the writer whose requests respect the links that
checkpoints have set, every step is lawful. -/
theorem runs_lawful (codecs : Codecs) (requests : List Request)
    (h : Machine.Meets (step codecs)
      (fun db request => request.fails = false → request.op.Respects db) Db.empty requests) :
    Machine.Meets (step codecs) (fun db request => RunsLawful db (step codecs db request))
      Db.empty requests := by
  refine h.imp ?_
  intro db request hrespects
  rcases step_cases codecs db request with hsame | ⟨hfails, hexec⟩
  · rw [hsame]
    exact RunsLawful.of_eq rfl
  · exact (runsLawful_iff_respects hexec).mpr (hrespects hfails)

/-- A whole life: the links of the checkpoints are the ones the run starts and ends with. -/
def Sample.wholeLife : List Request :=
  [⟨.createRun Sample.run, false⟩,
   ⟨.commitCheckpointWithEvent (Sample.checkpoint 0 .initial) Sample.emptySnapshot
      (Sample.event 0 (.checkpointCommitted ⟨⟨0⟩⟩ Sample.emptySnapshot.id)), false⟩,
   ⟨.markRunRunning Sample.runId Sample.emptySnapshot.id, false⟩,
   ⟨.commitCheckpointWithEvent (Sample.checkpoint 1 .final) Sample.emptySnapshot
      (Sample.event 1 (.checkpointCommitted ⟨⟨1⟩⟩ Sample.emptySnapshot.id)), false⟩,
   ⟨.finishRunWithEvents Sample.runId (Sample.finish .completed (some Sample.emptySnapshot.id))
      [Sample.event 2 (.runCompleted .completed none)], false⟩,
   ⟨.commitCheckpoint (Sample.checkpoint 3 .final) Sample.emptySnapshot, false⟩]

theorem runs_lawful_wholeLife :
    Machine.Meets (step Sample.codecs) (fun db request =>
      RunsLawful db (step Sample.codecs db request))
      Db.empty Sample.wholeLife :=
  runs_lawful Sample.codecs Sample.wholeLife (by decide +kernel)

example : ((Machine.run (step Sample.codecs) Db.empty Sample.wholeLife).run? Sample.runId).map
    (·.status) = some .completed := by decide +kernel

/-- A final checkpoint is committed, and the run then fails without a final snapshot. -/
def Sample.clearedLink : List Request :=
  [⟨.createRun Sample.run, false⟩,
   ⟨.commitCheckpoint (Sample.checkpoint 0 .final) Sample.emptySnapshot, false⟩,
   ⟨.finishRun Sample.runId (Sample.finish .failed none), false⟩]

/-- Without the condition the law fails: a finalization clears the final link. -/
theorem runs_not_always_lawful :
    ¬ ∀ (codecs : Codecs) (requests : List Request),
      Machine.Meets (step codecs) (fun db request => RunsLawful db (step codecs db request))
        Db.empty requests := by
  intro hlaw
  let db := Machine.run (step Sample.codecs) Db.empty (Sample.clearedLink.take 2)
  let db' := Machine.run (step Sample.codecs) Db.empty Sample.clearedLink
  have hstep : RunsLawful db db' := (hlaw Sample.codecs Sample.clearedLink).2.2.1
  have hrow : ∃ row ∈ db.run? Sample.runId,
      row.id = Sample.runId ∧ row.finalSnapshotId = some Sample.emptySnapshot.id := by
    decide +kernel
  have hcheckpoint : ∃ c ∈ db.checkpoints, c.runId = Sample.runId ∧ c.reason = .final
      ∧ c.snapshotId = Sample.emptySnapshot.id := by decide +kernel
  have hcleared : ∀ row' ∈ db'.run? Sample.runId,
      row'.finalSnapshotId ≠ some Sample.emptySnapshot.id := by decide +kernel
  obtain ⟨row, hrow, hid, hlink⟩ := hrow
  obtain ⟨c, hc, hrun, hreason, hsnapshot⟩ := hcheckpoint
  obtain ⟨row', hrow', hrowLaw⟩ := hstep Sample.runId row hrow
  refine hcleared row' hrow' ?_
  rw [← hsnapshot]
  exact hrowLaw.finalKept c hc (hrun.trans hid.symm) hreason (by rw [hlink, hsnapshot])

end Rewind

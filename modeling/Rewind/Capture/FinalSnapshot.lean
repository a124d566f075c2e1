/-
The final snapshot of a captured run.

`capture` is a whole capture as the recorder sees it: the preparation, the supervision of the
child, and the fallback finalization where one of them fails.  Three of its routes write the final
link of the run.

* `FinalAuthoritative` — the final link names the snapshot of the run's one final checkpoint;
* `FallbackReady` — the state before the fallback suits the calls of it that the store accepts;
* **`capture_authoritative`** — the final snapshot is authoritative after every transaction exactly
  if that state does.
-/
import Rewind.Capture.Effects
import Rewind.Capture.Finalization

namespace Rewind

open Call

/-! ### The capture -/

/-- `checkpoint_error_is_nonfatal`. -/
def CaptureError.isNonfatal : CaptureError → Bool
  | .snapshot (.scan _) => true
  | _ => false

/-- `is_store_failure`. -/
def CaptureError.isStoreFailure : CaptureError → Bool
  | .store _ | .snapshot (.store _) => true
  | _ => false

/-- `ProcessExitStatus::success`. -/
def ProcessExitStatus.success : ProcessExitStatus → Option Bool
  | .code value => some (value = 0)
  | .signal _ => some false
  | .unknown => none

/-- What the coordinator has the recorder do while the child runs. -/
def RecorderOp.isObservation : RecorderOp → Bool
  | .emit _ | .emitObjectReference .. | .warning .. | .warnExclusions _ | .flush
  | .manualCheckpoint _ | .putObject .. => true
  | .checkpoint reason _ => reason = .filesystemQuiescence
  | _ => false

/-- What the world decides of a capture, next to the `Env` of its recorder: the failures outside
of the recorder, and what is observed. -/
structure Session where
  cloneFailure : Option String
  startFailure : Option String
  startup : List EventPayload
  spawnFailure : Option CaptureError
  observed : List RecorderOp
  failure : Option CaptureError
  groupStopped : Bool
  interrupted : Bool
  rootPid : ProcessId
  exitStatus : ProcessExitStatus
  observing : ∀ op ∈ observed, op.isObservation = true
  /-- A process group that does not stop is a failure. -/
  unstopped : groupStopped = false → failure.isSome = true

theorem observing_nil : ∀ op ∈ ([] : List RecorderOp), op.isObservation = true :=
  List.forall_mem_nil _

section Capture

variable (env : Env) (codecs : Codecs) (display : CaptureError → String) (session : Session)

/-- `Coordinator::fail`: the first error stays. -/
def orFail {α : Type} (fatal : Option CaptureError) (m : Method α) :
    Method (Option CaptureError) := do
  match ← outcome m with
  | .ok _ => return fatal
  | .error error => return fatal.or (some error)

/-- The observations, one after the other, and the first fatal error among them. -/
def observeAll : List RecorderOp → Option CaptureError → Method (Option CaptureError)
  | [], fatal => return fatal
  | op :: rest, fatal => do
    match ← outcome (op.exec env codecs) with
    | .ok () => observeAll rest fatal
    | .error error => observeAll rest (fatal.or (if error.isNonfatal then none else some error))

/-- The exit of the root process. -/
def emitExited (fatal : Option CaptureError) : Method (Option CaptureError) :=
  if fatal.any (·.isStoreFailure) then
    return fatal
  else
    orFail fatal (Recorder.emit env (.processExited session.rootPid session.exitStatus))

/-- The final checkpoint of a supervised run, unless the store has failed or processes remain. -/
def finalCommit (fatal : Option CaptureError) :
    Method (Option SnapshotId × Option CaptureError) := do
  if fatal.any (·.isStoreFailure) || !session.groupStopped then
    return (none, fatal)
  else
    match ← outcome (Recorder.checkpoint env codecs .final none) with
    | .ok commit => do
      let fatal ← orFail fatal (Recorder.warnExclusions env commit.exclusions)
      return (some commit.snapshotId, fatal)
    | .error error => return (none, fatal.or (some error))

/-- The status of a supervised run. -/
def superviseStatus (fatal : Option CaptureError) : RunStatus :=
  if session.interrupted then .interrupted
  else if fatal.isSome then .failed
  else if session.exitStatus.success = some true then .completed
  else .failed

/-- The part of `supervise` after the final checkpoint. -/
def conclude (final : Option SnapshotId × Option CaptureError) : Method Unit := do
  let fatal ← orFail final.2 (Recorder.cleanupExclusionsForRetention env)
  let fatal ← orFail fatal
    (Recorder.finish env (superviseStatus session fatal) session.exitStatus final.1)
  match fatal with
  | some error => throw error
  | none => return ()

/-- `supervise`; a run without a fatal error has its final snapshot. -/
def supervise : Method Unit :=
  match session.spawnFailure with
  | some error => throw error
  | none => do
    let fatal ← observeAll env codecs session.observed none
    let fatal ← emitExited env session (fatal.or session.failure)
    let final ← finalCommit env codecs session fatal
    conclude env session final

/-- What is left to do of a capture. -/
inductive Remaining where
  | nothing
  | fallback (initialSnapshot : SnapshotId) (message : String) (supervised : Bool)

/-- Whether `load_run` finds the run running. -/
def loadRunning : Method Bool := do
  let tick ← nextTick
  let w ← get
  return !env.storeFails tick && (w.db.run? w.recorder.runId).any fun row => row.status = .running

/-- `startup`. -/
def startUp (initial : CheckpointCommit) : Method Unit := do
  session.startup.forM fun payload => discard (Recorder.emit env payload)
  Recorder.warnExclusions env initial.exclusions
  Recorder.flush env

/-- What follows a failed supervision. -/
def afterFailure (initial : CheckpointCommit) (error : CaptureError) : Method Remaining := do
  if (← loadRunning env) then
    return .fallback initial.snapshotId (display error) true
  else do
    attempt (Recorder.cleanupExclusionsForRetention env)
    return .nothing

/-- The capture of a run that is running. -/
def captureRunning (initial : CheckpointCommit) : Method Remaining :=
  match session.startFailure with
  | some message => return .fallback initial.snapshotId message false
  | none => do
    match ← outcome (startUp env session initial) with
    | .error error => return .fallback initial.snapshotId (display error) false
    | .ok () =>
      match ← outcome (supervise env codecs session) with
      | .ok () => return .nothing
      | .error error => afterFailure env display initial error

/-- The capture of a run whose initial checkpoint is committed. -/
def capturePrepared (initial : CheckpointCommit) : Method Remaining := do
  match ← outcome ((RecorderOp.markRunRunning initial.snapshotId).exec env codecs) with
  | .error error => do
    Recorder.finishPreparationFailure env (display error)
    return .nothing
  | .ok () => captureRunning env codecs display session initial

/-- `capture_with_store` from the recorder on, until its fallback finalization. -/
def captureUntilFallback : Method Remaining :=
  match session.cloneFailure with
  | some message => do
    Recorder.finishPreparationFailure env message
    return .nothing
  | none => do
    match ← outcome (Recorder.checkpoint env codecs .initial none) with
    | .error error => do
      Recorder.finishPreparationFailure env (display error)
      return .nothing
    | .ok initial => capturePrepared env codecs display session initial

/-- The fallback finalization. -/
def captureFallback : Remaining → Method Unit
  | .nothing => return ()
  | .fallback initialSnapshot message supervised => do
    Recorder.finishRunningWithoutChild env codecs initialSnapshot message
    if supervised then attempt (Recorder.cleanupExclusionsForRetention env) else return ()

/-- `capture_with_store` from the recorder on. -/
def capture : Method Unit := do
  let remaining ← captureUntilFallback env codecs display session
  captureFallback env codecs remaining

/-- What a capture has come to before its fallback. -/
def beforeFallback (w : World) : Except CaptureError Remaining × World :=
  exec (captureUntilFallback env codecs display session) w

/-- The world after a capture. -/
def afterCapture (w : World) : World := (exec (capture env codecs display session) w).2

/-- The calls of its fallback that the store accepts. -/
def fallbackCalls (w : World) : List StoreCall :=
  (afterCapture env codecs display session w).acceptedCalls.drop
    (beforeFallback env codecs display session w).2.acceptedCalls.length

end Capture

/-! ### The final link -/

/-- The final checkpoints of a run. -/
def finals (db : Db) (runId : RunId) : List CheckpointRow :=
  db.checkpoints.filter fun row => row.runId = runId ∧ row.reason = .final

/-- A snapshot is the one of a checkpoint of the list. -/
def Names (rows : List CheckpointRow) (snapshotId : SnapshotId) : Prop :=
  ∃ row ∈ rows, row.snapshotId = snapshotId

/-- The final link of the run, if it is set, names the snapshot of one of these checkpoints. -/
def LinksTo (db : Db) (runId : RunId) (rows : List CheckpointRow) : Prop :=
  ∀ row ∈ db.runs, row.id = runId → ∀ snapshotId, row.finalSnapshotId = some snapshotId →
    Names rows snapshotId

/-- **The final snapshot is authoritative.** -/
def FinalAuthoritative (db : Db) (runId : RunId) : Prop :=
  (finals db runId).length ≤ 1 ∧ LinksTo db runId (finals db runId)

theorem FinalAuthoritative.length_le {db : Db} {runId : RunId} (h : FinalAuthoritative db runId) :
    (finals db runId).length ≤ 1 := h.1

/-- It has been so after every transaction. -/
def AlwaysAuthoritative (w : World) (runId : RunId) : Prop :=
  ∀ db ∈ w.history, FinalAuthoritative db runId

instance (rows : List CheckpointRow) (snapshotId : SnapshotId) :
    Decidable (Names rows snapshotId) :=
  inferInstanceAs (Decidable (∃ row ∈ rows, row.snapshotId = snapshotId))

/-- What the fallback needs of the final checkpoints before it, where the store accepts these calls
of it: there are none if its own is accepted, and the initial snapshot is the one of a final
checkpoint if its finalization is accepted without. -/
def FallbackNames (rows : List CheckpointRow) (initialSnapshot : SnapshotId)
    (calls : List StoreCall) : Prop :=
  if .checkpoint ∈ calls then rows = [] else .finish ∈ calls → Names rows initialSnapshot

/-- The same of a capture that has come to its fallback; without one there is nothing to ask. -/
def FallbackReady (calls : List StoreCall) (reached : Except CaptureError Remaining × World) :
    Prop :=
  ∀ initialSnapshot message supervised w,
    reached = (.ok (.fallback initialSnapshot message supervised), w) →
      FallbackNames (finals w.db w.recorder.runId) initialSnapshot calls

theorem fallbackReady_fallback {calls : List StoreCall} {initialSnapshot : SnapshotId}
    {message : String} {supervised : Bool} {w : World} :
    FallbackReady calls (.ok (.fallback initialSnapshot message supervised), w)
      ↔ FallbackNames (finals w.db w.recorder.runId) initialSnapshot calls := by
  constructor
  · intro h
    exact h initialSnapshot message supervised w rfl
  · rintro h _ _ _ _ heq
    obtain ⟨hremaining, rfl⟩ := Prod.mk.inj heq
    obtain ⟨rfl, -, -⟩ := Remaining.fallback.inj (Except.ok.inj hremaining)
    exact h

theorem fallbackReady_of_ne {calls : List StoreCall}
    {result : Except CaptureError Remaining} {w : World}
    (h : ∀ initialSnapshot message supervised,
      result ≠ .ok (.fallback initialSnapshot message supervised)) :
    FallbackReady calls (result, w) := by
  intro initialSnapshot message supervised _ heq
  exact absurd (Prod.mk.inj heq).1 (h initialSnapshot message supervised)

instance (rows : List CheckpointRow) (initialSnapshot : SnapshotId) (calls : List StoreCall) :
    Decidable (FallbackNames rows initialSnapshot calls) :=
  inferInstanceAs (Decidable (if .checkpoint ∈ calls then rows = []
    else .finish ∈ calls → Names rows initialSnapshot))

instance (calls : List StoreCall) (reached : Except CaptureError Remaining × World) :
    Decidable (FallbackReady calls reached) :=
  match reached with
  | (.ok (.fallback _ _ _), _) => decidable_of_iff' _ fallbackReady_fallback
  | (.ok .nothing, _) | (.error _, _) => .isTrue (fallbackReady_of_ne (by simp))

/-! ### What the statements do to it -/

/-- The final checkpoints of the run, and what its final link names. -/
structure Linked (db : Db) (runId : RunId) (rows : List CheckpointRow) : Prop where
  finals : finals db runId = rows
  links : LinksTo db runId rows

section Statements

variable {db db' : Db} {runId : RunId} {rows : List CheckpointRow}

theorem Linked.authoritative (h : Linked db runId rows) (hlength : rows.length ≤ 1) :
    FinalAuthoritative db runId := by
  rw [FinalAuthoritative, h.finals]
  exact ⟨hlength, h.links⟩

theorem Linked.length_le (h : Linked db runId rows) (hauthoritative : FinalAuthoritative db runId) :
    rows.length ≤ 1 := h.finals ▸ hauthoritative.length_le

theorem Linked.of_eq (h : Linked db runId rows) (hcheckpoints : db'.checkpoints = db.checkpoints)
    (hruns : db'.runs = db.runs) : Linked db' runId rows where
  finals := by
    rw [Rewind.finals, hcheckpoints]
    exact h.finals
  links := by
    rw [LinksTo, hruns]
    exact h.links

theorem LinksTo.mono {rows' : List CheckpointRow} (h : LinksTo db runId rows)
    (hsub : rows ⊆ rows') : LinksTo db runId rows' := by
  intro row hrow hid snapshotId hfinal
  obtain ⟨checkpoint, hmem, hsnapshot⟩ := h row hrow hid snapshotId hfinal
  exact ⟨checkpoint, hsub hmem, hsnapshot⟩

/-- An update of the runs that leaves the final link or sets it to a snapshot that is named. -/
theorem LinksTo.update (h : LinksTo db runId rows) {p : RunRow → Bool} {f : RunRow → RunRow}
    (hid : ∀ row, (f row).id = row.id)
    (hfinal : ∀ row, (f row).finalSnapshotId = row.finalSnapshotId
      ∨ ∀ snapshotId, row.id = runId → (f row).finalSnapshotId = some snapshotId →
        Names rows snapshotId) :
    LinksTo { db with runs := Table.update p f db.runs } runId rows := by
  intro row hrow hrunId snapshotId hset
  obtain ⟨old, hold, rfl⟩ := List.mem_map.mp hrow
  by_cases hp : p old = true
  · rw [if_pos hp] at hrunId hset
    rw [hid old] at hrunId
    rcases hfinal old with hsame | hnamed
    · rw [hsame] at hset
      exact h old hold hrunId snapshotId hset
    · exact hnamed snapshotId hrunId hset
  · rw [if_neg hp] at hrunId hset
    exact h old hold hrunId snapshotId hset

theorem Linked.append (h : Linked db runId rows) {events : List Event}
    (hok : appendEventBatchIn db events = .ok db') : Linked db' runId rows := by
  refine h.of_eq (appendEventBatchIn_checkpoints hok) ?_
  rw [(appendEventBatchIn_ok hok).1]
  rfl

theorem Linked.object (h : Linked db runId rows) {stored : StoredObject} {createdUnixMs : Int64}
    (hok : recordObject db stored createdUnixMs = .ok db') : Linked db' runId rows :=
  h.of_eq (recordObject_checkpoints hok) (recordObject_quiet hok).2

theorem Linked.running (h : Linked db runId rows) {initialSnapshot : SnapshotId}
    (hok : markRunRunning db runId initialSnapshot = .ok db') : Linked db' runId rows := by
  obtain ⟨-, rfl⟩ := markRunRunning_ok hok
  exact ⟨h.finals, h.links.update (fun _ => rfl) fun _ => Or.inl rfl⟩

/-- A finalization with a snapshot that is named. -/
theorem Linked.finish (h : Linked db runId rows) {finish : RunFinish} {events : List Event}
    (hnames : ∀ snapshotId, finish.finalSnapshot = some snapshotId → Names rows snapshotId)
    (hok : finishRunWithEvents db runId finish events = .ok db') : Linked db' runId rows := by
  obtain ⟨_, _, db₁, -, -, -, happend, hfinish⟩ := finishRunWithEvents_ok hok
  obtain ⟨-, -, rfl⟩ := finishRunIn_ok hfinish
  have hlinked := h.append happend
  refine ⟨hlinked.finals, hlinked.links.update (fun _ => rfl) fun row => Or.inr ?_⟩
  exact fun snapshotId _ hset => hnames snapshotId hset

/-- A finalization with a snapshot that is not named: then the final link names none of them. -/
theorem Linked.finish_unnamed (h : Linked db runId rows) {finish : RunFinish} {events : List Event}
    {snapshotId : SnapshotId} (hset : finish.finalSnapshot = some snapshotId)
    (hnames : ¬ Names rows snapshotId)
    (hok : finishRunWithEvents db runId finish events = .ok db') :
    ¬ FinalAuthoritative db' runId := by
  obtain ⟨_, _, db₁, -, -, -, happend, hfinish⟩ := finishRunWithEvents_ok hok
  obtain ⟨-, ⟨row, hrow, -⟩, rfl⟩ := finishRunIn_ok hfinish
  have hid := Table.find_some_key _ hrow
  have hmem := List.mem_of_find?_eq_some hrow
  rintro ⟨-, hlinks⟩
  have hnamed : Names (Rewind.finals db₁ runId) snapshotId :=
    hlinks (finishedRow finish row) (List.mem_map.mpr ⟨row, hmem, if_pos (decide_eq_true hid)⟩)
      hid snapshotId hset
  rw [(h.append happend).finals] at hnamed
  exact hnames hnamed

/-- The row a committed checkpoint adds to the final ones. -/
def addedFinal (checkpoint : Checkpoint) : List CheckpointRow :=
  if checkpoint.reason = .final then [checkpointRow checkpoint] else []

/-- A committed checkpoint: a final one is added, and linked. -/
theorem Linked.commit {codecs : Codecs} (h : Linked db runId rows) {checkpoint : Checkpoint}
    {snapshot : Snapshot} {event : Event} (hrun : checkpoint.runId = runId)
    (hok : commitCheckpointWithEvent codecs db checkpoint snapshot event = .ok db') :
    Linked db' runId (rows ++ addedFinal checkpoint) := by
  obtain ⟨-, -, db₁, hcommit, happend⟩ := commitCheckpointWithEvent_ok hok
  refine Linked.append ?_ happend
  obtain ⟨db₂, hstore, -, -, -, rfl⟩ := commitCheckpointIn_ok hcommit
  have hfinals : (db.checkpoints ++ [checkpointRow checkpoint]).filter (fun row =>
      row.runId = runId ∧ row.reason = .final) = rows ++ addedFinal checkpoint := by
    rw [List.filter_append, ← h.finals, addedFinal]
    by_cases hreason : checkpoint.reason = .final
    · simp [checkpointRow, hrun, hreason, Rewind.finals]
    · simp [checkpointRow, hrun, hreason, Rewind.finals]
  refine ⟨hfinals, ?_⟩
  have hlinks : LinksTo db runId (rows ++ addedFinal checkpoint) :=
    h.links.mono (List.subset_append_left _ _)
  -- a final checkpoint links its own snapshot; any other leaves the final link alone
  by_cases hreason : checkpoint.reason = .final
  · have hnames : Names (rows ++ addedFinal checkpoint) checkpoint.snapshotId := by
      refine ⟨checkpointRow checkpoint, List.mem_append_right _ ?_, rfl⟩
      rw [addedFinal, if_pos hreason]
      exact List.mem_singleton.mpr rfl
    rw [linkedRuns_final hreason]
    refine hlinks.update (fun _ => rfl) fun row => Or.inr fun snapshotId _ hset => ?_
    rw [← Option.some.inj hset]
    exact hnames
  · by_cases hinitial : checkpoint.reason = .initial
    · rw [linkedRuns_initial hinitial]
      exact hlinks.update (fun _ => rfl) fun row => Or.inl rfl
    · have hruns : linkedRuns checkpoint db.runs = db.runs := by
        cases hother : checkpoint.reason <;> simp_all [linkedRuns]
      rw [hruns]
      exact hlinks

end Statements

/-! ### What the methods do to it -/

/-- The recorder works on the run, and the final link of the run names one of `rows`, its final
checkpoints; as long as there is one at most, the final snapshot has always been authoritative. -/
structure Recording (runId : RunId) (rows : List CheckpointRow) (w : World) : Prop where
  owner : w.recorder.runId = runId
  sequencer : w.recorder.sequencer.runId = runId
  linked : Linked w.db runId rows
  current : w.db ∈ w.history
  always : rows.length ≤ 1 → AlwaysAuthoritative w runId

/-- The same, with the checkpoints counted. -/
structure Authoritative (runId : RunId) (rows : List CheckpointRow) (w : World) : Prop
    extends Recording runId rows w where
  counted : Counted w

/-- A checkpoint for one of the reasons has been added. -/
def AddsFinal (reasons : CheckpointReason → Prop) (rows : List CheckpointRow)
    (P : List CheckpointRow → World → Prop) (_ : CheckpointId) (snapshotId : SnapshotId)
    (w : World) : Prop :=
  ∃ checkpoint : Checkpoint, checkpoint.snapshotId = snapshotId ∧ reasons checkpoint.reason
    ∧ P (rows ++ addedFinal checkpoint) w

section Methods

variable {runId : RunId} {rows : List CheckpointRow}

/-- The same with room for one more in the count. -/
structure Roomy (runId : RunId) (rows : List CheckpointRow) (w : World) : Prop
    extends Recording runId rows w where
  room : w.recorder.checkpointCount + 1 < w.recorder.sequencer.next.get

/-- A change of the recorder, the clock and the answers. -/
theorem Recording.of_eq {w w' : World} (h : Recording runId rows w) (hdb : w'.db = w.db)
    (hhistory : w'.history = w.history) (howner : w'.recorder.runId = w.recorder.runId)
    (hsequencer : w'.recorder.sequencer.runId = runId) : Recording runId rows w' where
  owner := howner.trans h.owner
  sequencer := hsequencer
  linked := hdb ▸ h.linked
  current := by
    rw [hdb, hhistory]
    exact h.current
  always := by
    rw [AlwaysAuthoritative, hhistory]
    exact h.always

/-- A transaction that adds final checkpoints, if any. -/
theorem Recording.accept {w : World} {rows' : List CheckpointRow} (h : Recording runId rows w)
    (call : StoreCall) {db : Db} (hlinked : Linked db runId rows')
    (hlength : rows.length ≤ rows'.length) : Recording runId rows' (w.accept call db) where
  owner := h.owner
  sequencer := h.sequencer
  linked := hlinked
  current := List.mem_append_right _ List.mem_cons_self
  always := by
    intro hone db' hdb'
    rcases List.mem_append.mp hdb' with hbefore | hnew
    · exact h.always (Nat.le_trans hlength hone) db' hbefore
    · rw [List.mem_singleton.mp hnew]
      exact hlinked.authoritative hone

theorem effects_authoritative (env : Env) (codecs : Codecs) (reasons : CheckpointReason → Prop)
    (runId : RunId) (rows : List CheckpointRow) :
    Effects env codecs reasons (fun _ => True) (Authoritative runId rows)
      (AddsFinal reasons rows (Roomy runId))
      (AddsFinal reasons rows (Authoritative runId)) where
  ordinary _ _ := trivial
  tick _ hw := ⟨hw.of_eq rfl rfl rfl hw.sequencer, hw.counted⟩
  paths _ _ hw := ⟨hw.of_eq rfl rfl rfl hw.sequencer, hw.counted⟩
  refuse _ _ hw := ⟨hw.of_eq rfl rfl rfl hw.sequencer, hw.counted⟩
  object _ _ _ _ hw hok :=
    ⟨hw.toRecording.accept .other (hw.linked.object hok) (Nat.le_refl _), hw.counted⟩
  number := by
    -- a number that is taken makes room in the count of the checkpoints
    intro w payload event sequencer hw hnumbered
    have hnext := hnumbered.next'
    have hcounted : w.recorder.checkpointCount < w.recorder.sequencer.next.get := hw.counted
    refine ⟨hw.of_eq rfl rfl rfl (hnumbered.runId'.trans hw.sequencer), ?_⟩
    show w.recorder.checkpointCount < sequencer.next.get
    omega
  queue := by
    intro w payload event sequencer _ hw hnumbered
    have hnext := hnumbered.next'
    have hcounted : w.recorder.checkpointCount < w.recorder.sequencer.next.get := hw.counted
    refine ⟨hw.of_eq rfl rfl rfl (hnumbered.runId'.trans hw.sequencer), ?_⟩
    show w.recorder.checkpointCount < sequencer.next.get
    omega
  append := by
    intro w db hw hok
    have hrecording := hw.toRecording.accept .append (hw.linked.append hok) (Nat.le_refl _)
    exact ⟨hrecording.of_eq rfl rfl rfl hw.sequencer, hw.counted⟩
  commit := by
    intro w checkpointId reason label snapshot event sequencer db projected hreason _ hw hnumbered
      hok _
    have hnext := hnumbered.next'
    have hcounted : w.recorder.checkpointCount < w.recorder.sequencer.next.get := hw.counted
    have hrun : event.runId = runId := hnumbered.runId.trans hw.sequencer
    have hrecording := hw.toRecording.accept .checkpoint (hw.linked.commit hrun hok)
      (List.length_append ▸ Nat.le_add_right _ _)
    refine ⟨Recorder.checkpointOf checkpointId reason label snapshot.id event, rfl, hreason,
      hrecording.of_eq rfl rfl rfl (hnumbered.runId'.trans hw.sequencer), ?_⟩
    show w.recorder.checkpointCount + 1 < sequencer.next.get
    omega
  bounded := by
    rintro _ snapshotId w ⟨checkpoint, -, -, hw⟩
    have hroom := hw.room
    have hlt := w.recorder.sequencer.next.lt
    omega
  count := by
    rintro _ snapshotId w ⟨checkpoint, hsnapshot, hreason, hw⟩
    exact ⟨checkpoint, hsnapshot, hreason, hw.of_eq rfl rfl rfl hw.sequencer, hw.room⟩

/-- A finalization with a snapshot that is named. -/
theorem finishKeeps_authoritative {finalSnapshot : Option SnapshotId}
    (hnames : ∀ snapshotId, finalSnapshot = some snapshotId → Names rows snapshotId)
    (finish : RunFinish) (hfinish : finish.finalSnapshot = finalSnapshot) :
    FinishKeeps (Authoritative runId rows) finish := by
  intro w db hw hok
  rw [hw.owner] at hok
  rw [← hfinish] at hnames
  have hrecording := hw.toRecording.accept .finish (hw.linked.finish hnames hok) (Nat.le_refl _)
  exact ⟨hrecording.of_eq rfl rfl rfl hw.sequencer, hw.counted⟩

/-- A finalization with a snapshot that is not named. -/
theorem finishTakes_unnamed {snapshotId : SnapshotId} (hnames : ¬ Names rows snapshotId)
    (finish : RunFinish) (hfinish : finish.finalSnapshot = some snapshotId) :
    FinishTakes (Authoritative runId rows)
      (fun w => ∃ db ∈ w.history, ¬ FinalAuthoritative db runId) finish := by
  intro w db hw hok
  rw [hw.owner] at hok
  exact ⟨db, List.mem_append_right _ List.mem_cons_self,
    hw.linked.finish_unnamed hfinish hnames hok⟩

section Keeping

variable (env : Env) (codecs : Codecs)

/-- What the recorder does without taking a final checkpoint. -/
theorem effects_ordinary (runId : RunId) (rows : List CheckpointRow) :
    Effects env codecs (· ≠ .final) (fun _ => True) (Authoritative runId rows)
      (AddsFinal (· ≠ .final) rows (Roomy runId))
      (AddsFinal (· ≠ .final) rows (Authoritative runId)) :=
  effects_authoritative env codecs (· ≠ .final) runId rows

theorem authoritative_of_ordinary {id : CheckpointId} {snapshotId : SnapshotId} {w : World}
    (h : AddsFinal (· ≠ .final) rows (Authoritative runId) id snapshotId w) :
    Authoritative runId rows w := by
  obtain ⟨checkpoint, -, hreason, hw⟩ := h
  rw [addedFinal, if_neg hreason, List.append_nil] at hw
  exact hw

theorem keeps_ordinaryCheckpoint {reason : CheckpointReason} (hreason : reason ≠ .final)
    (label : Option String) :
    Keeps (Authoritative runId rows) (Recorder.checkpoint env codecs reason label) :=
  ((effects_ordinary env codecs runId rows).spec_checkpoint hreason label).imp (fun _ hw => hw)
    (fun _ _ hw => authoritative_of_ordinary hw) fun _ hw => hw

/-- The final checkpoint is added to the final ones. -/
theorem spec_finalCheckpoint :
    Spec (Authoritative runId rows) (Recorder.checkpoint env codecs .final none)
      (fun commit w => ∃ row, row.snapshotId = commit.snapshotId
        ∧ Authoritative runId (rows ++ [row]) w) (Authoritative runId rows) := by
  refine ((effects_authoritative env codecs (· = .final) runId rows).spec_checkpoint rfl none).imp
    (fun _ hw => hw) ?_ fun _ hw => hw
  rintro commit w ⟨checkpoint, hsnapshot, hreason, hw⟩
  rw [addedFinal, if_pos hreason] at hw
  exact ⟨checkpointRow checkpoint, hsnapshot, hw⟩

theorem keeps_observation {op : RecorderOp} (hop : op.isObservation = true) :
    Keeps (Authoritative runId rows) (op.exec env codecs) := by
  have h := effects_ordinary env codecs runId rows
  have hdiscard : ∀ {α : Type} {m : Method α}, Keeps (Authoritative runId rows) m →
      Keeps (Authoritative runId rows) (discard m) :=
    fun hm => keeps_bind hm fun _ => keeps_pure _
  cases op with
  | emit payload => exact hdiscard (h.keeps_emit trivial)
  | emitObjectReference objectId logicalSize payload =>
    refine hdiscard (h.keeps_emitObjectReference objectId logicalSize trivial ?_)
    exact fun _ _ _ hw => ⟨hw.of_eq rfl rfl rfl hw.sequencer, hw.counted⟩
  | warning code message => exact h.keeps_warning code message
  | warnExclusions count => exact h.keeps_warnExclusions count
  | flush => exact h.keeps_flush
  | checkpoint reason label =>
    have hreason : reason = .filesystemQuiescence := of_decide_eq_true hop
    have hother : reason ≠ .final := by
      rw [hreason]
      decide
    exact hdiscard (keeps_ordinaryCheckpoint env codecs hother label)
  | manualCheckpoint label =>
    have hmanual : CheckpointReason.manual ≠ .final := by decide
    refine hdiscard ((h.spec_manualCheckpoint hmanual label).imp (fun _ hw => hw) ?_
      fun _ hw => hw)
    rintro id w ⟨snapshotId, hw⟩
    exact authoritative_of_ordinary hw
  | putObject stored createdUnixMs => exact h.keeps_recordObject stored createdUnixMs
  | queueEvent | finish | commitFinish | finishPreparationFailure | finishRunningWithoutChild
  | cleanupExclusionsForRetention | markRunRunning => exact Bool.noConfusion hop

theorem keeps_orFail {I : World → Prop} {α : Type} (fatal : Option CaptureError) {m : Method α}
    (hm : Keeps I m) : Keeps I (orFail fatal m) := by
  refine keeps_bind (keeps_outcome hm) fun result => ?_
  rcases result with error | a <;> exact keeps_pure _

theorem keeps_observeAll {ops : List RecorderOp} (hops : ∀ op ∈ ops, op.isObservation = true)
    (fatal : Option CaptureError) :
    Keeps (Authoritative runId rows) (observeAll env codecs ops fatal) := by
  induction ops generalizing fatal with
  | nil => exact keeps_pure _
  | cons op rest ih =>
    obtain ⟨hop, hrest⟩ := List.forall_mem_cons.mp hops
    refine keeps_bind (keeps_outcome (keeps_observation env codecs hop)) fun result => ?_
    rcases result with error | _
    · exact ih hrest _
    · exact ih hrest _

end Keeping

end Methods

/-! ### The routes -/

/-- At most one final checkpoint, and the final link names it. -/
def AuthoritativeRun (runId : RunId) (w : World) : Prop :=
  ∃ rows, rows.length ≤ 1 ∧ Authoritative runId rows w

section Routes

variable (env : Env) (session : Session) {runId : RunId}

/-- The end of a supervision: the final link is set to the final checkpoint. -/
theorem keeps_conclude (codecs : Codecs) {rows : List CheckpointRow}
    (final : Option SnapshotId × Option CaptureError)
    (hnames : ∀ snapshotId, final.1 = some snapshotId → Names rows snapshotId) :
    Keeps (Authoritative runId rows) (conclude env session final) := by
  have h := effects_ordinary env codecs runId rows
  refine keeps_bind (keeps_orFail _ h.keeps_cleanupExclusionsForRetention) fun fatal => ?_
  refine keeps_bind (keeps_orFail _ (h.keeps_finish _ _ (finishKeeps_authoritative hnames)))
    fun fatal => ?_
  rcases fatal with _ | error
  · exact keeps_pure _
  · exact keeps_throw _

theorem spec_supervise (codecs : Codecs) :
    Spec (Authoritative runId []) (supervise env codecs session) (fun _ => AuthoritativeRun runId)
      (AuthoritativeRun runId) := by
  have h := effects_ordinary env codecs runId []
  have hnone : ∀ w, Authoritative runId [] w → AuthoritativeRun runId w :=
    fun w hw => ⟨[], Nat.zero_le 1, hw⟩
  unfold supervise
  rcases session.spawnFailure with _ | error
  · refine spec_bind (Keeps.to (keeps_observeAll env codecs session.observing none) hnone)
      fun fatal => ?_
    refine spec_bind (Keeps.to (?_ : Keeps (Authoritative runId []) _) hnone) fun fatal => ?_
    · exact spec_ite (fun _ => keeps_pure _) fun _ => keeps_orFail _ (h.keeps_emit trivial)
    -- the final checkpoint is the first one
    refine spec_bind (Q := fun final w => ∃ rows : List CheckpointRow, rows.length ≤ 1
      ∧ Authoritative runId rows w
      ∧ ∀ snapshotId, final.1 = some snapshotId → Names rows snapshotId) ?_ fun final => ?_
    · refine spec_ite (fun _ => spec_pure fun w hw => ⟨[], Nat.zero_le 1, hw, nofun⟩) fun _ => ?_
      refine spec_bind (Q := fun committed w => match committed with
        | .ok commit => ∃ row : CheckpointRow, row.snapshotId = commit.snapshotId
            ∧ Authoritative runId [row] w
        | .error _ => Authoritative runId [] w) (spec_outcome
          ((spec_finalCheckpoint env codecs).imp (fun _ hw => hw) (fun _ _ hw => hw)
            fun _ hw _ => hw)) fun committed => ?_
      rcases committed with error | commit
      · exact spec_pure fun w hw => ⟨[], Nat.zero_le 1, hw, nofun⟩
      · rintro w ⟨row, hsnapshot, hw⟩
        revert w
        have hrow := effects_ordinary env codecs runId [row]
        have hone : ∀ w, Authoritative runId [row] w → AuthoritativeRun runId w :=
          fun w hw => ⟨[row], Nat.le_refl 1, hw⟩
        refine spec_bind (Keeps.to (keeps_orFail _ (hrow.keeps_warnExclusions _)) hone)
          fun fatal => ?_
        refine spec_pure fun w hw => ⟨[row], Nat.le_refl 1, hw, fun snapshotId hset => ?_⟩
        exact ⟨row, List.mem_singleton.mpr rfl, hsnapshot.trans (Option.some.inj hset)⟩
    · rintro w ⟨rows, hlength, hw, hnames⟩
      revert w
      exact (keeps_conclude env session codecs final hnames).imp (fun _ hw => hw)
        (fun _ _ hw => ⟨rows, hlength, hw⟩) fun _ hw => ⟨rows, hlength, hw⟩
  · exact spec_throw hnone

theorem keeps_authoritativeRun {α : Type} {m : Method α}
    (h : ∀ rows, Keeps (Authoritative runId rows) m) : Keeps (AuthoritativeRun runId) m := by
  rintro w ⟨rows, hlength, hw⟩
  exact ((h rows).imp (fun _ ht => ht) (fun _ t ht =>
    (⟨rows, hlength, ht⟩ : AuthoritativeRun runId t))
    fun t ht => ⟨rows, hlength, ht⟩) w hw

theorem keeps_afterFailure (codecs : Codecs) (display : CaptureError → String)
    (initial : CheckpointCommit) (error : CaptureError) :
    Keeps (AuthoritativeRun runId) (afterFailure env display initial error) := by
  refine keeps_authoritativeRun fun rows => ?_
  have h := effects_ordinary env codecs runId rows
  have hload : Keeps (Authoritative runId rows) (loadRunning env) :=
    keeps_bind h.keeps_nextTick fun _ => keeps_bind keeps_get fun _ => keeps_pure _
  refine keeps_bind hload fun running => ?_
  refine spec_ite (fun _ => keeps_pure _) fun _ => ?_
  exact keeps_bind (keeps_attempt h.keeps_cleanupExclusionsForRetention) fun _ => keeps_pure _

/-- A failed preparation is finalized without a final snapshot. -/
theorem keeps_preparationFailure (codecs : Codecs) (message : String) :
    Keeps (Authoritative runId []) (Recorder.finishPreparationFailure env message) :=
  (effects_ordinary env codecs runId []).keeps_finishPreparationFailure message
    (finishKeeps_authoritative (nofun : ∀ snapshotId, none = some snapshotId → Names [] snapshotId))

theorem keeps_running (codecs : Codecs) (initialSnapshot : SnapshotId) :
    Keeps (Authoritative runId []) ((RecorderOp.markRunRunning initialSnapshot).exec env
      codecs) := by
  refine spec_get_bind fun w hw => spec_transact ?_ ?_
  · rintro t db rfl hok
    rw [hw.owner] at hok
    exact ⟨hw.toRecording.accept .other (hw.linked.running hok) (Nat.le_refl _), hw.counted⟩
  · rintro t rfl
    exact ⟨hw.of_eq rfl rfl rfl hw.sequencer, hw.counted⟩

/-- Before the fallback there is at most one final checkpoint, the one of the supervision. -/
theorem spec_captureUntilFallback (codecs : Codecs) (display : CaptureError → String) :
    Spec (Authoritative runId []) (captureUntilFallback env codecs display session)
      (fun _ => AuthoritativeRun runId) (AuthoritativeRun runId) := by
  have h := effects_ordinary env codecs runId []
  have hnone : ∀ w, Authoritative runId [] w → AuthoritativeRun runId w :=
    fun w hw => ⟨[], Nat.zero_le 1, hw⟩
  have hfailure : ∀ message, Spec (Authoritative runId [])
      (do Recorder.finishPreparationFailure env message; return Remaining.nothing)
      (fun _ => AuthoritativeRun runId) (AuthoritativeRun runId) := fun message =>
    spec_bind (Keeps.to (keeps_preparationFailure env codecs message) hnone) fun _ =>
      spec_pure hnone
  unfold captureUntilFallback
  rcases session.cloneFailure with _ | message
  swap
  · exact hfailure message
  have hinitial : CheckpointReason.initial ≠ .final := by decide
  refine spec_bind (Keeps.to (keeps_outcome (keeps_ordinaryCheckpoint env codecs hinitial none))
    hnone) fun committed => ?_
  rcases committed with error | initial
  · exact hfailure (display error)
  unfold capturePrepared
  refine spec_bind (Keeps.to (keeps_outcome (keeps_running env codecs _)) hnone) fun marked => ?_
  rcases marked with error | _
  · exact hfailure (display error)
  unfold captureRunning
  rcases session.startFailure with _ | message
  swap
  · exact spec_pure hnone
  -- the child is started up and supervised; a failure leaves the fallback to do
  have hstart : Keeps (Authoritative runId []) (startUp env session initial) := by
    refine keeps_bind (keeps_forM (fun payload => ?_) _) fun _ => ?_
    · exact keeps_bind (h.keeps_emit trivial) fun _ => keeps_pure _
    · exact keeps_bind (h.keeps_warnExclusions _) fun _ => h.keeps_flush
  refine spec_bind (Keeps.to (keeps_outcome hstart) hnone) fun started => ?_
  rcases started with error | _
  · exact spec_pure hnone
  refine spec_bind (Q := fun _ => AuthoritativeRun runId)
    (spec_outcome ((spec_supervise env session codecs).imp (fun _ hw => hw) (fun _ _ hw => hw)
      fun _ hw _ => hw)) fun supervised => ?_
  rcases supervised with error | _
  · exact keeps_afterFailure env codecs display initial error
  · exact keeps_pure _

end Routes

/-! ### The fallback -/

/-- Since the calls `before`, and besides batches of events, the store has accepted these. -/
def Since (before written calls : List StoreCall) : Prop :=
  ∃ later, calls = before ++ later ∧ later.filter (fun call => call ≠ .append) = written

section Since

variable {before written calls : List StoreCall}

theorem since_nil (before : List StoreCall) : Since before [] before :=
  ⟨[], (List.append_nil _).symm, rfl⟩

theorem Since.append (h : Since before written calls) :
    Since before written (calls ++ [.append]) := by
  obtain ⟨later, rfl, hlater⟩ := h
  refine ⟨later ++ [.append], List.append_assoc .., ?_⟩
  rw [List.filter_append, hlater]
  exact List.append_nil _

theorem Since.write (h : Since before written calls) {call : StoreCall} (hcall : call ≠ .append) :
    Since before (written ++ [call]) (calls ++ [call]) := by
  obtain ⟨later, rfl, hlater⟩ := h
  refine ⟨later ++ [call], List.append_assoc .., ?_⟩
  rw [List.filter_append, hlater, List.filter_singleton, decide_eq_true hcall, cond_true]

theorem Since.mem_iff (h : Since before written calls) {call : StoreCall} (hcall : call ≠ .append) :
    call ∈ calls.drop before.length ↔ call ∈ written := by
  obtain ⟨later, rfl, rfl⟩ := h
  rw [List.drop_left, List.mem_filter]
  exact ⟨fun hmem => ⟨hmem, decide_eq_true hcall⟩, fun hmem => hmem.1⟩

theorem Since.fallbackNames_iff (h : Since before written calls) {rows : List CheckpointRow}
    {initialSnapshot : SnapshotId} :
    FallbackNames rows initialSnapshot (calls.drop before.length)
      ↔ FallbackNames rows initialSnapshot written := by
  unfold FallbackNames
  rw [h.mem_iff (by decide : StoreCall.finish ≠ .append)]
  exact iff_of_eq (if_congr (h.mem_iff (by decide)) rfl rfl)

end Since

section Fallback

variable (env : Env) (codecs : Codecs) {runId : RunId} {rows : List CheckpointRow}

/-- What the accepted calls say besides. -/
theorem Effects.withCalls {env : Env} {codecs : Codecs} {reasons : CheckpointReason → Prop}
    {allowed : EventPayload → Prop} {I : World → Prop}
    {Committed Done : CheckpointId → SnapshotId → World → Prop}
    (h : Effects env codecs reasons allowed I Committed Done) (before written : List StoreCall) :
    Effects env codecs reasons allowed (fun w => I w ∧ Since before written w.acceptedCalls)
      (fun id snapshotId w => Committed id snapshotId w
        ∧ Since before (written ++ [.checkpoint]) w.acceptedCalls)
      (fun id snapshotId w => Done id snapshotId w
        ∧ Since before (written ++ [.checkpoint]) w.acceptedCalls) where
  ordinary := h.ordinary
  tick w hw := ⟨h.tick w hw.1, hw.2⟩
  paths w excludedPaths hw := ⟨h.paths w excludedPaths hw.1, hw.2⟩
  refuse w call hw := ⟨h.refuse w call hw.1, (acceptedCalls_refuse w call).symm ▸ hw.2⟩
  object w db stored createdUnixMs hw hok :=
    ⟨h.object w db stored createdUnixMs hw.1 hok, (acceptedCalls_other w db).symm ▸ hw.2⟩
  number w payload event sequencer hw hnumbered :=
    ⟨h.number w payload event sequencer hw.1 hnumbered, hw.2⟩
  queue w payload event sequencer hallowed hw hnumbered :=
    ⟨h.queue w payload event sequencer hallowed hw.1 hnumbered, hw.2⟩
  append w db hw hok := by
    refine ⟨h.append w db hw.1 hok, ?_⟩
    have hcalls := acceptedCalls_accept w (by decide : StoreCall.append ≠ .other) db
    exact hcalls.symm ▸ hw.2.append
  commit := by
    intro w checkpointId reason label snapshot event sequencer db projected hreason hscanned hw
      hnumbered hok hprojected
    refine ⟨h.commit w checkpointId reason label snapshot event sequencer db projected hreason
      hscanned hw.1 hnumbered hok hprojected, ?_⟩
    have hcalls := acceptedCalls_accept (w.number sequencer)
      (by decide : StoreCall.checkpoint ≠ .other) db
    exact hcalls.symm ▸ hw.2.write (by decide)
  bounded id snapshotId w hw := h.bounded id snapshotId w hw.1
  count id snapshotId w hw := ⟨h.count id snapshotId w hw.1, hw.2⟩

/-- An accepted finalization is one of the calls. -/
theorem FinishTakes.withCalls {I J : World → Prop} {finish : RunFinish}
    (h : FinishTakes I J finish) (before written : List StoreCall) :
    FinishTakes (fun w => I w ∧ Since before written w.acceptedCalls)
      (fun w => J w ∧ Since before (written ++ [.finish]) w.acceptedCalls) finish := by
  intro w db hw hok
  refine ⟨h w db hw.1 hok, ?_⟩
  have hcalls := acceptedCalls_accept w (by decide : StoreCall.finish ≠ .other) db
  exact hcalls.symm ▸ hw.2.write (by decide)

/-- The store keeps its history, whatever the recorder does between its checkpoints. -/
theorem effects_recorded (db : Db) :
    Effects env codecs (fun _ => False) (fun _ => True) (fun w => db ∈ w.history)
      (fun _ _ _ => False) (fun _ _ _ => False) where
  ordinary _ _ := trivial
  tick _ hw := hw
  paths _ _ hw := hw
  refuse _ _ hw := hw
  object _ _ _ _ hw _ := List.mem_append_left _ hw
  number _ _ _ _ hw _ := hw
  queue _ _ _ _ _ hw _ := hw
  append _ _ hw _ := List.mem_append_left _ hw
  commit _ _ _ _ _ _ _ _ _ hreason := hreason.elim
  bounded _ _ _ hw := hw.elim
  count _ _ _ hw := hw

/-- What a fallback comes to that finds the final checkpoints `rows`: it leaves the run with its
final link on one of some final checkpoints, at most one exactly if the accepted calls suit `rows`,
or they do not and it has set the link to something else. -/
def Fallen (runId : RunId) (rows : List CheckpointRow) (initialSnapshot : SnapshotId)
    (before : List StoreCall) (w : World) : Prop :=
  ∃ written, Since before written w.acceptedCalls
    ∧ ((∃ rows', Authoritative runId rows' w
          ∧ (rows'.length ≤ 1 ↔ FallbackNames rows initialSnapshot written))
        ∨ (∃ db ∈ w.history, ¬ FinalAuthoritative db runId)
          ∧ ¬ FallbackNames rows initialSnapshot written)

section Fallen

variable {initialSnapshot : SnapshotId} {before : List StoreCall}

/-- The final snapshot has always been authoritative exactly if the accepted calls suit. -/
theorem Fallen.always_iff {w : World} (h : Fallen runId rows initialSnapshot before w) :
    AlwaysAuthoritative w runId
      ↔ FallbackNames rows initialSnapshot (w.acceptedCalls.drop before.length) := by
  obtain ⟨written, hsince, ⟨rows', hw, hiff⟩ | ⟨⟨db, hdb, hbad⟩, hnames⟩⟩ := h
  · rw [hsince.fallbackNames_iff, ← hiff]
    exact ⟨fun halways => hw.linked.length_le (halways w.db hw.current), hw.always⟩
  · rw [hsince.fallbackNames_iff]
    exact iff_of_false (fun halways => hbad (halways db hdb)) hnames

/-- The cleanup warns at most. -/
theorem keeps_fallen_cleanup (codecs : Codecs) :
    Keeps (Fallen runId rows initialSnapshot before)
      (Recorder.cleanupExclusionsForRetention env) := by
  refine Keeps.of_state fun w hw => ?_
  obtain ⟨written, hsince, ⟨rows', hw, hiff⟩ | ⟨⟨db, hdb, hbad⟩, hnames⟩⟩ := hw
  · have h := (effects_ordinary env codecs runId rows').withCalls before written
    obtain ⟨ht, hsince⟩ := h.keeps_cleanupExclusionsForRetention.state ⟨hw, hsince⟩
    exact ⟨written, hsince, Or.inl ⟨rows', ht, hiff⟩⟩
  · have h := (effects_recorded env codecs db).withCalls before written
    obtain ⟨ht, hsince⟩ := h.keeps_cleanupExclusionsForRetention.state ⟨hdb, hsince⟩
    exact ⟨written, hsince, Or.inr ⟨⟨db, ht, hbad⟩, hnames⟩⟩

/-- The snapshot to finalize the run with: the one of the checkpoint of the fallback, or the
initial one for it. -/
theorem spec_fallbackCheckpoint {E : World → Prop} :
    Spec (fun w => Authoritative runId rows w ∧ Since before [] w.acceptedCalls)
      (Recorder.finalCheckpoint env codecs initialSnapshot)
      (fun snapshotId w =>
        (∃ row : CheckpointRow, row.snapshotId = snapshotId ∧ Authoritative runId (rows ++ [row]) w
          ∧ Since before [.checkpoint] w.acceptedCalls)
        ∨ snapshotId = initialSnapshot ∧ Authoritative runId rows w
          ∧ Since before [] w.acceptedCalls) E := by
  have h := (effects_authoritative env codecs (· = .final) runId rows).withCalls before []
  refine spec_bind (Q := fun committed w => match committed with
    | .ok commit => ∃ row : CheckpointRow, row.snapshotId = commit.snapshotId
        ∧ Authoritative runId (rows ++ [row]) w ∧ Since before [.checkpoint] w.acceptedCalls
    | .error _ => Authoritative runId rows w ∧ Since before [] w.acceptedCalls)
    (spec_outcome ((h.spec_checkpoint rfl none).imp (fun _ hw => hw) ?_ fun _ hw _ => hw))
    fun committed => ?_
  · rintro commit w ⟨⟨checkpoint, hsnapshot, hreason, hw⟩, hsince⟩
    rw [addedFinal, if_pos hreason] at hw
    exact ⟨checkpointRow checkpoint, hsnapshot, hw, hsince⟩
  · rcases committed with error | commit
    · exact spec_pure fun w hw => Or.inr ⟨rfl, hw⟩
    · refine spec_bind (Q := fun _ w => ∃ row : CheckpointRow, row.snapshotId = commit.snapshotId
        ∧ Authoritative runId (rows ++ [row]) w ∧ Since before [.checkpoint] w.acceptedCalls) ?_
        fun _ => spec_pure fun w hw => Or.inl hw
      rintro w ⟨row, hsnapshot, hw⟩
      have hrow := (effects_ordinary env codecs runId (rows ++ [row])).withCalls before
        [.checkpoint]
      exact ⟨row, hsnapshot, (hrow.keeps_warnExclusions commit.exclusions).state hw⟩

/-- The end of the fallback, with its finalization or without. -/
theorem spec_fallbackFinish (codecs : Codecs) {J E : World → Prop} {written : List StoreCall}
    {snapshotId : SnapshotId}
    (hfinish : ∀ finish : RunFinish, finish.finalSnapshot = some snapshotId →
      FinishTakes (Authoritative runId rows) J finish) :
    Spec (fun w => Authoritative runId rows w ∧ Since before written w.acceptedCalls)
      (do attempt (Recorder.cleanupExclusionsForRetention env)
          Recorder.finishFailed env (some snapshotId) : Method Unit)
      (fun _ w => (Authoritative runId rows w ∧ Since before written w.acceptedCalls)
        ∨ (J w ∧ Since before (written ++ [.finish]) w.acceptedCalls)) E := by
  have h := (effects_ordinary env codecs runId rows).withCalls before written
  refine spec_bind (Q := fun _ w => Authoritative runId rows w
    ∧ Since before written w.acceptedCalls)
    (spec_attempt h.keeps_cleanupExclusionsForRetention) fun _ => ?_
  exact h.spec_finishFailed fun finish hset => (hfinish finish hset).withCalls before written

/-- A finalization with the snapshot of a final checkpoint. -/
theorem spec_fallbackFinish_named (codecs : Codecs) {E : World → Prop}
    {rows' : List CheckpointRow} {written : List StoreCall} {snapshotId : SnapshotId}
    (hnamed : Names rows' snapshotId)
    (hiff : rows'.length ≤ 1 ↔ FallbackNames rows initialSnapshot written)
    (hiff' : rows'.length ≤ 1 ↔ FallbackNames rows initialSnapshot (written ++ [.finish])) :
    Spec (fun w => Authoritative runId rows' w ∧ Since before written w.acceptedCalls)
      (do attempt (Recorder.cleanupExclusionsForRetention env)
          Recorder.finishFailed env (some snapshotId) : Method Unit)
      (fun _ => Fallen runId rows initialSnapshot before) E := by
  refine (spec_fallbackFinish env codecs (finishKeeps_authoritative ?_)).imp (fun _ hw => hw) ?_
    fun _ hw => hw
  · intro other hset
    rw [← Option.some.inj hset]
    exact hnamed
  · rintro _ w (⟨hw, hsince⟩ | ⟨hw, hsince⟩)
    · exact ⟨written, hsince, Or.inl ⟨rows', hw, hiff⟩⟩
    · exact ⟨_, hsince, Or.inl ⟨rows', hw, hiff'⟩⟩

/-- **The fallback.** -/
theorem spec_captureFallback (hlength : rows.length ≤ 1) (initialSnapshot : SnapshotId)
    (message : String) (supervised : Bool) :
    Spec (fun w => Authoritative runId rows w ∧ Since before [] w.acceptedCalls)
      (captureFallback env codecs (.fallback initialSnapshot message supervised))
      (fun _ => Fallen runId rows initialSnapshot before)
      (Fallen runId rows initialSnapshot before) := by
  have h := (effects_ordinary env codecs runId rows).withCalls before []
  refine spec_bind (Q := fun _ => Fallen runId rows initialSnapshot before) ?_ fun _ =>
    spec_ite (fun _ => spec_attempt (keeps_fallen_cleanup env codecs)) fun _ =>
      spec_pure fun _ hw => hw
  refine spec_bind (Q := fun _ w => Authoritative runId rows w ∧ Since before [] w.acceptedCalls)
    (spec_attempt (h.keeps_warning .other (sanitizeText message))) fun _ => ?_
  refine spec_bind (spec_fallbackCheckpoint env codecs) fun finalSnapshot => ?_
  rintro w (⟨row, hsnapshot, hw⟩ | ⟨rfl, hw⟩)
  · -- its own checkpoint is the only final one if there was none before
    have hiff : (rows ++ [row]).length ≤ 1 ↔ rows = [] := by
      rw [List.length_append, List.length_singleton, ← List.length_eq_zero_iff]
      omega
    exact spec_fallbackFinish_named env codecs
      ⟨row, List.mem_append_right _ List.mem_cons_self, hsnapshot⟩ hiff hiff w hw
  · by_cases hnamed : Names rows finalSnapshot
    · exact spec_fallbackFinish_named env codecs hnamed (by simp [hlength, FallbackNames])
        (by simp [hlength, FallbackNames, hnamed]) w hw
    · refine (spec_fallbackFinish env codecs (finishTakes_unnamed hnamed)).imp (fun _ hw => hw) ?_
        (fun _ hw => hw) w hw
      rintro _ t (⟨ht, hsince⟩ | ⟨ht, hsince⟩)
      · exact ⟨[], hsince, Or.inl ⟨rows, ht, by simp [hlength, FallbackNames]⟩⟩
      · exact ⟨_, hsince, Or.inr ⟨ht, by simp [FallbackNames, hnamed]⟩⟩

end Fallen

end Fallback


/-! ### The capture of a run -/

/-- The recorder of a run that has just been created, without a final snapshot. -/
theorem authoritative_start {codecs : Codecs} {requests : List Request} {run : Run} {db : Db}
    (h : createRun (Machine.run (step codecs) Db.empty requests) run = .ok db)
    (hnew : run.finalSnapshot = none) (options : CaptureOptions) :
    Authoritative run.id [] (World.start db run.id options) := by
  have hlinked : Linked db run.id [] := by
    have hcheckpoints := checkpoints_created h
    obtain ⟨-, -, hfresh, runArguments, runParents, rfl⟩ := createRun_ok h
    refine ⟨?_, ?_⟩
    · refine List.filter_eq_nil_iff.mpr fun row hrow hfinal => ?_
      exact hcheckpoints row hrow (of_decide_eq_true hfinal).1
    · intro row hrow hid snapshotId hset
      rcases List.mem_append.mp hrow with hbefore | hrow
      · exact absurd (List.mem_map.mpr ⟨row, hbefore, hid⟩) hfresh
      · rw [List.mem_singleton.mp hrow] at hset
        have hnone : run.finalSnapshot = some snapshotId := hset
        rw [hnew] at hnone
        exact absurd hnone (by simp)
  refine ⟨⟨rfl, rfl, hlinked, List.mem_cons_self, fun hlength db' hdb' => ?_⟩, Nat.zero_lt_one⟩
  rw [List.mem_singleton.mp hdb']
  exact hlinked.authoritative hlength

/-- **The final snapshot.**  In the capture of a run that has just been created, with any of its
steps failing, after the creation and after every transaction of the store (so wherever a crash
leaves it) the run has at most one final checkpoint and its final link names that one's snapshot,
exactly if the state before the fallback, if that is run, suits the calls of it that the store
accepts. -/
theorem capture_authoritative (env : Env) (codecs : Codecs) (display : CaptureError → String)
    (session : Session) (requests : List Request) (run : Run) (options : CaptureOptions) {db : Db}
    (h : createRun (Machine.run (step codecs) Db.empty requests) run = .ok db)
    (hnew : run.finalSnapshot = none) :
    AlwaysAuthoritative
        (afterCapture env codecs display session (World.start db run.id options)) run.id
      ↔ FallbackReady
          (fallbackCalls env codecs display session (World.start db run.id options))
          (beforeFallback env codecs display session (World.start db run.id options)) := by
  have hstart := authoritative_start h hnew options
  have huntil := spec_captureUntilFallback env session codecs display _ hstart
  unfold fallbackCalls afterCapture beforeFallback capture
  rw [exec_bind]
  rcases hexec : exec (captureUntilFallback env codecs display session)
    (World.start db run.id options) with ⟨error | remaining, w⟩
  · rw [hexec] at huntil
    obtain ⟨rows, hlength, hw⟩ := huntil
    exact iff_of_true (hw.always hlength) (fallbackReady_of_ne (by simp))
  · rw [hexec] at huntil
    obtain ⟨rows, hlength, hw⟩ := huntil
    rcases remaining with _ | ⟨initialSnapshot, message, supervised⟩
    · exact iff_of_true (hw.always hlength) (fallbackReady_of_ne (by simp))
    · rw [fallbackReady_fallback]
      obtain rfl : finals w.db w.recorder.runId = rows := hw.owner ▸ hw.linked.finals
      exact ((spec_captureFallback env codecs hlength initialSnapshot message supervised).state
        ⟨hw, since_nil w.acceptedCalls⟩).always_iff

namespace Sample

/-- A session in which nothing fails outside of the recorder but, if it is given, the start. -/
def session (startFailure : Option String) : Session where
  cloneFailure := none
  startFailure := startFailure
  startup := []
  spawnFailure := none
  observed := []
  failure := none
  groupStopped := true
  interrupted := false
  rootPid := ⟨1, ProcessId.one_ne_zero⟩
  exitStatus := .code 0
  observing := observing_nil
  unstopped := by simp

/-- The world in which the second scan, the one of the final checkpoint, finds nothing. -/
def blind : Env := { env 999 with scan := fun tick => if tick < 9 then (env 999).scan tick else
  ⟨[], .error "workspace is gone"⟩ }

theorem fallbackReady : FallbackReady
    (fallbackCalls (env 999) codecs (fun _ => "capture failed") (session (some "could not start"))
      (World.start created run.id options))
    (beforeFallback (env 999) codecs (fun _ => "capture failed") (session (some "could not start"))
      (World.start created run.id options)) := by decide +kernel

theorem twoFinals : ∃ db ∈ (afterCapture (env 24) codecs (fun _ => "capture failed")
    (session none) (World.start created run.id options)).history,
      1 < (finals db run.id).length := by decide +kernel

end Sample

/-- A capture whose start fails: the fallback takes the final checkpoint. -/
theorem capture_authoritative_fallback :
    AlwaysAuthoritative (afterCapture (Sample.env 999) Sample.codecs (fun _ => "capture failed")
      (Sample.session (some "could not start"))
      (World.start Sample.created Sample.run.id Sample.options)) Sample.run.id := by
  have hiff := capture_authoritative (Sample.env 999) Sample.codecs (fun _ => "capture failed")
    (Sample.session (some "could not start")) [] Sample.run Sample.options Sample.createRun_run rfl
  -- the capture is not to be run by the elaborator
  with_reducible exact hiff.mpr Sample.fallbackReady

/-- The store refuses the transaction of `finish` once, after the final checkpoint: the fallback
commits a second one. -/
theorem capture_not_always_authoritative :
    ¬ ∀ (env : Env) (codecs : Codecs) (display : CaptureError → String) (session : Session)
        (requests : List Request) (run : Run) (options : CaptureOptions) (db : Db),
        createRun (Machine.run (step codecs) Db.empty requests) run = .ok db →
        run.finalSnapshot = none →
        AlwaysAuthoritative
          (afterCapture env codecs display session (World.start db run.id options)) run.id := by
  intro hall
  obtain ⟨db, hdb, htwo⟩ := Sample.twoFinals
  exact Nat.not_le.mpr htwo (hall (Sample.env 24) Sample.codecs (fun _ => "capture failed")
    (Sample.session none) [] Sample.run Sample.options Sample.created Sample.createRun_run rfl
    db hdb).length_le

/-- Where the final scan fails, the final link names a snapshot of no final checkpoint. -/
example :
    let w := afterCapture Sample.blind Sample.codecs (fun _ => "capture failed")
      (Sample.session (some "could not start")) Sample.world
    finals w.db Sample.runId = []
      ∧ (w.db.run? Sample.runId).bind (·.finalSnapshotId) = some Sample.emptySnapshot.id := by
  decide +kernel

end Rewind

/-
What the recorder's methods do to the world.

Four methods touch the timeline of a run: `queueEvent`, `flush`, `commitNumbered` and
`commitFinish`.  Everything else is quiet: it moves the clock, stores objects, or keeps
accounts.  So a property of worlds that is blind to quiet changes needs to be checked at
those four only (`Upheld`), and then holds across every operation of the recorder.

* `Quiet`, `Stable` — quiet changes, and the properties blind to them;
* `Numbered` — the event that the sequencer numbers next;
* `RecorderOp`, `recorderStep` — the operations of the recorder as a machine;
* **`Upheld.step`** — from the four methods to every operation.
-/
import Rewind.Capture.Recorder
import Rewind.Store.Completion

namespace Rewind

open Call

/-! ### Quiet changes -/

/-- The answers to the calls that write a timeline. -/
def World.timelineAnswers (w : World) : List Answer := w.answers.filter fun a => a.call ≠ .other

/-- `w'` differs from `w` in nothing that a timeline depends on. -/
structure Quiet (w w' : World) : Prop where
  runId : w'.recorder.runId = w.recorder.runId
  sequencer : w'.recorder.sequencer = w.recorder.sequencer
  pending : w'.recorder.pending = w.recorder.pending
  events : w'.db.events = w.db.events
  runs : w'.db.runs = w.db.runs
  answers : w'.timelineAnswers = w.timelineAnswers

/-- A property of worlds that quiet changes keep. -/
def Stable (I : World → Prop) : Prop := ∀ w w', Quiet w w' → I w → I w'

section Quietness

variable {I : World → Prop} (hI : Stable I) (env : Env)
include hI

theorem keeps_nextTick : Keeps I nextTick :=
  fun w hw => hI w _ ⟨rfl, rfl, rfl, rfl, rfl, rfl⟩ hw

theorem keeps_now : Keeps I (now env) := by
  refine keeps_bind (keeps_nextTick hI) fun tick => ?_
  rcases env.clock tick with _ | reading
  · exact keeps_throw _
  · exact keeps_pure _

theorem keeps_timestampNow : Keeps I (timestampNow env) :=
  keeps_bind (keeps_now hI env) fun _ => keeps_pure _

/-- An update of the recorder's accounts. -/
theorem keeps_modifyRecorder {f : Recorder → Recorder}
    (hf : ∀ r, (f r).runId = r.runId ∧ (f r).sequencer = r.sequencer ∧ (f r).pending = r.pending) :
    Keeps I (modifyRecorder f) := by
  refine keeps_modify fun w hw => ?_
  obtain ⟨hrunId, hsequencer, hpending⟩ := hf w.recorder
  exact hI w _ ⟨hrunId, hsequencer, hpending, rfl, rfl, rfl⟩ hw

theorem keeps_accountObjects (candidates : List (ObjectId × UInt64)) (projected : Nat) :
    Keeps I (Recorder.accountObjects candidates projected) :=
  keeps_modifyRecorder hI fun _ => ⟨rfl, rfl, rfl⟩

end Quietness

/-! ### Transactions -/

/-- The world after the store has accepted a call. -/
def World.accept (w : World) (call : StoreCall) (db : Db) : World :=
  ⟨db, w.recorder, w.tick + 1, w.answers ++ [⟨call, true⟩], w.history ++ [db]⟩

/-- The world after the store has refused a call. -/
def World.refuse (w : World) (call : StoreCall) : World :=
  ⟨w.db, w.recorder, w.tick + 1, w.answers ++ [⟨call, false⟩], w.history⟩

/-- A transaction is accepted with its database, or refused with the old one. -/
theorem spec_transact {P E : World → Prop} {Q : Unit → World → Prop} {env : Env}
    {call : StoreCall} {f : Db → StoreResult Db}
    (haccept : ∀ w db, P w → f w.db = .ok db → Q () (w.accept call db))
    (hrefuse : ∀ w, P w → E (w.refuse call)) : Spec P (transact env call f) Q E := by
  intro w hw
  unfold transact
  rw [exec_ofFun]
  by_cases hfails : env.storeFails w.tick
  · simp only [hfails, if_true]
    exact hrefuse w hw
  · simp only [hfails, Bool.false_eq_true, if_false]
    rcases hresult : f w.db with error | db
    · exact hrefuse w hw
    · exact haccept w db hw hresult

/-- Storing objects is quiet. -/
theorem keeps_transact_other {I : World → Prop} (hI : Stable I) {env : Env}
    {f : Db → StoreResult Db} (hf : ∀ db db', f db = .ok db' →
      db'.events = db.events ∧ db'.runs = db.runs) : Keeps I (transact env .other f) := by
  have hanswers : ∀ (w : World) (accepted : Bool),
      (w.answers ++ [(⟨.other, accepted⟩ : Answer)]).filter (fun a => decide (a.call ≠ .other))
        = w.timelineAnswers := by
    intro w accepted
    rw [List.filter_append, World.timelineAnswers]
    simp
  refine spec_transact (fun w db hw hok => ?_) fun w hw => ?_
  · obtain ⟨hevents, hruns⟩ := hf w.db db hok
    exact hI w _ ⟨rfl, rfl, rfl, hevents, hruns, hanswers w true⟩ hw
  · exact hI w _ ⟨rfl, rfl, rfl, rfl, rfl, hanswers w false⟩ hw

theorem recordObject_quiet {db db' : Db} {stored : StoredObject} {createdUnixMs : Int64}
    (h : recordObject db stored createdUnixMs = .ok db') :
    db'.events = db.events ∧ db'.runs = db.runs := by
  obtain ⟨row, -, -, -, rfl, -⟩ := recordObject_ok h
  obtain ⟨rows, -, hdb⟩ := Db.insertObject_frame db row
  rw [hdb]
  exact ⟨rfl, rfl⟩

theorem keeps_storeScanned {I : World → Prop} (hI : Stable I) (env : Env)
    (objects : List StoredObject) : Keeps I (Recorder.storeScanned env objects) := by
  induction objects with
  | nil => exact keeps_pure _
  | cons object rest ih =>
    exact keeps_bind (keeps_transact_other hI fun _ _ => recordObject_quiet) fun _ => ih

theorem keeps_scanWorkspace {I : World → Prop} (hI : Stable I) (env : Env) :
    Keeps I (Recorder.scanWorkspace env) := by
  refine keeps_bind (keeps_nextTick hI) fun tick => ?_
  refine keeps_bind (keeps_outcome (keeps_storeScanned hI env _)) fun stored => ?_
  rcases stored with error | _
  · cases error <;> exact keeps_pure _
  · rcases (env.scan tick).result with message | report <;> exact keeps_pure _

theorem keeps_removeExclusions {I : World → Prop} (hI : Stable I) (env : Env)
    (paths : List SnapshotPath) (failed : Nat) (firstError : Option String) :
    Keeps I (Recorder.removeExclusions env paths failed firstError) := by
  induction paths generalizing failed firstError with
  | nil => exact keeps_pure _
  | cons path rest ih =>
    refine keeps_bind (keeps_nextTick hI) fun tick => ?_
    rcases env.removeEntry tick with _ | error
    · exact keeps_bind (keeps_modifyRecorder hI fun _ => ⟨rfl, rfl, rfl⟩) fun _ =>
        ih failed firstError
    · exact ih (failed + 1) (firstError.or (some error))

/-! ### Numbering -/

/-- `event` is what `sequencer` makes of `payload`, and `sequencer'` is the sequencer then. -/
structure Numbered (sequencer : Sequencer) (payload : EventPayload) (event : Event)
    (sequencer' : Sequencer) : Prop where
  runId : event.runId = sequencer.runId
  seq : event.seq = sequencer.next.get
  payload : event.payload = payload
  valid : event.validate = .ok ()
  offset : sequencer.lastOffset.asNanoseconds ≤ event.offset
  runId' : sequencer'.runId = sequencer.runId
  next' : sequencer'.next.get = sequencer.next.get + 1
  lastOffset' : sequencer'.lastOffset.asNanoseconds = event.offset

theorem Sequencer.nextAt_ok {sequencer sequencer' : Sequencer} {id : EventId}
    {wallClock : Timestamp} {monotonicOffset : MonotonicDuration} {payload : EventPayload}
    {event : Event}
    (h : sequencer.nextAt id wallClock monotonicOffset payload = .ok (event, sequencer')) :
    Numbered sequencer payload event sequencer' := by
  obtain ⟨event', hnew, h⟩ := Except.bind_eq_ok_iff.mp h
  obtain ⟨hvalid, hevent⟩ := Event.new_eq_ok_iff.mp (Except.mapError_eq_ok_iff.mp hnew)
  rcases hnext : sequencer.next.checkedNext with _ | next
  · rw [hnext] at h
    exact absurd h (by simp)
  · rw [hnext] at h
    obtain ⟨rfl, rfl⟩ := Prod.mk.inj (Except.ok.inj h)
    have hoffset : sequencer.lastOffset.asNanoseconds
        ≤ MonotonicDuration.asNanoseconds (if monotonicOffset.nanoseconds
            < sequencer.lastOffset.nanoseconds then sequencer.lastOffset else monotonicOffset) := by
      by_cases hlt : monotonicOffset.nanoseconds < sequencer.lastOffset.nanoseconds
      · rw [if_pos hlt]
      · rw [if_neg hlt]
        exact UInt64.not_lt.mp hlt
    subst hevent
    refine
      { runId := rfl, seq := rfl, payload := rfl, offset := hoffset, runId' := rfl,
        next' := EventSequence.checkedNext_eq_some_iff.mp hnext, lastOffset' := rfl, valid := ?_ }
    simp [Event.validate, hvalid, Except.mapError]

/-- Taking a number: only the sequencer moves, and only if an event comes of it. -/
theorem spec_sequencerNext {I : World → Prop} (hI : Stable I) {env : Env} {payload : EventPayload}
    {Q : Event → World → Prop}
    (hnext : ∀ w event sequencer, I w → Numbered w.recorder.sequencer payload event sequencer →
      Q event { w with recorder := { w.recorder with sequencer } }) :
    Spec I (sequencerNext env payload) Q I := by
  refine spec_bind (keeps_now hI env) fun reading => ?_
  refine spec_bind (keeps_nextTick hI) fun tick => ?_
  refine spec_get_bind fun w hw => ?_
  rcases hresult : w.recorder.sequencer.nextAt ⟨env.uuid tick⟩ reading.1 reading.2 payload
    with error | ⟨event, sequencer⟩
  · exact spec_throw fun t ht => ht ▸ hw
  · refine spec_bind (spec_modify fun t ht => ?_) fun _ => spec_pure fun t ht => ht
    subst ht
    exact hnext t event sequencer hw (Sequencer.nextAt_ok hresult)

/-- The world after `event` has been queued. -/
def World.queue (w : World) (event : Event) (sequencer : Sequencer) : World :=
  { w with recorder := { w.recorder with sequencer, pending := w.recorder.pending ++ [event] } }

/-- Queueing: the numbered event joins the buffer. -/
theorem spec_queueEvent {I : World → Prop} (hI : Stable I) {env : Env} {payload : EventPayload}
    {Q : World → Prop}
    (hqueue : ∀ w event sequencer, I w → Numbered w.recorder.sequencer payload event sequencer →
      Q (w.queue event sequencer)) :
    Spec I (Recorder.queueEvent env payload) (fun _ => Q) I := by
  refine spec_bind (spec_sequencerNext hI (Q := fun event w => ∃ v sequencer, I v
    ∧ Numbered v.recorder.sequencer payload event sequencer
    ∧ w = { v with recorder := { v.recorder with sequencer } }) ?_) fun event => ?_
  · intro w event sequencer hw hnumbered
    exact ⟨w, sequencer, hw, hnumbered, rfl⟩
  · refine spec_bind (spec_modify ?_) fun _ => spec_pure fun _ hw => hw
    rintro w ⟨v, sequencer, hv, hnumbered, rfl⟩
    exact hqueue v event sequencer hv hnumbered

/-! ### Operations -/

/-- An operation on the recorder, or on the store through it. -/
inductive RecorderOp where
  | queueEvent (payload : EventPayload)
  | emit (payload : EventPayload)
  | emitObjectReference (objectId : ObjectId) (logicalSize : UInt64) (payload : EventPayload)
  | warning (code : RecorderWarningCode) (message : String)
  | warnExclusions (count : Nat)
  | flush
  | checkpoint (reason : CheckpointReason) (label : Option String)
  | manualCheckpoint (label : Option String)
  | finish (status : RunStatus) (exitStatus : ProcessExitStatus) (finalSnapshot : Option SnapshotId)
  | commitFinish (finish : RunFinish)
  | finishPreparationFailure (message : String)
  | finishRunningWithoutChild (initialSnapshot : SnapshotId) (message : String)
  | cleanupExclusionsForRetention
  | putObject (stored : StoredObject) (createdUnixMs : Int64)
  | markRunRunning (initialSnapshot : SnapshotId)

/-- The payload an operation queues as it is given. -/
def RecorderOp.payload? : RecorderOp → Option EventPayload
  | .queueEvent payload | .emit payload | .emitObjectReference _ _ payload => some payload
  | _ => none

/-- Runs a method for what it does. -/
def discard {α : Type} (m : Method α) : Method Unit := do
  let _ ← m
  return ()

def RecorderOp.exec (env : Env) (codecs : Codecs) : RecorderOp → Method Unit
  | .queueEvent payload => discard (Recorder.queueEvent env payload)
  | .emit payload => discard (Recorder.emit env payload)
  | .emitObjectReference objectId logicalSize payload =>
    discard (Recorder.emitObjectReference env objectId logicalSize payload)
  | .warning code message => Recorder.warning env code message
  | .warnExclusions count => Recorder.warnExclusions env count
  | .flush => Recorder.flush env
  | .checkpoint reason label => discard (Recorder.checkpoint env codecs reason label)
  | .manualCheckpoint label => discard (Recorder.manualCheckpoint env codecs label)
  | .finish status exitStatus finalSnapshot => Recorder.finish env status exitStatus finalSnapshot
  | .commitFinish runFinish => Recorder.commitFinish env runFinish
  | .finishPreparationFailure message => Recorder.finishPreparationFailure env message
  | .finishRunningWithoutChild initialSnapshot message =>
    Recorder.finishRunningWithoutChild env codecs initialSnapshot message
  | .cleanupExclusionsForRetention => Recorder.cleanupExclusionsForRetention env
  | .putObject stored createdUnixMs =>
    transact env .other fun db => Rewind.recordObject db stored createdUnixMs
  | .markRunRunning initialSnapshot => do
    let w ← get
    transact env .other fun db => Rewind.markRunRunning db w.recorder.runId initialSnapshot

/-- The world after an operation, whatever it returned. -/
def recorderStep (env : Env) (codecs : Codecs) (w : World) (op : RecorderOp) : World :=
  (Call.exec (op.exec env codecs) w).2

/-- A recorder for the run `runId`, before its first operation. -/
def World.start (db : Db) (runId : RunId) (options : CaptureOptions) : World :=
  ⟨db, Recorder.new runId options, 0, [], [db]⟩

/-! ### From the four methods to every operation -/

/-- `emit` is a queued event and a flush from time to time. -/
theorem keeps_emit {I : World → Prop} {env : Env} {payload : EventPayload}
    (hqueue : Keeps I (Recorder.queueEvent env payload)) (hflush : Keeps I (Recorder.flush env)) :
    Keeps I (Recorder.emit env payload) := by
  refine keeps_bind hqueue fun sequence => ?_
  refine spec_get_bind fun w hw => Keeps.at ?_ hw
  refine spec_ite (fun _ => ?_) fun _ => keeps_pure _
  exact keeps_bind hflush fun _ => keeps_pure _

/-- The same where the event takes the world from `I` to `J`. -/
theorem spec_emit {I J : World → Prop} {env : Env} {payload : EventPayload}
    (hqueue : Spec I (Recorder.queueEvent env payload) (fun _ => J) I)
    (hflush : Keeps J (Recorder.flush env)) :
    Spec I (Recorder.emit env payload) (fun _ => J) (fun w => I w ∨ J w) := by
  refine spec_bind (hqueue.imp (fun _ hw => hw) (fun _ _ hw => hw) fun _ => Or.inl)
    fun sequence => ?_
  refine spec_get_bind fun w hw => ?_
  have hflush' := (hflush.at hw).imp (fun _ ht => ht) (fun _ _ ht => ht) fun t (ht : J t) =>
    (Or.inr ht : I t ∨ J t)
  refine spec_ite (fun _ => ?_) fun _ => spec_pure fun t ht => ht ▸ hw
  exact spec_bind hflush' fun _ => spec_pure fun _ ht => ht

/-- What the methods that touch the timeline keep.

`I` holds between operations and inside them, `Flushed` after a `flush` has gone through with
something emitted before it, `Completed` once the terminal event has been queued, and `Done`
after the finalization. -/
structure Upheld (env : Env) (codecs : Codecs) (I Flushed Completed Done : World → Prop)
    (allowed : EventPayload → Prop) : Prop where
  stable : Stable I
  stableFlushed : Stable Flushed
  stableCompleted : Stable Completed
  ordinary : ∀ payload, payload.isRunCompleted = false → allowed payload
  flushed : ∀ w, Flushed w → I w
  completed : ∀ w, I w → Completed w
  done : ∀ w, Completed w → Done w
  queueEvent : ∀ payload, allowed payload → Keeps I (Recorder.queueEvent env payload)
  flush : Keeps I (Recorder.flush env)
  emitFlush : ∀ payload, allowed payload →
    Spec I (do let _ ← Recorder.emit env payload; Recorder.flush env) (fun _ => Flushed) I
  commitNumbered : ∀ checkpointId reason label snapshot,
    Spec Flushed (Recorder.commitNumbered env codecs checkpointId reason label snapshot)
      (fun _ => I) I
  queueCompleted : ∀ status exitStatus,
    Spec I (Recorder.queueEvent env (.runCompleted status exitStatus)) (fun _ => Completed) I
  commitFinish : ∀ finish, Spec Completed (Recorder.commitFinish env finish) (fun _ => Done) Done
  markRunRunning : ∀ initialSnapshot,
    Keeps I ((RecorderOp.markRunRunning initialSnapshot).exec env codecs)

namespace Upheld

variable {env : Env} {codecs : Codecs} {I Flushed Completed Done : World → Prop}
  {allowed : EventPayload → Prop} (h : Upheld env codecs I Flushed Completed Done allowed)
include h

theorem keeps_emit {payload : EventPayload} (hpayload : allowed payload) :
    Keeps I (Recorder.emit env payload) :=
  Rewind.keeps_emit (h.queueEvent payload hpayload) h.flush

theorem keeps_warning (code : RecorderWarningCode) (message : String) :
    Keeps I (Recorder.warning env code message) :=
  keeps_bind (h.keeps_emit (h.ordinary _ rfl)) fun _ => keeps_pure _

theorem keeps_warnRunStorageLimit : Keeps I (Recorder.warnRunStorageLimit env) :=
  spec_get_bind fun _ hw => Keeps.at (h.keeps_warning _ _) hw

theorem keeps_warnExclusions (count : Nat) : Keeps I (Recorder.warnExclusions env count) :=
  spec_ite (fun _ => keeps_pure _) fun _ => h.keeps_warning _ _

theorem keeps_emitObjectReference (objectId : ObjectId) (logicalSize : UInt64)
    {payload : EventPayload} (hpayload : allowed payload) :
    Keeps I (Recorder.emitObjectReference env objectId logicalSize payload) := by
  refine spec_get_bind fun w hw => Keeps.at ?_ hw
  rcases Recorder.projectedObjectBytes w.recorder [(objectId, logicalSize)] with error | projected
  · exact keeps_bind h.keeps_warnRunStorageLimit fun _ => keeps_bind h.flush fun _ => keeps_throw _
  · refine keeps_bind (h.keeps_emit hpayload) fun _ => ?_
    exact keeps_bind (keeps_accountObjects h.stable _ _) fun _ => keeps_pure _

/-- A checkpoint commits right after a flush, or fails without having numbered it. -/
theorem spec_commitScanned (checkpointId : CheckpointId) (reason : CheckpointReason)
    (label : Option String) (report : ScanReport) :
    Spec Flushed (Recorder.commitScanned env codecs checkpointId reason label report)
      (fun _ => I) I := by
  refine spec_bind (Keeps.to (keeps_modifyRecorder h.stableFlushed fun _ => ⟨rfl, rfl, rfl⟩)
    h.flushed) fun _ => ?_
  refine spec_get_bind fun w hw => ?_
  rcases Recorder.projectedObjectBytes w.recorder (manifestObjects report.snapshot.manifest)
    with error | projected
  · refine Keeps.at ?_ (h.flushed w hw)
    refine keeps_bind h.keeps_warnRunStorageLimit fun _ => ?_
    refine keeps_bind (h.keeps_emit (h.ordinary _ rfl)) fun _ => ?_
    exact keeps_bind h.flush fun _ => keeps_throw _
  · refine spec_bind ((h.commitNumbered checkpointId reason label report.snapshot).imp
      (fun t ht => ht ▸ hw) (fun _ _ ht => ht) fun _ ht => ht) fun _ => ?_
    refine keeps_bind (keeps_accountObjects h.stable _ _) fun _ => ?_
    refine spec_get_bind fun v hv => Keeps.at ?_ hv
    refine spec_ite (fun _ => ?_) fun _ => keeps_throw _
    exact keeps_bind (keeps_modifyRecorder h.stable fun _ => ⟨rfl, rfl, rfl⟩) fun _ => keeps_pure _

theorem keeps_checkpointAllocated (checkpointId : CheckpointId) (reason : CheckpointReason)
    (label : Option String) :
    Keeps I (Recorder.checkpointAllocated env codecs checkpointId reason label) := by
  have hemitFlush := h.emitFlush (.checkpointStarted checkpointId reason) (h.ordinary _ rfl)
  unfold Recorder.checkpointAllocated
  rw [← bind_assoc]
  refine spec_bind hemitFlush fun _ => ?_
  refine spec_bind (Keeps.to (keeps_timestampNow h.stableFlushed env) h.flushed) fun _ => ?_
  refine spec_bind (Keeps.to (keeps_scanWorkspace h.stableFlushed env) h.flushed) fun report => ?_
  rcases report with error | report
  · refine Spec.imp (P := I) ?_ h.flushed (fun _ _ ht => ht) fun _ ht => ht
    refine keeps_bind (h.keeps_emit (h.ordinary _ rfl)) fun _ => ?_
    exact keeps_bind h.flush fun _ => keeps_throw _
  · exact h.spec_commitScanned checkpointId reason label report

theorem keeps_checkpoint (reason : CheckpointReason) (label : Option String) :
    Keeps I (Recorder.checkpoint env codecs reason label) :=
  keeps_bind (keeps_nextTick h.stable) fun _ => h.keeps_checkpointAllocated _ reason label

theorem keeps_manualCheckpoint (label : Option String) :
    Keeps I (Recorder.manualCheckpoint env codecs label) := by
  rcases label with _ | label
  · exact keeps_bind (h.keeps_checkpoint .manual none) fun _ => keeps_pure _
  · refine keeps_bind (keeps_nextTick h.stable) fun tick => ?_
    refine keeps_bind (h.keeps_emit (h.ordinary _ rfl)) fun _ => ?_
    exact keeps_bind (h.keeps_checkpointAllocated _ _ _) fun _ => keeps_pure _

theorem keeps_recordCleanupFailure (failed : Nat) (source : String) :
    Keeps I (Recorder.recordCleanupFailure env failed source) :=
  keeps_attempt (h.keeps_warning _ _)

theorem keeps_cleanupExclusionsForRetention :
    Keeps I (Recorder.cleanupExclusionsForRetention env) := by
  refine spec_get_bind fun w hw => Keeps.at ?_ hw
  refine spec_ite (fun _ => keeps_pure _) fun _ => ?_
  refine keeps_bind (keeps_nextTick h.stable) fun tick => ?_
  rcases env.openWorkspace tick with _ | source
  · refine keeps_bind (keeps_removeExclusions h.stable env _ _ _) fun failures => ?_
    rcases failures with ⟨failed, _ | source⟩
    · exact keeps_pure _
    · exact keeps_bind (h.keeps_recordCleanupFailure _ _) fun _ => keeps_throw _
  · exact keeps_bind (h.keeps_recordCleanupFailure _ _) fun _ => keeps_throw _

theorem keeps_removeWorkspace : Keeps I (Recorder.removeWorkspace env) := by
  refine keeps_bind (keeps_nextTick h.stable) fun tick => ?_
  rcases env.removeWorkspace tick with _ | error
  · exact keeps_pure _
  · exact h.keeps_recordCleanupFailure _ _

theorem keeps_finalCheckpoint (initialSnapshot : SnapshotId) :
    Keeps I (Recorder.finalCheckpoint env codecs initialSnapshot) := by
  refine keeps_bind (keeps_outcome (h.keeps_checkpoint .final none)) fun committed => ?_
  rcases committed with error | commit
  · exact keeps_pure _
  · exact keeps_bind (keeps_attempt (h.keeps_warnExclusions _)) fun _ => keeps_pure _

/-! ### The finalizations -/

theorem done_of_holds {w : World} (hw : I w) : Done w := h.done w (h.completed w hw)

/-- `finish`: the terminal event is queued, and the run finalized with it. -/
theorem spec_finish (status : RunStatus) (exitStatus : ProcessExitStatus)
    (finalSnapshot : Option SnapshotId) :
    Spec I (Recorder.finish env status exitStatus finalSnapshot) (fun _ => Done) Done := by
  refine spec_bind ((h.queueCompleted status (some exitStatus)).imp (fun _ hw => hw)
    (fun _ _ hw => hw) fun _ => h.done_of_holds) fun _ => ?_
  refine spec_bind (Keeps.to (keeps_now h.stableCompleted env) h.done) fun reading => ?_
  exact h.commitFinish _

theorem spec_finishFailed (finalSnapshot : Option SnapshotId) :
    Spec I (Recorder.finishFailed env finalSnapshot) (fun _ => Done) Done := by
  refine spec_bind (Q := fun _ => Completed) (spec_attempt ?_) fun _ => ?_
  · refine spec_bind ((h.queueCompleted .failed none).imp (fun _ hw => hw) (fun _ _ hw => hw)
      h.completed) fun _ => ?_
    exact spec_pure fun _ hw => hw
  · refine spec_bind (Keeps.to (keeps_outcome (keeps_now h.stableCompleted env)) h.done)
      fun reading => ?_
    rcases reading with error | reading
    · exact spec_pure h.done
    · exact spec_attempt (h.commitFinish _)

theorem spec_finishPreparationFailure (message : String) :
    Spec I (Recorder.finishPreparationFailure env message) (fun _ => Done) Done := by
  refine spec_bind (Keeps.to (keeps_attempt (h.keeps_warning _ _)) fun _ => h.done_of_holds)
    fun _ => ?_
  refine spec_bind (Keeps.to h.keeps_removeWorkspace fun _ => h.done_of_holds) fun _ => ?_
  exact h.spec_finishFailed none

theorem spec_finishRunningWithoutChild (initialSnapshot : SnapshotId) (message : String) :
    Spec I (Recorder.finishRunningWithoutChild env codecs initialSnapshot message)
      (fun _ => Done) Done := by
  refine spec_bind (Keeps.to (keeps_attempt (h.keeps_warning _ _)) fun _ => h.done_of_holds)
    fun _ => ?_
  refine spec_bind (Keeps.to (h.keeps_finalCheckpoint _) fun _ => h.done_of_holds) fun _ => ?_
  refine spec_bind (Keeps.to (keeps_attempt h.keeps_cleanupExclusionsForRetention)
    fun _ => h.done_of_holds) fun _ => ?_
  exact h.spec_finishFailed _

/-- An operation ends in `I` or, if it finalizes the run, in `Done`. -/
theorem exec {op : RecorderOp} (hop : ∀ payload ∈ op.payload?, allowed payload) :
    Spec I (op.exec env codecs) (fun _ => Done) Done := by
  have hkeeps : ∀ {α : Type} {m : Method α}, Keeps I m → Spec I m (fun _ => Done) Done :=
    fun hm => hm.imp (fun _ hw => hw) (fun _ _ => h.done_of_holds) fun _ => h.done_of_holds
  have hdiscard : ∀ {α : Type} {m : Method α}, Keeps I m →
      Spec I (discard m) (fun _ => Done) Done :=
    fun hm => hkeeps (keeps_bind hm fun _ => keeps_pure _)
  cases op with
  | queueEvent payload => exact hdiscard (h.queueEvent payload (hop payload rfl))
  | emit payload => exact hdiscard (h.keeps_emit (hop payload rfl))
  | emitObjectReference objectId logicalSize payload =>
    exact hdiscard (h.keeps_emitObjectReference objectId logicalSize (hop payload rfl))
  | warning code message => exact hkeeps (h.keeps_warning code message)
  | warnExclusions count => exact hkeeps (h.keeps_warnExclusions count)
  | flush => exact hkeeps h.flush
  | checkpoint reason label => exact hdiscard (h.keeps_checkpoint reason label)
  | manualCheckpoint label => exact hdiscard (h.keeps_manualCheckpoint label)
  | finish status exitStatus finalSnapshot => exact h.spec_finish status exitStatus finalSnapshot
  | commitFinish finish =>
    exact (h.commitFinish finish).imp h.completed (fun _ _ hw => hw) fun _ hw => hw
  | finishPreparationFailure message => exact h.spec_finishPreparationFailure message
  | finishRunningWithoutChild initialSnapshot message =>
    exact h.spec_finishRunningWithoutChild initialSnapshot message
  | cleanupExclusionsForRetention => exact hkeeps h.keeps_cleanupExclusionsForRetention
  | putObject stored createdUnixMs =>
    exact hkeeps (keeps_transact_other h.stable fun _ _ => recordObject_quiet)
  | markRunRunning initialSnapshot => exact hkeeps (h.markRunRunning initialSnapshot)

/-- **Every operation**, whatever it returns. -/
theorem step {w : World} (hw : I w) {op : RecorderOp}
    (hop : ∀ payload ∈ op.payload?, allowed payload) :
    Done (recorderStep env codecs w op) := (h.exec hop).state hw

end Upheld

end Rewind

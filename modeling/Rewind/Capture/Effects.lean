/-
What the recorder's methods come down to.

Every method is made of a few moves: the clock ticks, an event is numbered and queued, the store
accepts a transaction or refuses it, the recorder keeps its accounts.  `Effects` lists what a
property of worlds needs at these moves; then it holds across each method.  A checkpoint ends in a
property of its own, `Done`, and the reference to an object is accounted after it has been emitted.
-/
import Rewind.Capture.Methods

namespace Rewind

open Call

/-- The world after the sequencer has moved on. -/
def World.number (w : World) (sequencer : Sequencer) : World :=
  { w with recorder := { w.recorder with sequencer } }

/-- The world after objects have been accounted. -/
def World.account (w : World) (candidates : List (ObjectId × UInt64)) (projected : Nat) : World :=
  { w with recorder := { w.recorder with
      accountedObjects := w.recorder.accountedObjects
        ++ (candidates.map (·.1)).filter fun id => id ∉ w.recorder.accountedObjects
      logicalObjectBytes := projected } }

/-- The snapshots that a scan of the workspace has reported. -/
def Scanned (env : Env) (snapshot : Snapshot) : Prop :=
  ∃ tick report, (env.scan tick).result = .ok report ∧ report.snapshot = snapshot

/-- What a property of worlds needs to be kept by the methods of a recorder that takes checkpoints
for certain reasons and queues certain events.  `Committed` holds once a checkpoint is committed
and its objects are accounted, until it is counted; `Done` after that. -/
structure Effects (env : Env) (codecs : Codecs) (reasons : CheckpointReason → Prop)
    (allowed : EventPayload → Prop) (I : World → Prop)
    (Committed Done : CheckpointId → SnapshotId → World → Prop) : Prop where
  ordinary : ∀ payload, payload.reference? = none → allowed payload
  tick : ∀ w, I w → I { w with tick := w.tick + 1 }
  paths : ∀ w excludedPaths, I w → I { w with recorder := { w.recorder with excludedPaths } }
  refuse : ∀ w call, I w → I (w.refuse call)
  object : ∀ w db stored createdUnixMs, I w → recordObject w.db stored createdUnixMs = .ok db →
    I (w.accept .other db)
  number : ∀ w payload event sequencer, I w →
    Numbered w.recorder.sequencer payload event sequencer → I (w.number sequencer)
  queue : ∀ w payload event sequencer, allowed payload → I w →
    Numbered w.recorder.sequencer payload event sequencer → I (w.queue event sequencer)
  append : ∀ w db, I w → appendEventBatchIn w.db w.recorder.pending = .ok db →
    I { w.accept .append db with recorder := { w.recorder with pending := [] } }
  commit : ∀ w checkpointId reason label snapshot event sequencer db projected, reasons reason →
    Scanned env snapshot → I w →
    Numbered w.recorder.sequencer (.checkpointCommitted checkpointId snapshot.id) event sequencer →
    commitCheckpointWithEvent codecs w.db
      (Recorder.checkpointOf checkpointId reason label snapshot.id event) snapshot event = .ok db →
    Recorder.projectedObjectBytes w.recorder (manifestObjects snapshot.manifest) = .ok projected →
    Committed checkpointId snapshot.id (((w.number sequencer).accept .checkpoint db).account
      (manifestObjects snapshot.manifest) projected)
  bounded : ∀ id snapshotId w, Committed id snapshotId w →
    w.recorder.checkpointCount + 1 < 2 ^ 64
  count : ∀ id snapshotId w, Committed id snapshotId w → Done id snapshotId
    { w with recorder := { w.recorder with checkpointCount := w.recorder.checkpointCount + 1 } }

/-- A finalization that is accepted takes the world from `I` to `J`. -/
def FinishTakes (I J : World → Prop) (finish : RunFinish) : Prop :=
  ∀ w db, I w → finishRunWithEvents w.db w.recorder.runId finish w.recorder.pending = .ok db →
    J { w.accept .finish db with recorder := { w.recorder with pending := [] } }

/-- A finalization that is accepted keeps the property. -/
def FinishKeeps (I : World → Prop) (finish : RunFinish) : Prop := FinishTakes I I finish

namespace Effects

variable {env : Env} {codecs : Codecs} {reasons : CheckpointReason → Prop}
  {allowed : EventPayload → Prop} {I : World → Prop}
  {Committed Done : CheckpointId → SnapshotId → World → Prop}

/-! ### Numbering -/

section Ticks

variable (htick : ∀ w, I w → I { w with tick := w.tick + 1 })
include htick

theorem keeps_now_of_tick : Keeps I (now env) := by
  refine keeps_bind (fun w hw => htick w hw) fun tick => ?_
  rcases env.clock tick with _ | reading
  · exact keeps_throw _
  · exact keeps_pure _

/-- The event is one that the sequencer of a world with `I` has made. -/
theorem spec_sequencerNext_of_tick (payload : EventPayload) :
    Spec I (sequencerNext env payload) (fun event w => ∃ v sequencer, I v
      ∧ Numbered v.recorder.sequencer payload event sequencer ∧ w = v.number sequencer) I := by
  refine spec_bind (keeps_now_of_tick htick) fun reading => ?_
  refine spec_bind (Q := fun _ => I) (fun w hw => htick w hw) fun tick => ?_
  refine spec_get_bind fun w hw => ?_
  rcases hresult : w.recorder.sequencer.nextAt ⟨env.uuid tick⟩ reading.1 reading.2 payload
    with error | ⟨event, sequencer⟩
  · exact spec_throw fun t ht => ht ▸ hw
  · refine spec_bind (spec_modify fun t ht => ?_) fun _ => spec_pure fun t ht => ht
    subst ht
    exact ⟨t, sequencer, hw, Sequencer.nextAt_ok hresult, rfl⟩

/-- A queued event takes the world from `I` to `J`. -/
theorem spec_queueEvent_of_tick {J : World → Prop} {payload : EventPayload}
    (hqueue : ∀ w event sequencer, I w → Numbered w.recorder.sequencer payload event sequencer →
      J (w.queue event sequencer)) :
    Spec I (Recorder.queueEvent env payload) (fun _ => J) I := by
  refine spec_bind (spec_sequencerNext_of_tick htick payload) fun event => ?_
  refine spec_bind (spec_modify ?_) fun _ => spec_pure fun _ hw => hw
  rintro w ⟨v, sequencer, hv, hnumbered, rfl⟩
  exact hqueue v event sequencer hv hnumbered

end Ticks

/-! ### The moves -/

variable (h : Effects env codecs reasons allowed I Committed Done)
include h

theorem keeps_nextTick : Keeps I nextTick := fun w hw => h.tick w hw

theorem keeps_now : Keeps I (now env) := keeps_now_of_tick h.tick

/-- An update of the excluded paths. -/
theorem keeps_modifyPaths {f : Recorder → Recorder}
    (hf : ∀ r, ∃ excludedPaths, f r = { r with excludedPaths }) : Keeps I (modifyRecorder f) := by
  refine keeps_modify fun w hw => ?_
  obtain ⟨excludedPaths, hpaths⟩ := hf w.recorder
  rw [hpaths]
  exact h.paths w excludedPaths hw

theorem keeps_recordObject (stored : StoredObject) (createdUnixMs : Int64) :
    Keeps I (transact env .other fun db => recordObject db stored createdUnixMs) :=
  spec_transact (fun w db hw hok => h.object w db stored createdUnixMs hw hok)
    fun w hw => h.refuse w _ hw

theorem keeps_queueEvent {payload : EventPayload} (hallowed : allowed payload) :
    Keeps I (Recorder.queueEvent env payload) :=
  spec_queueEvent_of_tick h.tick fun w event sequencer hw hnumbered =>
    h.queue w payload event sequencer hallowed hw hnumbered

theorem keeps_flush : Keeps I (Recorder.flush env) := by
  refine spec_get_bind fun w hw => ?_
  refine spec_ite (fun _ => spec_pure fun t ht => ht ▸ hw) fun _ => ?_
  refine spec_bind (Q := fun _ t => I { t with recorder := { t.recorder with pending := [] } })
    (spec_transact ?_ ?_) fun _ => spec_modify fun t ht => ht
  · rintro t db rfl happend
    exact h.append t db hw happend
  · rintro t rfl
    exact h.refuse t _ hw

theorem keeps_emit {payload : EventPayload} (hallowed : allowed payload) :
    Keeps I (Recorder.emit env payload) :=
  Rewind.keeps_emit (h.keeps_queueEvent hallowed) h.keeps_flush

/-- Events without a reference to an object. -/
theorem keeps_emitOrdinary {payload : EventPayload} (hpayload : payload.reference? = none) :
    Keeps I (Recorder.emit env payload) := h.keeps_emit (h.ordinary payload hpayload)

/-! ### Warnings and references -/

theorem keeps_warning (code : RecorderWarningCode) (message : String) :
    Keeps I (Recorder.warning env code message) :=
  keeps_bind (h.keeps_emitOrdinary rfl) fun _ => keeps_pure _

theorem keeps_warnRunStorageLimit : Keeps I (Recorder.warnRunStorageLimit env) :=
  spec_get_bind fun _ hw => Keeps.at (h.keeps_warning _ _) hw

theorem keeps_warnExclusions (count : Nat) : Keeps I (Recorder.warnExclusions env count) :=
  spec_ite (fun _ => keeps_pure _) fun _ => h.keeps_warning _ _

/-- A property that says nothing of the accounts. -/
theorem keeps_emitObjectReference (objectId : ObjectId) (logicalSize : UInt64)
    {payload : EventPayload} (hallowed : allowed payload)
    (haccount : ∀ w candidates projected, I w → I (w.account candidates projected)) :
    Keeps I (Recorder.emitObjectReference env objectId logicalSize payload) := by
  refine spec_get_bind fun w hw => Keeps.at ?_ hw
  rcases Recorder.projectedObjectBytes w.recorder [(objectId, logicalSize)] with error | projected
  · exact keeps_bind h.keeps_warnRunStorageLimit fun _ =>
      keeps_bind h.keeps_flush fun _ => keeps_throw _
  · refine keeps_bind (h.keeps_emit hallowed) fun _ => ?_
    refine keeps_bind (keeps_modify fun t ht => ?_) fun _ => keeps_pure _
    exact haccount t _ _ ht

/-! ### Checkpoints -/

theorem keeps_storeScanned (objects : List StoredObject) :
    Keeps I (Recorder.storeScanned env objects) := by
  induction objects with
  | nil => exact keeps_pure _
  | cons object rest ih => exact keeps_bind (h.keeps_recordObject object 0) fun _ => ih

/-- A report is the one of a scan. -/
theorem spec_scanWorkspace :
    Spec I (Recorder.scanWorkspace env) (fun report w => I w
      ∧ ∀ scanned, report = .ok scanned → Scanned env scanned.snapshot) I := by
  refine spec_bind h.keeps_nextTick fun tick => ?_
  refine spec_bind (keeps_outcome (h.keeps_storeScanned _)) fun stored => ?_
  rcases stored with error | _
  · cases error <;> exact spec_pure fun _ hw => ⟨hw, nofun⟩
  · rcases hresult : (env.scan tick).result with message | report
    · exact spec_pure fun _ hw => ⟨hw, nofun⟩
    · refine spec_pure fun _ hw => ⟨hw, fun scanned hscanned => ?_⟩
      obtain rfl := Except.ok.inj hscanned
      exact ⟨tick, report, hresult, rfl⟩

/-- A committed checkpoint is numbered by the recorder that the caller has read. -/
theorem spec_commitNumbered (checkpointId : CheckpointId) (reason : CheckpointReason)
    (label : Option String) (snapshot : Snapshot) (r : Recorder) :
    Spec (fun w => I w ∧ w.recorder = r)
      (Recorder.commitNumbered env codecs checkpointId reason label snapshot)
      (fun _ w => ∃ v event sequencer db, I v ∧ v.recorder = r
        ∧ Numbered v.recorder.sequencer (.checkpointCommitted checkpointId snapshot.id) event
            sequencer
        ∧ commitCheckpointWithEvent codecs v.db
            (Recorder.checkpointOf checkpointId reason label snapshot.id event) snapshot event
          = .ok db
        ∧ w = (v.number sequencer).accept .checkpoint db) I := by
  have htick : ∀ w, I w ∧ w.recorder = r →
      I { w with tick := w.tick + 1 } ∧ w.recorder = r := fun w hw => ⟨h.tick w hw.1, hw.2⟩
  refine spec_bind ((spec_sequencerNext_of_tick htick _).imp (fun _ hw => hw) (fun _ _ hw => hw)
    fun _ hw => hw.1) fun event => spec_transact ?_ ?_
  · rintro w db ⟨v, sequencer, ⟨hv, hr⟩, hnumbered, rfl⟩ hok
    exact ⟨v, event, sequencer, db, hv, hr, hnumbered, hok, rfl⟩
  · rintro w ⟨v, sequencer, ⟨hv, -⟩, hnumbered, rfl⟩
    exact h.refuse _ _ (h.number v _ event sequencer hv hnumbered)

/-- The count of the checkpoints does not overflow, so a committed checkpoint is reported. -/
theorem spec_commitScanned {reason : CheckpointReason} (hreason : reasons reason)
    (checkpointId : CheckpointId) (label : Option String) {report : ScanReport}
    (hscanned : Scanned env report.snapshot) :
    Spec I (Recorder.commitScanned env codecs checkpointId reason label report)
      (fun commit w => Done checkpointId report.snapshot.id w
        ∧ commit = ⟨checkpointId, report.snapshot.id, report.exclusions.length⟩) I := by
  refine spec_bind (h.keeps_modifyPaths fun _ => ⟨_, rfl⟩) fun _ => ?_
  refine spec_get_bind fun w hw => ?_
  rcases hprojected : Recorder.projectedObjectBytes w.recorder
    (manifestObjects report.snapshot.manifest) with error | projected
  · refine spec_bind (Keeps.at h.keeps_warnRunStorageLimit hw) fun _ => ?_
    refine spec_bind (h.keeps_emitOrdinary rfl) fun _ => ?_
    exact spec_bind h.keeps_flush fun _ => spec_throw fun _ hw => hw
  · refine spec_bind ((h.spec_commitNumbered checkpointId reason label report.snapshot
      w.recorder).imp (fun t ht => ⟨ht ▸ hw, by rw [ht]⟩) (fun _ _ ht => ht) fun _ ht => ht)
        fun _ => ?_
    refine spec_bind (Q := fun _ => Committed checkpointId report.snapshot.id)
      (spec_modify ?_) fun _ => ?_
    · rintro t ⟨v, event, sequencer, db, hv, hr, hnumbered, hok, rfl⟩
      rw [← hr] at hprojected
      exact h.commit v checkpointId reason label report.snapshot event sequencer db projected
        hreason hscanned hv hnumbered hok hprojected
    refine spec_get_bind fun t ht => ?_
    rw [if_pos (h.bounded checkpointId _ t ht)]
    refine spec_bind (spec_modify fun s hs => ?_) fun _ => spec_pure fun s hs => ⟨hs, rfl⟩
    subst hs
    exact h.count checkpointId _ s ht

theorem spec_checkpointAllocated {reason : CheckpointReason} (hreason : reasons reason)
    (checkpointId : CheckpointId) (label : Option String) :
    Spec I (Recorder.checkpointAllocated env codecs checkpointId reason label)
      (fun commit w => Done checkpointId commit.snapshotId w ∧ commit.id = checkpointId) I := by
  refine spec_bind (h.keeps_emitOrdinary rfl) fun _ => spec_bind h.keeps_flush fun _ => ?_
  refine spec_bind (keeps_bind h.keeps_now fun _ => keeps_pure _) fun _ => ?_
  refine spec_bind h.spec_scanWorkspace fun report => ?_
  rcases report with error | report
  · refine Spec.imp (P := I) ?_ (fun _ hw => hw.1) (fun _ _ hw => hw) fun _ hw => hw
    refine spec_bind (h.keeps_emitOrdinary rfl) fun _ => ?_
    exact spec_bind h.keeps_flush fun _ => spec_throw fun _ hw => hw
  · rintro w ⟨hw, hscanned⟩
    refine (h.spec_commitScanned hreason checkpointId label (hscanned report rfl)).imp
      (fun _ ht => ht) ?_ (fun _ ht => ht) w hw
    rintro commit t ⟨ht, rfl⟩
    exact ⟨ht, rfl⟩

theorem spec_checkpoint {reason : CheckpointReason} (hreason : reasons reason)
    (label : Option String) :
    Spec I (Recorder.checkpoint env codecs reason label)
      (fun commit => Done commit.id commit.snapshotId) I := by
  refine spec_bind h.keeps_nextTick fun tick => ?_
  refine (h.spec_checkpointAllocated hreason _ label).imp (fun _ hw => hw) ?_ fun _ hw => hw
  rintro commit w ⟨hw, hid⟩
  rw [hid]
  exact hw

theorem spec_manualCheckpoint (hreason : reasons .manual) (label : Option String) :
    Spec I (Recorder.manualCheckpoint env codecs label)
      (fun id w => ∃ snapshotId, Done id snapshotId w)
      I := by
  rcases label with _ | label
  · exact spec_bind (h.spec_checkpoint hreason none) fun commit =>
      spec_pure fun _ hw => ⟨commit.snapshotId, hw⟩
  · refine spec_bind h.keeps_nextTick fun tick => spec_bind (h.keeps_emitOrdinary rfl) fun _ => ?_
    refine spec_bind (h.spec_checkpointAllocated hreason _ _) fun commit => ?_
    rintro w ⟨hw, hid⟩
    refine ⟨commit.snapshotId, ?_⟩
    rw [hid]
    exact hw

/-! ### The cleanup -/

theorem keeps_recordCleanupFailure (failed : Nat) (source : String) :
    Keeps I (Recorder.recordCleanupFailure env failed source) :=
  keeps_attempt (h.keeps_warning _ _)

theorem keeps_removeExclusions (paths : List SnapshotPath) (failed : Nat)
    (firstError : Option String) :
    Keeps I (Recorder.removeExclusions env paths failed firstError) := by
  induction paths generalizing failed firstError with
  | nil => exact keeps_pure _
  | cons path rest ih =>
    refine keeps_bind h.keeps_nextTick fun tick => ?_
    rcases env.removeEntry tick with _ | error
    · refine keeps_bind (h.keeps_modifyPaths fun _ => ⟨_, rfl⟩) fun _ => ?_
      exact ih failed firstError
    · exact ih (failed + 1) (firstError.or (some error))

theorem keeps_cleanupExclusionsForRetention :
    Keeps I (Recorder.cleanupExclusionsForRetention env) := by
  refine spec_get_bind fun w hw => Keeps.at ?_ hw
  refine spec_ite (fun _ => keeps_pure _) fun _ => ?_
  refine keeps_bind h.keeps_nextTick fun tick => ?_
  rcases env.openWorkspace tick with _ | source
  · refine keeps_bind (h.keeps_removeExclusions _ _ _) fun failures => ?_
    rcases failures with ⟨failed, _ | source⟩
    · exact keeps_pure _
    · exact keeps_bind (h.keeps_recordCleanupFailure _ _) fun _ => keeps_throw _
  · exact keeps_bind (h.keeps_recordCleanupFailure _ _) fun _ => keeps_throw _

/-! ### Finalizations -/

theorem spec_commitFinish {J : World → Prop} {finish : RunFinish}
    (hfinish : FinishTakes I J finish) :
    Spec I (Recorder.commitFinish env finish) (fun _ => J) I := by
  refine spec_get_bind fun w hw => ?_
  refine spec_bind (Q := fun _ t => J { t with recorder := { t.recorder with pending := [] } })
    (spec_transact ?_ ?_) fun _ => spec_modify fun t ht => ht
  · rintro t db rfl hok
    exact hfinish t db hw hok
  · rintro t rfl
    exact h.refuse t _ hw

theorem keeps_commitFinish {finish : RunFinish} (hfinish : FinishKeeps I finish) :
    Keeps I (Recorder.commitFinish env finish) := h.spec_commitFinish hfinish

theorem keeps_finish (status : RunStatus) (exitStatus : ProcessExitStatus)
    {finalSnapshot : Option SnapshotId}
    (hfinish : ∀ finish : RunFinish, finish.finalSnapshot = finalSnapshot → FinishKeeps I finish) :
    Keeps I (Recorder.finish env status exitStatus finalSnapshot) := by
  refine keeps_bind (h.keeps_queueEvent (h.ordinary _ rfl)) fun _ =>
    keeps_bind h.keeps_now fun reading => ?_
  exact h.keeps_commitFinish (hfinish _ rfl)

/-- The end of both fallbacks, with its finalization or without. -/
theorem spec_finishFailed {J E : World → Prop} {finalSnapshot : Option SnapshotId}
    (hfinish : ∀ finish : RunFinish, finish.finalSnapshot = finalSnapshot →
      FinishTakes I J finish) :
    Spec I (Recorder.finishFailed env finalSnapshot) (fun _ w => I w ∨ J w) E := by
  refine spec_bind (Q := fun _ => I) (spec_attempt (keeps_bind
    (h.keeps_queueEvent (h.ordinary _ rfl)) fun _ => keeps_pure _)) fun _ => ?_
  refine spec_bind (Q := fun _ => I) (spec_outcome (h.keeps_now.imp (fun _ hw => hw)
    (fun _ _ hw => hw) fun _ hw _ => hw)) fun reading => ?_
  rcases reading with error | reading
  · exact spec_pure fun _ => Or.inl
  · exact spec_attempt ((h.spec_commitFinish (hfinish _ rfl)).imp (fun _ hw => hw)
      (fun _ _ => Or.inr) fun _ => Or.inl)

theorem keeps_finishFailed {finalSnapshot : Option SnapshotId}
    (hfinish : ∀ finish : RunFinish, finish.finalSnapshot = finalSnapshot → FinishKeeps I finish) :
    Keeps I (Recorder.finishFailed env finalSnapshot) :=
  (h.spec_finishFailed hfinish).imp (fun _ hw => hw) (fun _ _ hw => hw.elim id id)
    fun _ hw => hw

theorem keeps_finishPreparationFailure (message : String)
    (hfinish : ∀ finish : RunFinish, finish.finalSnapshot = none → FinishKeeps I finish) :
    Keeps I (Recorder.finishPreparationFailure env message) := by
  refine keeps_bind (keeps_attempt (h.keeps_warning _ _)) fun _ => ?_
  refine keeps_bind (keeps_bind h.keeps_nextTick fun tick => ?_) fun _ =>
    h.keeps_finishFailed hfinish
  rcases env.removeWorkspace tick with _ | error
  · exact keeps_pure _
  · exact h.keeps_recordCleanupFailure _ _

/-! ### Every operation -/

variable (hreasons : ∀ reason, reasons reason)
  (hdone : ∀ id snapshotId w, Done id snapshotId w → I w) (hfinish : ∀ finish, FinishKeeps I finish)
  (hrunning : ∀ w db initialSnapshot, I w →
    markRunRunning w.db w.recorder.runId initialSnapshot = .ok db → I (w.accept .other db))
include hreasons hdone

theorem keeps_checkpoint (reason : CheckpointReason) (label : Option String) :
    Keeps I (Recorder.checkpoint env codecs reason label) :=
  (h.spec_checkpoint (hreasons reason) label).imp (fun _ hw => hw)
    (fun _ w hw => hdone _ _ w hw) fun _ hw => hw

include hfinish

theorem keeps_finishRunningWithoutChild (initialSnapshot : SnapshotId) (message : String) :
    Keeps I (Recorder.finishRunningWithoutChild env codecs initialSnapshot message) := by
  refine keeps_bind (keeps_attempt (h.keeps_warning _ _)) fun _ => ?_
  refine keeps_bind ?_ fun finalSnapshot => ?_
  · refine keeps_bind (keeps_outcome (h.keeps_checkpoint hreasons hdone _ _)) fun committed => ?_
    rcases committed with error | commit
    · exact keeps_pure _
    · exact keeps_bind (keeps_attempt (h.keeps_warnExclusions _)) fun _ => keeps_pure _
  · refine keeps_bind (keeps_attempt h.keeps_cleanupExclusionsForRetention) fun _ => ?_
    exact h.keeps_finishFailed fun finish _ => hfinish finish

include hrunning in
/-- **Every operation**, where each checkpoint ends in the property again. -/
theorem keeps_exec {op : RecorderOp}
    (hallowed : ∀ payload, op = .emit payload ∨ op = .queueEvent payload → allowed payload)
    (hreference : ∀ objectId logicalSize payload,
      op = .emitObjectReference objectId logicalSize payload →
      Keeps I (Recorder.emitObjectReference env objectId logicalSize payload)) :
    Keeps I (op.exec env codecs) := by
  have hdiscard : ∀ {α : Type} {m : Method α}, Keeps I m → Keeps I (discard m) :=
    fun hm => keeps_bind hm fun _ => keeps_pure _
  cases op with
  | queueEvent payload =>
    exact hdiscard (h.keeps_queueEvent (hallowed payload (Or.inr rfl)))
  | emit payload => exact hdiscard (h.keeps_emit (hallowed payload (Or.inl rfl)))
  | emitObjectReference objectId logicalSize payload =>
    exact hdiscard (hreference objectId logicalSize payload rfl)
  | warning code message => exact h.keeps_warning code message
  | warnExclusions count => exact h.keeps_warnExclusions count
  | flush => exact h.keeps_flush
  | checkpoint reason label => exact hdiscard (h.keeps_checkpoint hreasons hdone reason label)
  | manualCheckpoint label =>
    refine hdiscard ((h.spec_manualCheckpoint (hreasons .manual) label).imp (fun _ hw => hw) ?_
      fun _ hw => hw)
    rintro id w ⟨snapshotId, hw⟩
    exact hdone id snapshotId w hw
  | finish status exitStatus finalSnapshot =>
    exact h.keeps_finish status exitStatus fun finish _ => hfinish finish
  | commitFinish finish => exact h.keeps_commitFinish (hfinish finish)
  | finishPreparationFailure message =>
    exact h.keeps_finishPreparationFailure message fun finish _ => hfinish finish
  | finishRunningWithoutChild initialSnapshot message =>
    exact h.keeps_finishRunningWithoutChild hreasons hdone hfinish initialSnapshot message
  | cleanupExclusionsForRetention => exact h.keeps_cleanupExclusionsForRetention
  | putObject stored createdUnixMs => exact h.keeps_recordObject stored createdUnixMs
  | markRunRunning initialSnapshot =>
    refine spec_get_bind fun w hw => spec_transact ?_ ?_
    · rintro t db rfl hok
      exact hrunning t db initialSnapshot hw hok
    · rintro t rfl
      exact h.refuse t _ hw

end Effects

/-! ### The checkpoints of the store -/

/-- Fewer checkpoints have been taken than events numbered. -/
def Counted (w : World) : Prop := w.recorder.checkpointCount < w.recorder.sequencer.next.get

/-- One checkpoint with this identifier, for one of the reasons, after what `J` says. -/
def OneMore (reasons : CheckpointReason → Prop) (J : List CheckpointRow → Prop)
    (id : CheckpointId) (w : World) : Prop :=
  ∃ base row, J base ∧ w.db.checkpoints = base ++ [row] ∧ row.id = id ∧ reasons row.reason

theorem appendEventBatchIn_checkpoints {db db' : Db} {events : List Event}
    (h : appendEventBatchIn db events = .ok db') : db'.checkpoints = db.checkpoints := by
  rw [(appendEventBatchIn_ok h).1]
  rfl

theorem recordObject_checkpoints {db db' : Db} {stored : StoredObject} {createdUnixMs : Int64}
    (h : recordObject db stored createdUnixMs = .ok db') : db'.checkpoints = db.checkpoints := by
  obtain ⟨row, -, -, -, rfl, -⟩ := recordObject_ok h
  obtain ⟨rows, -, hdb⟩ := Db.insertObject_frame db row
  rw [hdb]

theorem commitCheckpointWithEvent_checkpoints {codecs : Codecs} {db db' : Db}
    {checkpoint : Checkpoint} {snapshot : Snapshot} {event : Event}
    (h : commitCheckpointWithEvent codecs db checkpoint snapshot event = .ok db') :
    db'.checkpoints = db.checkpoints ++ [checkpointRow checkpoint] := by
  obtain ⟨-, -, db₁, hcommit, happend⟩ := commitCheckpointWithEvent_ok h
  obtain ⟨db₂, -, -, -, -, rfl⟩ := commitCheckpointIn_ok hcommit
  exact appendEventBatchIn_checkpoints happend

theorem finishRunWithEvents_checkpoints {db db' : Db} {runId : RunId} {finish : RunFinish}
    {events : List Event} (h : finishRunWithEvents db runId finish events = .ok db') :
    db'.checkpoints = db.checkpoints := by
  obtain ⟨_, _, db₁, -, -, -, happend, hfinish⟩ := finishRunWithEvents_ok h
  rw [← appendEventBatchIn_checkpoints happend]
  obtain ⟨_, -, -, -, -, rfl⟩ := finishRunIn_ok hfinish
  rfl

theorem markRunRunning_checkpoints {db db' : Db} {runId : RunId} {initialSnapshot : SnapshotId}
    (h : markRunRunning db runId initialSnapshot = .ok db') :
    db'.checkpoints = db.checkpoints := by
  obtain ⟨-, rfl⟩ := markRunRunning_ok h
  rfl

/-- A property of the table of checkpoints, until one more is taken. -/
theorem effects_checkpoints (env : Env) (codecs : Codecs) (reasons : CheckpointReason → Prop)
    (J : List CheckpointRow → Prop) :
    Effects env codecs reasons (fun _ => True) (fun w => J w.db.checkpoints ∧ Counted w)
      (fun id _ w => OneMore reasons J id w
        ∧ w.recorder.checkpointCount + 1 < w.recorder.sequencer.next.get)
      (fun id _ w => OneMore reasons J id w ∧ Counted w) where
  ordinary _ _ := trivial
  tick _ hw := hw
  paths _ _ hw := hw
  refuse _ _ hw := hw
  object := by
    rintro w db stored createdUnixMs ⟨hJ, hcounted⟩ hok
    refine ⟨?_, hcounted⟩
    show J db.checkpoints
    rw [recordObject_checkpoints hok]
    exact hJ
  number := by
    rintro w payload event sequencer ⟨hJ, hcounted⟩ hnumbered
    refine ⟨hJ, ?_⟩
    have hnext := hnumbered.next'
    have hlt : w.recorder.checkpointCount < w.recorder.sequencer.next.get := hcounted
    show w.recorder.checkpointCount < sequencer.next.get
    omega
  queue := by
    rintro w payload event sequencer - ⟨hJ, hcounted⟩ hnumbered
    refine ⟨hJ, ?_⟩
    have hnext := hnumbered.next'
    have hlt : w.recorder.checkpointCount < w.recorder.sequencer.next.get := hcounted
    show w.recorder.checkpointCount < sequencer.next.get
    omega
  append := by
    rintro w db ⟨hJ, hcounted⟩ hok
    refine ⟨?_, hcounted⟩
    show J db.checkpoints
    rw [appendEventBatchIn_checkpoints hok]
    exact hJ
  commit := by
    rintro w checkpointId reason label snapshot event sequencer db projected hreason -
      ⟨hJ, hcounted⟩ hnumbered hok -
    have hnext := hnumbered.next'
    have hlt : w.recorder.checkpointCount < w.recorder.sequencer.next.get := hcounted
    refine ⟨⟨w.db.checkpoints, _, hJ, commitCheckpointWithEvent_checkpoints hok, rfl, hreason⟩, ?_⟩
    show w.recorder.checkpointCount + 1 < sequencer.next.get
    omega
  bounded := by
    rintro id _ w ⟨-, hcounted⟩
    have hlt := w.recorder.sequencer.next.lt
    omega
  count := by
    rintro id _ w ⟨hmore, hcounted⟩
    exact ⟨hmore, hcounted⟩

end Rewind

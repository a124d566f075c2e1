/-
Redaction keeps input out of an export.

Two stores that differ in the objects of a run's terminal input and in nothing else that an export
could read have the same exports.

* `SameButInput` — the stores;
* **`redaction_noninterfering`** — equal results, bundle and page, byte for byte.
-/
import Rewind.Cli.Export

namespace Rewind

/-! ### Stores that differ in input only -/

/-- Payloads that differ in the object of a terminal input at most. -/
inductive SamePayload : EventPayload → EventPayload → Prop where
  | same (payload : EventPayload) : SamePayload payload payload
  | input (streamId : TerminalStreamId) (objectId objectId' : ObjectId) (byteLen : UInt64) :
    SamePayload (.terminalInput streamId objectId byteLen)
      (.terminalInput streamId objectId' byteLen)

/-- Rows of events that differ so. -/
def SameEventRow (row row' : EventRow) : Prop :=
  row' = { row with payload := row'.payload } ∧ SamePayload row.payload row'.payload

/-- Events that differ so. -/
def SameEvent (event event' : Event) : Prop :=
  event' = { event with payload := event'.payload } ∧ SamePayload event.payload event'.payload

/-- The object holds input of the run. -/
def Db.IsInput (db : Db) (runId : RunId) (id : ObjectId) : Prop :=
  ∃ row ∈ db.eventsOf runId, ∃ streamId byteLen, row.payload = .terminalInput streamId id byteLen

/-- The run or a checkpoint of it names the snapshot. -/
def Db.namesSnapshot (db : Db) (run : Run) (snapshotId : SnapshotId) : Prop :=
  run.initialSnapshot = some snapshotId ∨ run.finalSnapshot = some snapshotId
    ∨ ∃ row ∈ db.checkpoints, row.runId = run.id ∧ row.snapshotId = snapshotId

/-- Something else in the run refers to the object: an output, or a snapshot. -/
def Db.refersElsewhere (db : Db) (run : Run) (id : ObjectId) : Prop :=
  (∃ row ∈ db.eventsOf run.id, ∃ streamId byteLen, row.payload
    = .terminalOutput streamId id byteLen)
    ∨ ∃ row ∈ db.snapshotEntries, db.namesSnapshot run row.snapshotId ∧ row.objectId = some id

/-- The stores differ in the objects of the run's input only, and the run refers to these nowhere
else. -/
structure SameButInput (run : Run) (d d' : Disk) : Prop where
  checkpoints : d.db.checkpoints = d'.db.checkpoints
  snapshots : d.db.snapshots = d'.db.snapshots
  snapshotEntries : d.db.snapshotEntries = d'.db.snapshotEntries
  events : List.Forall₂ SameEventRow (d.db.eventsOf run.id) (d'.db.eventsOf run.id)
  files : ∀ id, ¬ d.db.IsInput run.id id → ¬ d'.db.IsInput run.id id →
    d.files.node? (pathFor id) = d'.files.node? (pathFor id)
  unreferenced : ∀ id, d.db.IsInput run.id id ∨ d'.db.IsInput run.id id →
    ¬ d.db.refersElsewhere run id

/-! ### What is read is the same -/

theorem payloadKind_eq {payload payload' : EventPayload} (h : SamePayload payload payload') :
    payloadKind payload = payloadKind payload' := by
  cases h with
  | same => rfl
  | input => rfl

theorem validate_eq {payload payload' : EventPayload} (h : SamePayload payload payload') :
    payload.validate = payload'.validate := by
  cases h with
  | same => rfl
  | input => rfl

/-- An output that the payload holds is one that the run refers to. -/
def SharesOutput (d : Disk) (run : Run) (payload : EventPayload) : Prop :=
  ∀ streamId id byteLen, payload = .terminalOutput streamId id byteLen →
    d.db.refersElsewhere run id

/-- Events of the run that differ in the object of input at most. -/
def SharedEvent (d : Disk) (run : Run) (event event' : Event) : Prop :=
  SharesOutput d run event.payload ∧ SameEvent event event'

theorem decodeEvent_agree {d : Disk} {run : Run} {row row' : EventRow}
    (hshared : SharesOutput d run row.payload) (h : SameEventRow row row') :
    Except.Agree (SharedEvent d run) (decodeEvent row) (decodeEvent row') := by
  obtain ⟨hrow, hpayload⟩ := h
  rw [hrow]
  unfold decodeEvent
  simp only [← payloadKind_eq hpayload]
  refine (Except.Agree.of_eq rfl).bind fun _ _ _ => ?_
  refine (Except.Agree.of_eq rfl).bind fun n n' hn => ?_
  subst hn
  refine (Except.Agree.of_eq rfl).bind fun sequence sequence' hsequence => ?_
  subst hsequence
  refine (Except.Agree.of_eq rfl).bind fun offset offset' hoffset => ?_
  subst hoffset
  refine Except.Agree.bind (R := Eq) (Except.Agree.of_eq ?_)
    fun _ _ _ => .ok ⟨hshared, rfl, hpayload⟩
  simp only [Event.validate, validate_eq hpayload]

theorem loadSnapshotFrom_congr {codecs : Codecs} {db db' : Db}
    (hsnapshots : db.snapshots = db'.snapshots)
    (hentries : db.snapshotEntries = db'.snapshotEntries) (id : SnapshotId) :
    loadSnapshotFrom codecs db id = loadSnapshotFrom codecs db' id := by
  unfold loadSnapshotFrom Db.snapshot? Db.entriesOf
  rw [hsnapshots, hentries]

/-- The loaded checkpoints are the rows of the run. -/
theorem exists_row_of_loadCheckpoints {db : Db} {runId : RunId} {checkpoints : List Checkpoint}
    (h : loadCheckpoints db runId = .ok checkpoints) {checkpoint : Checkpoint}
    (hcheckpoint : checkpoint ∈ checkpoints) :
    ∃ row ∈ db.checkpoints, row.runId = runId ∧ row.snapshotId = checkpoint.snapshotId := by
  obtain ⟨row, hrow, hdecode⟩ := List.exists_of_mapM_eq_ok h hcheckpoint
  rw [List.mem_insertionSort] at hrow
  obtain ⟨hmem, hrun⟩ := List.mem_filter.mp hrow
  exact ⟨row, hmem, of_decide_eq_true hrun, (decodeCheckpoint_ok hdecode).2.symm⟩

theorem exists_checkpoint_of_row {db : Db} {row : CheckpointRow} {checkpoints : List Checkpoint}
    (h : loadCheckpoints db row.runId = .ok checkpoints) (hrow : row ∈ db.checkpoints) :
    ∃ checkpoint ∈ checkpoints, checkpoint.snapshotId = row.snapshotId := by
  have hmem : row ∈ (db.checkpoints.filter fun other => other.runId = row.runId).insertionSort
      fun other other' => other.sequence ≤ other'.sequence := by
    rw [List.mem_insertionSort]
    exact List.mem_filter.mpr ⟨hrow, decide_eq_true rfl⟩
  obtain ⟨checkpoint, hcheckpoint, hdecode⟩ := List.forall_mem_of_mapM_eq_ok h hmem
  exact ⟨checkpoint, hcheckpoint, (decodeCheckpoint_ok hdecode).2⟩

/-- The exported snapshots are those that the run names. -/
theorem mem_exported_iff {db : Db} {run : Run} {checkpoints : List Checkpoint}
    (h : loadCheckpoints db run.id = .ok checkpoints) {snapshotId : SnapshotId} :
    snapshotId ∈ (SortedSet.ofList (checkpoints.map (·.snapshotId)
      ++ run.initialSnapshot.toList ++ run.finalSnapshot.toList)).toList
      ↔ db.namesSnapshot run snapshotId := by
  rw [SortedSet.mem_ofList, List.mem_append, List.mem_append, List.mem_map]
  constructor
  · rintro ((⟨checkpoint, hcheckpoint, rfl⟩ | hinitial) | hfinal)
    · obtain ⟨row, hrow, hrun, hsnapshot⟩ := exists_row_of_loadCheckpoints h hcheckpoint
      exact Or.inr (Or.inr ⟨row, hrow, hrun, hsnapshot⟩)
    · exact Or.inl (Option.mem_toList.mp hinitial)
    · exact Or.inr (Or.inl (Option.mem_toList.mp hfinal))
  · rintro (hinitial | hfinal | ⟨row, hrow, hrun, rfl⟩)
    · exact Or.inl (Or.inr (Option.mem_toList.mpr hinitial))
    · exact Or.inr (Option.mem_toList.mpr hfinal)
    · rw [← hrun] at h
      exact Or.inl (Or.inl (exists_checkpoint_of_row h hrow))

section Related

variable {codecs : Codecs} {run : Run} {d d' : Disk} (h : SameButInput run d d')
include h

theorem SameButInput.loadCheckpoints : loadCheckpoints d.db run.id
    = loadCheckpoints d'.db run.id := by
  unfold Rewind.loadCheckpoints
  rw [h.checkpoints]

theorem SameButInput.loadSnapshot (id : SnapshotId) :
    loadSnapshotFrom codecs d.db id = loadSnapshotFrom codecs d'.db id :=
  loadSnapshotFrom_congr h.snapshots h.snapshotEntries id

/-- The output of an event is in both stores alike. -/
theorem SameButInput.sharedRows :
    List.Forall₂ (fun row row' => SharesOutput d run row.payload ∧ SameEventRow row row')
      (d.db.eventsOf run.id) (d'.db.eventsOf run.id) := by
  refine (List.forall₂_and_left _ _).mpr ⟨fun row hrow => ?_, h.events⟩
  intro streamId id byteLen hpayload
  exact Or.inl ⟨row, hrow, streamId, byteLen, hpayload⟩

/-- The pages of the timelines differ in the objects of input at most. -/
theorem SameButInput.loadTimeline (after : Option EventSequence) (limit : UInt32) :
    Except.Agree (Pager.SamePage (SharedEvent d run)) (loadTimeline d.db run.id after limit)
      (loadTimeline d'.db run.id after limit) := by
  unfold Rewind.loadTimeline
  refine (Except.Agree.of_eq rfl).bind fun _ _ _ => ?_
  refine (Except.Agree.of_eq rfl).bind fun position position' hposition => ?_
  subst hposition
  refine loadPage_agree (fun row row' hrow => ?_) (fun row row' hrow => ?_) h.sharedRows _ _
  · rw [hrow.2.1]
  · exact decodeEvent_agree hrow.1 hrow.2

/-- What the run refers to elsewhere is in both stores alike. -/
theorem SameButInput.node?_eq {id : ObjectId} (hid : d.db.refersElsewhere run id) :
    d.files.node? (pathFor id) = d'.files.node? (pathFor id) := by
  refine h.files id ?_ ?_
  · exact fun hinput => h.unreferenced id (Or.inl hinput) hid
  · exact fun hinput => h.unreferenced id (Or.inr hinput) hid

theorem SameButInput.openObject_eq {id : ObjectId} (hid : d.db.refersElsewhere run id) :
    openObject d.files id = openObject d'.files id := by
  unfold openObject
  rw [h.node?_eq hid]

end Related

/-! ### The bundle -/

section Bundles

variable {W : Type} {files : ExportFiles W} {codecs : Codecs} {json : ExportJson}
  {run : Run} {d d' : Disk}

/-- With redaction, events that differ in input only are exported alike. -/
theorem redactEvent_eq {event event' : Event} (h : SameEvent event event') (s : EventStream) :
    redactEvent true s event = redactEvent true s event' := by
  obtain ⟨hevent, hpayload⟩ := h
  rw [hevent]
  generalize event'.payload = payload' at hpayload ⊢
  obtain ⟨id, runId, sequence, wallClock, monotonicOffset, schemaVersion, payload⟩ := event
  change SamePayload payload payload' at hpayload
  cases hpayload with
  | same => rfl
  | input => rfl

/-- The objects of the stream are in both stores alike. -/
def SharesObjects (d : Disk) (run : Run) (ids : List ObjectId) : Prop :=
  ∀ id ∈ ids, d.db.refersElsewhere run id

/-- The objects of redacted events are those of the outputs. -/
theorem sharesObjects_redactEvent {event : Event} (h : SharesOutput d run event.payload)
    {s : EventStream} (hs : SharesObjects d run s.objectIds.toList) :
    SharesObjects d run (redactEvent true s event).1.objectIds.toList := by
  unfold redactEvent
  split
  · exact hs
  · exact absurd ‹true = false› (by simp)
  case h_3 hpayload =>
    intro id hid
    rcases SortedSet.mem_add.mp hid with rfl | hid
    · exact h _ _ _ hpayload
    · exact hs id hid
  · exact hs

theorem writeEventLine_ok {maximumBytes : UInt64} {s s' : EventStream} {event : Event}
    (h : writeEventLine files json maximumBytes s event = .ok s') :
    ∃ line, json.event event = .ok line ∧ s'.lines = s.lines ++ (line ++ [10])
      ∧ s'.totalBytes = (Bundle.checkedAdd s.totalBytes (min (line ++ [10]).length U64_MAX)).getD
        U64_MAX
      ∧ s'.totalBytes ≤ maximumBytes.toNat
      ∧ s'.redactedCount = s.redactedCount ∧ s'.objectIds = s.objectIds := by
  obtain ⟨line, hline, h⟩ := Except.bind_eq_ok_iff.mp h
  obtain ⟨hmaximum, h⟩ := ensure_bind_eq_ok_iff.mp h
  obtain ⟨_, -, h⟩ := Except.bind_eq_ok_iff.mp h
  obtain rfl := Except.ok.inj h
  exact ⟨line, Except.mapError_eq_ok_iff.mp hline, rfl, rfl, hmaximum, rfl, rfl⟩

/-- One event, in both stores. -/
theorem streamExportEvent_agree {maximumBytes : UInt64} {event event' : Event}
    (h : SharedEvent d run event event') {s t : EventStream}
    (hst : s = t ∧ SharesObjects d run s.objectIds.toList) :
    Except.Agree (fun s t => s = t ∧ SharesObjects d run s.objectIds.toList)
      (streamExportEvent files json run true maximumBytes s event)
      (streamExportEvent files json run true maximumBytes t event') := by
  obtain ⟨rfl, hs⟩ := hst
  unfold streamExportEvent
  rw [← redactEvent_eq h.2 s]
  have hids := sharesObjects_redactEvent h.1 hs
  generalize redactEvent true s event = redacted at hids
  obtain ⟨s₁, redacted⟩ := redacted
  show Except.Agree _ (writeEventLine files json maximumBytes s₁ _)
    (writeEventLine files json maximumBytes s₁ _)
  rcases hresult : writeEventLine files json maximumBytes s₁
    (sanitizeExportEvent run.workspaceRoot redacted) with error | s'
  · exact .error error
  · obtain ⟨-, -, -, -, -, -, hsame⟩ := writeEventLine_ok hresult
    refine .ok ⟨rfl, ?_⟩
    rw [hsame]
    exact hids

variable (h : SameButInput run d d')
include h

theorem SameButInput.streamExportEvents {maximumBytes : UInt64} {objectIds : SortedSet ObjectId}
    (hids : SharesObjects d run objectIds.toList) :
    Except.Agree (fun s t => s = t ∧ SharesObjects d run s.objectIds.toList)
      (streamExportEvents files json d run true maximumBytes objectIds)
      (streamExportEvents files json d' run true maximumBytes objectIds) := by
  refine Pager.fold_agree (R := SharedEvent d run) (fun after => h.loadTimeline after _) ?_ ?_
    ⟨rfl, hids⟩
  · rintro event event' ⟨-, hevent, -⟩
    rw [hevent]
    rfl
  · exact fun s t event event' hst hevent => streamExportEvent_agree hevent hst

/-- The snapshots of the run are in both stores, and what they hold is referred to by the run. -/
theorem SameButInput.exportedSnapshots {checkpoints : List Checkpoint}
    (hcheckpoints : Rewind.loadCheckpoints d.db run.id = .ok checkpoints) :
    Except.Agree (fun ss ts => ss = ts ∧ SharesObjects d run (ss.flatMap Snapshot.objectIds))
      (exportedSnapshots codecs d run checkpoints)
        (exportedSnapshots codecs d' run checkpoints) := by
  have heq : Rewind.exportedSnapshots codecs d run checkpoints
      = Rewind.exportedSnapshots codecs d' run checkpoints := by
    unfold Rewind.exportedSnapshots
    simp only [h.loadSnapshot]
  rw [← heq]
  rcases hresult : Rewind.exportedSnapshots codecs d run checkpoints with error | snapshots
  · exact .error error
  · refine .ok ⟨rfl, fun id hid => ?_⟩
    obtain ⟨snapshot, hsnapshot, hid⟩ := List.mem_flatMap.mp hid
    obtain ⟨snapshotId, hnamed, hload⟩ := List.exists_of_mapM_eq_ok hresult hsnapshot
    replace hload := Except.mapError_eq_ok_iff.mp hload
    obtain ⟨row, hrow, rfl, hobject⟩ := exists_row_of_loadSnapshotFrom hload hid
    exact Or.inr ⟨row, hrow, (mem_exported_iff hcheckpoints).mp hnamed, hobject⟩

theorem SameButInput.objectSize_eq {id : ObjectId} (hid : d.db.refersElsewhere run id)
    (maximumBytes : UInt64) : objectSize d maximumBytes id = objectSize d' maximumBytes id := by
  unfold objectSize openObjectReader
  rw [h.openObject_eq hid]

/-- The plans are the same. -/
theorem SameButInput.planBundle (maximumBytes : UInt64) :
    Except.Agree (fun p q => p = q ∧ SharesObjects d run p.objectIds)
      (planBundle files codecs json d run true maximumBytes)
      (planBundle files codecs json d' run true maximumBytes) := by
  unfold Rewind.planBundle
  rw [← h.loadCheckpoints]
  refine .bind_same fun checkpoints hcheckpoints => ?_
  replace hcheckpoints := Except.mapError_eq_ok_iff.mp hcheckpoints
  refine (h.exportedSnapshots hcheckpoints).bind ?_
  rintro snapshots _ ⟨rfl, hsnapshots⟩
  refine .bind_same fun _ _ => ?_
  have hids : SharesObjects d run
      (SortedSet.ofList (snapshots.flatMap Snapshot.objectIds)).toList := by
    intro id hid
    exact hsnapshots id (SortedSet.mem_ofList.mp hid)
  refine (h.streamExportEvents hids).bind ?_
  rintro stream _ ⟨rfl, hstream⟩
  refine .bind_same fun _ _ => ?_
  refine .bind_same fun checkpointsBytes _ => ?_
  refine .bind_same fun runBytes _ => ?_
  refine .bind_same fun entries _ => ?_
  -- the sizes are read from files that both stores have
  have hsizes : stream.objectIds.toList.mapM (objectSize d maximumBytes)
      = stream.objectIds.toList.mapM (objectSize d' maximumBytes) := by
    have hagree : List.Forall₂ (fun id id' => id = id' ∧ d.db.refersElsewhere run id)
        stream.objectIds.toList stream.objectIds.toList :=
      List.forall₂_same.mpr fun id hid => ⟨rfl, hstream id hid⟩
    have hmap := Except.Agree.mapM (S := Eq) (f := objectSize d maximumBytes)
      (g := objectSize d' maximumBytes) hagree ?_
    · rw [List.forall₂_eq_eq_eq] at hmap
      exact hmap.eq
    · rintro id _ ⟨rfl, hid⟩
      exact .of_eq (h.objectSize_eq hid maximumBytes)
  rw [← hsizes]
  refine .bind_same fun sizes _ => ?_
  refine .bind_same fun manifest _ => ?_
  refine .bind_same fun _ _ => ?_
  refine .bind_same fun _ _ => ?_
  exact .ok ⟨rfl, hstream⟩

/-- The same plan is written with the same bytes. -/
theorem SameButInput.bundleStream [Write W] {plan : BundlePlan}
    (hids : SharesObjects d run plan.objectIds) :
    bundleStream files codecs d plan = bundleStream files codecs d' plan := by
  refine Except.Agree.eq ?_
  unfold Rewind.bundleStream
  refine .bind_same fun writer _ => ?_
  refine .bind_same fun writer _ => ?_
  refine .bind_same fun _ _ => ?_
  refine .bind_same fun writer _ => ?_
  refine .bind_same fun writer _ => ?_
  refine Except.Agree.bind (R := Eq) ?_ fun writer₁ writer₂ hw => ?_
  · have hagree : List.Forall₂ (fun id id' => id = id' ∧ d.db.refersElsewhere run id)
        plan.objectIds plan.objectIds :=
      List.forall₂_same.mpr fun id hid => ⟨rfl, hids id hid⟩
    refine Except.Agree.foldlM hagree rfl ?_
    rintro writer _ id _ rfl ⟨rfl, hid⟩
    refine .of_eq ?_
    unfold writeObject openObjectReader
    rw [h.openObject_eq hid]
  · subst hw
    exact .of_eq rfl

theorem SameButInput.exportBundle [Write W] (output : Option Bytes) (maximumBytes : UInt64) :
    exportBundle files codecs json d run output true maximumBytes
      = exportBundle files codecs json d' run output true maximumBytes := by
  refine Except.Agree.eq ?_
  unfold Rewind.exportBundle
  refine (h.planBundle maximumBytes).bind ?_
  rintro plan _ ⟨rfl, hids⟩
  rw [Rewind.writeBundleFile, Rewind.writeBundleFile, h.bundleStream hids]
  exact .of_eq rfl

end Bundles

/-! ### The page -/

section Pages

variable {W : Type} {files : ExportFiles W} {codecs : Codecs} {json : ExportJson}
  {run : Run} {d d' : Disk}

theorem eventKind_eq {payload payload' : EventPayload} (h : SamePayload payload payload') :
    eventKind payload = eventKind payload' ∧ payload.isInput = payload'.isInput := by
  cases h with
  | same => exact ⟨rfl, rfl⟩
  | input => exact ⟨rfl, rfl⟩

variable (h : SameButInput run d d')
include h

theorem SameButInput.htmlFrame_eq {id : ObjectId} (hid : d.db.refersElsewhere run id)
    (s : HtmlEvents) (event : Event) (byteLen : UInt64) :
    htmlFrame codecs d s event id byteLen = htmlFrame codecs d' s event id byteLen := by
  unfold htmlFrame loadObject
  rw [h.openObject_eq hid]

/-- An event has the same view and the same frame. -/
theorem SameButInput.htmlEvent_eq {event event' : Event} (hevent : SharedEvent d run event event')
    (s : HtmlEvents) : htmlEvent codecs d true s event = htmlEvent codecs d' true s event' := by
  obtain ⟨houtput, hsame, hpayload⟩ := hevent
  rw [hsame]
  unfold htmlEvent
  obtain ⟨hkind, hinput⟩ := eventKind_eq hpayload
  simp only [← hkind, ← hinput]
  generalize event'.payload = payload' at hpayload
  obtain ⟨id, runId, sequence, wallClock, monotonicOffset, schemaVersion, payload⟩ := event
  change SamePayload payload payload' at hpayload
  cases hpayload with
  | same =>
    cases payload' with
    | terminalOutput streamId objectId byteLen =>
      have hid : d.db.refersElsewhere run objectId := houtput streamId objectId byteLen rfl
      simp only [h.htmlFrame_eq hid]
    | _ => rfl
  | input => rfl

theorem SameButInput.exportHtml (frame : HtmlFrame) (output : Option Bytes) :
    exportHtml codecs d files json frame run output true
      = exportHtml codecs d' files json frame run output true := by
  have hevents : loadHtmlEvents codecs d run.id true = loadHtmlEvents codecs d' run.id true := by
    refine Except.Agree.eq ?_
    refine Pager.fold_agree (R := SharedEvent d run) (fun after => h.loadTimeline after _) ?_ ?_ rfl
    · rintro event event' ⟨-, hevent, -⟩
      rw [hevent]
      rfl
    · rintro s _ event event' rfl hevent
      exact .of_eq (h.htmlEvent_eq hevent s)
  unfold Rewind.exportHtml
  simp only [h.loadSnapshot, h.loadCheckpoints, hevents]

end Pages

/-- **Redacted input leaves no trace in an export.**  Two stores that differ in the objects of the
run's input only, which the run refers to nowhere else, give the same bundle and the same page,
byte for byte, or the same error. -/
theorem redaction_noninterfering {W : Type} [Write W] (files : ExportFiles W) (codecs : Codecs)
    (json : ExportJson) (frame : HtmlFrame) (run : Run) (output : Option Bytes)
    (maximumBytes : UInt64) {d d' : Disk} (h : SameButInput run d d') :
    exportBundle files codecs json d run output true maximumBytes
        = exportBundle files codecs json d' run output true maximumBytes
      ∧ exportHtml codecs d files json frame run output true
        = exportHtml codecs d' files json frame run output true :=
  ⟨h.exportBundle output maximumBytes, h.exportHtml frame output⟩

namespace Sample

/-- A run that begins and ends in the empty workspace. -/
def idleRun : Run :=
  { run with
    initialSnapshot := some emptySnapshot.id
    finalSnapshot := some emptySnapshot.id }

/-- A store whose run has one chunk of input, in this object. -/
def inputDisk (id : ObjectId) (bytes : Bytes) : Disk where
  db := { step codecs Db.empty ⟨.storeSnapshot emptySnapshot ⟨0⟩, false⟩ with
    events := [eventRow (event 0 (.terminalInput ⟨runId.uuid⟩ id 1))] }
  files := [⟨pathFor id, .file bytes⟩]
  tick := 0

theorem inputDisk_isInput (id : ObjectId) (bytes : Bytes) :
    (inputDisk id bytes).db.IsInput runId id :=
  ⟨eventRow (event 0 (.terminalInput ⟨runId.uuid⟩ id 1)), List.mem_cons_self, ⟨runId.uuid⟩, 1, rfl⟩

theorem inputDisk_node? {id id' : ObjectId} (h : id' ≠ id) (bytes : Bytes) :
    (inputDisk id bytes).files.node? (pathFor id') = none := by
  show Files.node? [⟨pathFor id, .file bytes⟩] (pathFor id') = none
  rw [Files.node?_cons, if_neg fun heq => h (pathFor_injective heq).symm]
  rfl

/-- Different input, of one length. -/
theorem inputDisks_sameButInput : SameButInput idleRun (inputDisk outputId [1])
    (inputDisk ⟨Digest.fill 7⟩ [2]) where
  checkpoints := rfl
  snapshots := rfl
  snapshotEntries := rfl
  events := .cons ⟨rfl, .input _ _ _ _⟩ .nil
  files id hid hid' := by
    rw [inputDisk_node?, inputDisk_node?]
    · rintro rfl
      exact hid' (inputDisk_isInput _ _)
    · rintro rfl
      exact hid (inputDisk_isInput _ _)
  unreferenced id _ := by
    rintro (⟨row, hrow, streamId, byteLen, hpayload⟩ | ⟨row, hrow, -⟩)
    · obtain rfl := List.mem_singleton.mp hrow
      exact nomatch hpayload
    · exact absurd hrow List.not_mem_nil

end Sample

/-- Both exports succeed. -/
theorem redaction_noninterfering_sample :
    (exportBundle Sample.exportFiles Sample.codecs Sample.json
        (Sample.inputDisk Sample.outputId [1]) Sample.idleRun none true 1000).isOk = true
      ∧ (exportHtml Sample.codecs (Sample.inputDisk Sample.outputId [1]) Sample.exportFiles
        Sample.json ⟨[60], [62]⟩ Sample.idleRun none true).isOk = true
      ∧ exportBundle Sample.exportFiles Sample.codecs Sample.json
          (Sample.inputDisk Sample.outputId [1]) Sample.idleRun none true 1000
        = exportBundle Sample.exportFiles Sample.codecs Sample.json
            (Sample.inputDisk ⟨Digest.fill 7⟩ [2]) Sample.idleRun none true 1000
      ∧ exportHtml Sample.codecs (Sample.inputDisk Sample.outputId [1]) Sample.exportFiles
          Sample.json ⟨[60], [62]⟩ Sample.idleRun none true
        = exportHtml Sample.codecs (Sample.inputDisk ⟨Digest.fill 7⟩ [2]) Sample.exportFiles
            Sample.json ⟨[60], [62]⟩ Sample.idleRun none true :=
  ⟨by decide +kernel, by decide +kernel,
    redaction_noninterfering Sample.exportFiles Sample.codecs Sample.json ⟨[60], [62]⟩
      Sample.idleRun none 1000 Sample.inputDisks_sameButInput⟩

end Rewind

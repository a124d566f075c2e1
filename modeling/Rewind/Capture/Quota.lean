/-
The storage quota of a run.

The recorder counts the bytes of the objects that its run refers to, each object once, and stops
the capture before they exceed `max_run_bytes`.  An object is accounted after its event has been
emitted, and a checkpoint's objects after the checkpoint has been committed.

* `Db.runObjects` — what the durable events and the committed snapshots of a run refer to;
* **`storage_quota`** — the counter covers these objects and stays within the quota, as long as the
  store refuses no batch that the event of a new object has filled.
-/
import Mathlib.Algebra.Order.BigOperators.Group.Finset
import Rewind.Capture.Effects
import Rewind.Capture.Sequence
import Rewind.Store.Persistence
import Rewind.Store.References

namespace Rewind

open Call

/-! ### Sums over distinct objects -/

section Sums

variable {α : Type} [DecidableEq α] (f : α → Nat)

theorem sum_toFinset_le_sum_map (xs : List α) : ∑ x ∈ xs.toFinset, f x ≤ (xs.map f).sum := by
  induction xs with
  | nil => exact Nat.le_refl 0
  | cons x xs ih =>
    rw [List.toFinset_cons, List.map_cons, List.sum_cons]
    have hinsert : ∑ y ∈ insert x xs.toFinset, f y ≤ f x + ∑ y ∈ xs.toFinset, f y := by
      by_cases hx : x ∈ xs.toFinset
      · rw [Finset.insert_eq_of_mem hx]
        exact Nat.le_add_left _ _
      · rw [Finset.sum_insert hx]
    omega

theorem sum_toFinset_append_le (xs ys : List α) :
    ∑ x ∈ (xs ++ ys).toFinset, f x ≤ ∑ x ∈ xs.toFinset, f x + (ys.map f).sum := by
  have hunion : ∑ x ∈ xs.toFinset ∪ ys.toFinset, f x + ∑ x ∈ xs.toFinset ∩ ys.toFinset, f x
      = ∑ x ∈ xs.toFinset, f x + ∑ x ∈ ys.toFinset, f x := Finset.sum_union_inter
  have hys := sum_toFinset_le_sum_map f ys
  rw [List.toFinset_append]
  omega

end Sums

/-! ### What a run refers to -/

/-- The objects that the durable events and the committed snapshots of a run refer to. -/
def Db.runObjects (db : Db) (runId : RunId) : List ObjectId :=
  (db.eventsOf runId).filterMap (fun row => row.payload.reference?.map (·.1))
    ++ (db.checkpoints.filter (·.runId = runId)).flatMap fun checkpoint =>
      (db.entriesOf checkpoint.snapshotId).filterMap (·.objectId)

/-- The logical bytes of the distinct ones among the objects. -/
def logicalBytesOf (size : ObjectId → Nat) (ids : List ObjectId) : Nat :=
  ∑ id ∈ ids.toFinset, size id

/-- **The quota.**  The counter covers what the run refers to, and stays within the limit. -/
def WithinQuota (size : ObjectId → Nat) (runId : RunId) (options : CaptureOptions) (w : World) :
    Prop :=
  logicalBytesOf size (w.db.runObjects runId) ≤ w.recorder.logicalObjectBytes
    ∧ w.recorder.logicalObjectBytes ≤ options.maxRunBytes.toNat

/-- The scans report the sizes of the objects. -/
def SizedScans (size : ObjectId → Nat) (env : Env) : Prop :=
  ∀ snapshot, Scanned env snapshot → ∀ entry ∈ snapshot.manifest.entries,
    ∀ objectId fileSize executable, entry.kind = .file objectId fileSize executable →
      fileSize.toNat = size objectId

/-- An operation refers to objects by `emit_object_reference` only, and with their sizes. -/
def RecorderOp.Sized (size : ObjectId → Nat) : RecorderOp → Prop
  | .emit payload | .queueEvent payload => payload.reference? = none
  | .emitObjectReference objectId logicalSize payload =>
    logicalSize.toNat = size objectId ∧ payload.reference?.map (·.1) = some objectId
  | _ => True

/-! ### The step that may lose count -/

/-- The event fills the buffer, and the store refuses the batch. -/
def batchRefused (env : Env) (w : World) (payload : EventPayload) : Bool :=
  match exec (Recorder.queueEvent env payload) w with
  | (.ok _, queued) =>
    decide (queued.recorder.pending.length ≥ queued.recorder.options.eventBatchSize)
      && !(exec (Recorder.flush env) queued).1.isOk
  | (.error _, _) => false

/-- An event that refers to an object is not left in the buffer before the object is accounted,
unless the object is there already, is empty, or is refused itself. -/
def ReferenceCounted (env : Env) (w : World) : RecorderOp → Prop
  | .emitObjectReference objectId logicalSize payload =>
    objectId ∈ w.recorder.accountedObjects ∨ logicalSize = 0
      ∨ (Recorder.projectedObjectBytes w.recorder [(objectId, logicalSize)]).isOk = false
      ∨ batchRefused env w payload = false
  | _ => True

instance (env : Env) (w : World) (op : RecorderOp) : Decidable (ReferenceCounted env w op) :=
  match op with
  | .emitObjectReference .. => inferInstanceAs (Decidable (_ ∈ _ ∨ _ ∨ _ ∨ _))
  | .queueEvent .. | .emit .. | .warning .. | .warnExclusions .. | .flush | .checkpoint ..
  | .manualCheckpoint .. | .finish .. | .commitFinish .. | .finishPreparationFailure ..
  | .finishRunningWithoutChild .. | .cleanupExclusionsForRetention | .putObject ..
  | .markRunRunning .. => inferInstanceAs (Decidable True)

/-! ### The objects of a manifest -/

theorem mem_insertCandidate {candidates : List (ObjectId × UInt64)}
    {candidate c : ObjectId × UInt64} :
    c ∈ insertCandidate candidates candidate
      ↔ c = candidate ∨ (c ∈ candidates ∧ c.1 ≠ candidate.1) := by
  simp only [insertCandidate, List.mem_append, List.mem_filter, List.mem_singleton,
    decide_eq_true_eq]
  exact or_comm

/-- The fold of `manifestObjects`, from any candidates. -/
def collectObjects (candidates : List (ObjectId × UInt64)) (entries : List SnapshotEntry) :
    List (ObjectId × UInt64) :=
  entries.foldl (fun candidates entry =>
    match entry.kind with
    | .file objectId size _ => insertCandidate candidates (objectId, size)
    | .directory | .symlink _ => candidates) candidates

theorem mem_collectObjects {entries : List SnapshotEntry}
    {candidates : List (ObjectId × UInt64)} {c : ObjectId × UInt64}
    (h : c ∈ collectObjects candidates entries) :
    c ∈ candidates ∨ ∃ entry ∈ entries, ∃ executable, entry.kind = .file c.1 c.2 executable := by
  induction entries generalizing candidates with
  | nil => exact Or.inl h
  | cons entry rest ih =>
    rcases ih h with hmem | ⟨entry', hentry, hkind⟩
    · cases hkind : entry.kind with
      | file objectId size executable =>
        simp only [hkind] at hmem
        rcases mem_insertCandidate.mp hmem with rfl | ⟨hbefore, -⟩
        · exact Or.inr ⟨entry, List.mem_cons_self, executable, hkind⟩
        · exact Or.inl hbefore
      | directory =>
        simp only [hkind] at hmem
        exact Or.inl hmem
      | symlink target =>
        simp only [hkind] at hmem
        exact Or.inl hmem
    · exact Or.inr ⟨entry', List.mem_cons_of_mem _ hentry, hkind⟩

theorem collectObjects_covers {entries : List SnapshotEntry}
    {candidates : List (ObjectId × UInt64)} {objectId : ObjectId}
    (h : objectId ∈ candidates.map (·.1)
      ∨ ∃ entry ∈ entries, ∃ size executable, entry.kind = .file objectId size executable) :
    objectId ∈ (collectObjects candidates entries).map (·.1) := by
  induction entries generalizing candidates with
  | nil =>
    rcases h with hmem | ⟨_, hentry, -⟩
    · exact hmem
    · exact absurd hentry List.not_mem_nil
  | cons entry rest ih =>
    refine ih ?_
    -- the entry's own object goes into the candidates, and nothing leaves them
    have hkeeps : objectId ∈ candidates.map (·.1) → ∀ candidate : ObjectId × UInt64,
        objectId ∈ (insertCandidate candidates candidate).map (·.1) := by
      intro hmem candidate
      obtain ⟨c, hc, rfl⟩ := List.mem_map.mp hmem
      by_cases hsame : c.1 = candidate.1
      · exact List.mem_map.mpr ⟨candidate, mem_insertCandidate.mpr (Or.inl rfl), hsame.symm⟩
      · exact List.mem_map.mpr ⟨c, mem_insertCandidate.mpr (Or.inr ⟨hc, hsame⟩), rfl⟩
    rcases h with hmem | ⟨entry', hentry, size, executable, hkind⟩
    · left
      cases hkind : entry.kind with
      | file objectId' size executable =>
        simp only [hkind]
        exact hkeeps hmem (objectId', size)
      | directory =>
        simp only [hkind]
        exact hmem
      | symlink target =>
        simp only [hkind]
        exact hmem
    · rcases List.mem_cons.mp hentry with rfl | hrest
      · left
        simp only [hkind]
        exact List.mem_map.mpr ⟨(objectId, size), mem_insertCandidate.mpr (Or.inl rfl), rfl⟩
      · exact Or.inr ⟨entry', hrest, size, executable, hkind⟩

theorem manifestObjects_covers {snapshot : Snapshot} {objectId : ObjectId}
    (h : objectId ∈ snapshot.objectIds) :
    objectId ∈ (manifestObjects snapshot.manifest).map (·.1) := by
  obtain ⟨entry, hentry, hobject⟩ := List.mem_filterMap.mp h
  obtain ⟨size, executable, hkind⟩ := objectId_entryRow.mp hobject
  exact collectObjects_covers (Or.inr ⟨entry, hentry, size, executable, hkind⟩)

theorem manifestObjects_sized {size : ObjectId → Nat} {env : Env} {snapshot : Snapshot}
    (hscans : SizedScans size env) (hscanned : Scanned env snapshot) :
    ∀ c ∈ manifestObjects snapshot.manifest, c.2.toNat = size c.1 := by
  intro c hc
  rcases mem_collectObjects hc with hnone | ⟨entry, hentry, executable, hkind⟩
  · exact absurd hnone List.not_mem_nil
  · exact hscans snapshot hscanned entry hentry c.1 c.2 executable hkind

/-! ### What the statements add -/

theorem mem_runObjects {db : Db} {runId : RunId} {id : ObjectId} :
    id ∈ db.runObjects runId
      ↔ (∃ row ∈ db.eventsOf runId, row.payload.reference?.map (·.1) = some id)
        ∨ ∃ checkpoint ∈ db.checkpoints, checkpoint.runId = runId
            ∧ ∃ row ∈ db.snapshotEntries, row.snapshotId = checkpoint.snapshotId
              ∧ row.objectId = some id := by
  simp only [Db.runObjects, List.mem_append, List.mem_filterMap, List.mem_flatMap, List.mem_filter,
    decide_eq_true_eq, Db.entriesOf, List.mem_insertionSort, and_assoc]

theorem runObjects_congr {db db' : Db} {runId : RunId} (hevents : db'.events = db.events)
    (hcheckpoints : db'.checkpoints = db.checkpoints)
    (hentries : db'.snapshotEntries = db.snapshotEntries) :
    db'.runObjects runId = db.runObjects runId := by
  simp only [Db.runObjects, Db.eventsOf, Db.entriesOf, hevents, hcheckpoints, hentries]

/-- An accepted batch adds the objects of its events. -/
theorem mem_runObjects_append {db db' : Db} {events : List Event} {runId : RunId} {id : ObjectId}
    (hok : appendEventBatchIn db events = .ok db') (h : id ∈ db'.runObjects runId) :
    id ∈ db.runObjects runId ∨ ∃ event ∈ events, event.objectId? = some id := by
  obtain ⟨rfl, -⟩ := appendEventBatchIn_ok hok
  rcases mem_runObjects.mp h with ⟨row, hrow, hreference⟩ | hcheckpoint
  · obtain ⟨hmem, hrun⟩ := List.mem_filter.mp hrow
    rcases List.mem_append.mp hmem with hbefore | hnew
    · exact Or.inl (mem_runObjects.mpr (Or.inl
        ⟨row, List.mem_filter.mpr ⟨hbefore, hrun⟩, hreference⟩))
    · obtain ⟨event, hevent, rfl⟩ := List.mem_map.mp hnew
      exact Or.inr ⟨event, hevent, hreference⟩
  · exact Or.inl (mem_runObjects.mpr (Or.inr hcheckpoint))

/-- A stored snapshot adds rows for its own objects, and has no others. -/
theorem entries_storeSnapshot {codecs : Codecs} {db db' : Db} {snapshot : Snapshot}
    {createdAt : Timestamp} (hdb : db.EntriesOwned)
    (hok : storeSnapshotIn codecs db snapshot createdAt = .ok db') {row : SnapshotEntryRow}
    (hrow : row ∈ db'.snapshotEntries) {id : ObjectId} (hid : row.objectId = some id) :
    (row ∈ db.snapshotEntries ∧ row.snapshotId ≠ snapshot.id) ∨ id ∈ snapshot.objectIds := by
  by_cases hsnapshot : row.snapshotId = snapshot.id
  · right
    rcases storeSnapshotIn_ok hok with ⟨rfl, hload⟩ | ⟨hfresh, -, total, rfl⟩
    · exact objectIds_of_loadSnapshotFrom hload hrow hsnapshot hid
    · rcases List.mem_append.mp hrow with hbefore | hnew
      · exact absurd (hsnapshot ▸ hdb row hbefore) hfresh
      · obtain ⟨entry, hentry, rfl⟩ := List.mem_map.mp hnew
        exact List.mem_filterMap.mpr ⟨entry, hentry, hid⟩
  · rcases storeSnapshotIn_ok hok with ⟨rfl, -⟩ | ⟨-, -, total, rfl⟩
    · exact Or.inl ⟨hrow, hsnapshot⟩
    · rcases List.mem_append.mp hrow with hbefore | hnew
      · exact Or.inl ⟨hbefore, hsnapshot⟩
      · obtain ⟨entry, hentry, rfl⟩ := List.mem_map.mp hnew
        exact Or.inr (List.mem_filterMap.mpr ⟨entry, hentry, hid⟩)

/-- A committed checkpoint adds the objects of its snapshot, and of its event. -/
theorem mem_runObjects_commit {codecs : Codecs} {db db' : Db} {checkpoint : Checkpoint}
    {snapshot : Snapshot} {event : Event} {runId : RunId} {id : ObjectId} (hdb : db.EntriesOwned)
    (hok : commitCheckpointWithEvent codecs db checkpoint snapshot event = .ok db')
    (h : id ∈ db'.runObjects runId) :
    id ∈ db.runObjects runId ∨ event.objectId? = some id ∨ id ∈ snapshot.objectIds := by
  obtain ⟨hsnapshot, -, db₁, hcommit, happend⟩ := commitCheckpointWithEvent_ok hok
  rcases mem_runObjects_append happend h with h | ⟨event', hevent, hid⟩
  · obtain ⟨db₂, hstore, -, -, -, rfl⟩ := commitCheckpointIn_ok hcommit
    obtain ⟨snapshots, snapshotEntries, rfl⟩ := storeSnapshotIn_frame hstore
    rcases mem_runObjects.mp h with hevents | ⟨row, hrow, hrun, entry, hentry, howner, hid⟩
    · exact Or.inl (mem_runObjects.mpr (Or.inl hevents))
    · rcases entries_storeSnapshot hdb hstore hentry hid with ⟨hbefore, hother⟩ | hobject
      · rcases List.mem_append.mp hrow with hrow | hrow
        · exact Or.inl (mem_runObjects.mpr (Or.inr ⟨row, hrow, hrun, entry, hbefore, howner, hid⟩))
        · rw [List.mem_singleton.mp hrow] at howner
          exact absurd (howner.trans hsnapshot) hother
      · exact Or.inr (Or.inr hobject)
  · rw [List.mem_singleton.mp hevent] at hid
    exact Or.inr (Or.inl hid)

/-! ### The invariant -/

/-- An object that the counter covers: it is accounted, or empty, or one of `extra`, which are about
to be accounted. -/
def Charged (size : ObjectId → Nat) (extra : ObjectId → Prop) (r : Recorder) (id : ObjectId) :
    Prop :=
  id ∈ r.accountedObjects ∨ size id = 0 ∨ extra id

/-- What the run refers to is charged, what waits in the buffer too, and the counter covers what is
accounted. -/
structure Covered (size : ObjectId → Nat) (runId : RunId) (options : CaptureOptions)
    (extra : ObjectId → Prop) (w : World) : Prop where
  owner : w.recorder.runId = runId
  configured : w.recorder.options = options
  counted : Counted w
  entries : w.db.EntriesOwned
  durable : ∀ id ∈ w.db.runObjects runId, Charged size extra w.recorder id
  waiting : ∀ event ∈ w.recorder.pending, ∀ id, event.objectId? = some id →
    Charged size extra w.recorder id
  bytes : logicalBytesOf size w.recorder.accountedObjects ≤ w.recorder.logicalObjectBytes
  limit : w.recorder.logicalObjectBytes ≤ options.maxRunBytes.toNat

section Invariant

variable {size : ObjectId → Nat} {runId : RunId} {options : CaptureOptions}
  {extra : ObjectId → Prop}

theorem Covered.withinQuota {w : World} (h : Covered size runId options (fun _ => False) w) :
    WithinQuota size runId options w := by
  refine ⟨?_, h.limit⟩
  have hsum : logicalBytesOf size (w.db.runObjects runId)
      ≤ logicalBytesOf size w.recorder.accountedObjects := by
    refine Finset.sum_le_sum_of_ne_zero fun id hid hsize => ?_
    rcases h.durable id (List.mem_toFinset.mp hid) with haccounted | hzero | hextra
    · exact List.mem_toFinset.mpr haccounted
    · exact absurd hzero hsize
    · exact hextra.elim
  exact Nat.le_trans hsum h.bytes

/-- What has become charged anyway is not extra any more. -/
theorem Covered.settle {w : World} {extra' : ObjectId → Prop}
    (h : Covered size runId options extra w)
    (hextra : ∀ id, extra id → Charged size extra' w.recorder id) :
    Covered size runId options extra' w := by
  have hcharged : ∀ id, Charged size extra w.recorder id → Charged size extra' w.recorder id := by
    rintro id (haccounted | hzero | hid)
    · exact Or.inl haccounted
    · exact Or.inr (Or.inl hzero)
    · exact hextra id hid
  exact ⟨h.owner, h.configured, h.counted, h.entries, fun id hid => hcharged id (h.durable id hid),
    fun event hevent id hid => hcharged id (h.waiting event hevent id hid), h.bytes, h.limit⟩

theorem projectedObjectBytes_ok {r : Recorder} {candidates : List (ObjectId × UInt64)}
    {projected : Nat} (h : Recorder.projectedObjectBytes r candidates = .ok projected) :
    projected = r.logicalObjectBytes
        + ((candidates.filter fun c => c.1 ∉ r.accountedObjects).map fun c => c.2.toNat).sum
      ∧ projected ≤ r.options.maxRunBytes.toNat := by
  unfold Recorder.projectedObjectBytes at h
  dsimp only at h
  split at h
  case isTrue hfits =>
    obtain rfl := Except.ok.inj h
    exact ⟨rfl, hfits.2.2⟩
  case isFalse => exact absurd h (by simp)

/-- Objects that fit into the quota are accounted with their sizes. -/
theorem Covered.account {w : World} (h : Covered size runId options extra w)
    {candidates : List (ObjectId × UInt64)} {projected : Nat}
    (hsized : ∀ c ∈ candidates, c.2.toNat = size c.1)
    (hprojected : Recorder.projectedObjectBytes w.recorder candidates = .ok projected) :
    Covered size runId options extra (w.account candidates projected) := by
  obtain ⟨heq, hle⟩ := projectedObjectBytes_ok hprojected
  have hcharged : ∀ id, Charged size extra w.recorder id →
      Charged size extra (w.account candidates projected).recorder id := by
    rintro id (haccounted | hother)
    · exact Or.inl (List.mem_append_left _ haccounted)
    · exact Or.inr hother
  refine ⟨h.owner, h.configured, h.counted, h.entries, fun id hid => hcharged id (h.durable id hid),
    fun event hevent id hid => hcharged id (h.waiting event hevent id hid), ?_, ?_⟩
  · -- the new ones among the candidates are what has been added to the counter
    have hnew : ((candidates.filter fun c => c.1 ∉ w.recorder.accountedObjects).map
        fun c => c.2.toNat)
        = ((candidates.map (·.1)).filter fun id => id ∉ w.recorder.accountedObjects).map size := by
      rw [List.filter_map, List.map_map]
      refine List.map_congr_left fun c hc => ?_
      exact hsized c (List.mem_filter.mp hc).1
    have hsum := sum_toFinset_append_le size w.recorder.accountedObjects
      ((candidates.map (·.1)).filter fun id => id ∉ w.recorder.accountedObjects)
    have hbytes : ∑ id ∈ w.recorder.accountedObjects.toFinset, size id
        ≤ w.recorder.logicalObjectBytes := h.bytes
    rw [hnew] at heq
    show ∑ id ∈ (w.recorder.accountedObjects ++ (candidates.map (·.1)).filter fun id =>
      id ∉ w.recorder.accountedObjects).toFinset, size id ≤ projected
    omega
  · rw [h.configured] at hle
    exact hle

theorem mem_account (w : World) {candidates : List (ObjectId × UInt64)} (projected : Nat)
    {id : ObjectId} (h : id ∈ candidates.map (·.1)) :
    id ∈ (w.account candidates projected).recorder.accountedObjects := by
  by_cases hid : id ∈ w.recorder.accountedObjects
  · exact List.mem_append_left _ hid
  · exact List.mem_append_right _ (List.mem_filter.mpr ⟨h, decide_eq_true hid⟩)

/-- The same with room for one more in the count of the checkpoints. -/
def CoveredRoomy (size : ObjectId → Nat) (runId : RunId) (options : CaptureOptions)
    (extra : ObjectId → Prop) (_ : CheckpointId) (_ : SnapshotId) (w : World) : Prop :=
  Covered size runId options extra w
    ∧ w.recorder.checkpointCount + 1 < w.recorder.sequencer.next.get

/-- The methods of the recorder, with events that refer to nothing but `extra` objects. -/
theorem effects_covered {env : Env} (codecs : Codecs) (hscans : SizedScans size env) (runId : RunId)
    (options : CaptureOptions) (extra : ObjectId → Prop) :
    Effects env codecs (fun _ => True)
      (fun payload => ∀ id, payload.reference?.map (·.1) = some id → extra id)
      (Covered size runId options extra) (CoveredRoomy size runId options extra)
      (fun _ _ => Covered size runId options extra) where
  ordinary payload hpayload id hid := by
    rw [hpayload] at hid
    exact absurd hid (by simp)
  tick _ hw := ⟨hw.owner, hw.configured, hw.counted, hw.entries, hw.durable, hw.waiting, hw.bytes,
    hw.limit⟩
  paths _ _ hw := ⟨hw.owner, hw.configured, hw.counted, hw.entries, hw.durable, hw.waiting,
    hw.bytes,
    hw.limit⟩
  refuse _ _ hw := ⟨hw.owner, hw.configured, hw.counted, hw.entries, hw.durable, hw.waiting,
    hw.bytes,
    hw.limit⟩
  object := by
    intro w db stored createdUnixMs hw hok
    obtain ⟨row, -, -, -, rfl, -⟩ := recordObject_ok hok
    obtain ⟨rows, -, hinsert⟩ := Db.insertObject_frame w.db row
    have hobjects : (w.db.insertObject row).runObjects runId = w.db.runObjects runId := by
      rw [hinsert]
      exact runObjects_congr rfl rfl rfl
    refine ⟨hw.owner, hw.configured, hw.counted, ?_, fun id hid => ?_, hw.waiting, hw.bytes,
      hw.limit⟩
    · show (w.db.insertObject row).EntriesOwned
      rw [hinsert]
      exact hw.entries.of_eq rfl rfl
    · exact hw.durable id (hobjects ▸ hid)
  number := by
    intro w payload event sequencer hw hnumbered
    have hnext := hnumbered.next'
    have hcounted : w.recorder.checkpointCount < w.recorder.sequencer.next.get := hw.counted
    refine ⟨hw.owner, hw.configured, ?_, hw.entries, hw.durable, hw.waiting, hw.bytes, hw.limit⟩
    show w.recorder.checkpointCount < sequencer.next.get
    omega
  queue := by
    intro w payload event sequencer hallowed hw hnumbered
    have hnext := hnumbered.next'
    have hcounted : w.recorder.checkpointCount < w.recorder.sequencer.next.get := hw.counted
    refine ⟨hw.owner, hw.configured, ?_, hw.entries, hw.durable, ?_, hw.bytes, hw.limit⟩
    · show w.recorder.checkpointCount < sequencer.next.get
      omega
    · intro waiting hwaiting id hid
      rcases List.mem_append.mp hwaiting with hbefore | hnew
      · exact hw.waiting waiting hbefore id hid
      · rw [List.mem_singleton.mp hnew, Event.objectId?, hnumbered.payload] at hid
        exact Or.inr (Or.inr (hallowed id hid))
  append := by
    intro w db hw hok
    refine ⟨hw.owner, hw.configured, hw.counted, ?_, ?_, nofun, hw.bytes, hw.limit⟩
    · obtain ⟨rfl, -⟩ := appendEventBatchIn_ok hok
      exact hw.entries.of_eq rfl rfl
    · intro id hid
      rcases mem_runObjects_append hok hid with hbefore | ⟨event, hevent, hid⟩
      · exact hw.durable id hbefore
      · exact hw.waiting event hevent id hid
  commit := by
    intro w checkpointId reason label snapshot event sequencer db projected _ hscanned hw hnumbered
      hok hprojected
    have hnext := hnumbered.next'
    have hcounted : w.recorder.checkpointCount < w.recorder.sequencer.next.get := hw.counted
    have hsized := manifestObjects_sized hscans hscanned
    -- the objects of the snapshot are extra ones until they are accounted
    have hcommitted : Covered size runId options
        (fun id => extra id ∨ id ∈ (manifestObjects snapshot.manifest).map (·.1))
        ((w.number sequencer).accept .checkpoint db) := by
      have hwider : Covered size runId options
          (fun id => extra id ∨ id ∈ (manifestObjects snapshot.manifest).map (·.1)) w :=
        hw.settle fun id hid => Or.inr (Or.inr (Or.inl hid))
      refine ⟨hw.owner, hw.configured, ?_, ?_, ?_, hwider.waiting, hw.bytes, hw.limit⟩
      · show w.recorder.checkpointCount < sequencer.next.get
        omega
      · obtain ⟨-, -, db₁, hcommit, happend⟩ := commitCheckpointWithEvent_ok hok
        obtain ⟨db₂, hstore, -, -, -, rfl⟩ := commitCheckpointIn_ok hcommit
        obtain ⟨rfl, -⟩ := appendEventBatchIn_ok happend
        exact (hw.entries.storeSnapshot hstore).of_eq rfl rfl
      · intro id hid
        rcases mem_runObjects_commit hw.entries hok hid with hbefore | hevent | hobject
        · exact hwider.durable id hbefore
        · rw [Event.objectId?, hnumbered.payload] at hevent
          exact absurd hevent (by simp [EventPayload.reference?])
        · exact Or.inr (Or.inr (Or.inr (manifestObjects_covers hobject)))
    refine ⟨(hcommitted.account hsized hprojected).settle ?_, ?_⟩
    · rintro id (hid | hid)
      · exact Or.inr (Or.inr hid)
      · exact Or.inl (mem_account _ projected hid)
    · show w.recorder.checkpointCount + 1 < sequencer.next.get
      omega
  bounded := by
    rintro _ _ w ⟨-, hroom⟩
    have hlt := w.recorder.sequencer.next.lt
    omega
  count := by
    rintro _ _ w ⟨hw, hroom⟩
    exact ⟨hw.owner, hw.configured, hroom, hw.entries, hw.durable, hw.waiting, hw.bytes, hw.limit⟩

/-! ### References -/

/-- The accounts of a recorder. -/
structure SameAccounts (r r' : Recorder) : Prop where
  accountedObjects : r'.accountedObjects = r.accountedObjects
  logicalObjectBytes : r'.logicalObjectBytes = r.logicalObjectBytes
  options : r'.options = r.options

/-- Between two checkpoints, the accounts stay. -/
theorem effects_sameAccounts (env : Env) (codecs : Codecs) (r : Recorder) :
    Effects env codecs (fun _ => False) (fun _ => True) (fun w => SameAccounts r w.recorder)
      (fun _ _ _ => False) (fun _ _ _ => False) where
  ordinary _ _ := trivial
  tick _ hw := hw
  paths _ _ hw := ⟨hw.1, hw.2, hw.3⟩
  refuse _ _ hw := hw
  object _ _ _ _ hw _ := hw
  number _ _ _ _ hw _ := ⟨hw.1, hw.2, hw.3⟩
  queue _ _ _ _ _ hw _ := ⟨hw.1, hw.2, hw.3⟩
  append _ _ hw _ := ⟨hw.1, hw.2, hw.3⟩
  commit _ _ _ _ _ _ _ _ _ hreason := hreason.elim
  bounded _ _ _ h := h.elim
  count _ _ _ h := h.elim

theorem Charged.of_same {r r' : Recorder} (hsame : SameAccounts r r') {id : ObjectId}
    (h : Charged size extra r id) : Charged size extra r' id := by
  rcases h with haccounted | hother
  · exact Or.inl (hsame.accountedObjects ▸ haccounted)
  · exact Or.inr hother

/-- The event of an object is emitted; or it has not even been queued; or it is left in the buffer,
and its object is charged already. -/
theorem spec_emitReference {env : Env} (codecs : Codecs) (hscans : SizedScans size env)
    {objectId : ObjectId} {payload : EventPayload}
    (hpayload : payload.reference?.map (·.1) = some objectId) {w : World}
    (hw : Covered size runId options (fun _ => False) w)
    (hok : Charged size (fun _ => False) w.recorder objectId ∨ batchRefused env w payload = false) :
    Spec (fun t => t = w) (Recorder.emit env payload)
      (fun _ => Covered size runId options (· = objectId))
      (Covered size runId options (fun _ => False)) := by
  have h := effects_covered codecs hscans runId options (· = objectId)
  have hnone := effects_covered codecs hscans runId options (fun _ => False)
  have hallowed : ∀ id, payload.reference?.map (·.1) = some id → id = objectId := by
    intro id hid
    rw [hpayload] at hid
    exact (Option.some.inj hid).symm
  have hextra : Covered size runId options (· = objectId) w := hw.settle fun _ hid => hid.elim
  rcases hok with hcharged | haccepted
  · -- whatever becomes of the event, the accounts stay and have the object
    have hemit := (h.keeps_emit hallowed).and
      ((effects_sameAccounts env codecs w.recorder).keeps_emit trivial)
    refine hemit.imp ?_ (fun _ _ ht => ht.1) fun t ht => ht.1.settle ?_
    · rintro t rfl
      exact ⟨hextra, rfl, rfl, rfl⟩
    · rintro id rfl
      exact hcharged.of_same ht.2
  · have hqueue : Spec (Covered size runId options (fun _ => False))
        (Recorder.queueEvent env payload) (fun _ => Covered size runId options (· = objectId))
        (Covered size runId options (fun _ => False)) :=
      Effects.spec_queueEvent_of_tick hnone.tick fun v event sequencer hv hnumbered =>
        h.queue v payload event sequencer hallowed (hv.settle fun _ hid => hid.elim) hnumbered
    rintro t rfl
    have hqueued := hqueue t hw
    unfold batchRefused at haccepted
    unfold Recorder.emit
    rw [exec_bind]
    rcases hexec : exec (Recorder.queueEvent env payload) t with ⟨error | sequence, queued⟩
    · rw [hexec] at hqueued
      exact hqueued
    rw [hexec] at hqueued haccepted
    have hrest : Spec (fun s => s = queued) (do
        let w ← get
        if w.recorder.pending.length ≥ w.recorder.options.eventBatchSize then do
          Recorder.flush env
          return sequence
        else
          return sequence : Method EventSequence)
        (fun _ => Covered size runId options (· = objectId))
        (Covered size runId options (fun _ => False)) := by
      refine spec_get_bind ?_
      rintro s rfl
      refine spec_ite (fun hfull => ?_) fun _ => spec_pure fun s hs => hs ▸ hqueued
      refine spec_bind (Q := fun _ => Covered size runId options (· = objectId)) ?_ fun _ =>
        spec_pure fun _ hs => hs
      -- the buffer is full, and the store accepts the batch
      have hflushes : (exec (Recorder.flush env) s).1.isOk = true := by
        simpa [hfull] using haccepted
      rintro s' rfl
      have hflush := h.keeps_flush s' hqueued
      rcases hflushed : exec (Recorder.flush env) s' with ⟨error | _, s''⟩
      · rw [hflushed] at hflushes
        exact absurd hflushes (by simp [Except.isOk, Except.toBool])
      · rw [hflushed] at hflush
        exact hflush
    exact hrest queued rfl

/-- A reference that is counted. -/
theorem spec_emitObjectReference {env : Env} (codecs : Codecs) (hscans : SizedScans size env)
    {objectId : ObjectId} {logicalSize : UInt64} {payload : EventPayload}
    (hsize : logicalSize.toNat = size objectId)
    (hpayload : payload.reference?.map (·.1) = some objectId) {w : World}
    (hw : Covered size runId options (fun _ => False) w)
    (hok : ReferenceCounted env w (.emitObjectReference objectId logicalSize payload)) :
    Spec (fun t => t = w) (Recorder.emitObjectReference env objectId logicalSize payload)
      (fun _ => Covered size runId options (fun _ => False))
      (Covered size runId options (fun _ => False)) := by
  have hnone := effects_covered codecs hscans runId options (fun _ => False)
  refine spec_get_bind ?_
  rintro t rfl
  rcases hprojected : Recorder.projectedObjectBytes t.recorder [(objectId, logicalSize)]
    with error | projected
  · refine Keeps.at ?_ hw
    exact keeps_bind hnone.keeps_warnRunStorageLimit fun _ =>
      keeps_bind hnone.keeps_flush fun _ => keeps_throw _
  have hcounted : Charged size (fun _ => False) t.recorder objectId
      ∨ batchRefused env t payload = false := by
    rcases hok with haccounted | hzero | hover | haccepted
    · exact Or.inl (Or.inl haccounted)
    · rw [hzero] at hsize
      exact Or.inl (Or.inr (Or.inl hsize.symm))
    · rw [hprojected] at hover
      exact absurd hover (by simp [Except.isOk, Except.toBool])
    · exact Or.inr haccepted
  have hemit := (spec_emitReference codecs hscans hpayload hw hcounted).and
    ((effects_sameAccounts env codecs t.recorder).keeps_emit trivial)
  refine spec_bind (hemit.imp (fun s hs => ⟨hs, hs ▸ ⟨rfl, rfl, rfl⟩⟩) (fun _ _ hs => hs)
    fun _ hs => hs.1) fun sequence => ?_
  refine spec_bind (spec_modify (Q := fun _ => Covered size runId options (fun _ => False)) ?_)
    fun _ => spec_pure fun _ hs => hs
  rintro s ⟨hs, hsame⟩
  have hsized : ∀ c ∈ [(objectId, logicalSize)], c.2.toNat = size c.1 := by
    intro c hc
    rw [List.mem_singleton.mp hc]
    exact hsize
  have hprojected' : Recorder.projectedObjectBytes s.recorder [(objectId, logicalSize)]
      = .ok projected := by
    rw [← hprojected]
    unfold Recorder.projectedObjectBytes
    rw [hsame.accountedObjects, hsame.logicalObjectBytes, hsame.options]
  refine (hs.account hsized hprojected').settle ?_
  rintro id rfl
  exact Or.inl (mem_account s projected (List.mem_singleton.mpr rfl))

/-! ### Every operation -/

theorem finishKeeps_covered (finish : RunFinish) :
    FinishKeeps (Covered size runId options extra) finish := by
  intro w db hw hok
  obtain ⟨_, _, db₁, -, -, -, happend, hfinish⟩ := finishRunWithEvents_ok hok
  obtain ⟨-, -, rfl⟩ := finishRunIn_ok hfinish
  refine ⟨hw.owner, hw.configured, hw.counted, ?_, ?_, nofun, hw.bytes, hw.limit⟩
  · obtain ⟨rfl, -⟩ := appendEventBatchIn_ok happend
    exact hw.entries.of_eq rfl rfl
  · intro id hid
    rcases mem_runObjects_append happend hid with hbefore | ⟨event, hevent, hid⟩
    · exact hw.durable id hbefore
    · exact hw.waiting event hevent id hid

/-- **The step lemma.** -/
theorem covered_step {env : Env} {codecs : Codecs} (hscans : SizedScans size env) {w : World}
    {op : RecorderOp} (hw : Covered size runId options (fun _ => False) w) (hop : op.Sized size)
    (hok : ReferenceCounted env w op) :
    Covered size runId options (fun _ => False) (recorderStep env codecs w op) := by
  have h := effects_covered codecs hscans runId options (fun _ => False)
  by_cases hreference : ∃ objectId logicalSize payload,
      op = .emitObjectReference objectId logicalSize payload
  · obtain ⟨objectId, logicalSize, payload, rfl⟩ := hreference
    have hemit := spec_emitObjectReference codecs hscans hop.1 hop.2 hw hok
    exact (spec_bind hemit fun _ => spec_pure fun _ ht => ht : Spec _ (discard _) _ _).state rfl
  · have hkeeps : Keeps (Covered size runId options (fun _ => False)) (op.exec env codecs) := by
      refine h.keeps_exec (fun _ => trivial) (fun _ _ _ ht => ht) finishKeeps_covered ?_ ?_
        fun objectId logicalSize payload hop => absurd ⟨_, _, _, hop⟩ hreference
      · intro t db initialSnapshot ht hok
        obtain ⟨-, rfl⟩ := markRunRunning_ok hok
        exact ⟨ht.owner, ht.configured, ht.counted, ht.entries, ht.durable, ht.waiting, ht.bytes,
          ht.limit⟩
      · rintro payload (rfl | rfl) <;> exact h.ordinary payload hop
    exact hkeeps.state hw

end Invariant

/-! ### Runs of the recorder -/

/-- The recorder of a run that has just been created. -/
theorem covered_start {codecs : Codecs} {requests : List Request} {run : Run} {db : Db}
    (h : createRun (Machine.run (step codecs) Db.empty requests) run = .ok db)
    (size : ObjectId → Nat) (options : CaptureOptions) :
    Covered size run.id options (fun _ => False) (World.start db run.id options) := by
  have hentries : db.EntriesOwned :=
    (statements_keepEntriesOwned codecs).createRun h ((statements_keepEntriesOwned codecs).run
      Db.empty requests fun _ hrow => absurd hrow List.not_mem_nil)
  refine ⟨rfl, rfl, Nat.zero_lt_one, hentries, ?_, nofun, Nat.le_refl 0, Nat.zero_le _⟩
  intro id hid
  rcases mem_runObjects.mp hid with ⟨row, hrow, -⟩ | ⟨checkpoint, hcheckpoint, hrun, -⟩
  · have hevents : (World.start db run.id options).db.eventsOf run.id = [] := eventsOf_created h
    rw [hevents] at hrow
    exact absurd hrow List.not_mem_nil
  · exact absurd hrun (checkpoints_created h checkpoint hcheckpoint)

/-- **The storage quota.**  Over every run of operations on a recorder, with any calls failing, the
counter covers the distinct objects that the durable events and the committed snapshots refer to,
and stays within the quota, in every state reached, if no reference is left behind uncounted. -/
theorem storage_quota (env : Env) (codecs : Codecs) (size : ObjectId → Nat)
    (requests : List Request) (run : Run) (options : CaptureOptions) (ops : List RecorderOp)
    {db : Db} (h : createRun (Machine.run (step codecs) Db.empty requests) run = .ok db)
    (hscans : SizedScans size env) (hops : ∀ op ∈ ops, op.Sized size)
    (hcounted : Machine.Meets (recorderStep env codecs) (ReferenceCounted env)
      (World.start db run.id options) ops) :
    ∀ pre, pre <+: ops → WithinQuota size run.id options
      (Machine.run (recorderStep env codecs) (World.start db run.id options) pre) := by
  intro pre hpre
  refine Covered.withinQuota (Machine.prefix_invariant_of_meets
    (I := Covered size run.id options (fun _ => False)) ?_ hops (covered_start h size options)
    hcounted pre hpre)
  intro w op hop hw hok
  exact covered_step hscans hw hop hok

namespace Sample

/-- The chunk `output` has one byte; nothing else has a size. -/
def size (id : ObjectId) : Nat := if id = outputId then 1 else 0

/-- The chunk is stored and its event recorded, then the buffer is flushed. -/
def recordOutput : List RecorderOp :=
  [.putObject ⟨outputId, 1, 1, .none⟩ 0,
    .emitObjectReference outputId 1 (.terminalOutput ⟨⟨1⟩⟩ outputId 1), .flush]

/-- The recorder writes every event at once, and stores a thousand bytes at most. -/
def eager : CaptureOptions := ⟨1, 1000⟩

theorem sizedScans (tick : Nat) : SizedScans size (env tick) := by
  rintro snapshot ⟨_, report, hreport, rfl⟩ entry hentry
  have hempty : report = ⟨emptySnapshot, []⟩ := (Except.ok.inj hreport).symm
  rw [hempty] at hentry
  exact absurd hentry List.not_mem_nil

theorem recordOutput_sized : ∀ op ∈ recordOutput, op.Sized size := by
  intro op hop
  simp only [recordOutput, List.mem_cons, List.not_mem_nil, or_false] at hop
  rcases hop with rfl | rfl | rfl
  · trivial
  · exact ⟨rfl, rfl⟩
  · trivial

/-- The state after the output has been recorded, where the store fails at `tick`. -/
def recordedAt (tick : Nat) : World :=
  Machine.run (recorderStep (env tick) codecs) (World.start created run.id eager) recordOutput

theorem recordedAt_counted : Machine.Meets (recorderStep (env 99) codecs)
    (ReferenceCounted (env 99)) (World.start created run.id eager) recordOutput := by
  decide +kernel

theorem recordedAt_bytes : logicalBytesOf size ((recordedAt 3).db.runObjects run.id) = 1
    ∧ (recordedAt 3).recorder.logicalObjectBytes = 0 := by decide +kernel

end Sample

theorem storage_quota_recorded :
    WithinQuota Sample.size Sample.run.id Sample.eager (Sample.recordedAt 99) :=
  storage_quota (Sample.env 99) Sample.codecs Sample.size [] Sample.run Sample.eager
    Sample.recordOutput Sample.createRun_run (Sample.sizedScans 99) Sample.recordOutput_sized
    Sample.recordedAt_counted Sample.recordOutput (List.prefix_refl _)

/-- The store refuses the batch of the chunk's event once: the next flush makes the event durable,
and nobody has counted the chunk. -/
theorem storage_not_always_counted :
    ¬ ∀ (env : Env) (codecs : Codecs) (size : ObjectId → Nat) (requests : List Request) (run : Run)
        (options : CaptureOptions) (ops : List RecorderOp) (db : Db),
        createRun (Machine.run (step codecs) Db.empty requests) run = .ok db →
        SizedScans size env → (∀ op ∈ ops, op.Sized size) →
        WithinQuota size run.id options
          (Machine.run (recorderStep env codecs) (World.start db run.id options) ops) := by
  intro hall
  have hquota := (hall (Sample.env 3) Sample.codecs Sample.size [] Sample.run Sample.eager
    Sample.recordOutput Sample.created Sample.createRun_run (Sample.sizedScans 3)
    Sample.recordOutput_sized).1
  have hdurable := Sample.recordedAt_bytes.1
  have hcounter := Sample.recordedAt_bytes.2
  unfold Sample.recordedAt at hdurable hcounter
  rw [hdurable, hcounter] at hquota
  omega

end Rewind

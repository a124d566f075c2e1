/-
The cleanup of a workspace that is retained.

The recorder keeps the paths that its scans have left out, and removes them from the workspace
before it is retained.  Here its cleanup runs on a file system, where any of the calls may fail.

* `Recorder.attempts` — one removal after the other, whatever becomes of each;
* `exec_recorder_cleanup` — the recorder's cleanup, where the file system answers it;
* `excludedPaths_accumulate` — what is recorded after scans that have been committed or rejected;
* **`cleanup_complete`** — what a cleanup removes, leaves alone, and keeps recorded.
-/
import Rewind.Capture.Sequence
import Rewind.Platform.Pruning

namespace Rewind

open FileTree Call

/-! ### The cleanup on a file system -/

/-- A recorder, and the file system that its workspace is in. -/
structure Retention where
  world : World
  fs : FileSystem

abbrev Retaining (α : Type) := Call Retention CaptureError α

/-- A method of the recorder. -/
def recording {α : Type} (m : Method α) : Retaining α :=
  ofFun fun r => ((exec m r.world).1, { r with world := (exec m r.world).2 })

/-- A call on the file system. -/
def onDisk {α : Type} (m : PlatformCall α) : Retaining (Except FileSystemError α) :=
  ofFun fun r => (.ok (exec m r.fs).1, { r with fs := (exec m r.fs).2 })

namespace Retention

variable (env : Env) (s : Surroundings)

/-- The loop of `cleanup_exclusions_for_retention`. -/
def removeExclusions (root : DirectoryRoot) :
    List SnapshotPath → Nat → Option String → Retaining (Nat × Option String)
  | [], failed, firstError => return (failed, firstError)
  | path :: rest, failed, firstError => do
    let _ ← recording nextTick
    match ← onDisk (removeRelativeEntry s root path.text) with
    | .ok () => do
      recording (modifyRecorder fun r =>
        { r with excludedPaths := r.excludedPaths.filter (· ≠ path) })
      removeExclusions root rest failed firstError
    | .error error =>
      removeExclusions root rest (failed + 1) (firstError.or (some (toString error)))

/-- The end of `cleanup_exclusions_for_retention`. -/
def reportFailures (failures : Nat × Option String) : Retaining Unit :=
  match failures.2 with
  | none => return ()
  | some source => do
    recording (Recorder.recordCleanupFailure env failures.1 source)
    throw (.privacyCleanup failures.1 source)

/-- `cleanup_exclusions_for_retention`, of the workspace that is the entry `name` of the directory
at `parent`. -/
def cleanupExclusionsForRetention (workspace : Bytes) (parent : List Name) (name : Name) :
    Retaining Unit := do
  let r ← get
  let paths := r.world.recorder.excludedPaths.reverse
  if paths = [] then
    return ()
  else do
    let _ ← recording nextTick
    match ← onDisk (openWorkspace s workspace parent name) with
    | .error error => do
      recording (Recorder.recordCleanupFailure env paths.length (toString error))
      throw (.privacyCleanup paths.length (toString error))
    | .ok root => do
      let failures ← removeExclusions s root paths 0 none
      reportFailures env failures

/-- The removals, each on the file system that the one before it has left, and how they end. -/
def attempts (root : DirectoryRoot) :
    List SnapshotPath → FileSystem → List (SnapshotPath × Except FileSystemError Unit) × FileSystem
  | [], fs => ([], fs)
  | path :: rest, fs =>
    let attempt := exec (removeRelativeEntry s root path.text) fs
    let later := attempts root rest attempt.2
    ((path, attempt.1) :: later.1, later.2)

/-- The text of the failure of a removal. -/
def failure? : SnapshotPath × Except FileSystemError Unit → Option String
  | (_, .ok ()) => none
  | (_, .error error) => some (toString error)

/-- A removal that succeeds takes its path from the record. -/
def settle (w : World) (attempt : SnapshotPath × Except FileSystemError Unit) : World :=
  match attempt.2 with
  | .ok () =>
    { w with
      tick := w.tick + 1
      recorder := { w.recorder with
        excludedPaths := w.recorder.excludedPaths.filter (· ≠ attempt.1) } }
  | .error _ => { w with tick := w.tick + 1 }

/-! ### What the loop comes to -/

section Loop

variable {env s} {root : DirectoryRoot}

theorem exec_recording_nextTick (r : Retention) : exec (recording nextTick) r
    = (.ok r.world.tick, ⟨{ r.world with tick := r.world.tick + 1 }, r.fs⟩) := rfl

theorem exec_onDisk {α : Type} (m : PlatformCall α) (r : Retention) :
    exec (onDisk m) r = (.ok (exec m r.fs).1, { r with fs := (exec m r.fs).2 }) := rfl

theorem exec_removeExclusions (paths : List SnapshotPath) (failed : Nat)
    (firstError : Option String)
    (r : Retention) :
    exec (removeExclusions s root paths failed firstError) r
      = (.ok (failed + (attempts s root paths r.fs).1.countP fun a => (failure? a).isSome,
          firstError.or ((attempts s root paths r.fs).1.findSome? failure?)),
        ⟨(attempts s root paths r.fs).1.foldl settle r.world, (attempts s root paths r.fs).2⟩) := by
  induction paths generalizing failed firstError r with
  | nil => simp [removeExclusions, attempts]
  | cons path rest ih =>
    rw [removeExclusions, attempts]
    rw [exec_bind_ok (exec_recording_nextTick r), exec_bind_ok (exec_onDisk _ _)]
    rcases hexec : exec (removeRelativeEntry s root path.text) r.fs with ⟨error | ⟨⟩, fs⟩
    · refine (ih (failed + 1) _ ⟨settle r.world (path, .error error), fs⟩).trans ?_
      refine Prod.ext (congrArg Except.ok (Prod.ext ?_ ?_)) rfl
      · show _ = failed + List.countP _ (_ :: _)
        rw [List.countP_cons]
        simp only [failure?, Option.isSome_some, if_true]
        omega
      · show _ = firstError.or (List.findSome? _ (_ :: _))
        rw [List.findSome?_cons]
        simp only [failure?, Option.or_assoc, Option.some_or]
    · refine (ih failed firstError ⟨settle r.world (path, .ok ()), fs⟩).trans ?_
      refine Prod.ext (congrArg Except.ok (Prod.ext ?_ ?_)) rfl
      · show _ = failed + List.countP _ (_ :: _)
        rw [List.countP_cons]
        simp only [failure?, Option.isSome_none, Bool.false_eq_true, if_false]
        omega
      · show _ = firstError.or (List.findSome? _ (_ :: _))
        rw [List.findSome?_cons]
        simp only [failure?]

/-- The recorder's loop is this one, where the file system answers it. -/
theorem exec_recorder_removeExclusions (paths : List SnapshotPath) (failed : Nat)
    (firstError : Option String) (r : Retention)
    (hanswers : ∀ i < paths.length, env.removeEntry (r.world.tick + i)
      = (attempts s root paths r.fs).1[i]?.bind failure?) :
    exec (Recorder.removeExclusions env paths failed firstError) r.world
      = ((exec (removeExclusions s root paths failed firstError) r).1,
        (exec (removeExclusions s root paths failed firstError) r).2.world) := by
  induction paths generalizing failed firstError r with
  | nil => rfl
  | cons path rest ih =>
    have hfirst := hanswers 0 (Nat.zero_lt_succ _)
    have hrest : ∀ i < rest.length, env.removeEntry (r.world.tick + 1 + i)
        = (attempts s root rest (exec (removeRelativeEntry s root path.text) r.fs).2).1[i]?.bind
          failure? := by
      intro i hi
      have hnext := hanswers (i + 1) (Nat.succ_lt_succ hi)
      rw [Nat.add_assoc, Nat.add_comm 1 i]
      exact hnext
    rw [Nat.add_zero, attempts] at hfirst
    rw [Recorder.removeExclusions, removeExclusions]
    rw [exec_bind_ok (exec_recording_nextTick r), exec_bind_ok (exec_onDisk _ _)]
    show exec (match env.removeEntry r.world.tick with | none => _ | some error => _) _ = _
    rcases hexec : exec (removeRelativeEntry s root path.text) r.fs with ⟨error | ⟨⟩, fs⟩ <;>
      rw [hexec] at hfirst hrest
    · rw [show env.removeEntry r.world.tick = some (toString error) from hfirst]
      exact ih (failed + 1) _ ⟨settle r.world (path, .error error), fs⟩ hrest
    · rw [show env.removeEntry r.world.tick = none from hfirst]
      exact ih failed firstError ⟨settle r.world (path, .ok ()), fs⟩ hrest

end Loop

/-- The world of the recorder, with the file system to answer the calls of the cleanup. -/
def answered (workspace : Bytes) (parent : List Name) (name : Name) (r : Retention) : Env :=
  let opening := exec (openWorkspace s workspace parent name) r.fs
  { env with
    openWorkspace := fun _ =>
      match opening.1 with
      | .ok _ => none
      | .error error => some (toString error)
    removeEntry := fun tick =>
      match opening.1 with
      | .ok root =>
        (attempts s root r.world.recorder.excludedPaths.reverse opening.2).1[tick
          - (r.world.tick + 1)]?.bind failure?
      | .error _ => none }

/-- The report of a failure depends on the clock, the identifiers and the store alone. -/
theorem recordCleanupFailure_congr {env env' : Env} (hclock : env'.clock = env.clock)
    (huuid : env'.uuid = env.uuid) (hstore : env'.storeFails = env.storeFails) (failed : Nat)
    (source : String) :
    Recorder.recordCleanupFailure env' failed source
      = Recorder.recordCleanupFailure env failed source := by
  have hnow : now env' = now env := by
    unfold now
    rw [hclock]
  have hnext : sequencerNext env' = sequencerNext env := by
    funext payload
    unfold sequencerNext
    rw [hnow, huuid]
  have htransact : transact env' = transact env := by
    funext call f
    unfold transact
    rw [hstore]
  unfold Recorder.recordCleanupFailure Recorder.warning Recorder.emit Recorder.queueEvent
    Recorder.flush
  rw [hnext, htransact]

/-- The recorder's cleanup is this one, where the file system answers it. -/
theorem exec_recorder_cleanup (workspace : Bytes) (parent : List Name) (name : Name)
    (r : Retention) :
    exec (Recorder.cleanupExclusionsForRetention (answered env s workspace parent name r)) r.world
      = ((exec (cleanupExclusionsForRetention env s workspace parent name) r).1,
        (exec (cleanupExclusionsForRetention env s workspace parent name) r).2.world) := by
  have hclock : (answered env s workspace parent name r).clock = env.clock := rfl
  have huuid : (answered env s workspace parent name r).uuid = env.uuid := rfl
  have hstore : (answered env s workspace parent name r).storeFails = env.storeFails := rfl
  have htick : exec nextTick r.world
      = (.ok r.world.tick, { r.world with tick := r.world.tick + 1 }) := rfl
  unfold Recorder.cleanupExclusionsForRetention cleanupExclusionsForRetention
  rw [exec_bind_ok (exec_get r), exec_bind_ok (exec_get r.world)]
  simp only [recordCleanupFailure_congr hclock huuid hstore]
  by_cases hpaths : r.world.recorder.excludedPaths.reverse = []
  · simp only [hpaths, if_true]
    rfl
  · simp only [hpaths, if_false]
    rw [exec_bind_ok (exec_recording_nextTick r), exec_bind_ok (exec_onDisk _ _)]
    rcases hopen : exec (openWorkspace s workspace parent name) r.fs with ⟨error | root, fs⟩ <;>
      dsimp only
    · have hanswer : (answered env s workspace parent name r).openWorkspace r.world.tick
          = some (toString error) := by
        simp only [answered, hopen]
      rw [exec_bind_ok htick, hanswer]
      rfl
    · have hanswer : (answered env s workspace parent name r).openWorkspace r.world.tick
        = none := by
        simp only [answered, hopen]
      have hloop : exec (Recorder.removeExclusions (answered env s workspace parent name r)
          r.world.recorder.excludedPaths.reverse 0 none)
          { r.world with tick := r.world.tick + 1 }
          = ((exec (removeExclusions s root r.world.recorder.excludedPaths.reverse 0 none)
              ⟨{ r.world with tick := r.world.tick + 1 }, fs⟩).1, _) :=
        exec_recorder_removeExclusions _ 0 none ⟨_, fs⟩ fun i _ => by
          simp only [answered, hopen, Nat.add_sub_cancel_left]
      rw [exec_bind_ok htick, hanswer]
      have hrun : exec (removeExclusions s root r.world.recorder.excludedPaths.reverse 0 none)
          ⟨{ r.world with tick := r.world.tick + 1 }, fs⟩ = _ := exec_removeExclusions _ 0 none _
      rw [hrun] at hloop
      have hreport : exec (removeExclusions s root r.world.recorder.excludedPaths.reverse 0 none
          >>= reportFailures env) ⟨{ r.world with tick := r.world.tick + 1 }, fs⟩ = _ :=
        exec_bind_ok hrun
      rw [exec_bind_ok hloop]
      rw [hreport]
      generalize (attempts s root r.world.recorder.excludedPaths.reverse fs).1.findSome? failure?
        = first
      rcases first with _ | source
      · rfl
      · rfl

/-! ### The removals -/

/-- The path is at or beneath one of the paths beneath `location`. -/
def Beneath (location : List Name) (paths : List SnapshotPath) (names : List Name) : Prop :=
  ∃ path ∈ paths, location ++ splitSlash path.text <+: names

section Attempts

variable {s} {root : DirectoryRoot}

theorem map_fst_attempts (s : Surroundings) (root : DirectoryRoot) (paths : List SnapshotPath)
    (fs : FileSystem) :
    (attempts s root paths fs).1.map (·.1) = paths := by
  induction paths generalizing fs with
  | nil => rfl
  | cons path rest ih =>
    rw [attempts, List.map_cons, ih]

/-- The removals take away what is at and beneath their paths, and nothing else; and what one of
them has removed does not come back. -/
theorem attempts_pruned (root : DirectoryRoot) (hstatic : ∀ tick, s.others tick = [])
    (paths : List SnapshotPath) (fs : FileSystem) :
    Pruned (Beneath root.location paths) fs (attempts s root paths fs).2
      ∧ ∀ path, (path, .ok ()) ∈ (attempts s root paths fs).1 → ∀ rest,
        (attempts s root paths fs).2.root.kindAt (root.location ++ splitSlash path.text ++ rest)
          = none := by
  induction paths generalizing fs with
  | nil => exact ⟨Pruned.refl fs, fun _ hmem => absurd hmem List.not_mem_nil⟩
  | cons path rest ih =>
    have hwithin : ∀ later, Beneath root.location (path :: rest)
        (root.location ++ splitSlash path.text ++ later) :=
      fun later => ⟨path, List.mem_cons_self, List.prefix_append _ later⟩
    have hspec := spec_removeRelativeEntry hstatic hwithin fs (Pruned.refl fs)
    obtain ⟨hlater, hgone⟩ := ih (exec (removeRelativeEntry s root path.text) fs).2
    rcases hexec : exec (removeRelativeEntry s root path.text) fs with ⟨result, fs₁⟩
    rw [hexec] at hspec hlater hgone
    have hfirst : Pruned (Beneath root.location (path :: rest)) fs fs₁ := by
      rcases result with error | ⟨⟩
      · exact hspec
      · exact hspec.1
    have hrest := hlater.mono fun names => fun ⟨other, hother, hinitial⟩ =>
      (⟨other, List.mem_cons_of_mem path hother, hinitial⟩ :
        Beneath root.location (path :: rest) names)
    rw [attempts, hexec]
    refine ⟨hfirst.trans hrest, fun removed hremoved later => ?_⟩
    rcases List.mem_cons.mp hremoved with heq | hremoved
    · -- What this removal has left, the later ones leave as it is or take away.
      obtain ⟨rfl, rfl⟩ := Prod.mk.inj heq
      exact hlater.kindAt_eq_none (hspec.2 later)
    · exact hgone removed hremoved later

/-- The paths that stay recorded, in their order. -/
theorem excludedPaths_settle (as : List (SnapshotPath × Except FileSystemError Unit)) (w : World) :
    (as.foldl settle w).recorder.excludedPaths
      = w.recorder.excludedPaths.filter fun path => decide ((path, .ok ()) ∉ as) := by
  induction as generalizing w with
  | nil => simp
  | cons attempt as ih =>
    obtain ⟨path, result⟩ := attempt
    rw [List.foldl_cons, ih]
    rcases result with error | ⟨⟩
    · show w.recorder.excludedPaths.filter _ = _
      refine List.filter_congr fun other _ => ?_
      simp
    · show (w.recorder.excludedPaths.filter _).filter _ = _
      rw [List.filter_filter]
      refine List.filter_congr fun other _ => ?_
      by_cases hother : other = path <;> simp [hother]

end Attempts

/-! ### What is recorded -/

/-- The paths that are recorded. -/
def Records (paths : List SnapshotPath) (w : World) : Prop := w.recorder.excludedPaths = paths

section Records

variable {env} {paths : List SnapshotPath}

theorem keeps_nextTick : Keeps (Records paths) nextTick := fun _ hw => hw

theorem keeps_now : Keeps (Records paths) (now env) := by
  refine keeps_bind keeps_nextTick fun tick => ?_
  rcases env.clock tick with _ | reading
  · exact keeps_throw _
  · exact keeps_pure _

theorem keeps_modifyRecorder {f : Recorder → Recorder}
    (hf : ∀ r, (f r).excludedPaths = r.excludedPaths) : Keeps (Records paths) (modifyRecorder f) :=
  keeps_modify fun w hw => (hf w.recorder).trans hw

theorem keeps_transact (call : StoreCall) (f : Db → StoreResult Db) :
    Keeps (Records paths) (transact env call f) :=
  spec_transact (fun _ _ hw _ => hw) fun _ hw => hw

theorem keeps_sequencerNext (payload : EventPayload) :
    Keeps (Records paths) (sequencerNext env payload) := by
  refine keeps_bind keeps_now fun reading => keeps_bind keeps_nextTick fun tick => ?_
  refine spec_get_bind fun w hw => Keeps.at ?_ hw
  rcases w.recorder.sequencer.nextAt ⟨env.uuid tick⟩ reading.1 reading.2 payload with
    error | ⟨event, sequencer⟩
  · exact keeps_throw _
  · exact keeps_bind (keeps_modifyRecorder fun _ => rfl) fun _ => keeps_pure _

theorem keeps_flush : Keeps (Records paths) (Recorder.flush env) := by
  refine spec_get_bind fun w hw => Keeps.at ?_ hw
  refine spec_ite (fun _ => keeps_pure _) fun _ => ?_
  exact keeps_bind (keeps_transact _ _) fun _ => keeps_modifyRecorder fun _ => rfl

theorem keeps_emit (payload : EventPayload) :
    Keeps (Records paths) (Recorder.emit env payload) := by
  refine keeps_bind (keeps_bind (keeps_sequencerNext payload) fun event =>
    keeps_bind (keeps_modifyRecorder fun _ => rfl) fun _ => keeps_pure _) fun sequence => ?_
  refine spec_get_bind fun w hw => Keeps.at ?_ hw
  exact spec_ite (fun _ => keeps_bind keeps_flush fun _ => keeps_pure _) fun _ => keeps_pure _

theorem keeps_warning (code : RecorderWarningCode) (message : String) :
    Keeps (Records paths) (Recorder.warning env code message) :=
  keeps_bind (keeps_emit _) fun _ => keeps_pure _

/-- The failure of a cleanup is reported, and changes nothing that is recorded. -/
theorem keeps_recordCleanupFailure (failed : Nat) (source : String) :
    Keeps (Records paths) (Recorder.recordCleanupFailure env failed source) :=
  keeps_attempt (keeps_warning _ _)

variable {codecs : Codecs}

/-- Whether its checkpoint is committed or rejected, what a scan has left out is recorded. -/
theorem excludedPaths_commitScanned (checkpointId : CheckpointId) (reason : CheckpointReason)
    (label : Option String) (report : ScanReport) (w : World) :
    (exec (Recorder.commitScanned env codecs checkpointId reason label report)
      w).2.recorder.excludedPaths
      = (report.exclusions.map (·.path)).foldl insertPath w.recorder.excludedPaths := by
  have hspec : Spec (fun t => t = w) (Recorder.commitScanned env codecs checkpointId reason label
    report)
      (fun _ => Records ((report.exclusions.map (·.path)).foldl insertPath
        w.recorder.excludedPaths))
      (Records ((report.exclusions.map (·.path)).foldl insertPath w.recorder.excludedPaths)) := by
    refine spec_bind (Q := fun _ => Records ((report.exclusions.map (·.path)).foldl insertPath
      w.recorder.excludedPaths)) (spec_modify fun t ht => ?_) fun _ => ?_
    · rw [ht]
      rfl
    refine spec_get_bind fun t ht => Keeps.at ?_ ht
    rcases Recorder.projectedObjectBytes t.recorder (manifestObjects report.snapshot.manifest) with
      error | projected
    · refine keeps_bind ?_ fun _ => keeps_bind (keeps_emit _) fun _ =>
        keeps_bind keeps_flush fun _ =>
        keeps_throw _
      exact spec_get_bind fun u hu => (keeps_warning _ _).at hu
    · refine keeps_bind (keeps_bind (keeps_sequencerNext _) fun _ => keeps_transact _ _) fun _ => ?_
      refine keeps_bind (keeps_modifyRecorder fun _ => rfl) fun _ => ?_
      refine spec_get_bind fun u hu => Keeps.at ?_ hu
      refine spec_ite (fun _ => ?_) fun _ => keeps_throw _
      exact keeps_bind (keeps_modifyRecorder fun _ => rfl) fun _ => keeps_pure _
  exact hspec.state rfl

end Records

/-- A scan whose checkpoint is to be committed. -/
structure ScannedCheckpoint where
  id : CheckpointId
  reason : CheckpointReason
  label : Option String
  report : ScanReport

/-- The world after the checkpoints of the scans, each committed or rejected. -/
def accumulate (env : Env) (codecs : Codecs) (scans : List ScannedCheckpoint) (w : World) : World :=
  scans.foldl (fun w scan =>
    (exec (Recorder.commitScanned env codecs scan.id scan.reason scan.label scan.report) w).2) w

/-- The path was recorded before the scans, or one of them has left it out. -/
def Excluded (w : World) (scans : List ScannedCheckpoint) (path : SnapshotPath) : Prop :=
  path ∈ w.recorder.excludedPaths
    ∨ ∃ scan ∈ scans, ∃ exclusion ∈ scan.report.exclusions, exclusion.path = path

section Accumulation

theorem mem_insertPath {paths : List SnapshotPath} {path other : SnapshotPath} :
    other ∈ insertPath paths path ↔ other = path ∨ other ∈ paths := by
  unfold insertPath
  by_cases hmem : path ∈ paths
  · rw [if_pos hmem]
    refine ⟨Or.inr, fun h => ?_⟩
    rcases h with rfl | h
    · exact hmem
    · exact h
  · rw [if_neg hmem, List.mem_orderedInsert]

theorem nodup_insertPath {paths : List SnapshotPath} (h : paths.Nodup) (path : SnapshotPath) :
    (insertPath paths path).Nodup := by
  unfold insertPath
  by_cases hmem : path ∈ paths
  · rw [if_pos hmem]
    exact h
  · rw [if_neg hmem]
    exact (List.perm_orderedInsert _ path paths).nodup_iff.mpr (List.nodup_cons.mpr ⟨hmem, h⟩)

theorem mem_foldl_insertPath {added paths : List SnapshotPath} {other : SnapshotPath} :
    other ∈ added.foldl insertPath paths ↔ other ∈ added ∨ other ∈ paths := by
  induction added generalizing paths with
  | nil => simp
  | cons path added ih =>
    rw [List.foldl_cons, ih, mem_insertPath, List.mem_cons]
    tauto

theorem nodup_foldl_insertPath (added : List SnapshotPath) {paths : List SnapshotPath}
    (h : paths.Nodup) : (added.foldl insertPath paths).Nodup := by
  induction added generalizing paths with
  | nil => exact h
  | cons path added ih => exact ih (nodup_insertPath h path)

/-- Exactly what the scans have left out is recorded, each path once. -/
theorem excludedPaths_accumulate (env : Env) (codecs : Codecs) (scans : List ScannedCheckpoint)
    {w : World} (h : w.recorder.excludedPaths.Nodup) :
    (accumulate env codecs scans w).recorder.excludedPaths.Nodup
      ∧ ∀ path, path ∈ (accumulate env codecs scans w).recorder.excludedPaths
        ↔ Excluded w scans path := by
  induction scans generalizing w with
  | nil => exact ⟨h, fun path => by simp [accumulate, Excluded]⟩
  | cons scan scans ih =>
    have hpaths : (exec (Recorder.commitScanned env codecs _ _ _ _) w).2.recorder.excludedPaths
      = _ :=
      excludedPaths_commitScanned scan.id scan.reason scan.label scan.report w
    obtain ⟨hnodup, hmem⟩ := ih (by rw [hpaths]; exact nodup_foldl_insertPath _ h)
    refine ⟨hnodup, fun path => ?_⟩
    refine (hmem path).trans ?_
    rw [Excluded, hpaths, mem_foldl_insertPath, List.mem_map, Excluded, List.exists_mem_cons_iff]
    rw [or_comm (a := ∃ exclusion ∈ scan.report.exclusions, exclusion.path = path), or_assoc]

end Accumulation

/-! ### The result of a cleanup -/

/-- The excluded paths have gone, but for those that remain; every other entry is as it was, and
nothing has been changed but at and beneath the excluded paths. -/
structure Cleaned (location : List Name) (excluded remaining : SnapshotPath → Prop)
    (before after : FileSystem) : Prop where
  gone : ∀ path, excluded path → ¬ remaining path → ∀ rest,
    after.root.kindAt (location ++ splitSlash path.text ++ rest) = none
  kept : ∀ names, (∀ path, excluded path → ¬ location ++ splitSlash path.text <+: names) →
    after.root.kindAt names = before.root.kindAt names
  confined : ∃ more, after.calls = before.calls ++ more ∧ ∀ call ∈ more, ∀ names ∈ call.1.changed,
    ∃ path, excluded path ∧ location ++ splitSlash path.text <+: names

section Cleanup

variable {env s} {root : DirectoryRoot}

theorem cleaned_of_attempts (hstatic : ∀ tick, s.others tick = []) {before opened : FileSystem}
    (hopened : Pruned (fun _ => False) before opened) {excluded : SnapshotPath → Prop}
    {paths : List SnapshotPath} (hpaths : ∀ path, path ∈ paths ↔ excluded path) :
    Cleaned root.location excluded (fun path => (path, .ok ()) ∉ (attempts s root paths opened).1)
      before (attempts s root paths opened).2 := by
  obtain ⟨hpruned, hgone⟩ := attempts_pruned root hstatic paths opened
  have hall := (hopened.mono fun _ h => h.elim).trans hpruned
  refine ⟨fun path _ hremoved => hgone path (not_not.mp hremoved), fun names hnames => ?_, ?_⟩
  · refine hall.kindAt_eq ?_
    rintro ⟨path, hpath, hinitial⟩
    exact hnames path ((hpaths path).mp hpath) hinitial
  · obtain ⟨more, hcalls, hmore⟩ := hall.calls
    refine ⟨more, hcalls, fun call hcall names hnames => ?_⟩
    obtain ⟨path, hpath, hinitial⟩ := hmore call hcall names hnames
    exact ⟨path, (hpaths path).mp hpath, hinitial⟩

theorem exists_attempt (s : Surroundings) (root : DirectoryRoot) (fs : FileSystem)
    {paths : List SnapshotPath} {path : SnapshotPath} :
    path ∈ paths ↔ ∃ result, (path, result) ∈ (attempts s root paths fs).1 := by
  constructor
  · intro hmem
    rw [← map_fst_attempts s root paths fs] at hmem
    obtain ⟨attempt, hattempt, rfl⟩ := List.mem_map.mp hmem
    exact ⟨attempt.2, hattempt⟩
  · rintro ⟨result, hmem⟩
    rw [← map_fst_attempts s root paths fs]
    exact List.mem_map.mpr ⟨_, hmem, rfl⟩

/-- A path of a set is attempted once. -/
theorem attempt_unique {paths : List SnapshotPath} (hnodup : paths.Nodup) {fs : FileSystem}
    {path : SnapshotPath} {result result' : Except FileSystemError Unit}
    (h : (path, result) ∈ (attempts s root paths fs).1)
    (h' : (path, result') ∈ (attempts s root paths fs).1) : result = result' := by
  rw [← map_fst_attempts s root paths fs] at hnodup
  exact (Prod.mk.inj (List.inj_on_of_nodup_map hnodup h h' rfl)).2

theorem failure?_isSome_iff {attempt : SnapshotPath × Except FileSystemError Unit} :
    (failure? attempt).isSome ↔ ∃ error, attempt.2 = .error error := by
  obtain ⟨path, error | ⟨⟩⟩ := attempt
  · simp [failure?]
  · simp [failure?]

/-- The paths that stay recorded are those whose removals have failed. -/
theorem mem_excludedPaths_settle {paths : List SnapshotPath} {w : World}
    (hpaths : ∀ path, path ∈ paths ↔ path ∈ w.recorder.excludedPaths) (hnodup : paths.Nodup)
    {fs : FileSystem} {path : SnapshotPath} :
    path ∈ ((attempts s root paths fs).1.foldl settle w).recorder.excludedPaths
      ↔ ∃ error, (path, .error error) ∈ (attempts s root paths fs).1 := by
  rw [excludedPaths_settle, List.mem_filter, ← hpaths, exists_attempt s root fs]
  constructor
  · rintro ⟨⟨error | ⟨⟩, hmem⟩, hnot⟩
    · exact ⟨error, hmem⟩
    · exact absurd hmem (of_decide_eq_true hnot)
  · rintro ⟨error, hmem⟩
    refine ⟨⟨_, hmem⟩, decide_eq_true fun hok => ?_⟩
    exact absurd (attempt_unique hnodup hmem hok) (by simp)

/-- There are as many of them as failures. -/
theorem length_excludedPaths_settle {paths : List SnapshotPath} {w : World}
    (hpaths : ∀ path, path ∈ paths ↔ path ∈ w.recorder.excludedPaths) (hnodup : paths.Nodup)
    (hrecorded : w.recorder.excludedPaths.Nodup) (fs : FileSystem) :
    ((attempts s root paths fs).1.foldl settle w).recorder.excludedPaths.length
      = (attempts s root paths fs).1.countP fun attempt => (failure? attempt).isSome := by
  have hkept : ((attempts s root paths fs).1.foldl settle w).recorder.excludedPaths.Nodup := by
    rw [excludedPaths_settle]
    exact hrecorded.filter _
  have hfailed : (((attempts s root paths fs).1.filter fun attempt =>
      (failure? attempt).isSome).map (·.1)).Nodup := by
    rw [← map_fst_attempts s root paths fs] at hnodup
    exact hnodup.sublist (List.filter_sublist.map _)
  rw [List.countP_eq_length_filter]
  refine ((List.perm_ext_iff_of_nodup hkept hfailed).mpr fun path => ?_).length_eq.trans
    (List.length_map _)
  rw [mem_excludedPaths_settle hpaths hnodup, List.mem_map]
  constructor
  · rintro ⟨error, hmem⟩
    exact ⟨_, List.mem_filter.mpr ⟨hmem, rfl⟩, rfl⟩
  · rintro ⟨⟨other, result⟩, hmem, rfl⟩
    obtain ⟨hmem, hfailure⟩ := List.mem_filter.mp hmem
    obtain ⟨error, rfl⟩ := failure?_isSome_iff.mp hfailure
    exact ⟨error, hmem⟩

theorem openWorkspace_ok (hstatic : ∀ tick, s.others tick = []) {workspace : Bytes}
    {parent : List Name} {name : Name} {fs opened : FileSystem}
    (h : exec (openWorkspace s workspace parent name) fs = (.ok root, opened)) :
    root.location = parent ++ [name] ∧ Pruned (fun _ => False) fs opened := by
  obtain ⟨_, t, hopen, hrest⟩ := exec_bind_eq_ok_iff.mp h
  have hpruned : Pruned (fun _ => False) fs t := by
    have hkeeps : Keeps (Pruned (fun _ => False) fs) (ioError
        "open workspace root without following symlinks" workspace
          (openDirectoryAt s parent name)) :=
      keeps_mapError (keeps_inspectAt hstatic rfl parent _)
    have hleft := hkeeps.state (Pruned.refl fs)
    rw [hopen] at hleft
    exact hleft
  obtain ⟨hroot, rfl⟩ := Prod.mk.inj hrest
  obtain rfl := Except.ok.inj hroot
  exact ⟨rfl, hpruned⟩

end Cleanup

/-- The end of the cleanup changes nothing that is recorded and nothing on the file system. -/
theorem reportFailures_ends {env : Env} {failures : Nat × Option String} {r r' : Retention}
    {result : Except CaptureError Unit} (h : exec (reportFailures env failures) r = (result, r')) :
    r'.fs = r.fs ∧ r'.world.recorder.excludedPaths = r.world.recorder.excludedPaths
      ∧ ((failures.2 = none ∧ result = .ok ())
        ∨ ∃ source, failures.2 = some source ∧ result = .error
          (.privacyCleanup failures.1 source)) := by
  obtain ⟨failed, _ | source⟩ := failures
  · obtain ⟨rfl, rfl⟩ := Prod.mk.inj h
    exact ⟨rfl, rfl, Or.inl ⟨rfl, rfl⟩⟩
  · obtain ⟨rfl, rfl⟩ := Prod.mk.inj h
    have hkept : Keeps (Records r.world.recorder.excludedPaths)
        (Recorder.recordCleanupFailure env failed source) :=
          keeps_recordCleanupFailure failed source
    exact ⟨rfl, hkept.state rfl, Or.inr ⟨source, rfl, rfl⟩⟩

/-- **The cleanup is complete and confined.**  It succeeds only if nothing is left at or beneath
what the scans have left out; and whatever it fails on, it has attempted every path, keeps exactly
those recorded whose removals have failed, and counts them. -/
theorem cleanup_complete {s : Surroundings} (hstatic : ∀ tick, s.others tick = []) (env : Env)
    (codecs : Codecs) (workspace : Bytes) (parent : List Name) (name : Name)
    (scans : List ScannedCheckpoint) (w : World) (hset : w.recorder.excludedPaths.Nodup)
    (fs : FileSystem) {result : Except CaptureError Unit} {r : Retention}
    (h : exec (cleanupExclusionsForRetention env s workspace parent name)
      ⟨accumulate env codecs scans w, fs⟩ = (result, r)) :
    (result = .ok () → r.world.recorder.excludedPaths = []
      ∧ Cleaned (parent ++ [name]) (Excluded w scans) (fun _ => False) fs r.fs)
    ∧ ∀ root opened error, exec (openWorkspace s workspace parent name) fs = (.ok root, opened) →
      result = .error error → ∃ paths, (∀ path, path ∈ paths ↔ Excluded w scans path) ∧ paths.Nodup
        ∧ (attempts s root paths opened).1.map (·.1) = paths
        ∧ r.fs = (attempts s root paths opened).2
        ∧ (∀ path, path ∈ r.world.recorder.excludedPaths
          ↔ ∃ failure, (path, .error failure) ∈ (attempts s root paths opened).1)
        ∧ (∃ source, error = .privacyCleanup r.world.recorder.excludedPaths.length source)
        ∧ Cleaned (parent ++ [name]) (Excluded w scans) (· ∈ r.world.recorder.excludedPaths)
          fs r.fs := by
  obtain ⟨hnodup, hexcluded⟩ := excludedPaths_accumulate env codecs scans hset
  generalize accumulate env codecs scans w = w₁ at h hnodup hexcluded
  have hpaths : ∀ path, path ∈ w₁.recorder.excludedPaths.reverse ↔ Excluded w scans path := by
    intro path
    rw [List.mem_reverse, hexcluded]
  have hreversed : w₁.recorder.excludedPaths.reverse.Nodup := List.nodup_reverse.mpr hnodup
  unfold cleanupExclusionsForRetention at h
  rw [exec_bind_ok (exec_get _)] at h
  by_cases hempty : w₁.recorder.excludedPaths.reverse = []
  · simp only [hempty, if_true] at h
    obtain ⟨rfl, rfl⟩ := Prod.mk.inj h
    refine ⟨fun _ => ⟨List.reverse_eq_nil_iff.mp hempty, ?_⟩, fun _ _ _ _ herror =>
      absurd herror (by simp)⟩
    refine ⟨fun path hpath => ?_, fun _ _ => rfl, [], (List.append_nil _).symm, ?_⟩
    · rw [← hpaths, hempty] at hpath
      exact absurd hpath List.not_mem_nil
    · exact fun _ hmem => absurd hmem List.not_mem_nil
  · simp only [hempty, if_false] at h
    rw [exec_bind_ok (exec_recording_nextTick _), exec_bind_ok (exec_onDisk _ _)] at h
    rcases hopen : exec (openWorkspace s workspace parent name) fs with ⟨failed | root, opened⟩ <;>
      rw [hopen] at h
    · -- The workspace cannot be opened.
      have hresult : result = .error (.privacyCleanup w₁.recorder.excludedPaths.reverse.length
          (toString failed)) := (congrArg Prod.fst h).symm
      rw [hresult]
      exact ⟨fun hok => absurd hok (by simp), fun _ _ _ hopened => absurd hopened (by simp)⟩
    · obtain ⟨hlocation, hopened⟩ := openWorkspace_ok hstatic hopen
      have hrun : exec (removeExclusions s root w₁.recorder.excludedPaths.reverse 0 none)
          (⟨{ w₁ with tick := w₁.tick + 1 }, opened⟩ : Retention) = _ :=
            exec_removeExclusions _ _ _ _
      have hends := reportFailures_ends ((exec_bind_ok hrun).symm.trans h)
      obtain ⟨hfs, hrecorded, hresult⟩ : r.fs
            = (attempts s root w₁.recorder.excludedPaths.reverse opened).2
          ∧ r.world.recorder.excludedPaths = ((attempts s root w₁.recorder.excludedPaths.reverse
            opened).1.foldl settle { w₁ with tick := w₁.tick + 1 }).recorder.excludedPaths ∧ _ :=
              hends
      have hcleaned : Cleaned root.location (Excluded w scans) _ fs
          (attempts s root w₁.recorder.excludedPaths.reverse opened).2 :=
        cleaned_of_attempts hstatic hopened hpaths
      rw [hlocation, ← hfs] at hcleaned
      have hmem : ∀ path, path ∈ r.world.recorder.excludedPaths
          ↔ ∃ failure, (path, .error failure)
            ∈ (attempts s root w₁.recorder.excludedPaths.reverse opened).1 := by
        intro path
        rw [hrecorded]
        exact mem_excludedPaths_settle (w := { w₁ with tick := w₁.tick + 1 })
          (fun _ => List.mem_reverse) hreversed
      rcases hresult with ⟨hnone, rfl⟩ | ⟨source, -, rfl⟩
      · -- None of the removals has failed.
        have hall := List.findSome?_eq_none_iff.mp hnone
        refine ⟨fun _ => ⟨?_, ?_⟩, fun _ _ _ _ herror => absurd herror (by simp)⟩
        · refine List.eq_nil_iff_forall_not_mem.mpr fun path hpath => ?_
          obtain ⟨failure, hfailure⟩ := (hmem path).mp hpath
          exact absurd (hall _ hfailure) (by simp [failure?])
        · refine ⟨fun path hpath _ => hcleaned.gone path hpath fun hnot => ?_, hcleaned.kept,
            hcleaned.confined⟩
          obtain ⟨error | ⟨⟩, hattempt⟩ := (exists_attempt s root opened).mp
            ((hpaths path).mpr hpath)
          · exact absurd (hall _ hattempt) (by simp [failure?])
          · exact hnot hattempt
      · refine ⟨fun hok => absurd hok (by simp), fun root' opened' error hopened' herror => ?_⟩
        obtain ⟨hroot, rfl⟩ := Prod.mk.inj hopened'
        obtain rfl := Except.ok.inj hroot
        obtain rfl := Except.error.inj herror
        refine ⟨_, hpaths, hreversed, map_fst_attempts _ _ _ _, hfs, hmem, ⟨source, ?_⟩, ?_⟩
        · rw [hrecorded, length_excludedPaths_settle (w := { w₁ with tick := w₁.tick + 1 })
            (fun _ => List.mem_reverse) hreversed hnodup, Nat.zero_add]
        · refine ⟨fun path hpath hnot => hcleaned.gone path hpath fun hattempt => hnot ?_,
            hcleaned.kept, hcleaned.confined⟩
          obtain ⟨error | ⟨⟩, hresult⟩ := (exists_attempt s root opened).mp
            ((hpaths path).mpr hpath)
          · exact (hmem path).mpr ⟨error, hresult⟩
          · exact absurd hresult hattempt

end Retention

/-! ### A sample -/

namespace Sample

/-- No call fails, and no other process does anything. -/
def undisturbed : Surroundings where
  fails _ := false
  written _ := 0
  others _ := []
  processId := 7

/-- The workspace `w` with the file `a`, the directory `b` with a file, and the link `l`. -/
def retained : Directory :=
  .directory [119] 0o755 (.leaf [97] (.file 0o644 [1])
    (.directory [98] 0o755 (.leaf [120] (.file 0o644 [2]) .nil)
      (.leaf [108] (.symlink [47]) .nil))) .nil

/-- The file system with it, before the first call. -/
def retainedDisk : FileSystem := ⟨retained, 0, 0, []⟩

theorem validUtf8_b : validUtf8 [98] = true := by decide +kernel

theorem check_b : SnapshotPath.check [98] = .ok () := by decide +kernel

def pathB : SnapshotPath := ⟨[98], validUtf8_b, check_b⟩

/-- The path `l/x`. -/
def pathBehindLink : SnapshotPath := ⟨[108, 47, 120], by decide +kernel, by decide +kernel⟩

/-- A scan that has left out the directory and a path that is now behind a link. -/
def excludingScan : Retention.ScannedCheckpoint :=
  ⟨⟨⟨0⟩⟩, .manual, none, ⟨emptySnapshot, [⟨pathB⟩, ⟨pathBehindLink⟩]⟩⟩

/-- The cleanup after this scan. -/
def cleanedUp : Except CaptureError Unit × Retention :=
  exec (Retention.cleanupExclusionsForRetention (env 99) undisturbed [119] [] [119])
    ⟨Retention.accumulate (env 99) codecs [excludingScan] world, retainedDisk⟩

end Sample

theorem cleanup_complete_sample : Sample.cleanedUp.2.world.recorder.excludedPaths = []
    ∧ Retention.Cleaned [[119]] (Retention.Excluded Sample.world [Sample.excludingScan])
      (fun _ => False) Sample.retainedDisk Sample.cleanedUp.2.fs :=
  (Retention.cleanup_complete (fun _ => rfl) (Sample.env 99) Sample.codecs [119] [] [119]
    [Sample.excludingScan] Sample.world List.nodup_nil Sample.retainedDisk
    Prod.mk.eta.symm).1 (by decide +kernel)

end Rewind

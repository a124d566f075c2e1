/-
The dirty-path hints of a run.

The tracker compares each walk of the workspace with the one before it, its baseline.  A
checkpoint makes the walk after it the next baseline, and the child keeps writing all the while:
`Watch` puts the two side by side, one action after the other.

* `DirtyTracker` — the baseline, the pending paths and the times;
* `Watch`, `Watch.step` — the recorder's polls and checkpoints between the writes of the child;
* **`quiet_captured`** — nothing is lost, as long as no write lands between the scan of a
  checkpoint and the walk that makes the next baseline.
-/
import Rewind.Domain.Snapshot
import Rewind.Lib.Runs
import Rewind.Store.Writer

namespace Rewind

/-! ### Walks -/

/-- The metadata of one workspace entry. -/
structure FileStamp where
  kind : UInt8
  mode : UInt32
  size : UInt64
  modifiedSeconds : Int64
  modifiedNanoseconds : Int64
  changedSeconds : Int64
  changedNanoseconds : Int64
  symlinkTarget : Option Bytes
deriving DecidableEq

/-- What a walk of the workspace finds, by path. -/
abbrev Stamps := List (SnapshotPath × FileStamp)

/-- How a walk fails; `entryLimit` is what `is_dirty_scan_limit` recognizes. -/
inductive WalkError where
  | entryLimit (message : String)
  | other (message : String)
deriving DecidableEq

/-- The same entries, with the same metadata. -/
def SameStamps (state state' : Stamps) : Prop := ∀ path, state.lookup path = state'.lookup path

theorem SameStamps.refl (state : Stamps) : SameStamps state state := fun _ => rfl

theorem SameStamps.symm {state state' : Stamps} (h : SameStamps state state') :
    SameStamps state' state := fun path => (h path).symm

theorem SameStamps.trans {state₁ state₂ state₃ : Stamps} (h₁₂ : SameStamps state₁ state₂)
    (h₂₃ : SameStamps state₂ state₃) : SameStamps state₁ state₃ :=
  fun path => (h₁₂ path).trans (h₂₃ path)

/-- The paths the two loops of `observe` find changed: what was there and is not the same, and
what is new. -/
def changedPaths (observed next : Stamps) : List SnapshotPath :=
  (observed.filter fun previous => next.lookup previous.1 ≠ some previous.2).map (·.1)
    ++ (next.filter fun entry => observed.lookup entry.1 = none).map (·.1)

theorem mem_of_lookup {state : Stamps} {path : SnapshotPath} {stamp : FileStamp}
    (h : state.lookup path = some stamp) : (path, stamp) ∈ state := by
  obtain ⟨front, rest, rfl, -⟩ := List.lookup_eq_some_iff.mp h
  exact List.mem_append_right front List.mem_cons_self

/-- Where nothing is found changed, nothing has changed. -/
theorem sameStamps_of_changedPaths {observed next : Stamps} (h : changedPaths observed next = []) :
    SameStamps observed next := by
  obtain ⟨hold, hnew⟩ := List.append_eq_nil_iff.mp h
  intro path
  rcases hobserved : observed.lookup path with _ | stamp
  · -- a path of `next` alone would be a new one
    refine (Option.not_isSome_iff_eq_none.mp fun hsome => ?_).symm
    obtain ⟨stamp, hnext⟩ := Option.isSome_iff_exists.mp hsome
    have hmem : (path, stamp) ∈ next.filter fun entry => observed.lookup entry.1 = none :=
      List.mem_filter.mpr ⟨mem_of_lookup hnext, by simpa using hobserved⟩
    rw [List.map_eq_nil_iff.mp hnew] at hmem
    exact absurd hmem (by simp)
  · by_contra hne
    have hmem : (path, stamp) ∈ observed.filter fun previous =>
        next.lookup previous.1 ≠ some previous.2 :=
      List.mem_filter.mpr ⟨mem_of_lookup hobserved, by simpa using fun heq => hne heq.symm⟩
    rw [List.map_eq_nil_iff.mp hold] at hmem
    exact absurd hmem (by simp)

/-! ### The tracker -/

/-- The options the tracker reads, with what `validate` has checked; durations are in
nanoseconds. -/
structure CheckpointOptions where
  checkpointDebounce : Nat
  checkpointMinInterval : Nat
  checkpointMaxInterval : Nat
  maximumPendingDirtyPaths : Nat
  pending_pos : 0 < maximumPendingDirtyPaths

structure DirtyTracker where
  observed : Stamps
  pending : List SnapshotPath
  lastChange : Option Nat
  lastCheckpoint : Nat
  nextPoll : Nat
  pollInterval : Nat
  maximumPending : Nat
  deferredError : Option WalkError
  disabled : Bool

namespace DirtyTracker

/-- `DirtyTracker::new`, after the walk `walked`. -/
def new (options : CheckpointOptions) (now : Nat) (walked : Except WalkError Stamps) :
    Except WalkError DirtyTracker :=
  let pollInterval := min (max (options.checkpointDebounce / 2) 25000000) 250000000
  let tracker := fun observed deferredError =>
    ({ observed, pending := [], lastChange := none, lastCheckpoint := now,
       nextPoll := now + pollInterval, pollInterval,
       maximumPending := options.maximumPendingDirtyPaths, deferredError,
       disabled := false } : DirtyTracker)
  match walked with
  | .ok state => .ok (tracker state none)
  | .error (.entryLimit message) => .ok (tracker [] (some (.entryLimit message)))
  | .error error => .error error

/-- `poll_due`. -/
def pollDue (tracker : DirtyTracker) (now : Nat) : Bool :=
  !tracker.disabled && tracker.nextPoll ≤ now

/-- The pending paths with one more, and the reported ones with it if it was not pending. -/
def notePath (maximum : Nat) (noted : List SnapshotPath × List SnapshotPath)
    (path : SnapshotPath) : List SnapshotPath × List SnapshotPath :=
  if noted.1.length < maximum ∧ path ∉ noted.1 then (noted.1 ++ [path], noted.2 ++ [path])
  else noted

/-- `observe`, at the time `now`, with the walk it makes. -/
def observe (tracker : DirtyTracker) (now : Nat) (walked : Except WalkError Stamps) :
    Except WalkError (List SnapshotPath) × DirtyTracker :=
  match tracker.deferredError with
  | some error => (.error error, { tracker with deferredError := none, disabled := true })
  | none =>
    let tracker := { tracker with nextPoll := now + tracker.pollInterval }
    match walked with
    | .error (.entryLimit message) => (.error (.entryLimit message),
        { tracker with disabled := true })
    | .error error => (.error error, tracker)
    | .ok next =>
      let changes := changedPaths tracker.observed next
      let noted := changes.foldl (notePath tracker.maximumPending) (tracker.pending, [])
      (.ok noted.2,
        { tracker with
          pending := noted.1
          lastChange := if changes = [] then tracker.lastChange else some now
          observed := next })

/-- `should_checkpoint`. -/
def shouldCheckpoint (tracker : DirtyTracker) (options : CheckpointOptions) (now : Nat) : Bool :=
  tracker.pending ≠ [] ∧
    (options.maximumPendingDirtyPaths ≤ tracker.pending.length
      ∨ options.checkpointMaxInterval ≤ now - tracker.lastCheckpoint
      ∨ (tracker.lastChange.any fun last => options.checkpointDebounce ≤ now - last) = true
        ∧ options.checkpointMinInterval ≤ now - tracker.lastCheckpoint)

/-- `clear_after_checkpoint`, at the time `now`, with the walk it makes unless it is disabled. -/
def clearAfterCheckpoint (tracker : DirtyTracker) (now : Nat) (walked : Except WalkError Stamps) :
    DirtyTracker :=
  let tracker :=
    if tracker.disabled then
      tracker
    else
      match walked with
      | .ok state => { tracker with observed := state }
      | .error (.entryLimit message) =>
        { tracker with deferredError := some (.entryLimit message), nextPoll := now }
      | .error (.other _) => tracker
  { tracker with
    pending := [], lastChange := none, lastCheckpoint := now,
    nextPoll := now + tracker.pollInterval }

/-- A difference between the workspace and `target` is pending, or the next observation finds
it, unless the tracker is disabled or about to be. -/
def Covers (tracker : DirtyTracker) (target : Stamps) : Prop :=
  (tracker.disabled = true ∨ tracker.deferredError.isSome = true)
    ∨ tracker.pending ≠ [] ∨ SameStamps tracker.observed target

end DirtyTracker

/-! ### What the operations of the tracker do -/

section Tracker

variable {tracker : DirtyTracker}

open DirtyTracker

theorem length_le_notePath (maximum : Nat) (noted : List SnapshotPath × List SnapshotPath)
    (path : SnapshotPath) : noted.1.length ≤ (notePath maximum noted path).1.length := by
  unfold notePath
  split
  · rw [List.length_append]
    omega
  · exact Nat.le_refl _

theorem length_le_foldl_notePath (maximum : Nat) (paths : List SnapshotPath)
    (noted : List SnapshotPath × List SnapshotPath) :
    noted.1.length ≤ (paths.foldl (notePath maximum) noted).1.length := by
  induction paths generalizing noted with
  | nil => exact Nat.le_refl _
  | cons path paths ih =>
    have hfirst := length_le_notePath maximum noted path
    have hrest := ih (notePath maximum noted path)
    rw [List.foldl_cons]
    omega

/-- Where something has changed, something is pending. -/
theorem foldl_notePath_ne_nil {maximum : Nat} (hmaximum : 0 < maximum) {paths : List SnapshotPath}
    (hpaths : paths ≠ []) (noted : List SnapshotPath × List SnapshotPath) :
    (paths.foldl (notePath maximum) noted).1 ≠ [] := by
  obtain ⟨path, rest, rfl⟩ := List.exists_cons_of_ne_nil hpaths
  have hrest := length_le_foldl_notePath maximum rest (notePath maximum noted path)
  have hfirst : 0 < (notePath maximum noted path).1.length := by
    unfold notePath
    split
    · rw [List.length_append, List.length_singleton]
      omega
    · next hfull =>
      -- the path was pending already, or as many as there may be
      by_cases hmem : path ∈ noted.1
      · exact List.length_pos_of_mem hmem
      · have hlength : ¬ noted.1.length < maximum := fun hlt => hfull ⟨hlt, hmem⟩
        omega
  rw [List.foldl_cons]
  intro hnil
  rw [hnil, List.length_nil] at hrest
  omega

@[simp] theorem observe_maximumPending (now : Nat) (walked : Except WalkError Stamps) :
    (tracker.observe now walked).2.maximumPending = tracker.maximumPending := by
  unfold observe
  rcases tracker.deferredError with _ | error
  · rcases walked with (_ | _) | next <;> rfl
  · rfl

@[simp] theorem clearAfterCheckpoint_maximumPending (now : Nat)
    (walked : Except WalkError Stamps) :
    (tracker.clearAfterCheckpoint now walked).maximumPending = tracker.maximumPending := by
  unfold clearAfterCheckpoint
  by_cases hdisabled : tracker.disabled = true
  · simp only [hdisabled, if_true]
  · rcases walked with (_ | _) | state <;> simp [hdisabled]

/-- An observation keeps what is covered: a change it finds becomes pending. -/
theorem DirtyTracker.Covers.observe {target : Stamps} (h : tracker.Covers target)
    (hmaximum : 0 < tracker.maximumPending) (now : Nat) (walked : Except WalkError Stamps) :
    (tracker.observe now walked).2.Covers target := by
  unfold DirtyTracker.observe
  rcases hdeferred : tracker.deferredError with _ | error
  · rcases walked with (message | message) | next
    · exact Or.inl (Or.inl rfl)
    · rw [Covers, hdeferred] at h
      exact h
    · simp only
      rcases h with (hdisabled | hsome) | hrest
      · exact Or.inl (Or.inl hdisabled)
      · rw [hdeferred] at hsome
        exact absurd hsome (by simp)
      · refine Or.inr ?_
        by_cases hchanges : changedPaths tracker.observed next = []
        · -- the new baseline is the old one
          have hsame := sameStamps_of_changedPaths hchanges
          rw [hchanges]
          exact hrest.imp_right fun hobserved => hsame.symm.trans hobserved
        · exact Or.inl (foldl_notePath_ne_nil hmaximum hchanges _)
  · exact Or.inl (Or.inl rfl)

/-- A walk that finds `target` makes it the baseline. -/
theorem covers_clearAfterCheckpoint {target : Stamps} (now : Nat)
    {walked : Except WalkError Stamps}
    (hok : ∀ state, walked = .ok state → tracker.disabled = true ∨ SameStamps state target)
    (hother : ∀ message, walked = .error (.other message) →
      tracker.disabled = true ∨ SameStamps tracker.observed target) :
    (tracker.clearAfterCheckpoint now walked).Covers target := by
  unfold clearAfterCheckpoint
  by_cases hdisabled : tracker.disabled = true
  · rw [if_pos hdisabled]
    exact Or.inl (Or.inl hdisabled)
  · rw [if_neg hdisabled]
    rcases walked with (message | message) | state
    · exact Or.inl (Or.inr rfl)
    · exact Or.inr (Or.inr ((hother message rfl).resolve_left hdisabled))
    · exact Or.inr (Or.inr ((hok state rfl).resolve_left hdisabled))

/-- An observation that reports nothing, with nothing pending, has found the baseline. -/
theorem sameStamps_of_observe {now : Nat} {next : Stamps} (hmaximum : 0 < tracker.maximumPending)
    (hpending : tracker.pending = []) (h : (tracker.observe now (.ok next)).1 = .ok []) :
    tracker.deferredError = none ∧ SameStamps tracker.observed next := by
  unfold observe at h
  rcases hdeferred : tracker.deferredError with _ | error
  · refine ⟨rfl, sameStamps_of_changedPaths ?_⟩
    simp only [hdeferred, hpending, Except.ok.injEq] at h
    by_contra hchanges
    obtain ⟨path, rest, hcons⟩ := List.exists_cons_of_ne_nil hchanges
    -- the first change is reported
    have hreported : ∀ (paths : List SnapshotPath) noted, noted.2 ≠ [] →
        (paths.foldl (notePath tracker.maximumPending) noted).2 ≠ [] := by
      intro paths
      induction paths with
      | nil => exact fun _ hnoted => hnoted
      | cons path paths ih =>
        intro noted hnoted
        refine ih _ ?_
        unfold notePath
        split
        · simp
        · exact hnoted
    rw [hcons, List.foldl_cons] at h
    refine hreported rest _ ?_ h
    simp [notePath, hmaximum]
  · simp [hdeferred] at h

end Tracker

/-! ### The recorder and the child -/

section Watching

variable {W S : Type}

/-- What the recorder is doing. -/
inductive Phase (W : Type) where
  | idle
  | scanning
  | committing (scanned : W)
  | clearing
  | stopped

/-- The workspace, the tracker, and the workspace as the scan of the last committed checkpoint
saw it. -/
structure Watch (W : Type) where
  workspace : W
  tracker : DirtyTracker
  phase : Phase W
  committed : W

/-- How a scan ends. -/
inductive ScanEnd where
  | done
  | nonfatal
  | fatal
deriving DecidableEq

/-- What happens next. -/
inductive WatchAction (W : Type) where
  | write (workspace : W)
  | poll (now later : Nat) (failure : Option WalkError)
  | marker
  | scan (result : ScanEnd)
  | commit (accepted : Bool)
  | clear (now : Nat) (failure : Option WalkError)
  | stop

section Watch

variable (walk : W → Stamps) (options : CheckpointOptions)

/-- `workspace_state`. -/
def workspaceState (workspace : W) : Option WalkError → Except WalkError Stamps
  | none => .ok (walk workspace)
  | some error => .error error

/-- `poll_workspace`, until the scan of a checkpoint that is due. -/
def Watch.poll (w : Watch W) (now later : Nat) (failure : Option WalkError) : Watch W :=
  let observed := w.tracker.observe now (workspaceState walk w.workspace failure)
  match observed.1 with
  | .ok _ =>
    { w with
      tracker := observed.2
      phase := if observed.2.shouldCheckpoint options later then .scanning else .idle }
  | .error _ => { w with tracker := observed.2 }

/-- One action; one that does not fit the phase does nothing. -/
def Watch.step (w : Watch W) : WatchAction W → Watch W
  | .write workspace => { w with workspace }
  | .poll now later failure =>
    match w.phase with
    | .idle => if w.tracker.pollDue now then w.poll walk options now later failure else w
    | _ => w
  | .marker =>
    match w.phase with
    | .idle => { w with phase := .scanning }
    | _ => w
  | .scan result =>
    match w.phase with
    | .scanning =>
      { w with
        phase := match result with
          | .done => .committing w.workspace
          | .nonfatal => .idle
          | .fatal => .stopped }
    | _ => w
  | .commit accepted =>
    match w.phase with
    | .committing scanned =>
      if accepted then { w with phase := .clearing, committed := scanned }
      else { w with phase := .stopped }
    | _ => w
  | .clear now failure =>
    match w.phase with
    | .clearing =>
      { w with
        phase := .idle
        tracker := w.tracker.clearAfterCheckpoint now (workspaceState walk w.workspace failure) }
    | _ => w
  | .stop => { w with phase := .stopped }

/-- The watch after the initial checkpoint, before the child is started. -/
def Watch.start (workspace : W) (tracker : DirtyTracker) : Watch W :=
  ⟨workspace, tracker, .idle, workspace⟩

/-- The recorder is between two polls, nothing is pending, and a next observation would report
nothing. -/
def Watch.Quiet (w : Watch W) : Prop :=
  w.phase = .idle ∧ w.tracker.disabled = false ∧ w.tracker.pending = []
    ∧ ∃ now, (w.tracker.observe now (.ok (walk w.workspace))).1 = .ok []

/-- What a step needs: the walk after a checkpoint sees what its scan saw; where the walk fails,
the baseline is what the scan saw, unless no baseline is used any more. -/
def ClearsAsScanned (w : Watch W) : WatchAction W → Prop
  | .clear _ failure =>
    match w.phase, failure with
    | .clearing, none =>
      w.tracker.disabled = true ∨ SameStamps (walk w.workspace) (walk w.committed)
    | .clearing, some (.entryLimit _) => True
    | .clearing, some (.other _) =>
      w.tracker.disabled = true ∨ SameStamps w.tracker.observed (walk w.committed)
    | _, _ => True
  | _ => True

/-! ### The invariant -/

/-- Outside of a clearing, the tracker covers what has changed since the last checkpoint. -/
structure Watch.Guarded (w : Watch W) : Prop where
  maximum : 0 < w.tracker.maximumPending
  covers : w.phase = .clearing ∨ w.phase = .stopped ∨ w.tracker.Covers (walk w.committed)

variable {walk options}

theorem Watch.poll_tracker (w : Watch W) (now later : Nat) (failure : Option WalkError) :
    (w.poll walk options now later failure).tracker
      = (w.tracker.observe now (workspaceState walk w.workspace failure)).2 := by
  simp only [Watch.poll]
  split <;> rfl

theorem Watch.poll_committed (w : Watch W) (now later : Nat) (failure : Option WalkError) :
    (w.poll walk options now later failure).committed = w.committed := by
  simp only [Watch.poll]
  split <;> rfl

theorem Watch.Guarded.poll {w : Watch W} (h : w.Guarded walk) (now later : Nat)
    (failure : Option WalkError) (hphase : w.phase = .idle) :
    (w.poll walk options now later failure).Guarded walk := by
  have hcovers : w.tracker.Covers (walk w.committed) := by
    rcases h.covers with hclearing | hstopped | hcovers
    · rw [hphase] at hclearing
      exact absurd hclearing (by simp)
    · rw [hphase] at hstopped
      exact absurd hstopped (by simp)
    · exact hcovers
  refine ⟨?_, Or.inr (Or.inr ?_)⟩
  · rw [Watch.poll_tracker, observe_maximumPending]
    exact h.maximum
  · rw [Watch.poll_tracker, Watch.poll_committed]
    exact hcovers.observe h.maximum now _

/-- **The step lemma**: by cases on the action, and on the phase it needs. -/
theorem Watch.Guarded.step {w : Watch W} (h : w.Guarded walk) {action : WatchAction W}
    (hok : ClearsAsScanned walk w action) : (w.step walk options action).Guarded walk := by
  cases action with
  | write workspace => exact ⟨h.maximum, h.covers⟩
  | poll now later failure =>
    unfold Watch.step
    rcases hphase : w.phase with _ | _ | _ | _ | _
    case idle =>
      by_cases hdue : w.tracker.pollDue now = true
      · simp only [hdue, if_true]
        exact h.poll now later failure hphase
      · simp only [hdue, Bool.false_eq_true, if_false]
        exact h
    all_goals exact h
  | marker =>
    unfold Watch.step
    rcases hphase : w.phase with _ | _ | _ | _ | _
    case idle =>
      refine ⟨h.maximum, Or.inr (Or.inr ?_)⟩
      have hcovers := h.covers
      rw [hphase] at hcovers
      simpa using hcovers
    all_goals exact h
  | scan result =>
    unfold Watch.step
    rcases hphase : w.phase with _ | _ | _ | _ | _
    case scanning =>
      refine ⟨h.maximum, Or.inr (Or.inr ?_)⟩
      have hcovers := h.covers
      rw [hphase] at hcovers
      simpa using hcovers
    all_goals exact h
  | commit accepted =>
    unfold Watch.step
    rcases hphase : w.phase with _ | _ | scanned | _ | _
    case committing =>
      cases accepted with
      | true => exact ⟨h.maximum, Or.inl rfl⟩
      | false => exact ⟨h.maximum, Or.inr (Or.inl rfl)⟩
    all_goals exact h
  | clear now failure =>
    unfold Watch.step
    rcases hphase : w.phase with _ | _ | scanned | _ | _
    case clearing =>
      -- the new baseline is what the scan saw
      simp only [ClearsAsScanned, hphase] at hok
      refine ⟨?_, Or.inr (Or.inr (covers_clearAfterCheckpoint now ?_ ?_))⟩
      · rw [clearAfterCheckpoint_maximumPending]
        exact h.maximum
      · intro state hwalked
        rcases failure with _ | error
        · obtain rfl := Except.ok.inj hwalked
          exact hok
        · exact absurd hwalked (by simp [workspaceState])
      · intro message hwalked
        rcases failure with _ | error
        · exact absurd hwalked (by simp [workspaceState])
        · obtain rfl := Except.error.inj hwalked
          exact hok
    all_goals exact h
  | stop => exact ⟨h.maximum, Or.inr (Or.inl rfl)⟩

/-- The first baseline is the workspace of the initial checkpoint. -/
theorem guarded_start {workspace : W} {now : Nat} {failure : Option WalkError}
    {tracker : DirtyTracker}
    (hnew : DirtyTracker.new options now (workspaceState walk workspace failure) = .ok tracker) :
    (Watch.start workspace tracker).Guarded walk := by
  rcases failure with _ | (message | message)
  · obtain rfl := Except.ok.inj hnew
    exact ⟨options.pending_pos, Or.inr (Or.inr (Or.inr (Or.inr (SameStamps.refl _))))⟩
  · obtain rfl := Except.ok.inj hnew
    exact ⟨options.pending_pos, Or.inr (Or.inr (Or.inl (Or.inr rfl)))⟩
  · exact absurd hnew (by simp [DirtyTracker.new, workspaceState])

/-- Where all is quiet, the last checkpoint has scanned what there is now. -/
theorem Watch.Guarded.sameStamps {w : Watch W} (h : w.Guarded walk) (hquiet : w.Quiet walk) :
    SameStamps (walk w.committed) (walk w.workspace) := by
  obtain ⟨hphase, hdisabled, hpending, now, hobserve⟩ := hquiet
  obtain ⟨hdeferred, hsame⟩ := sameStamps_of_observe h.maximum hpending hobserve
  rcases h.covers with hclearing | hstopped | hcovers
  · rw [hphase] at hclearing
    exact absurd hclearing (by simp)
  · rw [hphase] at hstopped
    exact absurd hstopped (by simp)
  · rcases hcovers with (htrue | hsome) | hne | hbaseline
    · rw [hdisabled] at htrue
      exact absurd htrue (by simp)
    · rw [hdeferred] at hsome
      exact absurd hsome (by simp)
    · exact absurd hpending hne
    · exact hbaseline.symm.trans hsame

end Watch

/-! ### No update is lost -/

/-- **The dirty tracker loses no update**, where each write changes the metadata of the workspace
and no write lands between the scan of a checkpoint and the walk that makes the next baseline:
whenever nothing is pending and a next observation would report nothing, the last committed
checkpoint has captured what there is now. -/
theorem quiet_captured (walk : W → Stamps) (content : W → S)
    (hwrites : ∀ w w', SameStamps (walk w) (walk w') → content w = content w')
    (options : CheckpointOptions) (workspace : W) (now : Nat) (failure : Option WalkError)
    (tracker : DirtyTracker)
    (hnew : DirtyTracker.new options now (workspaceState walk workspace failure) = .ok tracker)
    (actions : List (WatchAction W))
    (hclears : Machine.Meets (Watch.step walk options) (ClearsAsScanned walk)
      (Watch.start workspace tracker) actions)
    (hquiet : (Machine.run (Watch.step walk options) (Watch.start workspace tracker)
      actions).Quiet walk) :
    content (Machine.run (Watch.step walk options) (Watch.start workspace tracker)
        actions).committed
      = content (Machine.run (Watch.step walk options) (Watch.start workspace tracker)
        actions).workspace := by
  have hguarded := Machine.run_invariant_of_meets (I := Watch.Guarded walk)
    (fun w action hw hok => hw.step hok) (guarded_start hnew) hclears
  exact hwrites _ _ (hguarded.sameStamps hquiet)

end Watching

namespace Sample

/-- A file `a`, before and after it is written. -/
def oneFile (written : Bool) : Stamps :=
  [(⟨utf8 "a", by decide, by decide⟩,
    ⟨1, 0o644, 1, if written then 1 else 0, 0, if written then 1 else 0, 0, none⟩)]

theorem oneFile_injective (w w' : Bool) (h : SameStamps (oneFile w) (oneFile w')) : w = w' := by
  have hlookup := h ⟨utf8 "a", by decide, by decide⟩
  revert hlookup
  cases w <;> cases w' <;> decide

def checkpointOptions : CheckpointOptions :=
  ⟨750000000, 2000000000, 60000000000, 10000, by decide⟩

/-- The tracker of a workspace with the file `a`. -/
def dirtyTracker : DirtyTracker :=
  ⟨oneFile false, [], none, 0, 250000000, 250000000, 10000, none, false⟩

/-- The write is observed, and a checkpoint captures it when the workspace has been quiet. -/
def observedWrite : List (WatchAction Bool) :=
  [.write true, .poll 250000000 250000000 none, .poll 2000000000 2000000000 none, .scan .done,
    .commit true, .clear 2000000000 none]

/-- The write lands after the scan of a marker's checkpoint. -/
def lateWrite : List (WatchAction Bool) :=
  [.marker, .scan .done, .write true, .commit true, .clear 0 none]

end Sample

theorem quiet_captured_observed :
    (Machine.run (Watch.step Sample.oneFile Sample.checkpointOptions)
        (Watch.start false Sample.dirtyTracker) Sample.observedWrite).committed
      = (Machine.run (Watch.step Sample.oneFile Sample.checkpointOptions)
        (Watch.start false Sample.dirtyTracker) Sample.observedWrite).workspace :=
  quiet_captured Sample.oneFile id Sample.oneFile_injective Sample.checkpointOptions false 0 none
    Sample.dirtyTracker rfl Sample.observedWrite
    ⟨trivial, trivial, trivial, trivial, trivial, Or.inr (SameStamps.refl _), trivial⟩
    ⟨rfl, rfl, rfl, 0, by decide⟩

/-- The write that lands after the scan is in the next baseline, and is never reported. -/
theorem not_always_captured :
    ¬ ∀ (W S : Type) (walk : W → Stamps) (content : W → S),
      (∀ w w', SameStamps (walk w) (walk w') → content w = content w') →
      ∀ (options : CheckpointOptions) (workspace : W) (now : Nat) (failure : Option WalkError)
        (tracker : DirtyTracker),
      DirtyTracker.new options now (workspaceState walk workspace failure) = .ok tracker →
      ∀ actions : List (WatchAction W),
      (Machine.run (Watch.step walk options) (Watch.start workspace tracker) actions).Quiet walk →
      content (Machine.run (Watch.step walk options) (Watch.start workspace tracker)
          actions).committed
        = content (Machine.run (Watch.step walk options) (Watch.start workspace tracker)
          actions).workspace := by
  intro hall
  have hcaptured := hall Bool Bool Sample.oneFile id Sample.oneFile_injective
    Sample.checkpointOptions false 0 none Sample.dirtyTracker rfl Sample.lateWrite
    ⟨rfl, rfl, rfl, 0, by decide⟩
  exact absurd hcaptured (by decide)

end Rewind

/-
The processes of a run, as its events tell of them.

The coordinator compares each snapshot of the process tree with the processes that it knows of.
A process that is new is observed, and one that is not there any more has exited; the root exits
with the child, and not by a snapshot.  A process identifier may come back, as another process.

* `World.emitted` — what the recorder has emitted, durable or in the buffer;
* `Tracked` — the events so far, and the processes that are known;
* **`processes_alternate`** — the events of a process take turns, and tell at each snapshot which
  processes there are.
-/
import Rewind.Capture.Input
import Rewind.Capture.Effects
import Mathlib.Data.List.Chain

namespace Rewind

open Call

/-! ### What has been emitted -/

/-- The payloads of the events of a run, the durable ones and those in the buffer. -/
def World.emitted (w : World) : List EventPayload :=
  (w.db.eventsOf w.recorder.runId).map (·.payload) ++ w.recorder.pending.map (·.payload)

/-- The recorder of a run has emitted the log. -/
structure Logged (runId : RunId) (log : List EventPayload) (w : World) : Prop where
  owner : w.recorder.runId = runId
  sequencer : w.recorder.sequencer.runId = runId
  owned : ∀ event ∈ w.recorder.pending, event.runId = runId
  emitted : w.emitted = log

theorem Numbering.logged {runId : RunId} {w : World} (h : Numbering runId w) :
    Logged runId w.emitted w where
  owner := h.runId
  sequencer := h.sequencer.trans h.runId
  owned event hevent := (h.owned event hevent).trans h.runId
  emitted := rfl

section Logs

variable {env : Env} {runId : RunId} {log : List EventPayload}

/-- A numbered event is queued behind the others. -/
theorem Logged.queue {w : World} {payload : EventPayload} {event : Event} {sequencer : Sequencer}
    (hw : Logged runId log w) (hnumbered : Numbered w.recorder.sequencer payload event sequencer) :
    Logged runId (log ++ [payload]) (w.queue event sequencer) where
  owner := hw.owner
  sequencer := hnumbered.runId'.trans hw.sequencer
  owned queued hqueued := by
    rcases List.mem_append.mp hqueued with hbefore | hnew
    · exact hw.owned queued hbefore
    · rw [List.mem_singleton.mp hnew]
      exact hnumbered.runId.trans hw.sequencer
  emitted := by
    have hbefore : (w.db.eventsOf w.recorder.runId).map (·.payload)
        ++ w.recorder.pending.map (·.payload) = log := hw.emitted
    show (w.db.eventsOf w.recorder.runId).map (·.payload)
      ++ (w.recorder.pending ++ [event]).map (·.payload) = log ++ [payload]
    rw [List.map_append, ← List.append_assoc, hbefore, List.map_singleton, hnumbered.payload]

/-- A flush moves events from the buffer to the store. -/
theorem keepsLogged_flush : Keeps (Logged runId log) (Recorder.flush env) := by
  refine spec_get_bind fun w hw => ?_
  refine spec_ite (fun _ => spec_pure fun t ht => ht ▸ hw) fun _ => ?_
  refine spec_bind
    (Q := fun _ t => Logged runId log { t with recorder := { t.recorder with pending := [] } })
    (spec_transact ?_ ?_) fun _ => spec_modify fun t ht => ht
  · rintro t db rfl hok
    obtain ⟨rfl, -⟩ := appendEventBatchIn_ok hok
    refine ⟨hw.owner, hw.sequencer, fun _ hmem => absurd hmem List.not_mem_nil, ?_⟩
    have hfilter : t.recorder.pending.filter (fun event => decide (event.runId = t.recorder.runId))
        = t.recorder.pending :=
      List.filter_eq_self.mpr fun event hevent =>
        decide_eq_true ((hw.owned event hevent).trans hw.owner.symm)
    show ((t.db.withEvents t.recorder.pending).eventsOf t.recorder.runId).map (·.payload) ++ []
      = log
    rw [Db.eventsOf_withEvents, hfilter, List.append_nil, List.map_append, List.map_map,
      ← hw.emitted]
    rfl
  · rintro t rfl
    exact ⟨hw.owner, hw.sequencer, hw.owned, hw.emitted⟩

/-- An event that is emitted is the last of the log. -/
theorem spec_emitLogged (payload : EventPayload) :
    Spec (Logged runId log) (Recorder.emit env payload) (fun _ => Logged runId (log ++ [payload]))
      (fun _ => True) := by
  have hqueue : Spec (Logged runId log) (Recorder.queueEvent env payload)
      (fun _ => Logged runId (log ++ [payload])) (Logged runId log) :=
    Effects.spec_queueEvent_of_tick
      (fun _ hw => ⟨hw.owner, hw.sequencer, hw.owned, hw.emitted⟩) fun _ _ _ hw hnumbered =>
      hw.queue hnumbered
  exact (spec_emit hqueue keepsLogged_flush).imp (fun _ hw => hw) (fun _ _ hw => hw)
    fun _ _ => trivial

end Logs

namespace Supervision

/-! ### The life of a process -/

/-- The process that an event tells of, and whether it was observed or has exited. -/
def lifecycle? : EventPayload → Option (ProcessId × Bool)
  | .processObserved observation => some (observation.processId, true)
  | .processExited processId _ => some (processId, false)
  | _ => none

/-- What the events tell of a process, from the first on. -/
def lifecycle (processId : ProcessId) (log : List EventPayload) : List Bool :=
  ((log.filterMap lifecycle?).filter (·.1 = processId)).map (·.2)

/-- The process is observed and exits in turns, and observed first. -/
def Alternates (history : List Bool) : Prop := (false :: history).IsChain (· ≠ ·)

/-- The process has been observed, and has not exited since. -/
def Alive (processId : ProcessId) (log : List EventPayload) : Prop :=
  (lifecycle processId log).getLast? = some true

variable {processId processId' : ProcessId} {log log' : List EventPayload}

theorem lifecycle_append :
    lifecycle processId (log ++ log') = lifecycle processId log ++ lifecycle processId log' := by
  rw [lifecycle, List.filterMap_append, List.filter_append, List.map_append]
  rfl

/-- An event about the process is the last of its life. -/
theorem lifecycle_concat {payload : EventPayload} {observed : Bool}
    (hpayload : lifecycle? payload = some (processId, observed)) :
    lifecycle processId (log ++ [payload]) = lifecycle processId log ++ [observed] := by
  rw [lifecycle_append]
  congr 1
  rw [lifecycle, List.filterMap_cons_some hpayload, List.filter_cons_of_pos (by simp)]
  rfl

/-- An event about another process, or about none. -/
theorem lifecycle_concat_other {payload : EventPayload}
    (hpayload : ∀ observed, lifecycle? payload ≠ some (processId, observed)) :
    lifecycle processId (log ++ [payload]) = lifecycle processId log := by
  rw [lifecycle_append]
  have hnone : lifecycle processId [payload] = [] := by
    rw [lifecycle]
    rcases hlife : lifecycle? payload with _ | ⟨other, observed⟩
    · rw [List.filterMap_cons_none hlife]
      rfl
    · have hne : other ≠ processId := fun heq => hpayload observed (heq ▸ hlife)
      rw [List.filterMap_cons_some hlife, List.filter_cons_of_neg (by simpa using hne)]
      rfl
  rw [hnone, List.append_nil]

theorem alternates_concat {history : List Bool} {observed : Bool} (h : Alternates history)
    (hnext : history.getLast? = some true ↔ observed = false) :
    Alternates (history ++ [observed]) := by
  rw [Alternates, ← List.cons_append]
  refine h.append (List.IsChain.singleton _) ?_
  intro last hlast next hmem
  obtain rfl : observed = next := Option.some.inj hmem
  -- a process without events counts as one that is not there
  rw [List.getLast?_cons] at hlast
  obtain rfl : history.getLast?.getD false = last := Option.some.inj hlast
  rcases hstate : history.getLast? with _ | _ | _ <;> rw [hstate] at hnext <;> cases observed <;>
    simp_all

/-- The events so far, and the processes that are known by them. -/
structure Tracked (rootPid : ProcessId) (log : List EventPayload) (observed : List ProcessId) :
    Prop where
  alternates : ∀ processId, Alternates (lifecycle processId log)
  alive : ∀ processId, processId ∈ observed ↔ Alive processId log
  root : false ∉ lifecycle rootPid log

variable {rootPid : ProcessId} {observed observed' : List ProcessId}

theorem tracked_nil : Tracked rootPid [] [] where
  alternates _ := List.IsChain.singleton _
  alive _ := by simp [Alive, lifecycle]
  root := by simp [lifecycle]

/-- An event about no process. -/
theorem Tracked.other {payload : EventPayload} (h : Tracked rootPid log observed)
    (hpayload : lifecycle? payload = none) : Tracked rootPid (log ++ [payload]) observed := by
  have hsame : ∀ processId, lifecycle processId (log ++ [payload]) = lifecycle processId log :=
    fun _ => lifecycle_concat_other fun _ hsome => absurd (hpayload.symm.trans hsome) (by simp)
  refine ⟨fun processId => ?_, fun processId => ?_, ?_⟩
  · rw [hsame]
    exact h.alternates processId
  · rw [h.alive, Alive, Alive, hsame]
  · rw [hsame]
    exact h.root

/-- A process that was not known is observed, or one that was known exits. -/
theorem Tracked.concat {payload : EventPayload} {present : Bool} (h : Tracked rootPid log observed)
    (hpayload : lifecycle? payload = some (processId, present))
    (hknown : processId ∈ observed ↔ present = false)
    (hobserved : ∀ p, p ∈ observed' ↔ if p = processId then present = true else p ∈ observed)
    (hroot : present = false → processId ≠ rootPid) :
    Tracked rootPid (log ++ [payload]) observed' := by
  have hother : ∀ p, p ≠ processId → lifecycle p (log ++ [payload]) = lifecycle p log := by
    intro p hp
    refine lifecycle_concat_other fun _ hsome => hp ?_
    rw [hpayload] at hsome
    exact (congrArg Prod.fst (Option.some.inj hsome)).symm
  refine ⟨fun p => ?_, fun p => ?_, ?_⟩
  · by_cases hp : p = processId
    · rw [hp, lifecycle_concat hpayload]
      refine alternates_concat (h.alternates processId) ?_
      rw [← hknown]
      exact (h.alive processId).symm
    · rw [hother p hp]
      exact h.alternates p
  · rw [hobserved]
    by_cases hp : p = processId
    · rw [if_pos hp, hp, Alive, lifecycle_concat hpayload, List.getLast?_concat, Option.some.injEq]
    · rw [if_neg hp, h.alive, Alive, Alive, hother p hp]
  · by_cases hp : rootPid = processId
    · have hpresent : present = true := by
        cases present with
        | true => rfl
        | false => exact absurd hp.symm (hroot rfl)
      rw [hp, lifecycle_concat hpayload, hpresent]
      have hbefore := h.root
      rw [hp] at hbefore
      simp [hbefore]
    · rw [hother _ hp]
      exact h.root

/-! ### A snapshot -/

/-- The processes of a snapshot, without those that have no number. -/
def present (processes : List ProcessInfo) : List ProcessId :=
  processes.filterMap fun process => processId? process.pid

/-- The processes that are known after a snapshot, where `known` were known before; the root is not
forgotten. -/
def knownAfter (rootPid : ProcessId) (known : ProcessId → Prop) :
    Except String (List ProcessInfo) → ProcessId → Prop
  | .error _, processId => known processId
  | .ok processes, processId =>
    processId ∈ present processes ∨ processId = rootPid ∧ known processId

/-- A coordinator whose recorder had emitted `before`; it has not failed, and knows the processes
`known` by the events that it has emitted since. -/
structure Watching (runId : RunId) (rootPid : ProcessId) (before : List EventPayload)
    (known : ProcessId → Prop) (s : Supervisor) : Prop where
  root : s.rootPid = rootPid
  running : s.ended = none
  nodup : s.observedProcesses.Nodup
  known : ∀ processId, processId ∈ s.observedProcesses ↔ known processId
  logged : ∃ log, Logged runId (before ++ log) s.world ∧ Tracked rootPid log s.observedProcesses

section Snapshots

variable {env : Env} {runId : RunId} {before : List EventPayload} {known : ProcessId → Prop}

/-- An event about a process, once the coordinator has noted it. -/
theorem spec_emitProcess {payload : EventPayload} {isPresent : Bool}
    {f : Supervisor → List ProcessId} {known' : ProcessId → Prop}
    (hpayload : lifecycle? payload = some (processId, isPresent))
    (hknown : known processId ↔ isPresent = false)
    (hroot : isPresent = false → processId ≠ rootPid)
    (hnodup : ∀ s, Watching runId rootPid before known s → (f s).Nodup)
    (hmem : ∀ s p, Watching runId rootPid before known s →
      (p ∈ f s ↔ if p = processId then isPresent = true else p ∈ s.observedProcesses))
    (hknown' : ∀ p, known' p ↔ if p = processId then isPresent = true else known p) :
    Spec (Watching runId rootPid before known)
      (do
        modify fun s => { s with observedProcesses := f s }
        recorder (discard (Recorder.emit env payload)))
      (fun _ => Watching runId rootPid before known') (fun _ => True) := by
  intro s hs
  obtain ⟨log, hlogged, htracked⟩ := hs.logged
  have hemit : Spec (Logged runId (before ++ log)) (discard (Recorder.emit env payload))
      (fun _ => Logged runId (before ++ log ++ [payload])) (fun _ => True) :=
    spec_bind (spec_emitLogged payload) fun _ => spec_pure fun _ hw => hw
  have hends := hemit s.world hlogged
  rw [exec_bind_ok (exec_modify _ _)]
  have hrecorder : exec (recorder (discard (Recorder.emit env payload)))
      { s with observedProcesses := f s }
        = ((exec (discard (Recorder.emit env payload)) s.world).1,
          { s with
            observedProcesses := f s
            world := (exec (discard (Recorder.emit env payload)) s.world).2 }) := rfl
  rw [hrecorder]
  rcases hexec : exec (discard (Recorder.emit env payload)) s.world with ⟨error | _, w⟩
  · trivial
  · rw [hexec] at hends
    refine ⟨hs.root, hs.running, hnodup s hs, fun p => ?_, log ++ [payload], ?_, ?_⟩
    · show p ∈ f s ↔ _
      rw [hmem s p hs, hknown']
      split
      · rfl
      · exact hs.known p
    · rw [← List.append_assoc]
      exact hends
    · exact htracked.concat hpayload ((hs.known processId).trans hknown)
        (fun p => hmem s p hs) hroot

/-- A warning. -/
theorem spec_warningOther (code : RecorderWarningCode) (message : String) :
    Spec (Watching runId rootPid before known) (recorder (Recorder.warning env code message))
      (fun _ => Watching runId rootPid before known) (fun _ => True) := by
  intro s hs
  obtain ⟨log, hlogged, htracked⟩ := hs.logged
  have hemit : Spec (Logged runId (before ++ log)) (Recorder.warning env code message)
      (fun _ => Logged runId (before ++ log ++ [.recorderWarning ⟨code, sanitizeText message⟩]))
      (fun _ => True) :=
    spec_bind (spec_emitLogged _) fun _ => spec_pure fun _ hw => hw
  have hends := hemit s.world hlogged
  have hrecorder : exec (recorder (Recorder.warning env code message)) s
      = ((exec (Recorder.warning env code message) s.world).1,
        { s with world := (exec (Recorder.warning env code message) s.world).2 }) := rfl
  rw [hrecorder]
  rcases hexec : exec (Recorder.warning env code message) s.world with ⟨error | _, w⟩
  · trivial
  · rw [hexec] at hends
    refine ⟨hs.root, hs.running, hs.nodup, hs.known,
      log ++ [.recorderWarning ⟨code, sanitizeText message⟩], ?_, htracked.other rfl⟩
    rw [← List.append_assoc]
    exact hends

/-- A process of the snapshot. -/
theorem spec_observeProcess (process : ProcessInfo) (processId : ProcessId) :
    Spec (Watching runId rootPid before known) (observeProcess env process processId)
      (fun _ => Watching runId rootPid before fun p => known p ∨ p = processId)
      (fun _ => True) := by
  refine spec_get_bind fun s hs => ?_
  refine Spec.imp (P := Watching runId rootPid before known) ?_ (fun t ht => ht ▸ hs)
    (fun _ _ ht => ht) fun _ ht => ht
  refine spec_ite (fun hmem => spec_pure fun t ht => ?_) fun hnew => ?_
  · refine ⟨ht.root, ht.running, ht.nodup, fun p => ?_, ht.logged⟩
    rw [ht.known]
    refine ⟨Or.inl, fun h => h.elim id fun heq => ?_⟩
    rw [heq]
    exact (hs.known processId).mp hmem
  · have hnew' : ¬known processId := fun hknown => hnew ((hs.known processId).mpr hknown)
    refine spec_emitProcess (show lifecycle? _ = some (processId, true) from rfl)
      (by simp [hnew']) (by simp) (fun t ht => ?_) (fun t p ht => ?_) fun p => ?_
    · have habsent : processId ∉ t.observedProcesses := fun hmem =>
        hnew' ((ht.known processId).mp hmem)
      exact (List.perm_orderedInsert _ _ _).nodup_iff.mpr (List.nodup_cons.mpr ⟨habsent, ht.nodup⟩)
    · rw [List.mem_orderedInsert]
      by_cases hp : p = processId
      · simp [hp]
      · simp [hp]
    · by_cases hp : p = processId
      · simp [hp]
      · simp [hp]

/-- A process that is not in the snapshot. -/
theorem spec_processGone (processId : ProcessId) (hknown : known processId)
    (hroot : processId ≠ rootPid) :
    Spec (Watching runId rootPid before known) (processGone env processId)
      (fun _ => Watching runId rootPid before fun p => known p ∧ p ≠ processId)
      (fun _ => True) := by
  refine spec_emitProcess (show lifecycle? _ = some (processId, false) from rfl)
    (by simp [hknown]) (fun _ => hroot) (fun t ht => ht.nodup.filter _) (fun t p ht => ?_) fun p =>
      ?_
  · rw [List.mem_filter]
    by_cases hp : p = processId
    · simp [hp]
    · simp [hp]
  · by_cases hp : p = processId
    · simp [hp]
    · simp [hp]

theorem Watching.congr {known' : ProcessId → Prop} {s : Supervisor}
    (h : Watching runId rootPid before known s) (hknown : ∀ p, known p ↔ known' p) :
    Watching runId rootPid before known' s :=
  ⟨h.root, h.running, h.nodup, fun p => (h.known p).trans (hknown p), h.logged⟩

/-- The first loop: the processes of the snapshot are known. -/
theorem spec_observeAll (processes : List ProcessInfo) :
    Spec (Watching runId rootPid before known)
      (processes.forM fun process =>
        match processId? process.pid with
        | none => return ()
        | some processId => observeProcess env process processId)
      (fun _ => Watching runId rootPid before fun p => known p ∨ p ∈ present processes)
      (fun _ => True) := by
  induction processes generalizing known with
  | nil => exact spec_pure fun s hs => hs.congr fun p => by simp [present]
  | cons process rest ih =>
    show Spec _ ((match processId? process.pid with
      | none => return ()
      | some processId => observeProcess env process processId) >>= fun _ => rest.forM _) _ _
    cases hid : processId? process.pid with
    | none =>
      have hpresent : present (process :: rest) = present rest := List.filterMap_cons_none hid
      rw [hpresent]
      exact spec_bind (Q := fun _ => Watching runId rootPid before known) (spec_pure fun _ hs => hs)
        fun _ => ih
    | some processId =>
      have hpresent : present (process :: rest) = processId :: present rest :=
        List.filterMap_cons_some hid
      refine spec_bind (spec_observeProcess process processId) fun _ => ?_
      refine ih.imp (fun _ hs => hs) (fun _ s hs => hs.congr fun p => ?_) fun _ hs => hs
      rw [hpresent, List.mem_cons, or_assoc]

/-- The second loop: the processes that are gone have exited. -/
theorem spec_exitAll (gone : List ProcessId) (hnodup : gone.Nodup)
    (hgone : ∀ processId ∈ gone, known processId ∧ processId ≠ rootPid) :
    Spec (Watching runId rootPid before known) (gone.forM (processGone env))
      (fun _ => Watching runId rootPid before fun p => known p ∧ p ∉ gone) (fun _ => True) := by
  induction gone generalizing known with
  | nil => exact spec_pure fun s hs => hs.congr fun p => by simp
  | cons processId rest ih =>
    obtain ⟨hfirst, hrest⟩ := List.nodup_cons.mp hnodup
    obtain ⟨hknown, hroot⟩ := hgone processId List.mem_cons_self
    refine spec_bind (spec_processGone processId hknown hroot) fun _ => ?_
    refine (ih hrest fun p hp => ?_).imp (fun _ hs => hs) (fun _ s hs => hs.congr fun p => ?_)
      fun _ hs => hs
    · -- the list is free of duplicates, so what is left is still known
      obtain ⟨hknown', hroot'⟩ := hgone p (List.mem_cons_of_mem _ hp)
      exact ⟨⟨hknown', fun heq => hfirst (heq ▸ hp)⟩, hroot'⟩
    · rw [List.mem_cons, not_or, and_assoc]

/-- **A snapshot.**  Unless an event cannot be emitted, the coordinator knows the processes of the
snapshot afterwards, and the root if it was known. -/
theorem spec_recordProcesses (result : Except String (List ProcessInfo)) :
    Spec (Watching runId rootPid before known) (recordProcesses env result)
      (fun _ => Watching runId rootPid before (knownAfter rootPid known result))
      (fun _ => True) := by
  cases result with
  | error message =>
    refine spec_get_bind fun s hs => ?_
    refine Spec.imp (P := Watching runId rootPid before known) ?_ (fun t ht => ht ▸ hs)
      (fun _ _ ht => ht) fun _ ht => ht
    refine spec_ite (fun _ => spec_pure fun _ ht => ht) fun _ => ?_
    refine spec_bind (Q := fun _ => Watching runId rootPid before known) ?_ fun _ =>
      spec_modify fun t ht => ⟨ht.root, ht.running, ht.nodup, ht.known, ht.logged⟩
    exact spec_warningOther _ _
  | ok processes =>
    refine spec_bind (spec_observeAll processes) fun _ => spec_get_bind fun s hs => ?_
    have hgone : ∀ p, p ∈ s.observedProcesses.filter
        (fun id => id ≠ s.rootPid ∧ id ∉ processes.filterMap fun process => processId? process.pid)
          ↔ (known p ∨ p ∈ present processes) ∧ p ≠ rootPid ∧ p ∉ present processes := by
      intro p
      rw [List.mem_filter, hs.known, hs.root, decide_eq_true_iff]
      rfl
    refine ((spec_exitAll _ (hs.nodup.filter _) fun p hp => ?_).imp (fun t ht => ht ▸ hs)
      (fun _ t ht => ht.congr fun p => ?_) fun _ ht => ht)
    · obtain ⟨hknown, hroot, -⟩ := (hgone p).mp hp
      exact ⟨hknown, hroot⟩
    · rw [hgone, knownAfter]
      by_cases hpresent : p ∈ present processes
      · simp [hpresent]
      · by_cases hp : p = rootPid
        · subst hp
          simp [hpresent]
        · simp [hpresent, hp]

end Snapshots

/-! ### Runs -/

section Runs

variable (env : Env) (codecs : Codecs) (host : Host) (options : Options)
  (streamId : TerminalStreamId)

/-- The state after some snapshots. -/
def Supervisor.afterSnapshots (s : Supervisor)
    (snapshots : List (Except String (List ProcessInfo))) : Supervisor :=
  Machine.run (Supervisor.step env codecs host options streamId) s
    (snapshots.map fun result => .receive (.processSnapshot result))

variable {env codecs host options streamId} {runId : RunId} {before : List EventPayload}
  {known : ProcessId → Prop}

/-- A snapshot after which the recording has not failed. -/
theorem step_snapshot {s : Supervisor} {result : Except String (List ProcessInfo)}
    (hrunning : s.ended = none)
    (hfatal : (s.step env codecs host options streamId (.receive (.processSnapshot result))).fatal
      = none) :
    s.fatal = none ∧ exec (recordProcesses env result) s
      = (.ok (), s.step env codecs host options streamId (.receive (.processSnapshot result))) := by
  have hstep : s.step env codecs host options streamId (.receive (.processSnapshot result))
      = (exec (handle env codecs host options streamId (.processSnapshot result)) s).2 := by
    rw [Supervisor.step, if_neg (by simp [hrunning])]
    rfl
  rw [hstep] at hfatal ⊢
  rw [handle, exec_bind_ok (exec_get s)] at hfatal ⊢
  cases hbefore : s.fatal with
  | some error =>
    -- the snapshot is dismissed, and the failure stays
    simp only [hbefore, Option.isSome_some, if_true] at hfatal
    have hsame : s.fatal = none := hfatal
    rw [hbefore] at hsame
    exact absurd hsame (by simp)
  | none =>
    simp only [hbefore, Option.isSome_none, Bool.false_eq_true, if_false] at hfatal ⊢
    rw [exec_bind_ok (exec_outcome _ _)] at hfatal ⊢
    show True ∧ exec (recordProcesses env result) s = _
    have hrespond : respond env codecs host options streamId (.processSnapshot result)
        = recordProcesses env result := rfl
    rw [hrespond] at hfatal ⊢
    rcases hexec : exec (recordProcesses env result) s with ⟨error | _, t⟩
    · rw [hexec] at hfatal
      have hfail : t.fatal.or (some error) = none := hfatal
      cases hold : t.fatal <;> rw [hold] at hfail <;> exact absurd hfail (by simp)
    · exact ⟨trivial, rfl⟩

/-- What the coordinator knows after the snapshots. -/
def knownAfterAll (rootPid : ProcessId) (known : ProcessId → Prop)
    (snapshots : List (Except String (List ProcessInfo))) : ProcessId → Prop :=
  snapshots.foldl (knownAfter rootPid) known

/-- A recording that has not failed had not failed before. -/
theorem fatal_of_afterSnapshots {s : Supervisor}
    {snapshots : List (Except String (List ProcessInfo))}
    (hfatal : (s.afterSnapshots env codecs host options streamId snapshots).fatal = none) :
    s.fatal = none := by
  induction snapshots generalizing s with
  | nil => exact hfatal
  | cons result rest ih =>
    have hnext : (s.step env codecs host options streamId
        (.receive (.processSnapshot result))).fatal = none := ih hfatal
    cases hended : s.ended with
    | none => exact (step_snapshot hended hnext).1
    | some result =>
      rw [Supervisor.step, if_pos (by simp [hended])] at hnext
      exact hnext

theorem watching_afterSnapshots {s : Supervisor}
    {snapshots : List (Except String (List ProcessInfo))}
    (hs : Watching runId rootPid before known s)
    (hfatal : (s.afterSnapshots env codecs host options streamId snapshots).fatal = none) :
    Watching runId rootPid before (knownAfterAll rootPid known snapshots)
      (s.afterSnapshots env codecs host options streamId snapshots) := by
  induction snapshots generalizing s known with
  | nil => exact hs
  | cons result rest ih =>
    have hnext : (s.step env codecs host options streamId
        (.receive (.processSnapshot result))).fatal = none := fatal_of_afterSnapshots hfatal
    obtain ⟨-, hexec⟩ := step_snapshot hs.running hnext
    have hwatching := @spec_recordProcesses rootPid env _ _ _ result s hs
    rw [hexec] at hwatching
    exact ih hwatching hfatal

/-- The last snapshot tells which processes are known, and any of them of the root. -/
theorem knownAfterAll_concat (rootPid : ProcessId)
    (earlier : List (Except String (List ProcessInfo))) (processes : List ProcessInfo)
    (processId : ProcessId) :
    knownAfterAll rootPid (fun _ => False) (earlier ++ [.ok processes]) processId
      ↔ processId ∈ present processes ∨ processId = rootPid
        ∧ ∃ processes', .ok processes' ∈ earlier ∧ rootPid ∈ present processes' := by
  have hroot : knownAfterAll rootPid (fun _ => False) earlier rootPid
      ↔ ∃ processes', .ok processes' ∈ earlier ∧ rootPid ∈ present processes' := by
    induction earlier using List.reverseRecOn with
    | nil => simp [knownAfterAll]
    | append_singleton earlier result ih =>
      rw [knownAfterAll, List.foldl_concat, ← knownAfterAll]
      rcases result with message | processes'
      · show knownAfterAll rootPid _ earlier rootPid ↔ _
        rw [ih]
        simp
      · show rootPid ∈ present processes'
          ∨ rootPid = rootPid ∧ knownAfterAll rootPid _ earlier rootPid ↔ _
        rw [ih]
        constructor
        · rintro (hpresent | ⟨-, processes'', hmem, hpresent⟩)
          · exact ⟨processes', by simp, hpresent⟩
          · exact ⟨processes'', List.mem_append_left _ hmem, hpresent⟩
        · rintro ⟨processes'', hmem, hpresent⟩
          rcases List.mem_append.mp hmem with hmem | hmem
          · exact Or.inr ⟨rfl, processes'', hmem, hpresent⟩
          · rw [List.mem_singleton, Except.ok.injEq] at hmem
            exact Or.inl (hmem ▸ hpresent)
  rw [knownAfterAll, List.foldl_concat, ← knownAfterAll, knownAfter]
  refine or_congr_right (and_congr_right fun heq => ?_)
  rw [heq]
  exact hroot

end Runs

end Supervision

open Supervision

/-- **The life of a process.**  The events that the snapshots of a recording have it emit: those of
a process other than the root are in turns that it is observed and that it exits, the root never
exits, and after a snapshot the processes that are alive by the events are those of the snapshot,
and the root if it has been seen. -/
theorem processes_alternate (env : Env) (codecs : Codecs) (host : Host)
    (options : Supervision.Options) (streamId : TerminalStreamId) (requests : List Request)
    (run : Run) (captureOptions : CaptureOptions) (ops : List RecorderOp) (objects : Payloads)
    (rootPid : ProcessId) (dirty : DirtyTracker)
    (snapshots : List (Except String (List ProcessInfo))) {db : Db}
    (h : createRun (Machine.run (step codecs) Db.empty requests) run = .ok db) :
    let w := Machine.run (recorderStep env codecs) (World.start db run.id captureOptions) ops
    let s := (Supervisor.start w objects rootPid dirty).afterSnapshots env codecs host options
      streamId snapshots
    s.fatal = none → ∃ log, s.world.emitted = w.emitted ++ log
      ∧ (∀ processId, processId ≠ rootPid → Alternates (lifecycle processId log))
      ∧ (∀ status, .processExited rootPid status ∉ log)
      ∧ ∀ earlier processes, snapshots = earlier ++ [.ok processes] →
        ∀ processId, Alive processId log ↔ processId ∈ present processes
          ∨ processId = rootPid
            ∧ ∃ processes', .ok processes' ∈ earlier ∧ rootPid ∈ present processes' := by
  intro w s hfatal
  have hnumbering : Numbering run.id w :=
    Machine.run_invariant (I := Numbering run.id) (fun _ op hw => numbering_step hw op)
      (numbering_start h captureOptions) ops
  have hstart : Watching run.id rootPid w.emitted (fun _ => False)
      (Supervisor.start w objects rootPid dirty) := by
    refine ⟨rfl, rfl, List.nodup_nil, fun _ => by simp [Supervisor.start], [], ?_, tracked_nil⟩
    rw [List.append_nil]
    exact hnumbering.logged
  have hwatching := watching_afterSnapshots hstart hfatal
  obtain ⟨log, hlogged, htracked⟩ := hwatching.logged
  refine ⟨log, hlogged.emitted, fun processId _ => htracked.alternates processId, ?_, ?_⟩
  · intro status hmem
    refine htracked.root ?_
    rw [lifecycle, List.mem_map]
    exact ⟨(rootPid, false), List.mem_filter.mpr
      ⟨List.mem_filterMap.mpr ⟨_, hmem, rfl⟩, by simp⟩, rfl⟩
  · rintro earlier processes rfl processId
    rw [← htracked.alive, hwatching.known]
    exact knownAfterAll_concat rootPid earlier processes processId

namespace Sample

/-- The root process, and one beneath it. -/
def rootProcessId : ProcessId := ⟨1, ProcessId.one_ne_zero⟩

def childProcessId : ProcessId := ⟨2, by decide⟩

/-- A snapshot of processes with these numbers. -/
def processSnapshot (pids : List UInt32) : Except String (List ProcessInfo) :=
  .ok (pids.map fun pid => ⟨pid, none, none, "run"⟩)

/-- The child is there twice, goes, and its number comes back; one snapshot fails. -/
def processSnapshots : List (Except String (List ProcessInfo)) :=
  [processSnapshot [1, 2, 2, 0], .error "interrupted", processSnapshot [], processSnapshot [2, 1]]

/-- The coordinator after the snapshots. -/
def watched : Supervisor :=
  (Supervisor.start (Machine.run (recorderStep (env 999) codecs)
    (World.start created run.id options) [.checkpoint .initial none]) (fun _ => none) rootProcessId
    dirtyTracker).afterSnapshots (env 999) codecs host echoPolicy ⟨⟨0⟩⟩ processSnapshots

example : lifecycle childProcessId watched.world.emitted = [true, false, true] := by decide +kernel

end Sample

theorem processes_alternate_sample :
    Sample.watched.fatal = none ∧ ∃ log, Alternates (lifecycle Sample.childProcessId log)
      ∧ Alive Sample.childProcessId log ∧ Alive Sample.rootProcessId log := by
  have hfatal : Sample.watched.fatal = none := by decide +kernel
  obtain ⟨log, -, halternates, -, halive⟩ := processes_alternate (Sample.env 999) Sample.codecs
    Sample.host Sample.echoPolicy ⟨⟨0⟩⟩ [] Sample.run Sample.options [.checkpoint .initial none]
    (fun _ => none) Sample.rootProcessId Sample.dirtyTracker Sample.processSnapshots
      Sample.createRun_run
    hfatal
  have hlast := halive [Sample.processSnapshot [1, 2, 2, 0], .error "interrupted",
    Sample.processSnapshot []] [⟨2, none, none, "run"⟩, ⟨1, none, none, "run"⟩] rfl
  exact ⟨hfatal, log, halternates _ (by decide), (hlast _).mpr (Or.inl (by decide)),
    (hlast _).mpr (Or.inl (by decide))⟩

end Rewind

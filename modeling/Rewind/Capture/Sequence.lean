/-
The recorder's numbers and the store's.

A recorder numbers its events itself, ahead of the store, and the store accepts a batch
only if it continues what it holds.  The two agree as long as the numbered events are in
the store or in the buffer.  One method takes a number for an event that is in neither
while the store can still refuse it: the commit of a checkpoint.

* `Numbering` — the invariant of every recorder, with the gap such a refusal leaves;
* `SequencesAgree` — the agreement, and what it gives a flush and a finalization;
* **`sequences_agree_iff`** — over every run of the recorder, the sequences agree exactly
  as long as no checkpoint has been refused.
-/
import Rewind.Capture.Methods

namespace Rewind

open Call

/-- The store has refused to commit a checkpoint. -/
def World.refusedCheckpoint (w : World) : Prop := ⟨.checkpoint, false⟩ ∈ w.answers

instance (w : World) : Decidable w.refusedCheckpoint := inferInstanceAs (Decidable (_ ∈ _))

/-- The numbers that are neither stored nor pending. -/
def World.gap (w : World) : Nat := if w.refusedCheckpoint then 1 else 0

/-- The last number the store holds for the recorder's run. -/
def World.stored (w : World) : Nat := w.db.lastSequence w.recorder.runId

/-- What holds of every recorder of the run `runId`, between its operations and inside them. -/
structure Numbering (runId : RunId) (w : World) : Prop where
  wellFormed : w.db.WellFormed
  runId : w.recorder.runId = runId
  sequencer : w.recorder.sequencer.runId = w.recorder.runId
  owned : ∀ event ∈ w.recorder.pending, event.runId = w.recorder.runId
  valid : ∀ event ∈ w.recorder.pending, event.validate = .ok ()
  continues : Continues Event.seq Event.offset (w.stored + w.gap)
    (w.db.lastOffset w.recorder.runId) w.recorder.pending
  next : w.recorder.sequencer.next.get = w.stored + w.gap + w.recorder.pending.length + 1
  offset : clockAfter Event.offset (w.db.lastOffset w.recorder.runId) w.recorder.pending
    ≤ w.recorder.sequencer.lastOffset.asNanoseconds

/-- The buffer holds something, or no number is missing. -/
def Emitted (runId : RunId) (w : World) : Prop := Numbering runId w
    ∧ (w.recorder.pending ≠ [] ∨ w.gap = 0)

/-- The buffer is empty and no number is missing. -/
def Flushed (runId : RunId) (w : World) : Prop := Numbering runId w ∧ w.recorder.pending = []
    ∧ w.gap = 0

variable {runId : RunId}

/-! ### Quiet changes -/

theorem refusedCheckpoint_iff (w : World) :
    w.refusedCheckpoint ↔ ⟨.checkpoint, false⟩ ∈ w.timelineAnswers := by
  rw [World.timelineAnswers, List.mem_filter]
  exact ⟨fun h => ⟨h, by decide⟩, fun h => h.1⟩

theorem gap_eq_of_answers {w w' : World} (h : w'.timelineAnswers = w.timelineAnswers) :
    w'.gap = w.gap := by
  have hrefused : w'.refusedCheckpoint ↔ w.refusedCheckpoint := by
    rw [refusedCheckpoint_iff, refusedCheckpoint_iff, h]
  rw [World.gap, World.gap]
  by_cases hw : w.refusedCheckpoint
  · rw [if_pos hw, if_pos (hrefused.mpr hw)]
  · rw [if_neg hw, if_neg fun hw' => hw (hrefused.mp hw')]

/-- A change that leaves the events, the buffer and the answers alone. -/
theorem Numbering.of_eq {w w' : World} (h : Numbering runId w) (hdb : w'.db.WellFormed)
    (hevents : w'.db.events = w.db.events) (hrunId : w'.recorder.runId = w.recorder.runId)
    (hsequencer : w'.recorder.sequencer = w.recorder.sequencer)
    (hpending : w'.recorder.pending = w.recorder.pending) (hgap : w'.gap = w.gap) :
    Numbering runId w' := by
  have hlast : w'.db.lastEvent? w'.recorder.runId = w.db.lastEvent? w.recorder.runId := by
    rw [Db.lastEvent?, Db.eventsOf, hevents, hrunId]
    rfl
  have hstored : w'.stored = w.stored := by
    rw [World.stored, Db.lastSequence, hlast]
    rfl
  have hoffset : w'.db.lastOffset w'.recorder.runId = w.db.lastOffset w.recorder.runId := by
    rw [Db.lastOffset, hlast]
    rfl
  refine ⟨hdb, hrunId.trans h.runId, ?_, ?_, ?_, ?_, ?_, ?_⟩
  · rw [hsequencer, hrunId]
    exact h.sequencer
  · rw [hpending, hrunId]
    exact h.owned
  · rw [hpending]
    exact h.valid
  · rw [hpending, hstored, hgap, hoffset]
    exact h.continues
  · rw [hpending, hstored, hgap, hsequencer]
    exact h.next
  · rw [hpending, hoffset, hsequencer]
    exact h.offset

theorem stable_numbering : Stable (Numbering runId) := by
  intro w w' hquiet hw
  have hdb := (KeepsTimelines.of_eq hquiet.events hquiet.runs hw.wellFormed).1
  exact hw.of_eq hdb hquiet.events hquiet.runId hquiet.sequencer hquiet.pending
    (gap_eq_of_answers hquiet.answers)

theorem stable_flushed : Stable (Flushed runId) := by
  rintro w w' hquiet ⟨hw, hpending, hgap⟩
  exact ⟨stable_numbering w w' hquiet hw, hquiet.pending.trans hpending,
    (gap_eq_of_answers hquiet.answers).trans hgap⟩

/-! ### Numbering an event -/

/-- The next event continues the buffer. -/
theorem Numbering.continues_next {w : World} (h : Numbering runId w) {payload : EventPayload}
    {event : Event} {sequencer : Sequencer}
    (hnumbered : Numbered w.recorder.sequencer payload event sequencer) :
    Continues Event.seq Event.offset (w.stored + w.gap) (w.db.lastOffset w.recorder.runId)
      (w.recorder.pending ++ [event]) := by
  rw [continues_concat]
  refine ⟨h.continues, ?_, ?_⟩
  · rw [hnumbered.seq, h.next]
  · exact Nat.le_trans h.offset hnumbered.offset

theorem Numbering.queue {w : World} (h : Numbering runId w) {payload : EventPayload} {event : Event}
    {sequencer : Sequencer}
    (hnumbered : Numbered w.recorder.sequencer payload event sequencer) :
    Numbering runId (w.queue event sequencer) := by
  have hmem : ∀ e, e ∈ (w.queue event sequencer).recorder.pending ↔
      e ∈ w.recorder.pending ∨ e = event := by
    intro e
    simp [World.queue]
  refine ⟨h.wellFormed, h.runId, ?_, ?_, ?_, h.continues_next hnumbered, ?_, ?_⟩
  · exact hnumbered.runId'.trans h.sequencer
  · intro e he
    rcases (hmem e).mp he with he | rfl
    · exact h.owned e he
    · exact hnumbered.runId.trans h.sequencer
  · intro e he
    rcases (hmem e).mp he with he | rfl
    · exact h.valid e he
    · exact hnumbered.valid
  · show sequencer.next.get = w.stored + w.gap + (w.recorder.pending ++ [event]).length + 1
    rw [hnumbered.next', h.next, List.length_append, List.length_singleton]
    rfl
  · show clockAfter Event.offset _ (w.recorder.pending ++ [event]) ≤ _
    rw [clockAfter_concat]
    exact Nat.le_of_eq hnumbered.lastOffset'.symm

theorem keeps_queueEvent_numbering (env : Env) (payload : EventPayload) :
    Keeps (Numbering runId) (Recorder.queueEvent env payload) :=
  spec_queueEvent stable_numbering fun _ _ _ hw hnumbered => hw.queue hnumbered

/-! ### Emptying the buffer -/

/-- What the store holds after a batch. -/
theorem lastSequence_of_eventsOf {db db' : Db} (hdb : db.WellFormed) (hdb' : db'.WellFormed)
    {runId : RunId} {events : List Event}
    (heventsOf : db'.eventsOf runId = db.eventsOf runId ++ events.map eventRow) :
    db'.lastSequence runId = db.lastSequence runId + events.length := by
  rw [hdb.lastSequence, hdb'.lastSequence]
  show (db'.eventsOf runId).length = (db.eventsOf runId).length + events.length
  rw [heventsOf, List.length_append, List.length_map]

theorem lastOffset_of_eventsOf {db db' : Db} (hdb : db.WellFormed) (hdb' : db'.WellFormed)
    {runId : RunId} {events : List Event}
    (heventsOf : db'.eventsOf runId = db.eventsOf runId ++ events.map eventRow) :
    db'.lastOffset runId = clockAfter Event.offset (db.lastOffset runId) events := by
  have hrows : ∀ t, clockAfter EventRow.monotonicOffsetNs t (events.map eventRow)
      = clockAfter Event.offset t events := by
    intro t
    rw [clockAfter, clockAfter, List.getLast?_map, Option.map_map]
    rfl
  rw [hdb.lastOffset, hdb'.lastOffset]
  show clockAfter EventRow.monotonicOffsetNs 0 (db'.eventsOf runId) = _
  rw [heventsOf, clockAfter_append, hrows]
  rfl

/-- A batch that the store accepts follows what it holds, so no number was missing. -/
theorem gap_eq_zero_of_fits {w : World} (h : Numbering runId w)
    (hfits : BatchFits w.db w.recorder.runId w.recorder.pending)
    (hpending : w.recorder.pending ≠ []) : w.gap = 0 := by
  obtain ⟨first, rest, hcons⟩ := List.exists_cons_of_ne_nil hpending
  have hnumbered := h.continues
  have haccepted := hfits.continues
  rw [hcons, continues_cons] at hnumbered haccepted
  have hstored : w.stored = w.db.lastSequence w.recorder.runId := rfl
  omega

/-- The pending events fit the run they are owned by. -/
theorem Numbering.fits {w : World} {db : Db} (h : Numbering runId w)
    (happend : appendEventBatchIn w.db w.recorder.pending = .ok db)
    (hpending : w.recorder.pending ≠ []) :
    db = w.db.withEvents w.recorder.pending
      ∧ BatchFits w.db w.recorder.runId w.recorder.pending := by
  obtain ⟨hdb, hfits⟩ := appendEventBatchIn_ok happend
  obtain ⟨first, rest, hcons⟩ := List.exists_cons_of_ne_nil hpending
  have hfirst : first.runId = w.recorder.runId := h.owned first (hcons ▸ List.mem_cons_self)
  refine ⟨hdb, ?_⟩
  rw [← hfirst]
  exact hfits first (by rw [hcons]; rfl)

/-- The buffer has gone to the store in one piece. -/
theorem Numbering.flushed {w w' : World} (h : Numbering runId w) (hdb' : w'.db.WellFormed)
    (hzero : w.gap = 0)
    (hevents : w'.db.events = (w.db.withEvents w.recorder.pending).events)
    (hrecorder : w'.recorder = { w.recorder with pending := [] }) (hgap : w'.gap = w.gap) :
    Flushed runId w' := by
  have heventsOf : w'.db.eventsOf w.recorder.runId
      = w.db.eventsOf w.recorder.runId ++ w.recorder.pending.map eventRow := by
    have hsame : w'.db.eventsOf w.recorder.runId
        = (w.db.withEvents w.recorder.pending).eventsOf w.recorder.runId := by
      rw [Db.eventsOf, hevents]
      rfl
    rw [hsame, eventsOf_withEvents_owned h.owned, if_pos rfl]
  have hlast := lastSequence_of_eventsOf h.wellFormed hdb' heventsOf
  have hoffset := lastOffset_of_eventsOf h.wellFormed hdb' heventsOf
  have hstored : w'.stored = w.stored + w.recorder.pending.length := by
    rw [World.stored, hrecorder]
    exact hlast
  refine ⟨⟨hdb', ?_, ?_, ?_, ?_, ?_, ?_, ?_⟩, ?_, hgap.trans hzero⟩
  · rw [hrecorder]
    exact h.runId
  · rw [hrecorder]
    exact h.sequencer
  · rw [hrecorder]
    exact fun event hevent => absurd hevent List.not_mem_nil
  · rw [hrecorder]
    exact fun event hevent => absurd hevent List.not_mem_nil
  · rw [hrecorder]
    trivial
  · rw [hstored, hgap, hzero, hrecorder]
    show w.recorder.sequencer.next.get = w.stored + w.recorder.pending.length + 0 + 0 + 1
    rw [h.next, hzero]
    omega
  · rw [hrecorder]
    show w'.db.lastOffset w.recorder.runId ≤ w.recorder.sequencer.lastOffset.asNanoseconds
    rw [hoffset]
    exact h.offset
  · rw [hrecorder]

theorem gap_append {w : World} {answer : Answer} {db : Db} {recorder : Recorder}
    {tick : Nat} {history : List Db} (hanswer : answer ≠ ⟨.checkpoint, false⟩) :
    World.gap ⟨db, recorder, tick, w.answers ++ [answer], history⟩ = w.gap := by
  have hrefused : ⟨.checkpoint, false⟩ ∈ w.answers ++ [answer]
    ↔ ⟨.checkpoint, false⟩ ∈ w.answers := by
    rw [List.mem_append, List.mem_singleton]
    exact ⟨fun h => h.resolve_right fun heq => hanswer heq.symm, Or.inl⟩
  rw [World.gap, World.gap]
  exact if_congr hrefused rfl rfl

/-- `flush`, of a buffer or without one. -/
theorem spec_flush (env : Env) : Spec (Emitted runId) (Recorder.flush env) (fun _ => Flushed runId)
    (Numbering runId) := by
  refine spec_get_bind fun w hw => ?_
  obtain ⟨hnumbering, hemitted⟩ := hw
  refine spec_ite (fun hnil => ?_) fun hpending => ?_
  · refine spec_pure fun t ht => ?_
    subst ht
    exact ⟨hnumbering, hnil, hemitted.resolve_left fun hne => hne hnil⟩
  · refine spec_bind (Q := fun _ v => ∃ db, appendEventBatchIn w.db w.recorder.pending = .ok db
      ∧ v = w.accept .append db) (spec_transact ?_ ?_) fun _ => spec_modify ?_
    · rintro t db rfl happend
      exact ⟨db, happend, rfl⟩
    · rintro t rfl
      exact hnumbering.of_eq hnumbering.wellFormed rfl rfl rfl rfl
        (gap_append (by decide))
    · rintro t ⟨db, happend, rfl⟩
      have hdb := (keepsTimelines_append happend hnumbering.wellFormed).1
      obtain ⟨rfl, hfits⟩ := hnumbering.fits happend hpending
      exact hnumbering.flushed hdb (gap_eq_zero_of_fits hnumbering hfits hpending) rfl rfl
        (gap_append (by decide))

theorem keeps_flush_numbering (env : Env) : Keeps (Numbering runId) (Recorder.flush env) := by
  intro w hw
  by_cases hpending : w.recorder.pending = []
  · rw [Recorder.flush, exec_bind, exec_get]
    simp only [hpending, if_true, exec_pure]
    exact hw
  · exact ((spec_flush env).imp (fun _ ht => ht) (fun _ _ ht => ht.1) fun _ ht => ht) w
      ⟨hw, Or.inl hpending⟩

/-- Whatever has been emitted, a flush that goes through leaves nothing behind. -/
theorem spec_emitFlush (env : Env) (payload : EventPayload) :
    Spec (Numbering runId) (do let _ ← Recorder.emit env payload; Recorder.flush env)
      (fun _ => Flushed runId) (Numbering runId) := by
  have hqueue : Spec (Numbering runId) (Recorder.queueEvent env payload)
      (fun _ w => Numbering runId w ∧ w.recorder.pending ≠ []) (Numbering runId) := by
    refine spec_queueEvent stable_numbering fun w event sequencer hw hnumbered => ?_
    exact ⟨hw.queue hnumbered, by simp [World.queue]⟩
  refine spec_bind (Q := fun _ => Emitted runId) ?_ fun _ => spec_flush env
  refine spec_bind hqueue fun sequence => spec_get_bind fun w hw => ?_
  have hstart : ∀ t, t = w → Emitted runId t := fun t ht => ht ▸ ⟨hw.1, Or.inl hw.2⟩
  refine spec_ite (fun _ => ?_) fun _ => spec_pure hstart
  refine spec_bind ((spec_flush env).imp hstart (fun _ _ ht => ht) fun _ ht => ht) fun _ => ?_
  exact spec_pure fun t ht => ⟨ht.1, Or.inr ht.2.2⟩

/-! ### Checkpoints and finalizations -/

/-- The checkpoint of an empty buffer: its event is stored, or its number is lost. -/
theorem spec_commitNumbered (env : Env) (codecs : Codecs) (checkpointId : CheckpointId)
    (reason : CheckpointReason) (label : Option String) (snapshot : Snapshot) :
    Spec (Flushed runId) (Recorder.commitNumbered env codecs checkpointId reason label snapshot)
      (fun _ => Numbering runId) (Numbering runId) := by
  refine spec_bind (E := Numbering runId) ((spec_sequencerNext stable_flushed
    (Q := fun event w => ∃ v sequencer, Flushed runId v
      ∧ Numbered v.recorder.sequencer (.checkpointCommitted checkpointId snapshot.id) event
        sequencer
      ∧ w = { v with recorder := { v.recorder with sequencer } }) ?_).imp (fun _ hw => hw)
    (fun _ _ hw => hw) fun _ hw => hw.1) fun event => ?_
  · intro w event sequencer hw hnumbered
    exact ⟨w, sequencer, hw, hnumbered, rfl⟩
  · refine spec_transact ?_ ?_
    · rintro w db ⟨v, sequencer, ⟨hv, hpending, hgap⟩, hnumbered, rfl⟩ hcommit
      -- as if the event had been queued and the buffer flushed
      obtain ⟨-, -, db₁, hcheckpoint, happend⟩ := commitCheckpointWithEvent_ok hcommit
      have hdb := (keepsTimelines_checkpoint hcheckpoint).trans (keepsTimelines_append happend)
      obtain ⟨db₂, hstore, -, -, -, hdb₁⟩ := commitCheckpointIn_ok hcheckpoint
      obtain ⟨snapshots, snapshotEntries, rfl⟩ := storeSnapshotIn_frame hstore
      obtain ⟨hwith, -⟩ := appendEventBatchIn_ok happend
      have hevents : db.events = (v.db.withEvents (v.recorder.pending ++ [event])).events := by
        rw [hwith, hdb₁, hpending]
        rfl
      refine ((hv.queue hnumbered).flushed (hdb hv.wellFormed).1 hgap hevents ?_
        (gap_append (by decide))).1
      simp [World.queue, hpending]
    · rintro w ⟨v, sequencer, ⟨hv, hpending, hgap⟩, hnumbered, rfl⟩
      have hgap' : World.gap ⟨v.db, { v.recorder with sequencer }, v.tick + 1,
          v.answers ++ [⟨.checkpoint, false⟩], v.history⟩ = 1 :=
        if_pos (List.mem_append_right _ List.mem_cons_self)
      have hnext : sequencer.next.get = v.stored + 1 + v.recorder.pending.length + 1 := by
        rw [hnumbered.next', hv.next, hgap]
        omega
      have hoffset := Nat.le_trans hv.offset hnumbered.offset
      refine ⟨hv.wellFormed, hv.runId, hnumbered.runId'.trans hv.sequencer, hv.owned,
        hv.valid, ?_, ?_, ?_⟩
      · show Continues _ _ _ _ v.recorder.pending
        rw [hpending]
        trivial
      · show sequencer.next.get = v.stored + World.gap _ + v.recorder.pending.length + 1
        exact hgap' ▸ hnext
      · show clockAfter Event.offset (v.db.lastOffset v.recorder.runId) v.recorder.pending
          ≤ sequencer.lastOffset.asNanoseconds
        rw [hnumbered.lastOffset']
        exact hoffset

theorem spec_commitFinish_numbering (env : Env) (finish : RunFinish) :
    Spec (Numbering runId) (Recorder.commitFinish env finish) (fun _ => Numbering runId)
      (Numbering runId) := by
  refine spec_get_bind fun w hw => ?_
  refine spec_bind (Q := fun _ v => ∃ db,
    finishRunWithEvents w.db w.recorder.runId finish w.recorder.pending = .ok db
      ∧ v = w.accept .finish db) (spec_transact ?_ ?_) fun _ => spec_modify ?_
  · rintro t db rfl hfinish
    exact ⟨db, hfinish, rfl⟩
  · rintro t rfl
    exact hw.of_eq hw.wellFormed rfl rfl rfl rfl (gap_append (by decide))
  · rintro t ⟨db, hfinish, rfl⟩
    obtain ⟨init, last, db₁, hevents, -, -, happend, hrun⟩ := finishRunWithEvents_ok hfinish
    have hpending : w.recorder.pending ≠ [] := by
      rw [hevents]
      simp
    have hdb₁ := (keepsTimelines_append happend hw.wellFormed).1
    have hdb := ((statements_keepTimelines Sample.codecs).finish hrun hdb₁).1
    obtain ⟨hwith, hfits⟩ := hw.fits happend hpending
    obtain ⟨-, -, hrows⟩ := finishRunIn_ok hrun
    refine (hw.flushed hdb (gap_eq_zero_of_fits hw hfits hpending) ?_ rfl
      (gap_append (by decide))).1
    show db.events = _
    rw [hrows, hwith]

theorem keeps_markRunRunning_numbering (env : Env) (codecs : Codecs)
    (initialSnapshot : SnapshotId) :
    Keeps (Numbering runId) ((RecorderOp.markRunRunning initialSnapshot).exec env codecs) := by
  refine spec_get_bind fun w hw => spec_transact ?_ ?_
  · rintro t db rfl hrunning
    have hdb := ((statements_keepTimelines codecs).markRunRunning hrunning hw.wellFormed).1
    obtain ⟨-, rfl⟩ := markRunRunning_ok hrunning
    exact hw.of_eq hdb rfl rfl rfl rfl (gap_append (by decide))
  · rintro t rfl
    exact hw.of_eq hw.wellFormed rfl rfl rfl rfl (gap_append (by decide))

theorem upheld_numbering (env : Env) (codecs : Codecs) :
    Upheld env codecs (Numbering runId) (Flushed runId) (Numbering runId) (Numbering runId)
      fun _ => True where
  stable := stable_numbering
  stableFlushed := stable_flushed
  stableCompleted := stable_numbering
  ordinary := fun _ _ => trivial
  flushed := fun _ hw => hw.1
  completed := fun _ hw => hw
  done := fun _ hw => hw
  queueEvent := fun payload _ => keeps_queueEvent_numbering env payload
  flush := keeps_flush_numbering env
  emitFlush := fun payload _ => spec_emitFlush env payload
  commitNumbered := spec_commitNumbered env codecs
  queueCompleted := fun _ _ => keeps_queueEvent_numbering env _
  commitFinish := spec_commitFinish_numbering env
  markRunRunning := keeps_markRunRunning_numbering env codecs

/-! ### Runs of the recorder -/

/-- A run that has just been created has no events: those before it belong to other runs. -/
theorem eventsOf_created {codecs : Codecs} {requests : List Request} {run : Run} {db : Db}
    (h : createRun (Machine.run (step codecs) Db.empty requests) run = .ok db) :
    db.eventsOf run.id = [] := by
  have hbefore := wellFormed_run codecs requests
  obtain ⟨-, -, hfresh, runArguments, runParents, hrows⟩ := createRun_ok h
  rw [hrows]
  refine List.filter_eq_nil_iff.mpr fun row hrow hid => hfresh ?_
  have howner := (Table.find_isSome_iff RunRow.id).mp (hbefore.owned row hrow)
  rwa [← of_decide_eq_true hid]

/-- The recorder of a run that has just been created. -/
theorem numbering_start {codecs : Codecs} {requests : List Request} {run : Run} {db : Db}
    (h : createRun (Machine.run (step codecs) Db.empty requests) run = .ok db)
    (options : CaptureOptions) : Numbering run.id (World.start db run.id options) := by
  have hdb := (keepsTimelines_createRun h (wellFormed_run codecs requests)).1
  have hlast : db.lastEvent? run.id = none := by
    rw [Db.lastEvent?, eventsOf_created h]
    rfl
  have hstored : (World.start db run.id options).stored = 0 := by
    show db.lastSequence run.id = 0
    rw [Db.lastSequence, hlast]
    rfl
  refine ⟨hdb, rfl, rfl, fun _ h => absurd h List.not_mem_nil, fun _ h => absurd h List.not_mem_nil,
    trivial, ?_, ?_⟩
  · rw [hstored]
    rfl
  · show db.lastOffset run.id ≤ 0
    rw [Db.lastOffset, hlast]
    exact Nat.le_refl 0

theorem numbering_step {env : Env} {codecs : Codecs} {w : World} (h : Numbering runId w)
    (op : RecorderOp) : Numbering runId (recorderStep env codecs w op) :=
  (upheld_numbering env codecs).step h fun _ _ => trivial

/-- The agreement of the two sequences, and what it gives: the store's contiguity check stands
in the way neither of a flush nor of a finalization.  What is left of both calls are the checks
that have nothing to do with numbers. -/
structure SequencesAgree (w : World) : Prop where
  pending : w.recorder.pending.map Event.seq
    = List.range' (w.stored + 1) w.recorder.pending.length
  next : w.recorder.sequencer.next.get = w.stored + w.recorder.pending.length + 1
  flush : w.recorder.pending ≠ [] →
    appendEventBatchIn w.db w.recorder.pending
      = (do requireActive w.db w.recorder.runId; w.recorder.pending.foldlM appendEvent w.db)
  finish : ∀ finish event sequencer,
    Numbered w.recorder.sequencer (.runCompleted finish.status finish.exitStatus) event sequencer →
    finishRunWithEvents w.db w.recorder.runId finish (w.recorder.pending ++ [event])
      = (do
          requireActive w.db w.recorder.runId
          let db ← (w.recorder.pending ++ [event]).foldlM appendEvent w.db
          finishRunIn db w.recorder.runId finish)

/-- The contiguity check accepts what continues the stored timeline. -/
theorem appendEventBatchIn_of_continues {db : Db} {runId : RunId} {events : List Event}
    (hevents : events ≠ []) (howned : ∀ event ∈ events, event.runId = runId)
    (hvalid : ∀ event ∈ events, event.validate = .ok ())
    (hcontinues : Continues Event.seq Event.offset (db.lastSequence runId) (db.lastOffset runId)
      events) :
    appendEventBatchIn db events = (do requireActive db runId; events.foldlM appendEvent db) := by
  obtain ⟨first, rest, rfl⟩ := List.exists_cons_of_ne_nil hevents
  obtain ⟨hseq, hoffset, hrest⟩ := hcontinues
  obtain rfl : first.runId = runId := howned first List.mem_cons_self
  have hbatch : validateBatch first rest = .ok () := by
    rw [validateBatch_eq_ok_iff, hseq]
    exact ⟨fun event hevent => ⟨howned event hevent, hvalid event hevent⟩, hrest⟩
  have hfirst : checkContinues db first = .ok () := checkContinues_eq_ok_iff.mpr ⟨hseq, hoffset⟩
  rw [appendEventBatchIn, hbatch, hfirst]
  rfl

theorem Numbering.agree {w : World} (h : Numbering runId w) (hgap : w.gap = 0) :
    SequencesAgree w := by
  have hcontinues := h.continues
  have hnext := h.next
  rw [hgap, Nat.add_zero] at hcontinues hnext
  refine ⟨hcontinues.map_seq, hnext, ?_, ?_⟩
  · intro hpending
    exact appendEventBatchIn_of_continues hpending h.owned h.valid hcontinues
  · intro finish event sequencer hnumbered
    -- the buffer with the terminal event is a buffer of the same recorder
    have hqueue := h.queue hnumbered
    have hcheck : checkTerminalEvent w.recorder.runId finish event = .ok () := by
      have hrunId := hnumbered.runId.trans h.sequencer
      rw [checkTerminalEvent, hnumbered.payload]
      exact ensure_eq_ok_iff.mpr ⟨hrunId, rfl, rfl⟩
    have hcontinues' := h.continues_next hnumbered
    rw [hgap, Nat.add_zero] at hcontinues'
    have happend := appendEventBatchIn_of_continues (List.append_ne_nil_of_right_ne_nil _ (by simp))
      hqueue.owned hqueue.valid hcontinues'
    have hlast : (w.recorder.pending ++ [event]).getLast? = some event := by simp
    rw [finishRunWithEvents, hlast]
    show (do
      checkTerminalEvent w.recorder.runId finish event
      let db ← appendEventBatchIn w.db (w.recorder.pending ++ [event])
      finishRunIn db w.recorder.runId finish) = _
    rw [hcheck]
    show (appendEventBatchIn w.db (w.recorder.pending ++ [event]) >>= _) = _
    have happend' : appendEventBatchIn w.db (w.recorder.pending ++ [event])
        = (do
            requireActive w.db w.recorder.runId
            (w.recorder.pending ++ [event]).foldlM appendEvent w.db) := happend
    rw [happend', bind_assoc]

/-- **The recorder's numbers and the store's.**  After every run of operations on a recorder,
with any calls failing, the two sequences agree if and only if the store has not refused to
commit a checkpoint. -/
theorem sequences_agree_iff (env : Env) (codecs : Codecs) (requests : List Request) (run : Run)
    (options : CaptureOptions) (ops : List RecorderOp) {db : Db}
    (h : createRun (Machine.run (step codecs) Db.empty requests) run = .ok db) :
    let w := Machine.run (recorderStep env codecs) (World.start db run.id options) ops
    SequencesAgree w ↔ ¬ w.refusedCheckpoint := by
  intro w
  have hw : Numbering run.id w :=
    Machine.run_invariant (I := Numbering run.id) (fun _ op hv => numbering_step hv op)
      (numbering_start h options) ops
  constructor
  · intro hagree hrefused
    have hnext := hw.next
    rw [hagree.next, World.gap, if_pos hrefused] at hnext
    omega
  · intro hrefused
    exact hw.agree (if_neg hrefused)

namespace Sample

/-- The database with the sample run in preparation. -/
def created : Db := step codecs Db.empty ⟨.createRun run, false⟩

/-- A world whose clock stands still and whose scans find nothing; the store fails at `tick`. -/
def env (tick : Nat) : Env where
  storeFails t := t = tick
  clock _ := some (⟨0⟩, ⟨0⟩)
  uuid t := ⟨BitVec.ofNat 128 t⟩
  scan _ := ⟨[], .ok ⟨emptySnapshot, []⟩⟩
  removeWorkspace _ := none
  openWorkspace _ := none
  removeEntry _ := none

def options : CaptureOptions := ⟨64, 1000⟩

def world : World := World.start created Sample.runId options

theorem createRun_run : createRun (Machine.run (step codecs) Db.empty []) run = .ok created := by
  decide +kernel

end Sample

/-- A run of the recorder whose one checkpoint goes through. -/
theorem sequences_agree_sample :
    SequencesAgree (Machine.run (recorderStep (Sample.env 99) Sample.codecs) Sample.world
      [.emit (.runInterrupted none), .checkpoint .initial none, .warning .other "late"]) :=
  (sequences_agree_iff (Sample.env 99) Sample.codecs [] Sample.run Sample.options _
    Sample.createRun_run).mpr (by decide +kernel)

/-- One refused checkpoint: the store holds one event, the buffer none, and the next number is
three.  The run cannot be finalized any more, and stays in preparation. -/
theorem sequences_disagree_after_refusal :
    let w := Machine.run (recorderStep (Sample.env 8) Sample.codecs) Sample.world
      [.checkpoint .manual none]
    let finished := Call.exec (RecorderOp.exec (Sample.env 8) Sample.codecs
      (.finish .completed (.code 0) none)) w
    ¬ SequencesAgree w
      ∧ finished.1 = .error (.store (.eventOrder
          s!"run {Sample.runId} expected sequence 2, received 3"))
      ∧ (finished.2.db.run? Sample.runId).map (·.status) = some .preparing := by
  refine ⟨fun h => ?_, ?_, ?_⟩
  · exact absurd h.next (by decide +kernel)
  · decide +kernel
  · decide +kernel

end Rewind

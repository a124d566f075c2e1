/-
The terminal event and the recorder.

`finish` queues the terminal event before the transaction that is to store it.  When that
transaction is refused the event waits in the buffer, and whatever flushes the buffer next
stores it, in a run that is still active.

* `Clean` — a buffer without a terminal event, and what it finalizes agrees;
* `Tracked`, `Finished` — an operation that starts with one: nothing of it is stored
  (`Held`), it has spoilt the timeline for good (`Spoilt`), or it has been finalized;
* **`completion_agrees_iff`** — over every run of the recorder, timelines and rows agree
  throughout exactly if no waiting terminal event is stored but by its own finalization.
-/
import Rewind.Capture.Sequence

namespace Rewind

open Call

/-- The timeline of the recorder's run and its row agree. -/
def World.Agrees (w : World) : Prop := CompletionAgrees w.db w.recorder.runId

/-- They never will again. -/
def World.Broken (w : World) : Prop := CompletionBroken w.db w.recorder.runId

/-- How many terminal events wait in the buffer. -/
def World.waiting (w : World) : Nat := w.recorder.pending.countP Event.isCompletion

/-- The calls that have written the timeline. -/
def World.acceptedCalls (w : World) : List StoreCall :=
  (w.timelineAnswers.filter (·.accepted)).map (·.call)

/-! ### Quiet changes and answers -/

theorem Quiet.agrees_iff {w w' : World} (h : Quiet w w') :
    (w'.Agrees ↔ w.Agrees) ∧ (w'.Broken ↔ w.Broken) := by
  have hevents : w'.db.eventsOf w'.recorder.runId = w.db.eventsOf w.recorder.runId := by
    rw [Db.eventsOf, h.events, h.runId]
    rfl
  have houtcome : w'.db.outcome? w'.recorder.runId = w.db.outcome? w.recorder.runId := by
    rw [h.runId]
    exact outcome?_of_runs h.runs
  rw [h.runId] at hevents houtcome
  have hactive : ∀ {db db' : Db}, db'.outcome? w.recorder.runId = db.outcome? w.recorder.runId →
      db.isActive w.recorder.runId → db'.isActive w.recorder.runId := by
    rintro db db' heq ⟨outcome, hrun, hstatus⟩
    exact ⟨outcome, heq.trans hrun, hstatus⟩
  rw [World.Agrees, World.Agrees, World.Broken, World.Broken, h.runId]
  exact ⟨⟨fun ha => ha.congr hevents.symm houtcome.symm, fun ha => ha.congr hevents houtcome⟩,
    ⟨fun hb => hb.congr hevents.symm (hactive houtcome.symm), fun hb =>
      hb.congr hevents (hactive houtcome)⟩⟩

theorem Quiet.waiting {w w' : World} (h : Quiet w w') : w'.waiting = w.waiting := by
  rw [World.waiting, h.pending]
  rfl

theorem Quiet.acceptedCalls {w w' : World} (h : Quiet w w') :
    w'.acceptedCalls = w.acceptedCalls := by
  rw [World.acceptedCalls, h.answers]
  rfl

theorem acceptedCalls_accept (w : World) {call : StoreCall} (hcall : call ≠ .other) (db : Db) :
    (w.accept call db).acceptedCalls = w.acceptedCalls ++ [call] := by
  simp [World.acceptedCalls, World.timelineAnswers, World.accept, List.filter_append, hcall]

theorem acceptedCalls_refuse (w : World) (call : StoreCall) :
    (w.refuse call).acceptedCalls = w.acceptedCalls := by
  simp [World.acceptedCalls, World.timelineAnswers, World.refuse, List.filter_append]

theorem acceptedCalls_other (w : World) (db : Db) :
    (w.accept .other db).acceptedCalls = w.acceptedCalls := by
  simp [World.acceptedCalls, World.timelineAnswers, World.accept, List.filter_append]

/-- A queued event adds itself to the waiting ones. -/
theorem waiting_queue {w : World} {payload : EventPayload} {event : Event} {sequencer : Sequencer}
    (h : Numbered w.recorder.sequencer payload event sequencer) :
    (w.queue event sequencer).waiting = w.waiting + if payload.isRunCompleted then 1 else 0 := by
  show (w.recorder.pending ++ [event]).countP Event.isCompletion = _
  rw [List.countP_append, List.countP_singleton, Event.isCompletion, h.payload]
  rfl

/-! ### Operations that start without a waiting terminal event -/

/-- The timeline agrees, and no terminal event waits. -/
def Clean (w : World) : Prop := w.Agrees ∧ w.waiting = 0

/-- The timeline agrees, and at most one terminal event waits. -/
def Completed (w : World) : Prop := w.Agrees ∧ w.waiting ≤ 1

theorem stable_clean : Stable Clean := by
  rintro w w' h ⟨hagrees, hwaiting⟩
  exact ⟨h.agrees_iff.1.mpr hagrees, h.waiting.trans hwaiting⟩

theorem stable_completed : Stable Completed := by
  rintro w w' h ⟨hagrees, hwaiting⟩
  exact ⟨h.agrees_iff.1.mpr hagrees, by rw [h.waiting]; exact hwaiting⟩

theorem keeps_queueEvent_clean (env : Env) {payload : EventPayload}
    (hpayload : payload.isRunCompleted = false) :
    Keeps Clean (Recorder.queueEvent env payload) := by
  refine spec_queueEvent stable_clean fun w event sequencer hw hnumbered => ⟨hw.1, ?_⟩
  rw [waiting_queue hnumbered, hpayload, hw.2]
  rfl

theorem keeps_flush_clean (env : Env) : Keeps Clean (Recorder.flush env) := by
  refine spec_get_bind fun w hw => ?_
  refine spec_ite (fun _ => spec_pure fun t ht => ht ▸ hw) fun _ => ?_
  refine spec_bind (Q := fun _ => Clean) (spec_transact ?_ ?_) fun _ => spec_modify ?_
  · rintro t db rfl happend
    refine ⟨hw.1.append happend fun event hevent => ?_, hw.2⟩
    by_contra hcompletion
    rw [Bool.not_eq_false] at hcompletion
    have hpos : 0 < t.waiting := List.countP_pos_iff.mpr ⟨event, hevent, hcompletion⟩
    rw [hw.2] at hpos
    exact Nat.lt_irrefl 0 hpos
  · rintro t rfl
    exact hw
  · rintro t ⟨hagrees, -⟩
    exact ⟨hagrees, rfl⟩

theorem spec_commitNumbered_clean (env : Env) (codecs : Codecs) (checkpointId : CheckpointId)
    (reason : CheckpointReason) (label : Option String) (snapshot : Snapshot) :
    Spec Clean (Recorder.commitNumbered env codecs checkpointId reason label snapshot)
      (fun _ => Clean) Clean := by
  refine spec_bind (spec_sequencerNext stable_clean (Q := fun event w =>
    Clean w ∧ event.isCompletion = false) ?_) fun event => ?_
  · intro w event sequencer hw hnumbered
    refine ⟨hw, ?_⟩
    rw [Event.isCompletion, hnumbered.payload]
    rfl
  · refine spec_transact ?_ ?_
    · rintro w db ⟨hw, hevent⟩ hcommit
      obtain ⟨-, -, db₁, hcheckpoint, happend⟩ := commitCheckpointWithEvent_ok hcommit
      obtain ⟨hevents, houtcome⟩ := outcome?_checkpoint hcheckpoint w.recorder.runId
      refine ⟨(hw.1.congr hevents houtcome).append happend ?_, hw.2⟩
      exact fun e he => List.mem_singleton.mp he ▸ hevent
    · exact fun w hw => hw.1

theorem spec_commitFinish_clean (env : Env) (finish : RunFinish) :
    Spec Completed (Recorder.commitFinish env finish) (fun _ => World.Agrees) World.Agrees := by
  refine spec_get_bind fun w hw => ?_
  refine spec_bind (Q := fun _ => World.Agrees) (spec_transact ?_ ?_) fun _ => spec_modify ?_
  · rintro t db rfl hfinish
    exact hw.1.finish hfinish hw.2
  · rintro t rfl
    exact hw.1
  · exact fun t ht => ht

theorem upheld_clean (env : Env) (codecs : Codecs) :
    Upheld env codecs Clean Clean Completed World.Agrees fun payload =>
      payload.isRunCompleted = false where
  stable := stable_clean
  stableFlushed := stable_clean
  stableCompleted := stable_completed
  ordinary := fun _ h => h
  flushed := fun _ hw => hw
  completed := fun _ hw => ⟨hw.1, by rw [hw.2]; exact Nat.zero_le 1⟩
  done := fun _ hw => hw.1
  queueEvent := fun _ => keeps_queueEvent_clean env
  flush := keeps_flush_clean env
  emitFlush := fun _ hpayload =>
    keeps_bind (keeps_emit (keeps_queueEvent_clean env hpayload) (keeps_flush_clean env))
      fun _ => keeps_flush_clean env
  commitNumbered := spec_commitNumbered_clean env codecs
  queueCompleted := by
    intro status exitStatus
    refine spec_queueEvent stable_clean fun w event sequencer hw hnumbered => ⟨hw.1, ?_⟩
    rw [waiting_queue hnumbered, hw.2]
    exact Nat.le_refl 1
  commitFinish := spec_commitFinish_clean env
  markRunRunning := by
    intro initialSnapshot
    refine spec_get_bind fun w hw => spec_transact ?_ ?_
    · rintro t db rfl hrunning
      exact ⟨hw.1.markRunRunning hrunning, hw.2⟩
    · rintro t rfl
      exact hw

/-! ### Operations that start with a waiting terminal event -/

section Tracking

variable (start : World)

/-- Nothing of the buffer has been stored since `start`. -/
structure Held (w : World) : Prop where
  agrees : w.Agrees
  calls : w.acceptedCalls = start.acceptedCalls
  sequencer : w.recorder.sequencer.runId = w.recorder.runId
  owned : ∀ event ∈ w.recorder.pending, event.runId = w.recorder.runId
  grown : ∃ new, w.recorder.pending = start.recorder.pending ++ new
    ∧ w.recorder.sequencer.next.get = start.recorder.sequencer.next.get + new.length

/-- The buffer, or a checkpoint after it, has been stored without finalizing the run. -/
structure Spoilt (w : World) : Prop where
  broken : w.Broken
  calls : ∃ call rest, w.acceptedCalls = start.acceptedCalls ++ call :: rest ∧ call ≠ .finish

/-- The state of an operation that started at `start`, before it finalizes the run. -/
def Tracked (w : World) : Prop := Held start w ∨ Spoilt start w

/-- The buffer has been stored with the finalization: by itself, or with events numbered since. -/
structure Finished (w : World) : Prop where
  calls : w.acceptedCalls = start.acceptedCalls ++ [.finish]
  outcome : ∃ new : List Event,
    w.recorder.sequencer.next.get = start.recorder.sequencer.next.get + new.length
      ∧ (new = [] → start.waiting = 1 → w.Agrees)
      ∧ (new ≠ [] ∨ 2 ≤ start.waiting → w.Broken)

/-- The state of an operation that started at `start`, when it ends. -/
def Settled (w : World) : Prop := Tracked start w ∨ Finished start w

variable {start}

theorem stable_spoilt : Stable (Spoilt start) := by
  rintro w w' h ⟨hbroken, hcalls⟩
  refine ⟨h.agrees_iff.2.mpr hbroken, ?_⟩
  rw [h.acceptedCalls]
  exact hcalls

theorem stable_tracked : Stable (Tracked start) := by
  rintro w w' h (hheld | hspoilt)
  · left
    refine ⟨h.agrees_iff.1.mpr hheld.agrees, h.acceptedCalls.trans hheld.calls, ?_, ?_, ?_⟩
    · rw [h.sequencer, h.runId]
      exact hheld.sequencer
    · rw [h.pending, h.runId]
      exact hheld.owned
    · rw [h.pending, h.sequencer]
      exact hheld.grown
  · exact Or.inr (stable_spoilt w w' h hspoilt)

theorem Held.queue {w : World} (h : Held start w) {payload : EventPayload} {event : Event}
    {sequencer : Sequencer}
    (hnumbered : Numbered w.recorder.sequencer payload event sequencer) :
    Held start (w.queue event sequencer) := by
  obtain ⟨new, hpending, hnext⟩ := h.grown
  refine ⟨h.agrees, h.calls, hnumbered.runId'.trans h.sequencer, ?_, new ++ [event], ?_, ?_⟩
  · intro e he
    rcases List.mem_append.mp he with he | he
    · exact h.owned e he
    · rw [List.mem_singleton.mp he]
      exact hnumbered.runId.trans h.sequencer
  · show w.recorder.pending ++ [event] = _
    rw [hpending, List.append_assoc]
  · show sequencer.next.get = _
    rw [hnumbered.next', hnext, List.length_append, List.length_singleton]
    rfl

theorem Spoilt.queue {w : World} (h : Spoilt start w) (event : Event) (sequencer : Sequencer) :
    Spoilt start (w.queue event sequencer) := ⟨h.broken, h.calls⟩

theorem keeps_queueEvent_tracked (env : Env) (payload : EventPayload) :
    Keeps (Tracked start) (Recorder.queueEvent env payload) := by
  refine spec_queueEvent stable_tracked ?_
  rintro w event sequencer (hheld | hspoilt) hnumbered
  · exact Or.inl (hheld.queue hnumbered)
  · exact Or.inr (hspoilt.queue event sequencer)

/-- One more accepted call does not mend a timeline. -/
theorem Spoilt.accept {w w' : World} (h : Spoilt start w) {call : StoreCall}
    (hbroken : w'.Broken) (hcalls : w'.acceptedCalls = w.acceptedCalls ++ [call]) :
    Spoilt start w' := by
  obtain ⟨first, rest, hw, hfirst⟩ := h.calls
  refine ⟨hbroken, first, rest ++ [call], ?_, hfirst⟩
  rw [hcalls, hw, List.append_assoc]
  rfl

theorem Held.refuse {w : World} (h : Held start w) (call : StoreCall) :
    Held start (w.refuse call) :=
  ⟨h.agrees, (acceptedCalls_refuse w call).trans h.calls, h.sequencer, h.owned, h.grown⟩

theorem Spoilt.refuse {w : World} (h : Spoilt start w) (call : StoreCall) :
    Spoilt start (w.refuse call) := by
  refine ⟨h.broken, ?_⟩
  rw [acceptedCalls_refuse]
  exact h.calls

/-- A held buffer has the terminal event in it. -/
theorem Held.waiting_le {w : World} (h : Held start w) : start.waiting ≤ w.waiting := by
  obtain ⟨new, hpending, -⟩ := h.grown
  rw [World.waiting, World.waiting, hpending, List.countP_append]
  exact Nat.le_add_right _ _

variable (hwaiting : 0 < start.waiting)
include hwaiting

/-- A flush stores the waiting terminal event in an active run, or is refused. -/
theorem spec_flush_tracked (env : Env) :
    Spec (Tracked start) (Recorder.flush env) (fun _ => Spoilt start) (Tracked start) := by
  refine spec_get_bind fun w hw => ?_
  refine spec_ite (fun hnil => spec_pure fun t ht => ?_) fun _ => ?_
  · subst ht
    rcases hw with hheld | hspoilt
    · -- the buffer of `start` is still there
      have hle := hheld.waiting_le
      rw [World.waiting, World.waiting, hnil, List.countP_nil, Nat.le_zero] at hle
      rw [World.waiting, hle] at hwaiting
      exact absurd hwaiting (Nat.lt_irrefl 0)
    · exact hspoilt
  · refine spec_bind (Q := fun _ => Spoilt start) (spec_transact ?_ ?_) fun _ => spec_modify ?_
    · rintro t db rfl happend
      have hcalls : (t.accept .append db).acceptedCalls = t.acceptedCalls ++ [.append] :=
        acceptedCalls_accept t (by decide) db
      rcases hw with hheld | hspoilt
      · have hcompletion := List.countP_pos_iff.mp (Nat.lt_of_lt_of_le hwaiting hheld.waiting_le)
        refine ⟨broken_of_append hheld.owned hcompletion happend, .append, [], ?_, by decide⟩
        rw [hcalls, hheld.calls]
      · exact hspoilt.accept (CompletionBroken.append hspoilt.broken happend) hcalls
    · rintro t rfl
      exact hw.imp (fun hheld => hheld.refuse _) fun hspoilt => hspoilt.refuse _
    · rintro t ⟨hbroken, hcalls⟩
      exact ⟨hbroken, hcalls⟩

omit hwaiting in
theorem spec_commitNumbered_spoilt (env : Env) (codecs : Codecs) (checkpointId : CheckpointId)
    (reason : CheckpointReason) (label : Option String) (snapshot : Snapshot) :
    Keeps (Spoilt start)
      (Recorder.commitNumbered env codecs checkpointId reason label snapshot) := by
  refine spec_bind (spec_sequencerNext stable_spoilt (Q := fun _ => Spoilt start) ?_) fun event =>
    ?_
  · exact fun w event sequencer hw _ => ⟨hw.broken, hw.calls⟩
  · refine spec_transact ?_ fun w hw => hw.refuse _
    intro w db hw hcommit
    obtain ⟨-, -, db₁, hcheckpoint, happend⟩ := commitCheckpointWithEvent_ok hcommit
    obtain ⟨hevents, houtcome⟩ := outcome?_checkpoint hcheckpoint w.recorder.runId
    have hbroken : CompletionBroken db₁ w.recorder.runId :=
      hw.broken.congr hevents fun ⟨outcome, hrun, hstatus⟩ =>
        ⟨outcome, houtcome.trans hrun, hstatus⟩
    exact hw.accept (hbroken.append happend) (acceptedCalls_accept w (by decide) db)

/-- The finalization of a held buffer. -/
theorem Held.finish {w : World} (h : Held start w) {finish : RunFinish} {db : Db}
    (hfinish : finishRunWithEvents w.db w.recorder.runId finish w.recorder.pending = .ok db) :
    Finished start (w.accept .finish db) := by
  obtain ⟨new, hpending, hnext⟩ := h.grown
  have hcount : w.recorder.pending.countP Event.isCompletion
      = start.waiting + new.countP Event.isCompletion := by
    rw [hpending, List.countP_append]
    rfl
  refine ⟨?_, new, hnext, ?_, ?_⟩
  · rw [acceptedCalls_accept w (by decide) db, h.calls]
  · rintro rfl hone
    refine CompletionAgrees.finish h.agrees hfinish ?_
    rw [hcount, hone]
    exact Nat.le_refl 1
  · intro hmore
    refine broken_of_finish hfinish (Or.inr ?_)
    rcases hmore with hnew | htwo
    · -- the last event of the batch is terminal, and it is one of the new ones
      obtain ⟨init, last, hbatch, hpayload, -⟩ := finish_cases hfinish
      obtain ⟨front, final, rfl⟩ := (List.eq_nil_or_concat new).resolve_left hnew
      rw [hpending, List.concat_eq_append, ← List.append_assoc] at hbatch
      have hfinal : final = last := (List.append_inj' hbatch rfl).2 |> List.singleton_inj.mp
      have hpos : 0 < (front.concat final).countP Event.isCompletion := by
        refine List.countP_pos_iff.mpr ⟨final, by simp, ?_⟩
        rw [hfinal, Event.isCompletion, hpayload]
        rfl
      omega
    · omega

theorem spec_commitFinish_tracked (env : Env) (finish : RunFinish) :
    Spec (Tracked start) (Recorder.commitFinish env finish) (fun _ => Settled start)
      (Settled start) := by
  refine spec_get_bind fun w hw => ?_
  refine spec_bind (Q := fun _ v => Finished start v ∨ Spoilt start v) (spec_transact ?_ ?_)
    fun _ => spec_modify ?_
  · rintro t db rfl hfinish
    rcases hw with hheld | hspoilt
    · exact Or.inl (hheld.finish hwaiting hfinish)
    · have hbroken := broken_of_finish hfinish (Or.inl hspoilt.broken.completions_pos)
      exact Or.inr (hspoilt.accept hbroken (acceptedCalls_accept t (by decide) db))
  · rintro t rfl
    exact Or.inl (hw.imp (fun hheld => hheld.refuse _) fun hspoilt => hspoilt.refuse _)
  · rintro t (⟨hcalls, houtcome⟩ | ⟨hbroken, hcalls⟩)
    · exact Or.inr ⟨hcalls, houtcome⟩
    · exact Or.inl (Or.inr ⟨hbroken, hcalls⟩)

theorem upheld_tracked (env : Env) (codecs : Codecs) :
    Upheld env codecs (Tracked start) (Spoilt start) (Tracked start) (Settled start)
      fun _ => True where
  stable := stable_tracked
  stableFlushed := stable_spoilt
  stableCompleted := stable_tracked
  ordinary := fun _ _ => trivial
  flushed := fun _ => Or.inr
  completed := fun _ hw => hw
  done := fun _ => Or.inl
  queueEvent := fun payload _ => keeps_queueEvent_tracked env payload
  flush := (spec_flush_tracked hwaiting env).imp (fun _ hw => hw) (fun _ _ => Or.inr) fun _ hw => hw
  emitFlush := by
    intro payload _
    refine spec_bind (keeps_emit (keeps_queueEvent_tracked env payload) ?_)
      fun _ => spec_flush_tracked hwaiting env
    exact (spec_flush_tracked hwaiting env).imp (fun _ hw => hw) (fun _ _ => Or.inr) fun _ hw => hw
  commitNumbered := fun checkpointId reason label snapshot =>
    (spec_commitNumbered_spoilt env codecs checkpointId reason label snapshot).imp
      (fun _ hw => hw) (fun _ _ => Or.inr) fun _ => Or.inr
  queueCompleted := fun _ _ => keeps_queueEvent_tracked env _
  commitFinish := spec_commitFinish_tracked hwaiting env
  markRunRunning := by
    intro initialSnapshot
    refine spec_get_bind fun w hw => spec_transact ?_ ?_
    · rintro t db rfl hrunning
      have hcalls := acceptedCalls_other t db
      rcases hw with hheld | hspoilt
      · exact Or.inl ⟨hheld.agrees.markRunRunning hrunning, hcalls.trans hheld.calls,
          hheld.sequencer, hheld.owned, hheld.grown⟩
      · refine Or.inr ⟨CompletionBroken.markRunRunning hspoilt.broken hrunning, ?_⟩
        rw [hcalls]
        exact hspoilt.calls
    · rintro t rfl
      exact hw.imp (fun hheld => hheld.refuse _) fun hspoilt => hspoilt.refuse _

end Tracking

/-! ### Runs of the recorder -/

/-- If a terminal event waits in the buffer when the operation starts, the operation writes
nothing to the timeline, or it finalizes the run with that buffer as it is: it has numbered
nothing, and the event is the only terminal one. -/
def CompletionHeld (env : Env) (codecs : Codecs) (w : World) (op : RecorderOp) : Prop :=
  let w' := recorderStep env codecs w op
  0 < w.waiting → w'.acceptedCalls = w.acceptedCalls
    ∨ (w'.acceptedCalls = w.acceptedCalls ++ [.finish]
        ∧ w'.recorder.sequencer.next = w.recorder.sequencer.next ∧ w.waiting = 1)

instance (env : Env) (codecs : Codecs) (w : World) (op : RecorderOp) :
    Decidable (CompletionHeld env codecs w op) := inferInstanceAs (Decidable (_ → _ ∨ _ ∧ _ ∧ _))

/-- An operation that starts with a waiting terminal event ends in agreement exactly if the
event is held. -/
theorem agrees_iff_of_settled {w w' : World} (h : Settled w w') (hwaiting : 0 < w.waiting) :
    w'.Agrees ↔ w'.acceptedCalls = w.acceptedCalls
      ∨ (w'.acceptedCalls = w.acceptedCalls ++ [.finish]
          ∧ w'.recorder.sequencer.next = w.recorder.sequencer.next ∧ w.waiting = 1) := by
  rcases h with (hheld | hspoilt) | hfinished
  · exact ⟨fun _ => Or.inl hheld.calls, fun _ => hheld.agrees⟩
  · obtain ⟨call, rest, hcalls, hcall⟩ := hspoilt.calls
    refine ⟨fun hagrees => absurd hagrees hspoilt.broken.not_agrees, ?_⟩
    rw [hcalls]
    rintro (hsame | ⟨hfinish, -⟩)
    · exact absurd hsame (by simp)
    · exact absurd (List.cons.inj (List.append_cancel_left hfinish)).1 hcall
  · obtain ⟨new, hnext, hsole, hmore⟩ := hfinished.outcome
    constructor
    · intro hagrees
      have hnew : new = [] := by
        by_contra hne
        exact (hmore (Or.inl hne)).not_agrees hagrees
      have hone : ¬ 2 ≤ w.waiting := fun htwo => (hmore (Or.inr htwo)).not_agrees hagrees
      refine Or.inr ⟨hfinished.calls, EventSequence.get_injective ?_, by omega⟩
      rw [hnext, hnew]
      rfl
    · rintro (hsame | ⟨-, hsequence, hone⟩)
      · rw [hfinished.calls] at hsame
        exact absurd hsame (by simp)
      · refine hsole (List.length_eq_zero_iff.mp ?_) hone
        rw [hsequence] at hnext
        omega

/-- An operation that starts in agreement ends in agreement exactly if it holds a waiting
terminal event back. -/
theorem agrees_step_iff {env : Env} {codecs : Codecs} {runId : RunId} {w : World}
    {op : RecorderOp} (hop : ∀ payload ∈ op.payload?, payload.isRunCompleted = false)
    (hw : Numbering runId w) (hagrees : w.Agrees) :
    (recorderStep env codecs w op).Agrees ↔ CompletionHeld env codecs w op := by
  rcases Nat.eq_zero_or_pos w.waiting with hzero | hwaiting
  · refine ⟨fun _ hpos => absurd hpos (by omega), fun _ => ?_⟩
    exact (upheld_clean env codecs).step ⟨hagrees, hzero⟩ hop
  · have hstart : Tracked w w := Or.inl ⟨hagrees, rfl, hw.sequencer, hw.owned, [], by simp, rfl⟩
    have hsettled : Settled w (recorderStep env codecs w op) :=
      (upheld_tracked hwaiting env codecs).step hstart fun _ _ => trivial
    rw [agrees_iff_of_settled hsettled hwaiting]
    exact ⟨fun h _ => h, fun h => h hwaiting⟩

/-- **The terminal event and the run's row.**  Over every run of operations on a recorder, with
any calls failing, the timeline and the row agree in every state reached if and only if every
operation holds back the terminal event it finds waiting.  Only the finalizations queue
terminal events. -/
theorem completion_agrees_iff (env : Env) (codecs : Codecs) (requests : List Request) (run : Run)
    (options : CaptureOptions) (ops : List RecorderOp) {db : Db}
    (h : createRun (Machine.run (step codecs) Db.empty requests) run = .ok db)
    (hops : ∀ op ∈ ops, ∀ payload ∈ op.payload?, payload.isRunCompleted = false) :
    let start := World.start db run.id options
    (∀ pre, pre <+: ops →
        CompletionAgrees (Machine.run (recorderStep env codecs) start pre).db run.id)
      ↔ Machine.Meets (recorderStep env codecs) (CompletionHeld env codecs) start ops := by
  intro start
  have hstart : CompletionAgrees db run.id := by
    refine agrees_of_none ?_
    rw [Db.completions, eventsOf_created h]
    rfl
  rw [← Machine.forall_prefix_iff_meets (P := World.Agrees) (I := Numbering run.id)
    (fun _ op hw _ => numbering_step hw op)
    (fun _ _ hop hw hagrees => agrees_step_iff hop hw hagrees) hops (numbering_start h options)
      hstart]
  refine forall_congr' fun pre => imp_congr_right fun _ => ?_
  have hrun : Numbering run.id (Machine.run (recorderStep env codecs) start pre) :=
    Machine.run_invariant (I := Numbering run.id) (fun _ op hw => numbering_step hw op)
      (numbering_start h options) pre
  rw [World.Agrees, hrun.runId]

/-- The operations of a run that is captured and finishes. -/
def Sample.captured : List RecorderOp :=
  [.checkpoint .initial none, .markRunRunning Sample.emptySnapshot.id, .warning .other "late",
    .finish .completed (.code 0) none]

theorem completion_agrees_sample :
    Machine.Meets (recorderStep (Sample.env 999) Sample.codecs)
        (CompletionHeld (Sample.env 999) Sample.codecs) Sample.world Sample.captured
      ∧ ∀ pre, pre <+: Sample.captured →
        CompletionAgrees (Machine.run (recorderStep (Sample.env 999) Sample.codecs) Sample.world
          pre).db Sample.run.id := by
  have hheld : Machine.Meets (recorderStep (Sample.env 999) Sample.codecs)
      (CompletionHeld (Sample.env 999) Sample.codecs) Sample.world Sample.captured := by
    decide +kernel
  exact ⟨hheld, (completion_agrees_iff (Sample.env 999) Sample.codecs [] Sample.run Sample.options
    Sample.captured Sample.createRun_run (by decide)).mpr hheld⟩

/-- The store refuses the transaction of `finish` once.  The fallback's checkpoint then flushes
the terminal event into the running run, and the fallback finishes the run with another. -/
theorem completion_disagrees_after_refusal :
    let ops : List RecorderOp := [.checkpoint .initial none,
      .markRunRunning Sample.emptySnapshot.id, .finish .completed (.code 0) none]
    let w := Machine.run (recorderStep (Sample.env 13) Sample.codecs) Sample.world ops
    let flushed := recorderStep (Sample.env 13) Sample.codecs w .flush
    let finished := recorderStep (Sample.env 13) Sample.codecs w
      (.finishRunningWithoutChild Sample.emptySnapshot.id "finalization failed")
    (flushed.db.completions Sample.runId = 1
        ∧ (flushed.db.run? Sample.runId).map (·.status) = some .running)
      ∧ finished.db.completions Sample.runId = 2
      ∧ ¬ CompletionAgrees finished.db Sample.runId := by
  refine ⟨by decide +kernel, by decide +kernel, fun h => absurd h.once (by decide +kernel)⟩

end Rewind

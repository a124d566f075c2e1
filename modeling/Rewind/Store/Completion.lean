/-
The terminal event of a run and the run's row.

A timeline that holds a terminal event should hold one, at its end, and the row of the
run should say what the event says (`CompletionAgrees`).  The opposite is lasting: a
timeline with two terminal events, or with one in an active run, never agrees again
(`CompletionBroken`).  For each statement that writes events or finishes runs, the lemmas
below say which of the two it leads to.
-/
import Rewind.Store.Timeline

namespace Rewind

/-- Not an event in the course of a run, but the one that ends it. -/
def EventPayload.isRunCompleted : EventPayload → Bool
  | .runCompleted _ _ => true
  | _ => false

def Event.isCompletion (event : Event) : Bool := event.payload.isRunCompleted

def EventRow.isCompletion (row : EventRow) : Bool := row.payload.isRunCompleted

/-- The status and the exit columns of a run. -/
def RunRow.outcome (row : RunRow) : RunStatus × Option ExitKind × Option Int32 :=
  (row.status, row.exitKind, row.exitValue)

namespace Db

def outcome? (db : Db) (runId : RunId) : Option (RunStatus × Option ExitKind × Option Int32) :=
  (db.run? runId).map RunRow.outcome

/-- How many terminal events the timeline of a run holds. -/
def completions (db : Db) (runId : RunId) : Nat := (db.eventsOf runId).countP EventRow.isCompletion

/-- The run is in an active status. -/
def isActive (db : Db) (runId : RunId) : Prop :=
  ∃ outcome, db.outcome? runId = some outcome ∧ outcome.1.isTerminal = false

end Db

/-- The timeline of a run holds at most one terminal event; that one is its last event, and the
row of the run has the event's status, a terminal one, and the event's exit. -/
structure CompletionAgrees (db : Db) (runId : RunId) : Prop where
  once : db.completions runId ≤ 1
  agrees : ∀ row ∈ db.eventsOf runId, ∀ status exitStatus,
    row.payload = .runCompleted status exitStatus →
      (db.eventsOf runId).getLast? = some row ∧ status.isTerminal = true
        ∧ db.outcome? runId = some (status, encodeExitStatus exitStatus)

/-- The timeline of a run holds two terminal events, or one while the run is active. -/
def CompletionBroken (db : Db) (runId : RunId) : Prop :=
  2 ≤ db.completions runId ∨ (1 ≤ db.completions runId ∧ db.isActive runId)

section Basics

variable {db db' : Db} {runId : RunId}

theorem EventRow.isCompletion_iff {row : EventRow} :
    row.isCompletion = true ↔ ∃ status exitStatus, row.payload = .runCompleted status
      exitStatus := by
  unfold EventRow.isCompletion EventPayload.isRunCompleted
  cases row.payload <;> simp

theorem completions_eq_zero_iff :
    db.completions runId = 0 ↔ ∀ row ∈ db.eventsOf runId, row.isCompletion = false := by
  rw [Db.completions, List.countP_eq_zero]
  simp

theorem agrees_of_none (h : db.completions runId = 0) : CompletionAgrees db runId := by
  refine ⟨by omega, fun row hrow status exitStatus hpayload => ?_⟩
  have hnone := completions_eq_zero_iff.mp h row hrow
  have hsome := EventRow.isCompletion_iff.mpr ⟨status, exitStatus, hpayload⟩
  rw [hnone] at hsome
  exact absurd hsome (by decide)

/-- An active run has no terminal event yet. -/
theorem CompletionAgrees.none_of_active (h : CompletionAgrees db runId)
    (hactive : db.isActive runId) : db.completions runId = 0 := by
  refine completions_eq_zero_iff.mpr fun row hrow => ?_
  obtain ⟨outcome, houtcome, hstatus⟩ := hactive
  by_contra hcompletion
  rw [Bool.not_eq_false] at hcompletion
  obtain ⟨status, exitStatus, hpayload⟩ := EventRow.isCompletion_iff.mp hcompletion
  obtain ⟨-, hterminal, hrun⟩ := h.agrees row hrow status exitStatus hpayload
  rw [hrun] at houtcome
  obtain rfl := Option.some.inj houtcome
  rw [hterminal] at hstatus
  exact absurd hstatus (by decide)

theorem CompletionBroken.not_agrees (h : CompletionBroken db runId) :
    ¬ CompletionAgrees db runId := by
  intro hagrees
  rcases h with htwo | ⟨hone, hactive⟩
  · have honce := hagrees.once
    omega
  · have hnone := hagrees.none_of_active hactive
    omega

theorem completions_congr (hevents : db'.eventsOf runId = db.eventsOf runId) :
    db'.completions runId = db.completions runId := by rw [Db.completions, hevents]; rfl

theorem CompletionAgrees.congr (h : CompletionAgrees db runId)
    (hevents : db'.eventsOf runId = db.eventsOf runId)
    (houtcome : db'.outcome? runId = db.outcome? runId) : CompletionAgrees db' runId := by
  refine ⟨?_, ?_⟩
  · rw [completions_congr hevents]
    exact h.once
  · rw [hevents, houtcome]
    exact h.agrees

theorem CompletionBroken.congr (h : CompletionBroken db runId)
    (hevents : db'.eventsOf runId = db.eventsOf runId)
    (hactive : db.isActive runId → db'.isActive runId) : CompletionBroken db' runId := by
  rw [CompletionBroken, completions_congr hevents]
  exact h.imp_right fun ⟨hone, h⟩ => ⟨hone, hactive h⟩

end Basics

/-! ### Rows that change and keep their outcome -/

section Updates

variable {db db' : Db} {runId : RunId}

theorem outcome?_of_runs (hruns : db'.runs = db.runs) : db'.outcome? runId = db.outcome? runId := by
  rw [Db.outcome?, Db.run?, hruns]
  rfl

/-- An update of runs, read off in their outcomes. -/
theorem outcome?_update {p : RunRow → Bool} {f : RunRow → RunRow}
    (hruns : db'.runs = Table.update p f db.runs) (hid : ∀ row, (f row).id = row.id)
    (runId : RunId) : db'.outcome? runId
      = (db.run? runId).map fun row => RunRow.outcome (if p row then f row else row) := by
  have hrun : db'.run? runId = (db.run? runId).map fun row => if p row then f row else row := by
    rw [Db.run?, hruns]
    exact Table.find_update RunRow.id hid db.runs runId
  rw [Db.outcome?, hrun, Option.map_map]
  rfl

theorem outcome?_checkpoint {codecs : Codecs} {checkpoint : Checkpoint} {snapshot : Snapshot}
    (h : commitCheckpointIn codecs db checkpoint snapshot = .ok db') (runId : RunId) :
    db'.eventsOf runId = db.eventsOf runId ∧ db'.outcome? runId = db.outcome? runId := by
  obtain ⟨db₁, hstore, -, -, -, rfl⟩ := commitCheckpointIn_ok h
  obtain ⟨snapshots, snapshotEntries, rfl⟩ := storeSnapshotIn_frame hstore
  obtain ⟨p, f, hlinked, hf⟩ := linkedRuns_eq_update checkpoint db.runs
  refine ⟨rfl, ?_⟩
  have hid : ∀ row, (f row).id = row.id := by
    intro row
    obtain ⟨_, _, hrow⟩ := hf row
    rw [hrow]
  rw [outcome?_update hlinked hid, Db.outcome?]
  congr 1
  funext row
  obtain ⟨_, _, hrow⟩ := hf row
  by_cases hp : p row
  · rw [if_pos hp, hrow]
    rfl
  · rw [if_neg hp]

end Updates

/-! ### The statements -/

section Statements

variable {db db' : Db} {runId : RunId}

theorem isActive_of_fits {events : List Event} (h : BatchFits db runId events) :
    db.isActive runId := by
  obtain ⟨row, hrow, hactive⟩ := h.active
  exact ⟨row.outcome, by rw [Db.outcome?, hrow]; rfl, hactive⟩

theorem countP_map_eventRow (events : List Event) :
    (events.map eventRow).countP EventRow.isCompletion = events.countP Event.isCompletion := by
  rw [List.countP_map]
  rfl

/-- What a batch does to the timeline of a run: nothing, or the run is active and gains it. -/
theorem append_cases {events : List Event} (h : appendEventBatchIn db events = .ok db')
    (runId : RunId) :
    db'.outcome? runId = db.outcome? runId
      ∧ (db'.eventsOf runId = db.eventsOf runId
          ∨ (db.isActive runId ∧ (∀ event ∈ events, event.runId = runId)
              ∧ db'.eventsOf runId = db.eventsOf runId ++ events.map eventRow)) := by
  obtain ⟨rfl, hfits⟩ := appendEventBatchIn_ok h
  refine ⟨rfl, ?_⟩
  cases events with
  | nil => exact Or.inl (by simp)
  | cons first rest =>
    have hfits := hfits first rfl
    rw [eventsOf_withEvents_owned hfits.owned]
    by_cases hrun : runId = first.runId
    · obtain rfl := hrun
      rw [if_pos rfl]
      exact Or.inr ⟨isActive_of_fits hfits, hfits.owned, rfl⟩
    · rw [if_neg hrun, List.append_nil]
      exact Or.inl rfl

/-- A batch without a terminal event. -/
theorem CompletionAgrees.append (h : CompletionAgrees db runId) {events : List Event}
    (happend : appendEventBatchIn db events = .ok db')
    (hfree : ∀ event ∈ events, event.isCompletion = false) : CompletionAgrees db' runId := by
  obtain ⟨houtcome, hsame | ⟨hactive, -, hevents⟩⟩ := append_cases happend runId
  · exact h.congr hsame houtcome
  · refine agrees_of_none ?_
    have hzero : events.countP Event.isCompletion = 0 := by
      rw [List.countP_eq_zero]
      intro event hevent
      rw [hfree event hevent]
      decide
    rw [Db.completions, hevents, List.countP_append, countP_map_eventRow, hzero]
    exact h.none_of_active hactive

/-- A batch with a terminal event, appended without finishing the run. -/
theorem broken_of_append {events : List Event} (howned : ∀ event ∈ events, event.runId = runId)
    (hcompletion : ∃ event ∈ events, event.isCompletion = true)
    (happend : appendEventBatchIn db events = .ok db') : CompletionBroken db' runId := by
  obtain ⟨rfl, hfits⟩ := appendEventBatchIn_ok happend
  obtain ⟨event, hevent, hcompletion⟩ := hcompletion
  obtain ⟨first, rest, rfl⟩ := List.exists_cons_of_ne_nil (List.ne_nil_of_mem hevent)
  obtain rfl : first.runId = runId := howned first List.mem_cons_self
  have hactive := isActive_of_fits (hfits first rfl)
  refine Or.inr ⟨?_, hactive⟩
  rw [Db.completions, eventsOf_withEvents_owned howned, if_pos rfl, List.countP_append,
    countP_map_eventRow]
  have hpos : 0 < (first :: rest).countP Event.isCompletion :=
    List.countP_pos_iff.mpr ⟨event, hevent, hcompletion⟩
  omega

theorem CompletionBroken.append (h : CompletionBroken db runId) {events : List Event}
    (happend : appendEventBatchIn db events = .ok db') : CompletionBroken db' runId := by
  obtain ⟨houtcome, hsame | ⟨hactive, -, hevents⟩⟩ := append_cases happend runId
  · exact h.congr hsame fun ⟨outcome, hrun, hstatus⟩ => ⟨outcome, houtcome.trans hrun, hstatus⟩
  · obtain ⟨outcome, hrun, hstatus⟩ := hactive
    have hactive' : db'.isActive runId := ⟨outcome, houtcome.trans hrun, hstatus⟩
    have hone : 1 ≤ db.completions runId := by
      rcases h with htwo | ⟨hone, -⟩
      · omega
      · exact hone
    refine Or.inr ⟨?_, hactive'⟩
    rw [Db.completions, hevents, List.countP_append]
    exact Nat.le_trans hone (Nat.le_add_right _ _)

/-- A finalization: the batch ends with the terminal event, and the row says what it says. -/
theorem finish_cases {finish : RunFinish} {events : List Event}
    (h : finishRunWithEvents db runId finish events = .ok db') :
    ∃ init last, events = init ++ [last]
      ∧ last.payload = .runCompleted finish.status finish.exitStatus
      ∧ finish.status.isTerminal = true ∧ db.isActive runId
      ∧ db'.eventsOf runId = db.eventsOf runId ++ events.map eventRow
      ∧ db'.outcome? runId = some (finish.status, encodeExitStatus finish.exitStatus) := by
  obtain ⟨init, last, db₁, hevents, hrunId, hpayload, happend, hfinish⟩ := finishRunWithEvents_ok h
  obtain ⟨hterminal, ⟨row, hrow, -⟩, hdb⟩ := finishRunIn_ok hfinish
  obtain ⟨hwith, hfits⟩ := appendEventBatchIn_ok happend
  have hlast : last ∈ events := by
    rw [hevents]
    exact List.mem_append_right _ List.mem_cons_self
  obtain ⟨first, rest, hcons⟩ := List.exists_cons_of_ne_nil (List.ne_nil_of_mem hlast)
  have hfits := hfits first (by rw [hcons]; rfl)
  have hfirst : first.runId = runId := (hfits.owned last hlast).symm.trans hrunId
  rw [hfirst] at hfits
  have hrows : db'.eventsOf runId = db₁.eventsOf runId := by rw [hdb]; rfl
  refine ⟨init, last, hevents, hpayload, hterminal, isActive_of_fits hfits, ?_, ?_⟩
  · rw [hrows, hwith, eventsOf_withEvents_owned hfits.owned, if_pos rfl]
  · have hid : row.id = runId := Table.find_some_key RunRow.id hrow
    have hruns := congrArg Db.runs hdb
    rw [outcome?_update hruns (fun _ => rfl) runId, hrow, Option.map_some]
    simp only [hid, decide_true, if_true]
    rfl

/-- A finalization whose terminal event is the only one of its batch. -/
theorem CompletionAgrees.finish (h : CompletionAgrees db runId) {finish : RunFinish}
    {events : List Event} (hfinish : finishRunWithEvents db runId finish events = .ok db')
    (hfree : events.countP Event.isCompletion ≤ 1) : CompletionAgrees db' runId := by
  obtain ⟨init, last, hbatch, hpayload, hterminal, hactive, hevents, houtcome⟩ :=
    finish_cases hfinish
  have hnone := h.none_of_active hactive
  have hinit : init.countP Event.isCompletion = 0 := by
    have hlast : last.isCompletion = true := by
      rw [Event.isCompletion, hpayload]
      rfl
    rw [hbatch, List.countP_append, List.countP_singleton, if_pos hlast] at hfree
    omega
  refine ⟨?_, ?_⟩
  · have hcount : db'.completions runId = db.completions runId + events.countP
      Event.isCompletion := by
      rw [Db.completions, hevents, List.countP_append, countP_map_eventRow]
      rfl
    omega
  · intro row hrow status exitStatus hrowPayload
    have hsome := EventRow.isCompletion_iff.mpr ⟨status, exitStatus, hrowPayload⟩
    rw [hevents, hbatch, List.map_append, ← List.append_assoc] at hrow ⊢
    rcases List.mem_append.mp hrow with hrow | hrow
    · -- no event before the last one is terminal
      exfalso
      rcases List.mem_append.mp hrow with hrow | hrow
      · rw [completions_eq_zero_iff.mp hnone row hrow] at hsome
        exact absurd hsome (by decide)
      · obtain ⟨event, hevent, rfl⟩ := List.mem_map.mp hrow
        exact List.countP_eq_zero.mp hinit event hevent hsome
    · obtain rfl := List.mem_singleton.mp hrow
      obtain ⟨rfl, rfl⟩ := EventPayload.runCompleted.inj (hpayload.symm.trans hrowPayload)
      exact ⟨by simp, hterminal, houtcome⟩

/-- A finalization after another terminal event, stored or in the same batch. -/
theorem broken_of_finish {finish : RunFinish} {events : List Event}
    (hfinish : finishRunWithEvents db runId finish events = .ok db')
    (hmore : 1 ≤ db.completions runId ∨ 2 ≤ events.countP Event.isCompletion) :
    CompletionBroken db' runId := by
  obtain ⟨init, last, hbatch, hpayload, -, -, hevents, -⟩ := finish_cases hfinish
  have hcount : db'.completions runId = db.completions runId + events.countP
    Event.isCompletion := by
    rw [Db.completions, hevents, List.countP_append, countP_map_eventRow]
    rfl
  have hlast : 1 ≤ events.countP Event.isCompletion := by
    refine List.countP_pos_iff.mpr ⟨last, ?_, ?_⟩
    · rw [hbatch]
      exact List.mem_append_right _ List.mem_cons_self
    · rw [Event.isCompletion, hpayload]
      rfl
  exact Or.inl (by omega)

theorem CompletionBroken.completions_pos (h : CompletionBroken db runId) :
    1 ≤ db.completions runId := by
  rcases h with htwo | ⟨hone, -⟩
  · omega
  · exact hone

theorem markRunRunning_cases {initialSnapshot : SnapshotId}
    (h : markRunRunning db runId initialSnapshot = .ok db') :
    db'.eventsOf runId = db.eventsOf runId
      ∧ (db'.outcome? runId = db.outcome? runId ∨ (db.isActive runId ∧ db'.isActive runId)) := by
  obtain ⟨-, hdb⟩ := markRunRunning_ok h
  have houtcome := outcome?_update (congrArg Db.runs hdb) (fun _ => rfl) runId
  refine ⟨by rw [hdb]; rfl, ?_⟩
  rcases hrow : db.run? runId with _ | row
  · left
    rw [houtcome, Db.outcome?, hrow]
    rfl
  · rw [hrow, Option.map_some] at houtcome
    by_cases hpreparing : isPreparing runId row = true
    · right
      rw [if_pos hpreparing] at houtcome
      refine ⟨⟨row.outcome, by rw [Db.outcome?, hrow]; rfl, ?_⟩, ⟨_, houtcome, rfl⟩⟩
      show row.status.isTerminal = false
      rw [(of_decide_eq_true hpreparing).2]
      rfl
    · left
      rw [if_neg hpreparing] at houtcome
      rw [houtcome, Db.outcome?, hrow]
      rfl

theorem CompletionAgrees.markRunRunning (h : CompletionAgrees db runId)
    {initialSnapshot : SnapshotId} (hrunning : markRunRunning db runId initialSnapshot = .ok db') :
    CompletionAgrees db' runId := by
  obtain ⟨hevents, houtcome | ⟨hactive, -⟩⟩ := markRunRunning_cases hrunning
  · exact h.congr hevents houtcome
  · refine agrees_of_none ?_
    rw [completions_congr hevents]
    exact h.none_of_active hactive

theorem CompletionBroken.markRunRunning (h : CompletionBroken db runId)
    {initialSnapshot : SnapshotId} (hrunning : markRunRunning db runId initialSnapshot = .ok db') :
    CompletionBroken db' runId := by
  obtain ⟨hevents, houtcome | ⟨-, hactive⟩⟩ := markRunRunning_cases hrunning
  · exact h.congr hevents fun ⟨outcome, hrun, hstatus⟩ => ⟨outcome, houtcome.trans hrun, hstatus⟩
  · exact h.congr hevents fun _ => hactive

end Statements

end Rewind

/-
Durable timelines.

Over any run of the writer, the stored events of a run form a journal: numbered
1, 2, … without a gap, with offsets that never fall.  The journal only grows, and
not at all once its run is terminal.

* `Db.timeline` — the journal of a run, as an abstract value;
* `append_extends` — an accepted batch extends the journal of its run and no other;
* **`timeline_durable`** — the invariant over all runs of the writer.
-/
import Rewind.Store.Writer

namespace Rewind

/-- What holds of every database the writer produces. -/
structure Db.WellFormed (db : Db) : Prop where
  runIds : (db.runs.map (·.id)).Nodup
  owned : ∀ row ∈ db.events, (db.run? row.runId).isSome
  timelines : ∀ runId, Continues EventRow.sequence EventRow.monotonicOffsetNs 0 0
    (db.eventsOf runId)

/-- The run is in a terminal status. -/
def Db.isTerminal (db : Db) (runId : RunId) : Prop :=
  ∃ row, db.run? runId = some row ∧ row.status.isTerminal = true

/-- The timelines of `db'` extend those of `db`; those of terminal runs are the same. -/
structure TimelinesExtend (db db' : Db) : Prop where
  grows : db.events <+: db'.events
  terminal : ∀ runId, db.isTerminal runId →
    db'.isTerminal runId ∧ db'.eventsOf runId = db.eventsOf runId

/-- A step of the writer keeps its invariant and extends the timelines. -/
def KeepsTimelines (db db' : Db) : Prop :=
  db.WellFormed → db'.WellFormed ∧ TimelinesExtend db db'

/-! ### The journal of a run -/

section Journals

variable {db : Db}

/-- The stored events of a run, as a journal. -/
def Db.timeline (hdb : db.WellFormed) (runId : RunId) :
    Journal EventRow.sequence EventRow.monotonicOffsetNs :=
  ⟨db.eventsOf runId, hdb.timelines runId⟩

theorem Db.WellFormed.lastEvent? (hdb : db.WellFormed) (runId : RunId) :
    db.lastEvent? runId = (db.eventsOf runId).getLast? :=
  Table.maxBy_eq_getLast? (hdb.timelines runId).pairwise_seq

/-- The query for the last event reads the length of the journal. -/
theorem Db.WellFormed.lastSequence (hdb : db.WellFormed) (runId : RunId) :
    db.lastSequence runId = (db.timeline hdb runId).last := by
  have hlast := (hdb.timelines runId).seq_getLast
  rw [Db.lastSequence, hdb.lastEvent?, hlast, Nat.zero_add]
  rfl

theorem Db.WellFormed.lastOffset (hdb : db.WellFormed) (runId : RunId) :
    db.lastOffset runId = (db.timeline hdb runId).time := by
  rw [Db.lastOffset, hdb.lastEvent?]
  rfl

/-- The rows of a batch carry its numbers and offsets. -/
theorem continues_map_eventRow {n t : Nat} {events : List Event} :
    Continues EventRow.sequence EventRow.monotonicOffsetNs n t (events.map eventRow)
      ↔ Continues Event.seq Event.offset n t events := by
  induction events generalizing n t with
  | nil => rfl
  | cons event rest ih =>
    rw [List.map_cons, continues_cons, continues_cons]
    exact and_congr_right fun _ => and_congr_right fun _ => ih

/-- What a batch adds to the timeline of a run: everything, or nothing. -/
theorem eventsOf_withEvents_owned {runId : RunId} {events : List Event}
    (howned : ∀ event ∈ events, event.runId = runId) (runId' : RunId) :
    (db.withEvents events).eventsOf runId'
      = db.eventsOf runId' ++ if runId' = runId then events.map eventRow else [] := by
  rw [Db.eventsOf_withEvents]
  congr 1
  by_cases h : runId' = runId
  · rw [if_pos h, List.filter_eq_self.mpr]
    intro event hevent
    rw [decide_eq_true_iff, h]
    exact howned event hevent
  · rw [if_neg h, List.filter_eq_nil_iff.mpr, List.map_nil]
    intro event hevent hrun
    exact h ((of_decide_eq_true hrun).symm.trans (howned event hevent))

end Journals

/-! ### The statements keep the timelines -/

theorem KeepsTimelines.refl (db : Db) : KeepsTimelines db db := fun hdb =>
  ⟨hdb, List.prefix_refl _, fun _ hterminal => ⟨hterminal, rfl⟩⟩

theorem KeepsTimelines.trans {db₁ db₂ db₃ : Db} (h₁₂ : KeepsTimelines db₁ db₂)
    (h₂₃ : KeepsTimelines db₂ db₃) : KeepsTimelines db₁ db₃ := by
  intro hdb₁
  obtain ⟨hdb₂, hgrows₂, hterminal₂⟩ := h₁₂ hdb₁
  obtain ⟨hdb₃, hgrows₃, hterminal₃⟩ := h₂₃ hdb₂
  refine ⟨hdb₃, hgrows₂.trans hgrows₃, ?_⟩
  intro runId hterminal
  obtain ⟨hstill, hsame⟩ := hterminal₂ runId hterminal
  obtain ⟨hstill', hsame'⟩ := hterminal₃ runId hstill
  exact ⟨hstill', hsame'.trans hsame⟩

/-- A statement that writes neither events nor runs. -/
theorem KeepsTimelines.of_eq {db db' : Db} (hevents : db'.events = db.events)
    (hruns : db'.runs = db.runs) : KeepsTimelines db db' := by
  intro hdb
  have hrun : ∀ runId, db'.run? runId = db.run? runId := fun runId => by rw [Db.run?, hruns]; rfl
  have heventsOf : ∀ runId, db'.eventsOf runId = db.eventsOf runId := fun runId => by
    rw [Db.eventsOf, hevents]
    rfl
  refine ⟨⟨?_, ?_, ?_⟩, ?_, ?_⟩
  · rw [hruns]
    exact hdb.runIds
  · intro row hrow
    rw [hrun]
    exact hdb.owned row (hevents ▸ hrow)
  · intro runId
    rw [heventsOf]
    exact hdb.timelines runId
  · rw [hevents]
  · intro runId hterminal
    refine ⟨?_, heventsOf runId⟩
    rw [Db.isTerminal, hrun]
    exact hterminal

/-- A statement that updates runs, keeps their identifiers and leaves terminal ones terminal. -/
theorem KeepsTimelines.of_update {db db' : Db} {p : RunRow → Bool} {f : RunRow → RunRow}
    (hevents : db'.events = db.events) (hruns : db'.runs = Table.update p f db.runs)
    (hid : ∀ row, (f row).id = row.id)
    (hterminal : ∀ row, p row = true → row.status.isTerminal = true →
      (f row).status.isTerminal = true) : KeepsTimelines db db' := by
  intro hdb
  have hrun : ∀ runId, db'.run? runId
      = (db.run? runId).map fun row => if p row then f row else row := fun runId => by
    rw [Db.run?, hruns]
    exact Table.find_update _ hid db.runs runId
  have heventsOf : ∀ runId, db'.eventsOf runId = db.eventsOf runId := fun runId => by
    rw [Db.eventsOf, hevents]
    rfl
  refine ⟨⟨?_, ?_, ?_⟩, ?_, ?_⟩
  · rw [hruns, Table.map_key_update _ hid]
    exact hdb.runIds
  · intro row hrow
    rw [hrun, Option.isSome_map]
    exact hdb.owned row (hevents ▸ hrow)
  · intro runId
    rw [heventsOf]
    exact hdb.timelines runId
  · rw [hevents]
  · rintro runId ⟨row, hrow, hstatus⟩
    refine ⟨⟨if p row then f row else row, ?_, ?_⟩, heventsOf runId⟩
    · rw [hrun, hrow]
      rfl
    · cases hp : p row
      · exact hstatus
      · exact hterminal row hp hstatus

theorem keepsTimelines_createRun {db db' : Db} {run : Run} (h : createRun db run = .ok db') :
    KeepsTimelines db db' := by
  intro hdb
  obtain ⟨-, -, hfresh, runArguments, runParents, rfl⟩ := createRun_ok h
  have hrun : ∀ runId row, db.run? runId = some row →
      Table.find (·.id) (db.runs ++ [runRow run]) runId = some row := by
    intro runId row hrow
    have hfind : Table.find (·.id) db.runs runId = some row := hrow
    rw [Table.find_append, hfind]
    rfl
  refine ⟨⟨?_, ?_, hdb.timelines⟩, List.prefix_refl _, ?_⟩
  · exact Table.insert_nodup _ hdb.runIds hfresh
  · intro row hrow
    obtain ⟨owner, howner⟩ := Option.isSome_iff_exists.mp (hdb.owned row hrow)
    exact Option.isSome_iff_exists.mpr ⟨owner, hrun _ _ howner⟩
  · rintro runId ⟨row, hrow, hstatus⟩
    exact ⟨⟨row, hrun _ _ hrow, hstatus⟩, rfl⟩

/-- An accepted batch extends the journal of its run and leaves the others alone. -/
theorem append_extends {db db' : Db} {events : List Event}
    (h : appendEventBatchIn db events = .ok db') (hdb : db.WellFormed) (runId : RunId) :
    Continues EventRow.sequence EventRow.monotonicOffsetNs 0 0 (db'.eventsOf runId)
      ∧ (db.isTerminal runId → db'.eventsOf runId = db.eventsOf runId) := by
  obtain ⟨rfl, hfits⟩ := appendEventBatchIn_ok h
  cases events with
  | nil => exact ⟨by simpa using hdb.timelines runId, by simp⟩
  | cons first rest =>
    have hfits := hfits first rfl
    rw [eventsOf_withEvents_owned hfits.owned]
    by_cases hrun : runId = first.runId
    · obtain rfl := hrun
      rw [if_pos rfl]
      constructor
      · -- the batch continues the journal that the query for the last event has read
        rw [continues_append, Nat.zero_add, continues_map_eventRow]
        refine ⟨hdb.timelines _, ?_⟩
        have hcontinues := hfits.continues
        rw [hdb.lastSequence, hdb.lastOffset] at hcontinues
        exact hcontinues
      · rintro ⟨row, hrow, hterminal⟩
        obtain ⟨row', hrow', hactive⟩ := hfits.active
        obtain rfl := Option.some.inj (hrow.symm.trans hrow')
        exact absurd hactive (by rw [hterminal]; decide)
    · rw [if_neg hrun, List.append_nil]
      exact ⟨hdb.timelines runId, fun _ => rfl⟩

theorem keepsTimelines_append {db db' : Db} {events : List Event}
    (h : appendEventBatchIn db events = .ok db') : KeepsTimelines db db' := by
  intro hdb
  have hextends := append_extends h hdb
  obtain ⟨rfl, hfits⟩ := appendEventBatchIn_ok h
  refine ⟨⟨hdb.runIds, ?_, fun runId => (hextends runId).1⟩, List.prefix_append _ _, ?_⟩
  · intro row hrow
    rcases List.mem_append.mp hrow with hrow | hrow
    · exact hdb.owned row hrow
    · obtain ⟨event, hevent, rfl⟩ := List.mem_map.mp hrow
      cases events with
      | nil => exact absurd hevent List.not_mem_nil
      | cons first rest =>
        have hfits := hfits first rfl
        obtain ⟨owner, howner, -⟩ := hfits.active
        refine Option.isSome_iff_exists.mpr ⟨owner, ?_⟩
        rw [← howner]
        exact congrArg db.run? (hfits.owned event hevent)
  · intro runId hterminal
    exact ⟨hterminal, (hextends runId).2 hterminal⟩

theorem keepsTimelines_storeSnapshot {codecs : Codecs} {db db' : Db} {snapshot : Snapshot}
    {createdAt : Timestamp} (h : storeSnapshotIn codecs db snapshot createdAt = .ok db') :
    KeepsTimelines db db' := by
  obtain ⟨snapshots, snapshotEntries, rfl⟩ := storeSnapshotIn_frame h
  exact KeepsTimelines.of_eq rfl rfl

theorem keepsTimelines_checkpoint {codecs : Codecs} {db db' : Db} {checkpoint : Checkpoint}
    {snapshot : Snapshot} (h : commitCheckpointIn codecs db checkpoint snapshot = .ok db') :
    KeepsTimelines db db' := by
  obtain ⟨db₁, hstore, -, -, -, rfl⟩ := commitCheckpointIn_ok h
  obtain ⟨snapshots, snapshotEntries, rfl⟩ := storeSnapshotIn_frame hstore
  obtain ⟨p, f, hlinked, hf⟩ := linkedRuns_eq_update checkpoint db.runs
  refine KeepsTimelines.of_update rfl hlinked (fun row => ?_) (fun row _ hterminal => ?_)
  · obtain ⟨_, _, hrow⟩ := hf row
    rw [hrow]
  · obtain ⟨_, _, hrow⟩ := hf row
    rw [hrow]
    exact hterminal

theorem statements_keepTimelines (codecs : Codecs) : StatementsRelate codecs KeepsTimelines where
  refl := KeepsTimelines.refl
  trans := KeepsTimelines.trans
  createRun := keepsTimelines_createRun
  markRunRunning h := by
    obtain ⟨-, rfl⟩ := markRunRunning_ok h
    refine KeepsTimelines.of_update rfl rfl (fun _ => rfl) ?_
    intro row hrow hterminal
    obtain ⟨-, hpreparing⟩ := of_decide_eq_true hrow
    rw [hpreparing] at hterminal
    exact absurd hterminal (by decide)
  append := keepsTimelines_append
  storeSnapshot := keepsTimelines_storeSnapshot
  checkpoint := keepsTimelines_checkpoint
  finish h := by
    obtain ⟨hterminal, -, rfl⟩ := finishRunIn_ok h
    exact KeepsTimelines.of_update rfl rfl (fun _ => rfl) (fun _ _ _ => hterminal)
  recover h := by
    obtain ⟨-, warnings, rfl⟩ := markInterruptedRuns_ok h
    exact KeepsTimelines.of_update rfl rfl (fun _ => rfl) (fun _ _ _ => rfl)
  recordObject h := by
    obtain ⟨row, -, -, -, rfl, -⟩ := recordObject_ok h
    obtain ⟨rows, -, hdb⟩ := Db.insertObject_frame _ row
    rw [hdb]
    exact KeepsTimelines.of_eq rfl rfl
  deleteObject h := by
    obtain ⟨-, rfl⟩ := deleteObjectRow_ok h
    exact KeepsTimelines.of_eq rfl rfl

/-! ### Runs of the writer -/

theorem wellFormed_empty : Db.empty.WellFormed where
  runIds := List.nodup_nil
  owned := by
    intro row hrow
    exact absurd hrow List.not_mem_nil
  timelines := fun _ => trivial

/-- Every database the writer reaches is well formed. -/
theorem wellFormed_run (codecs : Codecs) (requests : List Request) :
    (Machine.run (step codecs) Db.empty requests).WellFormed :=
  ((statements_keepTimelines codecs).run Db.empty requests wellFormed_empty).1

/-- **Durable timelines.**  In every database the writer reaches, the events of a run are
numbered 1, …, n in storage order, their offsets follow their numbers, and each belongs to
the run and to an existing one.  Whatever the writer does next, stored events stay, the
timeline of a terminal run stays whole, and a request that fails changes nothing. -/
theorem timeline_durable (codecs : Codecs) (requests more : List Request) (runId : RunId) :
    let db := Machine.run (step codecs) Db.empty requests
    let db' := Machine.run (step codecs) db more
    (db.eventsOf runId).map (·.sequence) = List.range' 1 (db.eventsOf runId).length
      ∧ (∀ row ∈ db.eventsOf runId, ∀ row' ∈ db.eventsOf runId,
          row.sequence ≤ row'.sequence → row.monotonicOffsetNs ≤ row'.monotonicOffsetNs)
      ∧ (∀ row ∈ db.eventsOf runId, row.runId = runId)
      ∧ (∀ row ∈ db.events, (db.run? row.runId).isSome)
      ∧ db.events <+: db'.events
      ∧ (db.isTerminal runId → db'.eventsOf runId = db.eventsOf runId)
      ∧ ∀ request error, Request.result codecs db request = .error error →
          step codecs db request = db := by
  intro db db'
  have hdb : db.WellFormed := wellFormed_run codecs requests
  obtain ⟨-, hgrows, hterminal⟩ := (statements_keepTimelines codecs).run db more hdb
  refine ⟨(hdb.timelines runId).map_seq, fun row hrow row' hrow' =>
    (hdb.timelines runId).clock_mono hrow hrow', ?_, hdb.owned, hgrows,
    fun h => (hterminal runId h).2, ?_⟩
  · intro row hrow
    exact of_decide_eq_true (List.mem_filter.mp hrow).2
  · intro request error hresult
    rw [step, hresult]

/-! ### Checkpoints belong to runs -/

/-- Every checkpoint belongs to a run of the table. -/
def Db.CheckpointsOwned (db : Db) : Prop := ∀ row ∈ db.checkpoints, row.runId ∈ db.runs.map (·.id)

/-- A statement that adds no checkpoint and removes no run. -/
theorem Db.CheckpointsOwned.of_eq {db db' : Db} (h : db.CheckpointsOwned)
    (hcheckpoints : db'.checkpoints = db.checkpoints)
    (hruns : db.runs.map (·.id) ⊆ db'.runs.map (·.id)) : db'.CheckpointsOwned := by
  intro row hrow
  rw [hcheckpoints] at hrow
  exact hruns (h row hrow)

/-- A statement that updates the runs under their identifiers. -/
theorem Db.CheckpointsOwned.of_update {db db' : Db} {p : RunRow → Bool} {f : RunRow → RunRow}
    (h : db.CheckpointsOwned) (hcheckpoints : db'.checkpoints = db.checkpoints)
    (hruns : db'.runs = Table.update p f db.runs) (hid : ∀ row, (f row).id = row.id) :
    db'.CheckpointsOwned := by
  refine h.of_eq hcheckpoints ?_
  rw [hruns, Table.map_key_update RunRow.id hid]
  exact List.Subset.refl _

theorem statements_keepCheckpointsOwned (codecs : Codecs) :
    StatementsRelate codecs (fun db db' => db.CheckpointsOwned → db'.CheckpointsOwned) where
  refl _ hdb := hdb
  trans h h' hdb := h' (h hdb)
  createRun h hdb := by
    obtain ⟨-, -, -, runArguments, runParents, rfl⟩ := createRun_ok h
    refine hdb.of_eq rfl ?_
    rw [List.map_append]
    exact List.subset_append_left _ _
  markRunRunning h hdb := by
    obtain ⟨-, rfl⟩ := markRunRunning_ok h
    exact hdb.of_update rfl rfl fun _ => rfl
  append h hdb := by
    obtain ⟨rfl, -⟩ := appendEventBatchIn_ok h
    exact hdb.of_eq rfl (List.Subset.refl _)
  storeSnapshot h hdb := by
    obtain ⟨snapshots, snapshotEntries, rfl⟩ := storeSnapshotIn_frame h
    exact hdb.of_eq rfl (List.Subset.refl _)
  checkpoint h hdb := by
    rename_i db db' checkpoint snapshot
    obtain ⟨db₁, hstore, hrun, -, -, rfl⟩ := commitCheckpointIn_ok h
    obtain ⟨p, f, hlinked, hf⟩ := linkedRuns_eq_update checkpoint db.runs
    have hids : (linkedRuns checkpoint db.runs).map (·.id) = db.runs.map (·.id) := by
      rw [hlinked]
      refine Table.map_key_update RunRow.id (fun row => ?_) _
      obtain ⟨_, _, hrow⟩ := hf row
      rw [hrow]
    intro row hrow
    show row.runId ∈ (linkedRuns checkpoint db.runs).map (·.id)
    rw [hids]
    rcases List.mem_append.mp hrow with hrow | hrow
    · exact hdb row hrow
    · rw [List.mem_singleton.mp hrow]
      exact (Table.find_isSome_iff RunRow.id).mp hrun
  finish h hdb := by
    obtain ⟨-, -, rfl⟩ := finishRunIn_ok h
    exact hdb.of_update rfl rfl fun _ => rfl
  recover h hdb := by
    obtain ⟨-, warnings, rfl⟩ := markInterruptedRuns_ok h
    exact hdb.of_update rfl rfl fun _ => rfl
  recordObject h hdb := by
    obtain ⟨row, -, -, -, rfl, -⟩ := recordObject_ok h
    obtain ⟨rows, -, hinsert⟩ := Db.insertObject_frame _ row
    rw [hinsert]
    exact hdb.of_eq rfl (List.Subset.refl _)
  deleteObject h hdb := by
    obtain ⟨-, rfl⟩ := deleteObjectRow_ok h
    exact hdb.of_eq rfl (List.Subset.refl _)

/-- A run that has just been created has no checkpoints. -/
theorem checkpoints_created {codecs : Codecs} {requests : List Request} {run : Run} {db : Db}
    (h : createRun (Machine.run (step codecs) Db.empty requests) run = .ok db) :
    ∀ row ∈ db.checkpoints, row.runId ≠ run.id := by
  have hbefore := (statements_keepCheckpointsOwned codecs).run Db.empty requests
    fun _ hrow => absurd hrow List.not_mem_nil
  obtain ⟨-, -, hfresh, runArguments, runParents, rfl⟩ := createRun_ok h
  intro row hrow hid
  refine hfresh ?_
  rw [← hid]
  exact hbefore row hrow

end Rewind

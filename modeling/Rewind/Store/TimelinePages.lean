/-
Pages of a timeline that grows.

A reader goes through the timeline of a run page by page, while the writer goes on.  What it has
been given is always the front of the timeline, and a page without more after it ends with the
last event that there was.

* `TimelineOf` — a run's stored events, as the events that its pages return;
* `loadTimeline_ok` — a page is a slice of them;
* **`timeline_paging`** — the reader's view, over any interleaving with the writer.
-/
import Rewind.Store.Queries

namespace Rewind

/-! ### Stored events are readable -/

/-- An event that the store takes, and whose row decodes. -/
structure Event.Storable (event : Event) : Prop where
  valid : event.validate = .ok ()
  sequence : event.seq < 2 ^ 63

/-- Every row of the table is that of a storable event. -/
def Db.EventsReadable (db : Db) : Prop :=
  ∀ row ∈ db.events, ∃ event : Event, event.Storable ∧ eventRow event = row

theorem decodeEvent_eventRow {event : Event} (h : event.validate = .ok ()) :
    decodeEvent (eventRow event) = .ok event := by
  have hsequence : (UInt64.ofNat event.seq).toNat = event.seq :=
    UInt64.toNat_ofNat_of_lt event.sequence.lt
  have hnew : EventSequence.new (UInt64.ofNat event.seq) = some event.sequence := by
    have hpos : 0 < (UInt64.ofNat event.seq).toNat := by
      rw [hsequence]
      exact event.sequence.pos
    rw [EventSequence.new, dif_pos hpos]
    exact congrArg some (EventSequence.get_injective hsequence)
  have hoffset : UInt64.ofNat event.offset = event.monotonicOffset.nanoseconds :=
    UInt64.ofNat_toNat
  refine ensure_bind_eq_ok_iff.mpr ⟨rfl, ?_⟩
  refine Except.bind_eq_ok_iff.mpr ⟨_, decodeU64_eq_ok_iff.mpr hsequence, ?_⟩
  refine Except.bind_eq_ok_iff.mpr ⟨event.sequence, by rw [hnew]; rfl, ?_⟩
  refine Except.bind_eq_ok_iff.mpr ⟨event.monotonicOffset.nanoseconds,
    decodeU64_eq_ok_iff.mpr rfl, ?_⟩
  exact Except.bind_eq_ok_iff.mpr ⟨(), Except.mapError_eq_ok_iff.mpr h, rfl⟩

theorem Db.EventsReadable.of_eq {db db' : Db} (h : db.EventsReadable)
    (hevents : db'.events = db.events) :
    db'.EventsReadable := by
  intro row hrow
  rw [hevents] at hrow
  exact h row hrow

theorem statements_keepEvents (codecs : Codecs) :
    StatementsRelate codecs (fun db db' => db.EventsReadable → db'.EventsReadable) where
  refl _ hdb := hdb
  trans h h' hdb := h' (h hdb)
  createRun h hdb := by
    obtain ⟨-, -, -, runArguments, runParents, rfl⟩ := createRun_ok h
    exact hdb.of_eq rfl
  markRunRunning h hdb := by
    obtain ⟨-, rfl⟩ := markRunRunning_ok h
    exact hdb.of_eq rfl
  append h hdb := by
    rename_i db db' events
    obtain ⟨rfl, hfits⟩ := appendEventBatchIn_ok h
    intro row hrow
    rcases List.mem_append.mp hrow with hold | hnew
    · exact hdb row hold
    · obtain ⟨event, hevent, rfl⟩ := List.mem_map.mp hnew
      cases events with
      | nil => exact absurd hevent List.not_mem_nil
      | cons first rest =>
        have hfits := hfits first rfl
        exact ⟨event, ⟨hfits.valid event hevent, (hfits.storable event hevent).1⟩, rfl⟩
  storeSnapshot h hdb := by
    obtain ⟨snapshots, snapshotEntries, rfl⟩ := storeSnapshotIn_frame h
    exact hdb.of_eq rfl
  checkpoint h hdb := by
    obtain ⟨db₁, hstore, -, -, -, rfl⟩ := commitCheckpointIn_ok h
    obtain ⟨snapshots, snapshotEntries, rfl⟩ := storeSnapshotIn_frame hstore
    exact hdb.of_eq rfl
  finish h hdb := by
    obtain ⟨-, -, rfl⟩ := finishRunIn_ok h
    exact hdb.of_eq rfl
  recover h hdb := by
    obtain ⟨-, warnings, rfl⟩ := markInterruptedRuns_ok h
    exact hdb.of_eq rfl
  recordObject h hdb := by
    obtain ⟨row, -, -, -, rfl, -⟩ := recordObject_ok h
    obtain ⟨rows, -, hinsert⟩ := Db.insertObject_frame _ row
    rw [hinsert]
    exact hdb.of_eq rfl
  deleteObject h hdb := by
    obtain ⟨-, rfl⟩ := deleteObjectRow_ok h
    exact hdb.of_eq rfl

/-! ### Pages are slices -/

/-- The stored events of a run, in their order. -/
structure TimelineOf (db : Db) (runId : RunId) (events : List Event) : Prop where
  rows : db.eventsOf runId = events.map eventRow
  numbered : events.map Event.seq = List.range' 1 events.length
  storable : ∀ event ∈ events, event.Storable

theorem exists_timelineOf {db : Db} (hdb : db.WellFormed) (hreadable : db.EventsReadable)
    (runId : RunId) : ∃ events, TimelineOf db runId events := by
  have hchoose : ∀ rows : List EventRow, (∀ row ∈ rows, row ∈ db.events) →
      ∃ events : List Event, rows = events.map eventRow ∧ ∀ event ∈ events, event.Storable := by
    intro rows hrows
    induction rows with
    | nil => exact ⟨[], rfl, by simp⟩
    | cons row rest ih =>
      obtain ⟨hrow, hrest⟩ := List.forall_mem_cons.mp hrows
      obtain ⟨event, hevent, rfl⟩ := hreadable row hrow
      obtain ⟨events, rfl, hevents⟩ := ih hrest
      exact ⟨event :: events, rfl, List.forall_mem_cons.mpr ⟨hevent, hevents⟩⟩
  obtain ⟨events, hrows, hevents⟩ :=
    hchoose (db.eventsOf runId) fun row hrow => List.mem_of_mem_filter hrow
  refine ⟨events, hrows, ?_, hevents⟩
  have hnumbered := (hdb.timelines runId).map_seq
  rw [hrows, List.length_map, List.map_map] at hnumbered
  exact hnumbered

variable {db : Db} {runId : RunId} {events : List Event}

/-- The events have the numbers of their places. -/
theorem TimelineOf.seq_getElem (h : TimelineOf db runId events) {i : Nat} (hi : i < events.length) :
    events[i].seq = i + 1 := by
  have hnumber : (events.map Event.seq)[i]? = (List.range' 1 events.length)[i]? := by
    rw [h.numbered]
  rw [List.getElem?_map, List.getElem?_eq_getElem hi, List.getElem?_range' hi] at hnumber
  simp only [Option.map_some, Option.some.injEq] at hnumber
  omega

theorem TimelineOf.length_lt (h : TimelineOf db runId events) : events.length < 2 ^ 63 := by
  rcases Nat.eq_zero_or_pos events.length with hzero | hpos
  · omega
  · have hlast := h.seq_getElem (i := events.length - 1) (by omega)
    have hlt := (h.storable events[events.length - 1] (List.getElem_mem _)).sequence
    rw [hlast] at hlt
    omega

/-- The page behind the first `n` events: the next ones up to the limit, and whether there are
more of them. -/
theorem loadTimeline_ok (h : TimelineOf db runId events) {after : Option EventSequence}
    {limit : UInt32} (hlimit : 0 < limit.toNat) (hmaximum : limit.toNat ≤ MAX_TIMELINE_PAGE)
    (hafter : timelineCursor after ≤ events.length) :
    loadTimeline db runId after limit
      = .ok ⟨(events.drop (timelineCursor after)).take limit.toNat,
          decide (limit.toNat < (events.drop (timelineCursor after)).length)⟩ := by
  have hlength := h.length_lt
  have hcursor : timelineCursor after < 2 ^ 63 := by omega
  have hnumbered : (events.map eventRow).map EventRow.sequence
      = List.range' 1 (events.map eventRow).length := by
    rw [List.length_map, List.map_map]
    exact h.numbered
  have hrows : rowsAfter EventRow.sequence (db.eventsOf runId) (timelineCursor after)
      = (events.drop (timelineCursor after)).map eventRow := by
    rw [h.rows, rowsAfter_numbered hnumbered, List.map_drop]
  have hdecode : (((events.drop (timelineCursor after)).map eventRow).take
      (limit.toNat + 1)).mapM decodeEvent
        = .ok ((events.drop (timelineCursor after)).take (limit.toNat + 1)) := by
    rw [← List.map_take, List.mapM_eq_ok_iff, List.forall₂_map_left_iff, List.forall₂_same]
    intro event hevent
    exact decodeEvent_eventRow
      (h.storable event (List.mem_of_mem_drop (List.mem_of_mem_take hevent))).valid
  refine ensure_bind_eq_ok_iff.mpr ⟨⟨by omega, hmaximum⟩, ?_⟩
  refine Except.bind_eq_ok_iff.mpr ⟨_, sqlU64_eq_ok_iff.mpr ⟨hcursor, rfl⟩, ?_⟩
  rw [loadPage, hrows, hdecode]
  show Except.ok _ = _
  congr 2
  · rw [List.take_take, min_eq_left (Nat.le_succ _)]
  · rw [decide_eq_decide, List.length_take]
    omega

/-! ### A reader beside the writer -/

/-- A reader that goes through the timeline of a run, and the store that it reads. -/
structure PagedReader where
  db : Db
  cursor : Option EventSequence
  /-- All that the pages have had. -/
  given : List Event
  /-- The last page, and the database from which it was read. -/
  last : Option (Db × Page Event)
  failed : Option StoreError

/-- The writer serves a request, or the reader reads a page. -/
inductive ReaderTurn where
  | write (request : Request)
  | read

namespace PagedReader

def start (db : Db) : PagedReader := ⟨db, none, [], none, none⟩

/-- A page is read behind the last event of the one before. -/
def step (codecs : Codecs) (runId : RunId) (limit : UInt32) (s : PagedReader) :
    ReaderTurn → PagedReader
  | .write request => { s with db := Rewind.step codecs s.db request }
  | .read =>
    match loadTimeline s.db runId s.cursor limit with
    | .error error => { s with failed := some error }
    | .ok page => { s with
        cursor := page.next (fun event => some event.sequence) s.cursor
        given := s.given ++ page.items
        last := some (s.db, page) }

/-- What holds of the reader and the store at any time. -/
structure Follows (runId : RunId) (limit : UInt32) (s : PagedReader) : Prop where
  wellFormed : s.db.WellFormed
  readable : s.db.EventsReadable
  given : s.given.map eventRow <+: s.db.eventsOf runId
  cursor : timelineCursor s.cursor = s.given.length
  failed : s.failed = none
  last : ∀ db page, s.last = some (db, page) →
    s.given.map eventRow <+: db.eventsOf runId ∧ db.WellFormed
      ∧ (page.hasMore = true ↔ s.given.length < (db.eventsOf runId).length)
      ∧ (page.hasMore = true → page.items.length = limit.toNat)

variable {codecs : Codecs} {limit : UInt32} {s : PagedReader}

theorem follows_start (hdb : db.WellFormed) (hreadable : db.EventsReadable) :
    Follows runId limit (start db) where
  wellFormed := hdb
  readable := hreadable
  given := List.nil_prefix
  cursor := rfl
  failed := rfl
  last := by
    intro db page h
    exact nomatch h

theorem Follows.write (h : Follows runId limit s) (request : Request) :
    Follows runId limit (step codecs runId limit s (.write request)) where
  wellFormed := ((statements_keepTimelines codecs).step s.db request h.wellFormed).1
  readable := (statements_keepEvents codecs).step s.db request h.readable
  given := by
    have hgrows := ((statements_keepTimelines codecs).step s.db request h.wellFormed).2.grows
    exact h.given.trans (hgrows.filter _)
  cursor := h.cursor
  failed := h.failed
  last := h.last

/-- The front of a timeline is numbered as the whole is. -/
theorem numbered_of_prefix {rows : List EventRow} {given : List Event}
    (hrows : rows.map EventRow.sequence = List.range' 1 rows.length)
    (h : given.map eventRow <+: rows) : given.map Event.seq = List.range' 1 given.length := by
  obtain ⟨rest, rfl⟩ := h
  rw [List.map_append, List.length_append, List.map_map, List.length_map,
    ← List.range'_append_1] at hrows
  exact (List.append_inj hrows (by simp)).1

/-- A timeline that is longer than its front has an event behind it. -/
theorem behind_iff {rows : List EventRow} {given : List Event}
    (hrows : rows.map EventRow.sequence = List.range' 1 rows.length)
    (h : given.map eventRow <+: rows) :
    given.length < rows.length ↔ ∃ row ∈ rows, ∀ event ∈ given, event.seq < row.sequence := by
  have hnumbered := numbered_of_prefix hrows h
  constructor
  · intro hlt
    have hmem : rows.length ∈ rows.map EventRow.sequence := by
      rw [hrows, List.mem_range'_1]
      omega
    obtain ⟨row, hrow, hsequence⟩ := List.mem_map.mp hmem
    refine ⟨row, hrow, fun event hevent => ?_⟩
    have hseq : event.seq ∈ given.map Event.seq := List.mem_map_of_mem hevent
    rw [hnumbered, List.mem_range'_1] at hseq
    omega
  · rintro ⟨row, hrow, hbehind⟩
    by_contra hnot
    have hall : given.map eventRow = rows := h.eq_of_length_le (by simpa using hnot)
    rw [← hall] at hrow
    obtain ⟨event, hevent, rfl⟩ := List.mem_map.mp hrow
    exact absurd (hbehind event hevent) (lt_irrefl _)

/-- The cursor behind a page is the number of the events so far. -/
theorem timelineCursor_next {given : List Event} {cursor : Option EventSequence}
    (hcursor : timelineCursor cursor = given.length) (page : Page Event)
    (hnumbered : (given ++ page.items).map Event.seq
      = List.range' 1 (given ++ page.items).length) :
    timelineCursor (page.next (fun event => some event.sequence) cursor)
      = (given ++ page.items).length := by
  rcases List.eq_nil_or_concat page.items with hnil | ⟨front, final, hitems⟩
  · rw [Page.next, hnil, List.append_nil]
    exact hcursor
  · have hlast : (given ++ page.items).map Event.seq
        = (given ++ front).map Event.seq ++ [final.seq] := by
      rw [hitems]
      simp
    have hlength : (given ++ page.items).length = (given ++ front).length + 1 := by
      rw [hitems]
      simp
      omega
    rw [hlast, hlength, List.range'_1_concat] at hnumbered
    have hfinal := (List.append_inj' hnumbered rfl).2
    rw [Page.next, hitems, List.concat_eq_append, List.getLast?_append]
    show final.sequence.get = _
    rw [← List.concat_eq_append, ← hitems, hlength]
    have hseq : final.seq = 1 + (given ++ front).length := by simpa using hfinal
    show final.seq = _
    omega

theorem Follows.read (h : Follows runId limit s) (hlimit : 0 < limit.toNat)
    (hmaximum : limit.toNat ≤ MAX_TIMELINE_PAGE) :
    Follows runId limit (step codecs runId limit s .read) := by
  obtain ⟨events, hevents⟩ := exists_timelineOf h.wellFormed h.readable runId
  have hinitial := h.given
  rw [hevents.rows] at hinitial
  have hle : s.given.length ≤ events.length := by simpa using hinitial.length_le
  have hload := loadTimeline_ok hevents hlimit hmaximum (h.cursor.trans_le hle)
  rw [h.cursor] at hload
  have hfront : s.given.map eventRow = (events.take s.given.length).map eventRow := by
    rw [List.map_take]
    simpa using List.prefix_iff_eq_take.mp hinitial
  -- What the page adds are the next events.
  have hgiven : (s.given ++ (events.drop s.given.length).take limit.toNat).map eventRow
      = (events.take (s.given.length + limit.toNat)).map eventRow := by
    rw [List.map_append, hfront, ← List.map_append, List.take_add]
  have hgrown : (s.given ++ (events.drop s.given.length).take limit.toNat).map eventRow
      <+: s.db.eventsOf runId := by
    rw [hgiven, hevents.rows]
    exact (List.take_prefix _ _).map eventRow
  have hnumbered := numbered_of_prefix (h.wellFormed.timelines runId).map_seq hgrown
  have hlength : (s.given ++ (events.drop s.given.length).take limit.toNat).length
      = min (s.given.length + limit.toNat) events.length := by
    rw [List.length_append, List.length_take, List.length_drop]
    omega
  have hrows : (s.db.eventsOf runId).length = events.length := by
    rw [hevents.rows, List.length_map]
  rw [step, hload]
  refine ⟨h.wellFormed, h.readable, hgrown, ?_, h.failed, ?_⟩
  · exact timelineCursor_next h.cursor
      ⟨(events.drop s.given.length).take limit.toNat, _⟩ hnumbered
  · rintro db page hlast
    obtain ⟨rfl, rfl⟩ := Prod.mk.inj (Option.some.inj hlast)
    refine ⟨hgrown, h.wellFormed, ?_, ?_⟩
    · rw [hrows, hlength, decide_eq_true_iff, List.length_drop]
      omega
    · intro hmore
      rw [decide_eq_true_iff, List.length_drop] at hmore
      rw [List.length_take, List.length_drop]
      omega

theorem Follows.step (h : Follows runId limit s) (hlimit : 0 < limit.toNat)
    (hmaximum : limit.toNat ≤ MAX_TIMELINE_PAGE) (turn : ReaderTurn) :
    Follows runId limit (PagedReader.step codecs runId limit s turn) := by
  cases turn with
  | write request => exact h.write request
  | read => exact h.read hlimit hmaximum

end PagedReader

/-- **Paging.**  Over any interleaving of the reads with the writer, no read fails, and the pages
have had the front of the timeline, each event once and in the order of its number.  A page says
that there is more exactly when the store that it was read from has an event behind those that have
been given; without more, they were the whole timeline of that store. -/
theorem timeline_paging (codecs : Codecs) (runId : RunId) (limit : UInt32)
    (hlimit : 0 < limit.toNat) (hmaximum : limit.toNat ≤ MAX_TIMELINE_PAGE)
    (requests : List Request) (turns : List ReaderTurn) :
    let s := Machine.run (PagedReader.step codecs runId limit)
      (PagedReader.start (Machine.run (step codecs) Db.empty requests)) turns
    s.failed = none
      ∧ s.given.map eventRow = (s.db.eventsOf runId).take s.given.length
      ∧ s.given.map Event.seq = List.range' 1 s.given.length
      ∧ ∀ db page, s.last = some (db, page) →
        (page.hasMore = true ↔
            ∃ row ∈ db.eventsOf runId, ∀ event ∈ s.given, event.seq < row.sequence)
          ∧ (page.hasMore = true → page.items.length = limit.toNat)
          ∧ (page.hasMore = false → s.given.map eventRow = db.eventsOf runId) := by
  intro s
  have hreadable : (Machine.run (step codecs) Db.empty requests).EventsReadable :=
    (statements_keepEvents codecs).run Db.empty requests fun _ hrow =>
      absurd hrow List.not_mem_nil
  have hs : PagedReader.Follows runId limit s :=
    Machine.run_invariant (I := PagedReader.Follows runId limit)
      (fun _ turn h => h.step hlimit hmaximum turn)
      (PagedReader.follows_start (wellFormed_run codecs requests) hreadable) turns
  have hnumbered := PagedReader.numbered_of_prefix (hs.wellFormed.timelines runId).map_seq hs.given
  refine ⟨hs.failed, ?_, hnumbered, fun db page hlast => ?_⟩
  · simpa using List.prefix_iff_eq_take.mp hs.given
  · obtain ⟨hgiven, hdb, hmore, hfull⟩ := hs.last db page hlast
    refine ⟨hmore.trans ?_, hfull, fun hend => ?_⟩
    · exact PagedReader.behind_iff (hdb.timelines runId).map_seq hgiven
    · have hle : (db.eventsOf runId).length ≤ s.given.length := by
        refine Nat.not_lt.mp fun hlt => ?_
        rw [hmore.mpr hlt] at hend
        exact Bool.noConfusion hend
      exact hgiven.eq_of_length_le (by simpa using hle)

/-- Three events, of which two are written between the first page and the second. -/
theorem timeline_paging_sample :
    let requests : List Request := [⟨.createRun Sample.run, false⟩,
      ⟨.appendEventBatch [Sample.event 0 (.runInterrupted none)], false⟩]
    let turns : List ReaderTurn := [.read, .write ⟨.appendEventBatch
      [Sample.event 1 (.runInterrupted none), Sample.event 2 (.runInterrupted none)], false⟩, .read]
    (Machine.run (PagedReader.step Sample.codecs Sample.runId 1)
      (PagedReader.start (Machine.run (step Sample.codecs) Db.empty requests)) turns).failed
        = none :=
  (timeline_paging Sample.codecs Sample.runId 1 (by decide) (by decide) _ _).1

end Rewind

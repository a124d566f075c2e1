/-
The processes at the selected event.

A record says where a process was observed first, and has the exit that was loaded last.  Pages are
loaded in the order of the navigation, so the first page with a process need not be the earliest,
and an exit stays with the record when its process identifier is used again.

* `life` — what the records come from: the events from the first observation of a process on;
* `InOrder` — the pages that may be loaded for the records to be right;
* **`process_view`** — the list of processes, after any session that loads its pages so.
-/
import Rewind.Tui.Model
import Mathlib.Data.List.TakeWhile

namespace Rewind

/-- The process that an event observes. -/
def Event.observed? (event : Event) : Option ProcessId :=
  match event.payload with
  | .processObserved process => some process.processId
  | _ => none

/-- The exit that an event records. -/
def Event.exit? (event : Event) : Option (ProcessId × ProcessExitStatus) :=
  match event.payload with
  | .processExited processId status => some (processId, status)
  | _ => none

/-- The process that an event says has exited. -/
def Event.exited? (event : Event) : Option ProcessId := event.exit?.map Prod.fst

/-- What is asked of the list of processes: a process is listed if one of the loaded events up to
the selection observes it, and shown as exited if the latest of its events is an exit. -/
structure ProcessView {T : Type} (app : App T) : Prop where
  listed : ∀ pid, (∃ record ∈ app.visibleProcesses, record.process.processId = pid)
    ↔ ∃ event ∈ app.loaded.flatten, event.observed? = some pid ∧ event.sequence.get ≤ app.position
  exited : ∀ record ∈ app.visibleProcesses, app.shownExited record = true
    ↔ ∃ exit ∈ app.loaded.flatten, exit.exited? = some record.process.processId
      ∧ exit.sequence.get ≤ app.position ∧ ∀ event ∈ app.loaded.flatten,
        event.observed? = some record.process.processId
            ∨ event.exited? = some record.process.processId →
          event.sequence.get ≤ app.position → event.sequence.get ≤ exit.sequence.get

/-- A page that may be loaded after the events `seen`. -/
structure InOrder (seen page : List Event) : Prop where
  /-- A process that is known is not observed before where it is known from. -/
  first : ∀ event ∈ page, ∀ pid ∈ event.observed?, (∃ other ∈ seen, other.observed? = some pid) →
    ∃ other ∈ seen, other.observed? = some pid ∧ other.sequence.get ≤ event.sequence.get
  /-- The exits of a process that was not known are on the page, if they have been loaded at all. -/
  known : ∀ event ∈ page, ∀ pid ∈ event.observed?, (∀ other ∈ seen, other.observed? ≠ some pid) →
    ∀ exit ∈ seen, exit.exited? = some pid → exit ∈ page
  /-- Nothing happens to a process after its exit. -/
  once : ∀ exit ∈ seen ++ page, ∀ pid ∈ exit.exited?, ∀ event ∈ seen ++ page,
    event.observed? = some pid ∨ event.exited? = some pid →
      event.sequence.get ≤ exit.sequence.get

/-- Pages that are loaded one after the other, each in order. -/
def Orderly : List Event → List (List Event) → Prop
  | _, [] => True
  | seen, page :: rest => InOrder seen page ∧ Orderly (seen ++ page) rest

/-! ### What the records come from -/

/-- The events from the first observation of a process on. -/
def life (pid : ProcessId) (events : List Event) : List Event :=
  events.dropWhile fun event => decide (event.observed? ≠ some pid)

theorem life_eq_nil_iff {pid : ProcessId} {events : List Event} :
    life pid events = [] ↔ ∀ event ∈ events, event.observed? ≠ some pid := by
  simp [life, List.dropWhile_eq_nil_iff]

theorem life_append (pid : ProcessId) (events more : List Event) :
    life pid (events ++ more) = if life pid events = [] then life pid more else life pid events
      ++ more := by
  rw [life, List.dropWhile_append]
  simp only [List.isEmpty_iff]
  rfl

/-- The exits of a process. -/
def exitsOf (pid : ProcessId) (events : List Event) : List (EventSequence × ProcessExitStatus) :=
  events.filterMap fun event =>
    event.exit?.bind fun exit => if exit.1 = pid then some (event.sequence, exit.2) else none

theorem exitsOf_append (pid : ProcessId) (events more : List Event) :
    exitsOf pid (events ++ more) = exitsOf pid events ++ exitsOf pid more := List.filterMap_append

/-- The records after the events that were loaded, in the order of loading. -/
structure Records (events : List Event) (processes : SortedMap ProcessId ProcessRecord) : Prop where
  named : ∀ pid record, processes.get? pid = some record → record.process.processId = pid
  first : ∀ pid, (processes.get? pid).map (·.firstSequence)
    = (life pid events).head?.map (·.sequence)
  exit : ∀ pid, ((processes.get? pid).bind (·.exit)) = (exitsOf pid (life pid events)).getLast?

theorem Records.get?_eq_none_iff {events : List Event}
    {processes : SortedMap ProcessId ProcessRecord}
    (h : Records events processes) {pid : ProcessId} :
    processes.get? pid = none ↔ life pid events = [] := by
  have hfirst := h.first pid
  rcases hget : processes.get? pid with _ | record
  · rw [hget] at hfirst
    rcases hlife : life pid events with _ | ⟨event, rest⟩
    · simp
    · rw [hlife] at hfirst
      simp at hfirst
  · rw [hget] at hfirst
    rcases hlife : life pid events with _ | ⟨event, rest⟩
    · rw [hlife] at hfirst
      simp at hfirst
    · simp

/-- An event of another process, or of none, is nothing to a process. -/
theorem life_of_other {pid : ProcessId} {event : Event} (hobserved : event.observed? ≠ some pid)
    (hexit : ∀ exit ∈ event.exit?, exit.1 ≠ pid) (events : List Event) :
    (life pid (events ++ [event])).head? = (life pid events).head?
      ∧ exitsOf pid (life pid (events ++ [event])) = exitsOf pid (life pid events) := by
  have hnone : exitsOf pid [event] = [] := by
    unfold exitsOf
    rcases hcase : event.exit? with _ | exit
    · simp [hcase]
    · simp [hcase, hexit exit hcase]
  rw [life_append]
  by_cases hlife : life pid events = []
  · have hsingle : life pid [event] = [] := by
      rw [life_eq_nil_iff]
      simpa using hobserved
    rw [if_pos hlife, hlife, hsingle]
    exact ⟨rfl, rfl⟩
  · rw [if_neg hlife]
    constructor
    · rw [List.head?_append_of_ne_nil _ hlife]
    · rw [exitsOf_append, hnone, List.append_nil]

/-- There is room for a record of one more of the processes that are observed. -/
theorem length_lt_of_unknown {processes : SortedMap ProcessId ProcessRecord} {pids : List ProcessId}
    (hpids : pids.length ≤ MAX_PROCESS_RECORDS) (hkeys : processes.keys ⊆ pids) {pid : ProcessId}
    (hpid : pid ∈ pids) (hunknown : processes.get? pid = none) :
    processes.entries.length < MAX_PROCESS_RECORDS := by
  have hnodup : (pid :: processes.keys).Nodup :=
    List.nodup_cons.mpr ⟨SortedMap.get?_eq_none_iff.mp hunknown, processes.keys_nodup⟩
  have hsubset : pid :: processes.keys ⊆ pids := List.cons_subset.mpr ⟨hpid, hkeys⟩
  have hlength := (List.subperm_of_subset hnodup hsubset).length_le
  rw [List.length_cons, SortedMap.keys, List.length_map] at hlength
  omega

/-- The record of the one process that an event is about is put in its place. -/
theorem Records.insert {events : List Event} {processes : SortedMap ProcessId ProcessRecord}
    (h : Records events processes) {event : Event} {pid : ProcessId} {record : ProcessRecord}
    (hobserved : ∀ other, other ≠ pid → event.observed? ≠ some other)
    (hexits : ∀ other, other ≠ pid → ∀ exit ∈ event.exit?, exit.1 ≠ other)
    (hnamed : record.process.processId = pid)
    (hfirst : some record.firstSequence = (life pid (events ++ [event])).head?.map (·.sequence))
    (hexit : record.exit = (exitsOf pid (life pid (events ++ [event]))).getLast?) :
    Records (events ++ [event]) (processes.insert pid record) := by
  constructor
  · intro other record' hrecord
    by_cases hpid : other = pid
    · subst hpid
      rw [SortedMap.get?_insert_self] at hrecord
      obtain rfl := Option.some.inj hrecord
      exact hnamed
    · rw [SortedMap.get?_insert_of_ne _ _ hpid] at hrecord
      exact h.named other record' hrecord
  · intro other
    by_cases hpid : other = pid
    · subst hpid
      rw [SortedMap.get?_insert_self]
      exact hfirst
    · rw [SortedMap.get?_insert_of_ne _ _ hpid,
        (life_of_other (hobserved other hpid) (hexits other hpid) events).1]
      exact h.first other
  · intro other
    by_cases hpid : other = pid
    · subst hpid
      rw [SortedMap.get?_insert_self]
      exact hexit
    · rw [SortedMap.get?_insert_of_ne _ _ hpid,
        (life_of_other (hobserved other hpid) (hexits other hpid) events).2]
      exact h.exit other

/-- An event changes no record if it is about no process that is known and observes none. -/
theorem Records.skip {events : List Event} {processes : SortedMap ProcessId ProcessRecord}
    (h : Records events processes) {event : Event} (hobserved : event.observed? = none)
    (hexits : ∀ exit ∈ event.exit?, processes.get? exit.1 = none) :
    Records (events ++ [event]) processes := by
  have hlife : ∀ pid, (life pid (events ++ [event])).head? = (life pid events).head?
      ∧ exitsOf pid (life pid (events ++ [event])) = exitsOf pid (life pid events) := by
    intro pid
    rcases hget : processes.get? pid with _ | record
    · have hnil := h.get?_eq_none_iff.mp hget
      have hstill : life pid (events ++ [event]) = [] := by
        rw [life_append, if_pos hnil]
        simp [life, hobserved]
      rw [hstill, hnil]
      exact ⟨rfl, rfl⟩
    · refine life_of_other (by simp [hobserved]) (fun exit hexit hpid => ?_) events
      rw [← hpid, hexits exit hexit] at hget
      exact absurd hget (by simp)
  constructor
  · exact h.named
  · intro pid
    rw [(hlife pid).1]
    exact h.first pid
  · intro pid
    rw [(hlife pid).2]
    exact h.exit pid

/-- One more event. -/
theorem Records.ingestEvent {events : List Event} {processes : SortedMap ProcessId ProcessRecord}
    (h : Records events processes) {event : Event}
    (hroom : ∀ pid ∈ event.observed?, processes.get? pid = none →
      processes.entries.length < MAX_PROCESS_RECORDS) :
    Records (events ++ [event]) (App.ingestEvent processes event) := by
  unfold App.ingestEvent
  split
  case h_1 process hpayload =>
    have hobserved : event.observed? = some process.processId := by
      unfold Event.observed?
      rw [hpayload]
    have hexit : event.exit? = none := by
      unfold Event.exit?
      rw [hpayload]
    have hguard : (processes.get? process.processId).isSome = true
        ∨ processes.entries.length < MAX_PROCESS_RECORDS := by
      rcases hget : processes.get? process.processId with _ | record
      · exact Or.inr (hroom _ hobserved hget)
      · exact Or.inl rfl
    have hnone : exitsOf process.processId [event] = [] := by
      simp [exitsOf, hexit]
    have hforeign : ∀ other, other ≠ process.processId → event.observed? ≠ some other := by
      intro other hne hsome
      rw [hobserved] at hsome
      exact hne (Option.some.inj hsome).symm
    rw [if_pos hguard]
    refine h.insert hforeign (by simp [hexit]) ?_ ?_ ?_
    · rcases processes.get? process.processId with _ | _ <;> rfl
    · rw [life_append]
      rcases hget : processes.get? process.processId with _ | record
      · rw [if_pos (h.get?_eq_none_iff.mp hget)]
        simp [life, hobserved]
      · have hlife : life process.processId events ≠ [] := by
          rw [ne_eq, ← h.get?_eq_none_iff, hget]
          simp
        rw [if_neg hlife, List.head?_append_of_ne_nil _ hlife, ← h.first, hget]
        rfl
    · rw [life_append]
      rcases hget : processes.get? process.processId with _ | record
      · rw [if_pos (h.get?_eq_none_iff.mp hget)]
        simp [life, hobserved, hnone]
      · have hlife : life process.processId events ≠ [] := by
          rw [ne_eq, ← h.get?_eq_none_iff, hget]
          simp
        rw [if_neg hlife, exitsOf_append, hnone, List.append_nil, ← h.exit, hget]
        rfl
  case h_2 processId status hpayload =>
    have hobserved : event.observed? = none := by
      unfold Event.observed?
      rw [hpayload]
    have hexit : event.exit? = some (processId, status) := by
      unfold Event.exit?
      rw [hpayload]
    rcases hget : processes.get? processId with _ | record
    · -- the exit of a process that is not known is lost
      refine h.skip hobserved fun exit hmem => ?_
      rw [hexit] at hmem
      obtain rfl := Option.some.inj hmem
      exact hget
    · have hlife : life processId events ≠ [] := by
        rw [ne_eq, ← h.get?_eq_none_iff, hget]
        simp
      refine h.insert (by simp [hobserved]) (fun other hne exit hmem => ?_) (h.named _ record hget)
        ?_ ?_
      · rw [hexit] at hmem
        obtain rfl := Option.some.inj hmem
        exact hne.symm
      · rw [life_append, if_neg hlife, List.head?_append_of_ne_nil _ hlife, ← h.first, hget]
        rfl
      · rw [life_append, if_neg hlife, exitsOf_append]
        simp [exitsOf, hexit]
  case h_3 hobserves hexits =>
    have hobserved : event.observed? = none := by
      unfold Event.observed?
      split
      · exact absurd ‹_› (hobserves _)
      · rfl
    have hexit : event.exit? = none := by
      unfold Event.exit?
      split
      · exact absurd ‹_› (hexits _ _)
      · rfl
    exact h.skip hobserved (by simp [hexit])

theorem keys_ingestEvent {processes : SortedMap ProcessId ProcessRecord} {event : Event}
    {pid : ProcessId} (h : pid ∈ (App.ingestEvent processes event).keys) :
    pid ∈ processes.keys ∨ event.observed? = some pid := by
  unfold App.ingestEvent at h
  split at h
  case h_1 process hpayload =>
    split_ifs at h with hguard
    · rcases SortedMap.mem_keys_insert.mp h with rfl | hmem
      · right
        unfold Event.observed?
        rw [hpayload]
      · exact Or.inl hmem
    · exact Or.inl h
  case h_2 processId status hpayload =>
    rcases hget : processes.get? processId with _ | record
    · rw [hget] at h
      exact Or.inl h
    · rw [hget] at h
      rcases SortedMap.mem_keys_insert.mp h with rfl | hmem
      · left
        by_contra hnone
        rw [← SortedMap.get?_eq_none_iff, hget] at hnone
        exact absurd hnone (by simp)
      · exact Or.inl hmem
  case h_3 => exact Or.inl h

/-- All the events that were loaded, where no more processes are observed than there is room for. -/
theorem records_foldl {pids : List ProcessId} (hpids : pids.length ≤ MAX_PROCESS_RECORDS)
    (events : List Event) (hevents : ∀ event ∈ events, ∀ pid ∈ event.observed?, pid ∈ pids) :
    Records events (events.foldl App.ingestEvent SortedMap.empty)
      ∧ (events.foldl App.ingestEvent SortedMap.empty).keys ⊆ pids := by
  induction events using List.reverseRecOn with
  | nil =>
    refine ⟨⟨?_, fun _ => rfl, fun _ => rfl⟩, ?_⟩
    · intro pid record hrecord
      exact absurd hrecord (by simp [SortedMap.get?, SortedMap.empty])
    · intro pid hpid
      exact absurd hpid (by simp [SortedMap.keys, SortedMap.empty])
  | append_singleton events event ih =>
    obtain ⟨hrecords, hkeys⟩ := ih fun other hother => hevents other (by simp [hother])
    have hevent := hevents event (by simp)
    rw [List.foldl_append, List.foldl_cons, List.foldl_nil]
    refine ⟨hrecords.ingestEvent fun pid hpid hunknown =>
      length_lt_of_unknown hpids hkeys (hevent pid hpid) hunknown, ?_⟩
    intro pid hpid
    rcases keys_ingestEvent hpid with hmem | hobserved
    · exact hkeys hmem
    · exact hevent pid hobserved

/-! ### Pages in order -/

/-- What pages that are loaded in order make of the events. -/
structure Chronological (events : List Event) : Prop where
  first : ∀ pid, ∀ first ∈ (life pid events).head?, ∀ event ∈ events, event.observed? = some pid →
    first.sequence.get ≤ event.sequence.get
  known : ∀ pid, life pid events ≠ [] → ∀ exit ∈ events, exit.exited? = some pid →
    exit ∈ life pid events
  once : ∀ exit ∈ events, ∀ pid ∈ exit.exited?, ∀ event ∈ events,
    event.observed? = some pid ∨ event.exited? = some pid → event.sequence.get ≤ exit.sequence.get

/-- Before the first observation of a process there is none. -/
theorem exists_of_life {pid : ProcessId} {events : List Event} {first : Event}
    (h : (life pid events).head? = some first) :
    first.observed? = some pid ∧ ∃ front rest, events = front ++ first :: rest
      ∧ life pid events = first :: rest ∧ ∀ event ∈ front, event.observed? ≠ some pid := by
  induction events with
  | nil => exact absurd h (by simp [life])
  | cons event events ih =>
    by_cases hobserved : event.observed? = some pid
    · have hlife : life pid (event :: events) = event :: events := by simp [life, hobserved]
      rw [hlife] at h
      obtain rfl := Option.some.inj h
      exact ⟨hobserved, [], events, rfl, hlife, by simp⟩
    · have hlife : life pid (event :: events) = life pid events := by simp [life, hobserved]
      rw [hlife] at h
      obtain ⟨hfirst, front, rest, rfl, hrest, hfront⟩ := ih h
      refine ⟨hfirst, event :: front, rest, rfl, hlife.trans hrest, ?_⟩
      intro other hother
      rcases List.mem_cons.mp hother with rfl | hmem
      · exact hobserved
      · exact hfront other hmem

/-- On a page, an event of a process is not ahead of the first observation unless it is earlier. -/
theorem mem_life_of_page {page : List Event}
    (hpage : page.Pairwise fun event event' => event.sequence.get < event'.sequence.get)
    {pid : ProcessId} {first : Event} (hfirst : (life pid page).head? = some first) {event : Event}
    (hevent : event ∈ page) (hle : first.sequence.get ≤ event.sequence.get) :
    event ∈ life pid page := by
  obtain ⟨-, front, rest, rfl, hlife, -⟩ := exists_of_life hfirst
  rw [hlife]
  rcases List.mem_append.mp hevent with hfront | hmem
  · have hlt := (List.pairwise_append.mp hpage).2.2 event hfront first List.mem_cons_self
    omega
  · exact hmem

/-- Of the observations on a page, the first one is the earliest. -/
theorem le_of_page {page : List Event}
    (hpage : page.Pairwise fun event event' => event.sequence.get < event'.sequence.get)
    {pid : ProcessId} {first : Event} (hfirst : (life pid page).head? = some first) {event : Event}
    (hevent : event ∈ page) (hobserved : event.observed? = some pid) :
    first.sequence.get ≤ event.sequence.get := by
  obtain ⟨-, front, rest, rfl, -, hnone⟩ := exists_of_life hfirst
  rcases List.mem_append.mp hevent with hfront | hmem
  · exact absurd hobserved (hnone event hfront)
  · rcases List.mem_cons.mp hmem with rfl | hrest
    · exact le_refl _
    · exact ((List.pairwise_cons.mp (List.pairwise_append.mp hpage).2.1).1 event hrest).le

theorem chronological_nil : Chronological [] :=
  ⟨fun _ _ _ _ h => absurd h (by simp), fun _ _ _ h => absurd h (by simp),
    fun _ h => absurd h (by simp)⟩

/-- A page that is loaded in order. -/
theorem Chronological.append {seen page : List Event} (h : Chronological seen)
    (hin : InOrder seen page)
    (hpage : page.Pairwise fun event event' => event.sequence.get < event'.sequence.get) :
    Chronological (seen ++ page) := by
  constructor
  · intro pid first hfirst event hevent hobserved
    rw [life_append] at hfirst
    by_cases hseen : life pid seen = []
    · -- the process is known from the page on
      rw [if_pos hseen] at hfirst
      rcases List.mem_append.mp hevent with hold | hnew
      · exact absurd hobserved (life_eq_nil_iff.mp hseen event hold)
      · exact le_of_page hpage hfirst hnew hobserved
    · rw [if_neg hseen, List.head?_append_of_ne_nil _ hseen] at hfirst
      rcases List.mem_append.mp hevent with hold | hnew
      · exact h.first pid first hfirst event hold hobserved
      · obtain ⟨hfirstObserved, front, rest, rfl, -, -⟩ := exists_of_life hfirst
        obtain ⟨other, hother, hotherObserved, hle⟩ :=
          hin.first event hnew pid hobserved ⟨first, by simp, hfirstObserved⟩
        exact (h.first pid first hfirst other hother hotherObserved).trans hle
  · intro pid hlife exit hexit hexited
    rw [life_append] at hlife ⊢
    by_cases hseen : life pid seen = []
    · rw [if_pos hseen] at hlife ⊢
      obtain ⟨first, hfirst⟩ := Option.ne_none_iff_exists'.mp (mt List.head?_eq_none_iff.mp hlife)
      obtain ⟨hobserved, front, rest, hsplit, -, -⟩ := exists_of_life hfirst
      have hmem : first ∈ page := by simp [hsplit]
      have honPage : exit ∈ page := by
        rcases List.mem_append.mp hexit with hold | hnew
        · exact hin.known first hmem pid hobserved (life_eq_nil_iff.mp hseen) exit hold hexited
        · exact hnew
      have hle := hin.once exit (List.mem_append_right _ honPage) pid hexited first
        (List.mem_append_right _ hmem) (Or.inl hobserved)
      exact mem_life_of_page hpage hfirst honPage hle
    · rw [if_neg hseen]
      rcases List.mem_append.mp hexit with hold | hnew
      · exact List.mem_append_left _ (h.known pid hseen exit hold hexited)
      · exact List.mem_append_right _ hnew
  · exact hin.once

/-- Every page in order. -/
theorem Chronological.flatten {seen : List Event} (h : Chronological seen)
    {pages : List (List Event)}
    (horder : Orderly seen pages)
    (hpages : ∀ page ∈ pages,
      page.Pairwise fun event event' : Event => event.sequence.get < event'.sequence.get) :
    Chronological (seen ++ pages.flatten) := by
  induction pages generalizing seen with
  | nil => simpa using h
  | cons page rest ih =>
    obtain ⟨hpage, hrest⟩ := List.forall_mem_cons.mp hpages
    have hnext := ih (h.append horder.1 hpage) horder.2 hrest
    rwa [List.append_assoc] at hnext

theorem mem_exitsOf {pid : ProcessId} {events : List Event}
    {exit : EventSequence × ProcessExitStatus} :
    exit ∈ exitsOf pid events
      ↔ ∃ event ∈ events, event.exit? = some (pid, exit.2) ∧ event.sequence = exit.1 := by
  simp only [exitsOf, List.mem_filterMap, Option.bind_eq_some_iff]
  constructor
  · rintro ⟨event, hevent, ⟨other, status⟩, hexit, hsome⟩
    split_ifs at hsome with hpid
    obtain rfl := Option.some.inj hsome
    exact ⟨event, hevent, hpid ▸ hexit, rfl⟩
  · rintro ⟨event, hevent, hexit, hsequence⟩
    exact ⟨event, hevent, _, hexit, by simp [hsequence]⟩

theorem App.mem_visibleProcesses {T : Type} {app : App T} {record : ProcessRecord} :
    record ∈ app.visibleProcesses ↔ (∃ pid, app.processes.get? pid = some record)
      ∧ record.firstSequence.get ≤ app.position := by
  simp only [App.visibleProcesses, List.mem_filter, List.mem_map, decide_eq_true_eq,
    SortedMap.get?_eq_some_iff]
  refine and_congr_left fun _ => ?_
  constructor
  · rintro ⟨⟨pid, _⟩, hmem, rfl⟩
    exact ⟨pid, hmem⟩
  · rintro ⟨pid, hmem⟩
    exact ⟨_, hmem, rfl⟩

/-- The list of processes is right wherever the records are those of events in order. -/
theorem Records.view {T : Type} {app : App T} (h : Records app.loaded.flatten app.processes)
    (hchronological : Chronological app.loaded.flatten) : ProcessView app := by
  constructor
  · intro pid
    constructor
    · rintro ⟨record, hrecord, hpid⟩
      obtain ⟨⟨key, hget⟩, hposition⟩ := App.mem_visibleProcesses.mp hrecord
      have hkey : key = pid := (h.named key record hget).symm.trans hpid
      have hfirst := h.first key
      rw [hget, Option.map_some] at hfirst
      obtain ⟨first, hhead, hsequence⟩ := Option.map_eq_some_iff.mp hfirst.symm
      obtain ⟨hobserved, front, rest, hsplit, -, -⟩ := exists_of_life hhead
      refine ⟨first, by simp [hsplit], hkey ▸ hobserved, ?_⟩
      rw [hsequence]
      exact hposition
    · rintro ⟨event, hevent, hobserved, hposition⟩
      have hlife : life pid app.loaded.flatten ≠ [] := by
        rw [ne_eq, life_eq_nil_iff]
        exact fun hnone => hnone event hevent hobserved
      obtain ⟨record, hget⟩ := Option.ne_none_iff_exists'.mp (mt h.get?_eq_none_iff.mp hlife)
      have hfirst := h.first pid
      rw [hget, Option.map_some] at hfirst
      obtain ⟨first, hhead, hsequence⟩ := Option.map_eq_some_iff.mp hfirst.symm
      have hle := hchronological.first pid first hhead event hevent hobserved
      rw [hsequence] at hle
      exact ⟨record, App.mem_visibleProcesses.mpr ⟨⟨pid, hget⟩, hle.trans hposition⟩,
        h.named pid record hget⟩
  · intro record hrecord
    obtain ⟨⟨pid, hget⟩, -⟩ := App.mem_visibleProcesses.mp hrecord
    obtain rfl := h.named pid record hget
    have hexit := h.exit record.process.processId
    rw [hget, Option.bind_some] at hexit
    -- any two exits of the process are at the same place
    have hsame : ∀ last, (exitsOf record.process.processId
          (life record.process.processId app.loaded.flatten)).getLast? = some last →
        ∃ event ∈ app.loaded.flatten, event.exited? = some record.process.processId
          ∧ event.sequence = last.1 := by
      intro last hlast
      obtain ⟨event, hevent, hexited, hsequence⟩ := mem_exitsOf.mp (List.mem_of_getLast? hlast)
      refine ⟨event, (List.dropWhile_sublist _).subset hevent, ?_, hsequence⟩
      simp [Event.exited?, hexited]
    constructor
    · intro hshown
      obtain ⟨last, hlast, hposition⟩ := (Option.any_eq_true _ _).mp hshown
      obtain ⟨event, hevent, hexited, hsequence⟩ := hsame last (hexit ▸ hlast)
      refine ⟨event, hevent, hexited, ?_, fun other hother habout _ =>
        hchronological.once event hevent _ hexited other hother habout⟩
      rw [hsequence]
      exact of_decide_eq_true hposition
    · rintro ⟨exit, hmem, hexited, hposition, -⟩
      have hlife : life record.process.processId app.loaded.flatten ≠ [] := by
        rw [ne_eq, ← h.get?_eq_none_iff, hget]
        simp
      have hin := hchronological.known _ hlife exit hmem hexited
      obtain ⟨⟨_, status⟩, hvalue, rfl⟩ := Option.map_eq_some_iff.mp hexited
      have hamong : (exit.sequence, status) ∈ exitsOf record.process.processId
          (life record.process.processId app.loaded.flatten) :=
        mem_exitsOf.mpr ⟨exit, hin, hvalue, rfl⟩
      obtain ⟨last, hlast⟩ :=
        Option.ne_none_iff_exists'.mp (mt List.getLast?_eq_none_iff.mp (List.ne_nil_of_mem hamong))
      obtain ⟨event, hevent, heventExited, hsequence⟩ := hsame last hlast
      have hle := hchronological.once exit hmem _ hexited event hevent (Or.inr heventExited)
      refine (Option.any_eq_true _ _).mpr ⟨last, hexit.trans hlast, ?_⟩
      rw [hsequence] at hle
      exact decide_eq_true (hle.trans hposition)

/-! ### Every session -/

/-- A page of the timeline of a run. -/
structure IsPage (db : Db) (runId : RunId) (page : List Event) : Prop where
  ascending : page.Pairwise fun event event' => event.sequence.get < event'.sequence.get
  rows : ∀ event ∈ page, ∃ row ∈ db.eventsOf runId, decodeEvent row = .ok event

/-- The events of a run are numbered from one on. -/
def Contiguous (db : Db) (runId : RunId) : Prop :=
  (db.eventsOf runId).map EventRow.sequence = List.range' 1 (db.eventsOf runId).length

/-- The processes that are observed in a run. -/
def observedProcesses (db : Db) (runId : RunId) : List ProcessId :=
  ((db.eventsOf runId).filterMap fun row =>
    match row.payload with
    | .processObserved process => some process.processId
    | _ => none).dedup

/-- The records are those of the pages that were loaded, and these are pages of the timeline. -/
structure Ingested {T : Type} (db : Db) (runId : RunId) (app : App T) : Prop where
  run : app.run.id = runId
  processes : app.processes = app.loaded.flatten.foldl App.ingestEvent SortedMap.empty
  loaded : ∀ page ∈ app.loaded, IsPage db runId page
  pending : ∀ page ∈ app.pendingPage, IsPage db runId page.items

theorem isPage_of_loadTimeline {db : Db} {runId : RunId} (hcontiguous : Contiguous db runId)
    {after : Option EventSequence} {page : Page Event}
    (h : loadTimeline db runId after TIMELINE_PAGE_SIZE = .ok page) :
      IsPage db runId page.items := by
  obtain ⟨-, h⟩ := ensure_bind_eq_ok_iff.mp h
  obtain ⟨cursor, -, h⟩ := Except.bind_eq_ok_iff.mp h
  obtain ⟨hitems, -⟩ := loadPage_ok h
  have hdistinct : ((db.eventsOf runId).map EventRow.sequence).Nodup := by
    rw [hcontiguous]
    exact List.nodup_range'
  constructor
  · refine pairwise_of_forall₂ ?_ hitems ((rowsAfter_pairwise hdistinct cursor).sublist
      (List.take_sublist TIMELINE_PAGE_SIZE.toNat _))
    intro row row' event event' hevent hevent' hlt
    rw [(decodeEvent_ok hevent).1, (decodeEvent_ok hevent').1]
    exact hlt
  · intro event hevent
    obtain ⟨row, hrow, hdecode⟩ := exists_of_forall₂ hitems hevent
    exact ⟨row, (mem_rowsAfter.mp (List.mem_of_mem_take hrow)).1, hdecode⟩

section Steps

variable {T : Type} {db : Db} {runId : RunId}
  (refresh : List Event → Nat → Call T ReplayError Unit)

open Call

/-- The selection and the playback are nothing to the records. -/
theorem Ingested.of_eq {app app' : App T} (h : Ingested db runId app) (hrun : app'.run = app.run)
    (hprocesses : app'.processes = app.processes) (hloaded : app'.loaded = app.loaded)
    (hpending : app'.pendingPage = app.pendingPage ∨ app'.pendingPage = none) :
    Ingested db runId app' := by
  refine ⟨hrun ▸ h.run, ?_, hloaded ▸ h.loaded, ?_⟩
  · rw [hprocesses, hloaded]
    exact h.processes
  · rcases hpending with hsame | hnone
    · exact hsame ▸ h.pending
    · simp [hnone]

theorem Ingested.replacePage {app : App T} (h : Ingested db runId app) {page : Page Event}
    (hpage : IsPage db runId page.items) (selected : Nat) :
    Ingested db runId (App.replacePage page selected app) := by
  refine ⟨h.run, ?_, ?_, h.pending⟩
  · show page.items.foldl App.ingestEvent app.processes
      = (app.loaded ++ [page.items]).flatten.foldl App.ingestEvent SortedMap.empty
    rw [List.flatten_append, List.flatten_singleton, List.foldl_append, ← h.processes]
  · intro other hother
    rcases List.mem_append.mp hother with hold | hnew
    · exact h.loaded other hold
    · rw [List.mem_singleton.mp hnew]
      exact hpage

theorem keeps_refreshTerminal :
    Keeps (Ingested db runId) (App.refreshTerminal refresh : Call (App T) ReplayError Unit) := by
  intro app happ
  have hkept : Ingested db runId (exec (App.refreshTerminal refresh) app).2 :=
    happ.of_eq rfl rfl rfl (Or.inl rfl)
  rcases hexec : exec (App.refreshTerminal refresh) app with ⟨error | _, app'⟩
  · rw [hexec] at hkept
    exact hkept
  · rw [hexec] at hkept
    exact hkept

/-- A page that the store returns is shown. -/
theorem keeps_loadTimeline_bind (hcontiguous : Contiguous db runId) {app : App T}
    (happ : Ingested db runId app) (after : Option EventSequence) {α : Type}
    {f : Page Event → Call (App T) ReplayError α}
    (hf : ∀ page : Page Event, IsPage db runId page.items → Keeps (Ingested db runId) (f page)) :
    Keeps (Ingested db runId)
      ((ofResult (App.loadTimeline db app.run after) : Call (App T) ReplayError (Page Event))
        >>= f) := by
  rcases hresult : App.loadTimeline db app.run after with error | page
  · intro s hs
    exact hs
  · have hload := Except.mapError_eq_ok_iff.mp hresult
    rw [happ.run] at hload
    intro s hs
    exact hf page (isPage_of_loadTimeline hcontiguous hload) s hs

theorem keeps_stepNextRaw (hcontiguous : Contiguous db runId) :
    Keeps (Ingested db runId) (App.stepNextRaw db : Call (App T) ReplayError Bool) := by
  refine spec_get_bind fun app happ => Keeps.at ?_ happ
  refine spec_ite (fun _ => ?_) fun _ => spec_ite (fun _ => keeps_pure _) fun _ => ?_
  · exact keeps_bind (keeps_modify fun s hs => hs.of_eq rfl rfl rfl (Or.inl rfl)) fun _ =>
      keeps_pure _
  rcases app.events.getLast? with _ | last
  · exact keeps_pure _
  -- the page that is shown was fetched before, or is read now
  have hshow : ∀ page : Page Event, IsPage db runId page.items →
      Keeps (Ingested db runId) (if page.items = [] then do
          modify fun app => { app with pageHasMore := false }
          return false
        else do
          modify (App.replacePage page 0)
          return true : Call (App T) ReplayError Bool) := by
    intro page hpage
    refine spec_ite (fun _ => ?_) fun _ => ?_
    · exact keeps_bind (keeps_modify fun s hs => hs.of_eq rfl rfl rfl (Or.inl rfl))
        fun _ => keeps_pure _
    · exact keeps_bind (keeps_modify fun s hs => hs.replacePage hpage 0) fun _ => keeps_pure _
  refine keeps_bind (keeps_modify fun s hs => hs.of_eq rfl rfl rfl (Or.inr rfl)) fun _ => ?_
  rcases hpending : app.pendingPage with _ | page
  · exact keeps_loadTimeline_bind hcontiguous happ _ hshow
  · exact hshow page (happ.pending page hpending)

set_option maxRecDepth 2000 in
theorem keeps_stepPreviousRaw (hcontiguous : Contiguous db runId) :
    Keeps (Ingested db runId) (App.stepPreviousRaw db : Call (App T) ReplayError Bool) := by
  refine spec_get_bind fun app happ => Keeps.at ?_ happ
  refine spec_ite (fun _ => ?_) fun _ => ?_
  · exact keeps_bind (keeps_modify fun s hs => hs.of_eq rfl rfl rfl (Or.inl rfl)) fun _ =>
      keeps_pure _
  rcases app.events.head? with _ | first
  · exact keeps_pure _
  refine spec_ite (fun _ => keeps_pure _) fun _ => ?_
  refine keeps_bind (keeps_modify fun s hs => hs.of_eq rfl rfl rfl (Or.inr rfl)) fun _ => ?_
  refine keeps_loadTimeline_bind hcontiguous happ _ fun page hpage => ?_
  refine keeps_bind (keeps_modify fun s hs => hs.replacePage hpage _) fun _ => ?_
  exact keeps_bind keeps_get fun _ => keeps_pure _

set_option maxRecDepth 2000 in
theorem keeps_jumpTo (hcontiguous : Contiguous db runId) (target : EventSequence) :
    Keeps (Ingested db runId) (App.jumpTo db target : Call (App T) ReplayError Unit) := by
  refine keeps_bind (keeps_modify fun s hs => hs.of_eq rfl rfl rfl (Or.inr rfl)) fun _ => ?_
  refine spec_get_bind fun app happ => Keeps.at ?_ happ
  exact keeps_loadTimeline_bind hcontiguous happ _ fun page hpage =>
    keeps_modify fun s hs => hs.replacePage hpage _

/-- The offset of the first event of a page, which closes the page if it has none. -/
theorem keeps_peekPage (page : Page Event) : Keeps (Ingested db runId) (match page.items with
    | [] => do
      modify fun app => { app with pageHasMore := false, pendingPage := none }
      return none
    | event :: _ => return some event.monotonicOffset.asNanoseconds :
      Call (App T) ReplayError (Option Nat)) := by
  rcases page.items with _ | ⟨event, rest⟩
  · exact keeps_bind (keeps_modify fun s hs => hs.of_eq rfl rfl rfl (Or.inr rfl))
      fun _ => keeps_pure _
  · exact keeps_pure _

theorem keeps_peekNextOffset (hcontiguous : Contiguous db runId) :
    Keeps (Ingested db runId) (App.peekNextOffset db : Call (App T) ReplayError (Option Nat)) := by
  refine spec_get_bind fun app happ => Keeps.at ?_ happ
  rcases app.events[app.eventSelected + 1]? with _ | event
  swap
  · exact keeps_pure _
  refine spec_ite (fun _ => keeps_pure _) fun _ => ?_
  rcases app.events.getLast? with _ | last
  · exact keeps_pure _
  rcases app.pendingPage with _ | page
  · refine keeps_loadTimeline_bind hcontiguous happ _ fun page hpage => ?_
    refine keeps_bind (keeps_modify fun s hs => ?_) fun _ => keeps_bind (keeps_pure page)
      keeps_peekPage
    refine ⟨hs.run, hs.processes, hs.loaded, fun other hother => ?_⟩
    obtain rfl := Option.some.inj hother
    exact hpage
  · exact keeps_bind (keeps_pure _) keeps_peekPage

theorem keeps_afterEventMove :
    Keeps (Ingested db runId) (App.afterEventMove refresh : Call (App T) ReplayError Unit) :=
  keeps_bind (keeps_modify fun _ hs => hs.of_eq rfl rfl rfl (Or.inl rfl)) fun _ =>
    keeps_refreshTerminal refresh

theorem keeps_stepEvent (hcontiguous : Contiguous db runId) (forward : Bool) :
    Keeps (Ingested db runId) (App.stepEvent db refresh forward) := by
  refine keeps_bind (keeps_modify fun s hs => hs.of_eq rfl rfl rfl (Or.inl rfl)) fun _ => ?_
  refine keeps_bind ?_ ?_
  swap
  · intro moved
    exact spec_ite (fun _ => keeps_afterEventMove refresh) fun _ => keeps_pure _
  exact spec_ite (fun _ => keeps_stepNextRaw hcontiguous) fun _ => keeps_stepPreviousRaw hcontiguous

set_option maxRecDepth 2000 in
theorem keeps_stepCheckpoint (hcontiguous : Contiguous db runId) (forward : Bool) :
    Keeps (Ingested db runId) (App.stepCheckpoint db refresh forward) := by
  refine keeps_bind (keeps_modify fun s hs => hs.of_eq rfl rfl rfl (Or.inl rfl)) fun _ => ?_
  refine keeps_bind keeps_get fun app => ?_
  rcases app.nextCheckpoint forward with _ | target
  · exact keeps_pure _
  · exact keeps_bind (keeps_jumpTo hcontiguous target) fun _ => keeps_afterEventMove refresh

theorem keeps_playEvents (hcontiguous : Contiguous db runId) (count : Nat) (moved : Bool) :
    Keeps (Ingested db runId) (App.playEvents db count moved : Call (App T) ReplayError Bool) := by
  induction count generalizing moved with
  | zero => exact keeps_pure _
  | succ count ih =>
    refine keeps_bind (keeps_peekNextOffset hcontiguous) fun offset => ?_
    rcases offset with _ | nextOffset
    · exact keeps_bind (keeps_modify fun s hs => hs.of_eq rfl rfl rfl (Or.inl rfl))
        fun _ => keeps_pure _
    · refine keeps_bind keeps_get fun app => spec_ite (fun _ => keeps_pure _) fun _ => ?_
      refine keeps_bind (keeps_stepNextRaw hcontiguous) fun next => spec_ite (fun _ => ?_) fun _ =>
        ?_
      · exact ih true
      · exact keeps_bind (keeps_modify fun s hs => hs.of_eq rfl rfl rfl (Or.inl rfl))
          fun _ => keeps_pure _

theorem keeps_tick (hcontiguous : Contiguous db runId) (now : Nat) :
    Keeps (Ingested db runId) (App.tick db refresh now) := by
  refine keeps_bind keeps_get fun app => spec_ite (fun _ => ?_) fun _ => ?_
  · exact keeps_modify fun s hs => hs.of_eq rfl rfl rfl (Or.inl rfl)
  · refine keeps_bind (keeps_modify fun s hs => hs.of_eq rfl rfl rfl (Or.inl rfl)) fun _ => ?_
    refine keeps_bind (keeps_playEvents hcontiguous 64 false) fun moved => ?_
    exact spec_ite (fun _ => keeps_refreshTerminal refresh) fun _ => keeps_pure _

/-- Whatever an operation loads, it records. -/
theorem Ingested.navigateOnce (hcontiguous : Contiguous db runId) {app : App T}
    (h : Ingested db runId app) (operation : Navigation) :
    Ingested db runId (navigateOnce db refresh app operation) := by
  cases operation with
  | stepEvent forward => exact (keeps_stepEvent refresh hcontiguous forward).state h
  | stepCheckpoint forward => exact (keeps_stepCheckpoint refresh hcontiguous forward).state h
  | togglePlayback now => exact h.of_eq rfl rfl rfl (Or.inl rfl)
  | changeSpeed faster now => exact h.of_eq rfl rfl rfl (Or.inl rfl)
  | tick now => exact (keeps_tick refresh hcontiguous now).state h

theorem ingested_load (hcontiguous : Contiguous db runId) {cacheBytes now : Nat} {terminal : T}
    {app : App T} (h : App.load db refresh runId cacheBytes now terminal = .ok app) :
    Ingested db runId app := by
  obtain ⟨-, h⟩ := ensure_bind_eq_ok_iff.mp h
  obtain ⟨run, hrun, h⟩ := Except.bind_eq_ok_iff.mp h
  obtain ⟨checkpoints, -, h⟩ := Except.bind_eq_ok_iff.mp h
  obtain ⟨page, hload, h⟩ := Except.bind_eq_ok_iff.mp h
  obtain ⟨_, -, h⟩ := Except.bind_eq_ok_iff.mp h
  obtain rfl := Except.ok.inj h
  have hpage := isPage_of_loadTimeline hcontiguous (Except.mapError_eq_ok_iff.mp hload)
  constructor
  · exact id_of_loadRun (Except.mapError_eq_ok_iff.mp hrun)
  · show page.items.foldl App.ingestEvent SortedMap.empty
      = ([] ++ [page.items]).flatten.foldl App.ingestEvent SortedMap.empty
    rw [List.nil_append, List.flatten_singleton]
  · intro other hother
    rw [List.mem_singleton.mp hother]
    exact hpage
  · intro other hother
    exact absurd hother
      (by simp [App.refreshTerminal, App.syncPlaybackTarget, App.ingestCurrentPage])

/-- The records of every session. -/
theorem ingested_navigate (hcontiguous : Contiguous db runId) {cacheBytes now : Nat} {terminal : T}
    {app : App T} (h : App.load db refresh runId cacheBytes now terminal = .ok app)
    (operations : List Navigation) :
    Ingested db runId (navigate db refresh app operations) :=
  Machine.run_invariant (fun _ operation happ => happ.navigateOnce refresh hcontiguous operation)
    (ingested_load refresh hcontiguous h) operations

end Steps

theorem Ingested.records {T : Type} {db : Db} {runId : RunId} {app : App T}
    (h : Ingested db runId app)
    (hprocesses : (observedProcesses db runId).length ≤ MAX_PROCESS_RECORDS) :
    Records app.loaded.flatten app.processes := by
  rw [h.processes]
  refine (records_foldl hprocesses _ fun event hevent pid hpid => ?_).1
  obtain ⟨page, hpage, hmem⟩ := List.mem_flatten.mp hevent
  obtain ⟨row, hrow, hdecode⟩ := (h.loaded page hpage).rows event hmem
  refine List.mem_dedup.mpr (List.mem_filterMap.mpr ⟨row, hrow, ?_⟩)
  rw [← (decodeEvent_ok hdecode).2.2]
  exact hpid

/-- **The processes at the selected event.**  In every session over a contiguous timeline with room
for all its processes whose pages are loaded in order, a process is listed if it was observed up to
the selection on a loaded page, and shown as exited if that is the last thing known of it. -/
theorem process_view {T : Type} (db : Db) (refresh : List Event → Nat → Call T ReplayError Unit)
    {runId : RunId} (hcontiguous : Contiguous db runId)
    (hprocesses : (observedProcesses db runId).length ≤ MAX_PROCESS_RECORDS)
    {cacheBytes now : Nat} {terminal : T} {app : App T}
    (hload : App.load db refresh runId cacheBytes now terminal = .ok app)
    (operations : List Navigation)
    (horderly : Orderly [] (navigate db refresh app operations).loaded) :
    ProcessView (navigate db refresh app operations) := by
  have hingested := ingested_navigate refresh hcontiguous hload operations
  refine (hingested.records hprocesses).view ?_
  exact chronological_nil.flatten horderly fun page hpage => (hingested.loaded page hpage).ascending

namespace Sample

def processId : ProcessId := ⟨7, by decide⟩

def observed : EventPayload := .processObserved ⟨processId, none, none, "agent", .root⟩

def exited : EventPayload := .processExited processId .unknown

/-- A store with the run and these events. -/
def timelineDb (payloads : List EventPayload) : Db := { Db.empty with
  runs := [runRow run]
  runArguments := [⟨runId, 0, "--fix"⟩]
  events := payloads.zipIdx.map fun (payload, n) => eventRow (event (Fin.ofNat 100 n) payload) }

def loadedApp (db : Db) : Option (App Unit) :=
  (App.load db (fun _ _ => pure ()) runId 1 0 ()).toOption

/-- The interface after a step forward for each of the events. -/
def stepForward (db : Db) (count : Nat) : Option (App Unit) :=
  (loadedApp db).map fun app =>
    navigate db (fun _ _ => pure ()) app (List.replicate count (.stepEvent true))

/-- What the interface shows of its processes, and the events on its pages. -/
def shown (app : App Unit) : Nat × List Event × List (ProcessId × Bool) :=
  (app.position, app.loaded.flatten,
    app.visibleProcesses.map fun record => (record.process.processId, app.shownExited record))

end Sample

theorem exists_of_loadedApp {db : Db} {app : App Unit} (h : Sample.loadedApp db = some app) :
    App.load db (fun _ _ => pure ()) Sample.runId 1 0 () = .ok app := by
  unfold Sample.loadedApp at h
  rcases hload : App.load db (fun _ _ => pure ()) Sample.runId 1 0 () with error | app'
  · rw [hload] at h
    exact absurd h (by simp [Except.toOption])
  · rw [hload] at h
    exact congrArg Except.ok (Option.some.inj h)

/-- A process identifier that is used again: the second process is shown as exited. -/
theorem process_view_reused :
    ¬ (∀ (db : Db) (runId : RunId), Contiguous db runId →
        (observedProcesses db runId).length ≤ MAX_PROCESS_RECORDS → ∀ app : App Unit,
        App.load db (fun _ _ => pure ()) runId 1 0 () = .ok app → ∀ operations,
        ProcessView (navigate db (fun _ _ => pure ()) app operations)) := by
  intro h
  let db := Sample.timelineDb [Sample.observed, Sample.exited, Sample.observed]
  have hcontiguous : Contiguous db Sample.runId := by
    unfold Contiguous
    decide +kernel
  have hshown : (Sample.stepForward db 2).map Sample.shown
      = some (3, [Sample.event 0 Sample.observed, Sample.event 1 Sample.exited,
          Sample.event 2 Sample.observed], [(Sample.processId, true)]) := by
    decide +kernel
  obtain ⟨last, hlast, hshown⟩ := Option.map_eq_some_iff.mp hshown
  obtain ⟨app, happ, hnavigate⟩ := Option.map_eq_some_iff.mp hlast
  have hview := h db Sample.runId hcontiguous (by decide +kernel) app (exists_of_loadedApp happ)
    (List.replicate 2 (.stepEvent true))
  rw [hnavigate] at hview
  simp only [Sample.shown, Prod.mk.injEq] at hshown
  obtain ⟨hposition, hloaded, hrecords⟩ := hshown
  obtain ⟨record, hrecord, hvalue⟩ : ∃ record ∈ last.visibleProcesses,
      (record.process.processId, last.shownExited record) = (Sample.processId, true) := by
    rw [← List.mem_map, hrecords]
    exact List.mem_singleton_self _
  obtain ⟨hpid, hexited⟩ := Prod.mk.inj hvalue
  obtain ⟨exit, hexit, hvalue, -, hlatest⟩ := (hview.exited record hrecord).mp hexited
  rw [hpid] at hvalue hlatest
  rw [hloaded] at hexit hlatest
  have hle := hlatest (Sample.event 2 Sample.observed) (by simp) (Or.inl rfl)
    (by rw [hposition]; exact le_refl 3)
  -- the only exit comes before the second observation
  simp only [List.mem_cons, List.not_mem_nil, or_false] at hexit
  rcases hexit with rfl | rfl | rfl
  · exact absurd hvalue (by decide)
  · exact absurd hle (by decide)
  · exact absurd hvalue (by decide)

theorem process_view_exited :
    ∃ app last, App.load (Sample.timelineDb [Sample.observed, Sample.exited]) (fun _ _ => pure ())
        Sample.runId 1 0 () = .ok app
      ∧ last = navigate (Sample.timelineDb [Sample.observed, Sample.exited]) (fun _ _ => pure ())
        app
        [.stepEvent true]
      ∧ Orderly [] last.loaded ∧ ProcessView last := by
  have hcontiguous : Contiguous (Sample.timelineDb [Sample.observed, Sample.exited])
    Sample.runId := by
    unfold Contiguous
    decide +kernel
  have hpages : (Sample.stepForward (Sample.timelineDb [Sample.observed, Sample.exited]) 1).map
      (·.loaded) = some [[Sample.event 0 Sample.observed, Sample.event 1 Sample.exited]] := by
    decide +kernel
  obtain ⟨last, hlast, hloaded⟩ := Option.map_eq_some_iff.mp hpages
  obtain ⟨app, happ, hnavigate⟩ := Option.map_eq_some_iff.mp hlast
  have horderly : Orderly [] last.loaded := by
    rw [hloaded]
    refine ⟨⟨?_, ?_, ?_⟩, trivial⟩
    · rintro event hevent pid hpid ⟨other, hother, -⟩
      exact absurd hother (by simp)
    · intro event hevent pid hpid hnone exit hexit
      exact absurd hexit (by simp)
    · intro exit hexit pid hpid event hevent _
      simp only [List.nil_append, List.mem_cons, List.not_mem_nil, or_false] at hexit hevent
      rcases hexit with rfl | rfl
      · exact absurd hpid (by simp [Event.exited?, Event.exit?, Sample.event, Sample.observed])
      · rcases hevent with rfl | rfl <;> decide
  refine ⟨app, last, exists_of_loadedApp happ, hnavigate.symm, horderly, ?_⟩
  rw [← hnavigate] at horderly ⊢
  exact process_view _ _ hcontiguous (by decide +kernel) (exists_of_loadedApp happ) _ horderly

end Rewind

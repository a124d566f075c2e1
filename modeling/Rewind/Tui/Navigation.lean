/-
Navigation over the whole timeline.

The interface holds one page of the timeline and perhaps the one behind it.  What it selects is
what a cursor selects that goes over all the events.

* `Cursor` — a place among all the events, and its moves;
* `Shows` — a page that shows such a place;
* **`navigation_refines`** — every session shows the place where the cursor is.
-/
import Rewind.Store.TimelinePages
import Rewind.Tui.Model

namespace Rewind

/-! ### The cursor -/

/-- A place in the whole timeline, counted from zero, and the playback. -/
structure Cursor where
  index : Nat
  playing : Bool
  speedIndex : Fin SPEEDS.length
  lastTick : Nat
  target : Nat

namespace Cursor

/-- The most events that one tick moves over. -/
def TICK_EVENTS : Nat := 64

section

variable (events : List Event) (checkpoints : List Checkpoint)

/-- The event at the place of the cursor. -/
def event? (c : Cursor) : Option Event := events[c.index]?

/-- Playback goes on from the time of the selected event. -/
def sync (c : Cursor) : Cursor := { c with target := ((c.event? events).map Event.offset).getD 0 }

/-- The next checkpoint behind the event numbered `current`, or the last one ahead of it. -/
def nextCheckpoint (current : Nat) (forward : Bool) : Option Nat :=
  let sequences := checkpoints.map (·.sequence.get)
  if forward then (sequences.filter fun sequence => current < sequence).min?
  else (sequences.filter fun sequence => sequence < current).max?

/-- The last event up to `limit` whose time has come by `target`. -/
def reach (target limit : Nat) : Nat :=
  Nat.findGreatest (fun i => (events[i]?.any fun event => decide (event.offset ≤ target)) = true)
    limit

theorem faster_lt (c : Cursor) :
    min (c.speedIndex.val + 1) (SPEEDS.length - 1) < SPEEDS.length := by
  simp [SPEEDS]

theorem slower_lt (c : Cursor) : c.speedIndex.val - 1 < SPEEDS.length :=
  lt_of_le_of_lt (Nat.sub_le _ 1) c.speedIndex.isLt

theorem normal_lt : 2 < SPEEDS.length := by decide

/-- One operation. -/
def step (c : Cursor) : Navigation → Cursor
  | .stepEvent forward =>
    let index := if forward then min (c.index + 1) (events.length - 1) else c.index - 1
    if index = c.index then { c with playing := false }
    else sync events { c with playing := false, index := index }
  | .stepCheckpoint forward =>
    match nextCheckpoint checkpoints (((c.event? events).map Event.seq).getD 0) forward with
    | none => { c with playing := false }
    | some sequence => sync events { c with playing := false, index := sequence - 1 }
  | .togglePlayback now => sync events { c with playing := !c.playing, lastTick := now }
  | .changeSpeed faster now =>
    { c with
      speedIndex :=
        if faster then ⟨min (c.speedIndex + 1) (SPEEDS.length - 1), faster_lt c⟩
        else ⟨c.speedIndex - 1, slower_lt c⟩
      lastTick := now }
  | .tick now =>
    if c.playing = false then
      { c with lastTick := now }
    else
      let speed := SPEEDS.get c.speedIndex
      let scaled := min ((now - c.lastTick) * speed.1) U128_MAX / speed.2.1
      let target := min (c.target + scaled) U128_MAX
      let index := reach events target (c.index + TICK_EVENTS)
      -- Playback ends at the last event, if the tick has come that far before its time.
      { c with
        index, target
        lastTick := now
        playing := !decide (events.length ≤ index + 1 ∧ index < c.index + TICK_EVENTS) }

end

/-- The first event, at the normal speed. -/
def start (events : List Event) (now : Nat) : Cursor :=
  sync events ⟨0, false, ⟨2, normal_lt⟩, now, 0⟩

end Cursor

/-! ### The page -/

/-- The page behind the first `n` events. -/
def pageAfter (events : List Event) (n : Nat) : Page Event where
  items := (events.drop n).take TIMELINE_PAGE_SIZE.toNat
  hasMore := decide (TIMELINE_PAGE_SIZE.toNat < (events.drop n).length)

/-- The page of the interface starts behind the first `first` events and has the selection in it. -/
structure Window {T : Type} (events : List Event) (app : App T) (first index : Nat) : Prop where
  slice : app.events = (events.drop first).take app.events.length
  fits : first + app.events.length ≤ events.length
  more : app.pageHasMore = decide (first + app.events.length < events.length)
  selected : first + app.eventSelected = index
  inside : app.eventSelected < app.events.length ∨ events = [] ∧ app.eventSelected = 0
  pending : ∀ page ∈ app.pendingPage, page = pageAfter events (first + app.events.length)

/-- The interface shows the place of the cursor. -/
structure Shows {T : Type} (events : List Event) (runId : RunId) (checkpoints : List Checkpoint)
    (app : App T) (c : Cursor) : Prop where
  run : app.run.id = runId
  checkpoints : app.checkpoints = checkpoints
  playing : app.playing = c.playing
  speedIndex : app.speedIndex = c.speedIndex
  lastTick : app.lastTick = c.lastTick
  target : app.playbackTargetNs = c.target
  window : ∃ first, Window events app first c.index

section Pages

variable {T : Type} {events : List Event} {app : App T} {first index : Nat}

theorem length_pageAfter (events : List Event) (n : Nat) :
    (pageAfter events n).items.length = min 256 (events.length - n) := by
  rw [pageAfter, List.length_take, List.length_drop]
  rfl

theorem Window.getElem? (h : Window events app first index) {i : Nat}
    (hi : i < app.events.length) : app.events[i]? = events[first + i]? := by
  rw [h.slice, List.getElem?_take, List.getElem?_drop, if_pos hi]

theorem Window.selectedEvent (h : Window events app first index) :
    app.selectedEvent = events[index]? := by
  unfold App.selectedEvent
  rcases h.inside with hinside | ⟨hempty, hzero⟩
  · rw [h.getElem? hinside, h.selected]
  · have hnone : app.events = [] := by
      rw [h.slice, hempty]
      simp
    rw [hnone, hempty]
    rfl

/-- What the interface shows when it has got a page. -/
theorem window_pageAfter (app : App T) {n : Nat} (hn : n ≤ events.length)
    (hitems : app.events = (pageAfter events n).items)
    (hmore : app.pageHasMore = (pageAfter events n).hasMore)
    (hinside : app.eventSelected < app.events.length ∨ events = [] ∧ app.eventSelected = 0)
    (hpending : app.pendingPage = none) : Window events app n (n + app.eventSelected) where
  slice := by
    rw [hitems, pageAfter, List.length_take, List.take_eq_take_iff]
    omega
  fits := by
    rw [hitems, length_pageAfter]
    omega
  more := by
    rw [hmore, hitems, length_pageAfter]
    show decide (256 < (events.drop n).length) = _
    rw [List.length_drop, decide_eq_decide]
    omega
  selected := rfl
  inside := hinside
  pending := by
    intro page hpage
    rw [hpending] at hpage
    exact nomatch hpage

/-- A page behind fewer events than there are shows any of its events. -/
theorem window_replacePage (app : App T) {n selected : Nat} (hn : n ≤ events.length)
    (hselected : selected < (pageAfter events n).items.length)
    (hpending : app.pendingPage = none) :
    Window events (app.replacePage (pageAfter events n) selected) n (n + selected) := by
  have hindex : min selected ((pageAfter events n).items.length - 1) = selected := by omega
  have hshown := window_pageAfter (app.replacePage (pageAfter events n) selected) hn rfl rfl
    (Or.inl (by show min selected _ < _; rw [hindex]; exact hselected)) hpending
  have hsame : (app.replacePage (pageAfter events n) selected).eventSelected = selected := hindex
  rw [hsame] at hshown
  exact hshown

end Pages

/-! ### The moves on the page -/

section Moves

variable {T : Type} {db : Db} {runId : RunId} {events : List Event} {checkpoints : List Checkpoint}
  {app : App T} {c : Cursor}

open Call

theorem TimelineOf.loadTimeline_eq (hevents : TimelineOf db runId events) {run : Run}
    (hrun : run.id = runId) {after : Option EventSequence}
    (hafter : timelineCursor after ≤ events.length) :
    App.loadTimeline db run after = .ok (pageAfter events (timelineCursor after)) := by
  have hload := @loadTimeline_ok _ _ _ hevents _ TIMELINE_PAGE_SIZE (by decide) (by decide) hafter
  rw [App.loadTimeline, hrun, hload]
  rfl

/-- Where the page has the event with a number. -/
theorem TimelineOf.findIdx_page (hevents : TimelineOf db runId events) {n target : Nat}
    (hn : n < target) (htarget : target ≤ n + (pageAfter events n).items.length) :
    (pageAfter events n).items.findIdx? (fun event => event.seq = target)
      = some (target - 1 - n) := by
  have hlength := length_pageAfter events n
  have hseq : ∀ i (hi : i < (pageAfter events n).items.length),
      (pageAfter events n).items[i].seq = n + i + 1 := by
    intro i hi
    have hbound : n + i < events.length := by omega
    have hitem : (pageAfter events n).items[i] = events[n + i] := by
      simp only [pageAfter, List.getElem_take, List.getElem_drop]
    rw [hitem, hevents.seq_getElem]
  rw [List.findIdx?_eq_some_iff_getElem]
  refine ⟨by omega, ?_, ?_⟩
  · rw [hseq]
    exact decide_eq_true (by omega)
  · intro j hj
    rw [hseq]
    simp only [decide_eq_true_eq]
    omega

/-- The number of the last event on the page. -/
theorem Window.last (hevents : TimelineOf db runId events) {first index : Nat}
    (h : Window events app first index) (hne : app.events ≠ []) :
    ∃ last, app.events.getLast? = some last
      ∧ last.sequence.get = first + app.events.length := by
  have hpos : 0 < app.events.length := List.length_pos_iff.mpr hne
  have hfits := h.fits
  have hlast : app.events.getLast? = events[first + (app.events.length - 1)]? := by
    rw [List.getLast?_eq_getElem?, h.getElem? (by omega)]
  have hlt : first + (app.events.length - 1) < events.length := by omega
  refine ⟨events[first + (app.events.length - 1)], ?_, ?_⟩
  · rw [hlast, List.getElem?_eq_getElem hlt]
  · have hseq := hevents.seq_getElem hlt
    show events[first + (app.events.length - 1)].seq = _
    omega

/-- The page behind the one that is shown. -/
theorem Shows.load_next (hevents : TimelineOf db runId events)
    (h : Shows events runId checkpoints app c) {first : Nat}
      (hwindow : Window events app first c.index)
    {last : Event} (hlast : last.sequence.get = first + app.events.length) :
    App.loadTimeline db app.run (some last.sequence)
      = .ok (pageAfter events (first + app.events.length)) := by
  have hcursor : timelineCursor (some last.sequence) = first + app.events.length := hlast
  rw [hevents.loadTimeline_eq h.run (hcursor ▸ hwindow.fits), hcursor]

/-- A page that is shown instead. -/
theorem Shows.replacePage (h : Shows events runId checkpoints app c) {n selected : Nat}
    (hn : n ≤ events.length) (hselected : selected < (pageAfter events n).items.length) :
    Shows events runId checkpoints
      (App.replacePage (pageAfter events n) selected { app with pendingPage := none })
      { c with index := n + selected } where
  run := h.run
  checkpoints := h.checkpoints
  playing := h.playing
  speedIndex := h.speedIndex
  lastTick := h.lastTick
  target := h.target
  window := ⟨n, window_replacePage { app with pendingPage := none } hn hselected rfl⟩

theorem Shows.moveOnPage (h : Shows events runId checkpoints app c) {first selected : Nat}
    (hwindow : Window events app first c.index) (hselected : selected < app.events.length) :
    Shows events runId checkpoints { app with eventSelected := selected }
      { c with index := first + selected } where
  run := h.run
  checkpoints := h.checkpoints
  playing := h.playing
  speedIndex := h.speedIndex
  lastTick := h.lastTick
  target := h.target
  window := ⟨first, hwindow.slice, hwindow.fits, hwindow.more, rfl, Or.inl hselected,
    hwindow.pending⟩

theorem exec_stepNextRaw (hevents : TimelineOf db runId events)
    (h : Shows events runId checkpoints app c) :
    ∃ app', exec (App.stepNextRaw db) app = (.ok (decide (c.index + 1 < events.length)), app')
      ∧ Shows events runId checkpoints app'
        { c with index := min (c.index + 1) (events.length - 1) } := by
  obtain ⟨first, hwindow⟩ := h.window
  have hfits := hwindow.fits
  have hselected := hwindow.selected
  rw [App.stepNextRaw, exec_bind_ok (exec_get app)]
  by_cases hon : app.eventSelected + 1 < app.events.length
  · refine ⟨{ app with eventSelected := app.eventSelected + 1 }, ?_, ?_⟩
    · rw [if_pos hon, exec_bind_ok (exec_modify _ _), decide_eq_true (by omega)]
      rfl
    · have hmoved := h.moveOnPage hwindow hon
      have hindex : min (c.index + 1) (events.length - 1) = first + (app.eventSelected + 1) := by
        omega
      rw [hindex]
      exact hmoved
  rw [if_neg hon]
  by_cases hend : app.pageHasMore = false
  · -- The last event is selected, or there is none.
    have hlast : ¬first + app.events.length < events.length := by
      have hmore := hwindow.more
      rw [hend] at hmore
      exact of_decide_eq_false hmore.symm
    refine ⟨app, ?_, ?_⟩
    · rw [if_pos hend, decide_eq_false (by omega)]
      rfl
    · have hindex : min (c.index + 1) (events.length - 1) = c.index := by
        rcases hwindow.inside with hinside | ⟨rfl, hzero⟩
        · omega
        · simp only [List.length_nil] at hfits ⊢
          omega
      rw [hindex]
      exact h
  -- The page behind is shown.
  have hmore : first + app.events.length < events.length := by
    have hmore := hwindow.more
    rw [Bool.not_eq_false] at hend
    rw [hend] at hmore
    exact of_decide_eq_true hmore.symm
  have hinside : app.eventSelected < app.events.length :=
    hwindow.inside.resolve_right fun hempty => by
      rw [hempty.1] at hmore
      exact absurd hmore (Nat.not_lt_zero _)
  obtain ⟨last, hlast, hsequence⟩ :=
    hwindow.last hevents (List.ne_nil_of_length_pos (by omega))
  have hpage : 0 < (pageAfter events (first + app.events.length)).items.length := by
    rw [length_pageAfter]
    omega
  refine ⟨App.replacePage (pageAfter events (first + app.events.length)) 0
    { app with pendingPage := none }, ?_, ?_⟩
  · rw [if_neg hend, decide_eq_true (by omega)]
    simp only [hlast]
    rw [exec_bind_ok (exec_modify _ _)]
    rcases hpending : app.pendingPage with _ | page
    · rw [exec_bind_ok (exec_ofResult_eq_ok_iff.mpr ⟨h.load_next hevents hwindow hsequence, rfl⟩),
        if_neg (List.ne_nil_of_length_pos hpage)]
      rfl
    · obtain rfl := hwindow.pending page hpending
      rw [exec_bind_ok (exec_pure _ _), if_neg (List.ne_nil_of_length_pos hpage)]
      rfl
  · have hshows := h.replacePage hfits hpage
    have hindex : min (c.index + 1) (events.length - 1) = first + app.events.length + 0 := by omega
    rw [hindex]
    exact hshows

/-- A cursor of the store's, as it is computed from a number. -/
theorem timelineCursor_ofNat {n : Nat} (hn : n < 2 ^ 64) :
    timelineCursor (EventSequence.new (UInt64.ofNat n)) = n := by
  have hnat : (UInt64.ofNat n).toNat = n := UInt64.toNat_ofNat_of_lt hn
  rcases Nat.eq_zero_or_pos n with rfl | hpos
  · rfl
  · rw [EventSequence.new, dif_pos (by rwa [hnat])]
    exact hnat

theorem exec_stepPreviousRaw (hevents : TimelineOf db runId events)
    (h : Shows events runId checkpoints app c) :
    ∃ app', exec (App.stepPreviousRaw db) app = (.ok (decide (0 < c.index)), app')
      ∧ Shows events runId checkpoints app' { c with index := c.index - 1 } := by
  obtain ⟨first, hwindow⟩ := h.window
  have hfits := hwindow.fits
  have hselected := hwindow.selected
  have hlength := hevents.length_lt
  rw [App.stepPreviousRaw, exec_bind_ok (exec_get app)]
  by_cases hon : 0 < app.eventSelected
  · have hinside : app.eventSelected < app.events.length :=
      hwindow.inside.resolve_right fun hempty => by omega
    refine ⟨{ app with eventSelected := app.eventSelected - 1 }, ?_, ?_⟩
    · rw [if_pos hon, exec_bind_ok (exec_modify _ _), decide_eq_true (by omega)]
      rfl
    · have hmoved := @Shows.moveOnPage _ _ _ _ _ _ h _ (app.eventSelected - 1) hwindow (by omega)
      have hindex : c.index - 1 = first + (app.eventSelected - 1) := by omega
      rw [hindex]
      exact hmoved
  rw [if_neg hon]
  rcases hwindow.inside with hinside | ⟨rfl, hzero⟩
  swap
  · -- There are no events.
    have hnone : app.events = [] := by
      rw [hwindow.slice]
      simp
    have hindex : c.index = 0 := by
      simp only [List.length_nil] at hfits
      omega
    refine ⟨app, ?_, ?_⟩
    · simp only [hnone, List.head?_nil]
      rw [decide_eq_false (by omega)]
      rfl
    · rw [hindex, Nat.zero_sub, ← hindex]
      exact h
  have hbound : first < events.length := by omega
  have hhead : app.events.head? = some events[first] := by
    rw [List.head?_eq_getElem?, hwindow.getElem? (by omega)]
    exact List.getElem?_eq_getElem _
  have hsequence : events[first].sequence.get = first + 1 :=
    hevents.seq_getElem (by omega)
  simp only [hhead]
  rcases Nat.eq_zero_or_pos first with rfl | hfirst
  · -- The page is the first one.
    have hstart : events[0].sequence.get = EventSequence.first.get := hsequence
    refine ⟨app, ?_, ?_⟩
    · rw [if_pos hstart, decide_eq_false (by omega)]
      rfl
    · have hindex : c.index - 1 = c.index := by omega
      rw [hindex]
      exact h
  have hnot : ¬events[first].sequence.get = EventSequence.first.get := by
    rw [hsequence]
    show ¬first + 1 = 1
    omega
  have hcursor : timelineCursor (EventSequence.new (UInt64.ofNat (App.previousPageCursor first)))
      = first - 256 :=
    timelineCursor_ofNat (lt_of_le_of_lt (Nat.sub_le _ _) (by omega))
  have hlength := length_pageAfter events (first - 256)
  have hload := hevents.loadTimeline_eq h.run (hcursor.trans_le (by omega))
  have hfind := @TimelineOf.findIdx_page _ _ _ hevents (first - 256) first (by omega) (by omega)
  have hshows := @Shows.replacePage _ _ _ _ _ _ h (first - 256) (first - 1 - (first - 256))
    (by omega) (by omega)
  rw [hcursor] at hload
  generalize pageAfter events (first - 256) = page at hlength hload hfind hshows
  refine ⟨App.replacePage page (first - 1 - (first - 256)) { app with pendingPage := none }, ?_, ?_⟩
  · have hempty : page.items.isEmpty = false := by
      rw [List.isEmpty_eq_false_iff]
      exact List.ne_nil_of_length_pos (by omega)
    rw [if_neg hnot, exec_bind_ok (exec_modify _ _), hsequence, Nat.add_sub_cancel,
      exec_bind_ok (exec_ofResult_eq_ok_iff.mpr ⟨hload, rfl⟩), exec_bind_ok (exec_modify _ _),
      exec_bind_ok (exec_get _), decide_eq_true (by omega)]
    show (Except.ok (!page.items.isEmpty), App.replacePage page
      ((page.items.findIdx? fun event => event.seq = first).getD _) _) = _
    rw [hfind, hempty]
    rfl
  · have hindex : c.index - 1 = first - 256 + (first - 1 - (first - 256)) := by omega
    rw [hindex]
    exact hshows

set_option maxRecDepth 2000 in
theorem exec_jumpTo (hevents : TimelineOf db runId events)
    (h : Shows events runId checkpoints app c) {target : EventSequence}
    (htarget : target.get ≤ events.length) :
    ∃ app', exec (App.jumpTo db target) app = (.ok (), app')
      ∧ Shows events runId checkpoints app' { c with index := target.get - 1 } := by
  have hpos := target.pos
  have hlength := hevents.length_lt
  have hcursor : timelineCursor (EventSequence.new (UInt64.ofNat (App.jumpCursor target.get)))
      = target.get - 129 :=
    timelineCursor_ofNat (lt_of_le_of_lt (Nat.sub_le _ _) (by omega))
  have hlength := length_pageAfter events (target.get - 129)
  have hload := hevents.loadTimeline_eq h.run (hcursor.trans_le (by omega))
  have hfind := @TimelineOf.findIdx_page _ _ _ hevents (target.get - 129) target.get (by omega)
    (by omega)
  have hshows := @Shows.replacePage _ _ _ _ _ _ h (target.get - 129)
    (target.get - 1 - (target.get - 129)) (by omega) (by omega)
  rw [hcursor] at hload
  generalize pageAfter events (target.get - 129) = page at hlength hload hfind hshows
  refine ⟨App.replacePage page (target.get - 1 - (target.get - 129))
    { app with pendingPage := none }, ?_, ?_⟩
  · have hsame : (fun event : Event => decide (event.sequence = target))
        = fun event => decide (event.seq = target.get) := by
      funext event
      exact decide_eq_decide.mpr ⟨congrArg EventSequence.get, fun heq =>
        EventSequence.get_injective heq⟩
    rw [App.jumpTo, exec_bind_ok (exec_modify _ _), exec_bind_ok (exec_get _),
      exec_bind_ok (exec_ofResult_eq_ok_iff.mpr ⟨hload, rfl⟩), exec_modify, hsame, hfind]
    rfl
  · have hindex : target.get - 129 + (target.get - 1 - (target.get - 129)) = target.get - 1 := by
      omega
    rw [hindex] at hshows
    exact hshows

theorem exec_peekNextOffset (hevents : TimelineOf db runId events)
    (h : Shows events runId checkpoints app c) :
    ∃ app', exec (App.peekNextOffset db) app
        = (.ok (events[c.index + 1]?.map Event.offset), app')
      ∧ Shows events runId checkpoints app' c := by
  obtain ⟨first, hwindow⟩ := h.window
  have hfits := hwindow.fits
  have hselected := hwindow.selected
  have hpage := length_pageAfter events (first + app.events.length)
  rw [App.peekNextOffset, exec_bind_ok (exec_get app)]
  rcases Nat.lt_or_ge (app.eventSelected + 1) app.events.length with hon | hoff
  · have hnext : app.events[app.eventSelected + 1]? = events[c.index + 1]? := by
      rw [hwindow.getElem? hon, ← hselected, Nat.add_assoc]
    have hlt : c.index + 1 < events.length := by omega
    rw [List.getElem?_eq_getElem hlt] at hnext ⊢
    simp only [hnext]
    exact ⟨app, rfl, h⟩
  have hnone : app.events[app.eventSelected + 1]? = none := List.getElem?_eq_none hoff
  simp only [hnone]
  by_cases hend : app.pageHasMore = false
  · have hlast : ¬first + app.events.length < events.length := by
      have hmore := hwindow.more
      rw [hend] at hmore
      exact of_decide_eq_false hmore.symm
    have hbehind : events[c.index + 1]? = none := List.getElem?_eq_none (by omega)
    rw [if_pos hend, hbehind]
    exact ⟨app, rfl, h⟩
  have hmore : first + app.events.length < events.length := by
    have hmore := hwindow.more
    rw [Bool.not_eq_false] at hend
    rw [hend] at hmore
    exact of_decide_eq_true hmore.symm
  have hinside : app.eventSelected < app.events.length :=
    hwindow.inside.resolve_right fun hempty => by
      rw [hempty.1] at hmore
      exact absurd hmore (Nat.not_lt_zero _)
  obtain ⟨last, hlast, hsequence⟩ :=
    hwindow.last hevents (List.ne_nil_of_length_pos (by omega))
  -- The first event of the page behind is the next one.
  obtain ⟨event, rest, hitems⟩ : ∃ event rest,
      (pageAfter events (first + app.events.length)).items = event :: rest :=
    List.exists_cons_of_length_pos (by omega)
  have hnext : events[c.index + 1]? = some event := by
    have hhead : (pageAfter events (first + app.events.length)).items[0]? = some event := by
      rw [hitems]
      rfl
    rw [pageAfter, List.getElem?_take, if_pos (by decide), List.getElem?_drop] at hhead
    have hindex : c.index + 1 = first + app.events.length + 0 := by omega
    rw [hindex]
    exact hhead
  have hload := h.load_next hevents hwindow hsequence
  rw [if_neg hend, hnext]
  simp only [hlast]
  rcases hpending : app.pendingPage with _ | page
  · refine ⟨{ app with pendingPage := some (pageAfter events (first + app.events.length)) }, ?_, ?_⟩
    · rw [exec_bind_ok (exec_ofResult_eq_ok_iff.mpr ⟨hload, rfl⟩), exec_bind_ok (exec_modify _ _),
        exec_bind_ok (exec_pure _ _)]
      simp only [hitems]
      rfl
    · refine ⟨h.run, h.checkpoints, h.playing, h.speedIndex, h.lastTick, h.target, first,
        hwindow.slice, hwindow.fits, hwindow.more, hwindow.selected, hwindow.inside, ?_⟩
      intro page hpage
      exact (Option.some.inj hpage).symm
  · obtain rfl := hwindow.pending page hpending
    refine ⟨app, ?_, h⟩
    rw [exec_bind_ok (exec_pure _ _)]
    simp only [hitems]
    rfl

end Moves

/-! ### Playback -/

section Playback

variable {events : List Event}

/-- The cursor is at an event, and its time has come. -/
structure Cursor.Reached (events : List Event) (c : Cursor) : Prop where
  placed : c.index ≤ events.length - 1
  time : ∀ event ∈ c.event? events, event.offset ≤ c.target

/-- Playback, event by event. -/
def Cursor.play (events : List Event) : Nat → Cursor → Cursor
  | 0, c => c
  | count + 1, c =>
    match events[c.index + 1]? with
    | none => { c with playing := false }
    | some event =>
      if c.target < event.offset then c else play events count { c with index := c.index + 1 }

theorem Cursor.reach_eq (hsorted : events.Pairwise fun event event' => event.offset ≤ event'.offset)
    {m target limit : Nat} (hm : m ≤ limit) (hplaced : m ≤ events.length - 1)
    (htime : ∀ event ∈ events[m]?, event.offset ≤ target)
    (hnext : m = limit ∨ ∀ event ∈ events[m + 1]?, target < event.offset) :
    reach events target limit = m := by
  rw [reach, Nat.findGreatest_eq_iff]
  refine ⟨hm, fun hne => ?_, fun n hlt hle hreached => ?_⟩
  · have hlt : m < events.length := by omega
    rw [List.getElem?_eq_getElem hlt] at htime ⊢
    exact decide_eq_true (htime _ rfl)
  · -- The event at `m + 1` is not later than the one at `n`.
    have hlater := hnext.resolve_left (by omega)
    rw [Option.any_eq_true] at hreached
    obtain ⟨event, hevent, hcome⟩ := hreached
    obtain ⟨hn, rfl⟩ := List.getElem?_eq_some_iff.mp hevent
    have htarget : events[n].offset ≤ target := of_decide_eq_true hcome
    have hbetween : target < events[m + 1].offset := by
      refine hlater _ ?_
      rw [List.getElem?_eq_getElem (by omega)]
      rfl
    rcases Nat.eq_or_lt_of_le (show m + 1 ≤ n from hlt) with rfl | hbefore
    · omega
    · have hordered := List.pairwise_iff_getElem.mp hsorted (m + 1) n (by omega) hn hbefore
      omega

/-- Playback event by event ends where the clock says. -/
theorem Cursor.play_eq (hsorted : events.Pairwise fun event event' => event.offset ≤ event'.offset)
    (count : Nat) (c : Cursor) (hc : c.Reached events) :
    play events count c =
      { c with
        index := reach events c.target (c.index + count)
        playing := c.playing && !decide (events.length ≤ reach events c.target (c.index + count) + 1
          ∧ reach events c.target (c.index + count) < c.index + count) } := by
  induction count generalizing c with
  | zero =>
    have hreach := reach_eq hsorted (le_refl c.index) hc.placed hc.time (Or.inl rfl)
    rw [play, Nat.add_zero, hreach, decide_eq_false (by omega)]
    simp
  | succ count ih =>
    have hplaced := hc.placed
    rcases hevent : events[c.index + 1]? with _ | event
    · have hreach := reach_eq hsorted (Nat.le_add_right c.index (count + 1)) hc.placed hc.time
        (Or.inr (by simp [hevent]))
      have hend : events.length ≤ c.index + 1 := List.getElem?_eq_none_iff.mp hevent
      simp only [play, hevent]
      rw [hreach, decide_eq_true ⟨hend, by omega⟩]
      simp
    · obtain ⟨hlt, rfl⟩ := List.getElem?_eq_some_iff.mp hevent
      by_cases hlater : c.target < events[c.index + 1].offset
      · have hreach := reach_eq hsorted (Nat.le_add_right c.index (count + 1)) hc.placed hc.time
          (Or.inr (by simpa [hevent] using hlater))
        simp only [play, hevent, if_pos hlater]
        rw [hreach, decide_eq_false (by omega)]
        simp
      · have hmoved : Reached events { c with index := c.index + 1 } := by
          refine ⟨by show c.index + 1 ≤ _; omega, ?_⟩
          intro event hmem
          obtain rfl := Option.some.inj (hevent.symm.trans hmem)
          exact Nat.not_lt.mp hlater
        have hlimit : c.index + 1 + count = c.index + (count + 1) := by omega
        have hplayed := ih { c with index := c.index + 1 } hmoved
        simp only [play, hevent, if_neg hlater]
        rw [hplayed]
        show Cursor.mk _ _ _ _ _ = Cursor.mk _ _ _ _ _
        rw [hlimit]

theorem Cursor.Reached.play (count : Nat) (c : Cursor) (hc : c.Reached events) :
    (Cursor.play events count c).Reached events := by
  induction count generalizing c with
  | zero => exact hc
  | succ count ih =>
    rcases hevent : events[c.index + 1]? with _ | event
    · simp only [Cursor.play, hevent]
      exact ⟨hc.placed, hc.time⟩
    · obtain ⟨hlt, rfl⟩ := List.getElem?_eq_some_iff.mp hevent
      by_cases hlater : c.target < events[c.index + 1].offset
      · simp only [Cursor.play, hevent, if_pos hlater]
        exact hc
      · simp only [Cursor.play, hevent, if_neg hlater]
        refine ih _ ⟨by show c.index + 1 ≤ _; omega, ?_⟩
        intro event hmem
        obtain rfl := Option.some.inj (hevent.symm.trans hmem)
        exact Nat.not_lt.mp hlater

variable {T : Type} {db : Db} {runId : RunId} {checkpoints : List Checkpoint} {app : App T}
  {c : Cursor}

open Call

theorem exec_playEvents (hevents : TimelineOf db runId events) (count : Nat)
    (h : Shows events runId checkpoints app c) (moved : Bool) :
    ∃ moved' app', exec (App.playEvents db count moved) app = (.ok moved', app')
      ∧ Shows events runId checkpoints app' (c.play events count) := by
  induction count generalizing app c moved with
  | zero => exact ⟨moved, app, rfl, h⟩
  | succ count ih =>
    obtain ⟨peeked, hpeek, hpeeked⟩ := exec_peekNextOffset hevents h
    rw [App.playEvents, exec_bind_ok hpeek]
    rcases hevent : events[c.index + 1]? with _ | event
    · refine ⟨moved, { peeked with playing := false }, rfl, ?_⟩
      simp only [Cursor.play, hevent]
      exact ⟨hpeeked.run, hpeeked.checkpoints, rfl, hpeeked.speedIndex, hpeeked.lastTick,
        hpeeked.target, hpeeked.window.imp fun _ hwindow => ⟨hwindow.slice, hwindow.fits,
          hwindow.more, hwindow.selected, hwindow.inside, hwindow.pending⟩⟩
    · have hlt : c.index + 1 < events.length := (List.getElem?_eq_some_iff.mp hevent).1
      simp only [Option.map_some, Cursor.play, hevent]
      rw [exec_bind_ok (exec_get peeked), hpeeked.target]
      by_cases hlater : c.target < event.offset
      · rw [if_pos hlater, if_pos hlater]
        exact ⟨moved, peeked, rfl, hpeeked⟩
      · obtain ⟨stepped, hstep, hstepped⟩ := exec_stepNextRaw hevents hpeeked
        have hindex : min (c.index + 1) (events.length - 1) = c.index + 1 := by omega
        rw [decide_eq_true hlt] at hstep
        rw [hindex] at hstepped
        rw [if_neg hlater, if_neg hlater, exec_bind_ok hstep]
        exact ih hstepped true

end Playback

/-! ### Checkpoints -/

/-- The store returns the checkpoints in the order of their events. -/
theorem pairwise_loadCheckpoints {db : Db} {runId : RunId} {checkpoints : List Checkpoint}
    (h : loadCheckpoints db runId = .ok checkpoints) :
    checkpoints.Pairwise fun checkpoint checkpoint' =>
      checkpoint.sequence.get ≤ checkpoint'.sequence.get := by
  have hrows : ((db.checkpoints.filter fun row => row.runId = runId).insertionSort
      fun row row' => row.sequence ≤ row'.sequence).Pairwise
        fun row row' => row.sequence ≤ row'.sequence := by
    have : Std.Total fun row row' : CheckpointRow => row.sequence ≤ row'.sequence :=
      ⟨fun row row' => le_total row.sequence row'.sequence⟩
    have : IsTrans CheckpointRow fun row row' => row.sequence ≤ row'.sequence :=
      ⟨fun _ _ _ h h' => le_trans h h'⟩
    exact List.pairwise_insertionSort _ _
  refine pairwise_of_forall₂ ?_ (List.mapM_eq_ok_iff.mp h) hrows
  intro row row' checkpoint checkpoint' hdecode hdecode' hle
  rw [(decodeCheckpoint_ok hdecode).1, (decodeCheckpoint_ok hdecode').1]
  exact hle

/-- In the order of the events, the nearest checkpoint ahead of the selection is the first. -/
theorem App.nextCheckpoint_eq {T : Type} {app : App T}
    (hsorted : app.checkpoints.Pairwise fun checkpoint checkpoint' =>
      checkpoint.sequence.get ≤ checkpoint'.sequence.get) (forward : Bool) :
    (app.nextCheckpoint forward).map EventSequence.get
      = Cursor.nextCheckpoint app.checkpoints app.position forward := by
  have hnumbers : (app.checkpoints.map (·.sequence.get)).Pairwise (· ≤ ·) :=
    List.pairwise_map.mpr hsorted
  have hmap : ∀ checkpoints : List Checkpoint, ∀ p : Nat → Bool,
      ((checkpoints.find? fun checkpoint => p checkpoint.sequence.get).map (·.sequence)).map
          EventSequence.get = ((checkpoints.map (·.sequence.get)).filter p).head? := by
    intro checkpoints p
    rw [List.head?_filter, List.find?_map, Option.map_map]
    rfl
  cases forward with
  | true =>
    have hhead := hmap app.checkpoints fun sequence => decide (app.position < sequence)
    refine Eq.trans hhead (List.min?_eq_head? ?_).symm
    exact (hnumbers.filter _).imp fun hle => min_eq_left hle
  | false =>
    have hhead := hmap app.checkpoints.reverse fun sequence => decide (sequence < app.position)
    refine Eq.trans hhead ?_
    rw [List.map_reverse, List.filter_reverse]
    -- The last of them is the greatest.
    have hreverse : ∀ numbers : List Nat, numbers.reverse.max? = numbers.max? := by
      intro numbers
      refine Option.ext fun n => ?_
      simp only [List.max?_eq_some_iff, List.mem_reverse]
    refine Eq.trans (List.max?_eq_head? ?_).symm (hreverse _)
    exact (List.pairwise_reverse.mpr (hnumbers.filter _)).imp fun hle => max_eq_left hle

/-! ### Whole sessions -/

/-- The interface shows the cursor, which has come where it is in time. -/
structure Follows {T : Type} (events : List Event) (runId : RunId) (checkpoints : List Checkpoint)
    (app : App T) (c : Cursor) : Prop where
  shows : Shows events runId checkpoints app c
  reached : c.Reached events

section Sessions

variable {T : Type} {db : Db} {runId : RunId} {events : List Event} {checkpoints : List Checkpoint}
  {app : App T} {c : Cursor} (refresh : List Event → Nat → Call T ReplayError Unit)

open Call

theorem Shows.placed (h : Shows events runId checkpoints app c) : c.index ≤ events.length - 1 := by
  obtain ⟨first, hwindow⟩ := h.window
  have hfits := hwindow.fits
  have hselected := hwindow.selected
  rcases hwindow.inside with hinside | ⟨rfl, hzero⟩
  · omega
  · simp only [List.length_nil] at hfits ⊢
    omega

theorem Shows.selectedEvent (h : Shows events runId checkpoints app c) :
    app.selectedEvent = events[c.index]? := by
  obtain ⟨first, hwindow⟩ := h.window
  exact hwindow.selectedEvent

theorem Shows.position (h : Shows events runId checkpoints app c) :
    app.position = ((c.event? events).map Event.seq).getD 0 := by
  rw [App.position, App.selectedSequence, h.selectedEvent, Option.map_map]
  rfl

/-- What is beside the pages may change with the cursor. -/
theorem Shows.of_page (h : Shows events runId checkpoints app c) {app' : App T} {c' : Cursor}
    (hrun : app'.run = app.run) (hcheckpoints : app'.checkpoints = app.checkpoints)
    (hevents : app'.events = app.events) (hselected : app'.eventSelected = app.eventSelected)
    (hmore : app'.pageHasMore = app.pageHasMore) (hpending : app'.pendingPage = app.pendingPage)
    (hindex : c'.index = c.index) (hplaying : app'.playing = c'.playing)
    (hspeed : app'.speedIndex = c'.speedIndex) (htick : app'.lastTick = c'.lastTick)
    (htarget : app'.playbackTargetNs = c'.target) : Shows events runId checkpoints app' c' where
  run := hrun ▸ h.run
  checkpoints := hcheckpoints.trans h.checkpoints
  playing := hplaying
  speedIndex := hspeed
  lastTick := htick
  target := htarget
  window := by
    obtain ⟨first, hwindow⟩ := h.window
    refine ⟨first, ?_, ?_, ?_, ?_, ?_, ?_⟩
    · rw [hevents]
      exact hwindow.slice
    · rw [hevents]
      exact hwindow.fits
    · rw [hmore, hevents]
      exact hwindow.more
    · rw [hselected, hindex]
      exact hwindow.selected
    · rw [hselected, hevents]
      exact hwindow.inside
    · rw [hpending, hevents]
      exact hwindow.pending

theorem Shows.refreshTerminal (h : Shows events runId checkpoints app c) :
    Shows events runId checkpoints (exec (App.refreshTerminal refresh) app).2 c :=
  h.of_page rfl rfl rfl rfl rfl rfl rfl h.playing h.speedIndex h.lastTick h.target

theorem Shows.sync (h : Shows events runId checkpoints app c) :
    Shows events runId checkpoints app.syncPlaybackTarget (c.sync events) := by
  refine h.of_page rfl rfl rfl rfl rfl rfl rfl h.playing h.speedIndex h.lastTick ?_
  show (app.selectedEvent.map _).getD 0 = _
  rw [h.selectedEvent]
  rfl

/-- The clock is set to the time of the selected event. -/
theorem Shows.follows_sync (h : Shows events runId checkpoints app c) :
    Follows events runId checkpoints app.syncPlaybackTarget (c.sync events) := by
  refine ⟨h.sync, h.placed, ?_⟩
  intro event hevent
  have hsame : (c.event? events) = some event := hevent
  show event.offset ≤ ((c.event? events).map Event.offset).getD 0
  rw [hsame]
  exact le_refl _

theorem Shows.afterEventMove (h : Shows events runId checkpoints app c) :
    Follows events runId checkpoints (exec (App.afterEventMove refresh) app).2 (c.sync events) := by
  rw [App.afterEventMove, exec_bind_ok (exec_modify _ _)]
  exact ⟨h.sync.refreshTerminal refresh, h.follows_sync.reached⟩

theorem Shows.stop (h : Shows events runId checkpoints app c) :
    Shows events runId checkpoints { app with playing := false } { c with playing := false } :=
  h.of_page rfl rfl rfl rfl rfl rfl rfl rfl h.speedIndex h.lastTick h.target

theorem exec_moveRaw (hevents : TimelineOf db runId events)
    (h : Shows events runId checkpoints app c) (forward : Bool) :
    let index := if forward then min (c.index + 1) (events.length - 1) else c.index - 1
    ∃ app', exec (if forward then App.stepNextRaw db else App.stepPreviousRaw db) app
        = (.ok (decide (index ≠ c.index)), app')
      ∧ Shows events runId checkpoints app' { c with index := index } := by
  have hplaced := h.placed
  cases forward with
  | true =>
    obtain ⟨app', hexec, happ'⟩ := exec_stepNextRaw hevents h
    have hmoved : (min (c.index + 1) (events.length - 1) ≠ c.index)
      ↔ c.index + 1 < events.length := by
      omega
    refine ⟨app', ?_, happ'⟩
    simp only [if_true, decide_eq_decide.mpr hmoved]
    exact hexec
  | false =>
    obtain ⟨app', hexec, happ'⟩ := exec_stepPreviousRaw hevents h
    have hmoved : (c.index - 1 ≠ c.index) ↔ 0 < c.index := by omega
    refine ⟨app', ?_, happ'⟩
    simp only [Bool.false_eq_true, if_false, decide_eq_decide.mpr hmoved]
    exact hexec

theorem Follows.stepEvent (hevents : TimelineOf db runId events)
    (h : Follows events runId checkpoints app c) (forward : Bool) :
    Follows events runId checkpoints (navigateOnce db refresh app (.stepEvent forward))
      (c.step events checkpoints (.stepEvent forward)) := by
  obtain ⟨app', hexec, happ'⟩ := exec_moveRaw hevents h.shows.stop forward
  simp only [navigateOnce, Cursor.step]
  rw [App.stepEvent, exec_bind_ok (exec_modify _ _), exec_bind_ok hexec]
  by_cases hsame : (if forward then min (c.index + 1) (events.length - 1) else c.index - 1)
    = c.index
  · rw [if_pos hsame, decide_eq_false (by simpa using hsame)]
    refine ⟨?_, h.reached.placed, h.reached.time⟩
    simp only [hsame] at happ'
    exact happ'
  · rw [if_neg hsame, decide_eq_true hsame]
    exact happ'.afterEventMove refresh

theorem mem_of_nextCheckpoint {app : App T} {forward : Bool} {target : EventSequence}
    (h : app.nextCheckpoint forward = some target) :
    ∃ checkpoint ∈ app.checkpoints, checkpoint.sequence = target := by
  obtain ⟨checkpoint, hfound, rfl⟩ := Option.map_eq_some_iff.mp h
  refine ⟨checkpoint, ?_, rfl⟩
  cases forward with
  | true => exact List.mem_of_find?_eq_some hfound
  | false => exact List.mem_reverse.mp (List.mem_of_find?_eq_some hfound)

theorem Follows.stepCheckpoint (hevents : TimelineOf db runId events)
    (hsorted : checkpoints.Pairwise fun checkpoint checkpoint' =>
      checkpoint.sequence.get ≤ checkpoint'.sequence.get)
    (hplaced : ∀ checkpoint ∈ checkpoints, checkpoint.sequence.get ≤ events.length)
    (h : Follows events runId checkpoints app c) (forward : Bool) :
    Follows events runId checkpoints (navigateOnce db refresh app (.stepCheckpoint forward))
      (c.step events checkpoints (.stepCheckpoint forward)) := by
  have hshows := h.shows
  have hnext : (App.nextCheckpoint { app with playing := false } forward).map EventSequence.get
      = Cursor.nextCheckpoint checkpoints (((c.event? events).map Event.seq).getD 0) forward := by
    rw [← hshows.position, ← hshows.checkpoints]
    refine App.nextCheckpoint_eq ?_ forward
    show app.checkpoints.Pairwise _
    rw [hshows.checkpoints]
    exact hsorted
  simp only [navigateOnce, Cursor.step, ← hnext]
  rw [App.stepCheckpoint, exec_bind_ok (exec_modify _ _), exec_bind_ok (exec_get _)]
  rcases htarget : App.nextCheckpoint { app with playing := false } forward with _ | target
  · exact ⟨hshows.stop, h.reached.placed, h.reached.time⟩
  · obtain ⟨checkpoint, hmem, rfl⟩ := mem_of_nextCheckpoint htarget
    have hle : checkpoint.sequence.get ≤ events.length := by
      refine hplaced checkpoint ?_
      rw [← hshows.checkpoints]
      exact hmem
    obtain ⟨app', hexec, happ'⟩ := exec_jumpTo hevents hshows.stop hle
    simp only [Option.map_some]
    rw [exec_bind_ok hexec]
    exact happ'.afterEventMove refresh

/-- The time of an event fits into the clock of the playback. -/
theorem Event.offset_le (event : Event) : event.offset ≤ U128_MAX := by
  have hlt : event.offset < 2 ^ 64 := event.monotonicOffset.nanoseconds.toNat_lt
  have hmax : 2 ^ 64 ≤ U128_MAX := by decide
  omega

theorem Follows.tick (hevents : TimelineOf db runId events)
    (hordered : events.Pairwise fun event event' => event.offset ≤ event'.offset)
    (h : Follows events runId checkpoints app c) (now : Nat) :
    Follows events runId checkpoints (navigateOnce db refresh app (.tick now))
      (c.step events checkpoints (.tick now)) := by
  have hshows := h.shows
  simp only [navigateOnce, Cursor.step]
  rw [App.tick, exec_bind_ok (exec_get _), hshows.playing]
  by_cases hplaying : c.playing = false
  · rw [if_pos hplaying, if_pos hplaying]
    refine ⟨?_, h.reached.placed, h.reached.time⟩
    exact hshows.of_page rfl rfl rfl rfl rfl rfl rfl hshows.playing hshows.speedIndex
      rfl hshows.target
  have hspeed : SPEEDS[app.speedIndex] = SPEEDS.get c.speedIndex :=
    congrArg SPEEDS.get hshows.speedIndex
  rw [if_neg hplaying, if_neg hplaying, exec_bind_ok (exec_modify _ _), hshows.lastTick, hspeed,
    hshows.target]
  -- The clock goes on, and the events follow it.
  generalize min ((now - c.lastTick) * (SPEEDS.get c.speedIndex).1) U128_MAX
    / (SPEEDS.get c.speedIndex).2.1 = scaled
  have hticked : Shows events runId checkpoints
      { app with lastTick := now, playbackTargetNs := min (c.target + scaled) U128_MAX }
      { c with lastTick := now, target := min (c.target + scaled) U128_MAX } :=
    hshows.of_page rfl rfl rfl rfl rfl rfl rfl hshows.playing hshows.speedIndex rfl rfl
  have hreached : Cursor.Reached events
      { c with lastTick := now, target := min (c.target + scaled) U128_MAX } := by
    refine ⟨h.reached.placed, fun event hevent => le_min ?_ event.offset_le⟩
    exact Nat.le_add_right_of_le (h.reached.time event hevent)
  obtain ⟨moved, played, hexec, hplayed⟩ := exec_playEvents hevents 64 hticked false
  have hfinal := hreached.play 64
  have hplay := Cursor.play_eq hordered 64 _ hreached
  rw [hplay] at hplayed hfinal
  have htrue : c.playing = true := by simpa using hplaying
  simp only [htrue, Bool.true_and] at hplayed hfinal
  have hplaying' : app.playing = true := hshows.playing.trans htrue
  rw [exec_bind_ok hexec]
  refine ⟨?_, hfinal⟩
  cases moved with
  | true => exact hplayed.refreshTerminal refresh
  | false => exact hplayed

theorem Follows.navigateOnce (hevents : TimelineOf db runId events)
    (hordered : events.Pairwise fun event event' => event.offset ≤ event'.offset)
    (hsorted : checkpoints.Pairwise fun checkpoint checkpoint' =>
      checkpoint.sequence.get ≤ checkpoint'.sequence.get)
    (hplaced : ∀ checkpoint ∈ checkpoints, checkpoint.sequence.get ≤ events.length)
    (h : Follows events runId checkpoints app c) (operation : Navigation) :
    Follows events runId checkpoints (navigateOnce db refresh app operation)
      (c.step events checkpoints operation) := by
  cases operation with
  | stepEvent forward => exact h.stepEvent refresh hevents forward
  | stepCheckpoint forward => exact h.stepCheckpoint refresh hevents hsorted hplaced forward
  | togglePlayback now =>
    have htoggled : Shows events runId checkpoints
        { app with playing := !app.playing, lastTick := now }
        { c with playing := !c.playing, lastTick := now } := by
      have hshows := h.shows
      exact hshows.of_page rfl rfl rfl rfl rfl rfl rfl (congrArg (!·) hshows.playing)
        hshows.speedIndex rfl hshows.target
    exact htoggled.follows_sync
  | changeSpeed faster now =>
    have hshows := h.shows
    refine ⟨?_, h.reached.placed, h.reached.time⟩
    refine hshows.of_page rfl rfl rfl rfl rfl rfl rfl hshows.playing ?_ rfl hshows.target
    show (app.changeSpeed faster now).speedIndex = _
    simp only [App.changeSpeed, Cursor.step, hshows.speedIndex]
  | tick now => exact h.tick refresh hevents hordered now

/-- The first page. -/
theorem shows_load (hevents : TimelineOf db runId events) {cacheBytes now : Nat} {terminal : T}
    (h : App.load db refresh runId cacheBytes now terminal = .ok app) :
    loadCheckpoints db runId = .ok app.checkpoints
      ∧ Follows events runId app.checkpoints app (Cursor.start events now) := by
  obtain ⟨-, h⟩ := ensure_bind_eq_ok_iff.mp h
  obtain ⟨run, hrun, h⟩ := Except.bind_eq_ok_iff.mp h
  obtain ⟨checkpoints, hcheckpoints, h⟩ := Except.bind_eq_ok_iff.mp h
  obtain ⟨page, hload, h⟩ := Except.bind_eq_ok_iff.mp h
  obtain ⟨_, -, h⟩ := Except.bind_eq_ok_iff.mp h
  obtain rfl := Except.ok.inj h
  refine ⟨Except.mapError_eq_ok_iff.mp hcheckpoints, ?_⟩
  have hid := id_of_loadRun (Except.mapError_eq_ok_iff.mp hrun)
  have hfirst := @TimelineOf.loadTimeline_eq _ _ _ hevents _ hid none (Nat.zero_le _)
  rw [App.loadTimeline, hid] at hfirst
  have hpage : page = pageAfter events 0 := Except.ok.inj (hload.symm.trans hfirst)
  subst hpage
  -- The pane is refreshed when the first page is there.
  have hshown : Shows events runId checkpoints
      (App.ingestCurrentPage
        { run, events := (pageAfter events 0).items, eventSelected := 0,
          pageHasMore := (pageAfter events 0).hasMore, pendingPage := none, checkpoints,
          processes := SortedMap.empty, processSelected := 0, terminal, playing := false,
          speedIndex := ⟨2, by decide⟩, lastTick := now, playbackTargetNs := 0, loaded := [] })
      ⟨0, false, ⟨2, by decide⟩, now, 0⟩ := by
    refine ⟨hid, rfl, rfl, rfl, rfl, rfl, 0, window_pageAfter _ (Nat.zero_le _) rfl rfl ?_ rfl⟩
    rcases events with _ | ⟨event, rest⟩
    · exact Or.inr ⟨rfl, rfl⟩
    · exact Or.inl (Nat.succ_pos _)
  have hfollows := hshown.follows_sync
  exact ⟨hfollows.shows.refreshTerminal refresh, hfollows.reached⟩

theorem Follows.navigate (hevents : TimelineOf db runId events)
    (hordered : events.Pairwise fun event event' => event.offset ≤ event'.offset)
    (hsorted : checkpoints.Pairwise fun checkpoint checkpoint' =>
      checkpoint.sequence.get ≤ checkpoint'.sequence.get)
    (hplaced : ∀ checkpoint ∈ checkpoints, checkpoint.sequence.get ≤ events.length)
    (h : Follows events runId checkpoints app c) (operations : List Navigation) :
    Follows events runId checkpoints (navigate db refresh app operations)
      (Machine.run (Cursor.step events checkpoints) c operations) := by
  induction operations generalizing app c with
  | nil => exact h
  | cons operation rest ih => exact ih (h.navigateOnce refresh hevents hordered hsorted hplaced
      operation)

end Sessions

theorem TimelineOf.pairwise_offset {db : Db} {runId : RunId} {events : List Event}
    (h : TimelineOf db runId events) (hdb : db.WellFormed) :
    events.Pairwise fun event event' => event.offset ≤ event'.offset := by
  have hrows := (hdb.timelines runId).pairwise_clock
  rw [h.rows] at hrows
  exact (List.pairwise_map (f := eventRow)).mp hrows

/-- **Navigation.**  In every session over a run whose checkpoints are at its events, the interface
shows the place of a cursor that goes over the whole timeline.  What it holds is a slice of the
timeline with the selection in it, and a page that was read ahead is the one behind that slice. -/
theorem navigation_refines {T : Type} (codecs : Codecs) (requests : List Request) (runId : RunId)
    (refresh : List Event → Nat → Call T ReplayError Unit) (cacheBytes now : Nat) (terminal : T) :
    let db := Machine.run (step codecs) Db.empty requests
    ∃ events, TimelineOf db runId events ∧
      ∀ app : App T, App.load db refresh runId cacheBytes now terminal = .ok app →
        (∀ checkpoint ∈ app.checkpoints, ∃ event ∈ events, event.sequence = checkpoint.sequence) →
        ∀ operations : List Navigation,
          let app' := navigate db refresh app operations
          let c := Machine.run (Cursor.step events app.checkpoints) (Cursor.start events now)
            operations
          app'.selectedSequence = (c.event? events).map (·.sequence)
            ∧ Shows events runId app.checkpoints app' c := by
  intro db
  have hdb : db.WellFormed := wellFormed_run codecs requests
  have hreadable : db.EventsReadable :=
    (statements_keepEvents codecs).run Db.empty requests fun _ hrow =>
      absurd hrow List.not_mem_nil
  obtain ⟨events, hevents⟩ := exists_timelineOf hdb hreadable runId
  refine ⟨events, hevents, fun app hload hplaced operations => ?_⟩
  obtain ⟨hcheckpoints, hstart⟩ := shows_load refresh hevents hload
  have hwithin : ∀ checkpoint ∈ app.checkpoints, checkpoint.sequence.get ≤ events.length := by
    intro checkpoint hcheckpoint
    obtain ⟨event, hevent, hsequence⟩ := hplaced checkpoint hcheckpoint
    obtain ⟨i, hi, rfl⟩ := List.getElem_of_mem hevent
    have hseq := hevents.seq_getElem hi
    rw [← hsequence]
    show events[i].seq ≤ _
    omega
  have hfollows := hstart.navigate refresh hevents (hevents.pairwise_offset hdb)
    (pairwise_loadCheckpoints hcheckpoints) hwithin operations
  refine ⟨?_, hfollows.shows⟩
  show Option.map _ _ = _
  rw [hfollows.shows.selectedEvent]
  rfl

namespace Sample

theorem paged_lt : 256 < 258 := by decide

/-- The event numbered `n + 1` of two pages, `n` nanoseconds into the run. -/
def pagedEvent (n : Fin 258) : Event where
  id := ⟨⟨BitVec.ofNat 128 n.val⟩⟩
  runId := runId
  sequence := ⟨n.val + 1, Nat.succ_pos _, by omega⟩
  wallClock := ⟨0⟩
  monotonicOffset := ⟨UInt64.ofNat n.val⟩
  schemaVersion := 1
  payload := .runInterrupted none

/-- The events of the first page. -/
def firstPage : List Event := ((List.finRange 258).take 256).map pagedEvent

/-- A checkpoint at the first event behind this page. -/
def pagedCheckpoint : Checkpoint where
  id := ⟨runId.uuid⟩
  runId := runId
  sequence := (pagedEvent ⟨256, paged_lt⟩).sequence
  label := none
  reason := .manual
  snapshotId := emptySnapshot.id
  createdAt := ⟨0⟩
  monotonicOffset := ⟨256⟩

/-- The checkpoint, and one more event. -/
def secondPage : List Request :=
  [⟨.commitCheckpointWithEvent pagedCheckpoint emptySnapshot
      { pagedEvent ⟨256, paged_lt⟩ with
        payload := .checkpointCommitted pagedCheckpoint.id emptySnapshot.id }, false⟩,
    ⟨.appendEventBatch [pagedEvent (Fin.last 257)], false⟩]

def pagedRequests : List Request :=
  [⟨.createRun run, false⟩, ⟨.appendEventBatch firstPage, false⟩] ++ secondPage

/-- The database with the rows of the first page. -/
def pagedStart : Db := (step codecs Db.empty ⟨.createRun run, false⟩).withEvents firstPage

theorem firstPage_plain : ∀ event ∈ firstPage, event.Plain := by
  intro event hevent
  obtain ⟨n, -, rfl⟩ := List.mem_map.mp hevent
  exact ⟨rfl, rfl, rfl, Nat.le_refl 1⟩

theorem firstPage_fits :
    BatchFits (step codecs Db.empty ⟨.createRun run, false⟩) runId firstPage where
  owned event hevent := by
    obtain ⟨n, -, rfl⟩ := List.mem_map.mp hevent
    rfl
  valid event hevent := by
    obtain ⟨n, -, rfl⟩ := List.mem_map.mp hevent
    rfl
  active := ⟨runRow run, rfl, rfl⟩
  continues := by decide +kernel
  references event hevent objectId byteLen hreference := by
    rw [(firstPage_plain event hevent).reference] at hreference
    exact nomatch hreference
  storable event hevent := by
    obtain ⟨n, -, rfl⟩ := List.mem_map.mp hevent
    have hoffset : (UInt64.ofNat n.val).toNat ≤ n.val := by
      rw [UInt64.toNat_ofNat']
      exact Nat.mod_le ..
    show n.val + 1 < 2 ^ 63 ∧ (UInt64.ofNat n.val).toNat < 2 ^ 63
    omega

theorem firstPage_nodup {κ : Type} {key : EventRow → κ}
    (hkey : Function.Injective fun n => key (eventRow (pagedEvent n))) :
    ((firstPage.map eventRow).map key).Nodup := by
  rw [firstPage, List.map_map, List.map_map]
  exact ((List.nodup_finRange 258).sublist (List.take_sublist 256 _)).map hkey

theorem step_firstPage :
    step codecs (step codecs Db.empty ⟨.createRun run, false⟩) ⟨.appendEventBatch firstPage, false⟩
      = pagedStart := by
  have hseq : Function.Injective fun n => (eventRow (pagedEvent n)).sequence := fun n n' h =>
    Fin.ext (Nat.succ_injective h)
  have hid : Function.Injective fun n => (eventRow (pagedEvent n)).id := by
    intro n n' h
    have hnat := congrArg (fun id : EventId => id.uuid.bits.toNat) h
    simp only [eventRow, pagedEvent, BitVec.toNat_ofNat] at hnat
    omega
  have happended := appendEventBatchIn_plain firstPage_fits firstPage_plain (firstPage_nodup hid)
    (firstPage_nodup fun n n' h => hseq (congrArg Prod.snd h))
  exact step_of_exec happended

theorem run_pagedRequests :
    Machine.run (step codecs) Db.empty pagedRequests
      = Machine.run (step codecs) pagedStart secondPage := by
  rw [pagedRequests, Machine.run_append, Machine.run_cons, Machine.run_cons, step_firstPage,
    Machine.run_nil]

/-- Over the end of the first page to the last event, and back to the checkpoint. -/
def paging : List Navigation := List.replicate 257 (.stepEvent true) ++ [.stepCheckpoint false]

theorem paged_loaded : ∃ app : App Unit,
    App.load (Machine.run (step codecs) Db.empty pagedRequests) (fun _ _ => pure ()) runId 1 0 ()
        = .ok app
      ∧ app.checkpoints = [pagedCheckpoint]
      ∧ (navigate (Machine.run (step codecs) Db.empty pagedRequests) (fun _ _ => pure ()) app
          paging).selectedSequence = some pagedCheckpoint.sequence := by
  rw [run_pagedRequests]
  have hloaded : (App.load (Machine.run (step codecs) pagedStart secondPage) (fun _ _ => pure ())
        runId 1 0 ()).toOption.map (fun app : App Unit => (app.checkpoints,
          (navigate (Machine.run (step codecs) pagedStart secondPage) (fun _ _ => pure ()) app
            paging).selectedSequence))
      = some ([pagedCheckpoint], some pagedCheckpoint.sequence) := by
    decide +kernel
  obtain ⟨app, happ, hshown⟩ := Option.map_eq_some_iff.mp hloaded
  obtain ⟨hcheckpoints, hselected⟩ := Prod.mk.inj hshown
  exact ⟨app, Except.toOption_eq_some_iff.mp happ, hcheckpoints, hselected⟩

theorem length_paged : ((Machine.run (step codecs) Db.empty pagedRequests).eventsOf runId).length
    = 258 := by
  rw [run_pagedRequests]
  decide +kernel

end Sample

/-- Two pages of events: over the end of the first one to the last event, and back to the
checkpoint. -/
theorem navigation_refines_sample :
    let db := Machine.run (step Sample.codecs) Db.empty Sample.pagedRequests
    ∃ (events : List Event) (app : App Unit),
      App.load db (fun _ _ => pure ()) Sample.runId 1 0 () = .ok app
        ∧ TimelineOf db Sample.runId events ∧ app.checkpoints = [Sample.pagedCheckpoint]
        ∧ ∃ c : Cursor, (c.event? events).map (·.sequence) = some Sample.pagedCheckpoint.sequence
          ∧ Shows events Sample.runId app.checkpoints
            (navigate db (fun _ _ => pure ()) app Sample.paging) c := by
  intro db
  obtain ⟨app, hload, hcheckpoints, hselected⟩ := Sample.paged_loaded
  obtain ⟨events, hevents, hnavigate⟩ := navigation_refines Sample.codecs Sample.pagedRequests
    Sample.runId (fun _ _ => pure ()) 1 0 ()
  have hlength : events.length = 258 := by
    rw [← Sample.length_paged, hevents.rows, List.length_map]
  have hplaced : ∀ checkpoint ∈ app.checkpoints,
      ∃ event ∈ events, event.sequence = checkpoint.sequence := by
    intro checkpoint hcheckpoint
    rw [hcheckpoints] at hcheckpoint
    obtain rfl := List.mem_singleton.mp hcheckpoint
    have hbehind : 256 < events.length := by omega
    exact ⟨events[256], List.getElem_mem hbehind, EventSequence.ext (hevents.seq_getElem hbehind)⟩
  obtain ⟨hsequence, hshows⟩ := hnavigate app hload hplaced Sample.paging
  exact ⟨events, app, hload, hevents, hcheckpoints, _, hsequence.symm.trans hselected, hshows⟩

end Rewind

/-
The replay interface and its navigation.

`App` has one page of the timeline at a time.  A step over the edge of the page, a jump to a
checkpoint and the playback load other pages, and the processes on each page that is loaded are
recorded with those of the pages before it.

* `ingestEvent` — what one event does to the records of processes;
* `stepEvent`, `stepCheckpoint`, `tick` — the ways to move the selection;
* `navigate` — a whole session, whatever its calls return.
-/
import Rewind.Store.Queries
import Rewind.Lib.SortedMap
import Rewind.Lib.Runs

namespace Rewind

def TIMELINE_PAGE_SIZE : UInt32 := 256

def MAX_PROCESS_RECORDS : Nat := 4096

def U128_MAX : Nat := 2 ^ 128 - 1

/-- Playback speeds, as fractions. -/
def SPEEDS : List (Nat × Nat × String) :=
  [(1, 4, "0.25×"), (1, 2, "0.5×"), (1, 1, "1×"), (2, 1, "2×"), (4, 1, "4×")]

instance : LinearOrder ProcessId :=
  LinearOrder.lift' (fun processId => processId.get.toNat) (by
    rintro ⟨n, hn⟩ ⟨m, hm⟩ h
    obtain rfl := UInt32.toNat_inj.mp h
    rfl)

/-- A failure to open or read a recorded run. -/
inductive ReplayError where
  | store (source : StoreError)
  | invalidTerminalCache
  | terminalLength (objectId : ObjectId) (expected actual : Nat)
deriving DecidableEq

structure ProcessRecord where
  process : ProcessObservation
  firstSequence : EventSequence
  exit : Option (EventSequence × ProcessExitStatus)
deriving DecidableEq

/-- The state of the interface; `terminal` is the terminal pane with its cache of objects.  The
pages in `loaded` are remembered here only. -/
structure App (T : Type) where
  run : Run
  events : List Event
  eventSelected : Nat
  pageHasMore : Bool
  pendingPage : Option (Page Event)
  checkpoints : List Checkpoint
  processes : SortedMap ProcessId ProcessRecord
  processSelected : Nat
  terminal : T
  playing : Bool
  speedIndex : Fin SPEEDS.length
  lastTick : Nat
  playbackTargetNs : Nat
  loaded : List (List Event)

namespace App

variable {T : Type}

def selectedEvent (app : App T) : Option Event := app.events[app.eventSelected]?

def selectedSequence (app : App T) : Option EventSequence := app.selectedEvent.map (·.sequence)

/-- The position of the selection; the first event comes after an empty one. -/
def position (app : App T) : Nat := (app.selectedSequence.map EventSequence.get).getD 0

def visibleProcesses (app : App T) : List ProcessRecord :=
  (app.processes.entries.map Prod.snd).filter fun record => record.firstSequence.get ≤ app.position

/-- The mark in front of a process in the list of `draw_processes`. -/
def shownExited (app : App T) (record : ProcessRecord) : Bool :=
  record.exit.any fun exit => exit.1.get ≤ app.position

/-! ### Pages -/

/-- What one event of a page does to the records. -/
def ingestEvent (processes : SortedMap ProcessId ProcessRecord) (event : Event) :
    SortedMap ProcessId ProcessRecord :=
  match event.payload with
  | .processObserved process =>
    if (processes.get? process.processId).isSome
      ∨ processes.entries.length < MAX_PROCESS_RECORDS then
      processes.insert process.processId <|
        match processes.get? process.processId with
        | some record => { record with process }
        | none => { process, firstSequence := event.sequence, exit := none }
    else
      processes
  | .processExited processId status =>
    match processes.get? processId with
    | some record => processes.insert processId
        { record with exit := some (event.sequence, status) }
    | none => processes
  | _ => processes

/-- `ingest_current_page`. -/
def ingestCurrentPage (app : App T) : App T :=
  let app := { app with
    processes := app.events.foldl ingestEvent app.processes
    loaded := app.loaded ++ [app.events] }
  { app with processSelected := min app.processSelected (app.visibleProcesses.length - 1) }

/-- `replace_page`. -/
def replacePage (page : Page Event) (selected : Nat) (app : App T) : App T :=
  ingestCurrentPage { app with
    events := page.items
    pageHasMore := page.hasMore
    eventSelected := min selected (page.items.length - 1) }

/-- `previous_page_cursor`. -/
def previousPageCursor (target : Nat) : Nat := target - TIMELINE_PAGE_SIZE.toNat

/-- The cursor of `jump_to`, half a page ahead of its target. -/
def jumpCursor (target : Nat) : Nat := target - (TIMELINE_PAGE_SIZE.toNat / 2 + 1)

/-- The checkpoint that `step_checkpoint` jumps to. -/
def nextCheckpoint (app : App T) (forward : Bool) : Option EventSequence :=
  let current := app.position
  let target :=
    if forward then
      app.checkpoints.find? fun checkpoint => checkpoint.sequence.get > current
    else
      app.checkpoints.reverse.find? fun checkpoint => checkpoint.sequence.get < current
  target.map (·.sequence)

/-- `sync_playback_target`. -/
def syncPlaybackTarget (app : App T) : App T :=
  { app with
    playbackTargetNs := (app.selectedEvent.map (·.monotonicOffset.asNanoseconds)).getD 0 }

/-- `toggle_playback`, at the time `now`. -/
def togglePlayback (now : Nat) (app : App T) : App T :=
  syncPlaybackTarget { app with playing := !app.playing, lastTick := now }

/-- `change_speed`, at the time `now`. -/
def changeSpeed (faster : Bool) (now : Nat) (app : App T) : App T :=
  { app with
    speedIndex :=
      if faster then ⟨min (app.speedIndex + 1) (SPEEDS.length - 1), by simp [SPEEDS]⟩
      else ⟨app.speedIndex - 1, lt_of_le_of_lt (Nat.sub_le _ 1) app.speedIndex.isLt⟩
    lastTick := now }

/-! ### Calls -/

section Calls

variable (db : Db) (refresh : List Event → Nat → Call T ReplayError Unit)

open Call

/-- `self.store.load_timeline`, for the run of the interface. -/
def loadTimeline (run : Run) (after : Option EventSequence) : Except ReplayError (Page Event) :=
  (Rewind.loadTimeline db run.id after TIMELINE_PAGE_SIZE).mapError .store

/-- `refresh_terminal`, which reads the page up to the selection and changes the pane only. -/
def refreshTerminal : Call (App T) ReplayError Unit :=
  ofFun fun app =>
    let refreshed := exec (refresh app.events app.eventSelected) app.terminal
    (refreshed.1, { app with terminal := refreshed.2 })

/-- `peek_next_offset`. -/
def peekNextOffset : Call (App T) ReplayError (Option Nat) := do
  let app ← get
  match app.events[app.eventSelected + 1]? with
  | some event => return some event.monotonicOffset.asNanoseconds
  | none =>
    if app.pageHasMore = false then
      return none
    else
      match app.events.getLast? with
      | none => return none
      | some last =>
        let page ← match app.pendingPage with
          | some page => pure page
          | none => do
            let page ← ofResult (loadTimeline db app.run (some last.sequence))
            modify fun app => { app with pendingPage := some page }
            pure page
        match page.items with
        | [] =>
          modify fun app => { app with pageHasMore := false, pendingPage := none }
          return none
        | event :: _ => return some event.monotonicOffset.asNanoseconds

/-- `step_next_raw`. -/
def stepNextRaw : Call (App T) ReplayError Bool := do
  let app ← get
  if app.eventSelected + 1 < app.events.length then
    modify fun app => { app with eventSelected := app.eventSelected + 1 }
    return true
  else if app.pageHasMore = false then
    return false
  else
    match app.events.getLast? with
    | none => return false
    | some last =>
      modify fun app => { app with pendingPage := none }
      let page ← match app.pendingPage with
        | some page => pure page
        | none => ofResult (loadTimeline db app.run (some last.sequence))
      if page.items = [] then
        modify fun app => { app with pageHasMore := false }
        return false
      else
        modify (replacePage page 0)
        return true

/-- `step_previous_raw`. -/
def stepPreviousRaw : Call (App T) ReplayError Bool := do
  let app ← get
  if 0 < app.eventSelected then
    modify fun app => { app with eventSelected := app.eventSelected - 1 }
    return true
  else
    match app.events.head? with
    | none => return false
    | some first =>
      if first.sequence.get = EventSequence.first.get then
        return false
      else
        modify fun app => { app with pendingPage := none }
        let target := first.sequence.get - 1
        let after := EventSequence.new (UInt64.ofNat (previousPageCursor target))
        let page ← ofResult (loadTimeline db app.run after)
        let selected := (page.items.findIdx? fun event => event.sequence.get = target).getD
          (page.items.length - 1)
        modify (replacePage page selected)
        let app ← get
        return !app.events.isEmpty

/-- `jump_to`. -/
def jumpTo (target : EventSequence) : Call (App T) ReplayError Unit := do
  modify fun app => { app with pendingPage := none }
  let app ← get
  let after := EventSequence.new (UInt64.ofNat (jumpCursor target.get))
  let page ← ofResult (loadTimeline db app.run after)
  let selected := (page.items.findIdx? fun event => event.sequence = target).getD 0
  modify (replacePage page selected)

/-- `after_event_move`. -/
def afterEventMove : Call (App T) ReplayError Unit := do
  modify syncPlaybackTarget
  refreshTerminal refresh

/-- `step_event`. -/
def stepEvent (forward : Bool) : Call (App T) ReplayError Unit := do
  modify fun app => { app with playing := false }
  let moved ← (if forward then stepNextRaw db else stepPreviousRaw db)
  if moved then afterEventMove refresh

/-- `step_checkpoint`. -/
def stepCheckpoint (forward : Bool) : Call (App T) ReplayError Unit := do
  modify fun app => { app with playing := false }
  let app ← get
  match app.nextCheckpoint forward with
  | none => return ()
  | some target =>
    jumpTo db target
    afterEventMove refresh

/-- The loop of `tick`, which goes on for at most so many events. -/
def playEvents : Nat → Bool → Call (App T) ReplayError Bool
  | 0, moved => return moved
  | count + 1, moved => do
    match ← peekNextOffset db with
    | none =>
      modify fun app => { app with playing := false }
      return moved
    | some nextOffset =>
      let app ← get
      if nextOffset > app.playbackTargetNs then
        return moved
      else if ← stepNextRaw db then
        playEvents count true
      else
        modify fun app => { app with playing := false }
        return moved

/-- `tick`, at the time `now`. -/
def tick (now : Nat) : Call (App T) ReplayError Unit := do
  let app ← get
  if app.playing = false then
    modify fun app => { app with lastTick := now }
  else
    let elapsed := now - app.lastTick
    let speed := SPEEDS[app.speedIndex]
    let scaled := min (elapsed * speed.1) U128_MAX / speed.2.1
    modify fun app => { app with
      lastTick := now
      playbackTargetNs := min (app.playbackTargetNs + scaled) U128_MAX }
    let moved ← playEvents db 64 false
    if moved then refreshTerminal refresh

/-- `App::load`, with an empty pane. -/
def load (runId : RunId) (cacheBytes now : Nat) (terminal : T) : Except ReplayError (App T) := do
  ensure (cacheBytes ≠ 0) .invalidTerminalCache
  let run ← (loadRun db runId).mapError .store
  let checkpoints ← (loadCheckpoints db runId).mapError .store
  let page ← (Rewind.loadTimeline db runId none TIMELINE_PAGE_SIZE).mapError .store
  let app : App T :=
    { run, events := page.items, eventSelected := 0, pageHasMore := page.hasMore, pendingPage :=
      none,
      checkpoints, processes := SortedMap.empty, processSelected := 0, terminal, playing := false,
      speedIndex := ⟨2, by decide⟩, lastTick := now, playbackTargetNs := 0, loaded := [] }
  let loaded := exec (refreshTerminal refresh) (syncPlaybackTarget (ingestCurrentPage app))
  loaded.1
  return loaded.2

end Calls

end App

/-- What moves the selection, or changes how it moves. -/
inductive Navigation where
  | stepEvent (forward : Bool)
  | stepCheckpoint (forward : Bool)
  | togglePlayback (now : Nat)
  | changeSpeed (faster : Bool) (now : Nat)
  | tick (now : Nat)

section Navigate

variable {T : Type} (db : Db) (refresh : List Event → Nat → Call T ReplayError Unit)

/-- One operation; one that fails leaves what it has done. -/
def navigateOnce (app : App T) : Navigation → App T
  | .stepEvent forward => (Call.exec (App.stepEvent db refresh forward) app).2
  | .stepCheckpoint forward => (Call.exec (App.stepCheckpoint db refresh forward) app).2
  | .togglePlayback now => app.togglePlayback now
  | .changeSpeed faster now => app.changeSpeed faster now
  | .tick now => (Call.exec (App.tick db refresh now) app).2

/-- A session of operations. -/
def navigate (app : App T) (operations : List Navigation) : App T :=
  Machine.run (navigateOnce db refresh) app operations

end Navigate

end Rewind

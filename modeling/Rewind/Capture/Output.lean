/-
The terminal output of a run.

The output thread reads the terminal chunk by chunk and sends each chunk through a bounded channel,
which it shares with the other producers.  The coordinator takes the messages in its loop, while it
stops the process group, while it drains the channel and while it joins the thread; it stores a
chunk, has the recorder emit its event, and counts its bytes.

* `Terminal`, `Terminal.step` — the thread, the channel and the coordinator, move by move;
* `Flowing` — where the chunks are that have been read;
* **`output_captured`** — the durable events of a capture without a fatal error have the chunks,
  all of them, once each and in order.
-/
import Rewind.Capture.FinalSnapshot
import Rewind.Store.ObjectFiles

namespace Rewind

open Call

/-! ### The coordinator -/

/-- The options the coordinator reads. -/
structure TerminalOptions where
  terminalMaxBytes : UInt64
  channelCapacity : Nat

/-- The payloads of the objects that the store holds. -/
abbrev Payloads := ObjectId → Option Bytes

/-- An object is published under its digest, unless it is there already. -/
def Payloads.publish (codecs : Codecs) (objects : Payloads) (bytes : Bytes) : Payloads := fun id =>
  if id = ObjectId.digestOf codecs bytes ∧ objects id = none then some bytes else objects id

structure Coordinator where
  world : World
  objects : Payloads
  terminalOutputBytes : Nat
  outputEof : Bool
  outputAbandoned : Bool
  childExit : Bool
  fatal : Option CaptureError

/-- An observation of a producer; those of the other producers by what their handlers have the
recorder do. -/
inductive Observation where
  | terminalOutput (bytes : Bytes)
  | outputEof
  | producerFailed (producer message : String)
  | other (ops : List RecorderOp)

/-- A step of the coordinator. -/
abbrev Handler (α : Type) := Call Coordinator CaptureError α

namespace Coordinator

variable (env : Env) (codecs : Codecs) (options : TerminalOptions) (streamId : TerminalStreamId)

/-- A method of the coordinator's recorder. -/
def recorder {α : Type} (m : Method α) : Handler α :=
  Call.ofFun fun c => ((exec m c.world).1, { c with world := (exec m c.world).2 })

/-- `Coordinator::fail`: the first error stays. -/
def fail (c : Coordinator) (error : CaptureError) : Coordinator :=
  { c with fatal := c.fatal.or (some error) }

/-- The file part of `put_object`. -/
def publishObject (bytes : Bytes) : Handler StoredObject := do
  let tick ← recorder nextTick
  if env.storeFails tick then
    throw (.store (.io "publish object"))
  else
    match encode bytes with
    | .error error => throw (.store error)
    | .ok envelope => do
      modify fun c => { c with objects := c.objects.publish codecs bytes }
      return ⟨ObjectId.digestOf codecs bytes, UInt64.ofNat bytes.length,
        UInt64.ofNat envelope.length, .none⟩

/-- `put_object`. -/
def putObject (bytes : Bytes) (createdUnixMs : Int64) : Handler StoredObject := do
  let stored ← publishObject env codecs bytes
  recorder (transact env .other fun db => recordObject db stored createdUnixMs)
  return stored

/-- The end of `record_output` where the limit is exceeded. -/
def outputLimitReached : Handler Unit := do
  recorder (Recorder.warning env .storageLimit
    s!"Terminal output reached the configured {options.terminalMaxBytes}-byte limit; capture was stopped.")
  recorder (Recorder.flush env)
  throw (.terminalOutputLimit options.terminalMaxBytes)

/-- The part of `record_output` after the limit. -/
def storeOutput (bytes : Bytes) (next : Nat) : Handler Unit := do
  let time ← recorder (timestampNow env)
  let stored ← putObject env codecs bytes time.unixMilliseconds
  recorder (discard (Recorder.emitObjectReference env stored.id stored.logicalSize
    (.terminalOutput streamId stored.id (UInt64.ofNat bytes.length))))
  modify fun c => { c with terminalOutputBytes := next }

/-- `record_output`. -/
def recordOutput (bytes : Bytes) : Handler Unit := do
  let c ← get
  let next := c.terminalOutputBytes + bytes.length
  if bytes.length ≥ 2 ^ 64 then
    throw .clockOutOfRange
  else if next ≥ 2 ^ 64 then
    throw (.terminalOutputLimit options.terminalMaxBytes)
  else if next > options.terminalMaxBytes.toNat then
    outputLimitReached env options
  else
    storeOutput env codecs streamId bytes next

/-- What a handler has the recorder do, until the first error; a nonfatal one is reported to others
than the coordinator. -/
def observe : List RecorderOp → Method Unit
  | [] => return ()
  | op :: rest => do
    match ← outcome (op.exec env codecs) with
    | .ok () => observe rest
    | .error error => if error.isNonfatal then return () else throw error

/-- The result of a handler. -/
def settled (handler : Handler Unit) (c : Coordinator) : Coordinator :=
  match exec handler c with
  | (.ok (), c') => c'
  | (.error error, c') => c'.fail error

/-- What the coordinator has the recorder do of its own accord. -/
def poll (c : Coordinator) (ops : List RecorderOp) : Coordinator :=
  settled (recorder (observe env codecs ops)) c

/-- `handle`. -/
def handle (c : Coordinator) (observation : Observation) : Coordinator :=
  if c.fatal.isSome then
    match observation with
    | .outputEof => { c with outputEof := true }
    | .terminalOutput _ | .producerFailed .. | .other _ => c
  else
    match observation with
    | .terminalOutput bytes => settled (recordOutput env codecs options streamId bytes) c
    | .outputEof => { c with outputEof := true }
    | .producerFailed producer message => c.fail (.producer producer message)
    | .other ops => c.poll env codecs ops

end Coordinator

/-! ### The output thread and the channel -/

/-- What `reader.read` returns. -/
inductive ReadResult where
  | chunk (bytes : Bytes)
  | endOfFile
  | interrupted
  | failed (message : String)

/-- What the output thread is doing. -/
inductive ThreadPhase where
  | reading
  | sending (bytes : Bytes)
  | forwarding
  | reporting (producer message : String)
  | ending
  | finished

/-- Where `supervise` is. -/
inductive CoordinatorPhase where
  | looping
  | terminating
  | draining
  | joining
  | settling
  | concluding
  | ended (result : Except CaptureError Unit)
deriving DecidableEq

/-- The coordinator receives messages. -/
def CoordinatorPhase.receives : CoordinatorPhase → Bool
  | .looping | .terminating | .draining | .joining | .settling => true
  | .concluding | .ended _ => false

/-- `supervise` has not returned. -/
def CoordinatorPhase.runs : CoordinatorPhase → Bool
  | .ended _ => false
  | _ => true

/-- The output thread, the channel and the coordinator; with the chunks that have been read. -/
structure Terminal where
  coordinator : Coordinator
  queue : List Observation
  thread : ThreadPhase
  phase : CoordinatorPhase
  chunks : List Bytes

/-- The next move. -/
inductive TerminalAction where
  | read (result : ReadResult)
  | send
  | forward (error : Option String)
  | produce (ops : List RecorderOp)
  | producerFails (producer message : String)
  | publish (bytes : Bytes)
  | receive
  | poll (ops : List RecorderOp)
  | fails (error : CaptureError)
  | childExits
  | abandon
  | leaveLoop
  | terminated
  | drained
  | joined
  | conclude

/-- The operation is given no event of the terminal output. -/
def RecorderOp.noOutput (op : RecorderOp) : Bool :=
  match op.payload? with
  | some (.terminalOutput ..) => false
  | _ => true

/-- What the coordinator has the recorder do beside the terminal output. -/
def RecorderOp.besideOutput (op : RecorderOp) : Bool := op.isObservation && op.noOutput

namespace Terminal

variable (env : Env) (codecs : Codecs) (options : TerminalOptions) (streamId : TerminalStreamId)
  (session : Session)

/-- A message enters the channel if there is room. -/
def enqueue (s : Terminal) (observation : Observation) (thread : ThreadPhase) : Terminal :=
  if s.queue.length < options.channelCapacity then
    { s with queue := s.queue ++ [observation], thread }
  else
    s

/-- The loop of `spawn_output`, from one read. -/
def read (s : Terminal) : ReadResult → Terminal
  | .chunk bytes =>
    if bytes = [] then { s with thread := .ending }
    else { s with thread := .sending bytes, chunks := s.chunks ++ [bytes] }
  | .endOfFile => { s with thread := .ending }
  | .interrupted => s
  | .failed message => { s with thread := .reporting "PTY output" message }

/-- A send of the output thread, which waits for room. -/
def send (s : Terminal) : Terminal :=
  match s.thread with
  | .sending bytes => s.enqueue options (.terminalOutput bytes) .forwarding
  | .reporting producer message => s.enqueue options (.producerFailed producer message) .ending
  | .ending => s.enqueue options .outputEof .finished
  | .reading | .forwarding | .finished => s

/-- The chunk is written to the standard output. -/
def forward (s : Terminal) (error : Option String) : Terminal :=
  match s.thread, error with
  | .forwarding, none => { s with thread := .reading }
  | .forwarding, some message =>
    { s with thread := .reporting "terminal output forwarding" message }
  | _, _ => s

/-- The end of `supervise`, from the event of the root's exit on. -/
def conclusion (fatal : Option CaptureError) : Method Unit := do
  let fatal ← emitExited env session (fatal.or session.failure)
  let final ← finalCommit env codecs session fatal
  Rewind.conclude env session final

/-- One move. -/
def step (s : Terminal) : TerminalAction → Terminal
  | .read result =>
    match s.thread with
    | .reading => s.read result
    | _ => s
  | .send => s.send options
  | .forward error => s.forward error
  | .produce ops => s.enqueue options (.other ops) s.thread
  | .producerFails producer message =>
    s.enqueue options (.producerFailed producer message) s.thread
  | .publish bytes =>
    { s with coordinator := { s.coordinator with
        objects := s.coordinator.objects.publish codecs bytes } }
  | .receive =>
    match s.queue with
    | observation :: rest =>
      if s.phase.receives then
        { s with
          coordinator := s.coordinator.handle env codecs options streamId observation
          queue := rest }
      else
        s
    | [] => s
  | .poll ops =>
    if s.phase.runs then
      { s with coordinator := s.coordinator.poll env codecs ops }
    else
      s
  | .fails error =>
    if s.phase.runs then { s with coordinator := s.coordinator.fail error } else s
  | .childExits => { s with coordinator := { s.coordinator with childExit := true } }
  | .abandon =>
    if s.coordinator.childExit && !s.coordinator.outputEof then
      { s with coordinator := { s.coordinator with outputAbandoned := true } }
    else
      s
  | .leaveLoop =>
    match s.phase with
    | .looping =>
      if s.coordinator.childExit && (s.coordinator.outputEof || s.coordinator.outputAbandoned) then
        { s with phase := .terminating }
      else
        s
    | _ => s
  | .terminated =>
    match s.phase with
    | .terminating => { s with phase := .draining }
    | _ => s
  | .drained =>
    match s.phase, s.queue with
    | .draining, [] =>
      { s with phase := if s.coordinator.outputAbandoned then .concluding else .joining }
    | .settling, [] => { s with phase := .concluding }
    | _, _ => s
  | .joined =>
    match s.phase, s.thread with
    | .joining, .finished => { s with phase := .settling }
    | _, _ => s
  | .conclude =>
    match s.phase with
    | .concluding =>
      let concluded := exec (conclusion env codecs session s.coordinator.fatal) s.coordinator.world
      { s with
        coordinator := { s.coordinator with world := concluded.2 }
        phase := .ended concluded.1 }
    | _ => s

/-- A capture whose child has been started. -/
def start (w : World) (objects : Payloads) : Terminal where
  coordinator := ⟨w, objects, 0, false, false, false, none⟩
  queue := []
  thread := .reading
  phase := .looping
  chunks := []

end Terminal

/-! ### What is captured -/

/-- The object and the length that an event of the terminal output names. -/
def EventPayload.terminalOutput? : EventPayload → Option (ObjectId × UInt64)
  | .terminalOutput _ objectId byteLen => some (objectId, byteLen)
  | _ => none

/-- The terminal output of a run, from its durable events. -/
def Db.terminalOutputs (db : Db) (runId : RunId) : List (ObjectId × UInt64) :=
  (db.eventsOf runId).filterMap (·.payload.terminalOutput?)

/-- **The output is captured.** -/
structure OutputCaptured (runId : RunId) (s : Terminal) : Prop where
  /-- The events are stored in the order of their numbers. -/
  inOrder : (s.coordinator.world.db.eventsOf runId).map (·.sequence)
    = List.range' 1 (s.coordinator.world.db.eventsOf runId).length
  /-- The thread has read to the end. -/
  ended : s.thread = .finished
  bytes : ((s.coordinator.world.db.terminalOutputs runId).filterMap
    fun output => s.coordinator.objects output.1).flatten = s.chunks.flatten
  lengths : ∀ output ∈ s.coordinator.world.db.terminalOutputs runId, ∃ payload,
    s.coordinator.objects output.1 = some payload ∧ output.2.toNat = payload.length
  total : s.coordinator.terminalOutputBytes = s.chunks.flatten.length

/-! ### What the recorder's methods do to it -/

/-- What has been emitted of the terminal output, durable or in the buffer. -/
structure OutputEmitted (runId : RunId) (outputs : List (ObjectId × UInt64)) (w : World) :
    Prop where
  owner : w.recorder.runId = runId
  sequencer : w.recorder.sequencer.runId = runId
  counted : Counted w
  wellFormed : w.db.WellFormed
  owned : ∀ event ∈ w.recorder.pending, event.runId = runId
  outputs : w.db.terminalOutputs runId
    ++ w.recorder.pending.filterMap (·.payload.terminalOutput?) = outputs

section Emission

variable {runId : RunId} {outputs : List (ObjectId × UInt64)}

theorem terminalOutputs_append {db db' : Db} {events : List Event}
    (hok : appendEventBatchIn db events = .ok db')
      (howned : ∀ event ∈ events, event.runId = runId) :
    db'.terminalOutputs runId
      = db.terminalOutputs runId ++ events.filterMap (·.payload.terminalOutput?) := by
  obtain ⟨rfl, -⟩ := appendEventBatchIn_ok hok
  have hfilter : events.filter (fun event => decide (event.runId = runId)) = events :=
    List.filter_eq_self.mpr fun event hevent => decide_eq_true (howned event hevent)
  rw [Db.terminalOutputs, Db.eventsOf_withEvents, hfilter, List.filterMap_append,
    List.filterMap_map]
  rfl

theorem terminalOutputs_congr {db db' : Db} (hevents : db'.events = db.events) :
    db'.terminalOutputs runId = db.terminalOutputs runId := by
  rw [Db.terminalOutputs, Db.terminalOutputs, Db.eventsOf, Db.eventsOf, hevents]

/-- The same with room for one more in the count of the checkpoints. -/
def OutputEmittedRoomy (runId : RunId) (outputs : List (ObjectId × UInt64)) (_ : CheckpointId)
    (_ : SnapshotId) (w : World) : Prop :=
  OutputEmitted runId outputs w ∧ w.recorder.checkpointCount + 1 < w.recorder.sequencer.next.get

/-- A numbered event is queued. -/
theorem OutputEmitted.queue {w : World} {payload : EventPayload} {event : Event}
    {sequencer : Sequencer}
    (hw : OutputEmitted runId outputs w)
    (hnumbered : Numbered w.recorder.sequencer payload event sequencer) :
    OutputEmitted runId (outputs ++ payload.terminalOutput?.toList) (w.queue event sequencer) := by
  have hnext := hnumbered.next'
  have hcounted : w.recorder.checkpointCount < w.recorder.sequencer.next.get := hw.counted
  refine ⟨hw.owner, hnumbered.runId'.trans hw.sequencer, ?_, hw.wellFormed, ?_, ?_⟩
  · show w.recorder.checkpointCount < sequencer.next.get
    omega
  · intro queued hqueued
    rcases List.mem_append.mp hqueued with hbefore | hnew
    · exact hw.owned queued hbefore
    · rw [List.mem_singleton.mp hnew]
      exact hnumbered.runId.trans hw.sequencer
  · show w.db.terminalOutputs runId
      ++ (w.recorder.pending ++ [event]).filterMap (·.payload.terminalOutput?) = _
    rw [List.filterMap_append, ← List.append_assoc, hw.outputs]
    congr 1
    show [event].filterMap (·.payload.terminalOutput?) = payload.terminalOutput?.toList
    rw [← hnumbered.payload]
    cases houtput : event.payload.terminalOutput? with
    | none => simp [houtput]
    | some output => simp [houtput]

theorem terminalOutput?_of_reference? {payload : EventPayload} (h : payload.reference? = none) :
    payload.terminalOutput? = none := by
  cases payload <;> simp_all [EventPayload.reference?, EventPayload.terminalOutput?]

/-- The events beside the terminal output leave it as it is. -/
theorem effects_emitted (env : Env) (codecs : Codecs) (runId : RunId)
    (outputs : List (ObjectId × UInt64)) :
    Effects env codecs (fun _ => True) (fun payload => payload.terminalOutput? = none)
      (OutputEmitted runId outputs) (OutputEmittedRoomy runId outputs)
      (fun _ _ => OutputEmitted runId outputs) where
  ordinary _ hpayload := terminalOutput?_of_reference? hpayload
  tick _ hw := ⟨hw.owner, hw.sequencer, hw.counted, hw.wellFormed, hw.owned, hw.outputs⟩
  paths _ _ hw := ⟨hw.owner, hw.sequencer, hw.counted, hw.wellFormed, hw.owned, hw.outputs⟩
  refuse _ _ hw := ⟨hw.owner, hw.sequencer, hw.counted, hw.wellFormed, hw.owned, hw.outputs⟩
  object := by
    intro w db stored createdUnixMs hw hok
    have hwellFormed := ((statements_keepTimelines codecs).recordObject hok hw.wellFormed).1
    have hevents : db.events = w.db.events := by
      obtain ⟨row, -, -, -, rfl, -⟩ := recordObject_ok hok
      obtain ⟨rows, -, hinsert⟩ := Db.insertObject_frame w.db row
      rw [hinsert]
    refine ⟨hw.owner, hw.sequencer, hw.counted, hwellFormed, hw.owned, ?_⟩
    show db.terminalOutputs runId ++ _ = _
    rw [terminalOutputs_congr hevents]
    exact hw.outputs
  number := by
    intro w payload event sequencer hw hnumbered
    have hnext := hnumbered.next'
    have hcounted : w.recorder.checkpointCount < w.recorder.sequencer.next.get := hw.counted
    refine ⟨hw.owner, hnumbered.runId'.trans hw.sequencer, ?_, hw.wellFormed, hw.owned, hw.outputs⟩
    show w.recorder.checkpointCount < sequencer.next.get
    omega
  queue := by
    intro w payload event sequencer hallowed hw hnumbered
    have hqueued := hw.queue hnumbered
    rw [hallowed] at hqueued
    rwa [Option.toList_none, List.append_nil] at hqueued
  append := by
    intro w db hw hok
    refine ⟨hw.owner, hw.sequencer, hw.counted, (keepsTimelines_append hok hw.wellFormed).1, nofun,
      ?_⟩
    show db.terminalOutputs runId ++ [] = outputs
    rw [List.append_nil, terminalOutputs_append hok hw.owned]
    exact hw.outputs
  commit := by
    intro w checkpointId reason label snapshot event sequencer db projected _ _ hw hnumbered hok _
    have hnext := hnumbered.next'
    have hcounted : w.recorder.checkpointCount < w.recorder.sequencer.next.get := hw.counted
    obtain ⟨-, -, db₁, hcommit, happend⟩ := commitCheckpointWithEvent_ok hok
    have hwellFormed := (keepsTimelines_append happend
      (keepsTimelines_checkpoint hcommit hw.wellFormed).1).1
    have hevents : db₁.events = w.db.events := by
      obtain ⟨db₂, hstore, -, -, -, rfl⟩ := commitCheckpointIn_ok hcommit
      obtain ⟨snapshots, snapshotEntries, rfl⟩ := storeSnapshotIn_frame hstore
      rfl
    have hevent : event.payload.terminalOutput? = none := by
      rw [hnumbered.payload]
      rfl
    have houtputs : db.terminalOutputs runId = w.db.terminalOutputs runId := by
      rw [terminalOutputs_append happend fun e he => ?_, terminalOutputs_congr hevents]
      · simp [hevent]
      · rw [List.mem_singleton.mp he]
        exact hnumbered.runId.trans hw.sequencer
    refine ⟨⟨hw.owner, hnumbered.runId'.trans hw.sequencer, ?_, hwellFormed, hw.owned, ?_⟩, ?_⟩
    · show w.recorder.checkpointCount < sequencer.next.get
      omega
    · show db.terminalOutputs runId ++ _ = _
      rw [houtputs]
      exact hw.outputs
    · show w.recorder.checkpointCount + 1 < sequencer.next.get
      omega
  bounded := by
    rintro _ _ w ⟨-, hroom⟩
    have hlt := w.recorder.sequencer.next.lt
    omega
  count := by
    rintro _ _ w ⟨hw, hroom⟩
    exact ⟨hw.owner, hw.sequencer, hroom, hw.wellFormed, hw.owned, hw.outputs⟩

theorem finishKeeps_emitted (codecs : Codecs) (finish : RunFinish) :
    FinishKeeps (OutputEmitted runId outputs) finish := by
  intro w db hw hok
  have hrelated := statements_keepTimelines codecs
  obtain ⟨_, _, db₁, -, -, -, happend, hfinish⟩ := finishRunWithEvents_ok hok
  have hwellFormed := (hrelated.finish hfinish (hrelated.append happend hw.wellFormed).1).1
  have hevents : db.events = db₁.events := by
    obtain ⟨-, -, rfl⟩ := finishRunIn_ok hfinish
    rfl
  refine ⟨hw.owner, hw.sequencer, hw.counted, hwellFormed, nofun, ?_⟩
  show db.terminalOutputs runId ++ [] = outputs
  rw [List.append_nil, terminalOutputs_congr hevents, terminalOutputs_append happend hw.owned]
  exact hw.outputs

/-- Some output has been emitted. -/
def OutputEmittedSome (runId : RunId) (w : World) : Prop := ∃ outputs, OutputEmitted runId outputs w

/-- The event of a chunk is emitted after the others. -/
theorem spec_emitOutput (env : Env) (codecs : Codecs) (streamId : TerminalStreamId)
    (objectId : ObjectId) (logicalSize byteLen : UInt64) :
    Spec (OutputEmitted runId outputs)
      (Recorder.emitObjectReference env objectId logicalSize
        (.terminalOutput streamId objectId byteLen))
      (fun _ => OutputEmitted runId (outputs ++ [(objectId, byteLen)]))
        (OutputEmittedSome runId) := by
  have h := effects_emitted env codecs runId outputs
  have h' := effects_emitted env codecs runId (outputs ++ [(objectId, byteLen)])
  have hsome : ∀ w, OutputEmitted runId outputs w → OutputEmittedSome runId w := fun w hw =>
    ⟨outputs, hw⟩
  refine spec_get_bind fun w hw => ?_
  rcases Recorder.projectedObjectBytes w.recorder [(objectId, logicalSize)] with error | projected
  · refine spec_bind ((h.keeps_warnRunStorageLimit.at hw).imp (fun _ ht => ht) (fun _ _ ht => ht)
      hsome) fun _ => ?_
    exact spec_bind (h.keeps_flush.to hsome) fun _ => spec_throw hsome
  · have hqueue : Spec (OutputEmitted runId outputs) (Recorder.queueEvent env
        (.terminalOutput streamId objectId byteLen))
        (fun _ => OutputEmitted runId (outputs ++ [(objectId, byteLen)]))
          (OutputEmitted runId outputs) :=
      Effects.spec_queueEvent_of_tick h.tick fun v event sequencer hv hnumbered =>
        hv.queue hnumbered
    refine spec_bind ((spec_emit hqueue h'.keeps_flush).imp (fun t ht => ht ▸ hw)
      (fun _ _ ht => ht) fun t ht => ?_) fun _ => ?_
    · rcases ht with ht | ht
      · exact ⟨_, ht⟩
      · exact ⟨_, ht⟩
    · refine spec_bind (spec_modify (Q := fun _ =>
        OutputEmitted runId (outputs ++ [(objectId, byteLen)]))
        fun t ht => ?_) fun _ => spec_pure fun _ ht => ht
      exact ⟨ht.owner, ht.sequencer, ht.counted, ht.wellFormed, ht.owned, ht.outputs⟩

/-- An operation without an event of the terminal output leaves the output as it is. -/
theorem keeps_noOutput (env : Env) (codecs : Codecs) {op : RecorderOp} (hop : op.noOutput = true) :
    Keeps (OutputEmitted runId outputs) (op.exec env codecs) := by
  have h := effects_emitted env codecs runId outputs
  have hallowed : ∀ payload, op.payload? = some payload → payload.terminalOutput? = none := by
    intro payload hop'
    unfold RecorderOp.noOutput at hop
    rw [hop'] at hop
    cases payload <;> simp_all [EventPayload.terminalOutput?]
  refine h.keeps_exec (fun _ => trivial) (fun _ _ _ hw => hw) (finishKeeps_emitted codecs) ?_ ?_ ?_
  · intro w db initialSnapshot hw hok
    have hwellFormed := ((statements_keepTimelines codecs).markRunRunning hok hw.wellFormed).1
    have hevents : db.events = w.db.events := by
      obtain ⟨-, rfl⟩ := markRunRunning_ok hok
      rfl
    refine ⟨hw.owner, hw.sequencer, hw.counted, hwellFormed, hw.owned, ?_⟩
    show db.terminalOutputs runId ++ _ = _
    rw [terminalOutputs_congr hevents]
    exact hw.outputs
  · rintro payload (rfl | rfl) <;> exact hallowed payload rfl
  · rintro objectId logicalSize payload rfl
    refine h.keeps_emitObjectReference objectId logicalSize (hallowed payload rfl) ?_
    exact fun w _ _ hw => ⟨hw.owner, hw.sequencer, hw.counted, hw.wellFormed, hw.owned, hw.outputs⟩

theorem keeps_observe (env : Env) (codecs : Codecs) {ops : List RecorderOp}
    (hops : ∀ op ∈ ops, op.besideOutput = true) :
    Keeps (OutputEmitted runId outputs) (Coordinator.observe env codecs ops) := by
  induction ops with
  | nil => exact keeps_pure _
  | cons op rest ih =>
    obtain ⟨hop, hrest⟩ := List.forall_mem_cons.mp hops
    have hnoOutput := (Bool.and_eq_true_iff.mp hop).2
    refine keeps_bind (keeps_outcome (keeps_noOutput env codecs hnoOutput)) fun result => ?_
    rcases result with error | _
    · exact spec_ite (fun _ => keeps_pure _) fun _ => keeps_throw _
    · exact ih hrest

end Emission

/-! ### What the handlers do -/

/-- The coordinator `c₀` with another world of the recorder. -/
def Around (c₀ : Coordinator) (W : World → Prop) (c : Coordinator) : Prop :=
  ∃ w, W w ∧ c = { c₀ with world := w }

section Handlers

variable {runId : RunId} {outputs : List (ObjectId × UInt64)} {c₀ : Coordinator}

theorem around_self {W : World → Prop} {c : Coordinator} (h : W c.world) : Around c W c :=
  ⟨c.world, h, rfl⟩

theorem Around.imp {W W' : World → Prop} {c : Coordinator} (h : Around c₀ W c)
    (hW : ∀ w, W w → W' w) : Around c₀ W' c := by
  obtain ⟨w, hw, rfl⟩ := h
  exact ⟨w, hW w hw, rfl⟩

/-- What a method of the recorder ensures, with the rest of the coordinator as it is. -/
theorem spec_recorder {α : Type} {P E : World → Prop} {Q : α → World → Prop} {m : Method α}
    (h : Spec P m Q E) :
    Spec (Around c₀ P) (Coordinator.recorder m) (fun a => Around c₀ (Q a)) (Around c₀ E) := by
  rintro _ ⟨w, hw, rfl⟩
  have hspec := h w hw
  have hrecorder : exec (Coordinator.recorder m) { c₀ with world := w }
      = ((exec m w).1, { c₀ with world := (exec m w).2 }) := rfl
  rw [hrecorder]
  rcases hexec : exec m w with ⟨error | a, w'⟩
  · rw [hexec] at hspec
    exact ⟨w', hspec, rfl⟩
  · rw [hexec] at hspec
    exact ⟨w', hspec, rfl⟩

/-- A chunk that could not be recorded, with some output emitted. -/
def NotRecorded (codecs : Codecs) (c₀ : Coordinator) (runId : RunId) (bytes : Bytes)
    (c : Coordinator) : Prop :=
  Around c₀ (OutputEmittedSome runId) c
    ∨ Around { c₀ with objects := c₀.objects.publish codecs bytes } (OutputEmittedSome runId) c

/-- The output of a chunk. -/
def outputOf (codecs : Codecs) (bytes : Bytes) : ObjectId × UInt64 :=
  (ObjectId.digestOf codecs bytes, UInt64.ofNat bytes.length)

theorem spec_publishObject (env : Env) (codecs : Codecs) (bytes : Bytes) :
    Spec (Around c₀ (OutputEmitted runId outputs)) (Coordinator.publishObject env codecs bytes)
      (fun stored c => Around { c₀ with objects := c₀.objects.publish codecs bytes }
        (OutputEmitted runId outputs) c ∧ stored.id = ObjectId.digestOf codecs bytes)
      (NotRecorded codecs c₀ runId bytes) := by
  have h := effects_emitted env codecs runId outputs
  have hleft : ∀ c, Around c₀ (OutputEmitted runId outputs) c →
      NotRecorded codecs c₀ runId bytes c :=
    fun c hc => Or.inl (hc.imp fun w hw => ⟨outputs, hw⟩)
  refine spec_bind ((spec_recorder h.keeps_nextTick).imp (fun _ hc => hc) (fun _ _ hc => hc) hleft)
    fun tick => ?_
  refine spec_ite (fun _ => spec_throw hleft) fun _ => ?_
  rcases encode bytes with error | envelope
  · exact spec_throw hleft
  · refine spec_bind (Q := fun _ => Around { c₀ with objects := c₀.objects.publish codecs bytes }
      (OutputEmitted runId outputs)) (spec_modify ?_) fun _ => spec_pure fun c hc => ⟨hc, rfl⟩
    rintro _ ⟨w, hw, rfl⟩
    exact ⟨w, hw, rfl⟩

theorem spec_putObject (env : Env) (codecs : Codecs) (bytes : Bytes) (createdUnixMs : Int64) :
    Spec (Around c₀ (OutputEmitted runId outputs))
      (Coordinator.putObject env codecs bytes createdUnixMs)
      (fun stored c => Around { c₀ with objects := c₀.objects.publish codecs bytes }
        (OutputEmitted runId outputs) c ∧ stored.id = ObjectId.digestOf codecs bytes)
      (NotRecorded codecs c₀ runId bytes) := by
  have h := effects_emitted env codecs runId outputs
  refine spec_bind (spec_publishObject env codecs bytes) fun stored => ?_
  refine Spec.imp (P := fun c => Around { c₀ with objects := c₀.objects.publish codecs bytes }
    (OutputEmitted runId outputs) c ∧ stored.id = ObjectId.digestOf codecs bytes)
    (spec_and_right fun hid => ?_) (fun _ hc => hc) (fun _ _ hc => hc) fun _ hc => hc
  refine spec_bind ((spec_recorder (h.keeps_recordObject stored createdUnixMs)).imp
    (fun _ hc => hc) (fun _ _ hc => hc) fun c hc => Or.inr (hc.imp fun w hw => ⟨outputs, hw⟩))
    fun _ => spec_pure fun c hc => ⟨hc, hid⟩

/-- **A chunk.**  It is published, its event emitted and its bytes counted. -/
theorem spec_recordOutput (env : Env) (codecs : Codecs) (options : TerminalOptions)
    (streamId : TerminalStreamId) (bytes : Bytes) :
    Spec (fun c => c = c₀ ∧ OutputEmitted runId outputs c.world)
      (Coordinator.recordOutput env codecs options streamId bytes)
      (fun _ c => Around { c₀ with
          objects := c₀.objects.publish codecs bytes
          terminalOutputBytes := c₀.terminalOutputBytes + bytes.length }
        (OutputEmitted runId (outputs ++ [outputOf codecs bytes])) c ∧ bytes.length < 2 ^ 64)
      (NotRecorded codecs c₀ runId bytes) := by
  have h := effects_emitted env codecs runId outputs
  refine spec_get_bind ?_
  rintro c ⟨rfl, hc⟩
  have haround : ∀ t, t = c → Around c (OutputEmitted runId outputs) t := by
    rintro t rfl
    exact around_self hc
  have hleft : ∀ t, Around c (OutputEmitted runId outputs) t →
      NotRecorded codecs c runId bytes t :=
    fun t ht => Or.inl (ht.imp fun w hw => ⟨outputs, hw⟩)
  refine spec_ite (fun _ => spec_throw fun t ht => hleft t (haround t ht)) fun hlength => ?_
  refine spec_ite (fun _ => spec_throw fun t ht => hleft t (haround t ht)) fun _ => ?_
  refine spec_ite (fun _ => ?_) fun _ => ?_
  · -- the limit is reported, and the chunk not recorded
    refine Spec.imp (P := Around c (OutputEmitted runId outputs)) ?_ haround (fun _ _ ht => ht)
      fun _ ht => ht
    refine spec_bind ((spec_recorder (h.keeps_warning _ _)).imp (fun _ ht => ht)
      (fun _ _ ht => ht) hleft) fun _ => ?_
    exact spec_bind ((spec_recorder h.keeps_flush).imp (fun _ ht => ht) (fun _ _ ht => ht) hleft)
      fun _ => spec_throw hleft
  · have htime : Keeps (OutputEmitted runId outputs) (timestampNow env) :=
      keeps_bind h.keeps_now fun _ => keeps_pure _
    refine spec_bind ((spec_recorder htime).imp haround (fun _ _ ht => ht) hleft) fun time => ?_
    refine spec_bind (spec_putObject env codecs bytes time.unixMilliseconds) fun stored => ?_
    refine Spec.imp (P := fun t => Around { c with objects := c.objects.publish codecs bytes }
      (OutputEmitted runId outputs) t ∧ stored.id = ObjectId.digestOf codecs bytes)
      (spec_and_right fun hid => ?_) (fun _ ht => ht) (fun _ _ ht => ht) fun _ ht => ht
    rw [hid]
    have hemit : Spec (OutputEmitted runId outputs)
        (discard (Recorder.emitObjectReference env (ObjectId.digestOf codecs bytes)
          stored.logicalSize (.terminalOutput streamId (ObjectId.digestOf codecs bytes)
            (UInt64.ofNat bytes.length))))
        (fun _ => OutputEmitted runId (outputs ++ [outputOf codecs bytes]))
        (OutputEmittedSome runId) :=
      spec_bind (spec_emitOutput env codecs streamId _ _ _) fun _ => spec_pure fun _ ht => ht
    refine spec_bind ((spec_recorder hemit).imp (fun _ ht => ht) (fun _ _ ht => ht)
      fun t ht => Or.inr ht) fun _ => spec_modify ?_
    rintro _ ⟨w, hw, rfl⟩
    exact ⟨⟨w, hw, rfl⟩, Nat.lt_of_not_le hlength⟩

end Handlers

/-! ### The coordinator's accounts -/

/-- The chunks `recorded` are what the coordinator has recorded, as long as nothing was fatal. -/
structure Recorded (codecs : Codecs) (runId : RunId) (occurs : Set Bytes) (recorded : List Bytes)
    (c : Coordinator) : Prop where
  store : ∀ id payload, c.objects id = some payload →
    payload ∈ occurs ∧ ObjectId.digestOf codecs payload = id
  emittedSome : OutputEmittedSome runId c.world
  emitted : c.fatal = none → OutputEmitted runId (recorded.map (outputOf codecs)) c.world
  total : c.fatal = none → c.terminalOutputBytes = recorded.flatten.length
  kept : c.fatal = none → ∀ bytes ∈ recorded,
    c.objects (ObjectId.digestOf codecs bytes) = some bytes ∧ bytes.length < 2 ^ 64

section Accounts

variable {codecs : Codecs} {runId : RunId} {occurs : Set Bytes} {recorded : List Bytes}

theorem publish_of_some {objects : Payloads} {id : ObjectId} {payload : Bytes}
    (h : objects id = some payload) (bytes : Bytes) :
    objects.publish codecs bytes id = some payload := by
  rw [Payloads.publish, if_neg (fun hnew => ?_), h]
  rw [h] at hnew
  exact absurd hnew.2 (by simp)

/-- Every published payload is one that occurs, under its digest. -/
theorem publish_store {objects : Payloads} {bytes : Bytes} (hbytes : bytes ∈ occurs)
    (h : ∀ id payload, objects id = some payload →
      payload ∈ occurs ∧ ObjectId.digestOf codecs payload = id)
    (id : ObjectId) (payload : Bytes) (hid : objects.publish codecs bytes id = some payload) :
    payload ∈ occurs ∧ ObjectId.digestOf codecs payload = id := by
  unfold Payloads.publish at hid
  split at hid
  case isTrue hnew =>
    obtain rfl := Option.some.inj hid
    exact ⟨hbytes, hnew.1.symm⟩
  case isFalse => exact h id payload hid

/-- Where digests do not collide, a chunk is found under its digest. -/
theorem publish_self {objects : Payloads} {bytes : Bytes}
    (hdigests : Set.InjOn codecs.blake3 occurs) (hbytes : bytes ∈ occurs)
    (h : ∀ id payload, objects id = some payload →
      payload ∈ occurs ∧ ObjectId.digestOf codecs payload = id) :
    objects.publish codecs bytes (ObjectId.digestOf codecs bytes) = some bytes := by
  rcases hid : objects (ObjectId.digestOf codecs bytes) with _ | payload
  · rw [Payloads.publish, if_pos ⟨rfl, hid⟩]
  · obtain ⟨hoccurs, hdigest⟩ := h _ _ hid
    have hsame : payload = bytes := hdigests hoccurs hbytes (ObjectId.mk.inj hdigest)
    rw [publish_of_some hid, hsame]

/-- An error is fatal. -/
theorem fail_fatal (c : Coordinator) (error : CaptureError) : (c.fail error).fatal ≠ none := by
  unfold Coordinator.fail
  rcases c.fatal with _ | first
  · exact nofun
  · exact nofun

theorem Recorded.fail {c : Coordinator} (h : Recorded codecs runId occurs recorded c)
    (error : CaptureError) : Recorded codecs runId occurs recorded (c.fail error) where
  store := h.store
  emittedSome := h.emittedSome
  emitted hfatal := absurd hfatal (fail_fatal c error)
  total hfatal := absurd hfatal (fail_fatal c error)
  kept hfatal := absurd hfatal (fail_fatal c error)

/-- The result of a handler is what it ends in, or a fatal error after what it fails in. -/
theorem settled_cases {c : Coordinator} {handler : Handler Unit} {Q : Unit → Coordinator → Prop}
    {E : Coordinator → Prop} (h : Spec (fun t => t = c) handler Q E) :
    Q () (Coordinator.settled handler c)
      ∨ ∃ c' error, E c' ∧ Coordinator.settled handler c = c'.fail error := by
  have hspec := h c rfl
  unfold Coordinator.settled
  rcases hexec : exec handler c with ⟨error | _, c'⟩
  · rw [hexec] at hspec
    exact Or.inr ⟨c', error, hspec, rfl⟩
  · rw [hexec] at hspec
    exact Or.inl hspec

/-- The parts of the coordinator that its handlers for the recorder leave alone. -/
structure SameFlags (c c' : Coordinator) : Prop where
  outputEof : c'.outputEof = c.outputEof
  outputAbandoned : c'.outputAbandoned = c.outputAbandoned
  childExit : c'.childExit = c.childExit

theorem Recorded.poll {c : Coordinator} (h : Recorded codecs runId occurs recorded c) (env : Env)
    {ops : List RecorderOp} (hops : ∀ op ∈ ops, op.besideOutput = true) :
    Recorded codecs runId occurs recorded (c.poll env codecs ops)
      ∧ SameFlags c (c.poll env codecs ops)
      ∧ ((c.poll env codecs ops).fatal = none → c.fatal = none) := by
  obtain ⟨outputs, houtputs⟩ := h.emittedSome
  have hkeeps : ∀ outputs', Keeps (OutputEmitted runId outputs')
      (Coordinator.observe env codecs ops) := fun _ => keeps_observe env codecs hops
  -- the world of the recorder is all that changes, whatever the operations return
  have hworld : ∃ w, (∀ outputs', OutputEmitted runId outputs' c.world →
      OutputEmitted runId outputs' w) ∧ (c.poll env codecs ops = { c with world := w }
        ∨ ∃ error, c.poll env codecs ops = Coordinator.fail { c with world := w } error) := by
    refine ⟨(exec (Coordinator.observe env codecs ops) c.world).2,
      fun outputs' houtputs' => (hkeeps outputs').state houtputs', ?_⟩
    have hrecorder : exec (Coordinator.recorder (Coordinator.observe env codecs ops)) c
        = ((exec (Coordinator.observe env codecs ops) c.world).1,
          { c with world := (exec (Coordinator.observe env codecs ops) c.world).2 }) := rfl
    unfold Coordinator.poll Coordinator.settled
    rw [hrecorder]
    rcases exec (Coordinator.observe env codecs ops) c.world with ⟨error | _, w⟩
    · exact Or.inr ⟨error, rfl⟩
    · exact Or.inl rfl
  obtain ⟨w, hkept, hpoll⟩ := hworld
  have hrecorded : Recorded codecs runId occurs recorded { c with world := w } :=
    ⟨h.store, ⟨outputs, hkept outputs houtputs⟩, fun hfatal => hkept _ (h.emitted hfatal), h.total,
      h.kept⟩
  rcases hpoll with hpoll | ⟨error, hpoll⟩
  · rw [hpoll]
    exact ⟨hrecorded, ⟨rfl, rfl, rfl⟩, fun hfatal => hfatal⟩
  · rw [hpoll]
    exact ⟨hrecorded.fail error, ⟨rfl, rfl, rfl⟩, fun hfatal => absurd hfatal (fail_fatal _ _)⟩

theorem Recorded.output {c : Coordinator} (h : Recorded codecs runId occurs recorded c) (env : Env)
    (options : TerminalOptions) (streamId : TerminalStreamId) {bytes : Bytes}
    (hdigests : Set.InjOn codecs.blake3 occurs) (hbytes : bytes ∈ occurs) (hfatal : c.fatal = none)
    {c' : Coordinator}
    (hc' : Coordinator.settled (Coordinator.recordOutput env codecs options streamId bytes) c
      = c') :
    ∃ recorded', Recorded codecs runId occurs recorded' c' ∧ SameFlags c c'
      ∧ (c'.fatal = none → recorded' = recorded ++ [bytes]) := by
  have hspec : Spec
      (fun t => t = c ∧ OutputEmitted runId (recorded.map (outputOf codecs)) t.world)
      (Coordinator.recordOutput env codecs options streamId bytes)
      (fun _ t => Around { c with
          objects := c.objects.publish codecs bytes
          terminalOutputBytes := c.terminalOutputBytes + bytes.length }
        (OutputEmitted runId (recorded.map (outputOf codecs) ++ [outputOf codecs bytes])) t
          ∧ bytes.length < 2 ^ 64)
      (NotRecorded codecs c runId bytes) := spec_recordOutput env codecs options streamId bytes
  have hself := publish_self hdigests hbytes h.store
  rcases settled_cases (hspec.imp (fun t ht => ⟨ht, ht ▸ h.emitted hfatal⟩) (fun _ _ ht => ht)
    fun _ ht => ht) with ⟨⟨w, hw, hsettled⟩, hlength⟩ | ⟨t, error, hleft, hsettled⟩
  · -- the chunk is recorded
    rw [hc'] at hsettled
    subst hsettled
    have hflat : (recorded ++ [bytes]).flatten.length
        = c.terminalOutputBytes + bytes.length := by
      rw [h.total hfatal, List.flatten_append, List.length_append]
      simp
    refine ⟨recorded ++ [bytes], ?_, ⟨rfl, rfl, rfl⟩, fun _ => rfl⟩
    refine ⟨publish_store hbytes h.store, ⟨_, hw⟩, fun _ => ?_, fun _ => hflat.symm, fun _ => ?_⟩
    · rw [List.map_append]
      exact hw
    · intro chunk hchunk
      rcases List.mem_append.mp hchunk with hbefore | hnew
      · obtain ⟨hkept, hfits⟩ := h.kept hfatal chunk hbefore
        exact ⟨publish_of_some hkept bytes, hfits⟩
      · rw [List.mem_singleton.mp hnew]
        exact ⟨hself, hlength⟩
  · -- it is not, and the error is fatal
    rw [hc'] at hsettled
    subst hsettled
    have hnot : (t.fail error).fatal ≠ none := fail_fatal t error
    have hstore : ∀ id payload, t.objects id = some payload →
        payload ∈ occurs ∧ ObjectId.digestOf codecs payload = id := by
      rcases hleft with ⟨w, -, rfl⟩ | ⟨w, -, rfl⟩
      · exact h.store
      · exact publish_store hbytes h.store
    have hsome : OutputEmittedSome runId t.world := by
      rcases hleft with ⟨w, hw, rfl⟩ | ⟨w, hw, rfl⟩
      · exact hw
      · exact hw
    have hflags : SameFlags c (t.fail error) := by
      rcases hleft with ⟨w, -, rfl⟩ | ⟨w, -, rfl⟩
      · exact ⟨rfl, rfl, rfl⟩
      · exact ⟨rfl, rfl, rfl⟩
    refine ⟨recorded, ⟨hstore, hsome, ?_, ?_, ?_⟩, hflags, fun hnone => absurd hnone hnot⟩
    · exact fun hnone => absurd hnone hnot
    · exact fun hnone => absurd hnone hnot
    · exact fun hnone => absurd hnone hnot

/-- The chunk that an observation brings. -/
def Observation.output? : Observation → Option Bytes
  | .terminalOutput bytes => some bytes
  | _ => none

/-- The observation is the end of the output. -/
def Observation.isEof : Observation → Bool
  | .outputEof => true
  | _ => false

/-- The chunks are among those that occur, and nothing else emits terminal output. -/
def Observation.Within (occurs : Set Bytes) : Observation → Prop
  | .terminalOutput bytes => bytes ∈ occurs
  | .other ops => ∀ op ∈ ops, op.besideOutput = true
  | _ => True

/-- **One message.**  Without a fatal error, a chunk is recorded after the others. -/
theorem Recorded.handle {c : Coordinator} (h : Recorded codecs runId occurs recorded c) (env : Env)
    (options : TerminalOptions) (streamId : TerminalStreamId) {observation : Observation}
    (hdigests : Set.InjOn codecs.blake3 occurs) (hwithin : observation.Within occurs)
    {c' : Coordinator} (hc' : c.handle env codecs options streamId observation = c') :
    ∃ recorded', Recorded codecs runId occurs recorded' c'
      ∧ (c'.fatal = none → c.fatal = none ∧ recorded' = recorded ++ observation.output?.toList)
      ∧ c'.outputEof = (c.outputEof || observation.isEof)
      ∧ c'.outputAbandoned = c.outputAbandoned := by
  have heof : Recorded codecs runId occurs recorded { c with outputEof := true } :=
    ⟨h.store, h.emittedSome, h.emitted, h.total, h.kept⟩
  unfold Coordinator.handle at hc'
  split at hc'
  case isTrue hfatal =>
    -- after a fatal error only the end of the output is taken note of
    have hnot : c.fatal ≠ none := by
      intro hnone
      rw [hnone] at hfatal
      exact Bool.noConfusion hfatal
    cases observation with
    | outputEof =>
      subst hc'
      exact ⟨recorded, heof, fun hnone => absurd hnone hnot, by simp [Observation.isEof], rfl⟩
    | terminalOutput _ | producerFailed _ _ | other _ =>
      subst hc'
      exact ⟨recorded, h, fun hnone => absurd hnone hnot, by simp [Observation.isEof], rfl⟩
  case isFalse hfatal =>
    have hnone : c.fatal = none := Option.not_isSome_iff_eq_none.mp hfatal
    cases observation with
    | terminalOutput bytes =>
      obtain ⟨recorded', hrecorded, hflags, hnext⟩ :=
        h.output env options streamId hdigests hwithin hnone hc'
      refine ⟨recorded', hrecorded, fun hfatal' => ⟨hnone, hnext hfatal'⟩, ?_,
        hflags.outputAbandoned⟩
      rw [hflags.outputEof]
      exact (Bool.or_false _).symm
    | outputEof =>
      subst hc'
      refine ⟨recorded, heof, fun _ => ⟨hnone, (List.append_nil _).symm⟩, ?_, rfl⟩
      exact (Bool.or_true _).symm
    | producerFailed producer message =>
      subst hc'
      refine ⟨recorded, h.fail _, fun hfatal' => absurd hfatal' (fail_fatal _ _), ?_, rfl⟩
      exact (Bool.or_false _).symm
    | other ops =>
      subst hc'
      obtain ⟨hrecorded, hflags, -⟩ := h.poll env hwithin
      refine ⟨recorded, hrecorded, fun _ => ⟨hnone, (List.append_nil _).symm⟩, ?_,
        hflags.outputAbandoned⟩
      rw [hflags.outputEof]
      exact (Bool.or_false _).symm

end Accounts

/-! ### The end of the supervision -/

section Conclusion

variable {runId : RunId} {outputs : List (ObjectId × UInt64)}

/-- A failure is kept, and one that is not fatal before is fatal after. -/
theorem spec_orFail {α : Type} {I : World → Prop} {Q : World → Prop} (fatal : Option CaptureError)
    {m : Method α} (hm : Spec I m (fun _ w => I w ∧ Q w) I) :
    Spec I (orFail fatal m) (fun result w => I w ∧ (result = none → fatal = none ∧ Q w)) I := by
  refine spec_bind (Q := fun result w => I w ∧ ((∃ a, result = .ok a) → Q w)) (spec_outcome ?_)
    fun result => ?_
  · refine hm.imp (fun _ hw => hw) (fun a w hw => ⟨hw.1, fun _ => hw.2⟩) fun w hw e => ⟨hw, ?_⟩
    rintro ⟨a, ha⟩
    exact nomatch ha
  · rcases result with error | a
    · refine spec_pure fun w hw => ⟨hw.1, fun hnone => ?_⟩
      rcases fatal with _ | first
      · exact nomatch hnone
      · exact nomatch hnone
    · exact spec_pure fun w hw => ⟨hw.1, fun hnone => ⟨hnone, hw.2 ⟨a, rfl⟩⟩⟩

/-- A finalization leaves nothing in the buffer. -/
theorem spec_commitFinish (env : Env) (codecs : Codecs) (finish : RunFinish) :
    Spec (OutputEmitted runId outputs) (Recorder.commitFinish env finish)
      (fun _ w => OutputEmitted runId outputs w ∧ w.recorder.pending = [])
      (OutputEmitted runId outputs) := by
  have h := effects_emitted env codecs runId outputs
  refine spec_get_bind fun w hw => ?_
  refine spec_bind (Q := fun _ t => OutputEmitted runId outputs
      { t with recorder := { t.recorder with pending := [] } }) (spec_transact ?_ ?_)
    fun _ => spec_modify fun t ht => ⟨ht, rfl⟩
  · rintro t db rfl hok
    exact finishKeeps_emitted codecs finish t db hw hok
  · rintro t rfl
    exact h.refuse t _ hw

theorem spec_finish (env : Env) (codecs : Codecs) (status : RunStatus)
    (exitStatus : ProcessExitStatus) (finalSnapshot : Option SnapshotId) :
    Spec (OutputEmitted runId outputs) (Recorder.finish env status exitStatus finalSnapshot)
      (fun _ w => OutputEmitted runId outputs w ∧ w.recorder.pending = [])
      (OutputEmitted runId outputs) := by
  have h := effects_emitted env codecs runId outputs
  refine spec_bind (h.keeps_queueEvent (h.ordinary _ rfl)) fun _ => ?_
  exact spec_bind h.keeps_now fun reading => spec_commitFinish env codecs _

/-- A supervision that ends well had no fatal error, and everything emitted is durable. -/
theorem spec_conclusion (env : Env) (codecs : Codecs) (session : Session)
    (fatal : Option CaptureError) :
    Spec (OutputEmitted runId outputs) (Terminal.conclusion env codecs session fatal)
      (fun _ w => (OutputEmitted runId outputs w ∧ w.recorder.pending = []) ∧ fatal = none)
      (OutputEmitted runId outputs) := by
  have h := effects_emitted env codecs runId outputs
  have htriv : ∀ {α : Type} {m : Method α}, Keeps (OutputEmitted runId outputs) m →
      Spec (OutputEmitted runId outputs) m (fun _ w => OutputEmitted runId outputs w ∧ True)
        (OutputEmitted runId outputs) :=
    fun hm => hm.imp (fun _ hw => hw) (fun _ _ hw => ⟨hw, trivial⟩) fun _ hw => hw
  -- every step keeps the failure there is
  refine spec_bind (Q := fun exited w => OutputEmitted runId outputs w
    ∧ (exited = none → fatal = none))
    ?_ fun exited => ?_
  · refine spec_ite (fun hstore => spec_pure fun w hw => ⟨hw, fun hnone => ?_⟩) fun _ => ?_
    · rw [hnone] at hstore
      exact nomatch hstore
    · refine (spec_orFail _ (htriv (h.keeps_emit (h.ordinary _ rfl)))).imp (fun _ hw => hw)
        (fun result w hw => ⟨hw.1, fun hnone => ?_⟩) fun _ hw => hw
      exact (Option.or_eq_none_iff.mp (hw.2 hnone).1).1
  refine spec_bind (Q := fun final w => OutputEmitted runId outputs w
    ∧ (final.2 = none → fatal = none))
    ?_ fun final => ?_
  · refine Spec.imp (P := fun w => OutputEmitted runId outputs w ∧ (exited = none → fatal = none))
      (spec_and_right fun hexited => ?_) (fun _ hw => hw) (fun _ _ hw => hw) fun _ hw => hw
    refine spec_ite (fun _ => spec_pure fun w hw => ⟨hw, hexited⟩) fun _ => ?_
    refine spec_bind (keeps_outcome (h.keeps_checkpoint (fun _ => trivial)
      (fun _ _ _ hw => hw) _ _)) fun committed => ?_
    rcases committed with error | commit
    · refine spec_pure fun w hw => ⟨hw, fun hnone => ?_⟩
      exact hexited (Option.or_eq_none_iff.mp hnone).1
    · refine spec_bind (spec_orFail exited (htriv (h.keeps_warnExclusions _))) fun result => ?_
      exact spec_pure fun w hw => ⟨hw.1, fun hnone => hexited (hw.2 hnone).1⟩
  · refine Spec.imp (P := fun w => OutputEmitted runId outputs w ∧ (final.2 = none → fatal = none))
      (spec_and_right fun hfinal => ?_) (fun _ hw => hw) (fun _ _ hw => hw) fun _ hw => hw
    refine spec_bind (spec_orFail final.2 (htriv h.keeps_cleanupExclusionsForRetention))
      fun cleaned => ?_
    refine Spec.imp (P := fun w => OutputEmitted runId outputs w ∧ (cleaned = none → fatal = none))
      (spec_and_right fun hcleaned => ?_) (fun _ hw => ⟨hw.1, fun hnone => hfinal (hw.2 hnone).1⟩)
      (fun _ _ hw => hw) fun _ hw => hw
    refine spec_bind (spec_orFail cleaned (spec_finish env codecs _ _ _)) fun finished => ?_
    rcases finished with _ | error
    · exact spec_pure fun w hw => ⟨⟨hw.1, (hw.2 rfl).2⟩, hcleaned (hw.2 rfl).1⟩
    · exact spec_throw fun w hw => hw.1

end Conclusion

/-! ### The flow -/

/-- The chunk that the thread has read and not sent. -/
def ThreadPhase.inHand : ThreadPhase → Option Bytes
  | .sending bytes => some bytes
  | _ => none

/-- No chunk comes after the end of the output. -/
def NoOutputAfter : Bool → List Observation → Prop
  | _, [] => True
  | seen, observation :: rest =>
    (seen = true → observation.output? = none) ∧ NoOutputAfter (seen || observation.isEof) rest

theorem NoOutputAfter.append {seen : Bool} {queue : List Observation} {observation : Observation}
    (h : NoOutputAfter seen queue)
    (hnew : (seen || queue.any (·.isEof)) = true → observation.output? = none) :
    NoOutputAfter seen (queue ++ [observation]) := by
  induction queue generalizing seen with
  | nil =>
    refine ⟨fun hseen => hnew ?_, trivial⟩
    rw [hseen]
    rfl
  | cons first rest ih =>
    refine ⟨h.1, ih h.2 fun hseen => hnew ?_⟩
    rw [List.any_cons, ← Bool.or_assoc]
    exact hseen

theorem NoOutputAfter.none {queue : List Observation} (h : NoOutputAfter true queue) :
    queue.filterMap Observation.output? = [] := by
  induction queue with
  | nil => rfl
  | cons first rest ih =>
    rw [List.filterMap_cons_none (h.1 rfl)]
    exact ih h.2

/-- The chunks of an action are among those that occur, and its operations emit no terminal
output. -/
def TerminalAction.Within (occurs : Set Bytes) : TerminalAction → Prop
  | .read (.chunk bytes) => bytes ∈ occurs
  | .publish bytes => bytes ∈ occurs
  | .produce ops | .poll ops => ∀ op ∈ ops, op.besideOutput = true
  | _ => True

/-- **The chunks that have been read** are recorded, in the channel, or in the thread's hand, in
this order. -/
structure Flowing (codecs : Codecs) (runId : RunId) (occurs : Set Bytes) (recorded : List Bytes)
    (s : Terminal) : Prop where
  accounts : Recorded codecs runId occurs recorded s.coordinator
  flow : s.coordinator.fatal = none →
    recorded ++ s.queue.filterMap Observation.output? ++ s.thread.inHand.toList = s.chunks
  queued : ∀ observation ∈ s.queue, observation.Within occurs
  inHand : ∀ bytes, s.thread.inHand = some bytes → bytes ∈ occurs
  eof : (s.coordinator.outputEof || s.queue.any (·.isEof)) = true → s.thread = .finished
  after : NoOutputAfter s.coordinator.outputEof s.queue
  left : s.phase ≠ .looping →
    s.coordinator.outputEof = true ∨ s.coordinator.outputAbandoned = true
  ended : s.phase = .ended (.ok ()) →
    s.coordinator.fatal = none ∧ s.coordinator.world.recorder.pending = []

section Flow

variable {codecs : Codecs} {runId : RunId} {occurs : Set Bytes} {recorded : List Bytes}
  {s : Terminal}

/-- The thread goes on, with nothing in its hand. -/
theorem Flowing.thread (h : Flowing codecs runId occurs recorded s) {thread : ThreadPhase}
    (hbefore : s.thread.inHand = none) (hafter : thread.inHand = none)
    (hrunning : s.thread ≠ .finished) : Flowing codecs runId occurs recorded { s with thread } where
  accounts := h.accounts
  flow hfatal := by
    rw [hafter, ← hbefore]
    exact h.flow hfatal
  queued := h.queued
  inHand bytes hbytes := by
    rw [hafter] at hbytes
    exact nomatch hbytes
  eof hsent := absurd (h.eof hsent) hrunning
  after := h.after
  left := h.left
  ended := h.ended

/-- A message is sent. -/
theorem Flowing.enqueue (h : Flowing codecs runId occurs recorded s) {options : TerminalOptions}
    {observation : Observation} {thread : ThreadPhase} (hwithin : observation.Within occurs)
    (hflow : observation.output?.toList ++ thread.inHand.toList = s.thread.inHand.toList)
    (hinHand : ∀ bytes, thread.inHand = some bytes → bytes ∈ occurs)
    (heof : observation.isEof = true → thread = .finished)
    (hfinished : s.thread = .finished → thread = .finished ∧ observation.output? = none) :
    Flowing codecs runId occurs recorded (s.enqueue options observation thread) := by
  unfold Terminal.enqueue
  split
  case isFalse => exact h
  case isTrue =>
    refine ⟨h.accounts, fun hfatal => ?_, ?_, hinHand, fun hsent => ?_, ?_, h.left, h.ended⟩
    · have hsingle : [observation].filterMap Observation.output? = observation.output?.toList := by
        cases houtput : observation.output? with
        | none => simp [houtput]
        | some bytes => simp [houtput]
      show recorded ++ (s.queue ++ [observation]).filterMap Observation.output?
        ++ thread.inHand.toList = s.chunks
      rw [List.filterMap_append, hsingle, ← h.flow hfatal, ← hflow]
      simp only [List.append_assoc]
    · intro queued hqueued
      rcases List.mem_append.mp hqueued with hbefore | hnew
      · exact h.queued queued hbefore
      · rw [List.mem_singleton.mp hnew]
        exact hwithin
    · rw [List.any_append, ← Bool.or_assoc, Bool.or_eq_true] at hsent
      rcases hsent with hbefore | hnew
      · exact (hfinished (h.eof hbefore)).1
      · refine heof ?_
        rwa [List.any_cons, List.any_nil, Bool.or_false] at hnew
    · exact h.after.append fun hsent => (hfinished (h.eof hsent)).2

/-- A read of the thread. -/
theorem Flowing.read (h : Flowing codecs runId occurs recorded s) {result : ReadResult}
    (hreading : s.thread = .reading) (hwithin : (TerminalAction.read result).Within occurs) :
    Flowing codecs runId occurs recorded (s.read result) := by
  have hnone : s.thread.inHand = none := by
    rw [hreading]
    rfl
  have hrunning : s.thread ≠ .finished := by
    rw [hreading]
    exact nofun
  cases result with
  | endOfFile => exact h.thread hnone rfl hrunning
  | interrupted => exact h
  | failed message => exact h.thread hnone rfl hrunning
  | chunk bytes =>
    show Flowing codecs runId occurs recorded
      (if bytes = [] then { s with thread := .ending }
        else { s with thread := .sending bytes, chunks := s.chunks ++ [bytes] })
    split
    case isTrue => exact h.thread hnone rfl hrunning
    case isFalse =>
      refine ⟨h.accounts, fun hfatal => ?_, h.queued, ?_, fun hsent => ?_, h.after, h.left, h.ended⟩
      · have hflow := h.flow hfatal
        rw [hnone] at hflow
        rw [← hflow]
        simp [ThreadPhase.inHand]
      · intro chunk hchunk
        obtain rfl := Option.some.inj hchunk
        exact hwithin
      · exact absurd (h.eof hsent) hrunning

/-- A send of the thread. -/
theorem Flowing.send (h : Flowing codecs runId occurs recorded s) (options : TerminalOptions) :
    Flowing codecs runId occurs recorded (s.send options) := by
  unfold Terminal.send
  split
  case h_1 bytes hthread =>
    have hbytes : bytes ∈ occurs := h.inHand bytes (by rw [hthread]; rfl)
    refine h.enqueue hbytes ?_ nofun nofun fun hfinished => ?_
    · rw [hthread]
      rfl
    · rw [hthread] at hfinished
      exact nomatch hfinished
  case h_2 producer message hthread =>
    refine h.enqueue trivial ?_ nofun nofun fun hfinished => ?_
    · rw [hthread]
      rfl
    · rw [hthread] at hfinished
      exact nomatch hfinished
  case h_3 hthread =>
    refine h.enqueue trivial ?_ nofun (fun _ => rfl) fun _ => ⟨rfl, rfl⟩
    rw [hthread]
    rfl
  case h_4 => exact h
  case h_5 => exact h
  case h_6 => exact h

theorem Flowing.forward (h : Flowing codecs runId occurs recorded s) (error : Option String) :
    Flowing codecs runId occurs recorded (s.forward error) := by
  unfold Terminal.forward
  split
  case h_1 hthread =>
    refine h.thread ?_ rfl ?_
    · rw [hthread]
      rfl
    · rw [hthread]
      exact nofun
  case h_2 message hthread =>
    refine h.thread ?_ rfl ?_
    · rw [hthread]
      rfl
    · rw [hthread]
      exact nofun
  case h_3 => exact h

/-- A message of another producer. -/
theorem Flowing.produce (h : Flowing codecs runId occurs recorded s) (options : TerminalOptions)
    {observation : Observation} (hwithin : observation.Within occurs)
    (houtput : observation.output? = none) (heof : observation.isEof = false) :
    Flowing codecs runId occurs recorded (s.enqueue options observation s.thread) := by
  refine h.enqueue hwithin ?_ h.inHand (fun hsent => ?_) fun hfinished => ⟨hfinished, houtput⟩
  · rw [houtput]
    rfl
  · rw [heof] at hsent
    exact nomatch hsent

/-- A message is taken out of the channel. -/
theorem Flowing.receive (h : Flowing codecs runId occurs recorded s) (env : Env)
    (options : TerminalOptions) (streamId : TerminalStreamId)
    (hdigests : Set.InjOn codecs.blake3 occurs) {observation : Observation}
      {rest : List Observation}
    (hqueue : s.queue = observation :: rest) (hreceives : s.phase.receives = true) :
    ∃ recorded', Flowing codecs runId occurs recorded' { s with
      coordinator := s.coordinator.handle env codecs options streamId observation
      queue := rest } := by
  have hall : ∀ queued ∈ observation :: rest, queued.Within occurs := hqueue ▸ h.queued
  obtain ⟨hwithin, hrest⟩ := List.forall_mem_cons.mp hall
  obtain ⟨hafter, hlater⟩ : NoOutputAfter s.coordinator.outputEof (observation :: rest) :=
    hqueue ▸ h.after
  obtain ⟨recorded', haccounts, hnext, heof, habandoned⟩ :=
    h.accounts.handle env options streamId hdigests hwithin rfl
  refine ⟨recorded', haccounts, fun hfatal => ?_, hrest, h.inHand, fun hsent => ?_, ?_,
    fun hleft => ?_,
    fun hended => ?_⟩
  · -- the first chunk of the channel is now the last one recorded
    obtain ⟨hfatal', rfl⟩ := hnext hfatal
    have hflow := h.flow hfatal'
    rw [hqueue] at hflow
    rw [← hflow]
    cases houtput : observation.output? with
    | none => simp [houtput]
    | some bytes => simp [houtput]
  · refine h.eof ?_
    rw [heof] at hsent
    rw [hqueue, List.any_cons, ← Bool.or_assoc]
    exact hsent
  · rw [heof]
    exact hlater
  · rw [heof, habandoned]
    rcases h.left hleft with hseen | hgone
    · exact Or.inl (by rw [hseen, Bool.true_or])
    · exact Or.inr hgone
  · have hphase : s.phase = .ended (.ok ()) := hended
    rw [hphase] at hreceives
    exact nomatch hreceives

/-- The coordinator changes by itself, before the supervision has ended. -/
theorem Flowing.coordinator (h : Flowing codecs runId occurs recorded s) {c : Coordinator}
    (haccounts : Recorded codecs runId occurs recorded c) (hflags : SameFlags s.coordinator c)
    (hfatal : c.fatal = none → s.coordinator.fatal = none) (hruns : s.phase.runs = true) :
    Flowing codecs runId occurs recorded { s with coordinator := c } where
  accounts := haccounts
  flow hnone := h.flow (hfatal hnone)
  queued := h.queued
  inHand := h.inHand
  eof hsent := by
    rw [hflags.outputEof] at hsent
    exact h.eof hsent
  after := by
    show NoOutputAfter c.outputEof s.queue
    rw [hflags.outputEof]
    exact h.after
  left hleft := by
    rw [hflags.outputEof, hflags.outputAbandoned]
    exact h.left hleft
  ended hended := by
    have hphase : s.phase = .ended (.ok ()) := hended
    rw [hphase] at hruns
    exact nomatch hruns

/-- The supervision goes on to a later phase. -/
theorem Flowing.phase (h : Flowing codecs runId occurs recorded s) {phase : CoordinatorPhase}
    (hleft : s.phase ≠ .looping) (hruns : phase.runs = true) :
    Flowing codecs runId occurs recorded { s with phase } where
  accounts := h.accounts
  flow := h.flow
  queued := h.queued
  inHand := h.inHand
  eof := h.eof
  after := h.after
  left _ := h.left hleft
  ended hended := by
    have hphase : phase = .ended (.ok ()) := hended
    rw [hphase] at hruns
    exact nomatch hruns

/-- The end of the supervision. -/
theorem Flowing.conclude (h : Flowing codecs runId occurs recorded s) (env : Env)
    (session : Session) (hconcluding : s.phase = .concluding) :
    let concluded := exec (Terminal.conclusion env codecs session s.coordinator.fatal)
      s.coordinator.world
    Flowing codecs runId occurs recorded { s with
      coordinator := { s.coordinator with world := concluded.2 }
      phase := .ended concluded.1 } := by
  have hleft : s.phase ≠ .looping := by
    rw [hconcluding]
    exact nofun
  have hkept : ∀ outputs, OutputEmitted runId outputs s.coordinator.world →
      OutputEmitted runId outputs (exec (Terminal.conclusion env codecs session
        s.coordinator.fatal) s.coordinator.world).2 := by
    intro outputs hw
    refine Spec.state (E := OutputEmitted runId outputs) ?_ hw
    exact (spec_conclusion env codecs session _).imp (fun _ ht => ht) (fun _ _ ht => ht.1.1)
      fun _ ht => ht
  obtain ⟨outputs, houtputs⟩ := h.accounts.emittedSome
  refine ⟨?_, h.flow, h.queued, h.inHand, h.eof, h.after, fun _ => h.left hleft, fun hended => ?_⟩
  · exact ⟨h.accounts.store, ⟨outputs, hkept outputs houtputs⟩,
      fun hnone => hkept _ (h.accounts.emitted hnone), h.accounts.total, h.accounts.kept⟩
  · have hok : (exec (Terminal.conclusion env codecs session s.coordinator.fatal)
        s.coordinator.world).1 = .ok () := CoordinatorPhase.ended.inj hended
    have hspec := spec_conclusion env codecs session s.coordinator.fatal s.coordinator.world
      houtputs
    rcases hexec : exec (Terminal.conclusion env codecs session s.coordinator.fatal)
      s.coordinator.world with ⟨error | _, w⟩
    · rw [hexec] at hok
      exact nomatch hok
    · rw [hexec] at hspec
      exact ⟨hspec.2, hspec.1.2⟩

/-- **One move.** -/
theorem Flowing.step (h : Flowing codecs runId occurs recorded s) (env : Env)
    (options : TerminalOptions) (streamId : TerminalStreamId) (session : Session)
    (hdigests : Set.InjOn codecs.blake3 occurs) {action : TerminalAction}
    (haction : action.Within occurs) :
    ∃ recorded', Flowing codecs runId occurs recorded'
      (s.step env codecs options streamId session action) := by
  unfold Terminal.step
  cases action with
  | read result =>
    dsimp only
    split
    case h_1 hreading => exact ⟨recorded, h.read hreading haction⟩
    case h_2 => exact ⟨recorded, h⟩
  | send => exact ⟨recorded, h.send options⟩
  | forward error => exact ⟨recorded, h.forward error⟩
  | produce ops => exact ⟨recorded, h.produce options haction rfl rfl⟩
  | producerFails producer message => exact ⟨recorded, h.produce options trivial rfl rfl⟩
  | publish bytes =>
    refine ⟨recorded, ?_, h.flow, h.queued, h.inHand, h.eof, h.after, h.left, h.ended⟩
    refine ⟨publish_store haction h.accounts.store, h.accounts.emittedSome, h.accounts.emitted,
      h.accounts.total, fun hnone chunk hchunk => ?_⟩
    obtain ⟨hkept, hfits⟩ := h.accounts.kept hnone chunk hchunk
    exact ⟨publish_of_some hkept bytes, hfits⟩
  | receive =>
    dsimp only
    split
    case h_1 observation rest hqueue =>
      split
      case isTrue hreceives => exact h.receive env options streamId hdigests hqueue hreceives
      case isFalse => exact ⟨recorded, h⟩
    case h_2 => exact ⟨recorded, h⟩
  | poll ops =>
    dsimp only
    split
    case isTrue hruns =>
      obtain ⟨haccounts, hflags, hfatal⟩ := h.accounts.poll env haction
      exact ⟨recorded, h.coordinator haccounts hflags hfatal hruns⟩
    case isFalse => exact ⟨recorded, h⟩
  | fails error =>
    dsimp only
    split
    case isTrue hruns =>
      refine ⟨recorded, h.coordinator (h.accounts.fail error) ⟨rfl, rfl, rfl⟩ ?_ hruns⟩
      exact fun hnone => absurd hnone (fail_fatal _ _)
    case isFalse => exact ⟨recorded, h⟩
  | childExits =>
    have haccounts : Recorded codecs runId occurs recorded
        { s.coordinator with childExit := true } :=
      ⟨h.accounts.store, h.accounts.emittedSome, h.accounts.emitted, h.accounts.total,
        h.accounts.kept⟩
    exact ⟨recorded, haccounts, h.flow, h.queued, h.inHand, h.eof, h.after, h.left, h.ended⟩
  | abandon =>
    dsimp only
    split
    case isTrue =>
      have haccounts : Recorded codecs runId occurs recorded
          { s.coordinator with outputAbandoned := true } :=
        ⟨h.accounts.store, h.accounts.emittedSome, h.accounts.emitted, h.accounts.total,
          h.accounts.kept⟩
      exact ⟨recorded, haccounts, h.flow, h.queued, h.inHand, h.eof, h.after,
        fun _ => Or.inr rfl, h.ended⟩
    case isFalse => exact ⟨recorded, h⟩
  | leaveLoop =>
    dsimp only
    split
    case h_1 =>
      split
      case isTrue hover =>
        -- the loop ends with the end of the output, or without the thread
        obtain ⟨-, hover⟩ := Bool.and_eq_true_iff.mp hover
        exact ⟨recorded, h.accounts, h.flow, h.queued, h.inHand, h.eof, h.after,
          fun _ => Bool.or_eq_true_iff.mp hover, nofun⟩
      case isFalse => exact ⟨recorded, h⟩
    case h_2 => exact ⟨recorded, h⟩
  | terminated =>
    dsimp only
    split
    case h_1 hphase => exact ⟨recorded, h.phase (by rw [hphase]; exact nofun) rfl⟩
    case h_2 => exact ⟨recorded, h⟩
  | drained =>
    dsimp only
    split
    case h_1 hphase _ =>
      refine ⟨recorded, h.phase (by rw [hphase]; exact nofun) ?_⟩
      split
      · rfl
      · rfl
    case h_2 hphase _ => exact ⟨recorded, h.phase (by rw [hphase]; exact nofun) rfl⟩
    case h_3 => exact ⟨recorded, h⟩
  | joined =>
    dsimp only
    split
    case h_1 hphase _ => exact ⟨recorded, h.phase (by rw [hphase]; exact nofun) rfl⟩
    case h_2 => exact ⟨recorded, h⟩
  | conclude =>
    dsimp only
    split
    case h_1 hphase => exact ⟨recorded, h.conclude env session hphase⟩
    case h_2 => exact ⟨recorded, h⟩

end Flow

/-! ### The capture -/

section Capture

variable {codecs : Codecs} {occurs : Set Bytes}

/-- Nothing of the terminal output is emitted before the child is started. -/
theorem emitted_start {requests : List Request} {run : Run} {db : Db}
    (h : createRun (Machine.run (step codecs) Db.empty requests) run = .ok db) (env : Env)
    (options : CaptureOptions) {before : List RecorderOp}
    (hbefore : ∀ op ∈ before, op.noOutput = true) :
    OutputEmitted run.id []
      (Machine.run (recorderStep env codecs) (World.start db run.id options) before) := by
  have hwellFormed := (keepsTimelines_createRun h (wellFormed_run codecs requests)).1
  have hstart : OutputEmitted run.id [] (World.start db run.id options) := by
    refine ⟨rfl, rfl, Nat.zero_lt_one, hwellFormed, nofun, ?_⟩
    show db.terminalOutputs run.id ++ [] = []
    rw [Db.terminalOutputs, eventsOf_created h]
    rfl
  refine Machine.run_invariant_of_legal (L := fun op => op.noOutput = true) ?_ hbefore hstart
  intro w op hop hw
  exact (keeps_noOutput env codecs hop).state hw

theorem flowing_start {runId : RunId} {w : World} (hw : OutputEmitted runId [] w)
    {objects : Payloads} (hobjects : ∀ id payload, objects id = some payload →
      payload ∈ occurs ∧ ObjectId.digestOf codecs payload = id) :
    Flowing codecs runId occurs [] (Terminal.start w objects) where
  accounts := ⟨hobjects, ⟨[], hw⟩, fun _ => hw, fun _ => rfl, fun _ _ h =>
    absurd h List.not_mem_nil⟩
  flow _ := rfl
  queued _ h := absurd h List.not_mem_nil
  inHand _ h := nomatch h
  eof h := nomatch h
  after := trivial
  left h := absurd rfl h
  ended h := nomatch h

/-- The payloads of the outputs of chunks are the chunks. -/
theorem filterMap_outputOf {objects : Payloads} {chunks : List Bytes}
    (h : ∀ bytes ∈ chunks, objects (ObjectId.digestOf codecs bytes) = some bytes) :
    (chunks.map (outputOf codecs)).filterMap (fun output => objects output.1) = chunks := by
  induction chunks with
  | nil => rfl
  | cons bytes rest ih =>
    obtain ⟨hbytes, hrest⟩ := List.forall_mem_cons.mp h
    have hfirst : objects (outputOf codecs bytes).1 = some bytes := hbytes
    simp [hfirst, ih hrest]

/-- A supervision that ended well, with its thread, has captured the output. -/
theorem Flowing.captured {runId : RunId} {recorded : List Bytes} {s : Terminal}
    (h : Flowing codecs runId occurs recorded s) (hended : s.phase = .ended (.ok ()))
    (hthread : s.coordinator.outputAbandoned = false) : OutputCaptured runId s := by
  obtain ⟨hfatal, hpending⟩ := h.ended hended
  have heof : s.coordinator.outputEof = true := by
    rcases h.left (by rw [hended]; exact nofun) with heof | habandoned
    · exact heof
    · rw [hthread] at habandoned
      exact nomatch habandoned
  have hfinished : s.thread = .finished := h.eof (by rw [heof, Bool.true_or])
  have hempty : s.queue.filterMap Observation.output? = [] :=
    NoOutputAfter.none (heof ▸ h.after)
  have hrecorded : recorded = s.chunks := by
    have hflow := h.flow hfatal
    rw [hempty, hfinished] at hflow
    simpa [ThreadPhase.inHand] using hflow
  have hemitted := h.accounts.emitted hfatal
  have houtputs : s.coordinator.world.db.terminalOutputs runId
      = s.chunks.map (outputOf codecs) := by
    rw [← hrecorded, ← hemitted.outputs, hpending]
    exact (List.append_nil _).symm
  have hkept := h.accounts.kept hfatal
  rw [hrecorded] at hkept
  refine ⟨(hemitted.wellFormed.timelines runId).map_seq, hfinished, ?_, ?_, ?_⟩
  · rw [houtputs, filterMap_outputOf fun bytes hbytes => (hkept bytes hbytes).1]
  · intro output houtput
    rw [houtputs] at houtput
    obtain ⟨bytes, hbytes, rfl⟩ := List.mem_map.mp houtput
    obtain ⟨hobject, hfits⟩ := hkept bytes hbytes
    refine ⟨bytes, hobject, ?_⟩
    show (UInt64.ofNat bytes.length).toNat = bytes.length
    rw [UInt64.toNat_ofNat']
    exact Nat.mod_eq_of_lt hfits
  · rw [h.accounts.total hfatal, hrecorded]

/-- **The output is captured.**  For every chunking of the output, every capacity of the channel and
every interleaving of the thread, the other producers and the coordinator: where the supervision
ends without a fatal error and the thread was not abandoned, the durable events of the terminal
output have the bytes that the thread read, to the end, once each and in order. -/
theorem output_captured (env : Env) (codecs : Codecs) (options : TerminalOptions)
    (streamId : TerminalStreamId) (session : Session) (occurs : Set Bytes)
    (hdigests : Set.InjOn codecs.blake3 occurs) (requests : List Request) (run : Run) {db : Db}
    (h : createRun (Machine.run (Rewind.step codecs) Db.empty requests) run = .ok db)
    (captureOptions : CaptureOptions) (before : List RecorderOp)
    (hbefore : ∀ op ∈ before, op.noOutput = true) (objects : Payloads)
    (hobjects : ∀ id payload, objects id = some payload →
      payload ∈ occurs ∧ ObjectId.digestOf codecs payload = id)
    (actions : List TerminalAction) (hactions : ∀ action ∈ actions, action.Within occurs)
    {s : Terminal} (hs : s = Machine.run (Terminal.step env codecs options streamId session)
      (Terminal.start (Machine.run (recorderStep env codecs) (World.start db run.id captureOptions)
        before) objects) actions)
    (hended : s.phase = .ended (.ok ())) (hthread : s.coordinator.outputAbandoned = false) :
    OutputCaptured run.id s := by
  have hstart := flowing_start (emitted_start h env captureOptions hbefore) hobjects
  have hflowing : ∃ recorded, Flowing codecs run.id occurs recorded s := by
    rw [hs]
    refine Machine.run_invariant_of_legal
      (I := fun s => ∃ recorded, Flowing codecs run.id occurs recorded s)
      (L := TerminalAction.Within occurs) ?_ hactions ⟨[], hstart⟩
    rintro t action haction ⟨recorded, ht⟩
    exact ht.step env options streamId session hdigests haction
  obtain ⟨recorded, hflowing⟩ := hflowing
  exact hflowing.captured hended hthread

end Capture

namespace Sample

/-- A channel for two messages. -/
def terminalOptions : TerminalOptions := ⟨1000, 2⟩

/-- The child writes two chunks and exits.  A message of another producer comes between the chunks,
so that the thread has to wait for room; and one is left to the drain. -/
def printing : List TerminalAction :=
  [.read (.chunk output), .send, .produce [.warning .watcherOverflow "lost"], .forward none,
    .read (.chunk [98]), .send, .receive, .send, .receive, .forward none, .read .endOfFile,
    .receive, .send, .childExits, .receive, .leaveLoop, .produce [.flush], .terminated, .receive,
    .drained, .joined, .drained, .conclude]

/-- The capture of this child. -/
def printed : Terminal :=
  Machine.run (Terminal.step (env 999) codecs terminalOptions ⟨⟨0⟩⟩ (session none))
    (Terminal.start (Machine.run (recorderStep (env 999) codecs)
      (World.start created run.id options)
      [.checkpoint .initial none, .markRunRunning emptySnapshot.id]) fun _ => none) printing

theorem printed_ended : printed.phase = .ended (.ok ()) := by decide +kernel

theorem digests_printed : Set.InjOn codecs.blake3 {output, [98]} := by
  have hne : codecs.blake3 output ≠ codecs.blake3 [98] := by decide +kernel
  rintro bytes (rfl | rfl) bytes' (rfl | rfl) h
  · rfl
  · exact absurd h hne
  · exact absurd h.symm hne
  · rfl

theorem printing_within : ∀ action ∈ printing, action.Within {output, [98]} := by
  intro action haction
  simp only [printing, List.mem_cons, List.not_mem_nil, or_false] at haction
  rcases haction with rfl | rfl | rfl | rfl | rfl | rfl | rfl | rfl | rfl | rfl | rfl | rfl | rfl
    | rfl | rfl | rfl | rfl | rfl | rfl | rfl | rfl | rfl | rfl <;>
    simp [TerminalAction.Within, RecorderOp.besideOutput, RecorderOp.isObservation,
      RecorderOp.noOutput, RecorderOp.payload?]

end Sample

theorem output_captured_printed :
    OutputCaptured Sample.run.id Sample.printed
      ∧ Sample.printed.chunks = [Sample.output, [98]] := by
  refine ⟨output_captured (Sample.env 999) Sample.codecs Sample.terminalOptions ⟨⟨0⟩⟩
    (Sample.session none) {Sample.output, [98]} Sample.digests_printed [] Sample.run
    Sample.createRun_run Sample.options _ ?_ (fun _ => none) (fun _ _ h => nomatch h) _
    Sample.printing_within rfl Sample.printed_ended ?_, ?_⟩
  · decide
  · decide +kernel
  · decide +kernel

end Rewind

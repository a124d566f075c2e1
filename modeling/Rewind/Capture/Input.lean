/-
The terminal input of a run.

The coordinator of a capture takes the observations of its producers, and polls the child and the
workspace in between.  A chunk of terminal input is stored like one of the output, unless the
policy of the run or the echo of the terminal has it redacted: then an event says how long it was.

* `Supervisor`, `Supervisor.step` — the coordinator with all of its state, turn by turn;
* `Observation.Alike` — the same observation, but for the bytes of a redacted chunk;
* **`redacted_input_leaves_no_trace`** — two recordings whose observations are alike end in the
  same state: the same events, the same objects, the same counters.
-/
import Rewind.Capture.Dirty
import Rewind.Capture.Marker
import Rewind.Capture.Output

namespace Rewind

open Call

namespace Supervision

/-! ### Observations -/

/-- A process in the tree of the child; the executable is a path. -/
structure ProcessInfo where
  pid : UInt32
  parentPid : Option UInt32
  executable : Option Bytes
  command : String

/-- An observation of a producer. -/
inductive Observation where
  | terminalOutput (bytes : Bytes)
  | terminalInput (bytes : Bytes) (echoEnabled : Option Bool)
  | outputEof
  | processSnapshot (result : Except String (List ProcessInfo))
  | signal (signal : Int32)
  | marker (label : Option String)
  | producerFailed (producer message : String)

/-- A completed child status. -/
structure ChildExit where
  code : UInt32
  signal : Option String
  signalNumber : Option Int32

/-- `domain_exit`. -/
def domainExit (exit : ChildExit) : ProcessExitStatus :=
  match exit.signalNumber with
  | some signal => .signal signal
  | none =>
    if exit.signal.isSome then .unknown
    else if exit.code.toNat < 2 ^ 31 then .code (Int32.ofNat exit.code.toNat)
    else .unknown

/-- `input_redaction`. -/
def inputRedaction : InputRecordingPolicy → Option Bool → Option InputRedactionReason
  | .always, _ | .auto, some true => none
  | .never, _ => some .policyNever
  | .auto, some false => some .echoDisabled
  | .auto, none => some .echoDetectionUnavailable

/-! ### The coordinator -/

/-- What the host answers, by tick; durations and instants are in nanoseconds. -/
structure Host where
  instant : Nat → Nat
  terminalSize : Nat → Except String (UInt16 × UInt16)
  signalProcessGroup : Nat → Option CaptureError
  killProcessGroup : Nat → Option CaptureError
  processGroupExists : Nat → Except CaptureError Bool
  tryWait : Nat → Except CaptureError (Option ChildExit)
  wait : Nat → Option ChildExit
  walk : Nat → Except WalkError Stamps
  display : CaptureError → String

/-- The options of a recording, next to those of its recorder. -/
structure Options where
  recordInput : InputRecordingPolicy
  terminal : TerminalOptions
  checkpoints : CheckpointOptions
  interactiveStdin : Bool

def SIGWINCH : Int32 := 28

def SIGNAL_GRACE_PERIOD : Nat := 2000000000

def POST_ROOT_DRAIN_GRACE : Nat := 2000000000

def POST_KILL_DRAIN_GRACE : Nat := 1000000000

/-- The coordinator, with the fields that the terminal output has no use for; `shutdownDeadline` is
the deadline of `terminate_remaining_process_group`, and `replies` are the replies to markers. -/
structure Supervisor extends Coordinator where
  rootPid : ProcessId
  exit : Option ChildExit
  interruptedSignal : Option Int32
  terminationDeadline : Option Nat
  postRootDrainDeadline : Option Nat
  postRootKillRequested : Bool
  observedProcesses : List ProcessId
  processWarningEmitted : Bool
  echoWarningEmitted : Bool
  dirtyWarningEmitted : Bool
  dirty : DirtyTracker
  shutdownDeadline : Option Nat
  groupStopped : Bool
  replies : List Reply
  ended : Option (Except CaptureError Unit)

/-- A step of the coordinator. -/
abbrev Supervising (α : Type) := Call Supervisor CaptureError α

/-- A step of what the terminal output has of the coordinator. -/
def terminal {α : Type} (m : Handler α) : Supervising α :=
  Call.ofFun fun s =>
    ((exec m s.toCoordinator).1, { s with toCoordinator := (exec m s.toCoordinator).2 })

/-- A method of the coordinator's recorder. -/
def recorder {α : Type} (m : Method α) : Supervising α := terminal (Coordinator.recorder m)

/-- An answer of the host. -/
def ask {α : Type} (answers : Nat → α) : Supervising α := do
  let tick ← recorder nextTick
  return answers tick

def fail (error : CaptureError) : Supervising Unit :=
  modify fun s => { s with toCoordinator := s.toCoordinator.fail error }

/-- What follows where the host has refused. -/
def orElse (refusal : Option CaptureError) (handler : CaptureError → Supervising Unit) :
    Supervising Unit :=
  match refusal with
  | none => return ()
  | some error => handler error

section Steps

variable (env : Env) (codecs : Codecs) (host : Host) (options : Options)
  (streamId : TerminalStreamId)

/-! ### Terminal input -/

/-- `record_retained_input`. -/
def recordRetainedInput (bytes : Bytes) (byteLen : UInt64) : Handler Unit := do
  let time ← Coordinator.recorder (timestampNow env)
  let stored ← Coordinator.putObject env codecs bytes time.unixMilliseconds
  Coordinator.recorder (discard (Recorder.emitObjectReference env stored.id stored.logicalSize
    (.terminalInput streamId stored.id byteLen)))

/-- The warning of `record_input` before the first chunk whose echo is not known. -/
def warnEchoUncertain (reason : InputRedactionReason) : Supervising Unit := do
  let s ← get
  if reason = .echoDetectionUnavailable ∧ s.echoWarningEmitted = false then do
    recorder (Recorder.warning env .inputEchoDetectionUncertain
      "Terminal echo state could not be read beside the input read; input bytes were redacted.")
    modify fun s => { s with echoWarningEmitted := true }
  else
    return ()

/-- `record_input`. -/
def recordInput (bytes : Bytes) (echoEnabled : Option Bool) : Supervising Unit :=
  if bytes.length ≥ 2 ^ 64 then
    throw .clockOutOfRange
  else
    match inputRedaction options.recordInput echoEnabled with
    | none =>
      terminal (recordRetainedInput env codecs streamId bytes (UInt64.ofNat bytes.length))
    | some reason => do
      warnEchoUncertain env reason
      recorder (discard (Recorder.emit env
        (.terminalInputRedacted streamId (UInt64.ofNat bytes.length) reason)))

/-! ### Processes -/

/-- `ProcessId::new`. -/
def processId? (pid : UInt32) : Option ProcessId := if h : pid ≠ 0 then some ⟨pid, h⟩ else none

/-- A process that has not been observed yet. -/
def observeProcess (process : ProcessInfo) (processId : ProcessId) : Supervising Unit := do
  let s ← get
  if processId ∈ s.observedProcesses then
    return ()
  else do
    modify fun s => { s with observedProcesses :=
      s.observedProcesses.orderedInsert (fun p q => p.get ≤ q.get) processId }
    recorder (discard (Recorder.emit env (.processObserved
      { processId
        parentProcessId := process.parentPid.bind processId?
        executable := process.executable.bind fun path => String.fromUTF8? ⟨path.toArray⟩
        command := sanitizeText process.command
        relationship := if processId = s.rootPid then .root else .descendant })))

/-- A process that is not in the tree any more. -/
def processGone (processId : ProcessId) : Supervising Unit := do
  modify fun s => { s with observedProcesses := s.observedProcesses.filter (· ≠ processId) }
  recorder (discard (Recorder.emit env (.processExited processId .unknown)))

/-- `record_processes`. -/
def recordProcesses (result : Except String (List ProcessInfo)) : Supervising Unit :=
  match result with
  | .error message => do
    let s ← get
    if s.processWarningEmitted then
      return ()
    else do
      recorder (Recorder.warning env .processObservationIncomplete
        (sanitizeText s!"Process observation is incomplete: {message}"))
      modify fun s => { s with processWarningEmitted := true }
  | .ok processes => do
    processes.forM fun process =>
      match processId? process.pid with
      | none => return ()
      | some processId => observeProcess env process processId
    let s ← get
    let present := processes.filterMap fun process => processId? process.pid
    (s.observedProcesses.filter fun id => id ≠ s.rootPid ∧ id ∉ present).forM (processGone env)

/-! ### Signals and the end of the child -/

/-- `durable_post_root_warning`. -/
def durablePostRootWarning (message : String) : Supervising Unit := do
  match ← outcome (recorder (do Recorder.warning env .other message; Recorder.flush env)) with
  | .ok () => return ()
  | .error error => fail error

/-- `shorten_post_root_deadline`. -/
def shortenPostRootDeadline (grace : Nat) : Supervising Unit := do
  let now ← ask host.instant
  modify fun s => { s with postRootDrainDeadline :=
    if s.postRootDrainDeadline.all (now + grace < ·) then some (now + grace)
    else s.postRootDrainDeadline }

/-- The window of the terminal has changed. -/
def resizeTerminal : Supervising Unit := do
  let s ← get
  if !s.childExit && options.interactiveStdin then do
    match ← ask host.terminalSize with
    | .ok (columns, rows) =>
      recorder (discard (Recorder.emit env (.terminalResized streamId columns rows)))
    | .error error =>
      recorder (Recorder.warning env .other
        (sanitizeText s!"Terminal resize was not propagated: {error}"))
  else
    return ()

/-- A signal after the exit of the root process. -/
def signalRemaining (first : Bool) (signal : Int32) : Supervising Unit :=
  if first then do
    shortenPostRootDeadline host SIGNAL_GRACE_PERIOD
    orElse (← ask host.signalProcessGroup) fun error => durablePostRootWarning env
      s!"Signal {signal} could not be forwarded to the remaining PTY process group after the root exited: {host.display error}. Rewind will continue bounded shutdown."
  else do
    let now ← ask host.instant
    modify fun s => { s with
      postRootKillRequested := true, postRootDrainDeadline := some (now + POST_KILL_DRAIN_GRACE) }
    orElse (← ask host.killProcessGroup) fun error => durablePostRootWarning env
      s!"The remaining PTY process group could not be force-terminated after a repeated signal: {host.display error}. Rewind will stop waiting after one final bounded drain."

/-- A signal while the child runs. -/
def signalChild (first : Bool) : Supervising Unit :=
  if first then do
    orElse (← ask host.signalProcessGroup) throw
    let now ← ask host.instant
    modify fun s => { s with terminationDeadline := some (now + SIGNAL_GRACE_PERIOD) }
  else do
    orElse (← ask host.killProcessGroup) throw
    modify fun s => { s with terminationDeadline := none }

/-- The first signal is the one that interrupts the run. -/
def interrupt (first : Bool) (signal : Int32) : Supervising Unit :=
  if first then do
    modify fun s => { s with interruptedSignal := some signal }
    recorder (discard (Recorder.emit env (.runInterrupted (some signal))))
    recorder (Recorder.flush env)
  else
    return ()

/-- `handle_signal`. -/
def handleSignal (signal : Int32) : Supervising Unit :=
  if signal = SIGWINCH then
    resizeTerminal env host options streamId
  else do
    let s ← get
    let first := s.interruptedSignal.isNone
    interrupt env first signal
    if s.childExit then
      signalRemaining env host first signal
    else
      signalChild host first

/-- The exit of the child, and the deadline for its output. -/
def childExited (exit : ChildExit) : Supervising Unit := do
  modify fun s => { s with childExit := true, exit := some exit }
  let s ← get
  if s.outputEof then
    return ()
  else do
    let now ← ask host.instant
    modify fun s => { s with postRootDrainDeadline := some (now + POST_ROOT_DRAIN_GRACE) }

/-- The child has not exited by the deadline of its termination. -/
def terminateOverdue (deadline : Nat) : Supervising Unit := do
  let now ← ask host.instant
  if deadline ≤ now then do
    orElse (← ask host.killProcessGroup) fail
    modify fun s => { s with terminationDeadline := none }
  else
    return ()

/-- `poll_child`. -/
def pollChild : Supervising Unit := do
  let s ← get
  if s.childExit then
    return ()
  else
    match ← ask host.tryWait with
    | .ok (some exit) => do
      modify fun s => { s with terminationDeadline := none }
      childExited host exit
    | .ok none => s.terminationDeadline.elim (return ()) (terminateOverdue host)
    | .error error => do
      fail error
      let exit ← ask host.wait
      childExited host (exit.getD ⟨1, some "unobserved termination", none⟩)

/-- `poll_post_root_drain`, past the deadline. -/
def drainOverdue : Supervising Unit := do
  let s ← get
  if s.postRootKillRequested then do
    modify fun s => { s with postRootDrainDeadline := none, outputAbandoned := true }
    durablePostRootWarning env
      "The terminal remained open after process-group termination was requested; Rewind stopped waiting and the terminal tail may be incomplete."
  else do
    let now ← ask host.instant
    modify fun s => { s with
      postRootKillRequested := true, postRootDrainDeadline := some (now + POST_KILL_DRAIN_GRACE) }
    match ← ask host.killProcessGroup with
    | none =>
      durablePostRootWarning env
        "The root process exited while the PTY remained open; Rewind requested forced termination of its process group after the bounded drain period."
    | some error =>
      durablePostRootWarning env
        s!"The root process exited while the PTY remained open; process-group termination failed after the bounded drain period: {host.display error}. Rewind will stop waiting after one final bounded drain."

/-- `poll_post_root_drain`. -/
def pollPostRootDrain : Supervising Unit := do
  let s ← get
  if !s.childExit || s.outputEof || s.outputAbandoned then
    return ()
  else
    match s.postRootDrainDeadline with
    | none => return ()
    | some deadline => do
      let now ← ask host.instant
      if now < deadline then return () else drainOverdue env host

/-! ### The workspace -/

/-- `clear_after_checkpoint`. -/
def clearAfterCheckpoint : Supervising Unit := do
  let now ← ask host.instant
  let walked ← ask host.walk
  modify fun s => { s with dirty := s.dirty.clearAfterCheckpoint now walked }

/-- An event of some dirty paths. -/
def emitDirtied (paths : List SnapshotPath) : Supervising Unit :=
  match EventPayload.newFilesystemPathsDirtied paths with
  | .ok payload => recorder (discard (Recorder.emit env payload))
  | .error error => throw (.invalidEvent (toString error))

/-- The checkpoint of a workspace that has gone quiet. -/
def quiescenceCheckpoint : Supervising Unit := do
  match ← outcome (recorder (Recorder.checkpoint env codecs .filesystemQuiescence none)) with
  | .ok _ => clearAfterCheckpoint host
  | .error error => if error.isNonfatal then return () else fail error

/-- The text of a walk's error. -/
def walkMessage : WalkError → String
  | .entryLimit message | .other message => message

/-- `poll_workspace`, when a walk has failed. -/
def warnDirtyScan (error : WalkError) : Supervising Unit := do
  let s ← get
  if s.dirtyWarningEmitted then
    return ()
  else do
    let action := if s.dirty.disabled then
      "Dirty-path hint scanning is disabled for this run; final checkpoint scanning remains authoritative"
      else "Dirty-path scan will retry"
    match ← outcome (recorder (Recorder.warning env .filesystemRace
      (sanitizeText s!"{action}: {walkMessage error}"))) with
    | .ok () => modify fun s => { s with dirtyWarningEmitted := true }
    | .error warningError => do
      fail warningError
      modify fun s => { s with dirtyWarningEmitted := true }

/-- `poll_workspace`, after a walk. -/
def recordDirtied (paths : List SnapshotPath) : Supervising Unit := do
  modify fun s => { s with dirtyWarningEmitted := false }
  match ← outcome ((paths.toChunks MAX_DIRTY_PATHS_PER_EVENT).forM (emitDirtied env)) with
  | .error error => fail error
  | .ok () => do
    let s ← get
    let now ← ask host.instant
    if s.dirty.shouldCheckpoint options.checkpoints now then
      quiescenceCheckpoint env codecs host
    else
      return ()

/-- `poll_workspace`. -/
def pollWorkspace : Supervising Unit := do
  let s ← get
  if s.childExit || s.fatal.isSome then
    return ()
  else do
    let now ← ask host.instant
    if s.dirty.pollDue now then do
      let walked ← ask host.walk
      let now ← ask host.instant
      modify fun s => { s with dirty := (s.dirty.observe now walked).2 }
      match (s.dirty.observe now walked).1 with
      | .ok paths => recordDirtied env codecs host options paths
      | .error error => warnDirtyScan env error
    else
      return ()

/-! ### `handle` -/

def reply (answer : Reply) : Supervising Unit :=
  modify fun s => { s with replies := s.replies ++ [answer] }

/-- The answer to a marker. -/
def handleMarker (label : Option String) : Supervising Unit := do
  let s ← get
  if s.childExit then
    reply (.error "run is already stopping")
  else
    match ← outcome (recorder (Recorder.manualCheckpoint env codecs label)) with
    | .ok checkpoint => do
      reply (.ok checkpoint)
      clearAfterCheckpoint host
    | .error error => do
      reply (.error (host.display error))
      if error.isNonfatal then return () else throw error

/-- The end of the output. -/
def outputEnded : Supervising Unit :=
  modify fun s => { s with outputEof := true, postRootDrainDeadline := none }

/-- What an observation has the coordinator do. -/
def respond : Observation → Supervising Unit
  | .terminalOutput bytes =>
    terminal (Coordinator.recordOutput env codecs options.terminal streamId bytes)
  | .terminalInput bytes echoEnabled =>
    recordInput env codecs options streamId bytes echoEnabled
  | .outputEof => outputEnded
  | .processSnapshot result => recordProcesses env result
  | .signal signal => handleSignal env host options streamId signal
  | .marker label => handleMarker env codecs host label
  | .producerFailed producer message => throw (.producer producer message)

/-- What is left of an observation once the recording has failed. -/
def dismiss : Observation → Supervising Unit
  | .outputEof => outputEnded
  | .marker _ => reply (.error "recorder is stopping after a failure")
  | .terminalOutput _ | .terminalInput .. | .processSnapshot _ | .signal _ | .producerFailed .. =>
    return ()

/-- `handle`. -/
def handle (observation : Observation) : Supervising Unit := do
  let s ← get
  if s.fatal.isSome then
    dismiss observation
  else
    match ← outcome (respond env codecs host options streamId observation) with
    | .ok () => return ()
    | .error error => fail error

/-! ### The end of a recording -/

/-- A failure of `terminate_remaining_process_group`. -/
def shutdownFailed (message : String) (error : CaptureError) : Supervising Unit := do
  durablePostRootWarning env message
  fail error

/-- The start of `terminate_remaining_process_group`. -/
def terminateRemaining : Supervising Unit := do
  match ← ask host.processGroupExists with
  | .ok false => modify fun s => { s with groupStopped := true }
  | .error error =>
    shutdownFailed env
      s!"The PTY process group could not be checked before the final workspace scan: {host.display error}. No final checkpoint will be committed." error
  | .ok true =>
    match ← ask host.killProcessGroup with
    | some error =>
      shutdownFailed env
        s!"The PTY process group could not be terminated before the final workspace scan: {host.display error}. No final checkpoint will be committed." error
    | none => do
      durablePostRootWarning env
        "The root process exited while descendants remained in its process group; Rewind terminated them before the final workspace scan."
      let now ← ask host.instant
      modify fun s => { s with shutdownDeadline := some (now + POST_KILL_DRAIN_GRACE) }

/-- One check in the loop of `terminate_remaining_process_group`. -/
def pollShutdown (deadline : Nat) : Supervising Unit := do
  match ← ask host.processGroupExists with
  | .ok false => modify fun s => { s with groupStopped := true, shutdownDeadline := none }
  | .error error => do
    modify fun s => { s with shutdownDeadline := none }
    shutdownFailed env
      s!"The PTY process group could not be checked after forced termination: {host.display error}. No final checkpoint will be committed." error
  | .ok true => do
    let now ← ask host.instant
    if now < deadline then
      return ()
    else do
      modify fun s => { s with shutdownDeadline := none }
      shutdownFailed env
        "The PTY process group remained after forced termination; no final checkpoint will be committed."
        (.producer "process group shutdown" "processes remained after forced termination")

/-- What the end of `supervise` reads of the coordinator; a group that has not stopped has made the
recording fail. -/
def session (s : Supervisor) : Session where
  cloneFailure := none
  startFailure := none
  startup := []
  spawnFailure := none
  observed := []
  failure := s.fatal
  groupStopped := s.groupStopped || s.fatal.isNone
  interrupted := s.interruptedSignal.isSome
  rootPid := s.rootPid
  exitStatus := (s.exit.map domainExit).getD .unknown
  observing := observing_nil
  unstopped := by cases s.fatal <;> simp

/-- The end of `supervise`, from the event of the root's exit on. -/
def conclude : Supervising Unit := do
  let s ← get
  let result ← outcome (recorder (Terminal.conclusion env codecs (session s) s.fatal))
  modify fun s => { s with ended := some result }

end Steps

/-- A turn of `supervise`: something arrives, or the coordinator looks around. -/
inductive Turn where
  | receive (observation : Observation)
  | fails (error : CaptureError)
  | pollChild
  | pollPostRootDrain
  | pollWorkspace
  | terminateRemaining
  | pollShutdown
  | conclude

namespace Supervisor

variable (env : Env) (codecs : Codecs) (host : Host) (options : Options)
  (streamId : TerminalStreamId)

/-- What the coordinator does in a turn. -/
def turn : Turn → Supervising Unit
  | .receive observation => handle env codecs host options streamId observation
  | .fails error => fail error
  | .pollChild => Supervision.pollChild host
  | .pollPostRootDrain => Supervision.pollPostRootDrain env host
  | .pollWorkspace => Supervision.pollWorkspace env codecs host options
  | .terminateRemaining => Supervision.terminateRemaining env host
  | .pollShutdown => do
    let s ← get
    s.shutdownDeadline.elim (return ()) (Supervision.pollShutdown env host)
  | .conclude => Supervision.conclude env codecs

/-- One turn, unless the recording has ended. -/
def step (s : Supervisor) (t : Turn) : Supervisor :=
  if s.ended.isSome then s else (exec (turn env codecs host options streamId t) s).2

/-- The coordinator of a child that has been started. -/
def start (w : World) (objects : Payloads) (rootPid : ProcessId) (dirty : DirtyTracker) :
    Supervisor where
  toCoordinator := ⟨w, objects, 0, false, false, false, none⟩
  rootPid := rootPid
  exit := none
  interruptedSignal := none
  terminationDeadline := none
  postRootDrainDeadline := none
  postRootKillRequested := false
  observedProcesses := []
  processWarningEmitted := false
  echoWarningEmitted := false
  dirtyWarningEmitted := false
  dirty := dirty
  shutdownDeadline := none
  groupStopped := false
  replies := []
  ended := none

end Supervisor

/-! ### Redacted input -/

/-- The same observation, but for the bytes of a chunk of input that the policy redacts. -/
inductive Observation.Alike (policy : InputRecordingPolicy) : Observation → Observation → Prop
  | same (observation : Observation) : Alike policy observation observation
  | redacted (bytes bytes' : Bytes) (echoEnabled : Option Bool)
      (hredacted : inputRedaction policy echoEnabled ≠ none)
      (hlength : bytes.length = bytes'.length) :
      Alike policy (.terminalInput bytes echoEnabled) (.terminalInput bytes' echoEnabled)

/-- The same turn, but for the bytes of a chunk of input that the policy redacts. -/
inductive Turn.Alike (policy : InputRecordingPolicy) : Turn → Turn → Prop
  | same (t : Turn) : Alike policy t t
  | receive {observation observation' : Observation} (h : observation.Alike policy observation') :
      Alike policy (.receive observation) (.receive observation')

section Redacted

variable (env : Env) (codecs : Codecs) (host : Host) (options : Options)
  (streamId : TerminalStreamId)

/-- Of a redacted chunk, the coordinator reads the length alone. -/
theorem recordInput_congr {bytes bytes' : Bytes} {echoEnabled : Option Bool}
    (hredacted : inputRedaction options.recordInput echoEnabled ≠ none)
    (hlength : bytes.length = bytes'.length) :
    recordInput env codecs options streamId bytes echoEnabled
      = recordInput env codecs options streamId bytes' echoEnabled := by
  obtain ⟨reason, hreason⟩ := Option.ne_none_iff_exists'.mp hredacted
  simp only [recordInput, hreason, hlength]

theorem handle_congr {observation observation' : Observation}
    (h : observation.Alike options.recordInput observation') :
    handle env codecs host options streamId observation
      = handle env codecs host options streamId observation' := by
  cases h with
  | same => rfl
  | redacted bytes bytes' echoEnabled hredacted hlength =>
    have hrecord := recordInput_congr env codecs options streamId hredacted hlength
    -- A failed recording dismisses either chunk.
    have hdismiss : dismiss (.terminalInput bytes echoEnabled)
        = dismiss (.terminalInput bytes' echoEnabled) := rfl
    simp only [handle, respond, hrecord, hdismiss]

theorem Supervisor.step_congr {t t' : Turn} (h : t.Alike options.recordInput t') (s : Supervisor) :
    s.step env codecs host options streamId t = s.step env codecs host options streamId t' := by
  cases h with
  | same => rfl
  | receive h =>
    have hhandle := handle_congr env codecs host options streamId h
    simp only [Supervisor.step, Supervisor.turn, hhandle]

end Redacted

end Supervision

open Supervision

/-- **Redacted input leaves no trace.**  Two recordings that see the same, but for the bytes of the
chunks that are redacted, end in the same state: in the same events and rows of the database, the
same objects and the same counters of the quotas. -/
theorem redacted_input_leaves_no_trace (env : Env) (codecs : Codecs) (host : Host)
    (options : Supervision.Options) (streamId : TerminalStreamId) (s : Supervisor)
    (turns turns' : List Turn)
    (halike : List.Forall₂ (Turn.Alike options.recordInput) turns turns') :
    Machine.run (Supervisor.step env codecs host options streamId) s turns
      = Machine.run (Supervisor.step env codecs host options streamId) s turns' :=
  Machine.run_congr (halike.imp fun _ _ h => Supervisor.step_congr env codecs host options streamId
    h) s

namespace Sample

/-- Nothing happens to the child. -/
def host : Supervision.Host where
  instant := fun tick => tick
  terminalSize := fun _ => .ok (80, 24)
  signalProcessGroup := fun _ => none
  killProcessGroup := fun _ => none
  processGroupExists := fun _ => .ok false
  tryWait := fun _ => .ok none
  wait := fun _ => none
  walk := fun _ => .ok (oneFile false)
  display := fun _ => "failed"

/-- Input is recorded where the terminal echoes it. -/
def echoPolicy : Supervision.Options := ⟨.auto, terminalOptions, checkpointOptions, true⟩

/-- A recording that has started. -/
def supervisor : Supervisor :=
  .start (Machine.run (recorderStep (env 999) codecs) (World.start created run.id options)
    [.checkpoint .initial none, .markRunRunning emptySnapshot.id]) (fun _ => none)
    ⟨1, ProcessId.one_ne_zero⟩ dirtyTracker

/-- A line that is echoed, and another one that is typed with the echo off. -/
def typed (secret : Bytes) : List Turn :=
  [.receive (.terminalInput [108, 115] (some true)), .receive (.terminalInput secret (some false)),
    .pollWorkspace]

/-- The events of the recording are the two of the checkpoint and those of the two lines. -/
example : (Machine.run (Supervisor.step (env 999) codecs host echoPolicy ⟨⟨0⟩⟩) supervisor
    (typed [112, 119])).world.recorder.sequencer.next.get = 5 := by decide +kernel

end Sample

theorem redacted_input_leaves_no_trace_typed :
    Machine.run (Supervisor.step (Sample.env 999) Sample.codecs Sample.host Sample.echoPolicy ⟨⟨0⟩⟩)
        Sample.supervisor (Sample.typed [112, 119])
      = Machine.run (Supervisor.step (Sample.env 999) Sample.codecs Sample.host Sample.echoPolicy
        ⟨⟨0⟩⟩) Sample.supervisor (Sample.typed [104, 105]) := by
  refine redacted_input_leaves_no_trace (Sample.env 999) Sample.codecs Sample.host
    Sample.echoPolicy ⟨⟨0⟩⟩ Sample.supervisor _ _ ?_
  refine .cons (.same _) (.cons (.receive ?_) (.cons (.same _) .nil))
  exact .redacted _ _ (some false) (by decide) rfl

end Rewind

/-
Exports of a run: a bundle with everything, or a page to look at.

A bundle is planned before it is written: a first pass reads the run and knows the path, length and
digest of every entry, and a second one writes them in the order of their paths.  Neither format
has the workspace root in it, and with redaction no input either.

* `exportBundle` — `planBundle`, then `writeBundleFile`;
* `exportHtml` — the page;
* `sanitizeExportEvent` — an event without the workspace root.
-/
import Rewind.Store.Queries
import Rewind.Snapshot.Diff
import Rewind.Lib.PathText
import Rewind.Lib.SortedMap

namespace Rewind

def EXPORT_PAGE_SIZE : UInt32 := 2048

def MAX_HTML_TERMINAL_BYTES : Nat := 128 * 1024 * 1024

def MAX_HTML_EVENTS : Nat := 1000000

/-- `rewind_capture::MAX_TERMINAL_CHUNK_BYTES`. -/
def MAX_TERMINAL_CHUNK_BYTES : Nat := 1024 * 1024

/-- `u64::MAX`. -/
def U64_MAX : Nat := 2 ^ 64 - 1

inductive ExportError where
  | missingInitialSnapshot (run : RunId)
  | missingFinalSnapshot (run : RunId)
  | htmlTooLarge (maximum : Nat)
  | tooManyEvents (maximum : Nat)
  | json (source : String)
  | bundleTooLarge (actual maximum : Nat)
  | terminalLength (objectId : ObjectId) (expected actual : Nat)
  | io (source : String)
  | bundle (source : BundleError)
  | artifact (source : String)
  | store (source : StoreError)
deriving DecidableEq

abbrev ExportResult (α : Type) := Except ExportError α

/-! ### Views -/

/-- `ExportRunView`: a run without its workspace root. -/
structure ExportRunView where
  id : RunId
  branchId : BranchId
  parent : Option RunParent
  command : String
  arguments : List String
  startedAt : Timestamp
  finishedAt : Option Timestamp
  monotonicDuration : Option MonotonicDuration
  status : RunStatus
  platform : Platform
  capturePolicy : CapturePolicy
  initialSnapshot : Option SnapshotId
  finalSnapshot : Option SnapshotId
  exitStatus : Option ProcessExitStatus
deriving DecidableEq

def ExportRunView.ofRun (run : Run) : ExportRunView where
  id := run.id
  branchId := run.branchId
  parent := run.parent
  command := run.command
  arguments := run.arguments
  startedAt := run.startedAt
  finishedAt := run.finishedAt
  monotonicDuration := run.monotonicDuration
  status := run.status
  platform := run.platform
  capturePolicy := run.capturePolicy
  initialSnapshot := run.initialSnapshot
  finalSnapshot := run.finalSnapshot
  exitStatus := run.exitStatus

/-- An entry of the manifest. -/
structure ChecksumView where
  path : Bytes
  blake3 : Bytes
  bytes : Nat
deriving DecidableEq

structure RedactionReport where
  terminalInputEvents : Nat
  policy : String
deriving DecidableEq

structure BundleManifest where
  format : String
  version : UInt16
  runId : RunId
  eventEncoding : String
  redaction : RedactionReport
  entries : List ChecksumView
deriving DecidableEq

structure EventView where
  sequence : Nat
  offsetMs : Nat
  kind : String
  redacted : Bool
deriving DecidableEq

structure TerminalFrame where
  sequence : Nat
  offsetMs : Nat
  hex : Bytes
deriving DecidableEq

structure ChangeView where
  path : Bytes
  status : String
deriving DecidableEq

def ChangeView.ofChange : EntryChange → ChangeView
  | .added entry => ⟨entry.path.text, "added"⟩
  | .removed entry => ⟨entry.path.text, "deleted"⟩
  | .modified before _ => ⟨before.path.text, "modified"⟩

structure HtmlData where
  schemaVersion : UInt16
  run : ExportRunView
  checkpoints : List Checkpoint
  changes : List ChangeView
  events : List EventView
  frames : List TerminalFrame
  terminalBytes : Nat
  inputPolicy : String
deriving DecidableEq

/-- The texts that `serde_json` writes for the parts of an export. -/
structure ExportJson where
  event : Event → Except String Bytes
  checkpoints : List Checkpoint → Except String Bytes
  run : ExportRunView → Except String Bytes
  snapshot : Snapshot → Except String Bytes
  manifest : BundleManifest → Except String Bytes
  html : HtmlData → Except String Bytes

/-- The steps on files other than those of the store, and other than writes to the bundle. -/
inductive ExportStep where
  | createEventStream
  | writeEvent (sequence : Nat)
  | syncEventStream
  | createDirectories
  | createTemporary
  | openEventStream
  | syncBundle
  | persist
  | syncDirectory
  | writeArtifact
deriving DecidableEq

/-- What the file system does in an export: which steps fail, the empty file that the bundle is
written to, and what a read of a file returns, call after call, until the file ends or fails. -/
structure ExportFiles (W : Type) where
  step : ExportStep → Except String Unit
  temporary : W
  reads : Bytes → Reader
  reads_prefix : ∀ bytes, (reads bytes).content <+: bytes

def ExportFiles.run {W : Type} (files : ExportFiles W) (step : ExportStep) : ExportResult Unit :=
  (files.step step).mapError .io

/-! ### Events -/

/-- `redact_workspace_root`. -/
def redactWorkspaceRoot (message : String) (workspaceRoot : Bytes) : String :=
  if validUtf8 workspaceRoot = true then
    decodeUtf8 (replaceAll workspaceRoot (utf8 "<workspace>") (utf8 message))
  else
    message

/-- The executable of a process, relative to the workspace when it is in it. -/
def exportedExecutable (workspaceRoot : Bytes) (executable : String) : String :=
  match stripPrefix workspaceRoot (utf8 executable) with
  | none => executable
  | some [] => "<workspace>"
  | some relative => "<workspace>/" ++ decodeUtf8 relative

/-- `sanitize_export_event`. -/
def sanitizeExportEvent (workspaceRoot : Bytes) (event : Event) : Event :=
  match event.payload with
  | .processObserved process =>
    let executable := process.executable.map (exportedExecutable workspaceRoot)
    { event with payload := .processObserved { process with executable } }
  | .recorderWarning warning =>
    let message := redactWorkspaceRoot warning.message workspaceRoot
    { event with payload := .recorderWarning { warning with message } }
  | .checkpointFailed checkpointId failure =>
    let message := redactWorkspaceRoot failure.message workspaceRoot
    { event with payload := .checkpointFailed checkpointId { failure with message } }
  | _ => event

/-- What `stream_export_events` has written and found. -/
structure EventStream where
  lines : Bytes
  totalBytes : Nat
  redactedCount : Nat
  objectIds : SortedSet ObjectId

/-- `write_event_line`. -/
def writeEventLine {W : Type} (files : ExportFiles W) (json : ExportJson) (maximumBytes : UInt64)
    (s : EventStream) (event : Event) : ExportResult EventStream := do
  let line ← (json.event event).mapError .json
  let line := line ++ [10]
  let totalBytes := (Bundle.checkedAdd s.totalBytes (min line.length U64_MAX)).getD U64_MAX
  ensure (totalBytes ≤ maximumBytes.toNat) (.bundleTooLarge totalBytes maximumBytes.toNat)
  files.run (.writeEvent event.seq)
  return { s with lines := s.lines ++ line, totalBytes }

/-- The event before its sanitization, with what it adds to the counts of the stream. -/
def redactEvent (redactInput : Bool) (s : EventStream) (original : Event) : EventStream × Event :=
  match original.payload, redactInput with
  | .terminalInput streamId _ byteLen, true =>
    ({ s with redactedCount := min (s.redactedCount + 1) U64_MAX },
      { original with payload := .terminalInputRedacted streamId byteLen .exportPolicy })
  | .terminalInput _ objectId _, false | .terminalOutput _ objectId _, _ =>
    ({ s with objectIds := s.objectIds.add objectId }, original)
  | _, _ => (s, original)

section Exports

variable {W : Type} [Write W] (files : ExportFiles W) (codecs : Codecs) (json : ExportJson)
  (d : Disk) (run : Run)

/-- The body of the loop of `stream_export_events`. -/
def streamExportEvent (redactInput : Bool) (maximumBytes : UInt64) (s : EventStream)
    (original : Event) : ExportResult EventStream :=
  let (s, event) := redactEvent redactInput s original
  writeEventLine files json maximumBytes s (sanitizeExportEvent run.workspaceRoot event)

/-- `stream_export_events`. -/
def streamExportEvents (redactInput : Bool) (maximumBytes : UInt64)
    (objectIds : SortedSet ObjectId) : ExportResult EventStream :=
  (timelinePager d.db run.id EXPORT_PAGE_SIZE).fold .store
    (streamExportEvent files json run redactInput maximumBytes) none ⟨[], 0, 0, objectIds⟩

/-! ### The plan of a bundle -/

/-- What the first pass knows about the entries. -/
structure BundlePlan where
  entryCount : UInt32
  checkpoints : Bytes
  events : Bytes
  eventsLength : Nat
  eventsChecksum : Digest
  manifest : Bytes
  objectIds : List ObjectId
  objectSizes : SortedMap ObjectId Nat
  run : Bytes
  snapshots : SortedMap Bytes Bytes
  payloadBytes : Nat
  redactedInputEvents : Nat

/-- `object_path`. -/
def objectPath (id : ObjectId) : Bytes :=
  utf8 "objects/" ++ id.hex.take 2 ++ [slash] ++ id.hex.drop 2

/-- `format!("snapshots/{id}.json")`. -/
def snapshotPath (id : SnapshotId) : Bytes := utf8 "snapshots/" ++ id.digest.hex ++ utf8 ".json"

/-- `checksum_view`. -/
def checksumView (path bytes : Bytes) : ChecksumView :=
  ⟨path, (codecs.blake3 bytes).hex, min bytes.length U64_MAX⟩

/-- The snapshots of the run and of its checkpoints, each of them once. -/
def exportedSnapshots (checkpoints : List Checkpoint) : ExportResult (List Snapshot) :=
  let snapshotIds := SortedSet.ofList (checkpoints.map (·.snapshotId)
    ++ run.initialSnapshot.toList ++ run.finalSnapshot.toList)
  snapshotIds.toList.mapM fun id => (loadSnapshotFrom codecs d.db id).mapError .store

/-- The texts of the snapshots, by their paths. -/
def snapshotEntries (snapshots : List Snapshot) : ExportResult (SortedMap Bytes Bytes) :=
  snapshots.foldlM (fun entries snapshot => do
    let bytes ← (json.snapshot snapshot).mapError .json
    return entries.insert (snapshotPath snapshot.id) bytes) SortedMap.empty

/-- The length of an object, as its envelope has it. -/
def objectSize (maximumBytes : UInt64) (id : ObjectId) : ExportResult (ObjectId × Nat) := do
  let (size, _) ← (openObjectReader d.files id maximumBytes.toNat).mapError .store
  return (id, size)

/-- `checksums.sort_by(|left, right| left.path.cmp(&right.path))`. -/
def sortViews (views : List ChecksumView) : List ChecksumView :=
  views.insertionSort fun left right => left.path ≤ right.path

/-- The length of the manifest and of the entries it lists. -/
def payloadBytes (manifest : Bytes) (views : List ChecksumView) : Nat :=
  (views.foldlM (fun total view => Bundle.checkedAdd total view.bytes)
    (min manifest.length U64_MAX)).getD U64_MAX

/-- The first pass of `export_bundle`. -/
def planBundle (redactInput : Bool) (maximumBytes : UInt64) : ExportResult BundlePlan := do
  let checkpoints ← (loadCheckpoints d.db run.id).mapError .store
  let snapshots ← exportedSnapshots codecs d run checkpoints
  files.run .createEventStream
  let stream ← streamExportEvents files json d run redactInput maximumBytes
    (SortedSet.ofList (snapshots.flatMap Snapshot.objectIds))
  files.run .syncEventStream
  let eventsChecksum := codecs.blake3 stream.lines
  let checkpointsBytes ← (json.checkpoints checkpoints).mapError .json
  let runBytes ← (json.run (.ofRun run)).mapError .json
  let snapshotEntries ← snapshotEntries json snapshots
  let sizes ← stream.objectIds.toList.mapM (objectSize d maximumBytes)
  let views := sortViews <|
    [checksumView codecs (utf8 "checkpoints.json") checkpointsBytes,
      ⟨utf8 "events.ndjson", eventsChecksum.hex, stream.totalBytes⟩,
      checksumView codecs (utf8 "run.json") runBytes]
    ++ snapshotEntries.entries.map (fun entry => checksumView codecs entry.1 entry.2)
    ++ sizes.map fun (id, size) => ⟨objectPath id, id.hex, size⟩
  let manifest ← (json.manifest
    { format := "rewind-bundle"
      version := 1
      runId := run.id
      eventEncoding := "newline-delimited rewind-domain Event JSON"
      redaction := ⟨stream.redactedCount,
        if redactInput then "omit_input" else "include_recorded_input"⟩
      entries := views }).mapError .json
  let payloadBytes := payloadBytes manifest views
  ensure (payloadBytes ≤ maximumBytes.toNat) (.bundleTooLarge payloadBytes maximumBytes.toNat)
  let entryCount := 4 + stream.objectIds.toList.length + snapshotEntries.entries.length
  ensure (entryCount < 2 ^ 32) (.bundle .numericRange)
  return {
    entryCount := UInt32.ofNat entryCount
    checkpoints := checkpointsBytes
    events := stream.lines
    eventsLength := stream.totalBytes
    eventsChecksum
    manifest
    objectIds := stream.objectIds.toList
    objectSizes := sizes.foldl (fun sizes (id, size) => sizes.insert id size) SortedMap.empty
    run := runBytes
    snapshots := snapshotEntries
    payloadBytes
    redactedInputEvents := stream.redactedCount }

/-! ### The bundle -/

/-- An object of the bundle, read again from the store. -/
def writeObject (plan : BundlePlan) (writer : BundleStreamWriter W) (id : ObjectId) :
    ExportResult (BundleStreamWriter W) := do
  let expected := (plan.objectSizes.get? id).getD U64_MAX
  let (size, payload) ← (openObjectReader d.files id expected).mapError .store
  ensure (size = expected) (.store (.invariant s!"object {id} changed size during bundle export"))
  (writer.writePrehashedEntry codecs (objectPath id) (UInt64.ofNat expected) id.digest
    (objectReads codecs id size [] (files.reads payload))).mapError .bundle

/-- The part of `write_bundle_file` that writes to the temporary file. -/
def bundleStream (plan : BundlePlan) : ExportResult W := do
  let writer ← (BundleStreamWriter.new files.temporary plan.entryCount).mapError .bundle
  let writer ← (writer.writeEntry codecs (utf8 "checkpoints.json") plan.checkpoints).mapError
    .bundle
  files.run .openEventStream
  let writer ← (writer.writePrehashedEntry codecs (utf8 "events.ndjson")
    (UInt64.ofNat plan.eventsLength) plan.eventsChecksum (files.reads plan.events)).mapError .bundle
  let writer ← (writer.writeEntry codecs (utf8 "manifest.json") plan.manifest).mapError .bundle
  let writer ← plan.objectIds.foldlM (writeObject files codecs d plan) writer
  let writer ← (writer.writeEntry codecs (utf8 "run.json") plan.run).mapError .bundle
  let writer ← plan.snapshots.entries.foldlM (fun (writer : BundleStreamWriter W) entry =>
    (writer.writeEntry codecs entry.1 entry.2).mapError .bundle) writer
  writer.finish.mapError .bundle

/-- `write_bundle_file`: the file that is installed under the output path. -/
def writeBundleFile (plan : BundlePlan) : ExportResult W := do
  files.run .createDirectories
  files.run .createTemporary
  let file ← bundleStream files codecs d plan
  files.run .syncBundle
  files.run .persist
  files.run .syncDirectory
  return file

structure BundleReport where
  path : Bytes
  entries : UInt32
  payloadBytes : Nat
  redactedInputEvents : Nat
deriving DecidableEq

/-- `default_bundle_path`. -/
def defaultBundlePath (id : RunId) : Bytes := utf8 s!"rewind-{id}.rwbundle"

/-- `export_bundle`, with the file it has written. -/
def exportBundle (output : Option Bytes) (redactInput : Bool) (maximumBytes : UInt64) :
    ExportResult (BundleReport × W) := do
  let plan ← planBundle files codecs json d run redactInput maximumBytes
  let file ← writeBundleFile files codecs d plan
  return (⟨output.getD (defaultBundlePath run.id), plan.entryCount, plan.payloadBytes,
    plan.redactedInputEvents⟩, file)

end Exports

/-! ### The page -/

/-- `event_kind`. -/
def eventKind : EventPayload → String
  | .runStarted .. => "run started"
  | .workspaceIsolated .. => "workspace isolated"
  | .terminalInput .. => "terminal input"
  | .terminalInputRedacted .. => "terminal input redacted"
  | .terminalOutput .. => "terminal output"
  | .terminalResized .. => "terminal resized"
  | .processObserved .. => "process observed"
  | .processExited .. => "process exited"
  | .filesystemPathsDirtied .. => "filesystem paths dirtied"
  | .checkpointStarted .. => "checkpoint started"
  | .checkpointCommitted .. => "checkpoint committed"
  | .checkpointFailed .. => "checkpoint failed"
  | .markerCreated .. => "marker created"
  | .runInterrupted .. => "run interrupted"
  | .runCompleted .. => "run completed"
  | .recorderWarning .. => "recorder warning"

/-- `EventPayload::TerminalInput { .. } | EventPayload::TerminalInputRedacted { .. }`. -/
def EventPayload.isInput : EventPayload → Bool
  | .terminalInput .. | .terminalInputRedacted .. => true
  | _ => false

/-- What `load_html_events` has collected. -/
structure HtmlEvents where
  events : List EventView
  frames : List TerminalFrame
  terminalBytes : Nat

/-- The milliseconds from the start of the run. -/
def Event.offsetMs (event : Event) : Nat := event.offset / 1000000

section Page

variable (codecs : Codecs) (d : Disk)

/-- The frame of a terminal output. -/
def htmlFrame (s : HtmlEvents) (event : Event) (objectId : ObjectId) (byteLen : UInt64) :
    ExportResult HtmlEvents := do
  let terminalBytes ← (Bundle.checkedAdd s.terminalBytes byteLen.toNat).elim
    (.error (.htmlTooLarge MAX_HTML_TERMINAL_BYTES)) .ok
  ensure (terminalBytes ≤ MAX_HTML_TERMINAL_BYTES) (.htmlTooLarge MAX_HTML_TERMINAL_BYTES)
  let bytes ← (loadObject codecs d.files objectId MAX_TERMINAL_CHUNK_BYTES).mapError .store
  let actual := min bytes.length U64_MAX
  ensure (actual = byteLen.toNat) (.terminalLength objectId byteLen.toNat actual)
  return { s with
    terminalBytes
    frames := s.frames ++ [⟨event.sequence.get, event.offsetMs, toHex bytes⟩] }

/-- The body of the loop of `load_html_events`. -/
def htmlEvent (redactInput : Bool) (s : HtmlEvents) (event : Event) : ExportResult HtmlEvents := do
  ensure (s.events.length ≠ MAX_HTML_EVENTS) (.tooManyEvents MAX_HTML_EVENTS)
  let view : EventView :=
    ⟨event.sequence.get, event.offsetMs, eventKind event.payload,
      redactInput && event.payload.isInput⟩
  let s := { s with events := s.events ++ [view] }
  match event.payload with
  | .terminalOutput _ objectId byteLen => htmlFrame codecs d s event objectId byteLen
  | _ => return s

/-- `load_html_events`. -/
def loadHtmlEvents (runId : RunId) (redactInput : Bool) : ExportResult HtmlEvents :=
  (timelinePager d.db runId EXPORT_PAGE_SIZE).fold .store (htmlEvent codecs d redactInput) none
    ⟨[], [], 0⟩

/-- `safe_script_json`. -/
def safeScriptJson (text : Bytes) : Bytes :=
  let text := replaceAll (utf8 "<") (utf8 "\\u003c") text
  let text := replaceAll (utf8 ">") (utf8 "\\u003e") text
  let text := replaceAll (utf8 "&") (utf8 "\\u0026") text
  let text := replaceAll [0xE2, 0x80, 0xA8] (utf8 "\\u2028") text
  replaceAll [0xE2, 0x80, 0xA9] (utf8 "\\u2029") text

/-- The texts around the data of a page, `HTML_PREFIX` and `HTML_SUFFIX`. -/
structure HtmlFrame where
  before : Bytes
  after : Bytes

/-- `export_html`: the path and the content of the page. -/
def exportHtml {W : Type} (files : ExportFiles W) (json : ExportJson) (frame : HtmlFrame)
    (run : Run)
    (output : Option Bytes) (redactInput : Bool) : ExportResult (Bytes × Bytes) := do
  let initialId ← run.initialSnapshot.elim (.error (.missingInitialSnapshot run.id)) .ok
  let finalId ← run.finalSnapshot.elim (.error (.missingFinalSnapshot run.id)) .ok
  let initial ← (loadSnapshotFrom codecs d.db initialId).mapError .store
  let finalSnapshot ← (loadSnapshotFrom codecs d.db finalId).mapError .store
  let changes := (diffSnapshots initial finalSnapshot).changes.map ChangeView.ofChange
  let checkpoints ← (loadCheckpoints d.db run.id).mapError .store
  let views ← loadHtmlEvents codecs d run.id redactInput
  let text ← (json.html
    { schemaVersion := 1
      run := .ofRun run
      checkpoints
      changes
      events := views.events
      frames := views.frames
      terminalBytes := views.terminalBytes
      inputPolicy :=
        if redactInput then "terminal input omitted from export"
        else "recorded terminal input remains in event metadata; bytes are not rendered" }).mapError
    .json
  let html := frame.before ++ safeScriptJson text ++ frame.after
  let path := output.getD (utf8 s!"rewind-{run.id}.html")
  (files.step .writeArtifact).mapError .artifact
  return (path, html)

end Page

/-! ### Sample records -/

namespace Sample

/-- Texts that are enough to tell the parts of an export apart. -/
def json : ExportJson where
  event event := .ok (utf8 (payloadKind event.payload))
  checkpoints checkpoints := .ok (utf8 s!"{checkpoints.length} checkpoints")
  run run := .ok (utf8 run.command)
  snapshot snapshot := .ok snapshot.id.digest.hex
  manifest manifest := .ok (manifest.entries.flatMap fun view => view.path ++ view.blake3)
  html data := .ok (utf8 s!"{data.events.length} events")

/-- No step fails, and a file is read at once. -/
def exportFiles : ExportFiles Bytes where
  step _ := .ok ()
  temporary := []
  reads bytes := [.ok bytes]
  reads_prefix bytes := by
    cases bytes with
    | nil => exact List.prefix_rfl
    | cons b rest =>
      show b :: rest ++ [] <+: b :: rest
      rw [List.append_nil]

end Sample

end Rewind

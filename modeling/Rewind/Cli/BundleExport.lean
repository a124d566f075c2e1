/-
Exported bundles are valid, complete and consistent.

The plan of a bundle is made from one reading of the run and its bytes from another.  The writer
checks the order of the paths, the lengths and the digests, so a bundle that is written at all is
the one that was planned.

* `exportedEvent` — what an export has in the place of an event;
* `Streamed`, `Planned` — what the first pass has read;
* `Written` — what the second one has written;
* **`export_valid`** — the bundle of an export that returns `Ok`.
-/
import Rewind.Cli.Redaction
import Rewind.Domain.Spellings
import Rewind.Store.BundleCodec
import Mathlib.Algebra.Order.BigOperators.Group.List
import Mathlib.Algebra.Order.Group.Nat

namespace Rewind

/-! ### Exported events -/

/-- An event whose terminal input is left out where input is redacted. -/
def redactedEvent (redactInput : Bool) (original : Event) : Event :=
  match original.payload, redactInput with
  | .terminalInput streamId _ byteLen, true =>
    { original with payload := .terminalInputRedacted streamId byteLen .exportPolicy }
  | _, _ => original

/-- What an export has in the place of an event. -/
def exportedEvent (redactInput : Bool) (workspaceRoot : Bytes) (original : Event) : Event :=
  sanitizeExportEvent workspaceRoot (redactedEvent redactInput original)

/-- A text without the workspace root is still about the same object. -/
theorem objectId?_sanitizeExportEvent (workspaceRoot : Bytes) (event : Event) :
    (sanitizeExportEvent workspaceRoot event).objectId? = event.objectId? := by
  obtain ⟨id, runId, sequence, wallClock, monotonicOffset, schemaVersion, payload⟩ := event
  cases payload <;> rfl

theorem redactEvent_event (redactInput : Bool) (s : EventStream) (original : Event) :
    (redactEvent redactInput s original).2 = redactedEvent redactInput original := by
  obtain ⟨id, runId, sequence, wallClock, monotonicOffset, schemaVersion, payload⟩ := original
  cases redactInput <;> cases payload <;> rfl

theorem redactEvent_lines (redactInput : Bool) (s : EventStream) (original : Event) :
    (redactEvent redactInput s original).1.lines = s.lines
      ∧ (redactEvent redactInput s original).1.totalBytes = s.totalBytes := by
  obtain ⟨id, runId, sequence, wallClock, monotonicOffset, schemaVersion, payload⟩ := original
  cases redactInput <;> cases payload <;> exact ⟨rfl, rfl⟩

/-- The stream collects the object that the event in the export refers to. -/
theorem objectIds_redactEvent {redactInput : Bool} (workspaceRoot : Bytes) {s : EventStream}
    {original : Event} {id : ObjectId} :
    id ∈ (redactEvent redactInput s original).1.objectIds.toList
      ↔ id ∈ s.objectIds.toList
        ∨ (exportedEvent redactInput workspaceRoot original).objectId? = some id := by
  rw [exportedEvent, objectId?_sanitizeExportEvent]
  obtain ⟨eventId, runId, sequence, wallClock, monotonicOffset, schemaVersion, payload⟩ := original
  have hadded : ∀ objectId : ObjectId,
      id ∈ (s.objectIds.add objectId).toList ↔ id ∈ s.objectIds.toList
        ∨ some objectId = some id := by
    intro objectId
    rw [SortedSet.mem_add, or_comm, Option.some_inj, eq_comm (a := objectId)]
  have hkept : id ∈ s.objectIds.toList ↔ id ∈ s.objectIds.toList ∨ none = some id := by simp
  cases payload with
  | terminalInput streamId objectId byteLen =>
    cases redactInput with
    | false => exact hadded objectId
    | true => exact hkept
  | terminalOutput streamId objectId byteLen =>
    cases redactInput with
    | false => exact hadded objectId
    | true => exact hadded objectId
  | _ => cases redactInput <;> exact hkept

/-- What the stream has written and found after these events. -/
structure Streamed (json : ExportJson) (redactInput : Bool) (workspaceRoot : Bytes)
    (ids : SortedSet ObjectId) (events : List Event) (lines : List Bytes) (s : EventStream) :
    Prop where
  line : List.Forall₂ (fun event line =>
    json.event (exportedEvent redactInput workspaceRoot event) = .ok line) events lines
  lines : s.lines = lines.flatMap fun line => line ++ [10]
  totalBytes : s.totalBytes = min s.lines.length U64_MAX
  objectIds : ∀ id, id ∈ s.objectIds.toList ↔ id ∈ ids.toList
    ∨ ∃ event ∈ events, (exportedEvent redactInput workspaceRoot event).objectId? = some id

section Stream

variable {W : Type} {files : ExportFiles W} {json : ExportJson} {run : Run} {redactInput : Bool}
  {maximumBytes : UInt64} {ids : SortedSet ObjectId} {events : List Event} {lines : List Bytes}
  {s s' : EventStream}

/-- The count of the bytes stays at its maximum where the lines are longer. -/
theorem checkedAdd_min (m n : Nat) :
    (Bundle.checkedAdd (min m U64_MAX) (min n U64_MAX)).getD U64_MAX = min (m + n) U64_MAX := by
  unfold Bundle.checkedAdd U64_MAX
  split
  case isTrue h =>
    rw [Option.getD_some]
    omega
  case isFalse h =>
    rw [Option.getD_none]
    omega

theorem Streamed.step {original : Event}
    (hs : Streamed json redactInput run.workspaceRoot ids events lines s)
    (h : streamExportEvent files json run redactInput maximumBytes s original = .ok s') :
    ∃ line, Streamed json redactInput run.workspaceRoot ids (events ++ [original])
      (lines ++ [line]) s' := by
  replace h : writeEventLine files json maximumBytes (redactEvent redactInput s original).1
    (sanitizeExportEvent run.workspaceRoot (redactEvent redactInput s original).2) = .ok s' := h
  rw [redactEvent_event] at h
  obtain ⟨line, hline, h⟩ := Except.bind_eq_ok_iff.mp h
  obtain ⟨-, h⟩ := ensure_bind_eq_ok_iff.mp h
  obtain ⟨u, -, h⟩ := Except.bind_eq_ok_iff.mp h
  obtain rfl := Except.ok.inj h
  replace hline := Except.mapError_eq_ok_iff.mp hline
  obtain ⟨hlines, htotal⟩ := redactEvent_lines redactInput s original
  refine ⟨line, List.rel_append hs.line (.cons hline .nil), ?_, ?_, ?_⟩
  · show (redactEvent redactInput s original).1.lines ++ (line ++ [10]) = _
    rw [hlines, hs.lines, List.flatMap_append, List.flatMap_singleton]
  · show (Bundle.checkedAdd (redactEvent redactInput s original).1.totalBytes
        (min (line ++ [10]).length U64_MAX)).getD U64_MAX
      = min ((redactEvent redactInput s original).1.lines ++ (line ++ [10])).length U64_MAX
    rw [htotal, hlines, hs.totalBytes, checkedAdd_min, ← List.length_append]
  · intro id
    show id ∈ (redactEvent redactInput s original).1.objectIds.toList ↔ _
    rw [objectIds_redactEvent run.workspaceRoot, hs.objectIds, or_assoc]
    refine or_congr_right ?_
    constructor
    · rintro (⟨event, hevent, hid⟩ | hid)
      · exact ⟨event, List.mem_append_left _ hevent, hid⟩
      · exact ⟨original, List.mem_append_right _ List.mem_cons_self, hid⟩
    · rintro ⟨event, hevent, hid⟩
      rcases List.mem_append.mp hevent with hevent | hevent
      · exact Or.inl ⟨event, hevent, hid⟩
      · obtain rfl := List.mem_singleton.mp hevent
        exact Or.inr hid

theorem Streamed.foldlM {more : List Event}
    (hs : Streamed json redactInput run.workspaceRoot ids events lines s)
    (h : more.foldlM (streamExportEvent files json run redactInput maximumBytes) s = .ok s') :
    ∃ lines', Streamed json redactInput run.workspaceRoot ids (events ++ more) lines' s' := by
  induction more generalizing events lines s with
  | nil =>
    obtain rfl := Except.ok.inj h
    rw [List.append_nil]
    exact ⟨lines, hs⟩
  | cons original more ih =>
    obtain ⟨s₁, hfirst, hrest⟩ := List.foldlM_eq_ok_cons.mp h
    obtain ⟨line, hs₁⟩ := hs.step hfirst
    obtain ⟨lines', hs'⟩ := ih hs₁ hrest
    rw [List.append_assoc] at hs'
    exact ⟨lines', hs'⟩

/-- **The stream of the events** has a line for every event of the run, in their order. -/
theorem streamExportEvents_ok {d : Disk} (hdb : d.db.WellFormed)
    (h : streamExportEvents files json d run redactInput maximumBytes ids = .ok s) :
    ∃ events lines, (d.db.eventsOf run.id).mapM decodeEvent = .ok events
      ∧ Streamed json redactInput run.workspaceRoot ids events lines s := by
  obtain ⟨events, hvisits, hfold⟩ := Pager.fold_ok h
  have hnone : Streamed json redactInput run.workspaceRoot ids [] [] ⟨[], 0, 0, ids⟩ := by
    refine ⟨.nil, rfl, rfl, fun id => ?_⟩
    simp
  obtain ⟨lines, hs⟩ := hnone.foldlM hfold
  exact ⟨events, lines, timeline_visits hdb hvisits, hs⟩

end Stream

/-! ### The plan -/

/-- A snapshot that the run or one of its checkpoints names, as the store has it. -/
def Db.HasSnapshot (codecs : Codecs) (db : Db) (run : Run) (snapshot : Snapshot) : Prop :=
  db.namesSnapshot run snapshot.id ∧ loadSnapshotFrom codecs db snapshot.id = .ok snapshot

section Plan

variable {W : Type} {files : ExportFiles W} {codecs : Codecs} {json : ExportJson} {d : Disk}
  {run : Run} {redactInput : Bool} {maximumBytes : UInt64}

/-- Every snapshot that the run names is exported, as the store has it. -/
theorem exportedSnapshots_ok {checkpoints : List Checkpoint} {snapshots : List Snapshot}
    (hcheckpoints : loadCheckpoints d.db run.id = .ok checkpoints)
    (h : exportedSnapshots codecs d run checkpoints = .ok snapshots) :
    (∀ snapshot, snapshot ∈ snapshots ↔ d.db.HasSnapshot codecs run snapshot)
      ∧ ∀ id, d.db.namesSnapshot run id → ∃ snapshot ∈ snapshots, snapshot.id = id := by
  have hloaded : ∀ id, d.db.namesSnapshot run id →
      ∃ snapshot ∈ snapshots, loadSnapshotFrom codecs d.db id = .ok snapshot := by
    intro id hid
    obtain ⟨snapshot, hsnapshot, hload⟩ :=
      List.forall_mem_of_mapM_eq_ok h ((mem_exported_iff hcheckpoints).mpr hid)
    exact ⟨snapshot, hsnapshot, Except.mapError_eq_ok_iff.mp hload⟩
  refine ⟨fun snapshot => ⟨fun hsnapshot => ?_, ?_⟩, fun id hid => ?_⟩
  · obtain ⟨id, hid, hload⟩ := List.exists_of_mapM_eq_ok h hsnapshot
    replace hload := Except.mapError_eq_ok_iff.mp hload
    obtain rfl := id_of_loadSnapshotFrom hload
    exact ⟨(mem_exported_iff hcheckpoints).mp hid, hload⟩
  · rintro ⟨hnamed, hload⟩
    obtain ⟨snapshot', hsnapshot', hload'⟩ := hloaded _ hnamed
    rw [hload] at hload'
    obtain rfl := Except.ok.inj hload'
    exact hsnapshot'
  · obtain ⟨snapshot, hsnapshot, hload⟩ := hloaded id hid
    exact ⟨snapshot, hsnapshot, id_of_loadSnapshotFrom hload⟩

theorem snapshotPath_injective {id id' : SnapshotId} (h : snapshotPath id = snapshotPath id') :
    id = id' := by
  have hhex : id.digest.hex = id'.digest.hex := by
    rw [snapshotPath, snapshotPath] at h
    exact List.append_cancel_left (List.append_cancel_right h)
  have hdigest := parseDigest_eq_some_iff.mpr hhex
  rw [parseDigest_eq_some_iff.mpr rfl] at hdigest
  obtain ⟨digest⟩ := id
  obtain ⟨digest'⟩ := id'
  rw [show digest = digest' from (Option.some.inj hdigest).symm]

/-- The entry of a snapshot in the bundle. -/
def SnapshotText (json : ExportJson) (snapshots : List Snapshot) (entry : Bytes × Bytes) : Prop :=
  ∃ snapshot ∈ snapshots, entry.1 = snapshotPath snapshot.id ∧ json.snapshot snapshot = .ok entry.2

theorem foldlM_snapshotEntries {snapshots : List Snapshot} {m m' : SortedMap Bytes Bytes}
    (h : snapshots.foldlM (fun entries snapshot => do
      let bytes ← (json.snapshot snapshot).mapError ExportError.json
      return entries.insert (snapshotPath snapshot.id) bytes) m = .ok m') :
    (∀ entry ∈ m'.entries, entry ∈ m.entries ∨ SnapshotText json snapshots entry)
      ∧ (∀ path ∈ m.keys, path ∈ m'.keys)
      ∧ ∀ snapshot ∈ snapshots, snapshotPath snapshot.id ∈ m'.keys := by
  induction snapshots generalizing m with
  | nil =>
    obtain rfl := Except.ok.inj h
    exact ⟨fun entry hentry => Or.inl hentry, fun path hpath => hpath, nofun⟩
  | cons snapshot rest ih =>
    obtain ⟨m₁, hfirst, hrest⟩ := List.foldlM_eq_ok_cons.mp h
    obtain ⟨bytes, hbytes, hfirst⟩ := Except.bind_eq_ok_iff.mp hfirst
    obtain rfl := Except.ok.inj hfirst
    obtain ⟨hentries, hkeys, hsnapshots⟩ := ih hrest
    have hnew : snapshotPath snapshot.id ∈ m'.keys :=
      hkeys _ (SortedMap.mem_keys_insert.mpr (Or.inl rfl))
    refine ⟨fun entry hentry => ?_, fun path hpath => ?_, List.forall_mem_cons.mpr
      ⟨hnew, hsnapshots⟩⟩
    · rcases hentries entry hentry with hmem | ⟨other, hother, htext⟩
      · rcases SortedMap.mem_insert.mp hmem with rfl | ⟨hmem, -⟩
        · exact Or.inr ⟨snapshot, List.mem_cons_self, rfl, Except.mapError_eq_ok_iff.mp hbytes⟩
        · exact Or.inl hmem
      · exact Or.inr ⟨other, List.mem_cons_of_mem _ hother, htext⟩
    · exact hkeys path (SortedMap.mem_keys_insert.mpr (Or.inr hpath))

/-- The views of the entries that the plan knows of, before they are sorted. -/
def plannedViews (codecs : Codecs) (plan : BundlePlan) (sizes : List (ObjectId × Nat)) :
    List ChecksumView :=
  [checksumView codecs (utf8 "checkpoints.json") plan.checkpoints,
    ⟨utf8 "events.ndjson", plan.eventsChecksum.hex, plan.eventsLength⟩,
    checksumView codecs (utf8 "run.json") plan.run]
  ++ plan.snapshots.entries.map (fun entry => checksumView codecs entry.1 entry.2)
  ++ sizes.map fun (id, size) => ⟨objectPath id, id.hex, size⟩

/-- What the first pass has read, and the plan it has made of that. -/
structure Planned (codecs : Codecs) (json : ExportJson) (d : Disk) (run : Run)
    (maximumBytes : UInt64) (snapshots : List Snapshot) (stream : EventStream)
    (sizes : List (ObjectId × Nat)) (plan : BundlePlan) : Prop where
  loaded : ∃ checkpoints, loadCheckpoints d.db run.id = .ok checkpoints
    ∧ json.checkpoints checkpoints = .ok plan.checkpoints
    ∧ exportedSnapshots codecs d run checkpoints = .ok snapshots
  runText : json.run (.ofRun run) = .ok plan.run
  events : plan.events = stream.lines ∧ plan.eventsLength = stream.totalBytes
    ∧ plan.eventsChecksum = codecs.blake3 stream.lines
  snapshotTexts : snapshotEntries json snapshots = .ok plan.snapshots
  objectIds : plan.objectIds = stream.objectIds.toList
  measured : plan.objectIds.mapM (objectSize d maximumBytes) = .ok sizes
  objectSizes : plan.objectSizes
    = sizes.foldl (fun sizes (id, size) => sizes.insert id size) SortedMap.empty
  manifest : ∃ manifest : BundleManifest, json.manifest manifest = .ok plan.manifest
    ∧ manifest.entries = sortViews (plannedViews codecs plan sizes)
  payload : plan.payloadBytes
      = payloadBytes plan.manifest (sortViews (plannedViews codecs plan sizes))
    ∧ plan.payloadBytes ≤ maximumBytes.toNat

/-- **The first pass**, taken apart. -/
theorem planBundle_ok {plan : BundlePlan}
    (h : planBundle files codecs json d run redactInput maximumBytes = .ok plan) :
    ∃ snapshots stream sizes,
      streamExportEvents files json d run redactInput maximumBytes
          (SortedSet.ofList (snapshots.flatMap Snapshot.objectIds)) = .ok stream
        ∧ Planned codecs json d run maximumBytes snapshots stream sizes plan := by
  obtain ⟨checkpoints, hcheckpoints, h⟩ := Except.bind_eq_ok_iff.mp h
  obtain ⟨snapshots, hsnapshots, h⟩ := Except.bind_eq_ok_iff.mp h
  obtain ⟨u₁, -, h⟩ := Except.bind_eq_ok_iff.mp h
  obtain ⟨stream, hstream, h⟩ := Except.bind_eq_ok_iff.mp h
  obtain ⟨u₂, -, h⟩ := Except.bind_eq_ok_iff.mp h
  obtain ⟨checkpointsBytes, hcheckpointsBytes, h⟩ := Except.bind_eq_ok_iff.mp h
  obtain ⟨runBytes, hrunBytes, h⟩ := Except.bind_eq_ok_iff.mp h
  obtain ⟨entries, hentries, h⟩ := Except.bind_eq_ok_iff.mp h
  obtain ⟨sizes, hsizes, h⟩ := Except.bind_eq_ok_iff.mp h
  obtain ⟨manifest, hmanifest, h⟩ := Except.bind_eq_ok_iff.mp h
  obtain ⟨hpayload, h⟩ := ensure_bind_eq_ok_iff.mp h
  obtain ⟨-, h⟩ := ensure_bind_eq_ok_iff.mp h
  obtain rfl := Except.ok.inj h
  refine ⟨snapshots, stream, sizes, hstream, ?_⟩
  exact {
    loaded := ⟨checkpoints, Except.mapError_eq_ok_iff.mp hcheckpoints,
      Except.mapError_eq_ok_iff.mp hcheckpointsBytes, hsnapshots⟩
    runText := Except.mapError_eq_ok_iff.mp hrunBytes
    events := ⟨rfl, rfl, rfl⟩
    snapshotTexts := hentries
    objectIds := rfl
    measured := hsizes
    objectSizes := rfl
    manifest := ⟨_, Except.mapError_eq_ok_iff.mp hmanifest, rfl⟩
    payload := ⟨rfl, hpayload⟩ }

end Plan

/-! ### The bundle -/

/-- An ASCII path with the digits of a digest in it is text. -/
theorem validUtf8_objectPath (id : ObjectId) : validUtf8 (objectPath id) = true := by
  refine validUtf8_of_ascii fun b hb => ?_
  have hprefix : (utf8 "objects/").all (fun b => decide (b < 0x80)) = true := rfl
  rw [objectPath, List.mem_append, List.mem_append, List.mem_append, List.mem_singleton] at hb
  rcases hb with ((hb | hb) | rfl) | hb
  · exact of_decide_eq_true (List.all_eq_true.mp hprefix b hb)
  · exact toHex_ascii (List.mem_of_mem_take hb)
  · decide
  · exact toHex_ascii (List.mem_of_mem_drop hb)

theorem validUtf8_snapshotPath (id : SnapshotId) : validUtf8 (snapshotPath id) = true := by
  refine validUtf8_of_ascii fun b hb => ?_
  have hprefix : (utf8 "snapshots/").all (fun b => decide (b < 0x80)) = true := rfl
  have hsuffix : (utf8 ".json").all (fun b => decide (b < 0x80)) = true := rfl
  rw [snapshotPath, List.mem_append, List.mem_append] at hb
  rcases hb with (hb | hb) | hb
  · exact of_decide_eq_true (List.all_eq_true.mp hprefix b hb)
  · exact toHex_ascii hb
  · exact of_decide_eq_true (List.all_eq_true.mp hsuffix b hb)

/-- What an exported bundle has in it. -/
structure BundleContents where
  checkpoints : Bytes
  events : Bytes
  manifest : Bytes
  objects : List (ObjectId × Bytes)
  run : Bytes
  snapshots : List (SnapshotId × Bytes)

def objectEntry (object : ObjectId × Bytes) : BundleEntry :=
  ⟨objectPath object.1, object.2, validUtf8_objectPath object.1⟩

def snapshotEntry (snapshot : SnapshotId × Bytes) : BundleEntry :=
  ⟨snapshotPath snapshot.1, snapshot.2, validUtf8_snapshotPath snapshot.1⟩

namespace BundleContents

variable (c : BundleContents)

/-- The entries before the manifest. -/
def before : List BundleEntry :=
  [⟨utf8 "checkpoints.json", c.checkpoints, by decide⟩, ⟨utf8 "events.ndjson", c.events, by decide⟩]

/-- The entries after it. -/
def after : List BundleEntry :=
  c.objects.map objectEntry ++ [⟨utf8 "run.json", c.run, by decide⟩]
    ++ c.snapshots.map snapshotEntry

def entries : List BundleEntry :=
  c.before ++ [⟨utf8 "manifest.json", c.manifest, by decide⟩] ++ c.after

/-- Every entry but the manifest. -/
def listed : List BundleEntry := c.before ++ c.after

end BundleContents

/-- What the second pass has written of a plan. -/
structure Written (codecs : Codecs) (plan : BundlePlan) (bytes : Bytes) (c : BundleContents) :
    Prop where
  canonical : Canonical none c.entries
  count : c.entries.length = plan.entryCount.toNat
  bytes : bytes = bundleBytes codecs c.entries
  same : c.checkpoints = plan.checkpoints ∧ c.manifest = plan.manifest ∧ c.run = plan.run
  events : c.events <+: plan.events ∧ c.events.length = (UInt64.ofNat plan.eventsLength).toNat
    ∧ codecs.blake3 c.events = plan.eventsChecksum
  objectIds : c.objects.map Prod.fst = plan.objectIds
  objects : ∀ object ∈ c.objects, codecs.blake3 object.2 = object.1.digest
    ∧ object.2.length
      = (UInt64.ofNat ((plan.objectSizes.get? object.1).getD U64_MAX)).toNat
  snapshots : plan.snapshots.entries = c.snapshots.map fun s => (snapshotPath s.1, s.2)

/-- Entries that are made from items and something else each. -/
theorem exists_map_of_forall₂ {α β γ : Type} {R : α → β → Prop} {P : α → γ → Prop} {f : α × γ → β}
    (hR : ∀ a b, R a b → ∃ c, b = f (a, c) ∧ P a c) {as : List α} {bs : List β}
    (h : List.Forall₂ R as bs) :
    ∃ pairs : List (α × γ), pairs.map Prod.fst = as ∧ bs = pairs.map f
      ∧ ∀ pair ∈ pairs, P pair.1 pair.2 := by
  induction h with
  | nil => exact ⟨[], rfl, rfl, nofun⟩
  | @cons a b as bs hab _ ih =>
    obtain ⟨c, rfl, hc⟩ := hR a b hab
    obtain ⟨pairs, rfl, rfl, hpairs⟩ := ih
    exact ⟨(a, c) :: pairs, rfl, rfl, List.forall_mem_cons.mpr ⟨hc, hpairs⟩⟩

section Writing

variable {W : Type} [Write W] {files : ExportFiles W} {codecs : Codecs} {d : Disk}
  {plan : BundlePlan}

/-- An object is written with the size that the plan has for it, and hashes to its identifier. -/
theorem writeObject_wrote (received : Received W) {s s' : BundleStreamWriter W} {id : ObjectId}
    (h : writeObject files codecs d plan s id = .ok s') :
    ∃ e, (∃ bytes, e = objectEntry (id, bytes) ∧ codecs.blake3 bytes = id.digest
        ∧ bytes.length = (UInt64.ofNat ((plan.objectSizes.get? id).getD U64_MAX)).toNat)
      ∧ Wrote codecs received s e s' := by
  obtain ⟨⟨size, payload⟩, -, h⟩ := Except.bind_eq_ok_iff.mp h
  obtain ⟨-, h⟩ := ensure_bind_eq_ok_iff.mp h
  replace h := Except.mapError_eq_ok_iff.mp h
  obtain ⟨hlength, hdigest⟩ := writePrehashedEntry_read received h
  exact ⟨_, ⟨_, rfl, hdigest, hlength⟩,
    writePrehashedEntry_ok received (validUtf8_objectPath id) h⟩

/-- What is written to the temporary file is the plan. -/
theorem bundleStream_ok (received : Received W) {file : W}
    (htemporary : received.bytes files.temporary = [])
    (hpaths : ∀ entry ∈ plan.snapshots.entries, ∃ id, entry.1 = snapshotPath id)
    (h : bundleStream files codecs d plan = .ok file) :
    ∃ c, Written codecs plan (received.bytes file) c := by
  obtain ⟨s₀, hnew, h⟩ := Except.bind_eq_ok_iff.mp h
  obtain ⟨s₁, hcheckpoints, h⟩ := Except.bind_eq_ok_iff.mp h
  obtain ⟨u₃, -, h⟩ := Except.bind_eq_ok_iff.mp h
  obtain ⟨s₂, hevents, h⟩ := Except.bind_eq_ok_iff.mp h
  obtain ⟨s₃, hmanifest, h⟩ := Except.bind_eq_ok_iff.mp h
  obtain ⟨s₄, hobjects, h⟩ := Except.bind_eq_ok_iff.mp h
  obtain ⟨s₅, hrun, h⟩ := Except.bind_eq_ok_iff.mp h
  obtain ⟨s₆, hsnapshots, hfinish⟩ := Except.bind_eq_ok_iff.mp h
  replace hnew := Except.mapError_eq_ok_iff.mp hnew
  replace hevents := Except.mapError_eq_ok_iff.mp hevents
  replace hfinish := Except.mapError_eq_ok_iff.mp hfinish
  -- the entries, part by part
  have hwrote₁ := writeEntry_ok (e := ⟨utf8 "checkpoints.json", plan.checkpoints, by decide⟩)
    received (Except.mapError_eq_ok_iff.mp hcheckpoints)
  have hwrote₂ := writePrehashedEntry_ok received (by decide) hevents
  have hwrote₃ := writeEntry_ok (e := ⟨utf8 "manifest.json", plan.manifest, by decide⟩)
    received (Except.mapError_eq_ok_iff.mp hmanifest)
  have hwrote₅ := writeEntry_ok (e := ⟨utf8 "run.json", plan.run, by decide⟩)
    received (Except.mapError_eq_ok_iff.mp hrun)
  obtain ⟨objectEntries, hobjectEntries, hwrote₄⟩ := WroteAll.of_foldlM
    (fun id _ s s' hid => writeObject_wrote received hid) hobjects
  obtain ⟨objects, hids, rfl, hobjects⟩ := exists_map_of_forall₂ (fun _ _ he => he) hobjectEntries
  have hsnapshot : ∀ entry ∈ plan.snapshots.entries, ∀ s s' : BundleStreamWriter W,
      (s.writeEntry codecs entry.1 entry.2).mapError ExportError.bundle = .ok s' →
      ∃ e, (∃ id, e = snapshotEntry (id, entry.2) ∧ entry.1 = snapshotPath id)
        ∧ Wrote codecs received s e s' := by
    intro entry hentry s s' hs
    obtain ⟨id, hid⟩ := hpaths entry hentry
    refine ⟨_, ⟨id, rfl, hid⟩, writeEntry_ok received ?_⟩
    rw [hid] at hs
    exact Except.mapError_eq_ok_iff.mp hs
  obtain ⟨snapshotEntries, hsnapshotEntries, hwrote₆⟩ := WroteAll.of_foldlM hsnapshot hsnapshots
  obtain ⟨pairs, hentries, rfl, hpairs⟩ := exists_map_of_forall₂
    (f := fun pair : (Bytes × Bytes) × SnapshotId => snapshotEntry (pair.2, pair.1.2))
    (fun _ _ he => he) hsnapshotEntries
  obtain ⟨hread, hdigest⟩ := writePrehashedEntry_read received hevents
  let c : BundleContents :=
    { checkpoints := plan.checkpoints
      events := (files.reads plan.events).content
      manifest := plan.manifest
      objects
      run := plan.run
      snapshots := pairs.map fun pair => (pair.2, pair.1.2) }
  have hall : WroteAll codecs received s₀ c.entries s₆ := by
    have hfront := (hwrote₁.all.append hwrote₂.all).append hwrote₃.all
    have hback := (hwrote₄.append hwrote₅.all).append hwrote₆
    have hsame : c.snapshots.map snapshotEntry
        = pairs.map fun pair => snapshotEntry (pair.2, pair.1.2) := List.map_map
    rw [BundleContents.entries, BundleContents.after, hsame]
    exact hfront.append hback
  obtain ⟨hcanonical, hcount, hbytes⟩ := WroteAll.bundle hnew hall hfinish
  rw [htemporary, List.nil_append] at hbytes
  refine ⟨c, ⟨hcanonical, hcount, hbytes, ⟨rfl, rfl, rfl⟩,
    ⟨files.reads_prefix plan.events, hread, hdigest⟩, hids, hobjects, ?_⟩⟩
  -- every path is the one of its snapshot
  show plan.snapshots.entries = (pairs.map fun pair => (pair.2, pair.1.2)).map _
  rw [← hentries, List.map_map]
  refine List.map_congr_left fun pair hpair => ?_
  exact Prod.ext (hpairs pair hpair) rfl

/-- **The second pass** writes the plan. -/
theorem writeBundleFile_ok (received : Received W) {file : W}
    (htemporary : received.bytes files.temporary = [])
    (hpaths : ∀ entry ∈ plan.snapshots.entries, ∃ id, entry.1 = snapshotPath id)
    (h : writeBundleFile files codecs d plan = .ok file) :
    ∃ c, Written codecs plan (received.bytes file) c := by
  obtain ⟨u₁, -, h⟩ := Except.bind_eq_ok_iff.mp h
  obtain ⟨u₂, -, h⟩ := Except.bind_eq_ok_iff.mp h
  obtain ⟨w, hstream, h⟩ := Except.bind_eq_ok_iff.mp h
  obtain ⟨u₄, -, h⟩ := Except.bind_eq_ok_iff.mp h
  obtain ⟨u₅, -, h⟩ := Except.bind_eq_ok_iff.mp h
  obtain ⟨u₆, -, h⟩ := Except.bind_eq_ok_iff.mp h
  obtain rfl := Except.ok.inj h
  exact bundleStream_ok received htemporary hpaths hstream

end Writing

/-! ### The two passes agree -/

/-- The line of the manifest for an entry. -/
def checksumOf (codecs : Codecs) (e : BundleEntry) : ChecksumView :=
  ⟨e.path, (codecs.blake3 e.bytes).hex, e.bytes.length⟩

/-- Views are sorted to the order of their paths. -/
theorem sortViews_eq {views target : List ChecksumView} (hperm : views.Perm target)
    (hsorted : target.Pairwise fun view view' => view.path < view'.path) :
    sortViews views = target := by
  have hviews : (sortViews views).Pairwise fun view view' => view.path ≤ view'.path :=
    List.pairwise_insertionSort _ _
  have hdistinct : (target.map ChecksumView.path).Nodup :=
    List.pairwise_map.mpr (hsorted.imp fun hlt => ne_of_lt hlt)
  have hsame : (sortViews views).Perm target := (List.perm_insertionSort _ _).trans hperm
  refine hsame.eq_of_pairwise ?_ hviews (hsorted.imp fun hlt => le_of_lt hlt)
  intro view view' hview hview' hle hge
  exact List.inj_on_of_nodup_map hdistinct (hsame.mem_iff.mp hview) hview' (le_antisymm hle hge)

/-- The length that is checked against the limit is the one of the manifest and its entries. -/
theorem payloadBytes_eq {manifest : Bytes} {views : List ChecksumView}
    (h : manifest.length + (views.map ChecksumView.bytes).sum < 2 ^ 64) :
    payloadBytes manifest views = manifest.length + (views.map ChecksumView.bytes).sum := by
  have hfold : ∀ (views : List ChecksumView) (n : Nat),
      n + (views.map ChecksumView.bytes).sum < 2 ^ 64 →
      views.foldlM (fun total view => Bundle.checkedAdd total view.bytes) n
        = some (n + (views.map ChecksumView.bytes).sum) := by
    intro views
    induction views with
    | nil => exact fun _ _ => rfl
    | cons view rest ih =>
      intro n hn
      rw [List.map_cons, List.sum_cons] at hn ⊢
      rw [List.foldlM_cons, checkedAdd_eq_some.mpr ⟨by omega, rfl⟩]
      show rest.foldlM _ (n + view.bytes) = _
      rw [ih (n + view.bytes) (by omega)]
      congr 1
      omega
  have hmin : min manifest.length U64_MAX = manifest.length := by
    unfold U64_MAX
    omega
  rw [payloadBytes, hmin, hfold views _ h, Option.getD_some]

/-- The payload of a bundle is a part of its bytes. -/
theorem total_le_length_bundleBytes (codecs : Codecs) (entries : List BundleEntry) :
    (entries.map fun e => e.bytes.length).sum ≤ (bundleBytes codecs entries).length := by
  have hbody : (entries.map fun e => e.bytes.length).sum
      ≤ (entries.flatMap (Bundle.entry codecs)).length := by
    induction entries with
    | nil => exact Nat.zero_le _
    | cons e rest ih =>
      have hentry : e.bytes.length ≤ (Bundle.entry codecs e).length := by
        rw [Bundle.entry, List.length_append]
        omega
      rw [List.map_cons, List.sum_cons, List.flatMap_cons, List.length_append]
      omega
  rw [bundleBytes, List.length_append]
  omega

theorem objectSize_ok {d : Disk} {maximumBytes : UInt64} {id : ObjectId} {sized : ObjectId × Nat}
    (h : objectSize d maximumBytes id = .ok sized) : sized.1 = id ∧ sized.2 < 2 ^ 64 := by
  obtain ⟨⟨size, payload⟩, hopen, h⟩ := Except.bind_eq_ok_iff.mp h
  obtain rfl := Except.ok.inj h
  obtain ⟨content, -, hread⟩ := Except.bind_eq_ok_iff.mp (Except.mapError_eq_ok_iff.mp hopen)
  obtain ⟨-, hread⟩ := ensure_bind_eq_ok_iff.mp hread
  obtain ⟨logicalSize, -, hread⟩ := Except.bind_eq_ok_iff.mp hread
  obtain ⟨hfits, hread⟩ := ensure_bind_eq_ok_iff.mp hread
  obtain ⟨-, hread⟩ := ensure_bind_eq_ok_iff.mp hread
  obtain ⟨-, hread⟩ := ensure_bind_eq_ok_iff.mp hread
  obtain ⟨rfl, -⟩ := Prod.mk.inj (Except.ok.inj hread)
  refine ⟨rfl, ?_⟩
  show logicalSize < 2 ^ 64
  omega

section Passes

variable {codecs : Codecs} {json : ExportJson} {d : Disk} {run : Run} {redactInput : Bool}
  {maximumBytes : UInt64} {snapshots : List Snapshot} {stream : EventStream}
  {sizes : List (ObjectId × Nat)} {plan : BundlePlan} {bytes : Bytes} {c : BundleContents}
  {ids : SortedSet ObjectId} {events : List Event} {lines : List Bytes}

/-- The objects are as long when they are written as when they were measured. -/
theorem Planned.sizes_eq
    (hplan : Planned codecs json d run maximumBytes snapshots stream sizes plan)
    (hwritten : Written codecs plan bytes c) :
    sizes = c.objects.map fun object => (object.1, object.2.length) := by
  have hsizes := List.mapM_eq_ok_iff.mp hplan.measured
  have hids : sizes.map Prod.fst = plan.objectIds := by
    symm
    rw [← List.forall₂_eq_eq_eq, List.forall₂_map_right_iff]
    exact hsizes.imp fun id sized h => (objectSize_ok h).1.symm
  have hnodup : (sizes.map Prod.fst).Nodup := by
    rw [hids, hplan.objectIds]
    exact SortedMap.keys_nodup _
  -- the size of an identifier, as the second pass looks it up
  have hlookup : ∀ sized ∈ sizes, (plan.objectSizes.get? sized.1).getD U64_MAX = sized.2
      ∧ sized.2 < 2 ^ 64 := by
    intro sized hsized
    obtain ⟨id, -, hmeasured⟩ := List.exists_of_mapM_eq_ok hplan.measured hsized
    rw [hplan.objectSizes]
    refine ⟨?_, (objectSize_ok hmeasured).2⟩
    have hget := SortedMap.get?_foldl_insert hnodup SortedMap.empty
      (show (sized.1, sized.2) ∈ sizes from hsized)
    exact congrArg (fun size => size.getD U64_MAX) hget
  have hfirst : sizes
      = (sizes.map Prod.fst).map fun id => (id, (plan.objectSizes.get? id).getD U64_MAX) := by
    rw [List.map_map]
    conv_lhs => rw [← List.map_id sizes]
    exact List.map_congr_left fun sized hsized => Prod.ext rfl (hlookup sized hsized).1.symm
  rw [hfirst, hids, ← hwritten.objectIds, List.map_map]
  refine List.map_congr_left fun object hobject => ?_
  have hmem : object.1 ∈ sizes.map Prod.fst := by
    rw [hids, ← hwritten.objectIds]
    exact List.mem_map_of_mem hobject
  obtain ⟨sized, hsized, hid⟩ := List.mem_map.mp hmem
  obtain ⟨hsize, hlt⟩ := hlookup sized hsized
  rw [hid] at hsize
  have hlength := (hwritten.objects object hobject).2
  rw [hsize, UInt64.toNat_ofNat', Nat.mod_eq_of_lt hlt] at hlength
  exact Prod.ext rfl (hsize.trans hlength.symm)

/-- **The manifest lists the other entries**, as they were written. -/
theorem Planned.views_eq
    (hplan : Planned codecs json d run maximumBytes snapshots stream sizes plan)
    (hstream : Streamed json redactInput run.workspaceRoot ids events lines stream)
    (hwritten : Written codecs plan bytes c) :
    sortViews (plannedViews codecs plan sizes) = c.listed.map (checksumOf codecs) := by
  have hlisted : c.listed.Sublist c.entries := by
    rw [BundleContents.listed, BundleContents.entries]
    exact (List.sublist_append_left _ _).append (List.Sublist.refl _)
  have hascending : (c.listed.map (checksumOf codecs)).Pairwise
      fun view view' => view.path < view'.path := by
    rw [List.pairwise_map]
    exact (hwritten.canonical.pairwise).sublist hlisted
  have hview : ∀ e ∈ c.listed, checksumView codecs e.path e.bytes = checksumOf codecs e := by
    intro e he
    have hfits := (hwritten.canonical.valid e (hlisted.subset he)).2
    have hmin : min e.bytes.length U64_MAX = e.bytes.length := by
      unfold U64_MAX
      omega
    rw [checksumView, checksumOf, hmin]
  refine sortViews_eq ?_ hascending
  obtain ⟨hcheckpoints, -, hrun⟩ := hwritten.same
  obtain ⟨-, hlength, hdigest⟩ := hwritten.events
  have htotal : plan.eventsLength < 2 ^ 64 := by
    rw [hplan.events.2.1, hstream.totalBytes, U64_MAX]
    omega
  rw [UInt64.toNat_ofNat', Nat.mod_eq_of_lt htotal] at hlength
  -- each part of the plan is listed as it was written
  have hobjects : (sizes.map fun (id, size) => (⟨objectPath id, id.hex, size⟩ : ChecksumView))
      = (c.objects.map objectEntry).map (checksumOf codecs) := by
    rw [hplan.sizes_eq hwritten, List.map_map, List.map_map]
    refine List.map_congr_left fun object hobject => ?_
    show (⟨objectPath object.1, object.1.digest.hex, object.2.length⟩ : ChecksumView)
      = ⟨objectPath object.1, (codecs.blake3 object.2).hex, object.2.length⟩
    rw [(hwritten.objects object hobject).1]
  have hsnapshots : plan.snapshots.entries.map (fun entry => checksumView codecs entry.1 entry.2)
      = (c.snapshots.map snapshotEntry).map (checksumOf codecs) := by
    rw [hwritten.snapshots, List.map_map, List.map_map]
    refine List.map_congr_left fun snapshot hsnapshot => ?_
    refine hview (snapshotEntry snapshot) ?_
    exact List.mem_append_right _ (List.mem_append_right _ (List.mem_map_of_mem hsnapshot))
  have hfront := hview ⟨utf8 "checkpoints.json", c.checkpoints, by decide⟩ List.mem_cons_self
  have hback := hview ⟨utf8 "run.json", c.run, by decide⟩ (List.mem_append_right _
    (List.mem_append_left _ (List.mem_append_right _ List.mem_cons_self)))
  rw [hcheckpoints] at hfront
  rw [hrun] at hback
  rw [plannedViews, hobjects, hsnapshots, hfront, hback, ← hlength, ← hdigest, ← hcheckpoints,
    ← hrun, BundleContents.listed, BundleContents.before, BundleContents.after]
  simp only [List.map_append, List.map_cons, List.append_assoc, List.cons_append, List.nil_append]
  refine List.Perm.cons _ (List.Perm.cons _ ?_)
  refine List.Perm.trans ?_ List.perm_append_comm
  exact List.Perm.cons _ (List.Perm.refl _)

/-- The snapshots are those of the plan. -/
theorem Planned.snapshots_eq
    (hplan : Planned codecs json d run maximumBytes snapshots stream sizes plan)
    (hwritten : Written codecs plan bytes c) :
    (∀ entry ∈ c.snapshots, ∃ snapshot ∈ snapshots, snapshot.id = entry.1
        ∧ json.snapshot snapshot = .ok entry.2)
      ∧ ∀ snapshot ∈ snapshots, snapshot.id ∈ c.snapshots.map Prod.fst := by
  obtain ⟨htexts, -, hkeys⟩ := foldlM_snapshotEntries hplan.snapshotTexts
  constructor
  · intro entry hentry
    have hmem : (snapshotPath entry.1, entry.2) ∈ plan.snapshots.entries := by
      rw [hwritten.snapshots]
      exact List.mem_map_of_mem hentry
    rcases htexts _ hmem with hnone | ⟨snapshot, hsnapshot, hpath, htext⟩
    · exact absurd hnone List.not_mem_nil
    · exact ⟨snapshot, hsnapshot, (snapshotPath_injective hpath).symm, htext⟩
  · intro snapshot hsnapshot
    have hkey := hkeys snapshot hsnapshot
    rw [SortedMap.keys, hwritten.snapshots, List.map_map] at hkey
    obtain ⟨entry, hentry, hpath⟩ := List.mem_map.mp hkey
    rw [← snapshotPath_injective hpath]
    exact List.mem_map_of_mem hentry

/-- The lines that were read are not more than were written, where their count was not cut. -/
theorem Planned.events_eq
    (hplan : Planned codecs json d run maximumBytes snapshots stream sizes plan)
    (hstream : Streamed json redactInput run.workspaceRoot ids events lines stream)
    (hwritten : Written codecs plan bytes c) (hsize : c.events.length < 2 ^ 63) :
    c.events = stream.lines := by
  obtain ⟨htaken, hlength, -⟩ := hwritten.events
  have hcount : plan.eventsLength < 2 ^ 64 := by
    rw [hplan.events.2.1, hstream.totalBytes, U64_MAX]
    omega
  rw [hplan.events.1] at htaken
  rw [UInt64.toNat_ofNat', Nat.mod_eq_of_lt hcount, hplan.events.2.1, hstream.totalBytes,
    U64_MAX] at hlength
  refine htaken.eq_of_length ?_
  omega

end Passes

/-- The payload is the manifest and what it lists. -/
theorem BundleContents.total_eq (c : BundleContents) (codecs : Codecs) :
    (c.entries.map fun e => e.bytes.length).sum
      = c.manifest.length + ((c.listed.map (checksumOf codecs)).map ChecksumView.bytes).sum := by
  have hsizes : (c.listed.map (checksumOf codecs)).map ChecksumView.bytes
      = c.listed.map fun e => e.bytes.length := List.map_map
  rw [hsizes, entries, listed]
  simp only [List.map_append, List.sum_append, List.map_cons, List.map_nil, List.sum_cons,
    List.sum_nil]
  omega

/-! ### The objects of a run -/

/-- An exported event refers to the object, or a snapshot of the run does. -/
def ExportsObject (codecs : Codecs) (db : Db) (run : Run) (exported : List Event) (id : ObjectId) :
    Prop :=
  (∃ event ∈ exported, event.objectId? = some id)
    ∨ ∃ snapshot, db.HasSnapshot codecs run snapshot ∧ id ∈ snapshot.objectIds

section Objects

variable {codecs : Codecs} {db : Db} {run : Run}

/-- The snapshots that the query of a run's objects selects are those that the run names. -/
theorem mem_runSnapshotIds (hdb : db.WellFormed) (hrun : loadRun db run.id = .ok run)
    {id : SnapshotId} : id ∈ db.runSnapshotIds run.id ↔ db.namesSnapshot run id := by
  obtain ⟨row, hfind, -, hinitial, hfinal⟩ := loadRun_ok hrun
  have hrow : row ∈ db.runs := Table.mem_of_find RunRow.id hfind
  have hkey : row.id = run.id := Table.find_some_key RunRow.id hfind
  have honly : ∀ other ∈ db.runs, other.id = run.id → other = row := by
    intro other hother hid
    have hsame := Table.find_of_mem RunRow.id hdb.runIds hother
    rw [hid] at hsame
    exact Option.some.inj (hsame.symm.trans hfind)
  have hcolumn : ∀ column : RunRow → Option SnapshotId,
      id ∈ (db.runs.filter fun row => row.id = run.id).filterMap column
        ↔ column row = some id := by
    intro column
    rw [List.mem_filterMap]
    constructor
    · rintro ⟨other, hother, hcolumn⟩
      obtain ⟨hmem, hid⟩ := List.mem_filter.mp hother
      obtain rfl := honly other hmem (of_decide_eq_true hid)
      exact hcolumn
    · intro hcolumn
      exact ⟨row, List.mem_filter.mpr ⟨hrow, decide_eq_true hkey⟩, hcolumn⟩
  rw [Db.runSnapshotIds, List.mem_append, List.mem_append, hcolumn, hcolumn, Db.namesSnapshot,
    hinitial, hfinal, List.mem_map]
  constructor
  · rintro ((⟨checkpoint, hcheckpoint, hid⟩ | hid) | hid)
    · obtain ⟨hmem, hchecked⟩ := List.mem_filter.mp hcheckpoint
      exact Or.inr (Or.inr ⟨checkpoint, hmem, of_decide_eq_true hchecked, hid⟩)
    · exact Or.inl hid
    · exact Or.inr (Or.inl hid)
  · rintro (hid | hid | ⟨checkpoint, hmem, hchecked, hid⟩)
    · exact Or.inl (Or.inr hid)
    · exact Or.inr hid
    · exact Or.inl (Or.inl ⟨checkpoint, List.mem_filter.mpr ⟨hmem, decide_eq_true hchecked⟩, hid⟩)

/-- Without redaction, the exported objects are those that the query of a run's objects selects. -/
theorem exportsObject_iff (hdb : db.WellFormed) (hrun : loadRun db run.id = .ok run)
    (hloaded : ∀ id, db.namesSnapshot run id → ∃ snapshot, db.HasSnapshot codecs run snapshot
      ∧ snapshot.id = id)
    {events : List Event} (hevents : (db.eventsOf run.id).mapM decodeEvent = .ok events)
    {id : ObjectId} :
    ExportsObject codecs db run (events.map (exportedEvent false run.workspaceRoot)) id
      ↔ id ∈ db.runObjectIds run.id := by
  have hevent : (∃ event ∈ events.map (exportedEvent false run.workspaceRoot),
        event.objectId? = some id)
      ↔ id ∈ (db.eventsOf run.id).filterMap fun row => row.payload.reference?.map (·.1) := by
    rw [List.mem_filterMap]
    have hobject : ∀ event, (exportedEvent false run.workspaceRoot event).objectId?
        = event.objectId? := by
      intro event
      rw [exportedEvent, objectId?_sanitizeExportEvent]
      obtain ⟨eventId, runId, sequence, wallClock, offset, schemaVersion, payload⟩ := event
      cases payload <;> rfl
    constructor
    · rintro ⟨exported, hexported, hid⟩
      obtain ⟨event, hmem, rfl⟩ := List.mem_map.mp hexported
      rw [hobject] at hid
      obtain ⟨row, hrow, hdecode⟩ := List.exists_of_mapM_eq_ok hevents hmem
      rw [Event.objectId?, (decodeEvent_ok hdecode).2.2] at hid
      exact ⟨row, hrow, hid⟩
    · rintro ⟨row, hrow, hid⟩
      obtain ⟨event, hmem, hdecode⟩ := List.forall_mem_of_mapM_eq_ok hevents hrow
      refine ⟨_, List.mem_map_of_mem hmem, ?_⟩
      rw [hobject, Event.objectId?, (decodeEvent_ok hdecode).2.2]
      exact hid
  have hsnapshot : (∃ snapshot, db.HasSnapshot codecs run snapshot ∧ id ∈ snapshot.objectIds)
      ↔ id ∈ (db.snapshotEntries.filter fun row =>
        row.snapshotId ∈ db.runSnapshotIds run.id).filterMap (·.objectId) := by
    rw [List.mem_filterMap]
    constructor
    · rintro ⟨snapshot, ⟨hnamed, hload⟩, hid⟩
      obtain ⟨row, hrow, hsame, hobject⟩ := exists_row_of_loadSnapshotFrom hload hid
      refine ⟨row, List.mem_filter.mpr ⟨hrow, decide_eq_true ?_⟩, hobject⟩
      rw [hsame, mem_runSnapshotIds hdb hrun]
      exact hnamed
    · rintro ⟨row, hrow, hobject⟩
      obtain ⟨hmem, hsame⟩ := List.mem_filter.mp hrow
      have hnamed := (mem_runSnapshotIds hdb hrun).mp (of_decide_eq_true hsame)
      obtain ⟨snapshot, hhas, hid⟩ := hloaded _ hnamed
      exact ⟨snapshot, hhas, objectIds_of_loadSnapshotFrom hhas.2 hmem hid.symm hobject⟩
  rw [ExportsObject, Db.runObjectIds, List.mem_dedup, List.mem_append, hevent, hsnapshot, or_comm]

end Objects

/-! ### What an export is -/

/-- The bundle of a run: the exported `events` are the lines of its event stream, `c` is what it has
in it. -/
structure ExportedBundle (codecs : Codecs) (json : ExportJson) (d : Disk) (run : Run)
    (redactInput : Bool) (maximumBytes : UInt64) (report : BundleReport) (bytes : Bytes)
    (events : List Event) (c : BundleContents) : Prop where
  encoded : bytes = bundleBytes codecs c.entries
  ascending : c.entries.Pairwise fun e e' => e.path < e'.path
  declared : c.entries.length = report.entries.toNat
  decoded : ∀ limits : BundleDecodeLimits, c.entries.length ≤ limits.maximumEntries.toNat →
    (∀ e ∈ c.entries, e.bytes.length ≤ limits.maximumEntryBytes.toNat) →
    (c.entries.map fun e => e.bytes.length).sum ≤ limits.maximumTotalBytes.toNat →
    decodeBundle codecs bytes limits = .ok c.entries
  manifest : ∃ manifest : BundleManifest, json.manifest manifest = .ok c.manifest
    ∧ manifest.entries = c.listed.map (checksumOf codecs)
  timeline : ∃ originals, (d.db.eventsOf run.id).mapM decodeEvent = .ok originals
    ∧ events = originals.map (exportedEvent redactInput run.workspaceRoot)
  stream : ∃ lines, List.Forall₂ (fun event line => json.event event = .ok line) events lines
    ∧ c.events = lines.flatMap fun line => line ++ [10]
  checkpoints : ∃ checkpoints, loadCheckpoints d.db run.id = .ok checkpoints
    ∧ json.checkpoints checkpoints = .ok c.checkpoints
  runText : json.run (.ofRun run) = .ok c.run
  snapshotIds : ∀ id, id ∈ c.snapshots.map Prod.fst ↔ d.db.namesSnapshot run id
  snapshots : ∀ entry ∈ c.snapshots, ∃ snapshot, d.db.HasSnapshot codecs run snapshot
    ∧ snapshot.id = entry.1 ∧ json.snapshot snapshot = .ok entry.2
  objectIds : ∀ id, id ∈ c.objects.map Prod.fst ↔ ExportsObject codecs d.db run events id
  objects : ∀ object ∈ c.objects, codecs.blake3 object.2 = object.1.digest
  listing : redactInput = false → ∀ limit : UInt32, limit.toNat ≠ 0 →
    limit.toNat ≤ MAX_OBJECT_PAGE →
    (runObjectPager d.db run.id limit).Visits none (c.objects.map Prod.fst)
  total : report.payloadBytes = (c.entries.map fun e => e.bytes.length).sum
    ∧ report.payloadBytes ≤ maximumBytes.toNat

/-- **Exported bundles.**  An export of a run of a reachable store that returns `Ok` has written a
bundle with its entries in the order of their paths and as many as it declares; the decoder accepts
it; its manifest lists the path, length and digest of every other entry; its objects are those that
the exported events and the snapshots of the run refer to, and without redaction those that the
store lists for the run; and it has no more payload than was allowed.  The file that is written to
is empty at first, and as long as a signed offset can say. -/
theorem export_valid {W : Type} [Write W] (received : Received W) (files : ExportFiles W)
    (codecs : Codecs) (json : ExportJson) {d : Disk} (hd : d.Reachable codecs) {run : Run}
    (hrun : loadRun d.db run.id = .ok run) (htemporary : received.bytes files.temporary = [])
    {output : Option Bytes} {redactInput : Bool} {maximumBytes : UInt64} {report : BundleReport}
    {file : W} (hsize : (received.bytes file).length < 2 ^ 63)
    (h : exportBundle files codecs json d run output redactInput maximumBytes
      = .ok (report, file)) :
    ∃ events c, ExportedBundle codecs json d run redactInput maximumBytes report
      (received.bytes file) events c := by
  obtain ⟨plan, hmade, h⟩ := Except.bind_eq_ok_iff.mp h
  obtain ⟨written, hwrite, h⟩ := Except.bind_eq_ok_iff.mp h
  obtain ⟨rfl, rfl⟩ := Prod.mk.inj (Except.ok.inj h)
  have hdb := wellFormed_reachable hd
  obtain ⟨snapshots, stream, sizes, hstream, hplan⟩ := planBundle_ok hmade
  obtain ⟨originals, lines, horiginals, hstream⟩ := streamExportEvents_ok hdb hstream
  obtain ⟨checkpoints, hcheckpoints, hcheckpointsText, hsnapshots⟩ := hplan.loaded
  obtain ⟨hhas, hnamed⟩ := exportedSnapshots_ok hcheckpoints hsnapshots
  obtain ⟨htexts, -, -⟩ := foldlM_snapshotEntries hplan.snapshotTexts
  replace htexts : ∀ entry ∈ plan.snapshots.entries, SnapshotText json snapshots entry :=
    fun entry hentry => (htexts entry hentry).resolve_left List.not_mem_nil
  obtain ⟨c, hwritten⟩ := writeBundleFile_ok received htemporary (fun entry hentry => by
    obtain ⟨snapshot, -, hpath, -⟩ := htexts entry hentry
    exact ⟨snapshot.id, hpath⟩) hwrite
  have hviews := hplan.views_eq hstream hwritten
  obtain ⟨hwrote, hall⟩ := hplan.snapshots_eq hwritten
  have hloaded : ∀ id, d.db.namesSnapshot run id → ∃ snapshot,
      d.db.HasSnapshot codecs run snapshot ∧ snapshot.id = id := by
    intro id hid
    obtain ⟨snapshot, hsnapshot, hsame⟩ := hnamed id hid
    exact ⟨snapshot, (hhas snapshot).mp hsnapshot, hsame⟩
  have htotal := total_le_length_bundleBytes codecs c.entries
  have hbytes := hwritten.bytes
  rw [hbytes] at hsize
  have hevents : c.events = stream.lines := by
    refine hplan.events_eq hstream hwritten ?_
    have hmem : (⟨utf8 "events.ndjson", c.events, by decide⟩ : BundleEntry) ∈ c.entries :=
      List.mem_append_left _ (List.mem_append_left _ (List.mem_cons_of_mem _ List.mem_cons_self))
    have hentry : c.events.length ≤ (c.entries.map fun e => e.bytes.length).sum :=
      List.single_le_sum (fun _ _ => Nat.zero_le _) _ (List.mem_map.mpr ⟨_, hmem, rfl⟩)
    omega
  have hobjectIds : ∀ id, id ∈ c.objects.map Prod.fst ↔ ExportsObject codecs d.db run
      (originals.map (exportedEvent redactInput run.workspaceRoot)) id := by
    intro id
    rw [hwritten.objectIds, hplan.objectIds, hstream.objectIds, SortedSet.mem_ofList,
      List.mem_flatMap, ExportsObject, or_comm]
    refine or_congr ?_ ?_
    · constructor
      · rintro ⟨event, hevent, hid⟩
        exact ⟨_, List.mem_map_of_mem hevent, hid⟩
      · rintro ⟨exported, hexported, hid⟩
        obtain ⟨event, hevent, rfl⟩ := List.mem_map.mp hexported
        exact ⟨event, hevent, hid⟩
    · simp only [hhas]
  have hsum := c.total_eq codecs
  have hpayload : plan.payloadBytes = (c.entries.map fun e => e.bytes.length).sum := by
    rw [hplan.payload.1, hviews, ← hwritten.same.2.1, payloadBytes_eq (by omega), hsum]
  refine ⟨originals.map (exportedEvent redactInput run.workspaceRoot), c, ?_⟩
  exact {
    encoded := hbytes
    ascending := hwritten.canonical.pairwise
    declared := hwritten.count
    decoded := fun limits hcount hentry hlimit => by
      rw [hbytes]
      exact decodeBundle_bundleBytes hwritten.canonical ⟨hcount, hentry, hlimit, by omega⟩
    manifest := by
      obtain ⟨manifest, htext, hentries⟩ := hplan.manifest
      rw [hwritten.same.2.1]
      exact ⟨manifest, htext, hentries.trans hviews⟩
    timeline := ⟨originals, horiginals, rfl⟩
    stream := ⟨lines, List.forall₂_map_left_iff.mpr hstream.line, hevents.trans hstream.lines⟩
    checkpoints := ⟨checkpoints, hcheckpoints, by rw [hwritten.same.1]; exact hcheckpointsText⟩
    runText := by rw [hwritten.same.2.2]; exact hplan.runText
    snapshotIds := fun id => by
      constructor
      · intro hid
        obtain ⟨entry, hentry, rfl⟩ := List.mem_map.mp hid
        obtain ⟨snapshot, hsnapshot, hsame, -⟩ := hwrote entry hentry
        rw [← hsame]
        exact ((hhas snapshot).mp hsnapshot).1
      · intro hid
        obtain ⟨snapshot, hsnapshot, rfl⟩ := hnamed id hid
        exact hall snapshot hsnapshot
    snapshots := fun entry hentry => by
      obtain ⟨snapshot, hsnapshot, hsame, htext⟩ := hwrote entry hentry
      exact ⟨snapshot, (hhas snapshot).mp hsnapshot, hsame, htext⟩
    objectIds := hobjectIds
    objects := fun object hobject => (hwritten.objects object hobject).1
    listing := fun hredact limit hpositive hlimit => by
      subst hredact
      refine visits_runObjectIds ?_ (fun id => ?_) ⟨hpositive, hlimit⟩
      · rw [hwritten.objectIds, hplan.objectIds]
        exact SortedSet.toList_pairwise _
      · rw [hobjectIds, exportsObject_iff hdb hrun hloaded horiginals]
    total := ⟨hpayload, hplan.payload.2⟩ }

namespace Sample

/-- No step fails. -/
def steady : FaultPlan where
  fault _ := .none
  written _ := 0
  pid _ := 7
  sequence _ := 0

theorem quiet_createRun : (Op.createRun run).touchesIndex = false := rfl

theorem quiet_appendOutput :
    (Op.appendEventBatch [event 0 (.terminalOutput ⟨⟨1⟩⟩ outputId 1)]).touchesIndex = false := rfl

/-- A run from an empty workspace that prints one chunk and is completed. -/
def printedRun : Disk :=
  Machine.run (diskStep steady codecs) Disk.empty
    [.putObject output 0,
     .transaction (.createRun run) quiet_createRun,
     .transaction (.storeSnapshot emptySnapshot ⟨0⟩) rfl,
     .transaction (.markRunRunning runId emptySnapshot.id) rfl,
     .transaction (.appendEventBatch [event 0 (.terminalOutput ⟨⟨1⟩⟩ outputId 1)])
      quiet_appendOutput,
     .transaction (.finishRun runId (finish .completed none)) rfl]

/-- The run as it is loaded afterwards. -/
def completedRun : Run :=
  { run with
    finishedAt := some ⟨1⟩
    monotonicDuration := some ⟨1⟩
    status := .completed
    initialSnapshot := some emptySnapshot.id }

theorem printedRun_reachable : printedRun.Reachable codecs := ⟨steady, _, rfl⟩

end Sample

theorem export_valid_sample :
    ∃ report file, exportBundle Sample.exportFiles Sample.codecs Sample.json Sample.printedRun
        Sample.completedRun none false 100000 = .ok (report, file)
      ∧ ∃ events c, ExportedBundle Sample.codecs Sample.json Sample.printedRun Sample.completedRun
        false 100000 report (Sample.bundleVec.bytes file) events c := by
  have hrun : loadRun Sample.printedRun.db Sample.completedRun.id = .ok Sample.completedRun := by
    decide +kernel
  have hlength : ((exportBundle Sample.exportFiles Sample.codecs Sample.json Sample.printedRun
      Sample.completedRun none false 100000).map fun result => result.2.length).toOption
        = some 1086 := by
    decide +kernel
  rcases hexport : exportBundle Sample.exportFiles Sample.codecs Sample.json Sample.printedRun
      Sample.completedRun none false 100000 with error | ⟨report, file⟩
  · rw [hexport] at hlength
    exact nomatch hlength
  · rw [hexport] at hlength
    have hsize : file.length = 1086 := Option.some.inj hlength
    refine ⟨report, file, rfl, ?_⟩
    exact export_valid Sample.bundleVec Sample.exportFiles Sample.codecs Sample.json
      Sample.printedRun_reachable hrun rfl (by show file.length < 2 ^ 63; omega) hexport

end Rewind

/-
References to objects, and the files they need.

Snapshot entries and terminal events refer to objects.  What an operation of the writer
refers to is known before it runs, and the database holds exactly that much more when it
has succeeded (`Op.refers_exec`).  A reference needs a row and a file; the row is always
there (`Indexed`), and the file unless a deletion was cut off between its file and its row.

* `Db.refers`, `Op.references` — what is referred to, and what an operation will refer to;
* `Sound` — files at object paths hold objects, and what is referred to is indexed;
* **`references_backed_iff`** — over every run of the store, with faults and crashes at any
  step, every reference has its object exactly if no operation commits one to a hollow row.
-/
import Rewind.Store.Disk

namespace Rewind

open Call

/-! ### References in the database -/

/-- The object a terminal event refers to. -/
def Event.objectId? (event : Event) : Option ObjectId := event.payload.reference?.map (·.1)

/-- The objects of the files of a snapshot. -/
def Snapshot.objectIds (snapshot : Snapshot) : List ObjectId :=
  snapshot.manifest.entries.filterMap fun entry => (entryRow snapshot.id entry).objectId

/-- Some durable record refers to the object. -/
def Db.refers (db : Db) (id : ObjectId) : Prop := objectIsReferenced db id = true

/-- What is referred to is indexed. -/
def Db.Indexed (db : Db) : Prop := ∀ id, db.refers id → (db.object? id).isSome

theorem refers_iff {db : Db} {id : ObjectId} :
    db.refers id ↔ (∃ row ∈ db.snapshotEntries, row.objectId = some id)
      ∨ (∃ row ∈ db.terminalChunks, row.objectId = id)
      ∨ ∃ row ∈ db.events, row.payload.reference?.map (·.1) = some id := by
  simp only [Db.refers, objectIsReferenced, Bool.or_eq_true, List.any_eq_true, decide_eq_true_eq,
    or_assoc]

theorem refers_congr {db db' : Db} (hentries : db'.snapshotEntries = db.snapshotEntries)
    (hchunks : db'.terminalChunks = db.terminalChunks) (hevents : db'.events = db.events)
    (id : ObjectId) : db'.refers id ↔ db.refers id := by
  rw [refers_iff, refers_iff, hentries, hchunks, hevents]

theorem mem_terminalChunkRow? {event : Event} {row : TerminalChunkRow}
    (h : terminalChunkRow? event = some row) : event.objectId? = some row.objectId := by
  unfold terminalChunkRow? at h
  unfold Event.objectId? EventPayload.reference?
  cases hpayload : event.payload <;> rw [hpayload] at h <;> simp_all
  rw [← h]

theorem refers_withEvents (db : Db) (events : List Event) (id : ObjectId) :
    (db.withEvents events).refers id ↔ db.refers id ∨ id ∈ events.filterMap Event.objectId? := by
  rw [refers_iff, refers_iff, List.mem_filterMap]
  simp only [Db.withEvents, List.mem_append, List.mem_filterMap, List.mem_map]
  constructor
  · rintro (hentry | ⟨row, hrow | ⟨event, hevent, hchunk⟩, hid⟩ | ⟨row,
      hrow | ⟨event, hevent, hrow⟩, hid⟩)
    · exact Or.inl (Or.inl hentry)
    · exact Or.inl (Or.inr (Or.inl ⟨row, hrow, hid⟩))
    · exact Or.inr ⟨event, hevent, hid ▸ mem_terminalChunkRow? hchunk⟩
    · exact Or.inl (Or.inr (Or.inr ⟨row, hrow, hid⟩))
    · subst hrow
      exact Or.inr ⟨event, hevent, hid⟩
  · rintro ((hentry | ⟨row, hrow, hid⟩ | ⟨row, hrow, hid⟩) | ⟨event, hevent, hid⟩)
    · exact Or.inl hentry
    · exact Or.inr (Or.inl ⟨row, Or.inl hrow, hid⟩)
    · exact Or.inr (Or.inr ⟨row, Or.inl hrow, hid⟩)
    · exact Or.inr (Or.inr ⟨eventRow event, Or.inr ⟨event, hevent, rfl⟩, hid⟩)

/-- The row of an entry names the object of its file. -/
theorem objectId_entryRow {snapshotId : SnapshotId} {entry : SnapshotEntry} {id : ObjectId} :
    (entryRow snapshotId entry).objectId = some id
      ↔ ∃ size executable, entry.kind = .file id size executable := by
  unfold entryRow
  cases entry.kind <;> simp

/-- The columns of a file name its object. -/
theorem decodeEntryKind_file {row : SnapshotEntryRow} {id : ObjectId} {size : UInt64}
    {executable : Bool} (h : decodeEntryKind row = some (.file id size executable)) :
    row.objectId = some id := by
  unfold decodeEntryKind at h
  split at h <;> simp_all

theorem decodeEntry_objectId {snapshotId snapshotId' : SnapshotId} {row : SnapshotEntryRow}
    {entry : SnapshotEntry} (h : decodeEntry snapshotId row = .ok entry) {id : ObjectId}
    (hid : (entryRow snapshotId' entry).objectId = some id) : row.objectId = some id := by
  obtain ⟨size, executable, hkind⟩ := objectId_entryRow.mp hid
  obtain ⟨permissions, -, h⟩ := Except.bind_eq_ok_iff.mp h
  obtain ⟨kind, hdecode, h⟩ := Except.bind_eq_ok_iff.mp h
  rcases hrow : decodeEntryKind row with _ | kind'
  · rw [hrow] at hdecode
    exact absurd hdecode (by simp)
  · rw [hrow] at hdecode
    obtain rfl : kind' = kind := Except.ok.inj hdecode
    by_cases hutf8 : validUtf8 row.path = true
    · rw [dif_pos hutf8] at h
      obtain ⟨path, -, h⟩ := Except.bind_eq_ok_iff.mp h
      obtain rfl := Except.ok.inj h
      exact decodeEntryKind_file (hrow.trans (congrArg some hkind))
    · rw [dif_neg hutf8] at h
      exact absurd h (by simp)

/-- The objects of a snapshot that loads are those of its rows. -/
theorem exists_row_of_loadSnapshotFrom {codecs : Codecs} {db : Db} {snapshotId : SnapshotId}
    {snapshot : Snapshot} (h : loadSnapshotFrom codecs db snapshotId = .ok snapshot)
    {id : ObjectId} (hid : id ∈ snapshot.objectIds) :
    ∃ row ∈ db.snapshotEntries, row.snapshotId = snapshotId ∧ row.objectId = some id := by
  unfold loadSnapshotFrom at h
  obtain ⟨metadata, -, h⟩ := Except.bind_eq_ok_iff.mp h
  obtain ⟨entries, hentries, h⟩ := Except.bind_eq_ok_iff.mp h
  obtain ⟨total, -, h⟩ := Except.bind_eq_ok_iff.mp h
  obtain ⟨total', -, h⟩ := Except.bind_eq_ok_iff.mp h
  obtain ⟨-, h⟩ := ensure_bind_eq_ok_iff.mp h
  obtain ⟨manifest, hmanifest, h⟩ := Except.bind_eq_ok_iff.mp h
  obtain ⟨_, -, h⟩ := Except.bind_eq_ok_iff.mp h
  obtain rfl := Except.ok.inj h
  obtain ⟨entry, hentry, hobject⟩ := List.mem_filterMap.mp hid
  have hcanonical := SnapshotManifest.entries_of_fromCanonicalEntries
    (Except.mapError_eq_ok_iff.mp hmanifest)
  obtain ⟨row, hrow, hdecode⟩ := List.exists_of_mapM_eq_ok hentries (hcanonical ▸ hentry)
  rw [Db.entriesOf, List.mem_insertionSort] at hrow
  obtain ⟨hmem, hsnapshot⟩ := List.mem_filter.mp hrow
  exact ⟨row, hmem, of_decide_eq_true hsnapshot, decodeEntry_objectId hdecode hobject⟩

theorem refers_of_loadSnapshotFrom {codecs : Codecs} {db : Db} {snapshotId : SnapshotId}
    {snapshot : Snapshot} (h : loadSnapshotFrom codecs db snapshotId = .ok snapshot)
    {id : ObjectId} (hid : id ∈ snapshot.objectIds) : db.refers id := by
  obtain ⟨row, hrow, -, hobject⟩ := exists_row_of_loadSnapshotFrom h hid
  exact refers_iff.mpr (Or.inl ⟨row, hrow, hobject⟩)

/-- A snapshot is loaded under its identifier. -/
theorem id_of_loadSnapshotFrom {codecs : Codecs} {db : Db} {snapshotId : SnapshotId}
    {snapshot : Snapshot} (h : loadSnapshotFrom codecs db snapshotId = .ok snapshot) :
    snapshot.id = snapshotId := by
  unfold loadSnapshotFrom at h
  obtain ⟨metadata, -, h⟩ := Except.bind_eq_ok_iff.mp h
  obtain ⟨entries, -, h⟩ := Except.bind_eq_ok_iff.mp h
  obtain ⟨total, -, h⟩ := Except.bind_eq_ok_iff.mp h
  obtain ⟨total', -, h⟩ := Except.bind_eq_ok_iff.mp h
  obtain ⟨-, h⟩ := ensure_bind_eq_ok_iff.mp h
  obtain ⟨manifest, -, h⟩ := Except.bind_eq_ok_iff.mp h
  obtain ⟨_, -, h⟩ := Except.bind_eq_ok_iff.mp h
  obtain rfl := Except.ok.inj h
  rfl

theorem decodeEntryKind_objectId {row : SnapshotEntryRow} {kind : SnapshotEntryKind} {id : ObjectId}
    (h : decodeEntryKind row = some kind) (hid : row.objectId = some id) :
    ∃ size executable, kind = .file id size executable := by
  unfold decodeEntryKind at h
  rw [hid] at h
  split at h
  case h_2 hobject _ =>
    obtain rfl := Option.some.inj hobject
    exact ⟨_, _, (Option.some.inj h).symm⟩
  all_goals simp_all

/-- The object of a row is the one of the entry it decodes to. -/
theorem objectId_of_decodeEntry {snapshotId : SnapshotId} {row : SnapshotEntryRow}
    {entry : SnapshotEntry} (h : decodeEntry snapshotId row = .ok entry) {id : ObjectId}
    (hid : row.objectId = some id) : ∃ size executable, entry.kind = .file id size executable := by
  obtain ⟨permissions, -, h⟩ := Except.bind_eq_ok_iff.mp h
  obtain ⟨kind, hdecode, h⟩ := Except.bind_eq_ok_iff.mp h
  rcases hrow : decodeEntryKind row with _ | kind'
  · rw [hrow] at hdecode
    exact absurd hdecode (by simp)
  · rw [hrow] at hdecode
    obtain rfl : kind' = kind := Except.ok.inj hdecode
    by_cases hutf8 : validUtf8 row.path = true
    · rw [dif_pos hutf8] at h
      obtain ⟨path, -, h⟩ := Except.bind_eq_ok_iff.mp h
      obtain rfl := Except.ok.inj h
      exact decodeEntryKind_objectId hrow hid
    · rw [dif_neg hutf8] at h
      exact absurd h (by simp)

/-- The rows of a snapshot that loads refer to its objects only. -/
theorem objectIds_of_loadSnapshotFrom {codecs : Codecs} {db : Db} {snapshotId : SnapshotId}
    {snapshot : Snapshot} (h : loadSnapshotFrom codecs db snapshotId = .ok snapshot)
    {row : SnapshotEntryRow} (hrow : row ∈ db.snapshotEntries)
      (hsnapshot : row.snapshotId = snapshotId)
    {id : ObjectId} (hid : row.objectId = some id) : id ∈ snapshot.objectIds := by
  unfold loadSnapshotFrom at h
  obtain ⟨metadata, -, h⟩ := Except.bind_eq_ok_iff.mp h
  obtain ⟨entries, hentries, h⟩ := Except.bind_eq_ok_iff.mp h
  obtain ⟨total, -, h⟩ := Except.bind_eq_ok_iff.mp h
  obtain ⟨total', -, h⟩ := Except.bind_eq_ok_iff.mp h
  obtain ⟨-, h⟩ := ensure_bind_eq_ok_iff.mp h
  obtain ⟨manifest, hmanifest, h⟩ := Except.bind_eq_ok_iff.mp h
  obtain ⟨_, -, h⟩ := Except.bind_eq_ok_iff.mp h
  obtain rfl := Except.ok.inj h
  have hcanonical := SnapshotManifest.entries_of_fromCanonicalEntries
    (Except.mapError_eq_ok_iff.mp hmanifest)
  have hmem : row ∈ db.entriesOf snapshotId := by
    rw [Db.entriesOf, List.mem_insertionSort]
    exact List.mem_filter.mpr ⟨hrow, decide_eq_true hsnapshot⟩
  obtain ⟨entry, hentry, hdecode⟩ := List.forall_mem_of_mapM_eq_ok hentries hmem
  refine List.mem_filterMap.mpr ⟨entry, hcanonical ▸ hentry, ?_⟩
  exact objectId_entryRow.mpr (objectId_of_decodeEntry hdecode hid)

/-! ### The statements -/

/-- The objects of the references a statement has added, `ids`, are indexed. -/
structure AddsReferences (db db' : Db) (ids : List ObjectId) : Prop where
  objects : db'.objects = db.objects
  refers : ∀ id, db'.refers id ↔ db.refers id ∨ id ∈ ids
  indexed : ∀ id ∈ ids, db.refers id ∨ (db.object? id).isSome

theorem AddsReferences.of_eq {db db' : Db} (hobjects : db'.objects = db.objects)
    (hentries : db'.snapshotEntries = db.snapshotEntries)
    (hchunks : db'.terminalChunks = db.terminalChunks) (hevents : db'.events = db.events) :
    AddsReferences db db' [] where
  objects := hobjects
  refers id := by
    rw [refers_congr hentries hchunks hevents]
    simp
  indexed := by simp

theorem AddsReferences.trans {db₁ db₂ db₃ : Db} {ids ids' : List ObjectId}
    (h₁₂ : AddsReferences db₁ db₂ ids) (h₂₃ : AddsReferences db₂ db₃ ids') :
    AddsReferences db₁ db₃ (ids ++ ids') where
  objects := h₂₃.objects.trans h₁₂.objects
  refers id := by
    rw [h₂₃.refers, h₁₂.refers, List.mem_append, or_assoc]
  indexed := by
    intro id hid
    rcases List.mem_append.mp hid with hid | hid
    · exact h₁₂.indexed id hid
    · rcases h₂₃.indexed id hid with hrefers | hindexed
      · rcases (h₁₂.refers id).mp hrefers with hrefers | hid
        · exact Or.inl hrefers
        · exact h₁₂.indexed id hid
      · rw [Db.object?, h₁₂.objects] at hindexed
        exact Or.inr hindexed

/-- What a statement adds is indexed, so the references stay indexed. -/
theorem AddsReferences.keepsIndexed {db db' : Db} {ids : List ObjectId}
    (hadds : AddsReferences db db' ids) (h : db.Indexed) : db'.Indexed := by
  intro id hid
  rw [Db.object?, hadds.objects]
  rcases (hadds.refers id).mp hid with hrefers | hid
  · exact h id hrefers
  · rcases hadds.indexed id hid with hrefers | hrow
    · exact h id hrefers
    · exact hrow

/-- The index without the row of an object. -/
def Db.withoutObject (db : Db) (id : ObjectId) : Db :=
  { db with objects := db.objects.filter fun row => row.id ≠ id }

theorem refers_withoutObject (db : Db) (id id' : ObjectId) :
    (db.withoutObject id).refers id' ↔ db.refers id' := refers_congr rfl rfl rfl id'

/-- The row of an object that nothing refers to may go. -/
theorem Db.Indexed.withoutObject {db : Db} (h : db.Indexed) {id : ObjectId}
    (hid : ¬ db.refers id) : (db.withoutObject id).Indexed := by
  intro id' hid'
  have hold := (refers_withoutObject db id id').mp hid'
  have hmem := (Table.find_isSome_iff ObjectRow.id).mp (h id' hold)
  obtain ⟨row, hrow, hkey⟩ := List.mem_map.mp hmem
  refine (Table.find_isSome_iff ObjectRow.id).mpr (List.mem_map.mpr ⟨row, ?_, hkey⟩)
  refine List.mem_filter.mpr ⟨hrow, decide_eq_true fun heq => hid ?_⟩
  rw [← heq, hkey]
  exact hold

theorem addsReferences_append {db db' : Db} {events : List Event}
    (h : appendEventBatchIn db events = .ok db') :
    AddsReferences db db' (events.filterMap Event.objectId?) := by
  obtain ⟨rfl, hfits⟩ := appendEventBatchIn_ok h
  refine ⟨rfl, refers_withEvents db events, fun id hid => Or.inr ?_⟩
  obtain ⟨event, hevent, hobject⟩ := List.mem_filterMap.mp hid
  obtain ⟨first, rest, rfl⟩ := List.exists_cons_of_ne_nil (List.ne_nil_of_mem hevent)
  obtain ⟨⟨objectId, byteLen⟩, href, rfl⟩ := Option.map_eq_some_iff.mp hobject
  obtain ⟨row, hrow, -⟩ := (hfits first rfl).references event hevent objectId byteLen href
  rw [hrow]
  rfl

theorem addsReferences_storeSnapshot {codecs : Codecs} {db db' : Db} {snapshot : Snapshot}
    {createdAt : Timestamp} (h : storeSnapshotIn codecs db snapshot createdAt = .ok db') :
    AddsReferences db db' snapshot.objectIds := by
  rcases storeSnapshotIn_ok h with ⟨rfl, hload⟩ | ⟨-, hobjects, total, rfl⟩
  · refine ⟨rfl, fun id => ⟨Or.inl, ?_⟩, fun id hid => ?_⟩
    · rintro (hrefers | hid)
      · exact hrefers
      · exact refers_of_loadSnapshotFrom hload hid
    · exact Or.inl (refers_of_loadSnapshotFrom hload hid)
  · refine ⟨rfl, fun id => ?_, fun id hid => Or.inr ?_⟩
    · rw [refers_iff, refers_iff, Snapshot.objectIds, List.mem_filterMap]
      simp only [List.mem_append, List.mem_map]
      constructor
      · rintro (⟨row, hrow | ⟨entry, hentry, rfl⟩, hid⟩ | hrest)
        · exact Or.inl (Or.inl ⟨row, hrow, hid⟩)
        · exact Or.inr ⟨entry, hentry, hid⟩
        · exact Or.inl (Or.inr hrest)
      · rintro ((⟨row, hrow, hid⟩ | hrest) | ⟨entry, hentry, hid⟩)
        · exact Or.inl ⟨row, Or.inl hrow, hid⟩
        · exact Or.inr hrest
        · exact Or.inl ⟨entryRow snapshot.id entry, Or.inr ⟨entry, hentry, rfl⟩, hid⟩
    · obtain ⟨entry, hentry, hobject⟩ := List.mem_filterMap.mp hid
      exact hobjects entry hentry id hobject

theorem addsReferences_checkpoint {codecs : Codecs} {db db' : Db} {checkpoint : Checkpoint}
    {snapshot : Snapshot} (h : commitCheckpointIn codecs db checkpoint snapshot = .ok db') :
    AddsReferences db db' snapshot.objectIds := by
  obtain ⟨db₁, hstore, -, -, -, rfl⟩ := commitCheckpointIn_ok h
  obtain ⟨hobjects, hrefers, hindexed⟩ := addsReferences_storeSnapshot hstore
  refine ⟨hobjects, fun id => ?_, hindexed⟩
  rw [refers_congr rfl rfl rfl]
  exact hrefers id

/-- What an operation of the writer refers to. -/
def Op.references : Op → List ObjectId
  | .appendEventBatch events | .finishRunWithEvents _ _ events => events.filterMap Event.objectId?
  | .storeSnapshot snapshot _ | .commitCheckpoint _ snapshot => snapshot.objectIds
  | .commitCheckpointWithEvent _ snapshot event =>
    snapshot.objectIds ++ [event].filterMap Event.objectId?
  | _ => []

/-- **What an operation refers to** is what the database refers to more when it has succeeded. -/
theorem Op.addsReferences {codecs : Codecs} {db db' : Db} {op : Op}
    (h : op.exec codecs db = .ok db') (hop : op.touchesIndex = false) :
    AddsReferences db db' op.references := by
  cases op with
  | createRun run =>
    obtain ⟨-, -, -, runArguments, runParents, rfl⟩ := createRun_ok h
    exact AddsReferences.of_eq rfl rfl rfl rfl
  | markRunRunning runId initialSnapshot =>
    obtain ⟨-, rfl⟩ := markRunRunning_ok h
    exact AddsReferences.of_eq rfl rfl rfl rfl
  | appendEventBatch events => exact addsReferences_append h
  | storeSnapshot snapshot createdAt => exact addsReferences_storeSnapshot (storeSnapshot_ok h).2
  | commitCheckpoint checkpoint snapshot =>
    exact addsReferences_checkpoint (commitCheckpoint_ok h).2
  | commitCheckpointWithEvent checkpoint snapshot event =>
    obtain ⟨-, -, db₁, hcommit, happend⟩ := commitCheckpointWithEvent_ok h
    exact (addsReferences_checkpoint hcommit).trans (addsReferences_append happend)
  | finishRun runId finish =>
    obtain ⟨-, -, rfl⟩ := finishRunIn_ok h
    exact AddsReferences.of_eq rfl rfl rfl rfl
  | finishRunWithEvents runId finish events =>
    obtain ⟨_, _, db₁, -, -, -, happend, hfinish⟩ := finishRunWithEvents_ok h
    obtain ⟨-, -, rfl⟩ := finishRunIn_ok hfinish
    obtain ⟨hobjects, hrefers, hindexed⟩ := addsReferences_append happend
    refine ⟨hobjects, fun id => ?_, hindexed⟩
    rw [refers_congr rfl rfl rfl]
    exact hrefers id
  | markInterruptedRuns recoveredAt =>
    rcases hrecover : Rewind.markInterruptedRuns db recoveredAt with error | ⟨db₁, runIds⟩
    · rw [Op.exec, hrecover] at h
      exact absurd h (by simp [Except.map])
    · rw [Op.exec, hrecover] at h
      obtain rfl := Except.ok.inj h
      obtain ⟨-, warnings, rfl⟩ := markInterruptedRuns_ok hrecover
      exact AddsReferences.of_eq rfl rfl rfl rfl
  | recordObject stored createdUnixMs => exact absurd hop (by simp [Op.touchesIndex])
  | deleteObject id => exact absurd hop (by simp [Op.touchesIndex])

/-! ### Objects on the disk -/

/-- The file at the object's path holds a payload with the object's digest. -/
def HoldsObject (codecs : Codecs) (files : Files) (id : ObjectId) : Prop :=
  ∃ content payload, files.node? (pathFor id) = some (.file content)
    ∧ decode content = .ok payload ∧ ObjectId.digestOf codecs payload = id

/-- Every object that is referred to is indexed, and its file holds it. -/
def ReferencesBacked (codecs : Codecs) (d : Disk) : Prop :=
  ∀ id, d.db.refers id → (d.db.object? id).isSome ∧ HoldsObject codecs d.files id

/-- What is at an object's path holds the object. -/
def FilesSound (codecs : Codecs) (files : Files) : Prop :=
  ∀ id, (files.node? (pathFor id)).isSome → HoldsObject codecs files id

/-- What holds of every disk, whatever has failed on it. -/
structure Sound (codecs : Codecs) (d : Disk) : Prop where
  files : FilesSound codecs d.files
  indexed : d.db.Indexed

/-- The object is indexed and its file is gone. -/
def Hollow (d : Disk) (id : ObjectId) : Prop :=
  (d.db.object? id).isSome ∧ d.files.node? (pathFor id) = none

instance (d : Disk) (id : ObjectId) : Decidable (Hollow d id) := inferInstanceAs (Decidable (_ ∧ _))

section Files

variable {codecs : Codecs} {files files' : Files} {id : ObjectId}

/-- The files at object paths are the same. -/
def SameObjects (files files' : Files) : Prop :=
  ∀ id, files'.node? (pathFor id) = files.node? (pathFor id)

theorem HoldsObject.congr (h : HoldsObject codecs files id)
    (hsame : files'.node? (pathFor id) = files.node? (pathFor id)) :
    HoldsObject codecs files' id := by
  obtain ⟨content, payload, hnode, hpayload⟩ := h
  exact ⟨content, payload, hsame.trans hnode, hpayload⟩

theorem FilesSound.congr (h : FilesSound codecs files) (hsame : SameObjects files files') :
    FilesSound codecs files' := by
  intro id hid
  rw [hsame id] at hid
  exact (h id hid).congr (hsame id)

/-- A temporary path. -/
def IsTemporary (path : ObjectPath) : Prop :=
  ∃ directory pid sequence, path = ⟨directory, temporaryName pid sequence⟩

theorem IsTemporary.ne_pathFor {path : ObjectPath} (h : IsTemporary path) (id : ObjectId) :
    path ≠ pathFor id := by
  obtain ⟨directory, pid, sequence, rfl⟩ := h
  exact (pathFor_ne_temporary id directory pid sequence).symm

theorem sameObjects_create {path : ObjectPath} (h : IsTemporary path) (node : Node) :
    SameObjects files (files.create path node) := by
  intro id
  rw [Files.node?_create, if_neg (h.ne_pathFor id)]
  simp

theorem sameObjects_write {path : ObjectPath} (h : IsTemporary path) (content : Bytes) :
    SameObjects files (files.write path content) := by
  intro id
  rw [Files.node?_write, if_neg (h.ne_pathFor id)]

theorem sameObjects_remove {path : ObjectPath} (h : IsTemporary path) :
    SameObjects files (files.remove path) := by
  intro id
  rw [Files.node?_remove, if_neg (h.ne_pathFor id)]

/-- Publishing an object under its own path. -/
theorem holdsObject_create {content payload : Bytes} (hnew : files.node? (pathFor id) = none)
    (hdecode : decode content = .ok payload) (hdigest : ObjectId.digestOf codecs payload = id) :
    HoldsObject codecs (files.create (pathFor id) (.file content)) id := by
  refine ⟨content, payload, ?_, hdecode, hdigest⟩
  rw [Files.node?_create, hnew, if_pos rfl]
  rfl

theorem holdsObject_create_of_holds {path : ObjectPath} {node : Node}
    (h : HoldsObject codecs files id) : HoldsObject codecs (files.create path node) id := by
  obtain ⟨content, payload, hnode, hpayload⟩ := h
  refine ⟨content, payload, ?_, hpayload⟩
  rw [Files.node?_create, hnode]
  rfl

theorem holdsObject_remove {path : ObjectPath} (h : HoldsObject codecs files id)
    (hpath : path ≠ pathFor id) : HoldsObject codecs (files.remove path) id := by
  refine h.congr ?_
  rw [Files.node?_remove, if_neg hpath]

theorem filesSound_remove (h : FilesSound codecs files) (path : ObjectPath) :
    FilesSound codecs (files.remove path) := by
  intro id hid
  have hpath : path ≠ pathFor id := by
    intro heq
    rw [Files.node?_remove, if_pos heq] at hid
    exact absurd hid (by simp)
  rw [Files.node?_remove, if_neg hpath] at hid
  exact holdsObject_remove (h id hid) hpath

end Files

/-! ### Operations on object files -/

section Operations

variable {codecs : Codecs} {plan : FaultPlan}

/-- The disk is sound, and its references are backed. -/
def Good (codecs : Codecs) (d : Disk) : Prop := Sound codecs d ∧ ReferencesBacked codecs d

theorem Good.sameObjects {d : Disk} (h : Good codecs d) {files : Files}
    (hsame : SameObjects d.files files) (tick : Nat) : Good codecs ⟨d.db, files, tick⟩ :=
  ⟨⟨h.1.files.congr hsame, h.1.indexed⟩, fun id hid =>
    ⟨(h.2 id hid).1, (h.2 id hid).2.congr (hsame id)⟩⟩

theorem Good.tick {d : Disk} (h : Good codecs d) (tick : Nat) :
    Good codecs ⟨d.db, d.files, tick⟩ := h.sameObjects (fun _ => rfl) tick

/-- The removal of a file that no reference needs. -/
theorem Good.remove {d : Disk} (h : Good codecs d) {path : ObjectPath}
    (hpath : ∀ id, d.db.refers id → path ≠ pathFor id) (tick : Nat) :
    Good codecs ⟨d.db, d.files.remove path, tick⟩ :=
  ⟨⟨filesSound_remove h.1.files path, h.1.indexed⟩, fun id hid =>
    ⟨(h.2 id hid).1, holdsObject_remove (h.2 id hid).2 (hpath id hid)⟩⟩

/-- The publication of an object. -/
theorem Good.create {d : Disk} (h : Good codecs d) {id : ObjectId} {content payload : Bytes}
    (hnew : d.files.node? (pathFor id) = none) (hdecode : decode content = .ok payload)
    (hdigest : ObjectId.digestOf codecs payload = id) (tick : Nat) :
    Good codecs ⟨d.db, d.files.create (pathFor id) (.file content), tick⟩ := by
  refine ⟨⟨fun id' hid' => ?_, h.1.indexed⟩, fun id' hid' =>
    ⟨(h.2 id' hid').1, holdsObject_create_of_holds (h.2 id' hid').2⟩⟩
  by_cases hid : id = id'
  · subst hid
    exact holdsObject_create hnew hdecode hdigest
  · have hpath : pathFor id ≠ pathFor id' := fun heq => hid (pathFor_injective heq)
    rw [Files.node?_create, if_neg hpath, Option.or_none] at hid'
    exact holdsObject_create_of_holds (h.1.files id' hid')

theorem keeps_inspect {α : Type} {operation : String} {f : Disk → StoreResult α} :
    Keeps (Good codecs) (DiskCall.inspect plan operation f) :=
  spec_inspect (fun _ hd => hd.tick _) fun _ _ hd _ => hd.tick _

theorem keeps_ofResult {α : Type} {result : StoreResult α} :
    Keeps (Good codecs) (DiskCall.ofResult result) :=
  spec_ofResult (fun _ hd => hd) fun _ _ hd _ => hd

theorem keeps_onFiles_ok {operation : String} :
    Keeps (Good codecs) (DiskCall.onFiles plan operation .ok) := by
  refine spec_onFiles (fun d hd => hd.tick _) fun d files hd hfiles => ?_
  obtain rfl := Except.ok.inj hfiles
  exact hd.tick _

theorem keeps_verifyExisting (id : ObjectId) (bytes : Bytes) :
    Keeps (Good codecs) (verifyExisting plan codecs id bytes) := by
  refine keeps_bind keeps_inspect fun content => ?_
  refine keeps_bind keeps_ofResult fun payload => ?_
  exact keeps_bind keeps_ofResult fun _ => keeps_pure _

/-- Good, with `content` in the temporary file. -/
def Prepared (codecs : Codecs) (temp : ObjectPath) (content : Bytes) (d : Disk) : Prop :=
  Good codecs d ∧ d.files.node? temp = some (.file content)

theorem temporaryPath_spec {files : Files} {directory : Bytes} {pid tries sequence : Nat}
    {path : ObjectPath} (h : temporaryPath files directory pid tries sequence = some path) :
    IsTemporary path ∧ files.node? path = none := by
  induction tries generalizing sequence with
  | zero => exact absurd h (by simp [temporaryPath])
  | succ tries ih =>
    rw [temporaryPath] at h
    by_cases htaken : (files.node? ⟨directory, temporaryName pid sequence⟩).isSome
    · rw [if_pos htaken] at h
      exact ih h
    · rw [if_neg htaken] at h
      obtain rfl := Option.some.inj h
      exact ⟨⟨directory, pid, sequence, rfl⟩, Option.not_isSome_iff_eq_none.mp htaken⟩

theorem spec_createTemp (directory : Bytes) :
    Spec (Good codecs) (createTemp plan directory)
      (fun temp d => IsTemporary temp ∧ Prepared codecs temp [] d) (Good codecs) := by
  refine spec_step (fun d hd => hd.tick _) fun d temp db files hd hresult => ?_
  rcases hpath : temporaryPath d.files directory (plan.pid d.tick) 32 (plan.sequence d.tick)
    with _ | path
  · rw [hpath] at hresult
    exact absurd hresult (by simp)
  · rw [hpath] at hresult
    obtain ⟨rfl, rfl, rfl⟩ := by simpa using hresult
    obtain ⟨htemp, hfree⟩ := temporaryPath_spec hpath
    refine ⟨htemp, hd.sameObjects (sameObjects_create htemp _) _, ?_⟩
    show (d.files.create path (.file [])).node? path = _
    rw [Files.node?_create, hfree, if_pos rfl]
    rfl

theorem spec_writeTemp {temp : ObjectPath} (htemp : IsTemporary temp) (content envelope : Bytes) :
    Spec (Prepared codecs temp content) (writeTemp plan temp envelope)
      (fun _ => Prepared codecs temp envelope) (Good codecs) := by
  rintro d ⟨hd, hnode⟩
  unfold writeTemp
  rw [exec_ofFun]
  cases plan.fault d.tick with
  | crash => exact hd.sameObjects (sameObjects_write htemp _) _
  | fails => exact hd.sameObjects (sameObjects_write htemp _) _
  | none =>
    refine ⟨hd.sameObjects (sameObjects_write htemp _) _, ?_⟩
    show (d.files.write temp envelope).node? temp = _
    rw [Files.node?_write, if_pos rfl, hnode]
    rfl

theorem spec_installObject {id : ObjectId} {bytes envelope : Bytes} {temp : ObjectPath}
    (htemp : IsTemporary temp) (hencode : encode bytes = .ok envelope)
    (hdigest : ObjectId.digestOf codecs bytes = id) (content : Bytes) :
    Spec (Prepared codecs temp content) (installObject plan codecs id bytes envelope temp)
      (fun _ => Good codecs) (Good codecs) := by
  refine spec_bind (spec_writeTemp htemp content envelope) fun _ => ?_
  refine spec_bind (Q := fun _ => Prepared codecs temp envelope) ?_ fun _ => ?_
  · refine spec_onFiles (fun d hd => hd.1.tick _) fun d files hd hfiles => ?_
    obtain rfl := Except.ok.inj hfiles
    exact ⟨hd.1.tick _, hd.2⟩
  refine spec_bind (Q := fun _ => Good codecs) ?_ fun linked => ?_
  · refine spec_step (fun d hd => hd.1.tick _) ?_
    rintro d linked db files ⟨hd, hnode⟩ hresult
    rw [hnode] at hresult
    by_cases htaken : (d.files.node? (pathFor id)).isSome
    · simp only [htaken, if_true] at hresult
      obtain ⟨rfl, rfl, rfl⟩ := by simpa using hresult
      exact hd.tick _
    · simp only [htaken, Bool.false_eq_true, if_false] at hresult
      obtain ⟨rfl, rfl, rfl⟩ := by simpa using hresult
      exact hd.create (Option.not_isSome_iff_eq_none.mp htaken) (decode_encode hencode) hdigest _
  · refine spec_ite (fun _ => keeps_onFiles_ok) fun _ => ?_
    exact keeps_bind (keeps_verifyExisting id bytes) fun _ => keeps_pure _

theorem keeps_removeFile_temporary {operation : String} {temp : ObjectPath}
    (htemp : IsTemporary temp) : Keeps (Good codecs) (removeFile plan operation temp) := by
  refine spec_onFiles (fun d hd => hd.tick _) fun d files hd hfiles => ?_
  have hremove : files = d.files.remove temp := by
    rcases hnode : d.files.node? temp with _ | (content | _) <;> rw [hnode] at hfiles <;> simp_all
  rw [hremove]
  exact hd.sameObjects (sameObjects_remove htemp) _

theorem keeps_putVerified (expected : ObjectId) (bytes : Bytes) :
    Keeps (Good codecs) (putVerified plan codecs expected bytes) := by
  refine spec_bind (spec_ofResult (fun _ hd => hd) fun d _ hd hresult =>
    (⟨hd, ensure_eq_ok_iff.mp hresult⟩ : Good codecs d ∧ ObjectId.digestOf codecs bytes = expected))
    fun _ => spec_and_right fun hdigest => ?_
  refine keeps_bind keeps_onFiles_ok fun _ => ?_
  refine keeps_bind keeps_inspect fun present => ?_
  refine spec_ite (fun _ => keeps_verifyExisting expected bytes) fun _ => ?_
  refine spec_bind (spec_ofResult (fun _ hd => hd) fun d envelope hd hresult =>
    (⟨hd, hresult⟩ : Good codecs d ∧ encode bytes = .ok envelope))
    fun envelope => spec_and_right fun hencode => ?_
  refine spec_bind (spec_createTemp _) fun temp => ?_
  refine spec_bind (Q := fun _ d => Good codecs d ∧ IsTemporary temp) ?_
    fun install => spec_and_right fun htemp => ?_
  · rintro d ⟨htemp, hprepared⟩
    refine spec_rescue (spec_installObject htemp hencode hdigest [] |>.imp (fun _ hd => hd) ?_ ?_)
      d hprepared
    · exact fun _ _ hd => ⟨hd, htemp⟩
    · exact fun _ hd => ⟨hd, fun _ => ⟨hd, htemp⟩⟩
  · refine keeps_bind ?_ fun cleanup => ?_
    · exact spec_rescue ((keeps_removeFile_temporary htemp).imp (fun _ hd => hd)
        (fun _ _ hd => hd) fun _ hd => ⟨hd, fun _ => hd⟩)
    · rcases install with error | _
      · exact keeps_throw _
      · rcases cleanup with error | _
        · exact keeps_throw _
        · exact keeps_pure _

/-- The index gains a row and loses none. -/
theorem Good.recordObject {d : Disk} (h : Good codecs d) {stored : StoredObject}
    {createdUnixMs : Int64} {db : Db} (hrecord : recordObject d.db stored createdUnixMs = .ok db)
    (tick : Nat) : Good codecs ⟨db, d.files, tick⟩ := by
  obtain ⟨row, -, -, -, rfl, -⟩ := recordObject_ok hrecord
  obtain ⟨rows, -, hdb⟩ := Db.insertObject_frame d.db row
  have hindexed : ∀ id, (d.db.object? id).isSome → ((d.db.insertObject row).object? id).isSome := by
    intro id hid
    rw [hdb, Db.object?, Table.find_append, Option.isSome_or]
    exact Bool.or_eq_true_iff.mpr (Or.inl hid)
  have hrefers : ∀ id, (d.db.insertObject row).refers id ↔ d.db.refers id := fun id => by
    rw [hdb]
    exact refers_congr rfl rfl rfl id
  refine ⟨⟨h.1.files, fun id hid => ?_⟩, fun id hid => ?_⟩
  · exact hindexed id (h.1.indexed id ((hrefers id).mp hid))
  · obtain ⟨hrow, hfile⟩ := h.2 id ((hrefers id).mp hid)
    exact ⟨hindexed id hrow, hfile⟩

theorem keeps_importObject (expected : ObjectId) (bytes : Bytes) (createdUnixMs : Int64) :
    Keeps (Good codecs) (importObject plan codecs expected bytes createdUnixMs) := by
  refine keeps_bind (keeps_putVerified expected bytes) fun stored => ?_
  refine keeps_bind ?_ fun _ => keeps_pure _
  exact spec_commit (fun _ hd => hd.tick _) fun _ _ hd hrecord => hd.recordObject hrecord _

/-- The row of an object that nothing refers to may go. -/
theorem Good.deleteRow {d : Disk} (h : Good codecs d) {id : ObjectId} (hid : ¬ d.db.refers id)
    (tick : Nat) : Good codecs ⟨d.db.withoutObject id, d.files, tick⟩ := by
  have hindexed := h.1.indexed.withoutObject hid
  refine ⟨⟨h.1.files, hindexed⟩, fun id' hid' => ⟨hindexed id' hid', ?_⟩⟩
  exact (h.2 id' ((refers_withoutObject d.db id id').mp hid')).2

theorem not_refers_of_checkDeletable {db : Db} {id : ObjectId} {storedSize : Nat}
    (h : checkDeletable db id = .ok storedSize) : ¬ db.refers id := by
  obtain ⟨_, -, h⟩ := Except.bind_eq_ok_iff.mp h
  obtain ⟨_, -, h⟩ := Except.bind_eq_ok_iff.mp h
  obtain ⟨hreferenced, -⟩ := ensure_bind_eq_ok_iff.mp h
  rw [Db.refers, hreferenced]
  decide

theorem deleteObject_eq_ok {db db' : Db} {id : ObjectId} (h : db.deleteObject id = .ok db') :
    db' = { db with objects := db.objects.filter fun row => row.id ≠ id } := by
  obtain ⟨-, h⟩ := ensure_bind_eq_ok_iff.mp h
  obtain ⟨-, h⟩ := ensure_bind_eq_ok_iff.mp h
  exact (Except.ok.inj h).symm

theorem removeFile_eq_ok {files files' : Files} {path : ObjectPath} {error : StoreError}
    (h : (match files.node? path with
      | some .other => .error error
      | _ => .ok (files.remove path)) = (.ok files' : StoreResult Files)) :
    files' = files.remove path := by
  rcases hnode : files.node? path with _ | (content | _) <;> rw [hnode] at h <;> simp_all

theorem keeps_deleteObject (id : ObjectId) : Keeps (Good codecs) (deleteObject plan id) := by
  refine spec_bind (Q := fun _ d => Good codecs d ∧ ¬ d.db.refers id) ?_ fun storedSize => ?_
  · exact spec_inspect (fun _ hd => hd.tick _) fun d _ hd hcheck =>
      ⟨hd.tick _, not_refers_of_checkDeletable hcheck⟩
  refine spec_bind (Q := fun _ d => Good codecs d ∧ ¬ d.db.refers id) ?_ fun _ => ?_
  · refine spec_onFiles (fun _ hd => hd.1.tick _) fun d files hd hfiles => ?_
    rw [removeFile_eq_ok hfiles]
    refine ⟨hd.1.remove (fun id' hid' heq => hd.2 ?_) _, hd.2⟩
    rw [pathFor_injective heq]
    exact hid'
  refine spec_bind (Q := fun _ => Good codecs) ?_ fun _ => keeps_pure _
  refine spec_commit (fun _ hd => hd.1.tick _) fun d db hd hdelete => ?_
  rw [deleteObject_eq_ok (orDatabase_eq_ok_iff.mp hdelete)]
  exact hd.1.deleteRow hd.2 _

/-- A digest name is an object's path. -/
theorem pathFor_of_digestName {directory name : Bytes} {id : ObjectId}
    (h : digestName directory name = some id) : pathFor id = ⟨directory, name⟩ := by
  unfold digestName at h
  by_cases hname : name.length = 62 ∧ name.all isLowerHex
  · rw [if_pos hname] at h
    obtain ⟨digest, hparse, rfl⟩ := Option.map_eq_some_iff.mp h
    have hhex := parseDigest_eq_some_iff.mp hparse
    have hlength := digest.length_hex
    rw [hhex, List.length_append] at hlength
    have hdirectory : directory.length = 2 := by omega
    rw [pathFor, hhex, ← hdirectory, List.take_left, List.drop_left]
  · rw [if_neg hname] at h
    exact absurd h (by simp)

/-- A temporary name is no object's path. -/
theorem pathFor_ne_of_isTemporaryName {path : ObjectPath} (h : isTemporaryName path.name = true)
    (id : ObjectId) : path ≠ pathFor id := by
  rintro rfl
  rw [isTemporaryName, Bool.and_eq_true, decide_eq_true_eq] at h
  refine dot_not_mem_toHex id.digest.bytes (List.mem_of_mem_drop (i := 2)
    (List.mem_of_mem_take (i := 5) ?_))
  show (46 : UInt8) ∈ (pathFor id).name.take 5
  rw [h.1]
  decide

theorem keeps_deletePhysicalOrphan (orphan : OrphanFile) :
    Keeps (Good codecs) (deletePhysicalOrphan plan orphan) := by
  refine spec_bind (Q := fun _ d => Good codecs d ∧ ∀ id, orphan.kind = .object id →
    ¬ d.db.refers id) ?_ fun _ => ?_
  · refine spec_inspect (fun _ hd => hd.tick _) fun d _ hd hcheck => ⟨hd.tick _, ?_⟩
    intro id hkind
    simp only [checkUnindexed, hkind] at hcheck
    obtain ⟨_, -, hcheck⟩ := Except.bind_eq_ok_iff.mp hcheck
    rw [Db.refers, (ensure_eq_ok_iff.mp hcheck).2]
    decide
  refine spec_bind (Q := fun _ d => (Good codecs d ∧ ∀ id, orphan.kind = .object id →
    ¬ d.db.refers id) ∧ orphan.isValid = true) ?_ fun _ => spec_and_right fun hvalid => ?_
  · exact spec_ofResult (fun _ hd => hd.1) fun _ _ hd hresult => ⟨hd, ensure_eq_ok_iff.mp hresult⟩
  refine spec_bind (Q := fun _ => Good codecs) ?_ fun _ => keeps_pure _
  refine spec_onFiles (fun _ hd => hd.1.tick _) fun d files hd hfiles => ?_
  obtain rfl := Except.ok.inj hfiles
  refine hd.1.remove (fun id hid => ?_) _
  cases hkind : orphan.kind with
  | object id' =>
    rw [OrphanFile.isValid, hkind] at hvalid
    have hpath := pathFor_of_digestName (of_decide_eq_true hvalid)
    intro heq
    have hsame : id' = id := pathFor_injective (hpath.trans heq)
    exact hd.2 id' hkind (hsame ▸ hid)
  | temporary =>
    rw [OrphanFile.isValid, hkind, Bool.and_eq_true] at hvalid
    exact pathFor_ne_of_isTemporaryName hvalid.2 id

/-- A refused or failed operation of the writer leaves the records alone. -/
theorem diskStep_transaction (plan : FaultPlan) (codecs : Codecs) (d : Disk) {op : Op}
    (hop : op.touchesIndex = false) :
    (diskStep plan codecs d (.transaction op hop) = ⟨d.db, d.files, d.tick + 1⟩
        ∧ ¬ (plan.fault d.tick = .none ∧ (op.exec codecs d.db).isOk = true))
      ∨ ∃ db, plan.fault d.tick = .none ∧ op.exec codecs d.db = .ok db
          ∧ diskStep plan codecs d (.transaction op hop) = ⟨db, d.files, d.tick + 1⟩ := by
  unfold diskStep
  simp only [StoreOp.exec, DiskCall.commit, DiskCall.step, exec_ofFun]
  cases plan.fault d.tick with
  | crash => exact Or.inl ⟨rfl, by simp⟩
  | fails => exact Or.inl ⟨rfl, by simp⟩
  | none =>
    rcases op.exec codecs d.db with error | db
    · exact Or.inl ⟨rfl, fun h => Bool.false_ne_true h.2⟩
    · exact Or.inr ⟨db, rfl, rfl, rfl⟩

/-- A statement that adds references leaves the disk sound. -/
theorem Sound.addsReferences {d : Disk} (h : Sound codecs d) {db : Db} {ids : List ObjectId}
    (hadds : AddsReferences d.db db ids) (tick : Nat) : Sound codecs ⟨db, d.files, tick⟩ :=
  ⟨h.files, hadds.keepsIndexed h.indexed⟩

/-- New references are backed exactly if none of them is to a hollow row. -/
theorem referencesBacked_adds_iff {d : Disk} (h : Good codecs d) {db : Db} {ids : List ObjectId}
    (hadds : AddsReferences d.db db ids) (tick : Nat) :
    ReferencesBacked codecs ⟨db, d.files, tick⟩ ↔ ∀ id ∈ ids, ¬ Hollow d id := by
  constructor
  · rintro hbacked id hid ⟨-, hgone⟩
    obtain ⟨-, content, payload, hnode, -⟩ := hbacked id ((hadds.refers id).mpr (Or.inr hid))
    rw [hgone] at hnode
    exact absurd hnode (by simp)
  · intro hsolid id hid
    refine ⟨(h.1.addsReferences hadds tick).indexed id hid, ?_⟩
    rcases (hadds.refers id).mp hid with hrefers | hnew
    · exact (h.2 id hrefers).2
    · rcases hadds.indexed id hnew with hrefers | hrow
      · exact (h.2 id hrefers).2
      · exact h.1.files id (Option.isSome_iff_ne_none.mpr fun hgone => hsolid id hnew ⟨hrow, hgone⟩)

end Operations

/-! ### Runs of the store -/

/-- The operation is a transaction that goes through, and refers to a hollow row. -/
def StoreOp.RefersHollow (plan : FaultPlan) (codecs : Codecs) (d : Disk) : StoreOp → Prop
  | .transaction op _ =>
    plan.fault d.tick = .none ∧ (op.exec codecs d.db).isOk = true ∧ ∃ id ∈ op.references,
      Hollow d id
  | _ => False

section Runs

variable {codecs : Codecs} {plan : FaultPlan}

/-- The operations on object files keep the references backed, whatever fails. -/
theorem good_fileStep {d : Disk} (h : Good codecs d) (op : StoreOp)
    (hop : ∀ op' h', op ≠ .transaction op' h') : Good codecs (diskStep plan codecs d op) := by
  have hkeeps : Keeps (Good codecs) (op.exec plan codecs) := by
    cases op with
    | transaction op' h' => exact absurd rfl (hop op' h')
    | putObject bytes createdUnixMs =>
      exact keeps_bind (keeps_importObject _ bytes createdUnixMs) fun _ => keeps_pure _
    | importObject expected bytes createdUnixMs =>
      exact keeps_bind (keeps_importObject expected bytes createdUnixMs) fun _ => keeps_pure _
    | deleteObject id => exact keeps_bind (keeps_deleteObject id) fun _ => keeps_pure _
    | deletePhysicalOrphan orphan =>
      exact keeps_bind (keeps_deletePhysicalOrphan orphan) fun _ => keeps_pure _
  exact hkeeps.state h

theorem sound_step {d : Disk} (h : Good codecs d) (op : StoreOp) :
    Sound codecs (diskStep plan codecs d op) := by
  cases op with
  | transaction op hop =>
    rcases diskStep_transaction plan codecs d hop
      with ⟨hsame, -⟩ | ⟨db, -, hexec, hstep⟩
    · rw [hsame]
      exact (h.tick _).1
    · rw [hstep]
      exact h.1.addsReferences (op.addsReferences hexec hop) _
  | _ => exact (good_fileStep h _ fun _ _ => by simp).1

/-- A step keeps the references backed exactly if it commits none to a hollow row. -/
theorem referencesBacked_step_iff {d : Disk} (h : Good codecs d) (op : StoreOp) :
    ReferencesBacked codecs (diskStep plan codecs d op) ↔ ¬ op.RefersHollow plan codecs d := by
  cases op with
  | transaction op hop =>
    rcases diskStep_transaction plan codecs d hop
      with ⟨hsame, hrefused⟩ | ⟨db, hfault, hexec, hstep⟩
    · rw [hsame]
      exact iff_of_true (h.tick _).2 fun hhollow => hrefused ⟨hhollow.1, hhollow.2.1⟩
    · rw [hstep, referencesBacked_adds_iff h (op.addsReferences hexec hop)]
      rw [StoreOp.RefersHollow, hexec]
      simp [hfault, Except.isOk, Except.toBool]
  | _ => exact iff_of_true (good_fileStep h _ fun _ _ => by simp).2 id

/-- **References and their objects.**  Over every run of the store, with a fault or a crash at
any step, every object that a committed record refers to is indexed and has its file, exactly
if no operation commits a reference to a row whose file a cut-off deletion has taken. -/
theorem references_backed_iff (plan : FaultPlan) (codecs : Codecs) (ops : List StoreOp) :
    (∀ pre, pre <+: ops → ReferencesBacked codecs
      (Machine.run (diskStep plan codecs) Disk.empty pre))
      ↔ Machine.Meets (diskStep plan codecs) (fun d op => ¬ op.RefersHollow plan codecs d)
          Disk.empty ops := by
  have hempty : Good codecs Disk.empty :=
    ⟨⟨fun id hid => absurd hid (by simp [Disk.empty, Files.node?]),
      fun id hid => absurd hid (by simp [Db.refers, objectIsReferenced, Disk.empty, Db.empty])⟩,
      fun id hid => absurd hid (by simp [Db.refers, objectIsReferenced, Disk.empty, Db.empty])⟩
  exact Machine.forall_prefix_iff_meets (I := Sound codecs) (P := ReferencesBacked codecs)
    (L := fun _ => True) (fun d op hsound hbacked => sound_step ⟨hsound, hbacked⟩ op)
    (fun d op _ hsound hbacked => referencesBacked_step_iff ⟨hsound, hbacked⟩ op)
    (fun _ _ => trivial) hempty.1 hempty.2

end Runs

namespace Sample

/-- The process ends after the deletion of the chunk's file, and before that of its row commits. -/
def cutOff : FaultPlan where
  fault tick := if tick = 11 then .crash else .none
  written _ := 0
  pid _ := 7
  sequence _ := 0

/-- A chunk is published and its deletion cut off; after the restart an event refers to it. -/
def staleReference : List StoreOp :=
  [.putObject output 0,
   .deleteObject outputId,
   .transaction (.createRun run) rfl,
   .transaction (.appendEventBatch
      [event 0 (.terminalOutput ⟨⟨1⟩⟩ outputId 1)]) rfl]

end Sample

/-- A committed event may refer to an object whose file is gone. -/
theorem references_not_always_backed :
    ¬ ∀ (plan : FaultPlan) (codecs : Codecs) (ops pre : List StoreOp), pre <+: ops →
      ReferencesBacked codecs (Machine.run (diskStep plan codecs) Disk.empty pre) := by
  intro hall
  have hbacked := hall Sample.cutOff Sample.codecs Sample.staleReference _ (List.prefix_refl _)
  have hrefers : (Machine.run (diskStep Sample.cutOff Sample.codecs) Disk.empty
      Sample.staleReference).db.refers Sample.outputId := by
    unfold Db.refers
    decide +kernel
  have hgone : (Machine.run (diskStep Sample.cutOff Sample.codecs) Disk.empty
      Sample.staleReference).files.node? (pathFor Sample.outputId) = none := by decide +kernel
  obtain ⟨-, content, payload, hnode, -⟩ := hbacked Sample.outputId hrefers
  rw [hgone] at hnode
  exact absurd hnode (by simp)

end Rewind

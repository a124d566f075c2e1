/-
Snapshots on their way through the tables.

A snapshot is stored as one row of metadata and one row for each entry, and is built again from
the rows of its identifier.  Rows of entries are inserted with their snapshot, and no statement
changes them afterwards.

* `logicalBytes_eq` — the checked sum is the sum, where a `u64` holds it;
* `loadSnapshotFrom_of_rows` — the rows of a snapshot load as that snapshot;
* `KeepsSnapshots` — what a statement does to stored snapshots: nothing;
* **`snapshot_persistence`** — a stored snapshot loads, immediately and ever after.
-/
import Mathlib.Algebra.Order.BigOperators.Group.List
import Mathlib.Algebra.Order.Group.Nat
import Rewind.Store.Timeline

namespace Rewind

variable {codecs : Codecs}

/-! ### Sizes -/

/-- The bytes of an entry's file; nothing for the other kinds. -/
def SnapshotEntry.logicalSize (entry : SnapshotEntry) : Nat :=
  match entry.kind with
  | .file _ size _ => size.toNat
  | .directory | .symlink _ => 0

/-- The bytes of all files of a snapshot. -/
def Snapshot.totalBytes (snapshot : Snapshot) : Nat :=
  (snapshot.manifest.entries.map SnapshotEntry.logicalSize).sum

theorem logicalBytes_from {entries : List SnapshotEntry} {start : Nat} (hstart : start < 2 ^ 64) :
    entries.foldlM (fun total entry =>
      match entry.kind with
      | .file _ size _ => if total + size.toNat < 2 ^ 64 then some (total + size.toNat) else none
      | .directory | .symlink _ => some total) start
      = if start + (entries.map SnapshotEntry.logicalSize).sum < 2 ^ 64
        then some (start + (entries.map SnapshotEntry.logicalSize).sum) else none := by
  induction entries generalizing start with
  | nil =>
    rw [List.map_nil, List.sum_nil, Nat.add_zero, if_pos hstart]
    rfl
  | cons entry rest ih =>
    rw [List.foldlM_cons, List.map_cons, List.sum_cons]
    cases hkind : entry.kind with
    | directory =>
      have hsize : entry.logicalSize = 0 := by rw [SnapshotEntry.logicalSize, hkind]
      rw [hsize, Nat.zero_add]
      exact ih hstart
    | symlink target =>
      have hsize : entry.logicalSize = 0 := by rw [SnapshotEntry.logicalSize, hkind]
      rw [hsize, Nat.zero_add]
      exact ih hstart
    | file objectId size executable =>
      have hsize : entry.logicalSize = size.toNat := by rw [SnapshotEntry.logicalSize, hkind]
      rw [hsize, ← Nat.add_assoc]
      by_cases hfits : start + size.toNat < 2 ^ 64
      · simp only [if_pos hfits]
        exact ih hfits
      · -- the sum only grows: what overflows here overflows at the end
        have hover : ¬ start + size.toNat + (rest.map SnapshotEntry.logicalSize).sum < 2 ^ 64 := by
          omega
        simp only [if_neg hfits, if_neg hover]
        rfl

theorem logicalBytes_eq (entries : List SnapshotEntry) :
    logicalBytes entries
      = if (entries.map SnapshotEntry.logicalSize).sum < 2 ^ 64
        then some (entries.map SnapshotEntry.logicalSize).sum else none := by
  have h := @logicalBytes_from entries 0 (by omega)
  rw [Nat.zero_add] at h
  exact h

theorem logicalBytes_of_fits {snapshot : Snapshot} (hfits : snapshot.totalBytes < 2 ^ 63) :
    logicalBytes snapshot.manifest.entries = some snapshot.totalBytes :=
  (logicalBytes_eq _).trans (if_pos (show snapshot.totalBytes < 2 ^ 64 by omega))

/-- A snapshot that is stored fits the columns. -/
theorem fits_of_storeSnapshotIn {db db' : Db} {snapshot : Snapshot} {createdAt : Timestamp}
    (h : storeSnapshotIn codecs db snapshot createdAt = .ok db') :
    snapshot.manifest.entries.length < 2 ^ 63 ∧ snapshot.totalBytes < 2 ^ 63 := by
  obtain ⟨hcount, h⟩ := ensure_bind_eq_ok_iff.mp h
  obtain ⟨total, htotal, h⟩ := Except.bind_eq_ok_iff.mp h
  obtain ⟨total', hcolumn, -⟩ := Except.bind_eq_ok_iff.mp h
  obtain ⟨hfits, rfl⟩ := sqlU64_eq_ok_iff.mp hcolumn
  refine ⟨hcount, ?_⟩
  rw [logicalBytes_eq] at htotal
  split at htotal
  · obtain rfl := Except.ok.inj htotal
    exact hfits
  · exact absurd htotal (by simp)

/-! ### Rows -/

theorem decodeEntry_eq {snapshotId : SnapshotId} {row : SnapshotEntryRow} {entry : SnapshotEntry}
    (hpath : row.path = entry.path.text) (hmode : row.unixMode = entry.permissions.bits)
    (hkind : decodeEntryKind row = some entry.kind) : decodeEntry snapshotId row = .ok entry := by
  obtain ⟨path, kind, permissions⟩ := entry
  obtain ⟨_, _, _, _, _, _, _, _⟩ := row
  subst hpath hmode
  have hbits : UnixPermissions.new permissions.bits = some permissions := by
    rw [UnixPermissions.new, dif_pos permissions.supported]
  refine Except.bind_eq_ok_iff.mpr ⟨permissions, by rw [hbits]; rfl, ?_⟩
  refine Except.bind_eq_ok_iff.mpr ⟨kind, by rw [hkind]; rfl, ?_⟩
  rw [dif_pos path.utf8]
  have hfrom := SnapshotPath.fromStr_text path
  exact Except.bind_eq_ok_iff.mpr ⟨path, Except.mapError_eq_ok_iff.mpr hfrom, rfl⟩

/-- The row of an entry decodes to that entry. -/
theorem decodeEntry_entryRow (snapshotId : SnapshotId) (entry : SnapshotEntry) :
    decodeEntry snapshotId (entryRow snapshotId entry) = .ok entry := by
  obtain ⟨path, kind, permissions⟩ := entry
  cases kind with
  | directory => exact decodeEntry_eq rfl rfl rfl
  | symlink target => exact decodeEntry_eq rfl rfl rfl
  | file objectId size executable =>
    refine decodeEntry_eq rfl rfl ?_
    show some (SnapshotEntryKind.file objectId (UInt64.ofNat size.toNat) executable) = _
    rw [UInt64.ofNat_toNat]

theorem path_entryRow (snapshotId : SnapshotId) (entry : SnapshotEntry) :
    (entryRow snapshotId entry).path = entry.path.text := by
  unfold entryRow
  cases entry.kind <;> rfl

theorem snapshotId_entryRow (snapshotId : SnapshotId) (entry : SnapshotEntry) :
    (entryRow snapshotId entry).snapshotId = snapshotId := by
  unfold entryRow
  cases entry.kind <;> rfl

/-- The rows of a manifest are in the order the query returns them. -/
theorem sorted_entryRows (snapshotId : SnapshotId) (manifest : SnapshotManifest) :
    (manifest.entries.map (entryRow snapshotId)).insertionSort (fun r r' => r.path ≤ r'.path)
      = manifest.entries.map (entryRow snapshotId) := by
  refine List.Pairwise.insertionSort_eq (List.pairwise_map.mpr ?_)
  refine manifest.ordered.imp fun {e e'} hlt => ?_
  rw [path_entryRow, path_entryRow]
  exact le_of_lt hlt

/-- What is in the tables of a stored snapshot. -/
structure Db.Holds (db : Db) (snapshot : Snapshot) : Prop where
  row : ∃ createdAt, db.snapshot? snapshot.id
    = some (snapshotRow snapshot createdAt snapshot.totalBytes)
  entries : db.entriesOf snapshot.id = snapshot.manifest.entries.map (entryRow snapshot.id)

/-- The rows of a snapshot load as that snapshot. -/
theorem loadSnapshotFrom_of_rows {db : Db} {snapshot : Snapshot} (hholds : db.Holds snapshot)
    (hfits : snapshot.totalBytes < 2 ^ 63)
    (hdigest : SnapshotId.digestOf codecs snapshot.manifest = snapshot.id) :
    loadSnapshotFrom codecs db snapshot.id = .ok snapshot := by
  obtain ⟨createdAt, hrow⟩ := hholds.row
  have hdecoded : (db.entriesOf snapshot.id).mapM (decodeEntry snapshot.id)
      = .ok snapshot.manifest.entries := by
    rw [hholds.entries, List.mapM_eq_ok_iff, List.forall₂_map_left_iff, List.forall₂_same]
    intro entry _
    exact decodeEntry_entryRow snapshot.id entry
  have htotal := logicalBytes_of_fits hfits
  refine Except.bind_eq_ok_iff.mpr ⟨_, by rw [hrow]; rfl, ?_⟩
  refine Except.bind_eq_ok_iff.mpr ⟨_, hdecoded, ?_⟩
  refine Except.bind_eq_ok_iff.mpr ⟨_, by rw [htotal]; rfl, ?_⟩
  refine Except.bind_eq_ok_iff.mpr ⟨_, sqlU64_eq_ok_iff.mpr ⟨hfits, rfl⟩, ?_⟩
  refine ensure_bind_eq_ok_iff.mpr ⟨⟨rfl, rfl⟩, ?_⟩
  refine Except.bind_eq_ok_iff.mpr ⟨snapshot.manifest, ?_, ?_⟩
  · exact Except.mapError_eq_ok_iff.mpr (SnapshotManifest.fromCanonicalEntries_self
      snapshot.manifest)
  · exact Except.bind_eq_ok_iff.mpr ⟨(), ensure_eq_ok_iff.mpr hdigest, rfl⟩

/-! ### Statements -/

/-- Every entry belongs to a snapshot of the table. -/
def Db.EntriesOwned (db : Db) : Prop :=
  ∀ row ∈ db.snapshotEntries, row.snapshotId ∈ db.snapshots.map (·.id)

theorem Db.EntriesOwned.of_eq {db db' : Db} (h : db.EntriesOwned)
    (hentries : db'.snapshotEntries = db.snapshotEntries)
    (hsnapshots : db'.snapshots = db.snapshots) : db'.EntriesOwned := by
  intro row hrow
  rw [hsnapshots]
  rw [hentries] at hrow
  exact h row hrow

theorem Db.EntriesOwned.storeSnapshot {codecs : Codecs} {db db' : Db} {snapshot : Snapshot}
    {createdAt : Timestamp} (h : db.EntriesOwned)
    (hok : storeSnapshotIn codecs db snapshot createdAt = .ok db') : db'.EntriesOwned := by
  rcases storeSnapshotIn_ok hok with ⟨rfl, -⟩ | ⟨-, -, total, rfl⟩
  · exact h
  · intro row hrow
    show row.snapshotId ∈ (db.snapshots ++ [snapshotRow snapshot createdAt total]).map (·.id)
    rw [List.map_append]
    rcases List.mem_append.mp hrow with hbefore | hnew
    · exact List.mem_append_left _ (h row hbefore)
    · obtain ⟨entry, -, rfl⟩ := List.mem_map.mp hnew
      refine List.mem_append_right _ (List.mem_singleton.mpr ?_)
      unfold entryRow snapshotRow
      cases entry.kind <;> rfl

theorem statements_keepEntriesOwned (codecs : Codecs) :
    StatementsRelate codecs (fun db db' => db.EntriesOwned → db'.EntriesOwned) where
  refl _ hdb := hdb
  trans h h' hdb := h' (h hdb)
  createRun h hdb := by
    obtain ⟨-, -, -, runArguments, runParents, rfl⟩ := createRun_ok h
    exact hdb.of_eq rfl rfl
  markRunRunning h hdb := by
    obtain ⟨-, rfl⟩ := markRunRunning_ok h
    exact hdb.of_eq rfl rfl
  append h hdb := by
    obtain ⟨rfl, -⟩ := appendEventBatchIn_ok h
    exact hdb.of_eq rfl rfl
  storeSnapshot h hdb := hdb.storeSnapshot h
  checkpoint h hdb := by
    obtain ⟨db₁, hstore, -, -, -, rfl⟩ := commitCheckpointIn_ok h
    exact (hdb.storeSnapshot hstore).of_eq rfl rfl
  finish h hdb := by
    obtain ⟨-, -, rfl⟩ := finishRunIn_ok h
    exact hdb.of_eq rfl rfl
  recover h hdb := by
    obtain ⟨-, warnings, rfl⟩ := markInterruptedRuns_ok h
    exact hdb.of_eq rfl rfl
  recordObject h hdb := by
    obtain ⟨row, -, -, -, rfl, -⟩ := recordObject_ok h
    obtain ⟨rows, -, hinsert⟩ := Db.insertObject_frame _ row
    rw [hinsert]
    exact hdb.of_eq rfl rfl
  deleteObject h hdb := by
    obtain ⟨-, rfl⟩ := deleteObjectRow_ok h
    exact hdb.of_eq rfl rfl

theorem mem_snapshots_iff {db : Db} {id : SnapshotId} :
    id ∈ db.snapshots.map (·.id) ↔ (db.snapshot? id).isSome = true := (Table.find_isSome_iff _).symm

/-- What a statement does to stored snapshots: it leaves their rows alone. -/
def KeepsSnapshots (db db' : Db) : Prop :=
  ∀ id ∈ db.snapshots.map (·.id),
    db'.snapshot? id = db.snapshot? id ∧ db'.entriesOf id = db.entriesOf id

/-- A statement that writes neither table. -/
theorem KeepsSnapshots.of_eq {db db' : Db} (hsnapshots : db'.snapshots = db.snapshots)
    (hentries : db'.snapshotEntries = db.snapshotEntries) : KeepsSnapshots db db' := by
  intro id _
  rw [Db.snapshot?, Db.entriesOf, hsnapshots, hentries]
  exact ⟨rfl, rfl⟩

/-- The rows of other snapshots do not mix with those a storage adds. -/
theorem entriesOf_append {db : Db} {snapshot : Snapshot} (id : SnapshotId) :
    (db.snapshotEntries ++ snapshot.manifest.entries.map (entryRow snapshot.id)).filter
        (fun row => row.snapshotId = id)
      = if snapshot.id = id then
          db.snapshotEntries.filter (fun row => row.snapshotId = id)
            ++ snapshot.manifest.entries.map (entryRow snapshot.id)
        else db.snapshotEntries.filter fun row => row.snapshotId = id := by
  rw [List.filter_append]
  by_cases hid : snapshot.id = id
  · rw [if_pos hid]
    congr 1
    rw [List.filter_eq_self]
    intro row hrow
    obtain ⟨entry, -, rfl⟩ := List.mem_map.mp hrow
    exact decide_eq_true ((snapshotId_entryRow snapshot.id entry).trans hid)
  · rw [if_neg hid]
    have hnone : (snapshot.manifest.entries.map (entryRow snapshot.id)).filter
        (fun row => row.snapshotId = id) = [] := by
      rw [List.filter_eq_nil_iff]
      intro row hrow hsame
      obtain ⟨entry, -, rfl⟩ := List.mem_map.mp hrow
      exact hid ((snapshotId_entryRow snapshot.id entry).symm.trans (of_decide_eq_true hsame))
    rw [hnone, List.append_nil]

theorem keepsSnapshots_storeSnapshot {db db' : Db} {snapshot : Snapshot} {createdAt : Timestamp}
    (h : storeSnapshotIn codecs db snapshot createdAt = .ok db') : KeepsSnapshots db db' := by
  rcases storeSnapshotIn_ok h with ⟨rfl, -⟩ | ⟨hfresh, -, total, rfl⟩
  · exact KeepsSnapshots.of_eq rfl rfl
  · intro id hid
    have hother : snapshot.id ≠ id := by
      rintro rfl
      exact hfresh hid
    constructor
    · obtain ⟨row, hrow⟩ := Option.isSome_iff_exists.mp ((Table.find_isSome_iff _).mpr hid)
      show Table.find (·.id) (db.snapshots ++ [_]) id = Table.find (·.id) db.snapshots id
      rw [Table.find_append, hrow]
      rfl
    · simp only [Db.entriesOf, entriesOf_append, if_neg hother]

theorem statements_keepSnapshots (codecs : Codecs) : StatementsRelate codecs KeepsSnapshots where
  refl _ _ _ := ⟨rfl, rfl⟩
  trans h₁₂ h₂₃ id hid := by
    obtain ⟨hrow, hentries⟩ := h₁₂ id hid
    have hid' := mem_snapshots_iff.mpr (by
      rw [hrow]
      exact mem_snapshots_iff.mp hid)
    obtain ⟨hrow', hentries'⟩ := h₂₃ id hid'
    exact ⟨hrow'.trans hrow, hentries'.trans hentries⟩
  createRun h := by
    obtain ⟨-, -, -, runArguments, runParents, rfl⟩ := createRun_ok h
    exact KeepsSnapshots.of_eq rfl rfl
  markRunRunning h := by
    obtain ⟨-, rfl⟩ := markRunRunning_ok h
    exact KeepsSnapshots.of_eq rfl rfl
  append h := by
    obtain ⟨rfl, -⟩ := appendEventBatchIn_ok h
    exact KeepsSnapshots.of_eq rfl rfl
  storeSnapshot := keepsSnapshots_storeSnapshot
  checkpoint h := by
    obtain ⟨db₁, hstore, -, -, -, rfl⟩ := commitCheckpointIn_ok h
    have hstored := keepsSnapshots_storeSnapshot hstore
    exact fun id hid => hstored id hid
  finish h := by
    obtain ⟨-, -, rfl⟩ := finishRunIn_ok h
    exact KeepsSnapshots.of_eq rfl rfl
  recover h := by
    obtain ⟨-, warnings, rfl⟩ := markInterruptedRuns_ok h
    exact KeepsSnapshots.of_eq rfl rfl
  recordObject h := by
    obtain ⟨row, -, -, -, rfl, -⟩ := recordObject_ok h
    obtain ⟨rows, -, hrows⟩ := Db.insertObject_frame _ row
    rw [hrows]
    exact KeepsSnapshots.of_eq rfl rfl
  deleteObject h := by
    obtain ⟨-, rfl⟩ := deleteObjectRow_ok h
    exact KeepsSnapshots.of_eq rfl rfl

theorem entriesOwned_empty : Db.empty.EntriesOwned := fun _ h => absurd h List.not_mem_nil

/-! ### Stored snapshots -/

/-- A snapshot that is stored can be loaded. -/
theorem load_of_storeSnapshotIn {db db' : Db} {snapshot : Snapshot} {createdAt : Timestamp}
    (hdb : db.EntriesOwned) (hdigest : SnapshotId.digestOf codecs snapshot.manifest = snapshot.id)
    (h : storeSnapshotIn codecs db snapshot createdAt = .ok db') :
    loadSnapshotFrom codecs db' snapshot.id = .ok snapshot := by
  have hfits := (fits_of_storeSnapshotIn h).2
  rcases storeSnapshotIn_ok h with ⟨rfl, hload⟩ | ⟨hfresh, -, total, rfl⟩
  · exact hload
  · -- the total in the row is the one the statement has computed
    have htotal : total = snapshot.totalBytes := by
      obtain ⟨-, hstore⟩ := ensure_bind_eq_ok_iff.mp h
      obtain ⟨computed, hcomputed, hstore⟩ := Except.bind_eq_ok_iff.mp hstore
      rw [logicalBytes_of_fits hfits] at hcomputed
      obtain ⟨column, hcolumn, hstore⟩ := Except.bind_eq_ok_iff.mp hstore
      obtain ⟨-, hsame⟩ := sqlU64_eq_ok_iff.mp hcolumn
      simp only [Db.insertSnapshot, if_neg hfresh, if_true] at hstore
      obtain ⟨hrows, -⟩ := foldlM_storeEntry_ok hstore
      have hlast := congrArg (fun db => (Db.snapshots db).getLast?) hrows
      simp only [List.getLast?_append, List.getLast?_singleton, Option.some_or, Option.some.injEq,
        snapshotRow, SnapshotRow.mk.injEq] at hlast
      have hbytes : snapshot.totalBytes = computed := Except.ok.inj hcomputed
      rw [hbytes, ← hsame]
      exact hlast.2.2.2.1
    subst htotal
    refine loadSnapshotFrom_of_rows ⟨⟨createdAt, ?_⟩, ?_⟩ hfits hdigest
    · have hnone : Table.find (·.id) db.snapshots snapshot.id = none :=
        (Table.find_eq_none_iff _).mpr hfresh
      show Table.find (·.id) (db.snapshots ++ [_]) snapshot.id = _
      rw [Table.find_append, hnone, Option.none_or, Table.find_cons]
      exact if_pos rfl
    · have hnone : db.snapshotEntries.filter (fun row => row.snapshotId = snapshot.id) = [] := by
        rw [List.filter_eq_nil_iff]
        intro row hrow hsame
        have howned := hdb row hrow
        rw [of_decide_eq_true hsame] at howned
        exact hfresh howned
      simp only [Db.entriesOf, entriesOf_append, if_pos, hnone, List.nil_append]
      exact sorted_entryRows snapshot.id snapshot.manifest

/-- What a snapshot's rows load as depends on these rows only. -/
theorem loadSnapshotFrom_of_same_rows {db db' : Db} {id : SnapshotId}
    (hrow : db'.snapshot? id = db.snapshot? id) (hentries : db'.entriesOf id = db.entriesOf id) :
    loadSnapshotFrom codecs db' id = loadSnapshotFrom codecs db id := by
  unfold loadSnapshotFrom
  rw [hrow, hentries]

theorem mem_of_loadSnapshotFrom {db : Db} {id : SnapshotId} {snapshot : Snapshot}
    (hload : loadSnapshotFrom codecs db id = .ok snapshot) : id ∈ db.snapshots.map (·.id) := by
  obtain ⟨row, hrow, -⟩ := Except.bind_eq_ok_iff.mp hload
  by_contra habsent
  have hnone : db.snapshot? id = none := (Table.find_eq_none_iff _).mpr habsent
  rw [hnone] at hrow
  exact absurd hrow (by simp)

/-- A snapshot that loads is stored again without a change. -/
theorem storeSnapshot_again {db : Db} {snapshot : Snapshot} (createdAt : Timestamp)
    (hcount : snapshot.manifest.entries.length < 2 ^ 63) (hfits : snapshot.totalBytes < 2 ^ 63)
    (hdigest : SnapshotId.digestOf codecs snapshot.manifest = snapshot.id)
    (hload : loadSnapshotFrom codecs db snapshot.id = .ok snapshot) :
    storeSnapshot codecs db snapshot createdAt = .ok db := by
  have htotal := logicalBytes_of_fits hfits
  have hpresent := mem_of_loadSnapshotFrom hload
  refine Except.bind_eq_ok_iff.mpr ⟨(), ensure_eq_ok_iff.mpr hdigest, ?_⟩
  refine ensure_bind_eq_ok_iff.mpr ⟨hcount, ?_⟩
  refine Except.bind_eq_ok_iff.mpr ⟨_, by rw [htotal]; rfl, ?_⟩
  refine Except.bind_eq_ok_iff.mpr ⟨_, sqlU64_eq_ok_iff.mpr ⟨hfits, rfl⟩, ?_⟩
  simp only [Db.insertSnapshot, if_pos hpresent, Bool.false_eq_true, if_false]
  exact Except.bind_eq_ok_iff.mpr ⟨snapshot, hload, ensure_bind_eq_ok_iff.mpr ⟨rfl, rfl⟩⟩

/-- The snapshot an operation stores. -/
def Op.stored? : Op → Option Snapshot
  | .storeSnapshot snapshot _ => some snapshot
  | .commitCheckpoint _ snapshot => some snapshot
  | .commitCheckpointWithEvent _ snapshot _ => some snapshot
  | .createRun _ | .markRunRunning .. | .appendEventBatch _ | .finishRun ..
  | .finishRunWithEvents .. | .markInterruptedRuns _ | .recordObject .. | .deleteObject _ => none

/-- An operation that stores a snapshot checks its digest, and stores it by the same statement. -/
theorem storeSnapshotIn_of_exec {db db' : Db} {op : Op} {snapshot : Snapshot}
    (hop : op.stored? = some snapshot) (h : op.exec codecs db = .ok db') :
    SnapshotId.digestOf codecs snapshot.manifest = snapshot.id
      ∧ ∃ createdAt db₁, storeSnapshotIn codecs db snapshot createdAt = .ok db₁
          ∧ db'.snapshots = db₁.snapshots ∧ db'.snapshotEntries = db₁.snapshotEntries := by
  cases op with
  | storeSnapshot snapshot' createdAt =>
    obtain rfl := Option.some.inj hop
    obtain ⟨hdigest, hstore⟩ := storeSnapshot_ok h
    exact ⟨hdigest, createdAt, db', hstore, rfl, rfl⟩
  | commitCheckpoint checkpoint snapshot' =>
    obtain rfl := Option.some.inj hop
    obtain ⟨_, hvalid, hcommit⟩ := Except.bind_eq_ok_iff.mp h
    obtain ⟨db₁, hstore, -, -, -, rfl⟩ := commitCheckpointIn_ok hcommit
    exact ⟨(validateCheckpointSnapshot_ok hvalid).2, _, db₁, hstore, rfl, rfl⟩
  | commitCheckpointWithEvent checkpoint snapshot' event =>
    obtain rfl := Option.some.inj hop
    obtain ⟨_, hvalid, -⟩ := Except.bind_eq_ok_iff.mp h
    obtain ⟨-, -, db₂, hcommit, happend⟩ := commitCheckpointWithEvent_ok h
    obtain ⟨db₁, hstore, -, -, -, rfl⟩ := commitCheckpointIn_ok hcommit
    obtain ⟨rfl, -⟩ := appendEventBatchIn_ok happend
    exact ⟨(validateCheckpointSnapshot_ok hvalid).2, _, db₁, hstore, rfl, rfl⟩
  | _ => exact absurd hop (by simp [Op.stored?])

/-- **Snapshot persistence.**  Once an operation that stores a snapshot has returned, the snapshot
loads as it was, immediately and after whatever the writer does next, and storing it again succeeds
and changes nothing.  A snapshot with an entry or a total that a signed 64-bit column cannot hold is
refused by every such operation, which leaves the database as it was. -/
theorem snapshot_persistence (codecs : Codecs) (requests : List Request) (op : Op)
    (snapshot : Snapshot) (hop : op.stored? = some snapshot) :
    let db := Machine.run (step codecs) Db.empty requests
    (∀ db', op.exec codecs db = .ok db' → ∀ more,
        let later := Machine.run (step codecs) db' more
        loadSnapshotFrom codecs later snapshot.id = .ok snapshot
          ∧ ∀ createdAt, storeSnapshot codecs later snapshot createdAt = .ok later)
      ∧ ((∃ entry ∈ snapshot.manifest.entries, 2 ^ 63 ≤ entry.logicalSize)
            ∨ 2 ^ 63 ≤ snapshot.totalBytes →
          (∃ error, op.exec codecs db = .error error) ∧ step codecs db ⟨op, false⟩ = db) := by
  intro db
  have hdb : db.EntriesOwned :=
    (statements_keepEntriesOwned codecs).run Db.empty requests entriesOwned_empty
  constructor
  · intro db' hexec more later
    obtain ⟨hdigest, createdAt, db₁, hstore, hsnapshots, hentries⟩ :=
      storeSnapshotIn_of_exec hop hexec
    obtain ⟨hcount, hfits⟩ := fits_of_storeSnapshotIn hstore
    have hload : loadSnapshotFrom codecs db' snapshot.id = .ok snapshot := by
      refine (loadSnapshotFrom_of_same_rows ?_ ?_).trans
        (load_of_storeSnapshotIn hdb hdigest hstore)
      · rw [Db.snapshot?, hsnapshots]
        rfl
      · rw [Db.entriesOf, hentries]
        rfl
    have hpresent : snapshot.id ∈ db'.snapshots.map (·.id) := mem_of_loadSnapshotFrom hload
    obtain ⟨hrow, hrows⟩ :=
      (statements_keepSnapshots codecs).run db' more snapshot.id hpresent
    have hlater : loadSnapshotFrom codecs later snapshot.id = .ok snapshot :=
      (loadSnapshotFrom_of_same_rows hrow hrows).trans hload
    exact ⟨hlater, fun again => storeSnapshot_again again hcount hfits hdigest hlater⟩
  · intro hover
    have hexec : ∀ db', op.exec codecs db ≠ .ok db' := by
      intro db' hexec
      obtain ⟨-, createdAt, db₁, hstore, -, -⟩ := storeSnapshotIn_of_exec hop hexec
      have hfits := (fits_of_storeSnapshotIn hstore).2
      rcases hover with ⟨entry, hentry, hsize⟩ | htotal
      · have hle : entry.logicalSize ≤ snapshot.totalBytes :=
          List.single_le_sum (fun _ _ => Nat.zero_le _) _ (List.mem_map_of_mem hentry)
        omega
      · omega
    rcases hresult : op.exec codecs db with error | db'
    · refine ⟨⟨error, rfl⟩, ?_⟩
      rcases step_cases codecs db ⟨op, false⟩ with hsame | ⟨-, hok⟩
      · exact hsame
      · exact absurd hok (hexec _)
    · exact absurd hresult (hexec db')

namespace Sample

/-- The text of the manifest with an executable file in a directory and a link to it. -/
def toolJson : Bytes := utf8 ("\x7b\"schema_version\":1,\"entries\":["
  ++ "\x7b\"path\":\"bin\",\"kind\":\x7b\"kind\":\"directory\"\x7d,\"permissions\":493\x7d,"
  ++ "\x7b\"path\":\"bin/tool\",\"kind\":\x7b\"kind\":\"file\",\"object_id\":"
  ++ "\"17762fddd969a453925d65717ac3eea21320b66b54342fde15128d6caf21215f\","
  ++ "\"size\":1,\"executable\":true\x7d,\"permissions\":493\x7d,"
  ++ "\x7b\"path\":\"tool\",\"kind\":\x7b\"kind\":\"symlink\",\"target\":\"bin/tool\"\x7d,"
  ++ "\"permissions\":511\x7d]\x7d")

/-- The codecs on this manifest as well. -/
def toolCodecs : Codecs where
  blake3 bytes :=
    if bytes = toolJson then
      ⟨[67, 226, 123, 76, 77, 155, 248, 99, 183, 33, 122, 171, 223, 43, 56, 233,
        237, 81, 230, 247, 182, 64, 87, 72, 70, 147, 153, 226, 22, 188, 221, 139], rfl⟩
    else Sample.codecs.blake3 bytes
  manifestJson manifest :=
    if manifest.entries.length = 3 then toolJson else Sample.codecs.manifestJson manifest

def pathOf (text : Bytes) (h : validUtf8 text = true ∧ SnapshotPath.check text = .ok ()) :
    SnapshotPath := ⟨text, h.1, h.2⟩

theorem mode_tool : (493 : UInt16).toNat ≤ 0o7777 := by decide

theorem mode_link : (511 : UInt16).toNat ≤ 0o7777 := by decide

/-- The file has the content `output`. -/
def toolManifest : SnapshotManifest where
  schemaVersion := 1
  entries :=
    [⟨pathOf (utf8 "bin") (by decide +kernel), .directory, ⟨493, mode_tool⟩⟩,
      ⟨pathOf (utf8 "bin/tool") (by decide +kernel), .file outputId 1 true, ⟨493, mode_tool⟩⟩,
      ⟨pathOf (utf8 "tool") (by decide +kernel), .symlink "bin/tool", ⟨511, mode_link⟩⟩]
  supported := schemaVersion_one
  canonical := by decide +kernel

def toolSnapshot : Snapshot := ⟨SnapshotId.digestOf toolCodecs toolManifest, toolManifest⟩

/-- The object of the file is recorded before the snapshot is stored. -/
def toolRequests : List Request := [⟨.recordObject ⟨outputId, 1, 1, .none⟩ 0, false⟩]

def toolStored : StoreResult Db :=
  (Op.storeSnapshot toolSnapshot ⟨0⟩).exec toolCodecs
    (Machine.run (step toolCodecs) Db.empty toolRequests)

theorem toolStored_isOk : toolStored.isOk = true := by decide +kernel

end Sample

/-- A snapshot of a directory, a file and a link, stored, loaded after a run has been created, and
stored again. -/
theorem snapshot_persistence_tool :
    (Op.storeSnapshot Sample.toolSnapshot ⟨0⟩).stored? = some Sample.toolSnapshot
      ∧ ∃ db', Sample.toolStored = .ok db'
        ∧ loadSnapshotFrom Sample.toolCodecs
            (Machine.run (step Sample.toolCodecs) db' [⟨.createRun Sample.run, false⟩])
            Sample.toolSnapshot.id = .ok Sample.toolSnapshot
        ∧ storeSnapshot Sample.toolCodecs
            (Machine.run (step Sample.toolCodecs) db' [⟨.createRun Sample.run, false⟩])
            Sample.toolSnapshot ⟨1⟩
          = .ok (Machine.run (step Sample.toolCodecs) db' [⟨.createRun Sample.run, false⟩]) := by
  refine ⟨rfl, ?_⟩
  rcases hstored : Sample.toolStored with error | db'
  · exact absurd Sample.toolStored_isOk (by simp [hstored, Except.isOk, Except.toBool])
  · have hlater := (snapshot_persistence Sample.toolCodecs Sample.toolRequests
      (.storeSnapshot Sample.toolSnapshot ⟨0⟩) Sample.toolSnapshot rfl).1 db' hstored
      [⟨.createRun Sample.run, false⟩]
    exact ⟨db', rfl, hlater.1, hlater.2 ⟨1⟩⟩

end Rewind

/-
Listings for maintenance.

Indexed objects and referenced objects are listed by their identifiers, the files that no row
indexes by their paths.  The first two are pages of a query; the third is a walk over the fan-out
directories that keeps no more files than a page needs.

* `listObjects`, `listReferencedObjectIds`, `listPhysicalOrphans` — the three listings;
* `listPhysicalOrphans_eq` — the walk returns a page of the recognized files in the order of
  their paths, whatever order the directories are read in;
* **`collectable_reachable`** — what the references of every reachable store agree on.
-/
import Rewind.Store.Queries
import Rewind.Lib.SortedMap

namespace Rewind

/-! ### Indexed objects -/

/-- Indexed and measured sizes of one object. -/
structure ObjectRecord where
  id : ObjectId
  logicalSize : UInt64
  storedSize : UInt64
  physicalSize : Option Nat
  compression : CompressionMethod
  createdAt : Timestamp
deriving DecidableEq

/-- A file, and not a link or a directory. -/
def Node.content? : Node → Option Bytes
  | .file content => some content
  | .other => none

/-- `fs::metadata(..).len()`, where a missing file is no error.  `foreign` measures what is at a
path and is no file. -/
def Files.measure (foreign : ObjectPath → StoreResult (Option Nat)) (files : Files)
    (path : ObjectPath) : StoreResult (Option Nat) :=
  match files.node? path with
  | none => .ok none
  | some (.file content) => .ok (some content.length)
  | some .other => foreign path

/-- The record of a row of `objects`. -/
def decodeObject (measure : ObjectPath → StoreResult (Option Nat)) (row : ObjectRow) :
    StoreResult ObjectRecord := do
  let physicalSize ← measure (pathFor row.id)
  let logicalSize ← decodeU64 "object logical size" row.logicalSize
  let storedSize ← decodeU64 "object stored size" row.storedSize
  return ⟨row.id, logicalSize, storedSize, physicalSize, row.compression, ⟨row.createdUnixMs⟩⟩

/-- The text by which the rows of `objects` are ordered. -/
def ObjectRow.text (row : ObjectRow) : Bytes := row.id.hex

/-- `list_objects`. -/
def listObjects (measure : ObjectPath → StoreResult (Option Nat)) (db : Db)
    (after : Option ObjectId) (limit : UInt32) : StoreResult (Page ObjectRecord) := do
  ensure (limit.toNat ≠ 0 ∧ limit.toNat ≤ MAX_OBJECT_PAGE)
    (.invalidPageLimit limit.toNat MAX_OBJECT_PAGE)
  loadPage ObjectRow.text (decodeObject measure) db.objects (objectCursor after) limit.toNat

/-- The size of the file at a path. -/
def Files.size? (files : Files) (path : ObjectPath) : Option Nat :=
  ((files.node? path).bind Node.content?).map List.length

/-- The record of a row whose sizes fit. -/
def objectRecord (files : Files) (row : ObjectRow) : ObjectRecord where
  id := row.id
  logicalSize := UInt64.ofNat row.logicalSize
  storedSize := UInt64.ofNat row.storedSize
  physicalSize := files.size? (pathFor row.id)
  compression := row.compression
  createdAt := ⟨row.createdUnixMs⟩

theorem measure_eq {files : Files} {path : ObjectPath} (h : files.node? path ≠ some .other)
    (foreign : ObjectPath → StoreResult (Option Nat)) :
    files.measure foreign path = .ok (files.size? path) := by
  unfold Files.measure Files.size?
  rcases hnode : files.node? path with _ | (content | _)
  · rfl
  · rfl
  · exact absurd hnode h

theorem decodeObject_eq {files : Files} {row : ObjectRow}
    (hsizes : row.logicalSize < 2 ^ 64 ∧ row.storedSize < 2 ^ 64)
    (hnode : files.node? (pathFor row.id) ≠ some .other)
    (foreign : ObjectPath → StoreResult (Option Nat)) :
    decodeObject (files.measure foreign) row = .ok (objectRecord files row) := by
  have hlogical : decodeU64 "object logical size" row.logicalSize
      = .ok (UInt64.ofNat row.logicalSize) := if_pos hsizes.1
  have hstored : decodeU64 "object stored size" row.storedSize
      = .ok (UInt64.ofNat row.storedSize) := if_pos hsizes.2
  refine Except.bind_eq_ok_iff.mpr ⟨_, measure_eq hnode foreign, ?_⟩
  refine Except.bind_eq_ok_iff.mpr ⟨_, hlogical, Except.bind_eq_ok_iff.mpr ⟨_, hstored, rfl⟩⟩

/-- A page of the index, where every row decodes. -/
theorem listObjects_eq {files : Files} {db : Db} {after : Option ObjectId} {limit : UInt32}
    (hlimit : limit.toNat ≠ 0 ∧ limit.toNat ≤ MAX_OBJECT_PAGE)
    (hsizes : ∀ row ∈ db.objects, row.logicalSize < 2 ^ 64 ∧ row.storedSize < 2 ^ 64)
    (hnodes : ∀ row ∈ db.objects, files.node? (pathFor row.id) ≠ some .other)
    (foreign : ObjectPath → StoreResult (Option Nat)) :
    listObjects (files.measure foreign) db after limit = .ok (Page.front limit.toNat
      ((rowsAfter ObjectRow.text db.objects (objectCursor after)).map (objectRecord files))) := by
  refine ensure_bind_eq_ok_iff.mpr ⟨hlimit, loadPage_of_mapM ?_ limit.toNat⟩
  refine List.mapM_eq_ok_iff.mpr (List.forall₂_map_right_iff.mpr (List.forall₂_same.mpr ?_))
  intro row hrow
  obtain ⟨hmem, -⟩ := mem_rowsAfter.mp hrow
  exact decodeObject_eq (hsizes row hmem) (hnodes row hmem) foreign

/-! ### Referenced objects -/

/-- The objects of snapshot entries, terminal chunks and terminal events; `UNION` keeps each of
them once. -/
def Db.referencedObjectIds (db : Db) : List ObjectId :=
  (db.snapshotEntries.filterMap (·.objectId) ++ db.terminalChunks.map (·.objectId)
    ++ db.events.filterMap fun row => row.payload.reference?.map (·.1)).dedup

/-- `list_referenced_object_ids`. -/
def listReferencedObjectIds (db : Db) (after : Option ObjectId) (limit : UInt32) :
    StoreResult (Page ObjectId) := queryObjectIds db.referencedObjectIds after limit

theorem mem_referencedObjectIds {db : Db} {id : ObjectId} :
    id ∈ db.referencedObjectIds ↔ db.refers id := by
  rw [Db.referencedObjectIds, List.mem_dedup, refers_iff]
  simp only [List.mem_append, List.mem_filterMap, List.mem_map, or_assoc]

theorem nodup_referencedObjectIds (db : Db) : db.referencedObjectIds.Nodup := List.nodup_dedup _

theorem listReferencedObjectIds_eq {db : Db} {after : Option ObjectId} {limit : UInt32}
    (hlimit : limit.toNat ≠ 0 ∧ limit.toNat ≤ MAX_OBJECT_PAGE) :
    listReferencedObjectIds db after limit = .ok (Page.front limit.toNat
      (rowsAfter ObjectId.hex db.referencedObjectIds (objectCursor after))) :=
  ensure_bind_eq_ok_iff.mpr ⟨hlimit, loadPage_of_mapM
    (List.mapM_eq_ok_iff.mpr (List.forall₂_same.mpr fun _ _ => rfl)) limit.toNat⟩

/-! ### Files that no row indexes -/

/-- The path of a file below `objects/`. -/
def ObjectPath.relative (path : ObjectPath) : Bytes := path.directory ++ [47] ++ path.name

/-- The names of the fan-out directories, `format!("{prefix_value:02x}")`. -/
def fanOut : List Bytes := (List.range 256).map fun value => hexByte (UInt8.ofNat value)

/-- The kind of a file by its name, if it is recognized and not indexed. -/
def orphanKind? (db : Db) (path : ObjectPath) : Option OrphanFileKind :=
  match digestName path.directory path.name with
  | some id => if (db.object? id).isSome then none else some (.object id)
  | none => if isTemporaryName path.name then some .temporary else none

/-- The body of the loop over the entries of a fan-out directory. -/
def visitEntry (db : Db) (cursor : Bytes) (retained : Nat) (files : SortedMap Bytes OrphanFile)
    (entry : DirEntry) : SortedMap Bytes OrphanFile :=
  if validUtf8 entry.path.name = false then
    files
  else if entry.path.relative ≤ cursor then
    files
  else
    match orphanKind? db entry.path with
    | none => files
    | some kind =>
      match entry.node.content? with
      | none => files
      | some content =>
        files.insertWithin retained entry.path.relative ⟨entry.path, kind, content.length⟩

/-- `list_physical_orphans`.  A fan-out directory that is missing or is none has no entries. -/
def listPhysicalOrphans (db : Db) (files : Files) (after : Option Bytes) (limit : UInt32) :
    StoreResult (Page OrphanFile) := do
  ensure (limit.toNat ≠ 0 ∧ limit.toNat ≤ MAX_OBJECT_PAGE)
    (.invalidPageLimit limit.toNat MAX_OBJECT_PAGE)
  let capacity := limit.toNat
  let retained := capacity + 1
  let cursor := after.getD []
  let found := fanOut.foldl (fun found directory =>
    (files.filter fun entry => entry.path.directory = directory).foldl
      (visitEntry db cursor retained) found) SortedMap.empty
  let listed := found.entries.map Prod.snd
  return ⟨listed.take capacity, decide (capacity < listed.length)⟩

/-- The path as which an artifact is listed. -/
def OrphanFile.relative (orphan : OrphanFile) : Bytes := orphan.path.relative

/-- What the walk recognizes in an entry, wherever its page starts. -/
def artifact? (db : Db) (entry : DirEntry) : Option OrphanFile :=
  if validUtf8 entry.path.name then
    (orphanKind? db entry.path).bind fun kind =>
      entry.node.content?.map fun content => ⟨entry.path, kind, content.length⟩
  else none

/-- The recognized files that no row indexes. -/
def Files.artifacts (db : Db) (files : Files) : List OrphanFile :=
  (files.filter fun entry => fanOut.contains entry.path.directory).filterMap (artifact? db)

/-- What the walk lists of an entry, on the page after `cursor`. -/
def listed? (db : Db) (cursor : Bytes) (entry : DirEntry) : Option OrphanFile :=
  (artifact? db entry).filter fun orphan => cursor < orphan.relative

theorem path_of_artifact? {db : Db} {entry : DirEntry} {orphan : OrphanFile}
    (h : artifact? db entry = some orphan) : orphan.path = entry.path := by
  unfold artifact? at h
  by_cases hutf8 : validUtf8 entry.path.name
  · rw [if_pos hutf8] at h
    obtain ⟨kind, -, h⟩ := Option.bind_eq_some_iff.mp h
    obtain ⟨content, -, rfl⟩ := Option.map_eq_some_iff.mp h
    rfl
  · rw [if_neg hutf8] at h
    exact absurd h (by simp)

theorem mem_artifacts {db : Db} {files : Files} {orphan : OrphanFile} :
    orphan ∈ files.artifacts db
      ↔ ∃ entry ∈ files, entry.path.directory ∈ fanOut ∧ artifact? db entry = some orphan := by
  rw [Files.artifacts, List.mem_filterMap]
  constructor
  · rintro ⟨entry, hentry, h⟩
    obtain ⟨hmem, hdirectory⟩ := List.mem_filter.mp hentry
    exact ⟨entry, hmem, List.contains_iff_mem.mp hdirectory, h⟩
  · rintro ⟨entry, hmem, hdirectory, h⟩
    exact ⟨entry, List.mem_filter.mpr ⟨hmem, List.contains_iff_mem.mpr hdirectory⟩, h⟩

/-- An entry is inserted if it is recognized and comes after the cursor. -/
theorem visitEntry_eq (db : Db) (cursor : Bytes) (retained : Nat)
    (files : SortedMap Bytes OrphanFile) (entry : DirEntry) :
    visitEntry db cursor retained files entry = (listed? db cursor entry).elim files fun orphan =>
      files.insertWithin retained orphan.relative orphan := by
  unfold visitEntry listed? artifact?
  by_cases hutf8 : validUtf8 entry.path.name
  · rw [if_neg (by simp [hutf8]), if_pos hutf8]
    rcases hkind : orphanKind? db entry.path with _ | kind
    · simp
    · rcases hcontent : entry.node.content? with _ | content
      · simp
      · by_cases hcursor : entry.path.relative ≤ cursor
        · have hless : ¬ cursor < OrphanFile.relative ⟨entry.path, kind, content.length⟩ :=
            not_lt.mpr hcursor
          simp [hcursor, hless, Option.filter]
        · have hless : cursor < OrphanFile.relative ⟨entry.path, kind, content.length⟩ :=
            not_le.mp hcursor
          simp only [hcursor, if_false, Option.bind_some, Option.map_some, Option.filter,
            decide_eq_true hless, if_true, Option.elim_some]
          rfl
  · rw [if_pos (by simpa using hutf8), if_neg hutf8]
    rfl

/-- The entries in the order in which the walk comes to them. -/
def Files.visited (files : Files) : List DirEntry :=
  fanOut.flatMap fun directory => files.filter fun entry => entry.path.directory = directory

theorem mem_visited {files : Files} {entry : DirEntry} :
    entry ∈ files.visited ↔ entry ∈ files ∧ entry.path.directory ∈ fanOut := by
  simp only [Files.visited, List.mem_flatMap, List.mem_filter, decide_eq_true_iff]
  constructor
  · rintro ⟨directory, hdirectory, hmem, rfl⟩
    exact ⟨hmem, hdirectory⟩
  · rintro ⟨hmem, hdirectory⟩
    exact ⟨_, hdirectory, hmem, rfl⟩

theorem nodup_fanOut : fanOut.Nodup := by
  refine List.Nodup.map_on (fun value hvalue value' hvalue' h => ?_) List.nodup_range
  rw [List.mem_range] at hvalue hvalue'
  have hbytes : toHex [UInt8.ofNat value] = toHex [UInt8.ofNat value'] := by simpa using h
  have heq := congrArg UInt8.toNat (List.cons.inj (toHex_injective hbytes)).1
  simpa [Nat.mod_eq_of_lt hvalue, Nat.mod_eq_of_lt hvalue'] using heq

theorem length_of_mem_fanOut {directory : Bytes} (h : directory ∈ fanOut) :
    directory.length = 2 := by
  obtain ⟨value, -, rfl⟩ := List.mem_map.mp h
  rfl

theorem nodup_visited {files : Files} (h : files.Nodup) : files.visited.Nodup := by
  refine List.nodup_flatMap.mpr ⟨fun directory _ => h.filter _, nodup_fanOut.imp ?_⟩
  intro directory directory' hne entry hentry hentry'
  have hdirectory := of_decide_eq_true (List.mem_filter.mp hentry).2
  have hdirectory' := of_decide_eq_true (List.mem_filter.mp hentry').2
  exact hne (hdirectory.symm.trans hdirectory')

/-- Below two fan-out directories, a text is the path of one file. -/
theorem relative_injective {path path' : ObjectPath} (hdirectory : path.directory ∈ fanOut)
    (hdirectory' : path'.directory ∈ fanOut) (h : path.relative = path'.relative) :
    path = path' := by
  have hlength := length_of_mem_fanOut hdirectory
  have hlength' := length_of_mem_fanOut hdirectory'
  obtain ⟨hsame, hrest⟩ := List.append_inj (by simpa [ObjectPath.relative] using h)
    (hlength.trans hlength'.symm)
  cases path
  cases path'
  exact congrArg₂ ObjectPath.mk hsame (List.cons.inj hrest).2

theorem eq_of_relative_eq {db : Db} {files : Files} (hdistinct : (files.map (·.path)).Nodup)
    {orphan orphan' : OrphanFile} (hmem : orphan ∈ files.artifacts db)
    (hmem' : orphan' ∈ files.artifacts db) (h : orphan.relative = orphan'.relative) :
    orphan = orphan' := by
  obtain ⟨entry, hentry, hdirectory, hartifact⟩ := mem_artifacts.mp hmem
  obtain ⟨entry', hentry', hdirectory', hartifact'⟩ := mem_artifacts.mp hmem'
  have hpath : entry.path = entry'.path := by
    refine relative_injective hdirectory hdirectory' ?_
    rw [← path_of_artifact? hartifact, ← path_of_artifact? hartifact']
    exact h
  obtain rfl := List.inj_on_of_nodup_map hdistinct hentry hentry' hpath
  exact Option.some.inj (hartifact.symm.trans hartifact')

/-- An artifact is listed for one entry. -/
theorem entry_eq_of_artifact? {db : Db} {files : Files} (hdistinct : (files.map (·.path)).Nodup)
    {entry entry' : DirEntry} (hentry : entry ∈ files) (hentry' : entry' ∈ files)
    {orphan : OrphanFile} (h : artifact? db entry = some orphan)
    (h' : artifact? db entry' = some orphan) : entry = entry' :=
  List.inj_on_of_nodup_map hdistinct hentry hentry'
    ((path_of_artifact? h).symm.trans (path_of_artifact? h'))

theorem nodup_relative (db : Db) {files : Files} (hdistinct : (files.map (·.path)).Nodup) :
    ((files.artifacts db).map OrphanFile.relative).Nodup := by
  refine List.Nodup.map_on (fun orphan hmem orphan' hmem' h =>
    eq_of_relative_eq hdistinct hmem hmem' h) ?_
  refine Table.nodup_filterMap ((List.Nodup.of_map _ hdistinct).filter _) ?_
  intro entry hentry entry' hentry' orphan h h'
  exact entry_eq_of_artifact? hdistinct (List.mem_filter.mp hentry).1 (List.mem_filter.mp hentry').1
    h h'

theorem listed?_eq_some_iff {db : Db} {cursor : Bytes} {entry : DirEntry} {orphan : OrphanFile} :
    listed? db cursor entry = some orphan
      ↔ artifact? db entry = some orphan ∧ cursor < orphan.relative := by
  rw [listed?, Option.filter_eq_some_iff, decide_eq_true_iff]

/-- The walk makes the map of what it lists, as far as it is retained. -/
theorem foldl_visitEntry (db : Db) (cursor : Bytes) (retained : Nat) (entries : List DirEntry)
    (files : SortedMap Bytes OrphanFile) :
    entries.foldl (visitEntry db cursor retained) files
      = ((entries.filterMap (listed? db cursor)).map fun orphan =>
          (orphan.relative, orphan)).foldl (fun files e => files.insertWithin retained e.1 e.2)
          files := by
  induction entries generalizing files with
  | nil => rfl
  | cons entry rest ih =>
    rw [List.foldl_cons, ih, visitEntry_eq, List.filterMap_cons]
    rcases listed? db cursor entry with _ | orphan
    · rfl
    · rfl

/-- What the walk lists, in the order in which it comes to it, is what the page lists in order. -/
theorem mem_listed {db : Db} {files : Files} {cursor : Bytes} {orphan : OrphanFile} :
    orphan ∈ files.visited.filterMap (listed? db cursor)
      ↔ orphan ∈ rowsAfter OrphanFile.relative (files.artifacts db) cursor := by
  rw [mem_rowsAfter, mem_artifacts, List.mem_filterMap]
  constructor
  · rintro ⟨entry, hentry, h⟩
    obtain ⟨hmem, hdirectory⟩ := mem_visited.mp hentry
    obtain ⟨hartifact, hless⟩ := listed?_eq_some_iff.mp h
    exact ⟨⟨entry, hmem, hdirectory, hartifact⟩, hless⟩
  · rintro ⟨⟨entry, hmem, hdirectory, hartifact⟩, hless⟩
    exact ⟨entry, mem_visited.mpr ⟨hmem, hdirectory⟩, listed?_eq_some_iff.mpr ⟨hartifact, hless⟩⟩

/-- The map of all that is listed has it in the order of the paths. -/
theorem entries_listed {db : Db} {files : Files} (hdistinct : (files.map (·.path)).Nodup)
    (cursor : Bytes) :
    (((files.visited.filterMap (listed? db cursor)).map fun orphan =>
        (orphan.relative, orphan)).foldl (fun files e => files.insert e.1 e.2)
        SortedMap.empty).entries
      = (rowsAfter OrphanFile.relative (files.artifacts db) cursor).map fun orphan =>
          (orphan.relative, orphan) := by
  have hsorted := rowsAfter_pairwise (nodup_relative db hdistinct) cursor
  have hkeys : (((files.visited.filterMap (listed? db cursor)).map fun orphan =>
      (orphan.relative, orphan)).map Prod.fst).Nodup := by
    rw [List.map_map]
    refine List.Nodup.map_on (fun orphan hmem orphan' hmem' h => ?_) ?_
    · exact eq_of_relative_eq hdistinct (mem_rowsAfter.mp (mem_listed.mp hmem)).1
        (mem_rowsAfter.mp (mem_listed.mp hmem')).1 h
    · refine Table.nodup_filterMap (nodup_visited (List.Nodup.of_map _ hdistinct)) ?_
      intro entry hentry entry' hentry' orphan h h'
      exact entry_eq_of_artifact? hdistinct (mem_visited.mp hentry).1 (mem_visited.mp hentry').1
        (listed?_eq_some_iff.mp h).1 (listed?_eq_some_iff.mp h').1
  refine @eq_of_pairwise_key _ _ _ Prod.fst _ _ (SortedMap.sorted _) ?_ fun e => ?_
  · exact List.pairwise_map.mpr hsorted
  · rw [SortedMap.mem_foldl_insert hkeys (by simp)]
    simp only [SortedMap.entries_empty, List.not_mem_nil, false_or, List.mem_map, mem_listed]

/-- **The walk over the fan-out directories** lists a page of the recognized files. -/
theorem listPhysicalOrphans_eq {files : Files} (hdistinct : (files.map (·.path)).Nodup) (db : Db)
    (after : Option Bytes) (limit : UInt32) :
    listPhysicalOrphans db files after limit = (do
      ensure (limit.toNat ≠ 0 ∧ limit.toNat ≤ MAX_OBJECT_PAGE)
        (.invalidPageLimit limit.toNat MAX_OBJECT_PAGE)
      return Page.front limit.toNat
        (rowsAfter OrphanFile.relative (files.artifacts db) (after.getD []))) := by
  have hwalk : fanOut.foldl (fun found directory =>
      (files.filter fun entry => entry.path.directory = directory).foldl
        (visitEntry db (after.getD []) (limit.toNat + 1)) found) SortedMap.empty
      = files.visited.foldl (visitEntry db (after.getD []) (limit.toNat + 1)) SortedMap.empty := by
    rw [Files.visited, List.foldl_flatMap]
  have hentries : ((files.visited.foldl (visitEntry db (after.getD []) (limit.toNat + 1))
      SortedMap.empty).entries.map Prod.snd)
      = (rowsAfter OrphanFile.relative (files.artifacts db) (after.getD [])).take
          (limit.toNat + 1) := by
    have hempty : (SortedMap.empty : SortedMap Bytes OrphanFile).entries
        = (SortedMap.empty : SortedMap Bytes OrphanFile).entries.take (limit.toNat + 1) := rfl
    have hretained := SortedMap.entries_foldl_insertWithin (limit.toNat + 1)
      ((files.visited.filterMap (listed? db (after.getD []))).map fun orphan =>
        (orphan.relative, orphan)) hempty
    rw [foldl_visitEntry, hretained, entries_listed hdistinct, ← List.map_take, List.map_map]
    exact List.map_id _
  unfold listPhysicalOrphans
  simp only [hwalk, hentries]
  refine congrArg _ (funext fun _ => congrArg Except.ok ?_)
  exact Page.front_take limit.toNat _

/-! ### Reachable stores -/

/-- What the tables agree on about objects. -/
structure Db.Collectable (db : Db) : Prop where
  objects : (db.objects.map (·.id)).Nodup
  sizes : ∀ row ∈ db.objects, row.logicalSize < 2 ^ 64 ∧ row.storedSize < 2 ^ 64
  kinds : ∀ row ∈ db.events, row.kind = payloadKind row.payload
  chunks : ∀ row ∈ db.terminalChunks, ∃ event ∈ db.events,
    event.payload.reference?.map (·.1) = some row.objectId
  indexed : db.Indexed

theorem collectable_empty : Db.empty.Collectable where
  objects := List.nodup_nil
  sizes := fun _ h => absurd h List.not_mem_nil
  kinds := fun _ h => absurd h List.not_mem_nil
  chunks := fun _ h => absurd h List.not_mem_nil
  indexed := fun id hid => absurd hid (by simp [Db.refers, objectIsReferenced, Db.empty])

/-- A statement that leaves objects, events and chunks alone. -/
theorem Db.Collectable.of_eq {db db' : Db} (h : db.Collectable) {ids : List ObjectId}
    (hadds : AddsReferences db db' ids) (hevents : db'.events = db.events)
    (hchunks : db'.terminalChunks = db.terminalChunks) : db'.Collectable where
  objects := by
    rw [hadds.objects]
    exact h.objects
  sizes := by
    rw [hadds.objects]
    exact h.sizes
  kinds := by
    rw [hevents]
    exact h.kinds
  chunks := by
    rw [hevents, hchunks]
    exact h.chunks
  indexed := hadds.keepsIndexed h.indexed

theorem collectable_append {db db' : Db} {events : List Event}
    (h : appendEventBatchIn db events = .ok db') (hdb : db.Collectable) : db'.Collectable := by
  have hadds := addsReferences_append h
  obtain ⟨rfl, -⟩ := appendEventBatchIn_ok h
  refine ⟨hdb.objects, hdb.sizes, fun row hrow => ?_, fun row hrow => ?_,
    hadds.keepsIndexed hdb.indexed⟩
  · rcases List.mem_append.mp hrow with hold | hnew
    · exact hdb.kinds row hold
    · obtain ⟨event, -, rfl⟩ := List.mem_map.mp hnew
      rfl
  · rcases List.mem_append.mp hrow with hold | hnew
    · obtain ⟨event, hevent, hobject⟩ := hdb.chunks row hold
      exact ⟨event, List.mem_append_left _ hevent, hobject⟩
    · obtain ⟨event, hevent, hchunk⟩ := List.mem_filterMap.mp hnew
      exact ⟨eventRow event, List.mem_append_right _ (List.mem_map_of_mem hevent),
        mem_terminalChunkRow? hchunk⟩

theorem collectable_recordObject {db db' : Db} {stored : StoredObject} {createdUnixMs : Int64}
    (h : recordObject db stored createdUnixMs = .ok db') (hdb : db.Collectable) :
    db'.Collectable := by
  obtain ⟨row, -, hlogical, hstored, rfl, -⟩ := recordObject_ok h
  unfold Db.insertObject
  by_cases hold : row.id ∈ db.objects.map (·.id)
  · rw [if_pos hold]
    exact hdb
  · rw [if_neg hold]
    refine ⟨Table.insert_nodup _ hdb.objects hold, fun other hother => ?_, hdb.kinds, hdb.chunks,
      fun id hid => ?_⟩
    · rcases List.mem_append.mp hother with hother | hother
      · exact hdb.sizes other hother
      · obtain rfl := List.mem_singleton.mp hother
        exact ⟨hlogical ▸ stored.logicalSize.toNat_lt, hstored ▸ stored.storedSize.toNat_lt⟩
    · rw [Db.object?, Table.find_append, Option.isSome_or]
      exact Bool.or_eq_true_iff.mpr
        (Or.inl (hdb.indexed id ((refers_congr rfl rfl rfl id).mp hid)))

/-- The row of an object that nothing refers to may go. -/
theorem Db.Collectable.withoutObject {db : Db} (h : db.Collectable) {id : ObjectId}
    (hid : ¬ db.refers id) : (db.withoutObject id).Collectable where
  objects := h.objects.sublist (List.filter_sublist.map _)
  sizes := fun row hrow => h.sizes row (List.mem_filter.mp hrow).1
  kinds := h.kinds
  chunks := h.chunks
  indexed := h.indexed.withoutObject hid

theorem collectable_deleteObjectRow {db db' : Db} {id : ObjectId}
    (h : deleteObjectRow db id = .ok db') (hdb : db.Collectable) : db'.Collectable := by
  obtain ⟨hreferenced, rfl⟩ := deleteObjectRow_ok h
  refine hdb.withoutObject ?_
  rw [Db.refers, hreferenced]
  decide

theorem collectable_storeSnapshotIn {codecs : Codecs} {db db' : Db} {snapshot : Snapshot}
    {createdAt : Timestamp} (h : storeSnapshotIn codecs db snapshot createdAt = .ok db')
    (hdb : db.Collectable) : db'.Collectable := by
  have hadds := addsReferences_storeSnapshot h
  obtain ⟨snapshots, snapshotEntries, rfl⟩ := storeSnapshotIn_frame h
  exact hdb.of_eq hadds rfl rfl

/-- Every statement of the writer keeps the tables so. -/
theorem statements_keepCollectable (codecs : Codecs) :
    StatementsRelate codecs fun db db' => db.Collectable → db'.Collectable where
  refl _ h := h
  trans h h' hdb := h' (h hdb)
  createRun h hdb := by
    obtain ⟨-, -, -, runArguments, runParents, rfl⟩ := createRun_ok h
    exact hdb.of_eq (AddsReferences.of_eq rfl rfl rfl rfl) rfl rfl
  markRunRunning h hdb := by
    obtain ⟨-, rfl⟩ := markRunRunning_ok h
    exact hdb.of_eq (AddsReferences.of_eq rfl rfl rfl rfl) rfl rfl
  append := collectable_append
  storeSnapshot := collectable_storeSnapshotIn
  checkpoint h hdb := by
    obtain ⟨db₁, hstore, -, -, -, rfl⟩ := commitCheckpointIn_ok h
    exact (collectable_storeSnapshotIn hstore hdb).of_eq (AddsReferences.of_eq rfl rfl rfl rfl)
      rfl rfl
  finish h hdb := by
    obtain ⟨-, -, rfl⟩ := finishRunIn_ok h
    exact hdb.of_eq (AddsReferences.of_eq rfl rfl rfl rfl) rfl rfl
  recover h hdb := by
    obtain ⟨-, warnings, rfl⟩ := markInterruptedRuns_ok h
    exact hdb.of_eq (AddsReferences.of_eq rfl rfl rfl rfl) rfl rfl
  recordObject := collectable_recordObject
  deleteObject := collectable_deleteObjectRow

/-- **The tables of a reachable store** agree on the objects. -/
theorem collectable_reachable {codecs : Codecs} {d : Disk} (h : d.Reachable codecs) :
    d.db.Collectable := by
  obtain ⟨plan, ops, rfl⟩ := h
  exact (statements_keepCollectable codecs).diskRun plan Disk.empty ops collectable_empty

/-- The names are distinct, and stand for files. -/
structure Files.Plain (files : Files) : Prop where
  distinct : (files.map (·.path)).Nodup
  files : ∀ entry ∈ files, entry.node ≠ .other

theorem Files.node?_eq_none_iff {files : Files} {path : ObjectPath} :
    files.node? path = none ↔ path ∉ files.map (·.path) := by
  rw [Files.node?, Option.map_eq_none_iff, Table.find_eq_none_iff]

theorem Files.Plain.node? {files : Files} (h : files.Plain) (path : ObjectPath) :
    files.node? path ≠ some .other := by
  intro hnode
  obtain ⟨entry, hfind, hother⟩ := Option.map_eq_some_iff.mp hnode
  exact h.files entry (Table.mem_of_find _ hfind) hother

theorem Files.Plain.create {files : Files} (h : files.Plain) {path : ObjectPath}
    (hnew : files.node? path = none) (content : Bytes) :
    (files.create path (.file content)).Plain := by
  refine ⟨Table.insert_nodup _ h.distinct (Files.node?_eq_none_iff.mp hnew), fun entry hentry => ?_⟩
  rcases List.mem_append.mp hentry with hold | hlast
  · exact h.files entry hold
  · obtain rfl := List.mem_singleton.mp hlast
    simp

theorem Files.Plain.write {files : Files} (h : files.Plain) (path : ObjectPath) (content : Bytes) :
    (files.write path content).Plain := by
  refine ⟨?_, fun entry hentry => ?_⟩
  · have hkeys := Table.map_key_update DirEntry.path (p := fun entry => entry.path = path)
      (f := fun entry => { entry with node := .file content }) (fun _ => rfl) files
    exact hkeys ▸ h.distinct
  · obtain ⟨old, hold, rfl⟩ := List.mem_map.mp hentry
    by_cases hpath : old.path = path
    · simp [hpath]
    · simp only [hpath, decide_false, Bool.false_eq_true, if_false]
      exact h.files old hold

theorem Files.Plain.remove {files : Files} (h : files.Plain) (path : ObjectPath) :
    (files.remove path).Plain :=
  ⟨h.distinct.sublist (List.filter_sublist.map _),
    fun entry hentry => h.files entry (List.mem_filter.mp hentry).1⟩

section Plain

open Call

variable {codecs : Codecs} {plan : FaultPlan}

/-- The files of the disk are plain. -/
def PlainFiles (d : Disk) : Prop := d.files.Plain

theorem keepsPlain_inspect {α : Type} {operation : String} {f : Disk → StoreResult α} :
    Keeps PlainFiles (DiskCall.inspect plan operation f) :=
  spec_inspect (fun _ hd => hd) fun _ _ hd _ => hd

theorem keepsPlain_ofResult {α : Type} {result : StoreResult α} :
    Keeps PlainFiles (DiskCall.ofResult result) :=
  spec_ofResult (fun _ hd => hd) fun _ _ hd _ => hd

theorem keepsPlain_commit {operation : String} {f : Db → StoreResult Db} :
    Keeps PlainFiles (DiskCall.commit plan operation f) :=
  spec_commit (fun _ hd => hd) fun _ _ hd _ => hd

theorem keepsPlain_onFiles_ok {operation : String} :
    Keeps PlainFiles (DiskCall.onFiles plan operation .ok) := by
  refine spec_onFiles (fun _ hd => hd) fun d files hd hfiles => ?_
  obtain rfl := Except.ok.inj hfiles
  exact hd

theorem keepsPlain_createTemp (directory : Bytes) :
    Keeps PlainFiles (createTemp plan directory) := by
  refine spec_step (fun _ hd => hd) fun d temp db files hd hresult => ?_
  rcases hpath : temporaryPath d.files directory (plan.pid d.tick) 32 (plan.sequence d.tick)
    with _ | path
  · rw [hpath] at hresult
    exact absurd hresult (by simp)
  · rw [hpath] at hresult
    obtain ⟨rfl, rfl, rfl⟩ := by simpa using hresult
    exact Files.Plain.create hd (temporaryPath_spec hpath).2 []

theorem keepsPlain_writeTemp (path : ObjectPath) (envelope : Bytes) :
    Keeps PlainFiles (writeTemp plan path envelope) := by
  intro d hd
  unfold writeTemp
  rw [exec_ofFun]
  cases plan.fault d.tick with
  | crash => exact Files.Plain.write hd path _
  | fails => exact Files.Plain.write hd path _
  | none => exact Files.Plain.write hd path envelope

theorem keepsPlain_hardLink (existing new : ObjectPath) :
    Keeps PlainFiles (hardLink plan existing new) := by
  refine spec_step (fun _ hd => hd) fun d linked db files hd hresult => ?_
  rcases hnode : d.files.node? existing with _ | (content | _)
  · rw [hnode] at hresult
    exact absurd hresult (by simp)
  · rw [hnode] at hresult
    by_cases htaken : (d.files.node? new).isSome
    · simp only [htaken, if_true] at hresult
      obtain ⟨rfl, rfl, rfl⟩ := by simpa using hresult
      exact hd
    · simp only [htaken, Bool.false_eq_true, if_false] at hresult
      obtain ⟨rfl, rfl, rfl⟩ := by simpa using hresult
      exact Files.Plain.create hd (Option.not_isSome_iff_eq_none.mp htaken) content
  · rw [hnode] at hresult
    exact absurd hresult (by simp)

theorem keepsPlain_removeFile (operation : String) (path : ObjectPath) :
    Keeps PlainFiles (removeFile plan operation path) := by
  refine spec_onFiles (fun _ hd => hd) fun d files hd hfiles => ?_
  rw [removeFile_eq_ok hfiles]
  exact Files.Plain.remove hd path

theorem keepsPlain_rescue {α : Type} {m : DiskCall α} (h : Keeps PlainFiles m) :
    Keeps PlainFiles (DiskCall.rescue m) :=
  spec_rescue (h.imp (fun _ hd => hd) (fun _ _ hd => hd) fun _ hd => ⟨hd, fun _ => hd⟩)

theorem keepsPlain_verifyExisting (id : ObjectId) (bytes : Bytes) :
    Keeps PlainFiles (verifyExisting plan codecs id bytes) := by
  refine keeps_bind keepsPlain_inspect fun content => ?_
  refine keeps_bind keepsPlain_ofResult fun payload => ?_
  exact keeps_bind keepsPlain_ofResult fun _ => keeps_pure _

theorem keepsPlain_importObject (expected : ObjectId) (bytes : Bytes) (createdUnixMs : Int64) :
    Keeps PlainFiles (importObject plan codecs expected bytes createdUnixMs) := by
  refine keeps_bind ?_ fun stored => keeps_bind keepsPlain_commit fun _ => keeps_pure _
  refine keeps_bind keepsPlain_ofResult fun _ => ?_
  refine keeps_bind keepsPlain_onFiles_ok fun _ => ?_
  refine keeps_bind keepsPlain_inspect fun present => ?_
  refine spec_ite (fun _ => keepsPlain_verifyExisting expected bytes) fun _ => ?_
  refine keeps_bind keepsPlain_ofResult fun envelope => ?_
  refine keeps_bind (keepsPlain_createTemp _) fun temp => ?_
  refine keeps_bind (keepsPlain_rescue ?_) fun install => ?_
  · refine keeps_bind (keepsPlain_writeTemp temp envelope) fun _ => ?_
    refine keeps_bind keepsPlain_onFiles_ok fun _ => ?_
    refine keeps_bind (keepsPlain_hardLink temp _) fun linked => ?_
    refine spec_ite (fun _ => keepsPlain_onFiles_ok) fun _ => ?_
    exact keeps_bind (keepsPlain_verifyExisting expected bytes) fun _ => keeps_pure _
  · refine keeps_bind (keepsPlain_rescue (keepsPlain_removeFile _ temp)) fun cleanup => ?_
    rcases install with error | _
    · exact keeps_throw _
    · rcases cleanup with error | _
      · exact keeps_throw _
      · exact keeps_pure _

/-- Every operation keeps the files plain, whatever fails. -/
theorem keepsPlain_exec (op : StoreOp) : Keeps PlainFiles (op.exec plan codecs) := by
  cases op with
  | transaction op hop =>
    unfold StoreOp.exec
    exact keepsPlain_commit
  | putObject bytes createdUnixMs =>
    exact keeps_bind (keepsPlain_importObject _ bytes createdUnixMs) fun _ => keeps_pure _
  | importObject expected bytes createdUnixMs =>
    exact keeps_bind (keepsPlain_importObject expected bytes createdUnixMs) fun _ => keeps_pure _
  | deleteObject id =>
    refine keeps_bind (keeps_bind keepsPlain_inspect fun _ => ?_) fun _ => keeps_pure _
    refine keeps_bind (keepsPlain_removeFile _ _) fun _ => ?_
    exact keeps_bind keepsPlain_commit fun _ => keeps_pure _
  | deletePhysicalOrphan orphan =>
    refine keeps_bind (keeps_bind keepsPlain_inspect fun _ => ?_) fun _ => keeps_pure _
    refine keeps_bind keepsPlain_ofResult fun _ => keeps_bind ?_ fun _ => keeps_pure _
    refine spec_onFiles (fun _ hd => hd) fun d files hd hfiles => ?_
    obtain rfl := Except.ok.inj hfiles
    exact Files.Plain.remove hd orphan.path

/-- The files of a reachable store are plain. -/
theorem plain_reachable {d : Disk} (h : d.Reachable codecs) : d.files.Plain := by
  obtain ⟨plan, ops, rfl⟩ := h
  refine Machine.run_invariant (I := PlainFiles) ?_ ?_ ops
  · exact fun d op hd => (keepsPlain_exec op).state hd
  · exact ⟨List.nodup_nil, fun _ hentry => absurd hentry List.not_mem_nil⟩

end Plain

end Rewind

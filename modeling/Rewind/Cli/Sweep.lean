/-
What a collection removes.

While it runs, the listings that it reads change under it.  What is behind the cursor of a listing
does not, so a collection visits the listings of the disk that it began on.

* `ObjectsAt`, `ArtifactsAt` — how far the two loops have come;
* `objectsAt_step`, `artifactsAt_step` — what one object and one file come to;
* `Swept` — a disk that has lost at most what is to go;
* **`collect_exact`** — over every reachable store with strays among its files;
* **`collect_resumed`** — collections that are cut off, and one that returns.
-/
import Rewind.Cli.Collect

namespace Rewind

open Call

/-! ### What is to go -/

/-- The records of the index, in the order of the objects. -/
def Db.records (db : Db) (files : Files) : List ObjectRecord :=
  (rowsAfter ObjectRow.text db.objects []).map (objectRecord files)

/-- Whether nothing refers to the object of a record. -/
def ObjectRecord.isGarbage (db : Db) (object : ObjectRecord) : Bool :=
  !objectIsReferenced db object.id

/-- The records of the objects that nothing refers to, in their order. -/
def Db.garbage (db : Db) (files : Files) : List ObjectRecord :=
  (db.records files).filter (ObjectRecord.isGarbage db)

/-- The recognized files that no row indexes, in the order of their paths. -/
def Db.debris (db : Db) (files : Files) : List OrphanFile :=
  rowsAfter OrphanFile.relative (files.artifacts db) []

/-- The paths of what is to go. -/
def Db.doomed (db : Db) (files : Files) : List ObjectPath :=
  (db.garbage files).map (fun object => pathFor object.id) ++ (db.debris files).map (·.path)

/-- The index without the rows of some objects. -/
def Db.withoutObjects (db : Db) (ids : List ObjectId) : Db :=
  { db with objects := db.objects.filter fun row => row.id ∉ ids }

/-- The files without those at some paths. -/
def Files.without (files : Files) (paths : List ObjectPath) : Files :=
  files.filter fun entry => entry.path ∉ paths

@[simp] theorem withoutObjects_nil (db : Db) : db.withoutObjects [] = db := by
  simp [Db.withoutObjects]

@[simp] theorem without_nil (files : Files) : files.without [] = files := by
  simp [Files.without]

theorem withoutObjects_withoutObjects (db : Db) (ids ids' : List ObjectId) :
    (db.withoutObjects ids).withoutObjects ids' = db.withoutObjects (ids ++ ids') := by
  unfold Db.withoutObjects
  congr 1
  rw [List.filter_filter]
  refine List.filter_congr fun row _ => ?_
  simp [Bool.and_comm]

theorem without_without (files : Files) (paths paths' : List ObjectPath) :
    (files.without paths).without paths' = files.without (paths ++ paths') := by
  unfold Files.without
  rw [List.filter_filter]
  refine List.filter_congr fun entry _ => ?_
  simp [Bool.and_comm]

theorem withoutObject_withoutObjects (db : Db) (ids : List ObjectId) (id : ObjectId) :
    (db.withoutObjects ids).withoutObject id = db.withoutObjects (ids ++ [id]) := by
  rw [← withoutObjects_withoutObjects]
  unfold Db.withoutObjects Db.withoutObject
  simp only [List.mem_singleton]

theorem remove_without (files : Files) (paths : List ObjectPath) (path : ObjectPath) :
    (files.without paths).remove path = files.without (paths ++ [path]) := by
  rw [← without_without]
  unfold Files.without Files.remove
  simp only [List.mem_singleton]

theorem refers_withoutObjects (db : Db) (ids : List ObjectId) (id : ObjectId) :
    (db.withoutObjects ids).refers id ↔ db.refers id := refers_congr rfl rfl rfl id

theorem Db.Collectable.withoutObjects {db : Db} (h : db.Collectable) {ids : List ObjectId}
    (hids : ∀ id ∈ ids, ¬ db.refers id) : (db.withoutObjects ids).Collectable := by
  induction ids using List.reverseRecOn with
  | nil => rwa [withoutObjects_nil]
  | append_singleton ids id ih =>
    rw [← withoutObject_withoutObjects]
    refine (ih fun id' hid' => hids id' (List.mem_append_left _ hid')).withoutObject ?_
    rw [refers_withoutObjects]
    exact hids id (List.mem_append_right _ (List.mem_singleton_self id))

theorem node?_without (files : Files) (paths : List ObjectPath) {path : ObjectPath}
    (h : path ∉ paths) : (files.without paths).node? path = files.node? path := by
  induction paths using List.reverseRecOn with
  | nil => rw [without_nil]
  | append_singleton paths last ih =>
    rw [← remove_without, Files.node?_remove, if_neg ?_]
    · exact ih fun hmem => h (List.mem_append_left _ hmem)
    · rintro rfl
      exact h (List.mem_append_right _ (List.mem_singleton_self _))

theorem object?_withoutObjects (db : Db) {ids : List ObjectId} {id : ObjectId} (h : id ∉ ids) :
    ((db.withoutObjects ids).object? id).isSome = (db.object? id).isSome := by
  rw [Bool.eq_iff_iff, Db.object?, Db.object?, Table.find_isSome_iff, Table.find_isSome_iff]
  constructor
  · intro hmem
    obtain ⟨row, hrow, rfl⟩ := List.mem_map.mp hmem
    exact List.mem_map_of_mem (List.mem_filter.mp hrow).1
  · intro hmem
    obtain ⟨row, hrow, rfl⟩ := List.mem_map.mp hmem
    exact List.mem_map_of_mem (List.mem_filter.mpr ⟨hrow, decide_eq_true h⟩)

/-! ### One object -/

/-- The rows that are gone when some of the records have been visited. -/
def sweptIds (db : Db) (delete : Bool) (visited : List ObjectRecord) : List ObjectId :=
  if delete then (visited.filter (ObjectRecord.isGarbage db)).map (·.id) else []

/-- What the report says of one object. -/
def GcReport.collected (delete : Bool) (report : GcReport) (object : ObjectRecord) : GcReport :=
  if delete then (report.unreachable object).deleted object else report.unreachable object

/-- The loop over the index has visited `front`, and `back` is ahead of it. -/
structure ObjectsAt (since : Nat) (db : Db) (files : Files) (delete : Bool)
    (front back : List ObjectRecord) (state : ReferenceCursor × GcReport) (d : Disk) : Prop where
  split : db.records files = front ++ back
  holds : Holds since (db.withoutObjects (sweptIds db delete front))
    (files.without ((sweptIds db delete front).map pathFor)) d
  report : state.2 = (front.filter (ObjectRecord.isGarbage db)).foldl (GcReport.collected delete)
    (GcReport.new delete)
  references : ∃ rest, state.1.At db.sortedReferences rest
    ∧ ∀ object ∈ back, db.refers object.id → object.id ∈ rest

theorem isGarbage_iff {db : Db} {object : ObjectRecord} :
    object.isGarbage db = true ↔ ¬ db.refers object.id := by
  simp [ObjectRecord.isGarbage, Db.refers]

theorem mem_records {db : Db} {files : Files} {object : ObjectRecord} :
    object ∈ db.records files ↔ ∃ row ∈ db.objects, objectRecord files row = object := by
  rw [Db.records, List.mem_map]
  constructor
  · rintro ⟨row, hrow, rfl⟩
    exact ⟨row, (mem_rowsAfter.mp hrow).1, rfl⟩
  · rintro ⟨row, hrow, rfl⟩
    exact ⟨row, mem_rowsAfter.mpr ⟨hrow, nil_lt_hex row.id⟩, rfl⟩

theorem nodup_text {db : Db} (hdb : db.Collectable) : (db.objects.map ObjectRow.text).Nodup := by
  have hmap : db.objects.map ObjectRow.text = (db.objects.map (·.id)).map ObjectId.hex := by
    rw [List.map_map]
    rfl
  rw [hmap]
  exact hdb.objects.map hex_injective

theorem records_pairwise {db : Db} (hdb : db.Collectable) (files : Files) :
    (db.records files).Pairwise fun object object' => object.id < object'.id := by
  refine List.pairwise_map.mpr ((rowsAfter_pairwise (nodup_text hdb) []).imp ?_)
  intro row row' h
  exact hex_lt_iff.mp h

theorem object?_of_mem_records {db : Db} {files : Files} {object : ObjectRecord}
    (h : object ∈ db.records files) : (db.object? object.id).isSome := by
  obtain ⟨row, hrow, rfl⟩ := mem_records.mp h
  exact (Table.find_isSome_iff ObjectRow.id).mpr (List.mem_map_of_mem hrow)

theorem sweptIds_append (db : Db) (delete : Bool) (visited : List ObjectRecord)
    (object : ObjectRecord) :
    sweptIds db delete (visited ++ [object]) = sweptIds db delete visited
      ++ if delete = true ∧ object.isGarbage db = true then [object.id] else [] := by
  unfold sweptIds
  cases delete
  · simp
  · cases hgarbage : object.isGarbage db <;> simp [hgarbage]

theorem mem_sweptIds {db : Db} {delete : Bool} {visited : List ObjectRecord} {id : ObjectId}
    (h : id ∈ sweptIds db delete visited) :
    delete = true ∧ ∃ object ∈ visited, object.isGarbage db = true ∧ object.id = id := by
  unfold sweptIds at h
  cases delete
  · exact absurd h (by simp)
  · obtain ⟨object, hobject, rfl⟩ := List.mem_map.mp h
    obtain ⟨hmem, hgarbage⟩ := List.mem_filter.mp hobject
    exact ⟨rfl, object, hmem, hgarbage, rfl⟩

/-- What a collection leaves that has got so far: a row goes after its file and only if nothing
refers to it, and another file goes only as an artifact. -/
def SweptTo (db : Db) (files : Files) (delete : Bool) (db' : Db) (files' : Files) : Prop :=
  ∃ ids paths, db' = db.withoutObjects ids ∧ files' = files.without paths
    ∧ (delete = false → ids = [] ∧ paths = [])
    ∧ (∀ id ∈ ids, ¬ db.refers id ∧ pathFor id ∈ paths)
    ∧ ∀ path ∈ paths, path ∈ db.doomed files

theorem mem_doomed_of_garbage {db : Db} {files : Files} {object : ObjectRecord}
    (h : object ∈ db.records files) (hgarbage : object.isGarbage db = true) :
    pathFor object.id ∈ db.doomed files :=
  List.mem_append_left _ (List.mem_map.mpr ⟨object, List.mem_filter.mpr ⟨h, hgarbage⟩, rfl⟩)

section Objects

variable {plan : FaultPlan} {since : Nat} {db : Db} {files : Files} {delete : Bool}
  {front back : List ObjectRecord} {rest : List ObjectId} {cursor : ReferenceCursor}
  {G : Db → Files → Prop}

/-- Visited objects are swept. -/
theorem sweptTo_objects (delete : Bool) (hsplit : db.records files = front ++ back)
    (more : List ObjectPath) (hmore : ∀ path ∈ more, delete = true ∧ ∃ object ∈ db.records files,
      object.isGarbage db = true ∧ pathFor object.id = path) :
    SweptTo db files delete (db.withoutObjects (sweptIds db delete front))
      (files.without ((sweptIds db delete front).map pathFor ++ more)) := by
  have hmem : ∀ object ∈ front, object ∈ db.records files := fun object hobject =>
    hsplit ▸ List.mem_append_left back hobject
  refine ⟨_, _, rfl, rfl, ?_, fun id hid => ?_, fun path hpath => ?_⟩
  · rintro rfl
    have hnone : more = [] := List.eq_nil_iff_forall_not_mem.mpr fun path hpath =>
      absurd (hmore path hpath).1 (by decide)
    rw [hnone]
    exact ⟨rfl, rfl⟩
  · obtain ⟨-, object, -, hgarbage, rfl⟩ := mem_sweptIds hid
    exact ⟨isGarbage_iff.mp hgarbage, List.mem_append_left _ (List.mem_map_of_mem hid)⟩
  · rcases List.mem_append.mp hpath with hpath | hpath
    · obtain ⟨id, hid, rfl⟩ := List.mem_map.mp hpath
      obtain ⟨-, object, hobject, hgarbage, rfl⟩ := mem_sweptIds hid
      exact mem_doomed_of_garbage (hmem object hobject) hgarbage
    · obtain ⟨-, object, hobject, hgarbage, rfl⟩ := hmore path hpath
      exact mem_doomed_of_garbage hobject hgarbage

theorem sweptTo_visited (delete : Bool) (hsplit : db.records files = front ++ back) :
    SweptTo db files delete (db.withoutObjects (sweptIds db delete front))
      (files.without ((sweptIds db delete front).map pathFor)) := by
  have hswept := sweptTo_objects delete hsplit []
    fun path hpath => absurd hpath List.not_mem_nil
  rwa [List.append_nil] at hswept

/-- No object that is still ahead is swept. -/
theorem not_mem_sweptIds (delete : Bool) (hdb : db.Collectable)
    (hsplit : db.records files = front ++ back) {object : ObjectRecord} (hobject : object ∈ back) : object.id ∉ sweptIds db delete front := by
  intro hid
  obtain ⟨-, visited, hvisited, -, heq⟩ := mem_sweptIds hid
  have hsorted := records_pairwise hdb files
  rw [hsplit, List.pairwise_append] at hsorted
  have hless := hsorted.2.2 visited hvisited object hobject
  rw [heq] at hless
  exact absurd hless (lt_irrefl _)

theorem pathFor_not_mem_swept (delete : Bool) (hdb : db.Collectable)
    (hsplit : db.records files = front ++ back) {object : ObjectRecord} (hobject : object ∈ back) :
    pathFor object.id ∉ (sweptIds db delete front).map pathFor := by
  intro hpath
  obtain ⟨id, hid, heq⟩ := List.mem_map.mp hpath
  exact not_mem_sweptIds delete hdb hsplit hobject (pathFor_injective heq ▸ hid)

/-- The page of the index behind the visited objects. -/
theorem listObjects_swept (hdb : db.Collectable)
    (hnodes : ∀ row ∈ db.objects, files.node? (pathFor row.id) ≠ some .other)
    (hsplit : db.records files = front ++ back)
    (foreign : ObjectPath → StoreResult (Option Nat)) :
    listObjects ((files.without ((sweptIds db delete front).map pathFor)).measure foreign)
      (db.withoutObjects (sweptIds db delete front)) (front.getLast?.map (·.id)) pageLimit
      = .ok (Page.front pageLimit.toNat back) := by
  obtain ⟨frontRows, backRows, hrows, hfront, hback⟩ := List.map_eq_append_iff.mp hsplit
  have hswept : (db.withoutObjects (sweptIds db delete front)).objects.Sublist db.objects :=
    List.filter_sublist
  have hcursor : objectCursor (front.getLast?.map (·.id))
      = (frontRows.getLast?.map ObjectRow.text).getD [] := by
    rw [← hfront, List.getLast?_map, Option.map_map, objectCursor, Option.map_map]
    rfl
  have hahead : rowsAfter ObjectRow.text (db.withoutObjects (sweptIds db delete front)).objects
      (objectCursor (front.getLast?.map (·.id))) = backRows := by
    rw [hcursor, ← rowsAfter_split (nodup_text hdb) hrows]
    refine rowsAfter_congr (nodup_text hdb)
      ((nodup_text hdb).sublist (hswept.map ObjectRow.text)) fun row hafter => ?_
    refine ⟨fun hmem => hswept.mem hmem, fun hmem => List.mem_filter.mpr ⟨hmem, ?_⟩⟩
    have hrow : row ∈ backRows := by
      rw [← rowsAfter_split (nodup_text hdb) hrows]
      exact mem_rowsAfter.mpr ⟨hmem, hafter⟩
    refine decide_eq_true ?_
    exact not_mem_sweptIds delete hdb hsplit
      (hback ▸ List.mem_map_of_mem (f := objectRecord files) hrow)
  have hrecord : ∀ row ∈ backRows,
      (files.without ((sweptIds db delete front).map pathFor)).node? (pathFor row.id)
        = files.node? (pathFor row.id) := by
    intro row hrow
    exact node?_without files _ (pathFor_not_mem_swept delete hdb hsplit
      (hback ▸ List.mem_map_of_mem (f := objectRecord files) hrow))
  rw [listObjects_eq pageLimit_valid (fun row hrow => hdb.sizes row (hswept.mem hrow)) ?_ foreign,
    hahead, ← hback]
  · refine congrArg Except.ok (congrArg _ (List.map_congr_left fun row hrow => ?_))
    rw [objectRecord, objectRecord, Files.size?, Files.size?, hrecord row hrow]
  · intro row hrow hother
    obtain ⟨hmem, hkept⟩ := List.mem_filter.mp hrow
    refine hnodes row hmem ?_
    rw [← hother, node?_without]
    intro hpath
    obtain ⟨id, hid, heq⟩ := List.mem_map.mp hpath
    exact of_decide_eq_true hkept (pathFor_injective heq ▸ hid)

/-- The search for an object ends at it exactly if something refers to it. -/
theorem head?_references (hat : ReferenceCursor.At db.sortedReferences rest cursor)
    {id : ObjectId} (hid : db.refers id → id ∈ rest) :
    (rest.dropWhile (· < id)).head? = some id ↔ db.refers id := by
  obtain ⟨⟨passed, hpassed, -⟩, -, -⟩ := hat
  have hsuffix : rest <:+ db.sortedReferences := ⟨passed, hpassed.symm⟩
  constructor
  · intro hhead
    have hmem := (List.dropWhile_suffix _).mem (List.mem_of_mem_head? hhead)
    exact mem_sortedReferences.mp (hsuffix.mem hmem)
  · intro hrefers
    exact head?_dropWhile_lt ((sortedReferences_pairwise db).sublist hsuffix.sublist) (hid hrefers)

/-- **One object**: the references are read up to it; if they pass over it, it goes. -/
theorem objectsAt_step (hdb : db.Collectable)
    (hnodes : ∀ row ∈ db.objects, files.node? (pathFor row.id) ≠ some .other)
    (hG : ∀ db' files', SweptTo db files delete db' files' → G db' files') {fuel : Nat}
    (hfuel : db.sortedReferences.length < fuel) (object : ObjectRecord)
    (state : ReferenceCursor × GcReport) :
    Ends (ObjectsAt since db files delete front (object :: back) state)
      (collectObject plan fuel delete state object)
      (Either (fun state => ObjectsAt since db files delete (front ++ [object]) back state)
        (Stopped plan since G)) := by
  rintro d ⟨hsplit, hholds, hreport, rest, hat, hrest⟩
  have hmem : object ∈ db.records files :=
    hsplit ▸ List.mem_append_right front List.mem_cons_self
  have hsplit' : db.records files = (front ++ [object]) ++ back := by
    rw [hsplit, List.append_assoc, List.singleton_append]
  have hleft := hG _ _ (sweptTo_visited delete hsplit)
  have hshort : rest.length < fuel := by
    obtain ⟨⟨passed, hpassed, -⟩, -, -⟩ := hat
    have hlength := congrArg List.length hpassed
    rw [List.length_append] at hlength
    omega
  have hahead : ∀ object' ∈ back, db.refers object'.id →
      object'.id ∈ rest.dropWhile (· < object.id) := by
    intro object' hobject' hrefers
    have hsorted := records_pairwise hdb files
    rw [hsplit, List.pairwise_append, List.pairwise_cons] at hsorted
    exact mem_dropWhile_lt (hrest object' (List.mem_cons_of_mem _ hobject') hrefers)
      (le_of_lt (hsorted.2.1.1 object' hobject'))
  have hhead := head?_references hat (hrest object List.mem_cons_self)
  unfold collectObject
  refine ends_either_bind (ends_advanceBefore object.id rfl hleft hat (Or.inl hshort))
    (fun references => ?_) d hholds
  rintro d ⟨hholds, hat', hcurrent⟩
  by_cases hrefers : db.refers object.id
  · have hgarbage : object.isGarbage db = false := by
      rw [← Bool.not_eq_true, isGarbage_iff]
      exact not_not_intro hrefers
    rw [if_pos (hcurrent.trans (hhead.mpr hrefers))]
    refine ⟨hsplit', ?_, ?_, _, hat', hahead⟩
    · rw [sweptIds_append, if_neg (by simp [hgarbage]), List.append_nil]
      exact hholds
    · rw [List.filter_append, List.filter_singleton, hgarbage, cond_false, List.append_nil]
      exact hreport
  · have hgarbage : object.isGarbage db = true := isGarbage_iff.mpr hrefers
    rw [if_neg (fun h => hrefers (hhead.mp (hcurrent.symm.trans h)))]
    have hfold : (front ++ [object]).filter (ObjectRecord.isGarbage db)
        = front.filter (ObjectRecord.isGarbage db) ++ [object] := by
      rw [List.filter_append, List.filter_singleton, hgarbage, cond_true]
    have hreport' : GcReport.collected delete state.2 object
        = ((front ++ [object]).filter (ObjectRecord.isGarbage db)).foldl
          (GcReport.collected delete) (GcReport.new delete) := by
      rw [hfold, List.foldl_append, ← hreport]
      rfl
    cases hdelete : delete
    · subst hdelete
      refine ⟨hsplit', ?_, hreport', _, hat', hahead⟩
      rw [sweptIds_append, if_neg (by simp), List.append_nil]
      exact hholds
    · subst hdelete
      have hswept := sweptIds_append db true front object
      rw [if_pos ⟨rfl, hgarbage⟩] at hswept
      have hnot := not_mem_sweptIds true hdb hsplit List.mem_cons_self
      have hpath := pathFor_not_mem_swept true hdb hsplit List.mem_cons_self
      have hgone : SweptTo db files true (db.withoutObjects (sweptIds db true front))
          ((files.without ((sweptIds db true front).map pathFor)).remove (pathFor object.id)) := by
        rw [remove_without]
        refine sweptTo_objects true hsplit _ fun path hpath => ⟨rfl, object, hmem, hgarbage, ?_⟩
        exact (List.mem_singleton.mp hpath).symm
      refine ends_either_bind (ends_inStore (ends_deleteObject
        (hdb.withoutObjects fun id hid => ?_) ?_ ?_ ?_ hleft (hG _ _ hgone))) (fun _ => ?_) d hholds
      · obtain ⟨-, visited, -, hvisited, rfl⟩ := mem_sweptIds hid
        exact isGarbage_iff.mp hvisited
      · rw [object?_withoutObjects db hnot]
        exact object?_of_mem_records hmem
      · rwa [refers_withoutObjects]
      · rw [node?_without files _ hpath]
        obtain ⟨row, hrow, rfl⟩ := mem_records.mp hmem
        exact hnodes row hrow
      · refine ends_pure fun d hd => ⟨hsplit', ?_, hreport', _, hat', hahead⟩
        rw [hswept, List.map_append, ← withoutObject_withoutObjects]
        rwa [remove_without] at hd

end Objects

/-! ### One file -/

/-- The files that are gone when some of the artifacts have been visited. -/
def sweptPaths (delete : Bool) (visited : List OrphanFile) : List ObjectPath :=
  if delete then visited.map (·.path) else []

/-- What the report says of one artifact. -/
def GcReport.cleared (delete : Bool) (report : GcReport) (orphan : OrphanFile) : GcReport :=
  if delete then (report.crashArtifact orphan).deletedCrashArtifact orphan
  else report.crashArtifact orphan

/-- The loop over the artifacts has visited `front`, and `back` is ahead of it. -/
structure ArtifactsAt (since : Nat) (db : Db) (files : Files) (delete : Bool) (start : GcReport)
    (front back : List OrphanFile) (report : GcReport) (d : Disk) : Prop where
  split : db.debris files = front ++ back
  holds : Holds since db (files.without (sweptPaths delete front)) d
  report : report = front.foldl (GcReport.cleared delete) start

theorem nil_lt_relative (orphan : OrphanFile) : [] < orphan.relative := by
  unfold OrphanFile.relative ObjectPath.relative
  rcases orphan.path.directory with _ | ⟨b, rest⟩
  · exact List.nil_lt_cons _ _
  · exact List.nil_lt_cons _ _

theorem mem_debris {db : Db} {files : Files} {orphan : OrphanFile} :
    orphan ∈ db.debris files ↔ orphan ∈ files.artifacts db := by
  rw [Db.debris, mem_rowsAfter]
  exact ⟨fun h => h.1, fun h => ⟨h, nil_lt_relative orphan⟩⟩

theorem all_isLowerHex_fanOut : ∀ directory ∈ fanOut, directory.all isLowerHex = true := by
  decide +kernel

/-- An artifact passes the checks of its deletion. -/
theorem artifact_valid {db : Db} {files : Files} {orphan : OrphanFile}
    (h : orphan ∈ files.artifacts db) :
    orphan.isValid = true ∧ ∀ id, orphan.kind = .object id →
      (db.object? id).isNone ∧ pathFor id = orphan.path := by
  obtain ⟨entry, -, hdirectory, hartifact⟩ := mem_artifacts.mp h
  have hpath := path_of_artifact? hartifact
  unfold artifact? at hartifact
  by_cases hutf8 : validUtf8 entry.path.name
  · rw [if_pos hutf8] at hartifact
    obtain ⟨kind, hkind, hartifact⟩ := Option.bind_eq_some_iff.mp hartifact
    obtain ⟨content, -, rfl⟩ := Option.map_eq_some_iff.mp hartifact
    unfold orphanKind? at hkind
    rcases hname : digestName entry.path.directory entry.path.name with _ | id
    · simp only [hname] at hkind
      by_cases htemporary : isTemporaryName entry.path.name = true
      · obtain rfl := Option.some.inj ((if_pos htemporary).symm.trans hkind)
        refine ⟨?_, fun id hid => absurd hid (by simp)⟩
        show (entry.path.directory.length = 2 && entry.path.directory.all isLowerHex
          && isTemporaryName entry.path.name) = true
        rw [length_of_mem_fanOut hdirectory, all_isLowerHex_fanOut _ hdirectory, htemporary]
        rfl
      · exact absurd ((if_neg htemporary).symm.trans hkind) (by simp)
    · simp only [hname] at hkind
      by_cases hindexed : (db.object? id).isSome
      · exact absurd ((if_pos hindexed).symm.trans hkind) (by simp)
      · obtain rfl := Option.some.inj ((if_neg hindexed).symm.trans hkind)
        refine ⟨decide_eq_true hname, fun id' hid' => ?_⟩
        obtain rfl := OrphanFileKind.object.inj hid'
        exact ⟨by simpa using hindexed, pathFor_of_digestName hname⟩
  · rw [if_neg hutf8] at hartifact
    exact absurd hartifact (by simp)

theorem sweptPaths_append (delete : Bool) (visited : List OrphanFile) (orphan : OrphanFile) :
    sweptPaths delete (visited ++ [orphan])
      = sweptPaths delete visited ++ if delete then [orphan.path] else [] := by
  unfold sweptPaths
  cases delete <;> simp

theorem mem_sweptPaths {delete : Bool} {visited : List OrphanFile} {path : ObjectPath}
    (h : path ∈ sweptPaths delete visited) :
    delete = true ∧ ∃ orphan ∈ visited, orphan.path = path := by
  unfold sweptPaths at h
  cases delete
  · exact absurd h (by simp)
  · exact ⟨rfl, List.mem_map.mp h⟩

section Artifacts

variable {plan : FaultPlan} {since : Nat} {db : Db} {files : Files} {delete : Bool}
  {start : GcReport} {front back : List OrphanFile} {G : Db → Files → Prop}

/-- Nothing that is still ahead is swept. -/
theorem path_not_mem_sweptPaths (hdistinct : (files.map (·.path)).Nodup)
    (hsplit : db.debris files = front ++ back) {orphan : OrphanFile} (horphan : orphan ∈ back) :
    orphan.path ∉ sweptPaths delete front := by
  intro hpath
  obtain ⟨-, visited, hvisited, heq⟩ := mem_sweptPaths hpath
  have hsorted := rowsAfter_pairwise (nodup_relative db hdistinct) []
  rw [← Db.debris, hsplit, List.pairwise_append] at hsorted
  have hless := hsorted.2.2 visited hvisited orphan horphan
  rw [OrphanFile.relative, heq] at hless
  exact absurd hless (lt_irrefl _)

/-- The page of the artifacts behind the visited ones. -/
theorem listPhysicalOrphans_swept (hdistinct : (files.map (·.path)).Nodup)
    (hsplit : db.debris files = front ++ back) :
    listPhysicalOrphans db (files.without (sweptPaths delete front))
      (front.getLast?.map OrphanFile.relative) pageLimit
      = .ok (Page.front pageLimit.toNat back) := by
  have hswept : (files.without (sweptPaths delete front)).Sublist files := List.filter_sublist
  have hdistinct' : ((files.without (sweptPaths delete front)).map (·.path)).Nodup :=
    hdistinct.sublist (hswept.map _)
  have hahead := rowsAfter_split (nodup_relative db hdistinct) hsplit
  rw [listPhysicalOrphans_eq hdistinct']
  refine ensure_bind_eq_ok_iff.mpr ⟨pageLimit_valid, congrArg Except.ok (congrArg _ ?_)⟩
  rw [← hahead]
  refine rowsAfter_congr (nodup_relative db hdistinct) (nodup_relative db hdistinct')
    fun orphan hafter => ?_
  rw [mem_artifacts, mem_artifacts]
  constructor
  · rintro ⟨entry, hentry, hrecognized⟩
    exact ⟨entry, hswept.mem hentry, hrecognized⟩
  · rintro ⟨entry, hentry, hdirectory, hartifact⟩
    refine ⟨entry, List.mem_filter.mpr ⟨hentry, decide_eq_true ?_⟩, hdirectory, hartifact⟩
    rw [← path_of_artifact? hartifact]
    refine path_not_mem_sweptPaths hdistinct hsplit ?_
    rw [← hahead]
    exact mem_rowsAfter.mpr ⟨mem_artifacts.mpr ⟨entry, hentry, hdirectory, hartifact⟩, hafter⟩

/-- **One artifact**: it is reported, and goes. -/
theorem artifactsAt_step (hdb : db.Collectable)
    (hG : ∀ front back, db.debris files = front ++ back →
      G db (files.without (sweptPaths delete front)))
    (orphan : OrphanFile) (report : GcReport) :
    Ends (ArtifactsAt since db files delete start front (orphan :: back) report)
      (collectArtifact plan delete report orphan)
      (Either
        (fun report => ArtifactsAt since db files delete start (front ++ [orphan]) back report)
        (Stopped plan since G)) := by
  rintro d ⟨hsplit, hholds, hreport⟩
  have hsplit' : db.debris files = (front ++ [orphan]) ++ back := by
    rw [hsplit, List.append_assoc, List.singleton_append]
  have hmem : orphan ∈ files.artifacts db :=
    mem_debris.mp (hsplit ▸ List.mem_append_right front List.mem_cons_self)
  obtain ⟨hvalid, hunindexed⟩ := artifact_valid hmem
  have hreport' : GcReport.cleared delete report orphan
      = (front ++ [orphan]).foldl (GcReport.cleared delete) start := by
    rw [List.foldl_append, ← hreport]
    rfl
  unfold collectArtifact
  cases delete
  · refine ⟨hsplit', ?_, hreport'⟩
    rw [sweptPaths_append, if_neg (by simp), List.append_nil]
    exact hholds
  · refine ends_either_bind (ends_inStore (ends_deletePhysicalOrphan hdb
      (fun id hid => (hunindexed id hid).1) hvalid (hG front _ hsplit)))
      (fun deleted => ?_) d hholds
    rintro d ⟨rfl, hd⟩
    refine ⟨hsplit', ?_, hreport'⟩
    rw [sweptPaths_append, if_pos rfl]
    rwa [remove_without] at hd

end Artifacts

/-! ### The whole collection -/

/-- The tables after the recovery of a store that is opened. -/
def Db.recovered (db : Db) (now : Timestamp) : Db :=
  { db with
    runs := Table.update Rewind.isActive (interruptedRow db now) db.runs
    warnings := db.warnings ++ (activeRunIds db).map (recoveryWarning db now) }

/-- A count that `u64` holds, or its greatest value. -/
def saturated (n : Nat) : Nat := min n (2 ^ 64 - 1)

/-- The report of a collection of `garbage` and `debris`. -/
def GcReport.complete (delete : Bool) (garbage : List ObjectRecord) (debris : List OrphanFile) :
    GcReport where
  dryRun := !delete
  unreachableObjects := saturated garbage.length
  reclaimableBytes := saturated (garbage.map fun object => object.physicalSize.getD 0).sum
  deletedObjects := if delete then saturated garbage.length else 0
  reclaimedBytes := if delete then
    saturated (garbage.map fun object => object.physicalSize.getD 0).sum else 0
  sample := (garbage.map (·.id)).take REPORT_SAMPLE_LIMIT
  sampleTruncated := decide (REPORT_SAMPLE_LIMIT < garbage.length)
  crashArtifactFiles := saturated debris.length
  crashArtifactBytes := saturated (debris.map (·.storedSize)).sum
  deletedCrashArtifactFiles := if delete then saturated debris.length else 0
  reclaimedCrashArtifactBytes := if delete then saturated (debris.map (·.storedSize)).sum else 0
  crashArtifactSample := (debris.map OrphanFile.relative).take REPORT_SAMPLE_LIMIT
  crashArtifactSampleTruncated := decide (REPORT_SAMPLE_LIMIT < debris.length)

theorem saturatingAdd_saturated (a b : Nat) :
    saturatingAdd (saturated a) b = saturated (a + b) := by
  unfold saturatingAdd saturated
  omega

/-- The sample and its mark after one more item. -/
theorem sample_append {α β : Type} (f : α → β) (items : List α) (item : α) :
    (if ((items.map f).take REPORT_SAMPLE_LIMIT).length < REPORT_SAMPLE_LIMIT then
        (items.map f).take REPORT_SAMPLE_LIMIT ++ [f item]
      else (items.map f).take REPORT_SAMPLE_LIMIT)
      = ((items ++ [item]).map f).take REPORT_SAMPLE_LIMIT
    ∧ (if ((items.map f).take REPORT_SAMPLE_LIMIT).length < REPORT_SAMPLE_LIMIT then
        decide (REPORT_SAMPLE_LIMIT < items.length)
      else true) = decide (REPORT_SAMPLE_LIMIT < (items ++ [item]).length) := by
  rw [List.length_take, List.length_map, List.length_append, List.length_singleton, List.map_append,
    List.take_append, List.length_map]
  by_cases hroom : items.length < REPORT_SAMPLE_LIMIT
  · rw [if_pos (by omega), if_pos (by omega),
      List.take_of_length_le (by rw [List.length_map]; omega)]
    obtain ⟨room, hrest⟩ : ∃ room, REPORT_SAMPLE_LIMIT - items.length = room + 1 :=
      ⟨REPORT_SAMPLE_LIMIT - items.length - 1, by omega⟩
    rw [hrest]
    exact ⟨by simp, by rw [decide_eq_decide]; omega⟩
  · rw [if_neg (by omega), if_neg (by omega), Nat.sub_eq_zero_of_le (by omega)]
    exact ⟨by simp, (decide_eq_true (by omega)).symm⟩

theorem complete_collected (delete : Bool) (garbage : List ObjectRecord) (object : ObjectRecord) :
    GcReport.collected delete (GcReport.complete delete garbage []) object
      = GcReport.complete delete (garbage ++ [object]) [] := by
  obtain ⟨hsample, htruncated⟩ := sample_append (fun object : ObjectRecord => object.id) garbage
    object
  unfold GcReport.collected GcReport.deleted GcReport.unreachable GcReport.complete
  cases delete <;>
    simp only [hsample, htruncated, saturatingAdd_saturated, List.length_append,
      List.length_singleton, List.map_append, List.map_cons, List.map_nil, List.sum_append,
      List.sum_singleton, if_true, if_false, Bool.false_eq_true]

theorem complete_cleared (delete : Bool) (garbage : List ObjectRecord) (debris : List OrphanFile)
    (orphan : OrphanFile) :
    GcReport.cleared delete (GcReport.complete delete garbage debris) orphan
      = GcReport.complete delete garbage (debris ++ [orphan]) := by
  obtain ⟨hsample, htruncated⟩ := sample_append OrphanFile.relative debris orphan
  unfold GcReport.cleared GcReport.deletedCrashArtifact GcReport.crashArtifact GcReport.complete
  cases delete <;>
    simp only [hsample, htruncated, saturatingAdd_saturated, List.length_append,
      List.length_singleton, List.map_append, List.map_cons, List.map_nil, List.sum_append,
      List.sum_singleton, if_true, if_false, Bool.false_eq_true]

/-- What the two loops report. -/
theorem report_eq (delete : Bool) (garbage : List ObjectRecord) (debris : List OrphanFile) :
    debris.foldl (GcReport.cleared delete)
        (garbage.foldl (GcReport.collected delete) (GcReport.new delete))
      = GcReport.complete delete garbage debris := by
  have hgarbage : garbage.foldl (GcReport.collected delete) (GcReport.new delete)
      = GcReport.complete delete garbage [] := by
    induction garbage using List.reverseRecOn with
    | nil => cases delete <;> rfl
    | append_singleton garbage object ih =>
      rw [List.foldl_append, ih]
      exact complete_collected delete garbage object
  rw [hgarbage]
  induction debris using List.reverseRecOn with
  | nil => rfl
  | append_singleton debris orphan ih =>
    rw [List.foldl_append, ih]
    exact complete_cleared delete garbage debris orphan

/-- The file of an indexed object is no artifact. -/
theorem artifact?_indexed {db : Db} {id : ObjectId} (hid : (db.object? id).isSome)
    {entry : DirEntry} (hpath : entry.path = pathFor id) : artifact? db entry = none := by
  have hkind : orphanKind? db entry.path = none := by
    unfold orphanKind?
    rcases hname : digestName entry.path.directory entry.path.name with _ | id'
    · exact if_neg fun htemporary => pathFor_ne_of_isTemporaryName htemporary id hpath
    · have hsame : id' = id := pathFor_injective ((pathFor_of_digestName hname).trans hpath)
      exact if_pos (hsame ▸ hid)
  unfold artifact?
  rw [hkind]
  exact ite_self none

/-- Another row is no matter for an artifact. -/
theorem artifact?_withoutObjects (db : Db) {ids : List ObjectId} {entry : DirEntry}
    (h : ∀ id ∈ ids, pathFor id ≠ entry.path) :
    artifact? (db.withoutObjects ids) entry = artifact? db entry := by
  unfold artifact? orphanKind?
  rcases hname : digestName entry.path.directory entry.path.name with _ | id
  · rfl
  · have hid : id ∉ ids := fun hmem => h id hmem (pathFor_of_digestName hname)
    simp only [object?_withoutObjects db hid]

/-- The artifacts are the same when indexed objects have gone with their files. -/
theorem artifacts_swept (db : Db) (files : Files) {ids : List ObjectId}
    (hids : ∀ id ∈ ids, (db.object? id).isSome) :
    (files.without (ids.map pathFor)).artifacts (db.withoutObjects ids) = files.artifacts db := by
  unfold Files.artifacts Files.without
  rw [List.filter_filter, List.filterMap_filter, List.filterMap_filter]
  refine List.filterMap_congr fun entry _ => ?_
  by_cases hswept : entry.path ∈ ids.map pathFor
  · obtain ⟨id, hid, hpath⟩ := List.mem_map.mp hswept
    rw [artifact?_indexed (hids id hid) hpath.symm, ite_self, if_neg]
    simp [hswept]
  · have hother : ∀ id ∈ ids, pathFor id ≠ entry.path := by
      rintro id hid heq
      exact hswept (heq ▸ List.mem_map_of_mem hid)
    rw [artifact?_withoutObjects db hother]
    simp [hswept]

/-- What a collection relies on. -/
structure Disk.Collectable (d : Disk) : Prop where
  tables : d.db.Collectable
  runs : d.db.RunsReadable
  distinct : (d.files.map (·.path)).Nodup
  nodes : ∀ row ∈ d.db.objects, d.files.node? (pathFor row.id) ≠ some .other

/-- A reachable store, with files of any kind and number beside the files of its objects. -/
structure Disk.Littered (codecs : Codecs) (d : Disk) : Prop where
  store : ∃ store : Disk, store.Reachable codecs ∧ d.db = store.db
    ∧ ∀ row ∈ d.db.objects, d.files.node? (pathFor row.id) = store.files.node? (pathFor row.id)
  distinct : (d.files.map (·.path)).Nodup

theorem Disk.Littered.collectable {codecs : Codecs} {d : Disk} (h : d.Littered codecs) :
    d.Collectable := by
  obtain ⟨store, hstore, hdb, hnodes⟩ := h.store
  refine ⟨hdb ▸ collectable_reachable hstore, ?_, h.distinct, fun row hrow => ?_⟩
  · obtain ⟨plan, ops, rfl⟩ := hstore
    rw [hdb]
    have hkeeps := statements_keepRecoverable codecs
    exact (hkeeps.diskRun plan Disk.empty ops recoverable_empty).readable
  · rw [hnodes row hrow]
    exact (plain_reachable hstore).node? _

theorem Db.Collectable.recovered {db : Db} (h : db.Collectable) (now : Timestamp) :
    (db.recovered now).Collectable :=
  h.of_eq (AddsReferences.of_eq rfl rfl rfl rfl) rfl rfl

/-- The references are fewer than the rows that they need. -/
theorem length_sortedReferences_le {db : Db} (hdb : db.Collectable) :
    db.sortedReferences.length ≤ db.objects.length := by
  have hnodup : db.sortedReferences.Nodup :=
    (sortedReferences_pairwise db).imp fun h => ne_of_lt h
  have hsubset : db.sortedReferences ⊆ db.objects.map (·.id) := by
    intro id hid
    exact (Table.find_isSome_iff ObjectRow.id).mp (hdb.indexed id (mem_sortedReferences.mp hid))
  have hlength := (List.subperm_of_subset hnodup hsubset).length_le
  rwa [List.length_map] at hlength

theorem length_records (db : Db) (files : Files) :
    (db.records files).length ≤ db.objects.length := by
  rw [Db.records, List.length_map, rowsAfter, List.length_insertionSort]
  exact List.length_filter_le _ _

theorem length_debris (db : Db) (files : Files) : (db.debris files).length ≤ files.length := by
  rw [Db.debris, rowsAfter, List.length_insertionSort]
  refine (List.length_filter_le _ _).trans ((List.length_filterMap_le _ _).trans ?_)
  exact List.length_filter_le _ _

/-- The loop over the index stands at `cursor`, with `back` ahead of it. -/
def ObjectsLeft (since : Nat) (db : Db) (files : Files) (delete : Bool) (cursor : Option ObjectId)
    (back : List ObjectRecord) (state : ReferenceCursor × GcReport) (d : Disk) : Prop :=
  ∃ front, cursor = front.getLast?.map (·.id) ∧ ObjectsAt since db files delete front back state d

/-- The loop over the artifacts stands at `cursor`, with `back` ahead of it. -/
def ArtifactsLeft (since : Nat) (db : Db) (files : Files) (delete : Bool) (start : GcReport)
    (cursor : Option Bytes) (back : List OrphanFile) (report : GcReport) (d : Disk) : Prop :=
  ∃ front, cursor = front.getLast?.map OrphanFile.relative
    ∧ ArtifactsAt since db files delete start front back report d

/-- What a collection that returns comes to: the report counts all that is unreachable, and this
is what has gone. -/
structure Collected (d : Disk) (now : Timestamp) (delete : Bool) (report : GcReport) (d' : Disk) :
    Prop where
  report : report = GcReport.complete delete (d.db.garbage d.files) (d.db.debris d.files)
  db : d'.db = (d.db.recovered now).withoutObjects
    (if delete then (d.db.garbage d.files).map (·.id) else [])
  files : d'.files = d.files.without (if delete then d.db.doomed d.files else [])

/-- What a collection that does not return leaves. -/
def Interrupted (d : Disk) (now : Timestamp) (delete : Bool) (db : Db) (files : Files) : Prop :=
  (db = d.db ∧ files = d.files) ∨ SweptTo (d.db.recovered now) d.files delete db files

section Collection

variable {plan : FaultPlan} {since : Nat} {db : Db} {files : Files} {delete : Bool}
  {G : Db → Files → Prop}

/-- The loop over the index visits all of it. -/
theorem ends_objects (hdb : db.Collectable)
    (hnodes : ∀ row ∈ db.objects, files.node? (pathFor row.id) ≠ some .other)
    (hG : ∀ db' files', SweptTo db files delete db' files' → G db' files')
    (foreign : ObjectPath → StoreResult (Option Nat)) {fuel : Nat}
    (hfuel : db.objects.length < fuel)
    (references : ReferenceCursor) (hat : references.At db.sortedReferences db.sortedReferences) :
    Ends (Holds since db files)
      (Call.pages .spent (objectPage plan foreign) (fun object => some object.id)
        (collectObject plan fuel delete) fuel none (references, GcReport.new delete))
      (Either (fun state => ObjectsAt since db files delete (db.records files) [] state)
        (Stopped plan since G)) := by
  have hstart : ∀ d, Holds since db files d →
      ObjectsLeft since db files delete none (db.records files)
        (references, GcReport.new delete) d := by
    intro d hd
    refine ⟨[], rfl, rfl, ?_, rfl, _, hat, fun object _ hrefers => mem_sortedReferences.mpr hrefers⟩
    simpa [sweptIds] using hd
  refine Ends.either
    (Q := fun state d => ∃ cursor, ObjectsLeft since db files delete cursor [] state d)
    (Ends.imp (Call.ends_pages (Nat.pos_of_ne_zero pageLimit_valid.1) ?_ ?_
      (Nat.lt_of_le_of_lt (length_records db files) hfuel)) hstart fun _ _ h => h) ?_
  · rintro cursor back state d ⟨front, rfl, hd⟩
    refine (ends_inStore (ends_query (fun _ => listObjects_swept hdb hnodes hd.split foreign)
      (hG _ _ (sweptTo_visited delete hd.split)))).either (fun page d' hd' => ?_) d hd.holds
    exact ⟨hd'.1, front, rfl, hd.split, hd'.2, hd.report, hd.references⟩
  · rintro cursor object back state d ⟨front, rfl, hd⟩
    have hreferences := length_sortedReferences_le hdb
    refine (objectsAt_step hdb hnodes hG (by omega) object state).either ?_ d hd
    intro state' d' hd'
    exact ⟨front ++ [object], by rw [List.getLast?_concat]; rfl, hd'⟩
  · rintro state d ⟨_, front, -, hd⟩
    obtain rfl : front = db.records files := by rw [hd.split, List.append_nil]
    exact hd

/-- The loop over the artifacts visits all of them. -/
theorem ends_artifacts (hdb : db.Collectable) (hdistinct : (files.map (·.path)).Nodup)
    (hG : ∀ front back, db.debris files = front ++ back →
      G db (files.without (sweptPaths delete front)))
    {fuel : Nat} (hfuel : files.length < fuel) (start : GcReport) :
    Ends (Holds since db files)
      (Call.pages .spent (orphanPage plan) (fun orphan => some orphan.relative)
        (collectArtifact plan delete) fuel none start)
      (Either (fun report => ArtifactsAt since db files delete start (db.debris files) [] report)
        (Stopped plan since G)) := by
  have hstart : ∀ d, Holds since db files d →
      ArtifactsLeft since db files delete start none (db.debris files) start d := by
    intro d hd
    refine ⟨[], rfl, rfl, ?_, rfl⟩
    simpa [sweptPaths] using hd
  refine Ends.either
    (Q := fun report d => ∃ cursor, ArtifactsLeft since db files delete start cursor [] report d)
    (Ends.imp (Call.ends_pages (Nat.pos_of_ne_zero pageLimit_valid.1) ?_ ?_
      (Nat.lt_of_le_of_lt (length_debris db files) hfuel)) hstart fun _ _ h => h) ?_
  · rintro cursor back report d ⟨front, rfl, hd⟩
    refine (ends_inStore (ends_inspect (fun _ => listPhysicalOrphans_swept hdistinct hd.split)
      (hG front back hd.split))).either (fun page d' hd' => ?_) d hd.holds
    exact ⟨hd'.1, front, rfl, hd.split, hd'.2, hd.report⟩
  · rintro cursor orphan back report d ⟨front, rfl, hd⟩
    refine (artifactsAt_step hdb hG orphan report).either ?_ d hd
    intro report' d' hd'
    exact ⟨front ++ [orphan], by rw [List.getLast?_concat]; rfl, hd'⟩
  · rintro report d ⟨_, front, -, hd⟩
    obtain rfl : front = db.debris files := by rw [hd.split, List.append_nil]
    exact hd

end Collection

/-- The first page of the references. -/
theorem at_front (db : Db) :
    ReferenceCursor.At db.sortedReferences db.sortedReferences
      ⟨Page.front pageLimit.toNat db.sortedReferences, 0, none⟩ := by
  have hunread : ReferenceCursor.At db.sortedReferences db.sortedReferences
      ⟨⟨[], decide (0 < db.sortedReferences.length)⟩, 0, none⟩ :=
    ⟨⟨[], rfl, rfl⟩, List.nil_prefix, decide_eq_true_iff⟩
  exact hunread.reload

/-- **A collection on a disk it can rely on**, whatever fails. -/
theorem ends_collect {d : Disk} (hd : d.Collectable) (plan : FaultPlan)
    (foreign : ObjectPath → StoreResult (Option Nat)) (now : Timestamp) (delete : Bool) {fuel : Nat}
    (hfuel : d.db.objects.length < fuel ∧ d.files.length < fuel) :
    Ends (fun s => s = d) (collect plan foreign now fuel delete)
      (Either (Collected d now delete) (Stopped plan d.tick (Interrupted d now delete))) := by
  have hdb : (d.db.recovered now).Collectable := hd.tables.recovered now
  have hstart : SweptTo (d.db.recovered now) d.files delete (d.db.recovered now) d.files :=
    ⟨[], [], (withoutObjects_nil _).symm, (without_nil _).symm, fun _ => ⟨rfl, rfl⟩,
      fun _ hid => absurd hid List.not_mem_nil, fun _ hpath => absurd hpath List.not_mem_nil⟩
  have hleft : Interrupted d now delete (d.db.recovered now) d.files := Or.inr hstart
  have hrecover : (markInterruptedRuns d.db now).map (·.1) = .ok (d.db.recovered now) := by
    rw [markInterruptedRuns_eq hd.runs]
    rfl
  unfold collect
  refine Ends.imp (P := Holds d.tick d.db d.files) ?_
    (fun s hs => hs ▸ ⟨Nat.le_refl _, rfl, rfl⟩) fun _ _ h => h
  refine ends_either_bind (ends_inStore (ends_commit hrecover (Or.inl ⟨rfl, rfl⟩))) fun _ => ?_
  refine ends_either_bind (ends_inStore (ends_query (a := ())
    (fun _ => ensure_eq_ok_iff.mpr hdb.kinds) hleft)) fun _ => ?_
  refine Ends.imp (P := Holds d.tick (d.db.recovered now) d.files) ?_ (fun s hs => hs.2)
    fun _ _ h => h
  refine ends_either_bind (ends_inStore (ends_query
    (a := Page.front pageLimit.toNat (d.db.recovered now).sortedReferences)
    (fun _ => listReferencedObjectIds_eq pageLimit_valid) hleft)) fun page => ?_
  rintro s ⟨rfl, hs⟩
  refine ends_either_bind (ends_objects hdb hd.nodes (fun _ _ h => Or.inr h) foreign hfuel.1 _
    (at_front (d.db.recovered now))) (fun state => ?_) s hs
  rintro s ⟨-, hs, hreport, -⟩
  -- what is left when the index has been visited
  generalize hids :
    sweptIds (d.db.recovered now) delete ((d.db.recovered now).records d.files) = ids at hs
  have hmem : ∀ id ∈ ids, delete = true ∧ ∃ object ∈ (d.db.recovered now).records d.files,
      object.isGarbage (d.db.recovered now) = true ∧ object.id = id := by
    rintro id hid
    exact mem_sweptIds (hids ▸ hid)
  have hgarbage : ∀ id ∈ ids, ¬ (d.db.recovered now).refers id := by
    intro id hid
    obtain ⟨-, object, -, hobject, rfl⟩ := hmem id hid
    exact isGarbage_iff.mp hobject
  have hindexed : ∀ id ∈ ids, ((d.db.recovered now).object? id).isSome := by
    intro id hid
    obtain ⟨-, object, hobject, -, rfl⟩ := hmem id hid
    exact object?_of_mem_records hobject
  have hsublist : (d.files.without (ids.map pathFor)).Sublist d.files := List.filter_sublist
  have hdebris :
      ((d.db.recovered now).withoutObjects ids).debris (d.files.without (ids.map pathFor))
        = d.db.debris d.files := by
    rw [Db.debris, artifacts_swept _ _ hindexed]
    rfl
  refine Ends.either (ends_artifacts (hdb.withoutObjects hgarbage)
    (hd.distinct.sublist (hsublist.map _)) (fun front back hsplit => ?_)
    (Nat.lt_of_le_of_lt hsublist.length_le hfuel.2) state.2) ?_ s hs
  · refine Or.inr ⟨ids, ids.map pathFor ++ sweptPaths delete front, rfl, without_without _ _ _,
      ?_, ?_, ?_⟩
    · rintro rfl
      have hnone : ids = [] := List.eq_nil_iff_forall_not_mem.mpr fun id hid =>
        absurd (hmem id hid).1 (by decide)
      rw [hnone]
      exact ⟨rfl, rfl⟩
    · intro id hid
      exact ⟨hgarbage id hid, List.mem_append_left _ (List.mem_map_of_mem hid)⟩
    · intro path hpath
      rcases List.mem_append.mp hpath with hpath | hpath
      · obtain ⟨id, hid, rfl⟩ := List.mem_map.mp hpath
        obtain ⟨-, object, hobject, hunreferenced, rfl⟩ := hmem id hid
        exact mem_doomed_of_garbage hobject hunreferenced
      · obtain ⟨-, orphan, horphan, rfl⟩ := mem_sweptPaths hpath
        refine List.mem_append_right _ (List.mem_map_of_mem (f := OrphanFile.path) ?_)
        have horphan' : orphan ∈ ((d.db.recovered now).withoutObjects ids).debris
            (d.files.without (ids.map pathFor)) := hsplit ▸ List.mem_append_left back horphan
        rwa [hdebris] at horphan'
  · rintro report d' ⟨-, ⟨-, hdb', hfiles'⟩, hreport'⟩
    rw [hdebris] at hfiles' hreport'
    rw [without_without] at hfiles'
    refine ⟨?_, ?_, ?_⟩
    · rw [hreport', hreport]
      exact report_eq delete _ _
    · rw [hdb', ← hids]
      rfl
    · rw [hfiles', ← hids]
      cases delete
      · rfl
      · refine congrArg _ (congrArg₂ _ ?_ rfl)
        rw [sweptIds, if_pos rfl, List.map_map]
        rfl

/-! ### What is spared -/

theorem node?_without_mem (files : Files) {paths : List ObjectPath} {path : ObjectPath}
    (h : path ∈ paths) : (files.without paths).node? path = none := by
  rw [Files.node?_eq_none_iff]
  intro hmem
  obtain ⟨entry, hentry, rfl⟩ := List.mem_map.mp hmem
  exact of_decide_eq_true (List.mem_filter.mp hentry).2 h

theorem mem_doomed {db : Db} {files : Files} {path : ObjectPath} :
    path ∈ db.doomed files ↔ (∃ row ∈ db.objects, ¬ db.refers row.id ∧ pathFor row.id = path)
      ∨ ∃ orphan ∈ files.artifacts db, orphan.path = path := by
  rw [Db.doomed, List.mem_append, List.mem_map, List.mem_map]
  constructor
  · rintro (⟨object, hobject, rfl⟩ | ⟨orphan, horphan, rfl⟩)
    · obtain ⟨hmem, hgarbage⟩ := List.mem_filter.mp hobject
      obtain ⟨row, hrow, rfl⟩ := mem_records.mp hmem
      exact Or.inl ⟨row, hrow, isGarbage_iff.mp hgarbage, rfl⟩
    · exact Or.inr ⟨orphan, mem_debris.mp horphan, rfl⟩
  · rintro (⟨row, hrow, hrefers, rfl⟩ | ⟨orphan, horphan, rfl⟩)
    · refine Or.inl
        ⟨objectRecord files row, List.mem_filter.mpr ⟨?_, isGarbage_iff.mpr hrefers⟩, rfl⟩
      exact mem_records.mpr ⟨row, hrow, rfl⟩
    · exact Or.inr ⟨orphan, mem_debris.mpr horphan, rfl⟩

/-- The file of an object that something refers to is not to go. -/
theorem pathFor_not_mem_doomed {db : Db} (hdb : db.Collectable) {files : Files} {id : ObjectId}
    (hid : db.refers id) : pathFor id ∉ db.doomed files := by
  rw [mem_doomed]
  rintro (⟨row, -, hrefers, hpath⟩ | ⟨orphan, horphan, hpath⟩)
  · exact hrefers (pathFor_injective hpath ▸ hid)
  · obtain ⟨entry, -, -, hartifact⟩ := mem_artifacts.mp horphan
    have hnone := artifact?_indexed (hdb.indexed id hid)
      ((path_of_artifact? hartifact).symm.trans hpath)
    exact absurd (hnone.symm.trans hartifact) (by simp)

/-- The disk has lost at most what is to go: rows that nothing refers to, each after its file, and
artifacts. -/
structure Swept (d d' : Disk) (ids : List ObjectId) (paths : List ObjectPath) : Prop where
  objects : d'.db.objects = (d.db.withoutObjects ids).objects
  files : d'.files = d.files.without paths
  entries : d'.db.snapshotEntries = d.db.snapshotEntries
  chunks : d'.db.terminalChunks = d.db.terminalChunks
  events : d'.db.events = d.db.events
  ids : ∀ id ∈ ids, ¬ d.db.refers id ∧ pathFor id ∈ paths
  paths : ∀ path ∈ paths, path ∈ d.db.doomed d.files

namespace Swept

variable {d d' : Disk} {ids : List ObjectId} {paths : List ObjectPath}

theorem refers (h : Swept d d' ids paths) (id : ObjectId) : d'.db.refers id ↔ d.db.refers id :=
  refers_congr h.entries h.chunks h.events id

theorem refl (d : Disk) : Swept d d [] [] where
  objects := by rw [withoutObjects_nil]
  files := by rw [without_nil]
  entries := rfl
  chunks := rfl
  events := rfl
  ids := fun _ h => absurd h List.not_mem_nil
  paths := fun _ h => absurd h List.not_mem_nil

/-- What something refers to is still there, row and file. -/
theorem spares (h : Swept d d' ids paths) (hd : d.db.Collectable) {id : ObjectId}
    (hid : d.db.refers id) :
    (d'.db.object? id).isSome ∧ d'.files.node? (pathFor id) = d.files.node? (pathFor id) := by
  constructor
  · have hnot : id ∉ ids := fun hmem => (h.ids id hmem).1 hid
    have hkept := object?_withoutObjects d.db hnot
    rw [Db.object?, h.objects]
    exact hkept.trans (hd.indexed id hid)
  · rw [h.files]
    exact node?_without d.files paths fun hmem => pathFor_not_mem_doomed hd hid (h.paths _ hmem)

/-- What a file is recognized as when some rows have gone after their files. -/
theorem artifact?_eq (h : Swept d d' ids paths) {entry : DirEntry} (hentry : entry.path ∉ paths) :
    artifact? d'.db entry = artifact? d.db entry := by
  rw [← artifact?_withoutObjects d.db fun id hid heq => hentry (heq ▸ (h.ids id hid).2)]
  unfold artifact? orphanKind? Db.object?
  rw [h.objects]

/-- **What is to go** has gone or is still to go. -/
theorem mem_doomed_iff (h : Swept d d' ids paths) {path : ObjectPath} :
    path ∈ d.db.doomed d.files ↔ path ∈ paths ∨ path ∈ d'.db.doomed d'.files := by
  have hlater := @mem_doomed d'.db d'.files path
  rw [hlater]
  constructor
  · intro hpath
    by_cases hgone : path ∈ paths
    · exact Or.inl hgone
    rcases mem_doomed.mp hpath with ⟨row, hrow, hrefers, rfl⟩ | ⟨orphan, horphan, rfl⟩
    · refine Or.inr (Or.inl ⟨row, ?_, mt (h.refers row.id).mp hrefers, rfl⟩)
      rw [h.objects]
      exact List.mem_filter.mpr ⟨hrow, decide_eq_true fun hid => hgone (h.ids row.id hid).2⟩
    · obtain ⟨entry, hentry, hdirectory, hartifact⟩ := mem_artifacts.mp horphan
      rw [path_of_artifact? hartifact] at hgone ⊢
      refine Or.inr (Or.inr ⟨orphan, mem_artifacts.mpr ⟨entry, ?_, hdirectory, ?_⟩,
        path_of_artifact? hartifact⟩)
      · rw [h.files]
        exact List.mem_filter.mpr ⟨hentry, decide_eq_true hgone⟩
      · rwa [h.artifact?_eq hgone]
  · rintro (hgone | ⟨row, hrow, hrefers, rfl⟩ | ⟨orphan, horphan, rfl⟩)
    · exact h.paths path hgone
    · rw [h.objects] at hrow
      exact mem_doomed.mpr (Or.inl ⟨row, (List.mem_filter.mp hrow).1,
        mt (h.refers row.id).mpr hrefers, rfl⟩)
    · obtain ⟨entry, hentry, hdirectory, hartifact⟩ := mem_artifacts.mp horphan
      rw [h.files] at hentry
      obtain ⟨hmem, hkept⟩ := List.mem_filter.mp hentry
      rw [h.artifact?_eq (of_decide_eq_true hkept)] at hartifact
      exact mem_doomed.mpr (Or.inr ⟨orphan, mem_artifacts.mpr ⟨entry, hmem, hdirectory, hartifact⟩,
        rfl⟩)

theorem trans {d'' : Disk} {ids' : List ObjectId} {paths' : List ObjectPath}
    (h : Swept d d' ids paths) (h' : Swept d' d'' ids' paths') :
    Swept d d'' (ids ++ ids') (paths ++ paths') where
  objects := by
    rw [h'.objects, ← withoutObjects_withoutObjects, Db.withoutObjects, h.objects]
    rfl
  files := by rw [h'.files, h.files, without_without]
  entries := h'.entries.trans h.entries
  chunks := h'.chunks.trans h.chunks
  events := h'.events.trans h.events
  ids := by
    intro id hid
    rcases List.mem_append.mp hid with hid | hid
    · exact ⟨(h.ids id hid).1, List.mem_append_left _ (h.ids id hid).2⟩
    · exact ⟨mt (h.refers id).mpr (h'.ids id hid).1, List.mem_append_right _ (h'.ids id hid).2⟩
  paths := by
    intro path hpath
    rcases List.mem_append.mp hpath with hpath | hpath
    · exact h.paths path hpath
    · exact h.mem_doomed_iff.mpr (Or.inr (h'.paths path hpath))

/-- The disk can still be relied on. -/
theorem collectable (h : Swept d d' ids paths) (hd : d.Collectable) (hruns : d'.db.RunsReadable) :
    d'.Collectable where
  tables := (hd.tables.withoutObjects fun id hid => (h.ids id hid).1).of_eq
    (AddsReferences.of_eq h.objects h.entries h.chunks h.events) h.events h.chunks
  runs := hruns
  distinct := by
    rw [h.files]
    exact hd.distinct.sublist (List.filter_sublist.map _)
  nodes := by
    intro row hrow hother
    rw [h.objects] at hrow
    obtain ⟨hmem, -⟩ := List.mem_filter.mp hrow
    rw [h.files] at hother
    by_cases hgone : pathFor row.id ∈ paths
    · rw [node?_without_mem d.files hgone] at hother
      exact absurd hother (by simp)
    · rw [node?_without d.files paths hgone] at hother
      exact hd.nodes row hmem hother

end Swept

theorem runsReadable_withoutObjects {db : Db} (h : db.RunsReadable) (ids : List ObjectId) :
    (db.withoutObjects ids).RunsReadable :=
  h.of_eq rfl (fun _ h => h) rfl rfl h.offsets

theorem runsReadable_recovered {db : Db} (h : db.RunsReadable) (now : Timestamp) :
    (db.recovered now).RunsReadable := runsReadable_recover (markInterruptedRuns_eq h now) h

/-- Whatever becomes of a collection, it has swept. -/
theorem Interrupted.swept {d d' : Disk} {now : Timestamp} {delete : Bool} (hd : d.Collectable)
    (h : Interrupted d now delete d'.db d'.files) :
    d'.db.RunsReadable ∧ ∃ ids paths, Swept d d' ids paths := by
  rcases h with ⟨hdb, hfiles⟩ | ⟨ids, paths, hdb, hfiles, -, hids, hpaths⟩
  · rw [hdb]
    refine ⟨hd.runs, [], [], ?_, ?_, ?_, ?_, ?_, ?_, ?_⟩
    · rw [hdb, withoutObjects_nil]
    · rw [hfiles, without_nil]
    · rw [hdb]
    · rw [hdb]
    · rw [hdb]
    · exact fun _ h => absurd h List.not_mem_nil
    · exact fun _ h => absurd h List.not_mem_nil
  · rw [hdb]
    refine ⟨runsReadable_withoutObjects (runsReadable_recovered hd.runs now) ids, ids, paths, ?_,
      hfiles, ?_, ?_, ?_, hids, hpaths⟩
    · rw [hdb]
      rfl
    · rw [hdb]
      rfl
    · rw [hdb]
      rfl
    · rw [hdb]
      rfl

theorem Collected.interrupted {d d' : Disk} {now : Timestamp} {delete : Bool} {report : GcReport}
    (h : Collected d now delete report d') : Interrupted d now delete d'.db d'.files := by
  refine Or.inr ⟨_, _, h.db, h.files, ?_, fun id hid => ?_, fun path hpath => ?_⟩
  · rintro rfl
    exact ⟨rfl, rfl⟩
  · cases delete
    · exact absurd hid List.not_mem_nil
    · obtain ⟨object, hobject, rfl⟩ := List.mem_map.mp hid
      exact ⟨isGarbage_iff.mp (List.mem_filter.mp hobject).2,
        List.mem_append_left _ (List.mem_map_of_mem hobject)⟩
  · cases delete
    · exact absurd hpath List.not_mem_nil
    · exact hpath

/-- **A collection over a reachable store** with strays among its files.  One that returns has
reported and, if it is to delete, removed exactly the objects that nothing refers to and the
recognized files that no row indexes.  One that does not return has met a fault in its last step; it
has never come upon a reference, and has removed nothing else. -/
theorem collect_exact (codecs : Codecs) {d : Disk} (hd : d.Littered codecs) (plan : FaultPlan)
    (foreign : ObjectPath → StoreResult (Option Nat)) (now : Timestamp) (delete : Bool) {fuel : Nat}
    (hfuel : d.db.objects.length < fuel ∧ d.files.length < fuel) :
    Ends (fun s => s = d) (collect plan foreign now fuel delete) fun result d' =>
      Either (Collected d now delete) (Stopped plan d.tick (Interrupted d now delete)) result d'
        ∧ ∀ id, d.db.refers id → d'.db.refers id ∧ (d'.db.object? id).isSome
          ∧ d'.files.node? (pathFor id) = d.files.node? (pathFor id) := by
  have hcollect := ends_collect hd.collectable plan foreign now delete hfuel
  refine hcollect.imp (fun _ hs => hs) fun result d' h => ⟨h, fun id hid => ?_⟩
  have hleft : Interrupted d now delete d'.db d'.files := by
    rcases result with stop | report
    · obtain ⟨halt, rfl, hhalted⟩ := h
      exact hhalted.left
    · exact Collected.interrupted h
  obtain ⟨-, ids, paths, hswept⟩ := hleft.swept hd.collectable
  exact ⟨(hswept.refers id).mpr hid, hswept.spares hd.collectable.tables hid⟩

namespace Sample

/-- Nothing fails. -/
def faultless : FaultPlan where
  fault _ := .none
  written _ := 0
  pid _ := 7
  sequence tick := tick

/-- The name of a temporary file. -/
def strayPath : ObjectPath := ⟨utf8 "ab", temporaryName 7 9⟩

/-- A store of two objects, one of which an event refers to. -/
def storeOps : List StoreOp := [.putObject output 0, .putObject [98] 0] ++ staleReference.drop 2

def store : Disk := Machine.run (diskStep faultless codecs) Disk.empty storeOps

/-- A temporary file lies beside the objects. -/
def litteredStore : Disk := { store with files := store.files ++ [⟨strayPath, .file [0, 0]⟩] }

theorem littered : litteredStore.Littered codecs where
  store := ⟨store, ⟨faultless, storeOps, rfl⟩, rfl, by decide +kernel⟩
  distinct := by decide +kernel

end Sample

theorem collect_litteredStore :
    (Sample.litteredStore.db.garbage Sample.litteredStore.files).length = 1
      ∧ (Sample.litteredStore.db.debris Sample.litteredStore.files).length = 1
      ∧ Ends (fun s => s = Sample.litteredStore)
        (collect Sample.faultless (fun _ => .ok none) ⟨5⟩ 4 true) fun result d' =>
        Either (Collected Sample.litteredStore ⟨5⟩ true)
            (Stopped Sample.faultless Sample.litteredStore.tick
              (Interrupted Sample.litteredStore ⟨5⟩ true)) result d'
          ∧ ∀ id, Sample.litteredStore.db.refers id → d'.db.refers id ∧ (d'.db.object? id).isSome
            ∧ d'.files.node? (pathFor id) = Sample.litteredStore.files.node? (pathFor id) :=
  ⟨by decide +kernel, by decide +kernel, collect_exact Sample.codecs Sample.littered
    Sample.faultless (fun _ => .ok none) ⟨5⟩ true (by decide +kernel)⟩

/-! ### Collections one after another -/

/-- A collection that is begun. -/
structure Attempt where
  plan : FaultPlan
  now : Timestamp
  delete : Bool

/-- The disk when it has returned, or has been cut off. -/
def Disk.attempt (foreign : ObjectPath → StoreResult (Option Nat)) (fuel : Nat) (d : Disk)
    (attempt : Attempt) : Disk :=
  (exec (collect attempt.plan foreign attempt.now fuel attempt.delete) d).2

section Attempts

variable {fuel : Nat}

/-- One attempt sweeps, whatever becomes of it. -/
theorem swept_attempt (foreign : ObjectPath → StoreResult (Option Nat)) {d : Disk}
    (hd : d.Collectable) (hfuel : d.db.objects.length < fuel ∧ d.files.length < fuel) (attempt : Attempt) :
    (d.attempt foreign fuel attempt).Collectable
      ∧ ∃ ids paths, Swept d (d.attempt foreign fuel attempt) ids paths := by
  have hcollect := ends_collect hd attempt.plan foreign attempt.now attempt.delete hfuel d rfl
  have hleft : Interrupted d attempt.now attempt.delete (d.attempt foreign fuel attempt).db
      (d.attempt foreign fuel attempt).files := by
    unfold Disk.attempt
    rcases hexec : exec (collect attempt.plan foreign attempt.now fuel attempt.delete) d
      with ⟨stop | report, d'⟩
    · rw [hexec] at hcollect
      obtain ⟨halt, rfl, hhalted⟩ := hcollect
      exact hhalted.left
    · rw [hexec] at hcollect
      exact Collected.interrupted hcollect
  obtain ⟨hruns, ids, paths, hswept⟩ := hleft.swept hd
  exact ⟨hswept.collectable hd hruns, ids, paths, hswept⟩

/-- Any number of attempts sweep. -/
theorem swept_attempts (foreign : ObjectPath → StoreResult (Option Nat)) {d : Disk}
    (hd : d.Collectable) (hfuel : d.db.objects.length < fuel ∧ d.files.length < fuel) (attempts : List Attempt) :
    (Machine.run (Disk.attempt foreign fuel) d attempts).Collectable
      ∧ ∃ ids paths, Swept d (Machine.run (Disk.attempt foreign fuel) d attempts) ids paths := by
  induction attempts generalizing d with
  | nil => exact ⟨hd, [], [], Swept.refl d⟩
  | cons attempt rest ih =>
    obtain ⟨hd', ids, paths, hswept⟩ := swept_attempt foreign hd hfuel attempt
    have hobjects : (d.attempt foreign fuel attempt).db.objects.length ≤ d.db.objects.length := by
      rw [hswept.objects]
      exact List.length_filter_le _ _
    have hfiles : (d.attempt foreign fuel attempt).files.length ≤ d.files.length := by
      rw [hswept.files]
      exact List.length_filter_le _ _
    obtain ⟨hrest, ids', paths', hswept'⟩ := ih hd' ⟨by omega, by omega⟩
    exact ⟨hrest, _, _, hswept.trans hswept'⟩

end Attempts

namespace Sample

/-- The deletion of the object is cut off between its file and its row. -/
def cutAfterFile : Attempt where
  plan := { faultless with fault := fun tick => if tick = 26 then .crash else .none }
  now := ⟨5⟩
  delete := true

end Sample

/-- Nothing is left to go. -/
theorem doomed_eq_nil {db : Db} {files : Files} (h : db.doomed files = []) :
    db.garbage files = [] ∧ db.debris files = [] := by
  obtain ⟨hgarbage, hdebris⟩ := List.append_eq_nil_iff.mp h
  exact ⟨List.map_eq_nil_iff.mp hgarbage, List.map_eq_nil_iff.mp hdebris⟩

/-- **Collections that are cut off** are made up for by the first that returns: together they have
removed what one alone would have, and they leave nothing to collect. -/
theorem collect_resumed (codecs : Codecs) {d : Disk} (hd : d.Littered codecs)
    (foreign : ObjectPath → StoreResult (Option Nat)) {fuel : Nat}
    (hfuel : d.db.objects.length < fuel ∧ d.files.length < fuel) (attempts : List Attempt)
    (plan : FaultPlan) (now : Timestamp) {report : GcReport} {d' : Disk}
    (h : exec (collect plan foreign now fuel true)
      (Machine.run (Disk.attempt foreign fuel) d attempts) = (.ok report, d')) :
    d'.db.objects = d.db.objects.filter (fun row => objectIsReferenced d.db row.id)
      ∧ d'.files = d.files.without (d.db.doomed d.files)
      ∧ d'.db.garbage d'.files = [] ∧ d'.db.debris d'.files = [] := by
  obtain ⟨hcollectable, ids, paths, hswept⟩ := swept_attempts foreign hd.collectable
    hfuel attempts
  generalize Machine.run (Disk.attempt foreign fuel) d attempts = before at h hcollectable hswept
  have hlength : before.db.objects.length < fuel ∧ before.files.length < fuel := by
    rw [hswept.objects, hswept.files]
    exact ⟨Nat.lt_of_le_of_lt (List.length_filter_le _ _) hfuel.1,
      Nat.lt_of_le_of_lt (List.length_filter_le _ _) hfuel.2⟩
  have hcollect := ends_collect hcollectable plan foreign now true hlength before rfl
  rw [h] at hcollect
  obtain ⟨-, hdb, hfiles⟩ := hcollect
  rw [if_pos rfl] at hdb hfiles
  have hwhole : Swept d d' (ids ++ (before.db.garbage before.files).map (·.id))
      (paths ++ before.db.doomed before.files) := by
    refine hswept.trans ⟨?_, hfiles, ?_, ?_, ?_, fun id hid => ?_, fun _ hpath => hpath⟩
    · rw [hdb]
      rfl
    · rw [hdb]
      rfl
    · rw [hdb]
      rfl
    · rw [hdb]
      rfl
    · obtain ⟨object, hobject, rfl⟩ := List.mem_map.mp hid
      exact ⟨isGarbage_iff.mp (List.mem_filter.mp hobject).2,
        List.mem_append_left _ (List.mem_map_of_mem hobject)⟩
  have hobjects : d'.db.objects
      = d.db.objects.filter fun row => objectIsReferenced d.db row.id := by
    rw [hwhole.objects, Db.withoutObjects]
    refine List.filter_congr fun row hrow => ?_
    rw [Bool.eq_iff_iff, decide_eq_true_iff]
    constructor
    · intro hkept
      by_contra hrefers
      refine hkept (List.mem_append.mpr ?_)
      by_cases hgone : row.id ∈ ids
      · exact Or.inl hgone
      · refine Or.inr (List.mem_map.mpr ⟨objectRecord before.files row, ?_, rfl⟩)
        refine List.mem_filter.mpr ⟨mem_records.mpr ⟨row, ?_, rfl⟩,
          isGarbage_iff.mpr (mt (hswept.refers row.id).mp hrefers)⟩
        rw [hswept.objects]
        exact List.mem_filter.mpr ⟨hrow, decide_eq_true hgone⟩
    · intro hrefers hgone
      exact (hwhole.ids row.id hgone).1 hrefers
  have hfiles' : d'.files = d.files.without (d.db.doomed d.files) := by
    rw [hwhole.files]
    refine List.filter_congr fun entry _ => ?_
    rw [decide_eq_decide, hswept.mem_doomed_iff, List.mem_append]
  refine ⟨hobjects, hfiles', doomed_eq_nil (List.eq_nil_iff_forall_not_mem.mpr ?_)⟩
  intro path hpath
  rcases mem_doomed.mp hpath with ⟨row, hrow, hrefers, rfl⟩ | ⟨orphan, horphan, rfl⟩
  · rw [hobjects] at hrow
    exact hrefers ((hwhole.refers row.id).mpr (List.mem_filter.mp hrow).2)
  · obtain ⟨entry, hentry, -, hartifact⟩ := mem_artifacts.mp horphan
    rw [path_of_artifact? hartifact] at hpath
    have hdoomed := hwhole.mem_doomed_iff.mpr (Or.inr hpath)
    rw [hfiles'] at hentry
    exact of_decide_eq_true (List.mem_filter.mp hentry).2 hdoomed

/-- The second of two collections makes up for the first, which is cut off. -/
theorem collect_resumed_litteredStore :
    ((exec (collect Sample.faultless (fun _ => .ok none) ⟨6⟩ 4 true)
        (Machine.run (Disk.attempt (fun _ => .ok none) 4) Sample.litteredStore
          [Sample.cutAfterFile])).2.db.objects).map (·.id) = [Sample.outputId] := by
  rcases hexec : exec (collect Sample.faultless (fun _ => .ok none) ⟨6⟩ 4 true)
      (Machine.run (Disk.attempt (fun _ => .ok none) 4) Sample.litteredStore
        [Sample.cutAfterFile]) with ⟨stop | report, d'⟩
  · have hok : (exec (collect Sample.faultless (fun _ => .ok none) ⟨6⟩ 4 true)
        (Machine.run (Disk.attempt (fun _ => .ok none) 4) Sample.litteredStore
          [Sample.cutAfterFile])).1.isOk = true := by decide +kernel
    rw [hexec] at hok
    exact absurd hok Bool.false_ne_true
  · have hresumed := collect_resumed Sample.codecs Sample.littered (fun _ => .ok none)
      (by decide +kernel) [Sample.cutAfterFile] Sample.faultless ⟨6⟩ hexec
    show d'.db.objects.map (·.id) = [Sample.outputId]
    rw [hresumed.1]
    decide +kernel

end Rewind

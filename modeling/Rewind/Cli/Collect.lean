/-
Garbage collection.

The index and the references are read side by side, page by page and in one order; an indexed
object that the references pass over goes, its file first.  A second walk removes the recognized
files that no row indexes.  Rows and files go while the pages are being read.

* `advanceBefore` — the references up to an object;
* `collect` — both walks, with a report of what is unreachable and of what was removed;
* `ends_deleteObject`, `ends_deletePhysicalOrphan` — what one removal comes to;
* `ends_advanceBefore` — the search ends at the first reference that is not before the object.
-/
import Rewind.Store.Maintenance
import Rewind.Store.Recovery

namespace Rewind

open Call

/-! ### The report -/

def REPORT_SAMPLE_LIMIT : Nat := 1000

/-- `saturating_add` on `u64`. -/
def saturatingAdd (a b : Nat) : Nat := min (a + b) (2 ^ 64 - 1)

structure GcReport where
  dryRun : Bool
  unreachableObjects : Nat
  reclaimableBytes : Nat
  deletedObjects : Nat
  reclaimedBytes : Nat
  sample : List ObjectId
  sampleTruncated : Bool
  crashArtifactFiles : Nat
  crashArtifactBytes : Nat
  deletedCrashArtifactFiles : Nat
  reclaimedCrashArtifactBytes : Nat
  crashArtifactSample : List Bytes
  crashArtifactSampleTruncated : Bool
deriving DecidableEq

def GcReport.new (delete : Bool) : GcReport where
  dryRun := !delete
  unreachableObjects := 0
  reclaimableBytes := 0
  deletedObjects := 0
  reclaimedBytes := 0
  sample := []
  sampleTruncated := false
  crashArtifactFiles := 0
  crashArtifactBytes := 0
  deletedCrashArtifactFiles := 0
  reclaimedCrashArtifactBytes := 0
  crashArtifactSample := []
  crashArtifactSampleTruncated := false

/-- What the report says of an unreachable object. -/
def GcReport.unreachable (report : GcReport) (object : ObjectRecord) : GcReport :=
  { report with
    unreachableObjects := saturatingAdd report.unreachableObjects 1
    reclaimableBytes := saturatingAdd report.reclaimableBytes (object.physicalSize.getD 0)
    sample := if report.sample.length < REPORT_SAMPLE_LIMIT then report.sample ++ [object.id]
      else report.sample
    sampleTruncated := if report.sample.length < REPORT_SAMPLE_LIMIT then report.sampleTruncated
      else true }

/-- What the report says of an object that has been deleted. -/
def GcReport.deleted (report : GcReport) (object : ObjectRecord) : GcReport :=
  { report with
    deletedObjects := saturatingAdd report.deletedObjects 1
    reclaimedBytes := saturatingAdd report.reclaimedBytes (object.physicalSize.getD 0) }

/-- What the report says of a crash artifact. -/
def GcReport.crashArtifact (report : GcReport) (orphan : OrphanFile) : GcReport :=
  { report with
    crashArtifactFiles := saturatingAdd report.crashArtifactFiles 1
    crashArtifactBytes := saturatingAdd report.crashArtifactBytes orphan.storedSize
    crashArtifactSample :=
      if report.crashArtifactSample.length < REPORT_SAMPLE_LIMIT then
        report.crashArtifactSample ++ [orphan.relative]
      else report.crashArtifactSample
    crashArtifactSampleTruncated :=
      if report.crashArtifactSample.length < REPORT_SAMPLE_LIMIT then
        report.crashArtifactSampleTruncated
      else true }

/-- What the report says of a crash artifact that has been deleted. -/
def GcReport.deletedCrashArtifact (report : GcReport) (deleted : OrphanFile) : GcReport :=
  { report with
    deletedCrashArtifactFiles := saturatingAdd report.deletedCrashArtifactFiles 1
    reclaimedCrashArtifactBytes :=
      saturatingAdd report.reclaimedCrashArtifactBytes deleted.storedSize }

/-! ### The collection -/

/-- How a collection ends other than with its report: as an operation of the store does, or out
of the steps that a run of the model is given. -/
inductive GcStop where
  | store (halt : Halt)
  | spent
deriving DecidableEq

abbrev GcCall (α : Type) := Call Disk GcStop α

/-- An operation of the store. -/
def inStore {α : Type} (m : DiskCall α) : GcCall α := Call.mapError GcStop.store m

section Collection

variable (plan : FaultPlan)

/-- A query. -/
def DiskCall.query {α : Type} (operation : String) (f : Disk → StoreResult α) : DiskCall α :=
  DiskCall.step plan (.database operation .unavailable) fun d =>
    (f d).map fun a => (a, d.db, d.files)

/-- The limit of every page. -/
def pageLimit : UInt32 := UInt32.ofNat MAX_OBJECT_PAGE

/-- The part of `Store::open` that writes to the tables. -/
def openStore (now : Timestamp) : DiskCall Unit :=
  DiskCall.commit plan "commit interrupted-run recovery" fun db =>
    (markInterruptedRuns db now).map (·.1)

def objectPage (foreign : ObjectPath → StoreResult (Option Nat)) (after : Option ObjectId) :
    GcCall (Page ObjectRecord) :=
  inStore (DiskCall.query plan "query object listing" fun d =>
    listObjects (d.files.measure foreign) d.db after pageLimit)

def referencePage (after : Option ObjectId) : GcCall (Page ObjectId) :=
  inStore (DiskCall.query plan "query referenced objects" fun d =>
    listReferencedObjectIds d.db after pageLimit)

def orphanPage (after : Option Bytes) : GcCall (Page OrphanFile) :=
  inStore (DiskCall.inspect plan "enumerate object fan-out directory" fun d =>
    listPhysicalOrphans d.db d.files after pageLimit)

/-- The references from a page on. -/
structure ReferenceCursor where
  page : Page ObjectId
  index : Nat
  after : Option ObjectId

/-- `ReferenceCursor::current`. -/
def ReferenceCursor.current (cursor : ReferenceCursor) : Option ObjectId :=
  cursor.page.items[cursor.index]?

/-- The inner loop of `advance_before`: it steps over `ids`, what is left of the page, as long as
they come before the target. -/
def ReferenceCursor.stepOver (target : ObjectId) : List ObjectId → ReferenceCursor → ReferenceCursor
  | [], cursor => cursor
  | id :: ids, cursor =>
    if id < target then
      stepOver target ids { cursor with after := some id, index := cursor.index + 1 }
    else cursor

/-- `advance_before`, in at most `fuel` pages. -/
def advanceBefore (target : ObjectId) : Nat → ReferenceCursor → GcCall ReferenceCursor
  | 0, _ => throw .spent
  | fuel + 1, cursor =>
    let cursor := cursor.stepOver target (cursor.page.items.drop cursor.index)
    if cursor.current.isSome ∨ cursor.page.hasMore = false then
      return cursor
    else do
      let page ← referencePage plan cursor.after
      advanceBefore target fuel ⟨page, 0, cursor.after⟩

/-- The body of the loop over the indexed objects. -/
def collectObject (fuel : Nat) (delete : Bool) (state : ReferenceCursor × GcReport)
    (object : ObjectRecord) : GcCall (ReferenceCursor × GcReport) := do
  let references ← advanceBefore plan object.id fuel state.1
  if references.current = some object.id then
    return (references, state.2)
  else
    let report := state.2.unreachable object
    if delete then do
      let _ ← inStore (deleteObject plan object.id)
      return (references, report.deleted object)
    else
      return (references, report)

/-- The body of the loop over the crash artifacts. -/
def collectArtifact (delete : Bool) (report : GcReport) (orphan : OrphanFile) :
    GcCall GcReport := do
  let report := report.crashArtifact orphan
  if delete then do
    let deleted ← inStore (deletePhysicalOrphan plan orphan)
    return report.deletedCrashArtifact deleted
  else
    return report

/-- `collect`, in at most `fuel` pages of each listing. -/
def collect (foreign : ObjectPath → StoreResult (Option Nat)) (now : Timestamp) (fuel : Nat)
    (delete : Bool) : GcCall GcReport := do
  inStore (openStore plan now)
  inStore (DiskCall.query plan "validate event object references" fun d =>
    validateEventObjectReferences d.db)
  let page ← referencePage plan none
  let state ← Call.pages .spent (objectPage plan foreign) (fun object => some object.id)
    (collectObject plan fuel delete) fuel none (⟨page, 0, none⟩, GcReport.new delete)
  Call.pages .spent (orphanPage plan) (fun orphan => some orphan.relative)
    (collectArtifact plan delete) fuel none state.2

end Collection

/-! ### Steps -/

/-- The tables and the files of a disk, some steps after `since`. -/
def Holds (since : Nat) (db : Db) (files : Files) (d : Disk) : Prop :=
  since ≤ d.tick ∧ d.db = db ∧ d.files = files

/-- The last step, which is one of those after `since`, has met a fault.  No reference has ended the
operation, and what it has left meets `G`. -/
structure Halted (plan : FaultPlan) (since : Nat) (G : Db → Files → Prop) (halt : Halt) (d : Disk) :
    Prop where
  fault : ∃ tick, since ≤ tick ∧ d.tick = tick + 1 ∧ plan.fault tick ≠ .none
  unreferenced : ∀ id, halt ≠ .error (.objectReferenced id)
  left : G d.db d.files

/-- A fault has ended an operation of the collection. -/
def Stopped (plan : FaultPlan) (since : Nat) (G : Db → Files → Prop) (stop : GcStop) (d : Disk) :
    Prop :=
  ∃ halt, stop = .store halt ∧ Halted plan since G halt d

section Steps

variable {α : Type} {plan : FaultPlan} {since : Nat} {G : Db → Files → Prop} {db db' : Db}
  {files files' : Files}

theorem ends_step {failure : StoreError} {f : Disk → StoreResult (α × Db × Files)} {a : α}
    (hfailure : ∀ id, failure ≠ .objectReferenced id)
    (hf : ∀ tick, f ⟨db, files, tick⟩ = .ok (a, db', files')) (hG : G db files) :
    Ends (Holds since db files) (DiskCall.step plan failure f)
      (Either (fun a' d => a' = a ∧ Holds since db' files' d) (Halted plan since G)) := by
  rintro d ⟨hsince, rfl, rfl⟩
  unfold DiskCall.step
  rw [exec_ofFun]
  rcases hfault : plan.fault d.tick with _ | _ | _
  · have hok := hf d.tick
    rw [show (⟨d.db, d.files, d.tick⟩ : Disk) = d from rfl] at hok
    simp only [hok]
    exact ⟨rfl, Nat.le_succ_of_le hsince, rfl, rfl⟩
  · refine ⟨⟨d.tick, hsince, rfl, by simp [hfault]⟩, fun id => ?_, hG⟩
    simpa using hfailure id
  · exact ⟨⟨d.tick, hsince, rfl, by simp [hfault]⟩, fun id => by simp, hG⟩

theorem ends_query {operation : String} {f : Disk → StoreResult α} {a : α}
    (hf : ∀ tick, f ⟨db, files, tick⟩ = .ok a) (hG : G db files) :
    Ends (Holds since db files) (DiskCall.query plan operation f)
      (Either (fun a' d => a' = a ∧ Holds since db files d) (Halted plan since G)) := by
  refine ends_step (by simp) (fun tick => ?_) hG
  rw [hf tick]
  rfl

theorem ends_inspect {operation : String} {f : Disk → StoreResult α} {a : α}
    (hf : ∀ tick, f ⟨db, files, tick⟩ = .ok a) (hG : G db files) :
    Ends (Holds since db files) (DiskCall.inspect plan operation f)
      (Either (fun a' d => a' = a ∧ Holds since db files d) (Halted plan since G)) := by
  refine ends_step (by simp) (fun tick => ?_) hG
  rw [hf tick]
  rfl

theorem ends_onFiles {operation : String} {f : Files → StoreResult Files}
    (hf : f files = .ok files') (hG : G db files) :
    Ends (Holds since db files) (DiskCall.onFiles plan operation f)
      (Either (fun _ => Holds since db files') (Halted plan since G)) := by
  have hstep : Ends (Holds since db files) (DiskCall.onFiles plan operation f)
      (Either (fun a d => a = () ∧ Holds since db files' d) (Halted plan since G)) := by
    refine ends_step (by simp) (fun tick => ?_) hG
    rw [hf]
    rfl
  exact hstep.either fun _ _ hd => hd.2

theorem ends_commit {operation : String} {f : Db → StoreResult Db} (hf : f db = .ok db')
    (hG : G db files) :
    Ends (Holds since db files) (DiskCall.commit plan operation f)
      (Either (fun _ => Holds since db' files) (Halted plan since G)) := by
  have hstep : Ends (Holds since db files) (DiskCall.commit plan operation f)
      (Either (fun a d => a = () ∧ Holds since db' files d) (Halted plan since G)) := by
    refine ends_step (by simp) (fun tick => ?_) hG
    rw [hf]
    rfl
  exact hstep.either fun _ _ hd => hd.2

theorem ends_inStore {P : Disk → Prop} {Q : α → Disk → Prop} {m : DiskCall α}
    (hm : Ends P m (Either Q (Halted plan since G))) :
    Ends P (inStore m) (Either Q (Stopped plan since G)) :=
  ends_mapError hm fun halt _ hd => ⟨halt, rfl, hd⟩

theorem ends_removeFile {operation : String} {path : ObjectPath}
    (hnode : files.node? path ≠ some .other) (hG : G db files) :
    Ends (Holds since db files) (removeFile plan operation path)
      (Either (fun _ => Holds since db (files.remove path)) (Halted plan since G)) := by
  refine ends_onFiles ?_ hG
  split
  case h_1 hother => exact absurd hother hnode
  case h_2 => rfl

/-- The deletion of an object that nothing refers to. -/
theorem ends_deleteObject (hdb : db.Collectable) {id : ObjectId} (hrow : (db.object? id).isSome)
    (hid : ¬ db.refers id) (hnode : files.node? (pathFor id) ≠ some .other) (hG : G db files)
    (hG' : G db (files.remove (pathFor id))) :
    Ends (Holds since db files) (deleteObject plan id)
      (Either (fun _ => Holds since (db.withoutObject id) (files.remove (pathFor id)))
        (Halted plan since G)) := by
  obtain ⟨row, hfind⟩ := Option.isSome_iff_exists.mp hrow
  have hunreferenced : objectIsReferenced db id = false := by simpa [Db.refers] using hid
  have hcheck : checkDeletable db id = .ok row.storedSize := by
    refine Except.bind_eq_ok_iff.mpr ⟨row, by rw [hfind]; rfl, ?_⟩
    refine Except.bind_eq_ok_iff.mpr ⟨(), ensure_eq_ok_iff.mpr hdb.kinds, ?_⟩
    exact ensure_bind_eq_ok_iff.mpr ⟨hunreferenced, rfl⟩
  have hdelete : db.deleteObject id = .ok (db.withoutObject id) := by
    have hnone := mt refers_iff.mpr hid
    simp only [not_or, not_exists, not_and] at hnone
    refine ensure_bind_eq_ok_iff.mpr ⟨hnone.1, ensure_bind_eq_ok_iff.mpr ⟨hnone.2.1, rfl⟩⟩
  unfold deleteObject
  refine ends_either_bind (ends_inspect (fun _ => hcheck) hG) fun storedSize => ?_
  refine ends_either_bind (Q := fun _ => Holds since db (files.remove (pathFor id))) ?_ fun _ => ?_
  · exact Ends.imp (ends_removeFile hnode hG) (fun _ hd => hd.2) fun _ _ h => h
  refine ends_either_bind (ends_commit ?_ hG') fun _ => ends_pure fun _ hd => hd
  exact orDatabase_eq_ok_iff.mpr hdelete

/-- The deletion of a file that the walk has listed. -/
theorem ends_deletePhysicalOrphan (hdb : db.Collectable) {orphan : OrphanFile}
    (hunindexed : ∀ id, orphan.kind = .object id → (db.object? id).isNone)
    (hvalid : orphan.isValid = true) (hG : G db files) :
    Ends (Holds since db files) (deletePhysicalOrphan plan orphan)
      (Either (fun deleted d => deleted = orphan ∧ Holds since db (files.remove orphan.path) d)
        (Halted plan since G)) := by
  have hcheck : checkUnindexed orphan.kind db = .ok () := by
    unfold checkUnindexed
    cases hkind : orphan.kind with
    | temporary => rfl
    | object id =>
      have hnone := hunindexed id hkind
      have hid : ¬ db.refers id := by
        intro hrefers
        exact absurd (hdb.indexed id hrefers) (by simpa using hnone)
      refine Except.bind_eq_ok_iff.mpr ⟨(), ensure_eq_ok_iff.mpr hdb.kinds, ?_⟩
      exact ensure_eq_ok_iff.mpr ⟨hnone, by simpa [Db.refers] using hid⟩
  unfold deletePhysicalOrphan
  refine ends_either_bind (ends_inspect (fun _ => hcheck) hG) fun _ => ?_
  rw [show validateOrphan orphan = .ok () from ensure_eq_ok_iff.mpr hvalid]
  refine ends_either_bind (Q := fun _ => Holds since db files) (ends_pure fun _ hd => hd.2)
    fun _ => ?_
  refine ends_either_bind (ends_onFiles rfl hG) fun _ => ends_pure fun _ hd => ⟨rfl, hd⟩

end Steps

/-! ### The references side by side with the index -/

theorem pageLimit_valid : pageLimit.toNat ≠ 0 ∧ pageLimit.toNat ≤ MAX_OBJECT_PAGE := by decide

/-- All references, in their order. -/
def Db.sortedReferences (db : Db) : List ObjectId :=
  rowsAfter ObjectId.hex db.referencedObjectIds []

theorem mem_sortedReferences {db : Db} {id : ObjectId} :
    id ∈ db.sortedReferences ↔ db.refers id := by
  rw [Db.sortedReferences, mem_rowsAfter, mem_referencedObjectIds]
  exact ⟨fun h => h.1, fun h => ⟨h, nil_lt_hex id⟩⟩

theorem sortedReferences_pairwise (db : Db) : db.sortedReferences.Pairwise (· < ·) :=
  (rowsAfter_pairwise ((nodup_referencedObjectIds db).map hex_injective) []).imp
    fun h => hex_lt_iff.mp h

/-- The cursor stands where `rest` is left of the references: on its page is the front of `rest`,
and behind its page there is more exactly if the page does not hold all of it. -/
structure ReferenceCursor.At (references rest : List ObjectId) (cursor : ReferenceCursor) :
    Prop where
  split : ∃ passed, references = passed ++ rest ∧ cursor.after = passed.getLast?
  ahead : cursor.page.items.drop cursor.index <+: rest
  more : cursor.page.hasMore = true ↔
    (cursor.page.items.drop cursor.index).length < rest.length

namespace ReferenceCursor

variable {references rest : List ObjectId} {cursor : ReferenceCursor}

theorem current_eq (cursor : ReferenceCursor) :
    cursor.current = (cursor.page.items.drop cursor.index).head? := List.head?_drop.symm

/-- One step over the first reference of the page. -/
theorem At.next {id : ObjectId} {ids : List ObjectId} (h : At references rest cursor)
    (hids : cursor.page.items.drop cursor.index = id :: ids) :
    ∃ rest', rest = id :: rest' ∧ At references rest'
        { cursor with after := some id, index := cursor.index + 1 }
      ∧ cursor.page.items.drop (cursor.index + 1) = ids := by
  obtain ⟨⟨passed, hsplit, -⟩, hahead, hmore⟩ := h
  have hdrop : cursor.page.items.drop (cursor.index + 1) = ids := by
    rw [← List.drop_drop, hids]
    rfl
  rw [hids] at hahead hmore
  obtain ⟨later, rfl⟩ := hahead
  refine ⟨ids ++ later, rfl, ⟨⟨passed ++ [id], ?_, ?_⟩, ?_, ?_⟩, hdrop⟩
  · rw [hsplit, List.append_assoc]
    rfl
  · rw [List.getLast?_concat]
  · show cursor.page.items.drop (cursor.index + 1) <+: ids ++ later
    rw [hdrop]
    exact List.prefix_append ids later
  · show cursor.page.hasMore = true ↔ (cursor.page.items.drop (cursor.index + 1)).length < _
    rw [hmore, hdrop, List.cons_append, List.length_cons, List.length_cons]
    omega

/-- The inner loop stops before the target, or at the end of the page. -/
theorem At.stepOver (target : ObjectId) {ids : List ObjectId} (h : At references rest cursor)
    (hids : cursor.page.items.drop cursor.index = ids) :
    ∃ rest', At references rest' (cursor.stepOver target ids)
      ∧ rest.dropWhile (· < target) = rest'.dropWhile (· < target)
      ∧ (∀ id ∈ (cursor.stepOver target ids).current, ¬ id < target)
      ∧ rest'.length ≤ rest.length
      ∧ ((cursor.stepOver target ids).current = none →
        rest'.length + ids.length = rest.length) := by
  induction ids generalizing cursor rest with
  | nil =>
    have hnone : cursor.current = none := by rw [current_eq, hids]; rfl
    refine ⟨rest, h, rfl, ?_, Nat.le_refl _, fun _ => rfl⟩
    intro id hid
    exact absurd (hnone.symm.trans hid) (by simp)
  | cons id ids ih =>
    unfold ReferenceCursor.stepOver
    by_cases hless : id < target
    · rw [if_pos hless]
      obtain ⟨rest', rfl, hnext, hdrop⟩ := h.next hids
      obtain ⟨rest'', hat, hrest, hcurrent, hlength, hend⟩ := ih hnext hdrop
      refine ⟨rest'', hat, ?_, hcurrent, ?_, fun hnone => ?_⟩
      · rw [List.dropWhile_cons_of_pos (by simpa using hless), hrest]
      · exact Nat.le_succ_of_le hlength
      · have hsum := hend hnone
        rw [List.length_cons, List.length_cons]
        omega
    · rw [if_neg hless]
      have hcurrent : cursor.current = some id := by rw [current_eq, hids]; rfl
      refine ⟨rest, h, rfl, ?_, Nat.le_refl _, fun hnone => ?_⟩
      · intro id' hid'
        obtain rfl := Option.some.inj (hcurrent.symm.trans hid')
        exact hless
      · exact absurd (hcurrent.symm.trans hnone) (by simp)

/-- Where the cursor has a reference that is not before the target, or no page behind its own, it
stands at the first of those that are not. -/
theorem At.settled {target : ObjectId} (h : At references rest cursor)
    (hcurrent : ∀ id ∈ cursor.current, ¬ id < target)
    (hend : cursor.current.isSome ∨ cursor.page.hasMore = false) :
    rest.dropWhile (· < target) = rest ∧ cursor.current = rest.head? := by
  rcases hids : cursor.page.items.drop cursor.index with _ | ⟨id, ids⟩
  · have hnone : cursor.current = none := by rw [current_eq, hids]; rfl
    have hlast : cursor.page.hasMore = false := by simpa [hnone] using hend
    have hrest : rest = [] := by
      by_contra hne
      have hmore := h.more.mpr (by rw [hids]; exact List.length_pos_of_ne_nil hne)
      rw [hlast] at hmore
      exact absurd hmore (by simp)
    rw [hnone, hrest]
    exact ⟨rfl, rfl⟩
  · have hsome : cursor.current = some id := by rw [current_eq, hids]; rfl
    obtain ⟨later, hlater⟩ := h.ahead
    rw [hids, List.cons_append] at hlater
    subst hlater
    have hid := hcurrent id hsome
    exact ⟨List.dropWhile_cons_of_neg (by simpa using hid), hsome⟩

/-- The page that is read where the cursor stands. -/
theorem At.load {db : Db} (h : At db.sortedReferences rest cursor) :
    listReferencedObjectIds db cursor.after pageLimit
      = .ok (Page.front pageLimit.toNat rest) := by
  obtain ⟨⟨passed, hsplit, hafter⟩, -, -⟩ := h
  have hrest := rowsAfter_split ((nodup_referencedObjectIds db).map hex_injective) hsplit
  have hcursor : objectCursor cursor.after = (passed.getLast?.map ObjectId.hex).getD [] := by
    rw [hafter]
    rfl
  rw [listReferencedObjectIds_eq pageLimit_valid, hcursor, hrest]

/-- A page that has just been read. -/
theorem At.reload (h : At references rest cursor) {limit : Nat} :
    At references rest ⟨Page.front limit rest, 0, cursor.after⟩ where
  split := h.split
  ahead := List.take_prefix limit rest
  more := by
    show decide (limit < rest.length) = true ↔ (rest.take limit).length < rest.length
    rw [decide_eq_true_iff, List.length_take]
    omega

end ReferenceCursor

section Loops

variable {plan : FaultPlan} {since : Nat} {G : Db → Files → Prop}

/-- `advance_before` ends at the first reference that is not before the target. -/
theorem ends_advanceBefore {db db' : Db} {files : Files} (target : ObjectId)
    (hdb : db'.referencedObjectIds = db.referencedObjectIds) (hG : G db' files) {fuel : Nat}
    {cursor : ReferenceCursor} {rest : List ObjectId} (h : cursor.At db.sortedReferences rest)
    (hfuel : rest.length < fuel
      ∨ (cursor.page.items.drop cursor.index ≠ [] ∧ rest.length ≤ fuel)) :
    Ends (Holds since db' files) (advanceBefore plan target fuel cursor)
      (Either (fun cursor' d => Holds since db' files d
        ∧ cursor'.At db.sortedReferences (rest.dropWhile (· < target))
        ∧ cursor'.current = (rest.dropWhile (· < target)).head?) (Stopped plan since G)) := by
  induction fuel generalizing cursor rest with
  | zero =>
    rcases hfuel with hfuel | ⟨hpage, hfuel⟩
    · exact absurd hfuel (Nat.not_lt_zero _)
    · have hlength := h.ahead.length_le
      have hpos := List.length_pos_of_ne_nil hpage
      omega
  | succ fuel ih =>
    obtain ⟨rest', hat, hrest, hcurrent, hlength, hnone⟩ := h.stepOver target rfl
    unfold advanceBefore
    by_cases hend : (cursor.stepOver target (cursor.page.items.drop cursor.index)).current.isSome
        ∨ (cursor.stepOver target (cursor.page.items.drop cursor.index)).page.hasMore = false
    · simp only [if_pos hend]
      obtain ⟨hdrop, hhead⟩ := hat.settled hcurrent hend
      refine ends_pure fun d hd => ⟨hd, ?_⟩
      rw [hrest, hdrop]
      exact ⟨hat, hhead⟩
    · simp only [if_neg hend]
      simp only [not_or, Bool.not_eq_false, Option.not_isSome_iff_eq_none] at hend
      obtain ⟨hempty, hmore⟩ := hend
      have hload : listReferencedObjectIds db' (cursor.stepOver target
          (cursor.page.items.drop cursor.index)).after pageLimit
          = .ok (Page.front pageLimit.toNat rest') := by
        rw [← hat.load, listReferencedObjectIds, listReferencedObjectIds, hdb]
      have hpositive : 0 < rest'.length := Nat.lt_of_le_of_lt (Nat.zero_le _) (hat.more.mp hmore)
      have hfront : rest'.take pageLimit.toNat ≠ [] := by
        have hlimit : 0 < pageLimit.toNat := Nat.pos_of_ne_zero pageLimit_valid.1
        intro hnil
        have htaken := congrArg List.length hnil
        rw [List.length_take, List.length_nil] at htaken
        omega
      refine ends_either_bind (ends_inStore (ends_query (fun _ => hload) hG)) fun page => ?_
      rintro d ⟨rfl, hd⟩
      rw [hrest]
      refine ih hat.reload (Or.inr ⟨hfront, ?_⟩) d hd
      rcases hfuel with hfuel | ⟨hpage, hfuel⟩
      · omega
      · have hpassed := hnone hempty
        have hpos := List.length_pos_of_ne_nil hpage
        omega

end Loops

end Rewind

/-
The index of stored objects.

`recordObject` enters an object under its digest, once; `deleteObjectRow` is the
part of `delete_object` that its transaction covers.  An object is referenced by
a snapshot entry, a terminal chunk or a terminal event.
-/
import Rewind.Store.Runs

namespace Rewind

/-- An object as the object store has published it. -/
structure StoredObject where
  id : ObjectId
  logicalSize : UInt64
  storedSize : UInt64
  compression : CompressionMethod
deriving DecidableEq

/-- `record_object`. -/
def recordObject (db : Db) (stored : StoredObject) (createdUnixMs : Int64) : StoreResult Db := do
  let logicalSize ← sqlU64 "object logical size" stored.logicalSize.toNat
  let storedSize ← sqlU64 "object stored size" stored.storedSize.toNat
  let db := db.insertObject
    { id := stored.id, logicalSize, storedSize, compression := stored.compression, createdUnixMs }
  let recorded ← (db.object? stored.id).elim
    (.error (.database "verify object metadata" .unavailable)) .ok
  ensure (recorded.logicalSize = logicalSize ∧ recorded.storedSize = storedSize
      ∧ recorded.compression = stored.compression)
    (.invariant s!"object metadata disagrees for {stored.id}")
  return db

/-- `object_is_referenced`. -/
def objectIsReferenced (db : Db) (id : ObjectId) : Bool :=
  db.snapshotEntries.any (fun row => row.objectId = some id)
    || db.terminalChunks.any (fun row => row.objectId = id)
    || db.events.any fun row => (row.payload.reference?).map (·.1) = some id

/-- `validate_event_object_references`: the kind column of every event names its payload. -/
def validateEventObjectReferences (db : Db) : StoreResult Unit :=
  ensure (∀ row ∈ db.events, row.kind = payloadKind row.payload)
    (.invariant "malformed event kind or terminal object reference prevents safe deletion")

/-- The checks of `delete_object` before it touches the file: the stored size of the object. -/
def checkDeletable (db : Db) (id : ObjectId) : StoreResult Nat := do
  let row ← (db.object? id).elim (.error (.notFound "object" (toString id))) .ok
  validateEventObjectReferences db
  ensure (objectIsReferenced db id = false) (.objectReferenced id)
  return row.storedSize

/-- `DELETE FROM objects WHERE id = ?1`; the references to an object restrict it. -/
def Db.deleteObject (db : Db) (id : ObjectId) : Except SqlError Db := do
  ensure (∀ row ∈ db.snapshotEntries, row.objectId ≠ some id) .foreignKey
  ensure (∀ row ∈ db.terminalChunks, row.objectId ≠ id) .foreignKey
  return { db with objects := db.objects.filter fun row => row.id ≠ id }

/-- The transaction of `delete_object`, as far as the database goes. -/
def deleteObjectRow (db : Db) (id : ObjectId) : StoreResult Db := do
  let _ ← checkDeletable db id
  orDatabase "delete object metadata" (db.deleteObject id)

theorem recordObject_ok {db db' : Db} {stored : StoredObject} {createdUnixMs : Int64}
    (h : recordObject db stored createdUnixMs = .ok db') :
    ∃ row, row.id = stored.id ∧ row.logicalSize = stored.logicalSize.toNat
      ∧ row.storedSize = stored.storedSize.toNat ∧ db' = db.insertObject row
      ∧ ∃ recorded, db'.object? stored.id = some recorded
          ∧ recorded.logicalSize = stored.logicalSize.toNat
          ∧ recorded.storedSize = stored.storedSize.toNat := by
  obtain ⟨logicalSize, hlogical, h⟩ := Except.bind_eq_ok_iff.mp h
  obtain ⟨storedSize, hstored, h⟩ := Except.bind_eq_ok_iff.mp h
  obtain ⟨recorded, hrecorded, h⟩ := Except.bind_eq_ok_iff.mp h
  obtain ⟨hsame, hdb⟩ := ensure_bind_eq_ok_iff.mp h
  obtain ⟨-, rfl⟩ := sqlU64_eq_ok_iff.mp hlogical
  obtain ⟨-, rfl⟩ := sqlU64_eq_ok_iff.mp hstored
  obtain rfl := Except.ok.inj hdb
  refine ⟨_, ?_, ?_, ?_, rfl, ?_⟩
  · rfl
  · rfl
  · rfl
  · rcases hfind : Db.object? _ stored.id with _ | row
    · rw [hfind] at hrecorded
      exact absurd hrecorded (by simp)
    · rw [hfind] at hrecorded
      obtain rfl := Except.ok.inj hrecorded
      exact ⟨row, rfl, hsame.1, hsame.2.1⟩

/-- The index only gains rows. -/
theorem Db.insertObject_frame (db : Db) (row : ObjectRow) :
    ∃ rows, (∀ r ∈ rows, r = row) ∧ db.insertObject
      row = { db with objects := db.objects ++ rows } := by
  unfold Db.insertObject
  by_cases h : row.id ∈ db.objects.map (·.id)
  · rw [if_pos h]
    exact ⟨[], by simp, by simp⟩
  · rw [if_neg h]
    exact ⟨[row], by simp, rfl⟩

theorem deleteObjectRow_ok {db db' : Db} {id : ObjectId} (h : deleteObjectRow db id = .ok db') :
    objectIsReferenced db id = false
      ∧ db' = { db with objects := db.objects.filter fun row => row.id ≠ id } := by
  obtain ⟨_, hcheck, hdelete⟩ := Except.bind_eq_ok_iff.mp h
  obtain ⟨_, -, hcheck⟩ := Except.bind_eq_ok_iff.mp hcheck
  obtain ⟨_, -, hcheck⟩ := Except.bind_eq_ok_iff.mp hcheck
  obtain ⟨hreferenced, -⟩ := ensure_bind_eq_ok_iff.mp hcheck
  obtain ⟨-, hdelete⟩ := ensure_bind_eq_ok_iff.mp (orDatabase_eq_ok_iff.mp hdelete)
  obtain ⟨-, hdelete⟩ := ensure_bind_eq_ok_iff.mp hdelete
  exact ⟨hreferenced, (Except.ok.inj hdelete).symm⟩

end Rewind

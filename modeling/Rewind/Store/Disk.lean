/-
The store on its disk: the database, the object files, and what a crash leaves of them.

An operation is a sequence of steps.  A `FaultPlan` says of each step whether it fails, or
is never taken because the process has ended before it; what a step did before stays, and an
uncommitted transaction is gone.

* `rescue` — the clean-up after an error, which a crash does not run;
* `putVerified`, `deleteObject`, `deletePhysicalOrphan` — the operations on object files;
* `StoreOp`, `diskStep` — the store as a machine over disks.
-/
import Rewind.Store.ObjectFiles
import Rewind.Store.Writer

namespace Rewind

/-! ### Disks and faults -/

structure Disk where
  db : Db
  files : Files
  tick : Nat
deriving DecidableEq

/-- What happens instead of a step. -/
inductive Fault where
  | none
  | fails
  | crash
deriving DecidableEq

/-- What the world decides, by tick: the faults, how much of a failing write arrives, and the
process and counter that name a temporary file. -/
structure FaultPlan where
  fault : Nat → Fault
  written : Nat → Nat
  pid : Nat → Nat
  sequence : Nat → Nat

/-- The ends of an operation other than its result. -/
inductive Halt where
  | crash
  | error (source : StoreError)
deriving DecidableEq

/-- An operation on the disk. -/
abbrev DiskCall (α : Type) := Call Disk Halt α

namespace DiskCall

variable {α : Type} (plan : FaultPlan)

/-- One step: `f`, or `failure`. -/
def step (failure : StoreError) (f : Disk → StoreResult (α × Db × Files)) : DiskCall α :=
  Call.ofFun fun d =>
    match plan.fault d.tick with
    | .crash => (.error .crash, ⟨d.db, d.files, d.tick + 1⟩)
    | .fails => (.error (.error failure), ⟨d.db, d.files, d.tick + 1⟩)
    | .none =>
      match f d with
      | .ok (a, db, files) => (.ok a, ⟨db, files, d.tick + 1⟩)
      | .error error => (.error (.error error), ⟨d.db, d.files, d.tick + 1⟩)

/-- A step that reads. -/
def inspect (operation : String) (f : Disk → StoreResult α) : DiskCall α :=
  step plan (.io operation) fun d => (f d).map fun a => (a, d.db, d.files)

/-- A step on the files. -/
def onFiles (operation : String) (f : Files → StoreResult Files) : DiskCall Unit :=
  step plan (.io operation) fun d => (f d.files).map fun files => ((), d.db, files)

/-- The commit of a transaction. -/
def commit (operation : String) (f : Db → StoreResult Db) : DiskCall Unit :=
  step plan (.database operation .unavailable) fun d => (f d.db).map fun db => ((), db, d.files)

/-- A result that needs no step. -/
def ofResult : StoreResult α → DiskCall α
  | .ok a => pure a
  | .error error => throw (.error error)

/-- The error of `m` as a value; a crash stays one. -/
def rescue (m : DiskCall α) : DiskCall (StoreResult α) :=
  Call.ofFun fun d =>
    match Call.exec m d with
    | (.ok a, d') => (.ok (.ok a), d')
    | (.error (.error error), d') => (.ok (.error error), d')
    | (.error .crash, d') => (.error .crash, d')

end DiskCall

/-! ### Publication -/

section Operations

variable (plan : FaultPlan) (codecs : Codecs)

/-- The first free temporary path, tried from `sequence` on. -/
def temporaryPath (files : Files) (directory : Bytes) (pid : Nat) : Nat → Nat → Option ObjectPath
  | 0, _ => none
  | tries + 1, sequence =>
    let path := ⟨directory, temporaryName pid sequence⟩
    if (files.node? path).isSome then temporaryPath files directory pid tries (sequence + 1)
    else some path

/-- `create_temp`. -/
def createTemp (directory : Bytes) : DiskCall ObjectPath :=
  DiskCall.step plan (.io "create temporary object") fun d =>
    match temporaryPath d.files directory (plan.pid d.tick) 32 (plan.sequence d.tick) with
    | some path => .ok (path, d.db, d.files.create path (.file []))
    | none =>
      .error (.invariant
        s!"could not allocate a unique temporary file in {asciiString directory}")

/-- `temp.write_all(&envelope)`; a part may arrive. -/
def writeTemp (path : ObjectPath) (envelope : Bytes) : DiskCall Unit :=
  Call.ofFun fun d =>
    let fragment := envelope.take (plan.written d.tick)
    match plan.fault d.tick with
    | .crash => (.error .crash, ⟨d.db, d.files.write path fragment, d.tick + 1⟩)
    | .fails =>
      (.error (.error (.io "write temporary object")),
        ⟨d.db, d.files.write path fragment, d.tick + 1⟩)
    | .none => (.ok (), ⟨d.db, d.files.write path envelope, d.tick + 1⟩)

/-- `fs::hard_link`: whether it has made the new name, or found it taken. -/
def hardLink (existing new : ObjectPath) : DiskCall Bool :=
  DiskCall.step plan (.io "atomically install object") fun d =>
    match d.files.node? existing with
    | some (.file content) =>
      if (d.files.node? new).isSome then .ok (false, d.db, d.files)
      else .ok (true, d.db, d.files.create new (.file content))
    | _ => .error (.io "atomically install object")

/-- `fs::remove_file`, where a missing file is no error. -/
def removeFile (operation : String) (path : ObjectPath) : DiskCall Unit :=
  DiskCall.onFiles plan operation fun files =>
    match files.node? path with
    | some .other => .error (.io operation)
    | _ => .ok (files.remove path)

/-- `verify_existing`. -/
def verifyExisting (id : ObjectId) (expectedBytes : Bytes) : DiskCall StoredObject := do
  let content ← DiskCall.inspect plan "open object" fun d =>
    match d.files.node? (pathFor id) with
    | some (.file content) => .ok content
    | _ => .error (.io "open object")
  let bytes ← DiskCall.ofResult (readObject codecs id expectedBytes.length content)
  DiskCall.ofResult (ensure (bytes = expectedBytes) (.objectCollision id))
  return ⟨id, UInt64.ofNat bytes.length, UInt64.ofNat content.length, .none⟩

/-- The part of `put_verified` whose error cleans the temporary file up. -/
def installObject (id : ObjectId) (bytes envelope : Bytes) (temp : ObjectPath) :
    DiskCall Unit := do
  writeTemp plan temp envelope
  DiskCall.onFiles plan "flush temporary object" .ok
  let linked ← hardLink plan temp (pathFor id)
  if linked then
    DiskCall.onFiles plan "flush object directory" .ok
  else do
    let _ ← verifyExisting plan codecs id bytes
    return ()

/-- The result of a publication, from those of the installation and of its clean-up. -/
def finishInstall (id : ObjectId) (bytes envelope : Bytes) :
    StoreResult Unit → StoreResult Unit → DiskCall StoredObject
  | .error error, _ | .ok (), .error error => throw (.error error)
  | .ok (), .ok () =>
    return ⟨id, UInt64.ofNat bytes.length, UInt64.ofNat envelope.length, .none⟩

/-- `put_verified`. -/
def putVerified (expected : ObjectId) (bytes : Bytes) : DiskCall StoredObject := do
  let actual := ObjectId.digestOf codecs bytes
  DiskCall.ofResult (ensure (actual = expected) (.objectDigestMismatch expected actual))
  DiskCall.onFiles plan "create object fan-out directory" .ok
  let present ← DiskCall.inspect plan "inspect object" fun d =>
    .ok (d.files.node? (pathFor expected)).isSome
  if present then
    verifyExisting plan codecs expected bytes
  else do
    let envelope ← DiskCall.ofResult (encode bytes)
    let temp ← createTemp plan (pathFor expected).directory
    let install ← DiskCall.rescue (installObject plan codecs expected bytes envelope temp)
    let cleanup ← DiskCall.rescue (removeFile plan "remove temporary object" temp)
    finishInstall expected bytes envelope install cleanup

/-- `import_object`. -/
def importObject (expected : ObjectId) (bytes : Bytes) (createdUnixMs : Int64) :
    DiskCall StoredObject := do
  let stored ← putVerified plan codecs expected bytes
  DiskCall.commit plan "record object metadata" fun db => recordObject db stored createdUnixMs
  return stored

/-- `put_object`. -/
def putObject (bytes : Bytes) (createdUnixMs : Int64) : DiskCall StoredObject :=
  importObject plan codecs (ObjectId.digestOf codecs bytes) bytes createdUnixMs

/-! ### Deletion -/

/-- `delete_object`: the file goes before the transaction that deletes the row commits. -/
def deleteObject (id : ObjectId) : DiskCall Nat := do
  let storedSize ← DiskCall.inspect plan "begin object deletion" fun d => checkDeletable d.db id
  removeFile plan "delete object file" (pathFor id)
  DiskCall.commit plan "commit object deletion" fun db =>
    orDatabase "delete object metadata" (db.deleteObject id)
  return storedSize

/-- A recognized unindexed physical artifact. -/
inductive OrphanFileKind where
  | object (id : ObjectId)
  | temporary
deriving DecidableEq

/-- A crash artifact that is present in the object files but absent from the index. -/
structure OrphanFile where
  path : ObjectPath
  kind : OrphanFileKind
  storedSize : Nat
deriving DecidableEq

/-- `byte.is_ascii_digit()`. -/
def isDecimal (b : UInt8) : Bool := 48 ≤ b ∧ b ≤ 57

/-- `byte.is_ascii_digit() || (b'a'..=b'f').contains(&byte)`. -/
def isLowerHex (b : UInt8) : Bool := isDecimal b || (97 ≤ b ∧ b ≤ 102)

/-- `digest_name`. -/
def digestName (directory name : Bytes) : Option ObjectId :=
  if name.length = 62 ∧ name.all isLowerHex then (parseDigest (directory ++ name)).map (⟨·⟩)
  else none

/-- The digits before the first `-` of a text, and the text after it. -/
def splitDash : Bytes → Option (Bytes × Bytes)
  | [] => none
  | b :: rest =>
    if b = 45 then some ([], rest) else (splitDash rest).map fun (pid, tail) => (b :: pid, tail)

/-- `temporary_name`. -/
def isTemporaryName (name : Bytes) : Bool :=
  name.take 5 = utf8 ".tmp-"
    && match splitDash (name.drop 5) with
      | none => false
      | some (pid, sequence) =>
        !pid.isEmpty && !sequence.isEmpty && pid.all isDecimal && sequence.all isDecimal

/-- The names `validate_orphan` accepts. -/
def OrphanFile.isValid (orphan : OrphanFile) : Bool :=
  match orphan.kind with
  | .object id => digestName orphan.path.directory orphan.path.name = some id
  | .temporary =>
    orphan.path.directory.length = 2 && orphan.path.directory.all isLowerHex
      && isTemporaryName orphan.path.name

/-- `validate_orphan`. -/
def validateOrphan (orphan : OrphanFile) : StoreResult Unit :=
  ensure (orphan.isValid = true)
    (.invariant s!"invalid physical orphan path {asciiString orphan.path.directory}/{decodeUtf8 orphan.path.name}")

/-- The check of `delete_physical_orphan` that a digest-shaped file is in no record. -/
def checkUnindexed (kind : OrphanFileKind) (db : Db) : StoreResult Unit :=
  match kind with
  | .temporary => .ok ()
  | .object id => do
    validateEventObjectReferences db
    ensure ((db.object? id).isNone ∧ objectIsReferenced db id = false) (.objectReferenced id)

/-- `delete_physical_orphan`. -/
def deletePhysicalOrphan (orphan : OrphanFile) : DiskCall OrphanFile := do
  DiskCall.inspect plan "check object metadata" fun d => checkUnindexed orphan.kind d.db
  DiskCall.ofResult (validateOrphan orphan)
  DiskCall.onFiles plan "remove file or symlink" fun files => .ok (files.remove orphan.path)
  return orphan

end Operations

/-! ### The store as a machine -/

/-- Whether an operation of the writer is a part of an operation on object files. -/
def Op.touchesIndex : Op → Bool
  | .recordObject .. | .deleteObject .. => true
  | _ => false

/-- A public operation of the store. -/
inductive StoreOp where
  | transaction (op : Op) (h : op.touchesIndex = false)
  | putObject (bytes : Bytes) (createdUnixMs : Int64)
  | importObject (expected : ObjectId) (bytes : Bytes) (createdUnixMs : Int64)
  | deleteObject (id : ObjectId)
  | deletePhysicalOrphan (orphan : OrphanFile)

def StoreOp.exec (plan : FaultPlan) (codecs : Codecs) : StoreOp → DiskCall Unit
  | .transaction op _ => DiskCall.commit plan "commit transaction" (op.exec codecs)
  | .putObject bytes createdUnixMs => do
    let _ ← Rewind.putObject plan codecs bytes createdUnixMs
    return ()
  | .importObject expected bytes createdUnixMs => do
    let _ ← Rewind.importObject plan codecs expected bytes createdUnixMs
    return ()
  | .deleteObject id => do
    let _ ← Rewind.deleteObject plan id
    return ()
  | .deletePhysicalOrphan orphan => do
    let _ ← Rewind.deletePhysicalOrphan plan orphan
    return ()

/-- The disk after an operation has returned, or after the crash in it and the restart. -/
def diskStep (plan : FaultPlan) (codecs : Codecs) (d : Disk) (op : StoreOp) : Disk :=
  (Call.exec (op.exec plan codecs) d).2

/-- A new store. -/
def Disk.empty : Disk := ⟨Db.empty, [], 0⟩

/-! ### Rules -/

section Rules

open Call

variable {α : Type} {plan : FaultPlan} {P E : Disk → Prop}

theorem spec_step {Q : α → Disk → Prop} {failure : StoreError}
    {f : Disk → StoreResult (α × Db × Files)}
    (hhalt : ∀ d, P d → E ⟨d.db, d.files, d.tick + 1⟩)
    (hok : ∀ d a db files, P d → f d = .ok (a, db, files) → Q a ⟨db, files, d.tick + 1⟩) :
    Spec P (DiskCall.step plan failure f) Q E := by
  intro d hd
  unfold DiskCall.step
  rw [exec_ofFun]
  cases plan.fault d.tick with
  | crash => exact hhalt d hd
  | fails => exact hhalt d hd
  | none =>
    rcases hf : f d with error | ⟨a, db, files⟩
    · exact hhalt d hd
    · exact hok d a db files hd hf

theorem spec_inspect {Q : α → Disk → Prop} {operation : String} {f : Disk → StoreResult α}
    (hhalt : ∀ d, P d → E ⟨d.db, d.files, d.tick + 1⟩)
    (hok : ∀ d a, P d → f d = .ok a → Q a ⟨d.db, d.files, d.tick + 1⟩) :
    Spec P (DiskCall.inspect plan operation f) Q E := by
  refine spec_step hhalt fun d a db files hd hf => ?_
  rcases hresult : f d with error | a'
  · rw [hresult] at hf
    exact absurd hf (by simp [Except.map])
  · rw [hresult] at hf
    obtain ⟨rfl, rfl, rfl⟩ := by simpa [Except.map] using hf
    exact hok d a' hd hresult

theorem spec_onFiles {Q : Unit → Disk → Prop} {operation : String} {f : Files → StoreResult Files}
    (hhalt : ∀ d, P d → E ⟨d.db, d.files, d.tick + 1⟩)
    (hok : ∀ d files, P d → f d.files = .ok files → Q () ⟨d.db, files, d.tick + 1⟩) :
    Spec P (DiskCall.onFiles plan operation f) Q E := by
  refine spec_step hhalt fun d a db files hd hf => ?_
  rcases hresult : f d.files with error | files'
  · rw [hresult] at hf
    exact absurd hf (by simp [Except.map])
  · rw [hresult] at hf
    obtain ⟨rfl, rfl⟩ := by simpa [Except.map] using hf
    exact hok d files' hd hresult

theorem spec_commit {Q : Unit → Disk → Prop} {operation : String} {f : Db → StoreResult Db}
    (hhalt : ∀ d, P d → E ⟨d.db, d.files, d.tick + 1⟩)
    (hok : ∀ d db, P d → f d.db = .ok db → Q () ⟨db, d.files, d.tick + 1⟩) :
    Spec P (DiskCall.commit plan operation f) Q E := by
  refine spec_step hhalt fun d a db files hd hf => ?_
  rcases hresult : f d.db with error | db'
  · rw [hresult] at hf
    exact absurd hf (by simp [Except.map])
  · rw [hresult] at hf
    obtain ⟨rfl, rfl⟩ := by simpa [Except.map] using hf
    exact hok d db' hd hresult

theorem spec_ofResult {Q : α → Disk → Prop} {result : StoreResult α}
    (herror : ∀ d, P d → E d) (hok : ∀ d a, P d → result = .ok a → Q a d) :
    Spec P (DiskCall.ofResult result) Q E := by
  rcases result with error | a
  · exact spec_throw herror
  · exact spec_pure fun d hd => hok d a hd rfl

theorem spec_rescue {Q : StoreResult α → Disk → Prop} {m : DiskCall α}
    (h : Spec P m (fun a => Q (.ok a)) fun d => E d ∧ ∀ error, Q (.error error) d) :
    Spec P (DiskCall.rescue m) Q E := by
  intro d hd
  have hspec := h d hd
  unfold DiskCall.rescue
  rw [exec_ofFun]
  rcases hexec : exec m d with ⟨(_ | error) | a, d'⟩
  · rw [hexec] at hspec
    exact hspec.1
  · rw [hexec] at hspec
    exact hspec.2 error
  · rw [hexec] at hspec
    exact hspec

end Rules

end Rewind

/-
Materialization of a snapshot.

The tree is built beside the destination under a private name, what stands at the destination
is moved aside, and the tree is renamed into its place.

* `materialize` — the whole operation, the part up to the installation being `installTree`
  and the rest `settle`;
* `Surroundings.alone` — the world in which no other process acts at the destination.
-/
import Rewind.Platform.Filesystem
import Rewind.Store.ObjectFiles
import Rewind.Lib.PathText

namespace Rewind

open FileTree Call

/-! ### Paths -/

/-- The parent of a path, or `.`. -/
def parentOf (path : Bytes) : Bytes :=
  ((parentPath? path).filter fun parent => parent ≠ []).getD (utf8 ".")

/-- What stands at the destination. -/
def FileSystem.atDestination (fs : FileSystem) (destination : Bytes) : Option Entry :=
  (fileName? destination).bind fs.root.get?

namespace Restore

/-! ### Errors and reports -/

inductive SnapshotError where
  | caseFoldCollision (first second : SnapshotPath)
  | missingParent (path : SnapshotPath) (parent : Bytes)
  | parentNotDirectory (path parent : SnapshotPath)
  | rootNotDirectory (path : Bytes)
  | nonUtf8Path (path : Bytes)
  | invalidPath (value : Bytes) (source : SnapshotPathError)
  | unsupportedEntry (path : Bytes)
  | manifest (source : SnapshotManifestError)
  | io (operation : String) (path : Bytes) (source : Errno)
  | snapshotIdentityMismatch (expected actual : SnapshotId)
  | platform (source : FileSystemError)
  | store (source : StoreError)
  | objectSizeMismatch (path : SnapshotPath) (expected actual : UInt64)
  | restoreFileTooLarge (path : SnapshotPath) (actual maximum : UInt64)
  | destinationNotEmpty (destination : Bytes)
  | invalidDestination (destination : Bytes)
  | installRollback (destination : Bytes) (install rollback : FileSystemError)
  | temporaryNameExhausted (destination : Bytes)
deriving DecidableEq

def SnapshotError.isInstallRollback : SnapshotError → Bool
  | .installRollback .. => true
  | _ => false

/-- Safety and resource policy for one checkout materialization. -/
structure MaterializeOptions where
  force : Bool
  maxFileSize : UInt64

inductive MaterializeWarning where
  | symlinkPermissionsNotRestored (path : SnapshotPath) (captured : UInt16)
deriving DecidableEq

structure MaterializeReport where
  destination : Bytes
  files : Nat
  directories : Nat
  symlinks : Nat
  logicalBytes : UInt64
  warnings : List MaterializeWarning
deriving DecidableEq

/-! ### Checks before any change -/

/-- `path.chars().flat_map(char::to_lowercase)`; the table of lower-case letters is Unicode's. -/
def caseFold (lowercase : Char → List Char) (path : SnapshotPath) : List Char :=
  path.display.toList.flatMap lowercase

/-- The first loop of `validate_manifest`. -/
def checkCaseFold (lowercase : Char → List Char) :
    List (List Char × SnapshotPath) → List SnapshotEntry → Except SnapshotError Unit
  | _, [] => .ok ()
  | folded, entry :: rest =>
    let key := caseFold lowercase entry.path
    match folded.find? (·.1 = key) with
    | some previous => .error (.caseFoldCollision previous.2 entry.path)
    | none => checkCaseFold lowercase ((key, entry.path) :: folded) rest

/-- The texts before the slashes of a path. -/
def parentKeys (text : Bytes) : List Bytes :=
  (List.range text.length).filterMap fun i =>
    if text[i]? = some slash then some (text.take i) else none

/-- The second loop of `validate_manifest`, for one ancestor of one entry. -/
def checkParent (entries : List SnapshotEntry) (entry : SnapshotEntry) (key : Bytes) :
    Except SnapshotError Unit :=
  match entries.find? (·.path.text = key) with
  | none => .error (.missingParent entry.path key)
  | some parent =>
    if parent.kind = .directory then .ok ()
    else .error (.parentNotDirectory entry.path parent.path)

/-- `validate_manifest`. -/
def validateManifest (lowercase : Char → List Char) (manifest : SnapshotManifest) :
    Except SnapshotError Unit := do
  checkCaseFold lowercase [] manifest.entries
  manifest.entries.forM fun entry =>
    (parentKeys entry.path.text).forM (checkParent manifest.entries entry)

/-- `validate_snapshot`. -/
def validateSnapshot (lowercase : Char → List Char) (codecs : Codecs) (snapshot : Snapshot) :
    Except SnapshotError Unit := do
  validateManifest lowercase snapshot.manifest
  let actual := SnapshotId.digestOf codecs snapshot.manifest
  ensure (actual = snapshot.id) (.snapshotIdentityMismatch snapshot.id actual)

/-- The objects a restoration needs, with the size and the path they are first needed with. -/
abbrev Needed := List (ObjectId × UInt64 × SnapshotPath)

/-- The first loop of `preflight_objects`, for one entry. -/
def preflightEntry (maximum : UInt64) (objects : Needed) (entry : SnapshotEntry) :
    Except SnapshotError Needed :=
  match entry.kind with
  | .file objectId size _ =>
    if size > maximum then
      .error (.restoreFileTooLarge entry.path size maximum)
    else
      match objects.find? (·.1 = objectId) with
      | some (_, expected, _) =>
        if expected ≠ size then .error (.objectSizeMismatch entry.path size expected)
        else .ok objects
      | none => .ok ((objectId, size, entry.path) :: objects)
  | _ => .ok objects

/-! ### The operation -/

abbrev RestoreCall (α : Type) := Call FileSystem SnapshotError α

/-- A call of the platform layer. -/
def platform {α : Type} (m : PlatformCall α) : RestoreCall α := mapError .platform m

/-- A private tree beside the destination. -/
structure TemporaryTree where
  name : Name
  root : DirectoryRoot

section Operation

variable (s : Surroundings) (codecs : Codecs) (store : Files) (lowercase : Char → List Char)

/-- The text of a private name. -/
def privateName (label : String) (destinationName : Name) (sequence : Nat) : Name :=
  utf8 ".rewind-" ++ toStringLossy destinationName ++ utf8 "." ++ utf8 label ++ utf8 "-"
    ++ utf8 (toString s.processId) ++ utf8 "-" ++ utf8 (toString sequence)

/-- `unique_name`; the counter wraps around. -/
def uniqueName (label : String) (destinationName : Name) : RestoreCall Name :=
  ofFun fun fs =>
    (.ok (privateName s label destinationName fs.sequence),
      { fs with sequence := (fs.sequence + 1) % 2 ^ 64 })

/-- `load_object`. -/
def loadObject (id : ObjectId) (maximum : UInt64) : RestoreCall Bytes := do
  mapError (fun _ => .store (.io "read object payload")) (touch s .elsewhere)
  match store.node? (pathFor id) with
  | some (.file content) =>
    ofResult ((readObject codecs id maximum.toNat content).mapError .store)
  | _ => throw (.store (.io "open object"))

/-- `load_object`, and the check of the size its caller makes. -/
def loadSized (path : SnapshotPath) (id : ObjectId) (size : UInt64) : RestoreCall Bytes := do
  let bytes ← loadObject s codecs store id size
  let actual := UInt64.ofNat bytes.length
  ofResult (ensure (actual = size) (.objectSizeMismatch path size actual))
  return bytes

/-- `preflight_objects`; the objects are loaded in the order of their identifiers. -/
def preflightObjects (snapshot : Snapshot) (maximum : UInt64) : RestoreCall Unit := do
  let objects ← ofResult (snapshot.manifest.entries.foldlM (preflightEntry maximum) [])
  (objects.insertionSort fun a b => a.1.digest.bytes ≤ b.1.digest.bytes).forM fun needed => do
    let _ ← loadSized s codecs store needed.2.2 needed.1 needed.2.1
    return ()

/-- The loop of `build_tree` over directories. -/
def buildDirectory (root : DirectoryRoot) (report : MaterializeReport) (entry : SnapshotEntry) :
    RestoreCall MaterializeReport :=
  match entry.kind with
  | .directory => do
    platform (root.createDirectoryBeneath s entry.path.text)
    return { report with directories := report.directories + 1 }
  | _ => return report

/-- The loop of `build_tree` over files. -/
def buildFile (root : DirectoryRoot) (maximum : UInt64) (report : MaterializeReport)
    (entry : SnapshotEntry) : RestoreCall MaterializeReport :=
  match entry.kind with
  | .file objectId size _ => do
    ofResult (ensure (size ≤ maximum) (.restoreFileTooLarge entry.path size maximum))
    let bytes ← loadSized s codecs store entry.path objectId size
    platform (root.createFileBeneath s entry.path.text bytes entry.permissions.bits.toUInt32)
    ofResult (ensure (report.logicalBytes.toNat + size.toNat < 2 ^ 64)
      (.objectSizeMismatch entry.path size (UInt64.ofNat (2 ^ 64 - 1))))
    return { report with
      files := report.files + 1, logicalBytes := report.logicalBytes + size }
  | _ => return report

/-- The loop of `build_tree` over symbolic links. -/
def buildSymlink (root : DirectoryRoot) (report : MaterializeReport) (entry : SnapshotEntry) :
    RestoreCall MaterializeReport :=
  match entry.kind with
  | .symlink target => do
    platform (root.createSymlinkBeneath s entry.path.text (utf8 target))
    return { report with
      symlinks := report.symlinks + 1
      warnings := report.warnings
        ++ [.symlinkPermissionsNotRestored entry.path entry.permissions.bits] }
  | _ => return report

/-- The last loop of `build_tree`: the modes of the directories. -/
def finishDirectory (root : DirectoryRoot) (entry : SnapshotEntry) : RestoreCall Unit :=
  match entry.kind with
  | .directory =>
    platform (root.finishDirectoryBeneath s entry.path.text entry.permissions.bits.toUInt32)
  | _ => return ()

/-- `build_tree`. -/
def buildTree (snapshot : Snapshot) (root : DirectoryRoot) (maximum : UInt64) :
    RestoreCall MaterializeReport := do
  let entries := snapshot.manifest.entries
  let report ← entries.foldlM (buildDirectory s root) ⟨[], 0, 0, 0, 0, []⟩
  let report ← entries.foldlM (buildFile s codecs store root maximum) report
  let report ← entries.foldlM (buildSymlink s root) report
  entries.reverse.forM (finishDirectory s root)
  return report

/-- `TemporaryTree::create`, with the tries that are left. -/
def TemporaryTree.create (parent : DirectoryRoot) (destinationName : Name) (destination : Bytes) :
    Nat → RestoreCall TemporaryTree
  | 0 => throw (.temporaryNameExhausted destination)
  | tries + 1 => do
    let name ← uniqueName s "tmp" destinationName
    match ← outcome (parent.createChildDirectory s name) with
    | .ok root => return ⟨name, root⟩
    | .error (.io _ _ .EEXIST) => TemporaryTree.create parent destinationName destination tries
    | .error error => throw (.platform error)

/-- The work on a temporary tree until it is disarmed: dropping it after an error removes it. -/
def TemporaryTree.guard {α : Type} (parent : DirectoryRoot) (temporary : TemporaryTree)
    (m : RestoreCall α) : RestoreCall α := do
  match ← outcome m with
  | .ok a => return a
  | .error error => do
    attempt (parent.removeChild s temporary.name)
    throw error

/-- `unique_available_name`, with the tries that are left. -/
def uniqueAvailableName (parent : DirectoryRoot) (destinationName : Name) (destination : Bytes) :
    Nat → RestoreCall Name
  | 0 => throw (.temporaryNameExhausted destination)
  | tries + 1 => do
    let candidate ← uniqueName s "old" destinationName
    if (← platform (parent.childState s candidate)) = .absent then
      return candidate
    else
      uniqueAvailableName parent destinationName destination tries

/-- The branch of `install_over_existing` after a failed installation. -/
def rollBack {α : Type} (parent : DirectoryRoot) (backup destinationName : Name)
    (destination : Bytes) (install : FileSystemError) : RestoreCall α := do
  match ← outcome (parent.renameChild s backup destinationName) with
  | .ok () => throw (.platform install)
  | .error rollback => throw (.installRollback destination install rollback)

/-- `install_over_existing` until the temporary tree is disarmed; the backup is left. -/
def installOverExisting (parent : DirectoryRoot) (temporary : TemporaryTree)
    (destinationName : Name) (destination : Bytes) : RestoreCall Name := do
  let backup ← uniqueAvailableName s parent destinationName destination 64
  platform (parent.renameChild s destinationName backup)
  match ← outcome (parent.renameChild s temporary.name destinationName) with
  | .ok () => return backup
  | .error install => rollBack s parent backup destinationName destination install

/-- The installation of the tree, and the backup it leaves. -/
def install (parent : DirectoryRoot) (temporary : TemporaryTree) (destinationName : Name)
    (destination : Bytes) : RestoreCall (Option Name) := do
  if (← platform (parent.childState s destinationName)) = .absent then do
    platform (parent.renameChild s temporary.name destinationName)
    return none
  else do
    let backup ← installOverExisting s parent temporary destinationName destination
    return some backup

/-- The second look at the destination. -/
def recheck (parent : DirectoryRoot) (destinationName : Name) (destination : Bytes)
    (force : Bool) (destinationState : DirectoryChildState) : RestoreCall Unit := do
  if force then
    return ()
  else do
    let current ← platform (parent.childState s destinationName)
    ofResult (ensure (current ≠ .occupied ∧ (destinationState = .absent → current = .absent))
      (.destinationNotEmpty destination))

/-- `materialize` until the temporary tree is disarmed: the tree is at the destination, and what
stood there is at the backup name. -/
def installTree (snapshot : Snapshot) (destination : Bytes) (options : MaterializeOptions) :
    RestoreCall (MaterializeReport × Option Name) := do
  ofResult (validateSnapshot lowercase codecs snapshot)
  let destinationName ← ofResult
    ((fileName? destination).elim (.error (.invalidDestination destination)) .ok)
  let parent : DirectoryRoot := ⟨parentOf destination, []⟩
  platform (ioError "open workspace root without following symlinks" parent.path
    (touch s (.openDirectory [])))
  let destinationState ← platform (parent.childState s destinationName)
  ofResult (ensure (destinationState ≠ .occupied ∨ options.force = true)
    (.destinationNotEmpty destination))
  preflightObjects s codecs store snapshot options.maxFileSize
  let temporary ← TemporaryTree.create s parent destinationName destination 64
  temporary.guard s parent do
    let report ← buildTree s codecs store snapshot temporary.root options.maxFileSize
    platform (temporary.root.sync s)
    recheck s parent destinationName destination options.force destinationState
    let backup ← install s parent temporary destinationName destination
    return (report, backup)

/-- The rest of `materialize`: the removal of the backup and the last flush. -/
def settle (parent : DirectoryRoot) (backup : Option Name) : RestoreCall Unit := do
  match backup with
  | none => platform (parent.sync s)
  | some backup => do
    platform (parent.removeChild s backup)
    platform (parent.sync s)

/-- `materialize`. -/
def materialize (snapshot : Snapshot) (destination : Bytes) (options : MaterializeOptions) :
    RestoreCall MaterializeReport := do
  let (report, backup) ← installTree s codecs store lowercase snapshot destination options
  settle s ⟨parentOf destination, []⟩ backup
  return { report with destination }

end Operation

end Restore

end Rewind

/-
Directory handles that follow no link.

The file system is the directory a handle of the process is open on.  Each system call is a
step: first other processes have their turn, and then the call fails, or does what it does.

* `FileSystem.turn`, `syscall` — one step;
* `DirectoryRoot` and its operations — the safe wrappers, call by call;
* `removeEntryAt` — the recursive removal, down to `MAX_REMOVAL_DEPTH` directories;
* `Building`, `Undisturbed` — the properties that additions keep, and those that work beneath one
  name keeps.
-/
import Rewind.Lib.Bytes
import Rewind.Lib.Fallible
import Rewind.Lib.FileTree

namespace Rewind

open FileTree Call

/-! ### The file system -/

/-- A path component. -/
abbrev Name := Bytes

/-- An entry that is no directory. -/
inductive Leaf where
  | file (mode : UInt32) (content : Bytes)
  | symlink (target : Bytes)
  | other
deriving DecidableEq

abbrev Directory := Dir Name UInt32 Leaf

abbrev Entry := FileTree.Node Name UInt32 Leaf

/-- The operating-system errors the code can meet. -/
inductive Errno where
  | ENOENT
  | EEXIST
  | ENOTDIR
  | EISDIR
  | ENOTEMPTY
  | EIO
  | EOPNOTSUPP
  | ELOOP
  | EINVAL
  | EMFILE
deriving DecidableEq

/-- The system calls, with the paths they are made on. -/
inductive Syscall where
  | stat (path : List Name)
  | lstat (path : List Name)
  | openDirectory (path : List Name)
  | readDirectory (path : List Name)
  | mkdir (path : List Name)
  | createFile (path : List Name)
  | write (path : List Name)
  | sync (path : List Name)
  | chmod (path : List Name)
  | symlink (path : List Name)
  | rename (source target : List Name)
  | unlink (path : List Name)
  | rmdir (path : List Name)
  | elsewhere
deriving DecidableEq

/-- The open directory, the counter of private names, and the calls made with what they met. -/
structure FileSystem where
  root : Directory
  tick : Nat
  sequence : Nat
  calls : List (Syscall × Directory)
deriving DecidableEq

/-- What the world decides, by tick: the calls that fail, how much of a failing write arrives,
and what other processes create before a call. -/
structure Surroundings where
  fails : Nat → Bool
  written : Nat → Nat
  others : Nat → List (List Name × Entry)
  processId : Nat

/-- The same without other processes. -/
def Surroundings.alone (s : Surroundings) : Surroundings := { s with others := fun _ => [] }

/-- The turn of the other processes before a call. -/
def FileSystem.turn (s : Surroundings) (call : Syscall) (fs : FileSystem) : FileSystem :=
  let root := (s.others fs.tick).foldl (fun root created => root.create created.2 created.1) fs.root
  { fs with root, tick := fs.tick + 1, calls := fs.calls ++ [(call, root)] }

/-- A system call. -/
abbrev FsCall (α : Type) := Call FileSystem Errno α

section Calls

variable {α : Type} (s : Surroundings)

/-- One step: `f`, or an error of the device. -/
def syscall (call : Syscall) (f : Directory → Except Errno (α × Directory)) : FsCall α :=
  ofFun fun fs =>
    let met := fs.turn s call
    if s.fails fs.tick then
      (.error Errno.EIO, met)
    else
      match f met.root with
      | .ok (a, root) => (.ok a, { met with root })
      | .error e => (.error e, met)

/-- A call that reads the directory at `location`. -/
def inspectAt (call : Syscall) (location : List Name) (f : Directory → Except Errno α) :
    FsCall α :=
  syscall s call fun root =>
    match root.enter location with
    | none => .error .ENOENT
    | some entries => (f entries).map fun a => (a, root)

/-- A call that changes the directory at `location`. -/
def changeAt (call : Syscall) (location : List Name) (f : Directory → Except Errno Directory) :
    FsCall Unit :=
  syscall s call fun root =>
    match root.enter location with
    | none => .error .ENOENT
    | some entries => (f entries).map fun entries' => ((), root.modify (fun _ => entries') location)

/-- A call that changes nothing the process looks at. -/
def touch (call : Syscall) : FsCall Unit := syscall s call fun root => .ok ((), root)

/-- `open_directory_at`. -/
def openDirectoryAt (location : List Name) (name : Name) : FsCall Unit :=
  inspectAt s (.openDirectory (location ++ [name])) location fun entries =>
    match entries.get? name with
    | none => .error .ENOENT
    | some (.leaf _) => .error .ENOTDIR
    | some (.directory ..) => .ok ()

/-- `DirectoryStream`: the names of the directory. -/
def readDirectory (location : List Name) : FsCall (List Name) :=
  inspectAt s (.readDirectory location) location fun entries => .ok entries.names

/-- A new entry, unless the name is taken. -/
def createEntry (name : Name) (node : Entry) (entries : Directory) : Except Errno Directory :=
  if (entries.get? name).isSome then .error .EEXIST else .ok (entries.insert name node)

/-- `mkdir_at`. -/
def mkdirAt (location : List Name) (name : Name) (mode : UInt32) : FsCall Unit :=
  changeAt s (.mkdir (location ++ [name])) location (createEntry name (.directory mode .nil))

/-- `create_file_at`. -/
def createFileAt (location : List Name) (name : Name) (mode : UInt32) : FsCall Unit :=
  changeAt s (.createFile (location ++ [name])) location
    (createEntry name (.leaf (.file mode [])))

/-- `symlinkat`. -/
def symlinkAt (location : List Name) (name : Name) (target : Bytes) : FsCall Unit :=
  changeAt s (.symlink (location ++ [name])) location
    (createEntry name (.leaf (.symlink target)))

/-- The content of a file is replaced. -/
def writeEntry (name : Name) (content : Bytes) (entries : Directory) : Directory :=
  match entries.get? name with
  | some (.leaf (.file mode _)) => entries.insert name (.leaf (.file mode content))
  | _ => entries

/-- `file.write_all`: a part arrives when it fails. -/
def writeAll (location : List Name) (name : Name) (bytes : Bytes) : FsCall Unit :=
  ofFun fun fs =>
    let met := fs.turn s (.write (location ++ [name]))
    let write := fun content => met.root.modify (writeEntry name content) location
    if s.fails fs.tick then
      (.error Errno.EIO, { met with root := write (bytes.take (s.written fs.tick)) })
    else
      (.ok (), { met with root := write bytes })

/-- `set_permissions`. -/
def chmodAt (location : List Name) (name : Name) (mode : UInt32) : FsCall Unit :=
  changeAt s (.chmod (location ++ [name])) location fun entries =>
    match entries.get? name with
    | none => .error .ENOENT
    | some (.leaf (.file _ content)) => .ok (entries.insert name (.leaf (.file mode content)))
    | some (.leaf _) => .ok entries
    | some (.directory _ beneath) => .ok (entries.insert name (.directory mode beneath))

/-- What `renameat` does to two names of one directory. -/
def renameEntry (source target : Name) (entries : Directory) : Except Errno Directory :=
  match entries.get? source with
  | none => .error .ENOENT
  | some node =>
    if source = target then
      .ok entries
    else
      let renamed := (entries.erase source).insert target node
      match node, entries.get? target with
      | _, none => .ok renamed
      | .leaf _, some (.leaf _) => .ok renamed
      | .leaf _, some (.directory ..) => .error .EISDIR
      | .directory .., some (.leaf _) => .error .ENOTDIR
      | .directory .., some replaced =>
        if replaced.isEmptyDirectory then .ok renamed else .error .ENOTEMPTY

/-- `unlinkat` of an entry that is no directory. -/
def unlinkAt (location : List Name) (name : Name) : FsCall Unit :=
  changeAt s (.unlink (location ++ [name])) location fun entries =>
    match entries.get? name with
    | none => .error .ENOENT
    | some (.leaf _) => .ok (entries.erase name)
    | some (.directory ..) => .error .EISDIR

/-- `unlinkat` with `AT_REMOVEDIR`. -/
def rmdirAt (location : List Name) (name : Name) : FsCall Unit :=
  changeAt s (.rmdir (location ++ [name])) location fun entries =>
    match entries.get? name with
    | none => .error .ENOENT
    | some (.leaf _) => .error .ENOTDIR
    | some node => if node.isEmptyDirectory then .ok (entries.erase name) else .error .ENOTEMPTY

end Calls

/-! ### Handles -/

inductive FileSystemError where
  | sourceNotDirectory (path : Bytes)
  | destinationExists (path : Bytes)
  | recursiveDestination (path : Bytes)
  | linkedGitWorktree (path : Bytes)
  | symlinkTargetTooLarge (path : Bytes) (maximum : Nat)
  | interiorNul (path : Bytes)
  | invalidRelativePath (path : Bytes)
  | changedDuringRead (path : Bytes)
  | notRegularFile (path : Bytes)
  | fileTooLarge (path : Bytes) (actual maximum : Nat)
  | directoryEntryLimit (path : Bytes) (maximum : Nat)
  | removalDepthExceeded (path : Bytes)
  | io (operation : String) (path : Bytes) (source : Errno)
deriving DecidableEq

instance : ToString Errno where
  toString
    | .ENOENT => "No such file or directory (os error 2)"
    | .EEXIST => "File exists (os error 17)"
    | .ENOTDIR => "Not a directory (os error 20)"
    | .EISDIR => "Is a directory (os error 21)"
    | .ENOTEMPTY => "Directory not empty (os error 39)"
    | Errno.EIO => "Input/output error (os error 5)"
    | .EOPNOTSUPP => "Operation not supported (os error 95)"
    | .ELOOP => "Too many levels of symbolic links (os error 40)"
    | .EINVAL => "Invalid argument (os error 22)"
    | .EMFILE => "Too many open files (os error 24)"

/-- `Path::display`. -/
def displayPath (path : Bytes) : String := decodeUtf8 (toStringLossy path)

instance : ToString FileSystemError where
  toString
    | .sourceNotDirectory path => s!"workspace source is not a directory: {displayPath path}"
    | .destinationExists path => s!"workspace destination already exists: {displayPath path}"
    | .recursiveDestination path =>
      s!"workspace destination is inside the source: {displayPath path}"
    | .linkedGitWorktree path =>
      s!"linked or symlinked Git metadata is not yet safe to isolate: {displayPath path} is not a directory"
    | .symlinkTargetTooLarge path maximum =>
      s!"workspace symlink target at {displayPath path} exceeds {maximum} bytes"
    | .interiorNul path => s!"path contains a NUL byte: {displayPath path}"
    | .invalidRelativePath path =>
      s!"path must be a normalized nonempty relative path: {displayPath path}"
    | .changedDuringRead path => s!"workspace entry changed while being read: {displayPath path}"
    | .notRegularFile path => s!"workspace entry is not a regular file: {displayPath path}"
    | .fileTooLarge path actual maximum =>
      s!"workspace file {displayPath path} is {actual} bytes; configured maximum is {maximum}"
    | .directoryEntryLimit path maximum =>
      s!"directory {displayPath path} exceeds the configured {maximum}-entry scan limit"
    | .removalDepthExceeded path =>
      s!"workspace entry exceeds the recursive removal depth limit: {displayPath path}"
    | .io operation path source => s!"{operation} failed for {displayPath path}: {source}"

abbrev PlatformCall (α : Type) := Call FileSystem FileSystemError α

/-- `io_error`. -/
def ioError {α : Type} (operation : String) (path : Bytes) (m : FsCall α) : PlatformCall α :=
  mapError (.io operation path) m

/-- `changed_or_io`. -/
def changedOrIo {α : Type} (operation : String) (path : Bytes) (m : FsCall α) : PlatformCall α :=
  mapError
    (fun
      | .ENOENT | .ENOTDIR | .ELOOP | .EINVAL => .changedDuringRead path
      | error => .io operation path error) m

/-- `Path::join` of one component. -/
def joinPath (path : Bytes) (name : Name) : Bytes :=
  if path = [] ∨ path.getLast? = some slash then path ++ name else path ++ slash :: name

/-- `single_component`. -/
def singleComponent (name : Name) : Except FileSystemError Name :=
  if name = [] ∨ name = utf8 "." ∨ name = utf8 ".." ∨ slash ∈ name then
    .error (.invalidRelativePath name)
  else if (0 : UInt8) ∈ name then
    .error (.interiorNul name)
  else
    .ok name

/-- `relative_components`. -/
def relativeComponents (relative : Bytes) : Except FileSystemError (List Name) :=
  if relative = [] ∨ relative.head? = some slash then
    .error (.invalidRelativePath relative)
  else
    (splitSlash relative).mapM fun component =>
      if component = [] ∨ component = utf8 "." ∨ component = utf8 ".." then
        .error (.invalidRelativePath relative)
      else if (0 : UInt8) ∈ component then
        .error (.interiorNul relative)
      else
        .ok component

/-- State of one direct child beneath a pinned directory descriptor. -/
inductive DirectoryChildState where
  | absent
  | emptyDirectory
  | occupied
deriving DecidableEq

def childStateOf : Option Entry → DirectoryChildState
  | none => .absent
  | some node => if node.isEmptyDirectory then .emptyDirectory else .occupied

/-- An opened directory: the path it was opened by, and where it is. -/
structure DirectoryRoot where
  path : Bytes
  location : List Name
deriving DecidableEq

def MAX_REMOVAL_DEPTH : Nat := 256

def MAX_SYMLINK_TARGET_BYTES : Nat := 1024 * 1024

section Removal

variable (s : Surroundings)

/-- The branch of `remove_entry_at` for an entry that is no directory. -/
def removeLeafAt (location : List Name) (name : Name) (display : Bytes) : PlatformCall Unit := do
  match ← outcome (unlinkAt s location name) with
  | .ok () | .error .ENOENT => return ()
  | .error error => throw (.io "remove file or symlink" display error)

/-- `remove_entry_at`, with `remaining` directories to the depth limit. -/
def removeEntryAt (remaining : Nat) (location : List Name) (name : Name) (display : Bytes) :
    PlatformCall Unit := do
  match ← outcome (openDirectoryAt s location name) with
  | .ok () =>
    match remaining with
    | 0 => throw (.removalDepthExceeded display)
    | remaining + 1 => do
      let names ← ioError "read directory entry" display (readDirectory s (location ++ [name]))
      names.forM fun child =>
        removeEntryAt remaining (location ++ [name]) child (joinPath display child)
      mapError (fun _ => .changedDuringRead display) (openDirectoryAt s location name)
      ioError "remove directory" display (rmdirAt s location name)
  | .error .ENOENT => return ()
  | .error .ENOTDIR => removeLeafAt s location name display
  | .error error => throw (.io "open removal target without following symlinks" display error)

end Removal

namespace DirectoryRoot

variable (s : Surroundings) (root : DirectoryRoot)

/-- `child_state`.  It verifies that nothing has changed since its first look, so what it
returns was true at one moment. -/
def childState (name : Name) : PlatformCall DirectoryChildState := do
  let name ← ofResult (singleComponent name)
  ioError "inspect directory child" (joinPath root.path name)
    (inspectAt s (.stat (root.location ++ [name])) root.location fun entries =>
      .ok (childStateOf (entries.get? name)))

/-- `create_child_directory`. -/
def createChildDirectory (name : Name) : PlatformCall DirectoryRoot := do
  let name ← ofResult (singleComponent name)
  let display := joinPath root.path name
  ioError "create directory child" display (mkdirAt s root.location name 0o700)
  match ← outcome (openDirectoryAt s root.location name) with
  | .ok () => return ⟨display, root.location ++ [name]⟩
  | .error error => do
    attempt (rmdirAt s root.location name)
    throw (.io "pin created directory child" display error)

/-- The directories of `components`, opened one in the other from `location`. -/
def openDirectories (operation : String) (display : Bytes) (location components : List Name) :
    PlatformCall (List Name) :=
  components.foldlM (fun location component => do
    changedOrIo operation display (openDirectoryAt s location component)
    return location ++ [component]) location

/-- `open_parent_beneath`. -/
def openParentBeneath (relative : Bytes) : PlatformCall (List Name × Name) := do
  let components ← ofResult (relativeComponents relative)
  let location ← openDirectories s "open materialization ancestor" (joinPath root.path relative)
    root.location components.dropLast
  return (location, components.getLastD [])

/-- `create_directory_beneath`. -/
def createDirectoryBeneath (relative : Bytes) : PlatformCall Unit := do
  let (location, name) ← openParentBeneath s root relative
  ioError "create directory beneath root" (joinPath root.path relative)
    (mkdirAt s location name 0o700)

/-- `create_file_beneath`. -/
def createFileBeneath (relative bytes : Bytes) (mode : UInt32) : PlatformCall Unit := do
  let (location, name) ← openParentBeneath s root relative
  let display := joinPath root.path relative
  ioError "create file beneath root" display (createFileAt s location name 0o600)
  ioError "write file beneath root" display (writeAll s location name bytes)
  ioError "flush file beneath root" display (touch s (.sync (location ++ [name])))
  ioError "set file mode beneath root" display (chmodAt s location name mode)

/-- `create_symlink_beneath`. -/
def createSymlinkBeneath (relative target : Bytes) : PlatformCall Unit := do
  let (location, name) ← openParentBeneath s root relative
  ofResult (ensure ((0 : UInt8) ∉ target) (.interiorNul target))
  ioError "create symbolic link beneath root" (joinPath root.path relative)
    (symlinkAt s location name target)

/-- `finish_directory_beneath`. -/
def finishDirectoryBeneath (relative : Bytes) (mode : UInt32) : PlatformCall Unit := do
  let components ← ofResult (relativeComponents relative)
  let display := joinPath root.path relative
  let location ← openDirectories s "open materialized directory" display root.location components
  ioError "set materialized directory mode" display
    (chmodAt s location.dropLast (location.getLastD []) mode)
  ioError "flush materialized directory" display (touch s (.sync location))

/-- `rename_child`. -/
def renameChild (source target : Name) : PlatformCall Unit := do
  let source ← ofResult (singleComponent source)
  let target ← ofResult (singleComponent target)
  ioError "rename directory child" (joinPath root.path target)
    (changeAt s (.rename (root.location ++ [source]) (root.location ++ [target])) root.location
      (renameEntry source target))

/-- `remove_child`. -/
def removeChild (name : Name) : PlatformCall Unit := do
  let name ← ofResult (singleComponent name)
  removeEntryAt s MAX_REMOVAL_DEPTH root.location name (joinPath root.path name)

/-- `sync`. -/
def sync : PlatformCall Unit :=
  ioError "flush directory" root.path (touch s (.sync root.location))

end DirectoryRoot

/-! ### Rules for system calls -/

section Rules

variable {s : Surroundings} {P E : FileSystem → Prop} {α : Type} {call : Syscall}

theorem spec_syscall {Q : α → FileSystem → Prop}
    {f : Directory → Except Errno (α × Directory)}
    (herror : ∀ fs, P fs → E (fs.turn s call))
    (hok : ∀ fs a root, P fs → s.fails fs.tick = false → f (fs.turn s call).root = .ok (a, root) →
      Q a { fs.turn s call with root }) : Spec P (syscall s call f) Q E := by
  intro fs hfs
  unfold syscall
  rw [exec_ofFun]
  by_cases hfails : s.fails fs.tick
  · simp only [hfails, if_true]
    exact herror fs hfs
  · simp only [hfails, Bool.false_eq_true, if_false]
    rcases hf : f (fs.turn s call).root with e | ⟨a, root⟩
    · exact herror fs hfs
    · exact hok fs a root hfs (Bool.eq_false_iff.mpr hfails) hf

/-- A call that does what it is meant to, unless the device fails it. -/
theorem spec_syscall_of_ok {Q : α → FileSystem → Prop}
    {f : Directory → Except Errno (α × Directory)}
    (hfails : ∀ fs, P fs → s.fails fs.tick = true → E (fs.turn s call))
    (hok : ∀ fs, P fs → ∃ a root, f (fs.turn s call).root = .ok (a, root)
      ∧ Q a { fs.turn s call with root }) : Spec P (syscall s call f) Q E := by
  intro fs hfs
  unfold syscall
  rw [exec_ofFun]
  by_cases hfault : s.fails fs.tick = true
  · simp only [hfault, if_true]
    exact hfails fs hfs hfault
  · obtain ⟨a, root, hf, hQ⟩ := hok fs hfs
    simp only [hfault, Bool.false_eq_true, if_false, hf]
    exact hQ

theorem spec_inspectAt {Q : α → FileSystem → Prop} {location : List Name}
    {f : Directory → Except Errno α} (herror : ∀ fs, P fs → E (fs.turn s call))
    (hok : ∀ fs entries a, P fs → s.fails fs.tick = false →
      (fs.turn s call).root.enter location = some entries → f entries = .ok a →
        Q a (fs.turn s call)) : Spec P (inspectAt s call location f) Q E := by
  refine spec_syscall herror fun fs a root hfs hfaultless hf => ?_
  rcases henter : (fs.turn s call).root.enter location with _ | entries
  · rw [henter] at hf
    exact absurd hf (by simp)
  · rw [henter] at hf
    rcases hresult : f entries with e | a'
    · simp [hresult, Except.map] at hf
    · simp only [hresult, Except.map, Except.ok.injEq, Prod.mk.injEq] at hf
      obtain ⟨rfl, rfl⟩ := hf
      exact hok fs entries a' hfs hfaultless henter hresult

theorem spec_changeAt {Q : Unit → FileSystem → Prop} {location : List Name}
    {f : Directory → Except Errno Directory} (herror : ∀ fs, P fs → E (fs.turn s call))
    (hok : ∀ fs entries entries', P fs → s.fails fs.tick = false →
      (fs.turn s call).root.enter location = some entries → f entries = .ok entries' →
        Q () { fs.turn s call with
          root := (fs.turn s call).root.modify (fun _ => entries') location }) :
    Spec P (changeAt s call location f) Q E := by
  refine spec_syscall herror fun fs a root hfs hfaultless hf => ?_
  rcases henter : (fs.turn s call).root.enter location with _ | entries
  · rw [henter] at hf
    exact absurd hf (by simp)
  · rw [henter] at hf
    rcases hresult : f entries with e | entries'
    · simp [hresult, Except.map] at hf
    · simp only [hresult, Except.map, Except.ok.injEq, Prod.mk.injEq] at hf
      obtain ⟨-, rfl⟩ := hf
      exact hok fs entries entries' hfs hfaultless henter hresult

theorem spec_openDirectoryAt {Q : Unit → FileSystem → Prop} {location : List Name} {name : Name}
    (herror : ∀ fs, P fs → E (fs.turn s (.openDirectory (location ++ [name]))))
    (hok : ∀ fs entries mode beneath, P fs →
      (fs.turn s (.openDirectory (location ++ [name]))).root.enter location = some entries →
      entries.get? name = some (.directory mode beneath) →
      Q () (fs.turn s (.openDirectory (location ++ [name])))) :
    Spec P (openDirectoryAt s location name) Q E := by
  refine spec_inspectAt herror fun fs entries _ hfs _ henter hresult => ?_
  rcases hget : entries.get? name with _ | (content | ⟨mode, beneath⟩)
  · simp [hget] at hresult
  · simp [hget] at hresult
  · exact hok fs entries mode beneath hfs henter hget

end Rules

/-! ### What a call keeps -/

/-- A property that the turns of the others do not disturb, nor the counter of names. -/
structure Steady (s : Surroundings) (P : FileSystem → Prop) : Prop where
  turn : ∀ {fs} call, P fs → P (fs.turn s call)
  count : ∀ {fs : FileSystem} sequence, P fs → P { fs with sequence }

/-- A steady property that changes inside the directory `name` do not disturb. -/
structure Building (s : Surroundings) (name : Name) (P : FileSystem → Prop) : Prop
    extends Steady s P where
  modify : ∀ {fs : FileSystem} f path, P fs → P { fs with root := fs.root.modify f (name :: path) }

/-- A steady property that depends on the entries other than `name` only. -/
structure Undisturbed (s : Surroundings) (name : Name) (P : FileSystem → Prop) : Prop
    extends Steady s P where
  beneath : ∀ {fs : FileSystem} {root}, P fs → (∀ n ≠ name, root.get? n = fs.root.get? n) →
    P { fs with root }

section Keeping

variable {s : Surroundings} {name : Name} {P : FileSystem → Prop} {α : Type} {call : Syscall}

theorem Undisturbed.building (h : Undisturbed s name P) : Building s name P where
  toSteady := h.toSteady
  modify _ path hfs := h.beneath hfs fun _ hn => Dir.get?_modify_of_ne _ _ path hn

theorem Steady.inspectAt (h : Steady s P) {location : List Name} {f : Directory → Except Errno α} :
    Keeps P (Rewind.inspectAt s call location f) :=
  spec_inspectAt (fun _ hfs => h.turn call hfs) fun _ _ _ hfs _ _ _ => h.turn call hfs

theorem Steady.touch (h : Steady s P) : Keeps P (Rewind.touch s call) :=
  spec_syscall (fun _ hfs => h.turn call hfs) fun fs a root hfs _ hf => by
    obtain ⟨-, rfl⟩ := by simpa using hf
    exact h.turn call hfs

theorem Building.changeAt (h : Building s name P) {location : List Name}
    {f : Directory → Except Errno Directory} (hlocation : location.head? = some name) :
    Keeps P (Rewind.changeAt s call location f) := by
  obtain ⟨path, rfl⟩ := List.head?_eq_some_iff.mp hlocation
  exact spec_changeAt (fun _ hfs => h.turn call hfs) fun _ _ _ hfs _ _ _ =>
    h.modify _ path (h.turn call hfs)

theorem Building.writeAll (h : Building s name P) {location : List Name} (entry : Name)
    (bytes : Bytes) (hlocation : location.head? = some name) :
    Keeps P (Rewind.writeAll s location entry bytes) := by
  obtain ⟨path, rfl⟩ := List.head?_eq_some_iff.mp hlocation
  intro fs hfs
  have hturn := h.turn (.write (name :: path ++ [entry])) hfs
  unfold Rewind.writeAll
  rw [exec_ofFun]
  by_cases hfails : s.fails fs.tick
  · simp only [hfails, if_true]
    exact h.modify _ path hturn
  · simp only [hfails, Bool.false_eq_true, if_false]
    exact h.modify _ path hturn

/-- A change of the entry `entry` and of no other. -/
def OnlyAt (entry : Name) (f : Directory → Except Errno Directory) : Prop :=
  ∀ entries entries', f entries = .ok entries' → ∀ n ≠ entry, entries'.get? n = entries.get? n

theorem Undisturbed.changeAt (h : Undisturbed s name P) {location : List Name} {entry : Name}
    {f : Directory → Except Errno Directory} (hf : OnlyAt entry f)
    (hbeneath : (location ++ [entry]).head? = some name) :
    Keeps P (Rewind.changeAt s call location f) := by
  cases location with
  | nil =>
    obtain rfl : entry = name := Option.some.inj hbeneath
    refine spec_changeAt (fun _ hfs => h.turn call hfs)
      fun fs entries entries' hfs _ henter hresult => ?_
    obtain rfl := Option.some.inj henter
    exact h.beneath (h.turn call hfs) (hf _ _ hresult)
  | cons m path =>
    obtain rfl : m = name := Option.some.inj hbeneath
    exact h.building.changeAt rfl

end Keeping

/-! ### The removal of one name -/

section Removal

variable {s : Surroundings} {name : Name} {P : FileSystem → Prop} (h : Undisturbed s name P)
include h

theorem Undisturbed.unlinkAt {location : List Name} {entry : Name}
    (hbeneath : (location ++ [entry]).head? = some name) :
    Keeps P (Rewind.unlinkAt s location entry) := by
  refine h.changeAt (?_ : OnlyAt entry _) hbeneath
  intro entries entries' hresult n hn
  rcases hget : entries.get? entry with _ | (_ | _) <;> simp only [hget] at hresult
  · exact absurd hresult (by simp)
  · obtain rfl := Except.ok.inj hresult
    exact Dir.get?_erase_of_ne _ hn
  · exact absurd hresult (by simp)

theorem Undisturbed.rmdirAt {location : List Name} {entry : Name}
    (hbeneath : (location ++ [entry]).head? = some name) :
    Keeps P (Rewind.rmdirAt s location entry) := by
  refine h.changeAt (?_ : OnlyAt entry _) hbeneath
  intro entries entries' hresult n hn
  rcases hget : entries.get? entry with _ | (_ | ⟨mode, beneath⟩) <;> simp only [hget] at hresult
  · exact absurd hresult (by simp)
  · exact absurd hresult (by simp)
  · by_cases hempty : (FileTree.Node.directory mode beneath : Entry).isEmptyDirectory = true
    · rw [if_pos hempty] at hresult
      obtain rfl := Except.ok.inj hresult
      exact Dir.get?_erase_of_ne _ hn
    · rw [if_neg hempty] at hresult
      exact absurd hresult (by simp)

theorem Undisturbed.removeLeafAt {location : List Name} {entry : Name} {display : Bytes}
    (hbeneath : (location ++ [entry]).head? = some name) :
    Keeps P (Rewind.removeLeafAt s location entry display) := by
  refine keeps_bind (keeps_outcome (h.unlinkAt hbeneath)) fun unlinked => ?_
  rcases unlinked with (_ | _) | _
  all_goals first | exact keeps_pure _ | exact keeps_throw _

/-- The recursive removal, by induction on the directories to the depth limit. -/
theorem Undisturbed.removeEntryAt (remaining : Nat) {location : List Name} {entry : Name}
    {display : Bytes} (hbeneath : (location ++ [entry]).head? = some name) :
    Keeps P (Rewind.removeEntryAt s remaining location entry display) := by
  induction remaining generalizing location entry display with
  | zero =>
    unfold Rewind.removeEntryAt
    refine keeps_bind (keeps_outcome h.inspectAt) fun opened => ?_
    rcases opened with (_ | _) | _
    case error.ENOENT => exact keeps_pure _
    case error.ENOTDIR => exact h.removeLeafAt hbeneath
    all_goals exact keeps_throw _
  | succ remaining ih =>
    -- what is below the entry is below `name` too
    have hinside : ∀ child, (location ++ [entry] ++ [child]).head? = some name := by
      intro child
      rw [List.head?_append, hbeneath, Option.some_or]
    unfold Rewind.removeEntryAt
    refine keeps_bind (keeps_outcome h.inspectAt) fun opened => ?_
    rcases opened with (_ | _) | _
    case error.ENOENT => exact keeps_pure _
    case error.ENOTDIR => exact h.removeLeafAt hbeneath
    case ok =>
      refine keeps_bind (keeps_mapError h.inspectAt) fun names => ?_
      refine keeps_bind (keeps_forM (fun child => ih (hinside child)) names) fun _ => ?_
      refine keeps_bind (keeps_mapError h.inspectAt) fun _ => ?_
      exact keeps_mapError (h.rmdirAt hbeneath)
    all_goals exact keeps_throw _

end Removal

/-! ### The operations of a handle -/

theorem singleComponent_eq_ok {name name' : Name} (h : singleComponent name = .ok name') :
    name' = name := by
  unfold singleComponent at h
  split at h
  · exact absurd h (by simp)
  · split at h
    · exact absurd h (by simp)
    · exact (Except.ok.inj h).symm

/-- The check of a name, before a call on it. -/
theorem spec_singleComponent {α : Type} {P E : FileSystem → Prop} {Q : α → FileSystem → Prop}
    {name : Name} {f : Name → PlatformCall α} (herror : ∀ fs, P fs → E fs)
    (hok : Spec P (f name) Q E) : Spec P (ofResult (singleComponent name) >>= f) Q E := by
  refine spec_bind (spec_ofResult (Q := fun name' fs => P fs ∧ name' = name) herror
    fun name' hname fs hfs => ⟨hfs, singleComponent_eq_ok hname⟩) fun name' => ?_
  refine spec_and_right fun hname => ?_
  rw [hname]
  exact hok

theorem relativeComponents_ne_nil {relative : Bytes} {components : List Name}
    (h : relativeComponents relative = .ok components) : components ≠ [] := by
  rintro rfl
  unfold relativeComponents at h
  split at h
  · exact absurd h (by simp)
  · rcases hsplit : splitSlash relative with _ | ⟨first, rest⟩
    · exact splitSlash_ne_nil relative hsplit
    · rw [hsplit, List.mapM_cons] at h
      obtain ⟨c, -, h⟩ := Except.bind_eq_ok_iff.mp h
      obtain ⟨cs, -, h⟩ := Except.bind_eq_ok_iff.mp h
      exact absurd (Except.ok.inj h) (by simp)

section Handles

variable {s : Surroundings} {name : Name} {P : FileSystem → Prop} {root : DirectoryRoot}

theorem Steady.childState (h : Steady s P) (entry : Name) : Keeps P (root.childState s entry) :=
  spec_singleComponent (fun _ hfs => hfs) (keeps_mapError h.inspectAt)

theorem Steady.sync (h : Steady s P) : Keeps P (root.sync s) := keeps_mapError h.touch

theorem Undisturbed.removeChild (h : Undisturbed s name P) (hroot : root.location = []) :
    Keeps P (root.removeChild s name) := by
  refine spec_singleComponent (fun _ hfs => hfs) (h.removeEntryAt _ ?_)
  rw [hroot]
  rfl

variable (h : Building s name P)
include h

theorem Building.openDirectories {operation : String} {display : Bytes}
    (components : List Name) {location : List Name} (hlocation : location.head? = some name) :
    Spec P (DirectoryRoot.openDirectories s operation display location components)
      (fun found fs => P fs ∧ found = location ++ components) P := by
  induction components generalizing location with
  | nil => exact spec_pure fun _ hfs => ⟨hfs, (List.append_nil location).symm⟩
  | cons component components ih =>
    unfold DirectoryRoot.openDirectories at ih ⊢
    rw [List.foldlM_cons]
    refine spec_bind (Q := fun next fs => P fs ∧ next = location ++ [component]) ?_ fun next => ?_
    · exact spec_bind (keeps_mapError h.inspectAt) fun _ => spec_pure fun _ hfs => ⟨hfs, rfl⟩
    · refine spec_and_right fun hnext => ?_
      subst hnext
      refine (ih ?_).imp (fun _ hfs => hfs) (fun found fs hfound => ?_) fun _ hfs => hfs
      · rw [List.head?_append, hlocation, Option.some_or]
      · rw [List.append_assoc] at hfound
        exact hfound

theorem Building.openParentBeneath (hroot : root.location.head? = some name)
    (relative : Bytes) : Spec P (root.openParentBeneath s relative)
      (fun found fs => P fs ∧ found.1.head? = some name) P := by
  refine spec_bind (keeps_ofResult _) fun components => ?_
  refine spec_bind (h.openDirectories _ hroot) fun location => ?_
  refine spec_pure fun fs hfs => ⟨hfs.1, ?_⟩
  rw [hfs.2, List.head?_append, hroot, Option.some_or]

theorem Building.createDirectoryBeneath (hroot : root.location.head? = some name)
    (relative : Bytes) : Keeps P (root.createDirectoryBeneath s relative) := by
  refine spec_bind (h.openParentBeneath hroot relative) fun found => spec_and_right fun hfound => ?_
  exact keeps_mapError (h.changeAt hfound)

theorem Building.createFileBeneath (hroot : root.location.head? = some name)
    (relative bytes : Bytes) (mode : UInt32) :
    Keeps P (root.createFileBeneath s relative bytes mode) := by
  refine spec_bind (h.openParentBeneath hroot relative) fun found => spec_and_right fun hfound => ?_
  refine keeps_bind (keeps_mapError (h.changeAt hfound)) fun _ => ?_
  refine keeps_bind (keeps_mapError (h.writeAll _ bytes hfound)) fun _ => ?_
  refine keeps_bind (keeps_mapError h.touch) fun _ => ?_
  exact keeps_mapError (h.changeAt hfound)

theorem Building.createSymlinkBeneath (hroot : root.location.head? = some name)
    (relative target : Bytes) : Keeps P (root.createSymlinkBeneath s relative target) := by
  refine spec_bind (h.openParentBeneath hroot relative) fun found => spec_and_right fun hfound => ?_
  refine keeps_bind (keeps_ofResult _) fun _ => ?_
  exact keeps_mapError (h.changeAt hfound)

theorem Building.finishDirectoryBeneath (hroot : root.location.head? = some name)
    (relative : Bytes) (mode : UInt32) :
    Keeps P (root.finishDirectoryBeneath s relative mode) := by
  refine spec_bind (spec_ofResult (Q := fun components fs => P fs ∧ components ≠ [])
    (fun _ hfs => hfs) fun components hresult fs hfs => ⟨hfs, relativeComponents_ne_nil hresult⟩)
    fun components => spec_and_right fun hne => ?_
  refine spec_bind (h.openDirectories _ hroot) fun location => spec_and_right fun hlocation => ?_
  refine keeps_bind (keeps_mapError (h.changeAt ?_)) fun _ => keeps_mapError h.touch
  obtain ⟨path, hpath⟩ := List.head?_eq_some_iff.mp hroot
  rw [hlocation, hpath, List.dropLast_append_of_ne_nil hne]
  rfl

end Handles

end Rewind

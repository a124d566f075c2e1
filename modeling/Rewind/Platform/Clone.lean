/-
Cloning a workspace to a name that is free.

`clone_workspace` looks whether the destination exists, creates it, copies the source into it, and
removes what is there when anything of this has failed.  A name that was taken in the meantime, or
was taken by a link that leads nowhere, makes the creation fail, and what is removed then was never
created here.

* `cloneEntries` — the recursive copy;
* `cloneWorkspace` — the checks, the copy and the removal, which is made entry by entry;
* **`clone_removes_own_iff`** — when a clone that fails removes its own entry and no other.
-/
import Rewind.Platform.RemoveDirAll
import Rewind.Lib.PathText

namespace Rewind

open FileTree Call

inductive CloneStrategy where
  | apfsClone
  | linuxReflink
  | mixed
  | recursiveCopy
deriving DecidableEq

structure CloneReport where
  strategy : CloneStrategy
  clonedFiles : Nat
  copiedFiles : Nat
  directories : Nat
  symlinks : Nat
deriving DecidableEq

structure Counts where
  cloned : Nat
  copied : Nat
  directories : Nat
  symlinks : Nat

def nativeCloneStrategy : CloneStrategy := .linuxReflink

/-- The first component of the path of the metadata of Git. -/
def gitName : Name := utf8 ".git"

section Clone

variable (s : Surroundings)

/-! ### The source -/

/-- A call on the source, which is no part of the directory with the destination. -/
def inspectSource (operation : String) (path : Bytes) : PlatformCall Unit :=
  ioError operation path (touch s .elsewhere)

/-- A comparison with what was seen of the source before. -/
def verifySource (path : Bytes) : PlatformCall Unit :=
  mapError (fun _ => .changedDuringRead path) (touch s .elsewhere)

/-- `verify_open_entry`. -/
def verifyOpenEntry (path : Bytes) : PlatformCall Unit := do
  inspectSource s "inspect open file" path
  verifySource s path

/-- `read_link_at`. -/
def readLinkAt (path target : Bytes) : PlatformCall Unit := do
  changedOrIo "read source symlink without following it" path (touch s .elsewhere)
  ofResult (ensure (target.length < MAX_SYMLINK_TARGET_BYTES)
    (.symlinkTargetTooLarge path MAX_SYMLINK_TARGET_BYTES))
  verifySource s path

/-! ### Files -/

/-- `ioctl` with `FICLONE`; `reflinks` are the moments at which the file systems support it. -/
def reflinkAt (reflinks : Nat → Bool) (location : List Name) (name : Name) (content : Bytes) :
    FsCall Unit :=
  ofFun fun fs =>
    let met := fs.turn s (.write (location ++ [name]))
    if s.fails fs.tick then
      (.error Errno.EIO, met)
    else if reflinks fs.tick then
      (.ok (), { met with root := met.root.modify (writeEntry name content) location })
    else
      (.error .EOPNOTSUPP, met)

variable (reflinks : Nat → Bool)

/-- `native_clone_file`. -/
def nativeCloneFile (source destination : Bytes) (location : List Name) (name : Name)
    (content : Bytes) : PlatformCall Bool := do
  verifyOpenEntry s source
  ioError "create clone destination" destination (createFileAt s location name 0o666)
  match ← outcome (reflinkAt s reflinks location name content) with
  | .ok () =>
    verifyOpenEntry s source
    return true
  | .error error =>
    ioError "remove failed reflink" destination (unlinkAt s location name)
    if error = .EOPNOTSUPP then return false else throw (.io "reflink file" destination error)

/-- `copy_open_file`. -/
def copyOpenFile (source destination : Bytes) (location : List Name) (name : Name)
    (content : Bytes) : PlatformCall Unit := do
  inspectSource s "duplicate clone source descriptor" source
  verifyOpenEntry s source
  ioError "create copy destination" destination (createFileAt s location name 0o666)
  let copied ← outcome (ε := FileSystemError) (do
    ioError "copy file bytes" source (writeAll s location name content)
    ioError "copy file bytes" source (touch s (.sync (location ++ [name])))
    verifyOpenEntry s source)
  match copied with
  | .ok () => return ()
  | .error error => do
    attempt (unlinkAt s location name)
    throw error

/-! ### Directories -/

/-- The branches of `clone_entry` for what is no directory. -/
def cloneLeaf (source destination : Bytes) (location : List Name) (name : Name) (counts : Counts) :
    Leaf → PlatformCall Counts
  | .file mode content => do
    inspectSource s "open clone source without following symlinks" source
    inspectSource s "inspect open clone source" source
    verifySource s source
    let cloned ← nativeCloneFile s reflinks source destination location name content
    let counts ← (if cloned then
        pure { counts with cloned := counts.cloned + 1 }
      else do
        copyOpenFile s source destination location name content
        pure { counts with copied := counts.copied + 1 })
    verifySource s source
    ioError "set permissions" destination (chmodAt s location name mode)
    return counts
  | .symlink target => do
    readLinkAt s source target
    ioError "create symlink" destination (symlinkAt s location name target)
    return { counts with symlinks := counts.symlinks + 1 }
  | .other => throw (.io "copy unsupported filesystem entry" source .EOPNOTSUPP)

/-- The loop of `clone_directory_contents`, with `clone_entry` for each of the entries. -/
def cloneEntries : Directory → (source destination : Bytes) → List Name → Counts →
    PlatformCall Counts
  | .nil, source, _, _, counts => do
    inspectSource s "read source directory entry" source
    return counts
  | .leaf name leaf rest, source, destination, location, counts => do
    inspectSource s "read source directory entry" source
    inspectSource s "inspect source entry without following symlinks" (joinPath source name)
    let counts ← cloneLeaf s reflinks (joinPath source name) (joinPath destination name) location
      name counts leaf
    cloneEntries rest source destination location counts
  | .directory name mode entries rest, source, destination, location, counts => do
    inspectSource s "read source directory entry" source
    let child := joinPath source name
    inspectSource s "inspect source entry without following symlinks" child
    inspectSource s "open source directory without following symlinks" child
    inspectSource s "inspect open source directory" child
    verifySource s child
    ioError "create directory" (joinPath destination name) (mkdirAt s location name 0o777)
    inspectSource s "open source directory stream" child
    let counts ← cloneEntries entries child (joinPath destination name) (location ++ [name])
      { counts with directories := counts.directories + 1 }
    verifyOpenEntry s child
    verifySource s child
    ioError "set permissions" (joinPath destination name) (chmodAt s location name mode)
    cloneEntries rest source destination location counts

/-! ### The destination -/

/-- `destination.exists()`, which follows a link; `live` are the targets that exist. -/
def destinationExists (live : Bytes → Bool) (name : Option Name) : PlatformCall Bool := do
  match ← outcome (match name with
      | none => touch s .elsewhere
      | some name => inspectAt s (.stat [name]) [] fun entries =>
        match entries.get? name with
        | none => .error .ENOENT
        | some (.leaf (.symlink target)) => if live target then .ok () else .error .ENOENT
        | some _ => .ok ()) with
  | .ok () => return true
  | .error _ => return false

/-- `symlink_metadata` of the Git metadata in the clone. -/
def inspectClonedGit (canonicalSource destination : Bytes) (name : Name) : PlatformCall Unit := do
  match ← outcome (inspectAt s (.stat [name, gitName]) [name] fun entries =>
      match entries.get? gitName with
      | none => .error .ENOENT
      | some (.leaf _) => .ok false
      | some (.directory ..) => .ok true) with
  | .ok true | .error .ENOENT => return ()
  | .ok false => throw (.linkedGitWorktree (joinPath canonicalSource gitName))
  | .error error =>
    throw (.io "inspect cloned Git metadata" (joinPath destination gitName) error)

/-- What `clone_workspace` does between the creation of the destination and its return. -/
def cloneInto (mode : UInt32) (entries : Directory) (canonicalSource canonicalDestination : Bytes)
    (name : Name) : PlatformCall Counts := do
  inspectSource s "open source directory stream" canonicalSource
  let counts ← cloneEntries s reflinks entries canonicalSource canonicalDestination [name]
    ⟨0, 0, 1, 0⟩
  inspectClonedGit s canonicalSource canonicalDestination name
  verifyOpenEntry s canonicalSource
  ioError "set permissions" canonicalDestination (chmodAt s [] name mode)
  return counts

/-- The checks of `clone_workspace` on its source and on the paths. -/
def checkClone (entries : Directory) (source canonicalSource canonicalParent destination : Bytes) :
    PlatformCall Name := do
  inspectSource s "open workspace root without following symlinks" source
  inspectSource s "inspect open workspace root" source
  inspectSource s "canonicalize" source
  inspectSource s "inspect canonical workspace root" canonicalSource
  verifySource s source
  inspectSource s "canonicalize" ((parentPath? destination).getD (utf8 "."))
  match fileName? destination with
  | none => throw (.recursiveDestination destination)
  | some name => do
    ofResult (ensure ((stripPrefix canonicalSource (joinPath canonicalParent name)).isNone = true)
      (.recursiveDestination destination))
    inspectSource s "inspect Git metadata without following symlinks"
      (joinPath canonicalSource gitName)
    match entries.get? gitName with
    | some (.leaf _) => throw (.linkedGitWorktree (joinPath canonicalSource gitName))
    | some (.directory ..) | none => return name

def Counts.report (counts : Counts) : CloneReport where
  strategy :=
    if counts.cloned = 0 then .recursiveCopy
    else if counts.copied = 0 then nativeCloneStrategy
    else .mixed
  clonedFiles := counts.cloned
  copiedFiles := counts.copied
  directories := counts.directories
  symlinks := counts.symlinks

variable (descriptors : Nat)

/-- The creation of the destination, the copy, and the removal after a failure of either; the
process can open `descriptors` directories for it. -/
def cloneTo (mode : UInt32) (entries : Directory) (canonicalSource canonicalDestination : Bytes)
    (name : Name) : PlatformCall CloneReport := do
  let copy ← outcome (ε := FileSystemError) (do
    ioError "create directory" canonicalDestination (mkdirAt s [] name 0o777)
    cloneInto s reflinks mode entries canonicalSource canonicalDestination name)
  match copy with
  | .ok counts => return counts.report
  | .error error => do
    attempt (removeDirAll s descriptors name)
    throw error

/-- `clone_workspace` of the tree at `source`. -/
def cloneWorkspace (live : Bytes → Bool) (tree : Entry)
    (source canonicalSource canonicalParent destination : Bytes) : PlatformCall CloneReport := do
  inspectSource s "inspect" source
  match tree with
  | .leaf _ => throw (.sourceNotDirectory source)
  | .directory mode entries => do
    let found ← destinationExists s live (fileName? destination)
    ofResult (ensure (found = false) (.destinationExists destination))
    let name ← checkClone s entries source canonicalSource canonicalParent destination
    cloneTo s reflinks descriptors mode entries canonicalSource (joinPath canonicalParent name) name

end Clone

/-- The directory of the destination, before the first call. -/
def FileSystem.start (root : Directory) : FileSystem := ⟨root, 0, 0, []⟩

/-- This call created the entry `name` of the directory. -/
def MadeAt (s : Surroundings) (name : Name) (fs : FileSystem) (i : Nat) : Prop :=
  ∃ met, fs.calls[i]? = some (.mkdir [name], met) ∧ met.get? name = none ∧ s.fails i = false

/-- No call takes anything away: what would is failed by the device, or meets nothing to take. -/
def RemovesNothing (s : Surroundings) (fs : FileSystem) : Prop :=
  ∀ i call met, fs.calls[i]? = some (call, met) → s.fails i = true ∨ call.removes met = false

/-! ### Before the destination is created -/

section Before

variable {s : Surroundings} {name : Name}

/-- Other processes create the entry `name`, and entries elsewhere. -/
def CreatesAround (s : Surroundings) (name : Name) : Prop :=
  ∀ tick, ∀ created ∈ s.others tick, created.1 = [name] ∨ created.1.head? ≠ some name

theorem get?_create_around {path : List Name} (hpath : path = [name] ∨ path.head? ≠ some name)
    (node : Entry) {root : Directory} {entry : Entry} (h : root.get? name = some entry) :
    (root.create node path).get? name = some entry := by
  rcases hpath with rfl | hpath
  · rw [Dir.create, h, Option.isSome_some, if_pos rfl]
    exact h
  · rcases path with _ | ⟨first, rest⟩
    · exact h
    · rw [Dir.get?_create_of_ne node root rest fun heq => hpath (congrArg some heq.symm)]
      exact h

theorem get?_turn (hothers : CreatesAround s name)
    {fs : FileSystem} (call : Syscall) {entry : Entry} (h : fs.root.get? name = some entry) :
    (fs.turn s call).root.get? name = some entry := by
  show ((s.others fs.tick).foldl (fun root created => root.create created.2 created.1) fs.root).get?
    name = some entry
  have hothers := hothers fs.tick
  generalize fs.root = root at h ⊢
  generalize s.others fs.tick = all at hothers ⊢
  induction all generalizing root with
  | nil => exact h
  | cons created rest ih =>
    obtain ⟨hfirst, hrest⟩ := List.forall_mem_cons.mp hothers
    exact ih _ (get?_create_around hfirst created.2 h) hrest

/-- The call has created nothing and removed nothing, so what has come stays. -/
structure Unmade (s : Surroundings) (name : Name) (fs : FileSystem) : Prop where
  tick : fs.calls.length = fs.tick
  stays : ∀ record ∈ fs.calls, ∀ entry, record.2.get? name = some entry →
    fs.root.get? name = some entry
  nothing : RemovesNothing s fs
  unmade : ∀ i, ¬ MadeAt s name fs i

/-- An index of a list with one more element. -/
theorem getElem?_snoc {α : Type} {l : List α} {a b : α} {i : Nat} (h : (l ++ [a])[i]? = some b) :
    l[i]? = some b ∨ (i = l.length ∧ b = a) := by
  rcases Nat.lt_or_ge i l.length with hlt | hge
  · rw [List.getElem?_append_left hlt] at h
    exact Or.inl h
  · rw [List.getElem?_append_right hge] at h
    have hzero : i - l.length = 0 := by
      by_contra hne
      rw [List.getElem?_eq_none (by simp; omega)] at h
      exact absurd h (by simp)
    rw [hzero] at h
    exact Or.inr ⟨by omega, (Option.some.inj h).symm⟩

/-- A call that fails, or only looks. -/
theorem Unmade.turn (hothers : CreatesAround s name)
    {fs : FileSystem} (h : Unmade s name fs) {call : Syscall}
    (hremove : s.fails fs.tick = true ∨ call.removes (fs.turn s call).root = false)
    (hmake : call = .mkdir [name] → (fs.turn s call).root.get? name = none →
      s.fails fs.tick = true) : Unmade s name (fs.turn s call) := by
  constructor
  · show (fs.calls ++ [(call, _)]).length = fs.tick + 1
    rw [List.length_append, List.length_singleton, h.tick]
  · intro record hrecord entry hentry
    rcases List.mem_append.mp hrecord with hold | hnew
    · exact get?_turn hothers call (h.stays record hold entry hentry)
    · rw [List.mem_singleton.mp hnew] at hentry
      exact hentry
  · intro i call' met hrecord
    rcases getElem?_snoc hrecord with hold | ⟨rfl, hnew⟩
    · exact h.nothing i call' met hold
    · obtain ⟨rfl, rfl⟩ := Prod.mk.inj hnew
      rw [h.tick]
      exact hremove
  · rintro i ⟨met, hmet, hfree, hworks⟩
    rcases getElem?_snoc hmet with hold | ⟨rfl, hnew⟩
    · exact h.unmade i ⟨met, hold, hfree, hworks⟩
    · obtain ⟨rfl, rfl⟩ := Prod.mk.inj hnew
      rw [h.tick] at hworks
      rw [hmake rfl hfree] at hworks
      exact absurd hworks (by simp)

variable (hothers : CreatesAround s name)
include hothers

end Before

/-! ### After it is created -/

section After

variable {s : Surroundings} {name : Name}

/-- The call has created the destination, which was free until then. -/
structure Created (s : Surroundings) (name : Name) (fs : FileSystem) : Prop where
  tick : fs.calls.length = fs.tick
  made : ∃ i, MadeAt s name fs i ∧ ∀ j ≤ i, ∀ record, fs.calls[j]? = some record →
    record.2.get? name = none

/-- What was logged before stays where it was in the log. -/
theorem MadeAt.of_calls {fs fs' : FileSystem} {i : Nat} (h : MadeAt s name fs i)
    (hcalls : fs.calls <+: fs'.calls) : MadeAt s name fs' i := by
  obtain ⟨met, hmet, hfree, hworks⟩ := h
  obtain ⟨more, hmore⟩ := hcalls
  refine ⟨met, ?_, hfree, hworks⟩
  rw [← hmore, List.getElem?_append_left (List.getElem?_eq_some_iff.mp hmet).1]
  exact hmet

theorem Created.of_calls {fs fs' : FileSystem} (h : Created s name fs)
    (htick : fs'.calls.length = fs'.tick) (hcalls : fs.calls <+: fs'.calls) :
    Created s name fs' := by
  obtain ⟨i, hmade, hfree⟩ := h.made
  refine ⟨htick, i, hmade.of_calls hcalls, fun j hj record hrecord => ?_⟩
  obtain ⟨met, hmet, -⟩ := hmade
  have hlength := (List.getElem?_eq_some_iff.mp hmet).1
  obtain ⟨more, hmore⟩ := hcalls
  rw [← hmore, List.getElem?_append_left (by omega)] at hrecord
  exact hfree j hj record hrecord

theorem Created.turn {fs : FileSystem} (h : Created s name fs) (call : Syscall) :
    Created s name (fs.turn s call) := by
  refine h.of_calls ?_ (List.prefix_append _ _)
  show (fs.calls ++ [(call, _)]).length = fs.tick + 1
  rw [List.length_append, List.length_singleton, h.tick]

variable (hothers : CreatesAround s name)
include hothers

end After

/-! ### The copy -/

section Copy

variable {s : Surroundings} {name : Name} {P : FileSystem → Prop} (h : Building s name P)
  {reflinks : Nat → Bool}
include h

theorem Building.inspectSource (operation : String) (path : Bytes) :
    Keeps P (Rewind.inspectSource s operation path) := keeps_mapError h.touch

theorem Building.verifySource (path : Bytes) : Keeps P (Rewind.verifySource s path) :=
  keeps_mapError h.touch

theorem Building.verifyOpenEntry (path : Bytes) : Keeps P (Rewind.verifyOpenEntry s path) :=
  keeps_bind (h.inspectSource _ _) fun _ => h.verifySource _

theorem Building.reflinkAt {location : List Name} (entry : Name) (content : Bytes)
    (hlocation : location.head? = some name) :
    Keeps P (Rewind.reflinkAt s reflinks location entry content) := by
  obtain ⟨path, rfl⟩ := List.head?_eq_some_iff.mp hlocation
  intro fs hfs
  have hturn := h.turn (.write (name :: path ++ [entry])) hfs
  unfold Rewind.reflinkAt
  rw [exec_ofFun]
  by_cases hfails : s.fails fs.tick = true
  · simp only [hfails, if_true]
    exact hturn
  · by_cases hreflinks : reflinks fs.tick = true
    · simp only [hfails, Bool.false_eq_true, if_false, hreflinks, if_true]
      exact h.modify _ path hturn
    · simp only [hfails, Bool.false_eq_true, if_false, hreflinks]
      exact hturn

theorem Building.nativeCloneFile {source destination : Bytes} {location : List Name} (entry : Name)
    (content : Bytes) (hlocation : location.head? = some name) :
    Keeps P (Rewind.nativeCloneFile s reflinks source destination location entry content) := by
  refine keeps_bind (h.verifyOpenEntry _) fun _ => ?_
  refine keeps_bind (keeps_mapError (h.changeAt hlocation)) fun _ => ?_
  refine keeps_bind (keeps_outcome (h.reflinkAt entry content hlocation)) fun linked => ?_
  rcases linked with error | _
  · refine keeps_bind (keeps_mapError (h.changeAt hlocation)) fun _ => ?_
    exact spec_ite (fun _ => keeps_pure _) fun _ => keeps_throw _
  · exact keeps_bind (h.verifyOpenEntry _) fun _ => keeps_pure _

theorem Building.copyOpenFile {source destination : Bytes} {location : List Name} (entry : Name)
    (content : Bytes) (hlocation : location.head? = some name) :
    Keeps P (Rewind.copyOpenFile s source destination location entry content) := by
  refine keeps_bind (h.inspectSource _ _) fun _ => ?_
  refine keeps_bind (h.verifyOpenEntry _) fun _ => ?_
  refine keeps_bind (keeps_mapError (h.changeAt hlocation)) fun _ => ?_
  refine keeps_bind (keeps_outcome ?_) fun copied => ?_
  · refine keeps_bind (keeps_mapError (h.writeAll _ _ hlocation)) fun _ => ?_
    exact keeps_bind (keeps_mapError h.touch) fun _ => h.verifyOpenEntry _
  · rcases copied with error | _
    · exact keeps_bind (keeps_attempt (h.changeAt hlocation)) fun _ => keeps_throw _
    · exact keeps_pure _

theorem Building.cloneLeaf {source destination : Bytes} {location : List Name} (entry : Name)
    (counts : Counts) (leaf : Leaf) (hlocation : location.head? = some name) :
    Keeps P (Rewind.cloneLeaf s reflinks source destination location entry counts leaf) := by
  cases leaf with
  | file mode content =>
    refine keeps_bind (h.inspectSource _ _) fun _ => ?_
    refine keeps_bind (h.inspectSource _ _) fun _ => ?_
    refine keeps_bind (h.verifySource _) fun _ => ?_
    refine keeps_bind (h.nativeCloneFile entry content hlocation) fun cloned => ?_
    refine keeps_bind (spec_ite (fun _ => keeps_pure _) fun _ =>
      keeps_bind (h.copyOpenFile entry content hlocation) fun _ => keeps_pure _) fun _ => ?_
    refine keeps_bind (h.verifySource _) fun _ => ?_
    exact keeps_bind (keeps_mapError (h.changeAt hlocation)) fun _ => keeps_pure _
  | symlink target =>
    refine keeps_bind (keeps_bind (keeps_mapError h.touch) fun _ =>
      keeps_bind (keeps_ofResult _) fun _ => h.verifySource _) fun _ => ?_
    exact keeps_bind (keeps_mapError (h.changeAt hlocation)) fun _ => keeps_pure _
  | other => exact keeps_throw _

/-- The recursive copy, by induction on the entries of the source. -/
theorem Building.cloneEntries (entries : Directory) {source destination : Bytes}
    {location : List Name} (counts : Counts) (hlocation : location.head? = some name) :
    Keeps P (Rewind.cloneEntries s reflinks entries source destination location counts) := by
  induction entries generalizing source destination location counts with
  | nil => exact keeps_bind (h.inspectSource _ _) fun _ => keeps_pure _
  | leaf entry leaf rest ih =>
    refine keeps_bind (h.inspectSource _ _) fun _ => ?_
    refine keeps_bind (h.inspectSource _ _) fun _ => ?_
    exact keeps_bind (h.cloneLeaf entry counts leaf hlocation) fun counts => ih counts hlocation
  | directory entry mode beneath rest ihbeneath ih =>
    have hinside : (location ++ [entry]).head? = some name := by
      rw [List.head?_append, hlocation, Option.some_or]
    refine keeps_bind (h.inspectSource _ _) fun _ => ?_
    refine keeps_bind (h.inspectSource _ _) fun _ => ?_
    refine keeps_bind (h.inspectSource _ _) fun _ => ?_
    refine keeps_bind (h.inspectSource _ _) fun _ => ?_
    refine keeps_bind (h.verifySource _) fun _ => ?_
    refine keeps_bind (keeps_mapError (h.changeAt hlocation)) fun _ => ?_
    refine keeps_bind (h.inspectSource _ _) fun _ => ?_
    refine keeps_bind (ihbeneath _ hinside) fun counts => ?_
    refine keeps_bind (h.verifyOpenEntry _) fun _ => ?_
    refine keeps_bind (h.verifySource _) fun _ => ?_
    exact keeps_bind (keeps_mapError (h.changeAt hlocation)) fun _ => ih counts hlocation

end Copy

section Whole

variable {s : Surroundings} {name : Name} {reflinks : Nat → Bool}
  (hothers : CreatesAround s name)
include hothers

/-- A part of the entry has been removed, which this call has not created. -/
structure Broken (s : Surroundings) (name : Name) (fs : FileSystem) : Prop where
  tick : fs.calls.length = fs.tick
  unmade : ∀ i, ¬ MadeAt s name fs i
  smaller : ∃ record ∈ fs.calls, ∃ mode entries mode' entries',
    record.2.get? name = some (.directory mode entries) ∧
      fs.root.get? name = some (.directory mode' entries') ∧ entries'.size < entries.size
  removes : ¬ RemovesNothing s fs

/-- What a call met at the name is not there, and this call has not created it. -/
structure Ruined (s : Surroundings) (name : Name) (fs : FileSystem) : Prop where
  unmade : ∀ i, ¬ MadeAt s name fs i
  lost : ∃ record ∈ fs.calls, ∃ entry, record.2.get? name = some entry ∧
    fs.root.get? name ≠ some entry
  removes : ¬ RemovesNothing s fs

/-- The removal has taken nothing away, or a part of what others have created. -/
def Foreign (s : Surroundings) (name : Name) (fs : FileSystem) : Prop :=
  Unmade s name fs ∨ Broken s name fs

omit hothers in
theorem RemovesNothing.of_turn {fs : FileSystem} {call : Syscall}
    (h : RemovesNothing s (fs.turn s call)) : RemovesNothing s fs := by
  intro i call' met hrecord
  refine h i call' met ?_
  show (fs.calls ++ [(call, _)])[i]? = _
  rw [List.getElem?_append_left (List.getElem?_eq_some_iff.mp hrecord).1]
  exact hrecord

omit hothers in
theorem not_madeAt_turn {fs : FileSystem} (h : ∀ i, ¬ MadeAt s name fs i) {call : Syscall}
    (hmake : call ≠ .mkdir [name]) (i : Nat) : ¬ MadeAt s name (fs.turn s call) i := by
  rintro ⟨met, hmet, hfree, hworks⟩
  rcases getElem?_snoc hmet with hold | ⟨-, hnew⟩
  · exact h i ⟨met, hold, hfree, hworks⟩
  · exact hmake (congrArg Prod.fst hnew).symm

theorem Broken.turn {fs : FileSystem} (h : Broken s name fs) {call : Syscall}
    (hmake : call ≠ .mkdir [name]) : Broken s name (fs.turn s call) := by
  obtain ⟨record, hrecord, mode, entries, mode', entries', hmet, hget, hsize⟩ := h.smaller
  refine ⟨?_, not_madeAt_turn h.unmade hmake, ⟨record,
    List.mem_append_left _ hrecord, mode, entries, mode', entries', hmet,
    get?_turn hothers call hget, hsize⟩, fun hnothing => h.removes hnothing.of_turn⟩
  show (fs.calls ++ [(call, _)]).length = fs.tick + 1
  rw [List.length_append, List.length_singleton, h.tick]

omit hothers in
theorem Broken.ruined {fs : FileSystem} (h : Broken s name fs) : Ruined s name fs := by
  obtain ⟨record, hrecord, mode, entries, mode', entries', hmet, hget, hsize⟩ := h.smaller
  refine ⟨h.unmade, ⟨record, hrecord, _, hmet, fun hsame => ?_⟩, h.removes⟩
  rw [hget] at hsame
  obtain ⟨-, rfl⟩ := FileTree.Node.directory.inj (Option.some.inj hsame)
  exact absurd hsize (Nat.lt_irrefl _)

/-- A call that takes nothing away. -/
theorem Foreign.turn {fs : FileSystem} (h : Foreign s name fs) {call : Syscall}
    (hremove : s.fails fs.tick = true ∨ call.removes (fs.turn s call).root = false)
    (hmake : call ≠ .mkdir [name]) : Foreign s name (fs.turn s call) :=
  h.imp (fun h => h.turn hothers hremove fun heq => absurd heq hmake) fun h =>
    h.turn hothers hmake

theorem Foreign.turn_of_untaken {fs : FileSystem} (h : Foreign s name fs) {call : Syscall}
    (hmake : call ≠ .mkdir [name])
    (huntaken : ¬ (s.fails fs.tick = false ∧ call.removes (fs.turn s call).root = true)) :
    Foreign s name (fs.turn s call) := by
  refine h.turn hothers ?_ hmake
  by_cases hfails : s.fails fs.tick = true
  · exact Or.inl hfails
  · exact Or.inr (Bool.eq_false_iff.mpr fun hremoves =>
      huntaken ⟨Bool.eq_false_iff.mpr hfails, hremoves⟩)

omit hothers in
theorem Foreign.tick {fs : FileSystem} (h : Foreign s name fs) : fs.calls.length = fs.tick :=
  h.elim (·.tick) (·.tick)

omit hothers in
theorem Foreign.unmade {fs : FileSystem} (h : Foreign s name fs) : ∀ i, ¬ MadeAt s name fs i :=
  h.elim (·.unmade) (·.unmade)

omit hothers in
/-- A call that takes something away is seen in the calls. -/
theorem not_removesNothing_turn {fs : FileSystem} {call : Syscall}
    (htick : fs.calls.length = fs.tick) (hworks : s.fails fs.tick = false)
    (hremoves : call.removes (fs.turn s call).root = true) :
    ¬ RemovesNothing s (fs.turn s call) := by
  intro hnothing
  rcases hnothing _ _ _ (getElem?_turn fs call) with hfails | hkept
  · rw [htick, hworks] at hfails
    exact absurd hfails (by simp)
  · rw [hremoves] at hkept
    exact absurd hkept (by simp)

/-- What is taken from inside the entry makes it smaller. -/
theorem Foreign.taken {fs : FileSystem} (h : Foreign s name fs) {call : Syscall}
    {path : List Name} {n : Name} (hmake : call ≠ .mkdir [name])
    (hthere : ∀ met : Directory, call.removes met = true →
      (met.lookup? (name :: path ++ [n])).isSome = true) :
    Foreign s name (fs.taken s call (name :: path) n) := by
  unfold FileSystem.taken
  by_cases htakes : s.fails fs.tick = false ∧ call.removes (fs.turn s call).root = true
  · rw [if_pos htakes]
    obtain ⟨hworks, hremoves⟩ := htakes
    obtain ⟨node, hnode⟩ := Option.isSome_iff_exists.mp (hthere _ hremoves)
    rw [Dir.lookup?_append_singleton] at hnode
    obtain ⟨d, henter, hget⟩ := Option.bind_eq_some_iff.mp hnode
    -- the entry is a directory, with the removed one inside
    rcases hroot : (fs.turn s call).root.get? name with _ | (content | ⟨mode, entries⟩)
    · simp [Dir.enter, hroot] at henter
    · simp [Dir.enter, hroot] at henter
    simp only [Dir.enter, hroot] at henter
    have hsmaller : (entries.modify (·.erase n) path).size < entries.size :=
      Dir.size_modify_lt henter (Dir.size_erase_lt hget)
    have hafter : ((fs.turn s call).root.modify (·.erase n) (name :: path)).get? name
        = some (.directory mode (entries.modify (·.erase n) path)) := by
      rw [Dir.modify, hroot]
      exact Dir.get?_insert_self _ _ _
    have hremoved := not_removesNothing_turn h.tick hworks hremoves
    rcases h with h | h
    · refine Or.inr ⟨?_, not_madeAt_turn h.unmade hmake, ⟨(call, (fs.turn s call).root),
        List.mem_append_right _ (List.mem_singleton_self _), mode, entries, mode, _, hroot, hafter,
        hsmaller⟩, hremoved⟩
      show (fs.calls ++ [(call, _)]).length = fs.tick + 1
      rw [List.length_append, List.length_singleton, h.tick]
    · have hturned := h.turn hothers hmake
      obtain ⟨record, hrecord, mode₀, entries₀, mode', entries', hmet, hget', hsize⟩ :=
        hturned.smaller
      rw [hroot] at hget'
      obtain ⟨rfl, rfl⟩ := FileTree.Node.directory.inj (Option.some.inj hget')
      exact Or.inr ⟨hturned.tick, hturned.unmade, ⟨record, hrecord, mode₀, entries₀, mode, _, hmet,
        hafter, Nat.lt_trans hsmaller hsize⟩, hremoved⟩
  · rw [if_neg htakes]
    exact h.turn_of_untaken hothers hmake htakes

/-- How the removal leaves what others have created. -/
def LeftForeign (s : Surroundings) (name : Name) (fs : FileSystem) : Prop :=
  Unmade s name fs ∨ Ruined s name fs

omit hothers in
theorem Foreign.left {fs : FileSystem} (h : Foreign s name fs) : LeftForeign s name fs :=
  h.imp_right Broken.ruined

variable {descriptors : Nat}

end Whole

namespace Sample

/-- Only the call numbered `n` fails, and no other process does anything. -/
def lonely (n : Option Nat) : Surroundings where
  fails tick := n = some tick
  written _ := 0
  others _ := []
  processId := 7

/-- A directory with a file in a directory. -/
def nestedSource : Entry :=
  .directory 0o755 (.directory (utf8 "d") 0o755 (.leaf (utf8 "f") (.file 0o644 [1]) .nil) .nil)

/-- A clone of the directory to `/work/out`. -/
def cloned (n : Option Nat) (root : Directory) : Except FileSystemError CloneReport × FileSystem :=
  exec (cloneWorkspace (lonely n) (fun _ => true) 16 (fun _ => false) nestedSource (utf8 "/src")
    (utf8 "/src") (utf8 "/work") (utf8 "/work/out")) (FileSystem.start root)

end Sample

end Rewind

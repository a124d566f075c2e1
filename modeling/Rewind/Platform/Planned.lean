/-
The operations of a directory handle as plans.

Where no other process acts, what a system call does is decided by the directory, and whether it
fails beyond that by the device alone.  An operation of a handle then carries out a plan: it makes
one entry, changes one mode, moves one name or removes one, and the calls that it opens the
directories on its path with only decide whether it can.

* `Workspace` — what the calls depend on;
* `carriesOut_syscall` — one call;
* `addBeneath`, `setModeBeneath`, `moveChild`, `dropChild` — the plans of the operations.
-/
import Rewind.Platform.Removal
import Rewind.Lib.Plan

namespace Rewind

open FileTree Call

/-- The open directory and the counter of private names. -/
structure Workspace where
  root : Directory
  sequence : Nat

def FileSystem.workspace (fs : FileSystem) : Workspace := ⟨fs.root, fs.sequence⟩

/-- The device answers every call. -/
def Surroundings.Reliable (s : Surroundings) : Prop := ∀ tick, s.fails tick = false

instance decidableFits : ∀ remaining node, Decidable (Fits remaining node)
  | 0, none | 0, some (.leaf _) | _ + 1, none | _ + 1, some (.leaf _) => isTrue trivial
  | 0, some (.directory ..) => isFalse id
  | remaining + 1, some (.directory _ entries) =>
    have := decidableFits remaining
    inferInstanceAs (Decidable (∀ n ∈ entries.names, Fits remaining (entries.get? n)))

namespace Workspace

variable {α : Type}

/-- Another directory at `location`. -/
def replace (w : Workspace) (location : List Name) (entries : Directory) : Workspace :=
  { w with root := w.root.modify (fun _ => entries) location }

/-- A plan that reads the directory at `location`. -/
def inspect (location : List Name) (f : Directory → Option α) : Plan Workspace α := fun w => do
  let entries ← w.root.enter location
  let a ← f entries
  return (a, w)

/-- A plan that changes the directory at `location`. -/
def change (location : List Name) (f : Directory → Option Directory) : Plan Workspace Unit :=
  fun w => do
    let entries ← w.root.enter location
    let entries' ← f entries
    return ((), w.replace location entries')

/-- `components` lead from `location` to a directory. -/
def reach (location components : List Name) : Plan Workspace (List Name) := fun w =>
  if components = [] ∨ (w.root.enter (location ++ components)).isSome then
    some (location ++ components, w)
  else
    none

/-- A directory that can be opened. -/
def openChild (location : List Name) (name : Name) : Plan Workspace Unit := fun w =>
  if (w.root.enter (location ++ [name])).isSome then some ((), w) else none

/-- A change of the directory that a path beneath `location` is in. -/
def changeBeneath (location : List Name) (relative : Bytes)
    (f : Name → Directory → Option Directory) : Plan Workspace Unit := fun w => do
  let components ← (relativeComponents relative).toOption
  let entries ← w.root.enter (location ++ components.dropLast)
  let entries' ← f (components.getLastD []) entries
  return ((), w.replace (location ++ components.dropLast) entries')

/-- A new entry. -/
def newEntry (node : Entry) (name : Name) (entries : Directory) : Option Directory :=
  if (entries.get? name).isSome then none else some (entries.insert name node)

/-- Another mode of an entry; a link keeps its own. -/
def newMode (mode : UInt32) (name : Name) (entries : Directory) : Option Directory :=
  match entries.get? name with
  | none => none
  | some (.leaf (.file _ content)) => some (entries.insert name (.leaf (.file mode content)))
  | some (.leaf _) => some entries
  | some (.directory _ beneath) => some (entries.insert name (.directory mode beneath))

/-- Another mode of a directory. -/
def newDirectoryMode (mode : UInt32) (name : Name) (entries : Directory) : Option Directory :=
  match entries.get? name with
  | some (.directory _ beneath) => some (entries.insert name (.directory mode beneath))
  | _ => none

/-- The content of a file at `location`. -/
def write (location : List Name) (name : Name) (bytes : Bytes) : Plan Workspace Unit := fun w =>
  some ((), { w with root := w.root.modify (writeEntry name bytes) location })

/-- A new entry beneath `location`. -/
def addBeneath (location : List Name) (relative : Bytes) (node : Entry) : Plan Workspace Unit :=
  changeBeneath location relative (newEntry node)

/-- Another mode for a directory beneath `location`. -/
def setModeBeneath (location : List Name) (relative : Bytes) (mode : UInt32) :
    Plan Workspace Unit := changeBeneath location relative (newDirectoryMode mode)

/-- A name that can be that of a child. -/
def childName (name : Name) : Plan Workspace Name := Plan.lift (singleComponent name).toOption

/-- The state of a child. -/
def peek (name : Name) : Plan Workspace DirectoryChildState := do
  let name ← childName name
  inspect [] fun entries => some (childStateOf (entries.get? name))

/-- A child under another name. -/
def moveChild (source target : Name) : Plan Workspace Unit := do
  let source ← childName source
  let target ← childName target
  change [] fun entries => (renameEntry source target entries).toOption

/-- A child with everything beneath it, if that is not too deep. -/
def dropChild (name : Name) : Plan Workspace Unit := do
  let name ← childName name
  fun w =>
    if Fits MAX_REMOVAL_DEPTH (w.root.get? name) then
      some ((), { w with root := w.root.erase name })
    else
      none

end Workspace

open Workspace

section Calls

variable {s : Surroundings} {α : Type} {call : Syscall} {location : List Name} {name : Name}

theorem carriesOut_syscall {f : Directory → Except Errno (α × Directory)} :
    CarriesOut FileSystem.workspace s.Reliable (syscall s.alone call f) fun w =>
      (f w.root).toOption.map fun found => (found.1, { w with root := found.2 }) where
  sound := by
    intro fs a fs' h
    rw [exec_syscall_alone] at h
    by_cases hfails : s.fails fs.tick = true
    · rw [if_pos hfails] at h
      exact absurd (congrArg Prod.fst h) (by simp)
    · rw [if_neg hfails] at h
      show (f fs.root).toOption.map _ = _
      rcases hf : f fs.root with e | ⟨b, root⟩ <;> rw [hf] at h
      · exact absurd (congrArg Prod.fst h) (by simp)
      · obtain ⟨hvalue, rfl⟩ := Prod.mk.inj h
        obtain rfl := Except.ok.inj hvalue
        rfl
  complete := by
    intro hreliable fs a w h
    obtain ⟨⟨b, root⟩, hfound, heq⟩ := Option.map_eq_some_iff.mp h
    obtain ⟨rfl, rfl⟩ := Prod.mk.inj heq
    have hf : f fs.root = .ok (b, root) := Except.toOption_eq_some_iff.mp hfound
    refine ⟨{ fs.turn s.alone call with root }, ?_, rfl⟩
    rw [exec_syscall_alone, hreliable, hf]
    rfl

/-- How a call fails: the device does, or the call is refused. -/
theorem exec_syscall_eq_error {f : Directory → Except Errno (α × Directory)} {fs fs' : FileSystem}
    {e : Errno} (h : exec (syscall s.alone call f) fs = (.error e, fs')) :
    (e = Errno.EIO ∨ f fs.root = .error e) ∧ fs'.workspace = fs.workspace := by
  rw [exec_syscall_alone] at h
  by_cases hfails : s.fails fs.tick = true
  · rw [if_pos hfails] at h
    obtain ⟨he, rfl⟩ := Prod.mk.inj h
    exact ⟨Or.inl (Except.error.inj he).symm, rfl⟩
  · rw [if_neg hfails] at h
    rcases hf : f fs.root with e' | ⟨b, root⟩ <;> rw [hf] at h
    · obtain ⟨he, rfl⟩ := Prod.mk.inj h
      obtain rfl := Except.error.inj he
      exact ⟨Or.inr rfl, rfl⟩
    · exact absurd (congrArg Prod.fst h) (by simp)

/-- A refusal, where the device does not fail. -/
theorem exec_syscall_refused {f : Directory → Except Errno (α × Directory)} {fs : FileSystem}
    {e : Errno} (hreliable : s.Reliable) (hf : f fs.root = .error e) :
    exec (syscall s.alone call f) fs = (.error e, fs.turn s.alone call) := by
  rw [exec_syscall_alone, hreliable, hf]
  rfl

theorem carriesOut_touch :
    CarriesOut FileSystem.workspace s.Reliable (touch s.alone call) (pure ()) :=
  carriesOut_syscall

theorem carriesOut_inspectAt {f : Directory → Except Errno α} :
    CarriesOut FileSystem.workspace s.Reliable (inspectAt s.alone call location f)
      (inspect location fun entries => (f entries).toOption) := by
  refine carriesOut_syscall.congr fun fs => ?_
  unfold inspect
  rcases fs.workspace.root.enter location with _ | entries
  · rfl
  · rcases hf : f entries with e | a
    · simp [hf, Except.map, Except.toOption]
    · simp [hf, Except.map, Except.toOption]

theorem carriesOut_changeAt {f : Directory → Except Errno Directory} :
    CarriesOut FileSystem.workspace s.Reliable (changeAt s.alone call location f)
      (change location fun entries => (f entries).toOption) := by
  refine carriesOut_syscall.congr fun fs => ?_
  unfold change
  rcases fs.workspace.root.enter location with _ | entries
  · rfl
  · rcases hf : f entries with e | entries'
    · simp [hf, Except.map, Except.toOption]
    · simp [hf, Except.map, Except.toOption, replace]

theorem carriesOut_writeAll {bytes : Bytes} :
    CarriesOut FileSystem.workspace s.Reliable (writeAll s.alone location name bytes)
      (write location name bytes) where
  sound := by
    intro fs a fs' h
    unfold writeAll at h
    rw [exec_ofFun] at h
    by_cases hfails : s.fails fs.tick = true
    · rw [show s.alone.fails = s.fails from rfl, if_pos hfails] at h
      exact absurd (congrArg Prod.fst h) (by simp)
    · rw [show s.alone.fails = s.fails from rfl, if_neg hfails] at h
      obtain ⟨-, rfl⟩ := Prod.mk.inj h
      rfl
  complete := by
    intro hreliable fs a w h
    obtain ⟨-, rfl⟩ := Prod.mk.inj (Option.some.inj h)
    refine ⟨{ fs.turn s.alone (.write (location ++ [name])) with
      root := fs.root.modify (writeEntry name bytes) location }, ?_, rfl⟩
    unfold writeAll
    rw [exec_ofFun, show s.alone.fails = s.fails from rfl, hreliable]
    rfl

end Calls

/-! ### Handles -/

section Handles

variable {s : Surroundings} {handle : DirectoryRoot} {relative : Bytes}

/-- A directory is opened. -/
theorem carriesOut_openDirectoryAt {location : List Name} {name : Name} :
    CarriesOut FileSystem.workspace s.Reliable (openDirectoryAt s.alone location name)
      (openChild location name) := by
  refine carriesOut_inspectAt.congr fun fs => ?_
  rw [openChild, Dir.enter_append, inspect]
  rcases fs.workspace.root.enter location with _ | entries
  · rfl
  · show (Option.bind _ _ : Option _) = _
    rw [Option.bind_some, Option.bind_some, Dir.enter]
    rcases entries.get? name with _ | (content | ⟨mode, beneath⟩)
    · rfl
    · rfl
    · rfl

/-- The directories on a path are opened one in the other. -/
theorem carriesOut_openDirectories {operation : String} {display : Bytes}
    (location components : List Name) :
    CarriesOut FileSystem.workspace s.Reliable
      (DirectoryRoot.openDirectories s.alone operation display location components)
      (reach location components) := by
  induction components generalizing location with
  | nil =>
    refine (carriesOut_pure location).congr fun fs => ?_
    rw [reach, if_pos (Or.inl rfl), List.append_nil]
    rfl
  | cons component rest ih =>
    unfold DirectoryRoot.openDirectories at ih ⊢
    rw [List.foldlM_cons]
    refine (carriesOut_bind (carriesOut_bind (carriesOut_mapError carriesOut_openDirectoryAt)
      fun _ => carriesOut_pure (location ++ [component])) ih).congr fun fs => ?_
    have hsplit : location ++ component :: rest = (location ++ [component]) ++ rest := by
      rw [List.append_assoc, List.singleton_append]
    rw [Plan.bind_apply, Plan.bind_apply, openChild, reach, hsplit]
    by_cases hfirst : (fs.workspace.root.enter (location ++ [component])).isSome
    · rw [if_pos hfirst, Option.bind_some, Plan.pure_apply, Option.bind_some, reach]
      rcases rest with _ | ⟨next, rest⟩
      · rw [List.append_nil, if_pos (Or.inl rfl), if_pos (Or.inr hfirst)]
      · simp
    · rw [if_neg hfirst, Option.bind_none, Option.bind_none, if_neg]
      rintro (hempty | hsome)
      · exact absurd hempty (by simp)
      · rw [Dir.enter_append] at hsome
        exact hfirst (Option.isSome_of_isSome_bind hsome)

/-- To reach a directory before a change of it makes no difference. -/
theorem reach_bind_change (location components : List Name) (f : Directory → Option Directory)
    (w : Workspace) : (reach location components >>= fun location => change location f) w
      = change (location ++ components) f w := by
  rw [Plan.bind_apply, reach]
  by_cases h : components = [] ∨ (w.root.enter (location ++ components)).isSome
  · rw [if_pos h]
    rfl
  · rw [if_neg h, change, Option.not_isSome_iff_eq_none.mp fun hsome => h (Or.inr hsome)]
    rfl

/-- An operation on the parent of a path, which is opened first. -/
theorem carriesOut_openParentBeneath {f : List Name × Name → PlatformCall Unit}
    {g : Name → Directory → Option Directory}
    (hf : ∀ location name, CarriesOut FileSystem.workspace s.Reliable (f (location, name))
      (change location (g name))) :
    CarriesOut FileSystem.workspace s.Reliable (handle.openParentBeneath s.alone relative >>= f)
      (changeBeneath handle.location relative g) := by
  unfold DirectoryRoot.openParentBeneath
  rw [bind_assoc]
  refine (carriesOut_bind (g := fun components => reach handle.location components.dropLast >>=
    fun location => change location (g (components.getLastD [])))
    (carriesOut_ofResult _) fun components => ?_).congr fun fs => ?_
  · rw [bind_assoc]
    refine carriesOut_bind (carriesOut_openDirectories _ _) fun location => ?_
    rw [pure_bind]
    exact hf location _
  · rw [Plan.bind_apply, Plan.lift, changeBeneath]
    rcases (relativeComponents relative).toOption with _ | components
    · rfl
    · exact reach_bind_change _ _ _ _

theorem carriesOut_createEntry {call : Syscall} {location : List Name} {name : Name}
    {node : Entry} : CarriesOut FileSystem.workspace s.Reliable
      (changeAt s.alone call location (createEntry name node))
      (change location (newEntry node name)) := by
  refine carriesOut_changeAt.congr fun fs => ?_
  have hentry : (fun entries => (createEntry name node entries).toOption) = newEntry node name := by
    funext entries
    unfold createEntry newEntry
    split
    · rfl
    · rfl
  rw [hentry]

theorem carriesOut_createDirectoryBeneath : CarriesOut FileSystem.workspace s.Reliable
    (handle.createDirectoryBeneath s.alone relative)
    (addBeneath handle.location relative (.directory 0o700 .nil)) :=
  carriesOut_openParentBeneath fun _ _ => carriesOut_mapError carriesOut_createEntry

theorem carriesOut_createSymlinkBeneath {target : Bytes} (htarget : (0 : UInt8) ∉ target) :
    CarriesOut FileSystem.workspace s.Reliable
      (handle.createSymlinkBeneath s.alone relative target)
      (addBeneath handle.location relative (.leaf (.symlink target))) := by
  refine carriesOut_openParentBeneath fun location name => ?_
  dsimp only
  rw [ensure, if_pos htarget]
  exact (carriesOut_bind (carriesOut_ofResult _) fun _ =>
    carriesOut_mapError carriesOut_createEntry).congr fun _ => rfl

theorem carriesOut_chmodAt {location : List Name} {name : Name} {mode : UInt32} :
    CarriesOut FileSystem.workspace s.Reliable (chmodAt s.alone location name mode)
      (change location (newMode mode name)) := by
  refine carriesOut_changeAt.congr fun fs => ?_
  refine congrFun (congrArg (change location) (funext fun entries => ?_)) _
  unfold newMode
  rcases entries.get? name with _ | (_ | _)
  · rfl
  · next content => cases content <;> rfl
  · rfl

theorem change_eq_some {location : List Name} {f : Directory → Option Directory} {w : Workspace}
    {entries entries' : Directory} (henter : w.root.enter location = some entries)
    (hf : f entries = some entries') :
    change location f w = some ((), w.replace location entries') := by
  rw [change, henter]
  show (f entries).bind _ = _
  rw [hf]
  rfl

theorem enter_replace {location : List Name} {w : Workspace} {entries : Directory}
    (henter : w.root.enter location = some entries) (entries' : Directory) :
    (w.replace location entries').root.enter location = some entries' := by
  rw [replace, Dir.enter_modify, henter]
  rfl

theorem replace_replace (location : List Name) (w : Workspace) (entries entries' : Directory) :
    (w.replace location entries).replace location entries' = w.replace location entries' := by
  simp only [replace, Dir.modify_modify]

/-- What is written replaces the content of the file. -/
theorem write_eq_some {location : List Name} {name : Name} {mode : UInt32} {content : Bytes}
    {w : Workspace} {entries : Directory} (henter : w.root.enter location = some entries)
    (hget : entries.get? name = some (.leaf (.file mode content))) (bytes : Bytes) :
    write location name bytes w
      = some ((), w.replace location (entries.insert name (.leaf (.file mode bytes)))) := by
  have hentry : writeEntry name bytes entries = entries.insert name (.leaf (.file mode bytes)) := by
    rw [writeEntry, hget]
  rw [write, Dir.modify_congr (g := fun _ => entries.insert name _) henter hentry, replace]

/-- A file comes to be empty, is written, and gets its mode. -/
theorem change_write_change (location : List Name) (name : Name) (bytes : Bytes) (mode : UInt32)
    (w : Workspace) :
    (change location (newEntry (.leaf (.file 0o600 [])) name) >>= fun _ =>
      write location name bytes >>= fun _ => change location (newMode mode name)) w
      = change location (newEntry (.leaf (.file mode bytes)) name) w := by
  rcases henter : w.root.enter location with _ | entries
  · rw [Plan.bind_apply, change, change, henter]
    rfl
  · by_cases htaken : (entries.get? name).isSome
    · have hnone : ∀ node, newEntry node name entries = none := fun _ => if_pos htaken
      rw [Plan.bind_apply, change, change, henter]
      show ((newEntry _ name entries).bind _).bind _ = (newEntry _ name entries).bind _
      rw [hnone, hnone]
      rfl
    · have hnew : ∀ node, newEntry node name entries = some (entries.insert name node) :=
        fun _ => if_neg htaken
      rw [change_eq_some henter (hnew _), Plan.bind_apply, change_eq_some henter (hnew _),
        Option.bind_some, Plan.bind_apply,
        write_eq_some (enter_replace henter _) (Dir.get?_insert_self _ _ _), Option.bind_some,
        replace_replace, Dir.insert_insert]
      have hmode : newMode mode name (entries.insert name (.leaf (.file 0o600 bytes)))
          = some (entries.insert name (.leaf (.file mode bytes))) := by
        rw [newMode, Dir.get?_insert_self]
        exact congrArg some (Dir.insert_insert _ _ _ _)
      rw [change_eq_some (enter_replace henter _) hmode, replace_replace]

theorem carriesOut_createFileBeneath {bytes : Bytes} {mode : UInt32} :
    CarriesOut FileSystem.workspace s.Reliable
      (handle.createFileBeneath s.alone relative bytes mode)
      (addBeneath handle.location relative (.leaf (.file mode bytes))) := by
  refine carriesOut_openParentBeneath fun location name => ?_
  refine (carriesOut_bind (carriesOut_mapError carriesOut_createEntry) fun _ =>
    carriesOut_bind (carriesOut_mapError carriesOut_writeAll) fun _ =>
      carriesOut_bind (carriesOut_mapError carriesOut_touch) fun _ =>
        carriesOut_mapError carriesOut_chmodAt).congr fun fs => ?_
  exact change_write_change location name bytes mode fs.workspace

theorem newDirectoryMode_of_directory {mode mode' : UInt32} {name : Name}
    {entries beneath : Directory} (hget : entries.get? name = some (.directory mode' beneath)) :
    newDirectoryMode mode name entries = some (entries.insert name (.directory mode beneath)) := by
  rw [newDirectoryMode, hget]

theorem newDirectoryMode_of_not_directory {mode : UInt32} {name : Name} {entries : Directory}
    (hget : ∀ mode' beneath, entries.get? name ≠ some (.directory mode' beneath)) :
    newDirectoryMode mode name entries = none := by
  unfold newDirectoryMode
  split
  · next hfound => exact absurd hfound (hget _ _)
  · rfl

/-- A directory is opened itself for its mode. -/
theorem reach_bind_newMode (location components : List Name) (name : Name) (mode : UInt32)
    (w : Workspace) : (reach location (components ++ [name]) >>= fun location =>
        change location.dropLast (newMode mode (location.getLastD []))) w
      = change (location ++ components) (newDirectoryMode mode name) w := by
  have hsplit : location ++ (components ++ [name]) = (location ++ components) ++ [name] :=
    (List.append_assoc _ _ _).symm
  have hreach : reach location (components ++ [name]) w
      = if (w.root.enter ((location ++ components) ++ [name])).isSome then
          some ((location ++ components) ++ [name], w) else none := by
    rw [reach, hsplit]
    simp
  rw [Plan.bind_apply, hreach, Dir.enter_append]
  rcases henter : w.root.enter (location ++ components) with _ | entries
  · rw [change, henter]
    rfl
  · rw [Option.bind_some, Dir.enter]
    rcases hget : entries.get? name with _ | (content | ⟨mode', beneath⟩)
    · rw [change, henter]
      show none = (newDirectoryMode mode name entries).bind _
      rw [newDirectoryMode_of_not_directory (by simp [hget])]
      rfl
    · rw [change, henter]
      show none = (newDirectoryMode mode name entries).bind _
      rw [newDirectoryMode_of_not_directory (by simp [hget])]
      rfl
    · show change ((location ++ components) ++ [name]).dropLast
        (newMode mode (((location ++ components) ++ [name]).getLastD [])) w = _
      rw [List.dropLast_concat, List.getLastD_concat,
        change_eq_some henter (newDirectoryMode_of_directory hget)]
      exact change_eq_some henter (by rw [newMode, hget])

theorem carriesOut_finishDirectoryBeneath {mode : UInt32} :
    CarriesOut FileSystem.workspace s.Reliable
      (handle.finishDirectoryBeneath s.alone relative mode)
      (setModeBeneath handle.location relative mode) := by
  unfold DirectoryRoot.finishDirectoryBeneath
  refine (carriesOut_bind (g := fun components => reach handle.location components >>=
    fun location => change location.dropLast (newMode mode (location.getLastD [])))
    (carriesOut_ofResult _) fun components => ?_).congr fun fs => ?_
  · refine carriesOut_bind (carriesOut_openDirectories _ _) fun location => ?_
    refine (carriesOut_bind (carriesOut_mapError carriesOut_chmodAt) fun _ =>
      carriesOut_mapError carriesOut_touch).congr fun fs => ?_
    rw [Plan.bind_apply]
    rcases change location.dropLast (newMode mode (location.getLastD [])) fs.workspace
      with _ | ⟨_, w⟩
    · rfl
    · rfl
  · rw [Plan.bind_apply, Plan.lift, setModeBeneath, changeBeneath]
    rcases hresult : relativeComponents relative with e | components
    · rfl
    · obtain ⟨init, last, rfl⟩ : ∃ init last, components = init ++ [last] :=
        ⟨_, _, (List.dropLast_append_getLast (relativeComponents_ne_nil hresult)).symm⟩
      show (reach handle.location (init ++ [last]) >>= _) _ = _
      rw [reach_bind_newMode]
      simp [Except.toOption, change]

/-! ### Children of the open directory -/

variable {name : Name}

theorem carriesOut_childName :
    CarriesOut FileSystem.workspace s.Reliable (ofResult (singleComponent name)) (childName name) :=
  carriesOut_ofResult _

theorem carriesOut_childState (hhandle : handle.location = []) :
    CarriesOut FileSystem.workspace s.Reliable (handle.childState s.alone name) (peek name) := by
  unfold DirectoryRoot.childState
  rw [hhandle]
  exact carriesOut_bind carriesOut_childName fun name =>
    carriesOut_mapError carriesOut_inspectAt

theorem carriesOut_renameChild (hhandle : handle.location = []) {source target : Name} :
    CarriesOut FileSystem.workspace s.Reliable (handle.renameChild s.alone source target)
      (moveChild source target) := by
  unfold DirectoryRoot.renameChild
  rw [hhandle]
  exact carriesOut_bind carriesOut_childName fun source =>
    carriesOut_bind carriesOut_childName fun target => carriesOut_mapError carriesOut_changeAt

theorem carriesOut_sync :
    CarriesOut FileSystem.workspace s.Reliable (handle.sync s.alone) (pure ()) :=
  carriesOut_mapError carriesOut_touch

theorem childName_eq_some_iff {found : Name} {w w' : Workspace} :
    childName name w = some (found, w')
      ↔ singleComponent name = .ok name ∧ found = name ∧ w' = w := by
  rw [childName, Plan.lift_eq_some_iff]
  rw [Except.toOption_eq_some_iff]
  constructor
  · rintro ⟨hname, rfl⟩
    obtain rfl := singleComponent_eq_ok hname
    exact ⟨hname, rfl, rfl⟩
  · rintro ⟨hname, rfl, rfl⟩
    exact ⟨hname, rfl⟩

theorem childStateOf_eq_absent_iff {node : Option Entry} :
    childStateOf node = .absent ↔ node = none := by
  rcases node with _ | node
  · simp [childStateOf]
  · simp only [childStateOf, reduceCtorEq, iff_false]
    split <;> simp

theorem peek_eq_some_iff {state : DirectoryChildState} {w w' : Workspace} :
    peek name w = some (state, w') ↔ singleComponent name = .ok name
      ∧ state = childStateOf (w.root.get? name) ∧ w' = w := by
  rw [peek, Plan.bind_eq_some_iff]
  constructor
  · rintro ⟨found, u, hfound, h⟩
    obtain ⟨hname, rfl, rfl⟩ := childName_eq_some_iff.mp hfound
    obtain ⟨hstate, hw⟩ := Prod.mk.inj (Option.some.inj h)
    exact ⟨hname, hstate.symm, hw.symm⟩
  · rintro ⟨hname, rfl, rfl⟩
    exact ⟨name, w', childName_eq_some_iff.mpr ⟨hname, rfl, rfl⟩, rfl⟩

theorem change_nil_eq_some_iff {f : Directory → Option Directory} {w w' : Workspace} :
    change [] f w = some ((), w') ↔ ∃ root, f w.root = some root ∧ w' = { w with root } := by
  show ((f w.root).bind fun root => some ((), w.replace [] root)) = _ ↔ _
  rcases f w.root with _ | root
  · simp
  · constructor
    · intro h
      exact ⟨root, rfl, (Prod.mk.inj (Option.some.inj h)).2.symm⟩
    · rintro ⟨root', hroot, rfl⟩
      obtain rfl := Option.some.inj hroot
      rfl

theorem moveChild_eq_some_iff {source target : Name} {w w' : Workspace} :
    moveChild source target w = some ((), w') ↔ singleComponent source = .ok source
      ∧ singleComponent target = .ok target
      ∧ ∃ root, renameEntry source target w.root = .ok root ∧ w' = { w with root } := by
  rw [moveChild, Plan.bind_eq_some_iff]
  constructor
  · rintro ⟨found, u, hfound, h⟩
    obtain ⟨hsource, rfl, rfl⟩ := childName_eq_some_iff.mp hfound
    obtain ⟨found', u', hfound', hchange⟩ := Plan.bind_eq_some_iff.mp h
    obtain ⟨htarget, rfl, rfl⟩ := childName_eq_some_iff.mp hfound'
    obtain ⟨root, hroot, hw⟩ := change_nil_eq_some_iff.mp hchange
    exact ⟨hsource, htarget, root, Except.toOption_eq_some_iff.mp hroot, hw⟩
  · rintro ⟨hsource, htarget, root, hroot, rfl⟩
    refine ⟨source, w, childName_eq_some_iff.mpr ⟨hsource, rfl, rfl⟩, ?_⟩
    refine Plan.bind_eq_some_iff.mpr
      ⟨target, w, childName_eq_some_iff.mpr ⟨htarget, rfl, rfl⟩, ?_⟩
    exact change_nil_eq_some_iff.mpr ⟨root, Except.toOption_eq_some_iff.mpr hroot, rfl⟩

theorem dropChild_eq_some_iff {w w' : Workspace} :
    dropChild name w = some ((), w') ↔ singleComponent name = .ok name
      ∧ Fits MAX_REMOVAL_DEPTH (w.root.get? name) ∧ w' = { w with root := w.root.erase name } := by
  rw [dropChild, Plan.bind_eq_some_iff]
  constructor
  · rintro ⟨found, u, hfound, h⟩
    obtain ⟨hname, rfl, rfl⟩ := childName_eq_some_iff.mp hfound
    by_cases hfits : Fits MAX_REMOVAL_DEPTH (u.root.get? found)
    · rw [if_pos hfits] at h
      exact ⟨hname, hfits, (Prod.mk.inj (Option.some.inj h)).2.symm⟩
    · rw [if_neg hfits] at h
      exact absurd h (by simp)
  · rintro ⟨hname, hfits, rfl⟩
    exact ⟨name, w, childName_eq_some_iff.mpr ⟨hname, rfl, rfl⟩, if_pos hfits⟩

theorem carriesOut_removeChild (hhandle : handle.location = []) :
    CarriesOut FileSystem.workspace s.Reliable (handle.removeChild s.alone name)
      (dropChild name) where
  sound := by
    intro fs a fs' h
    have hname : singleComponent name = .ok name := by
      obtain ⟨name', t, hresult, -⟩ := exec_bind_eq_ok_iff.mp h
      obtain ⟨hname, -⟩ := exec_ofResult_eq_ok_iff.mp hresult
      rw [hname, singleComponent_eq_ok hname]
    have hremoval : Completes s (handle.removeChild s.alone name) fs _ _ _ () :=
      completes_removeChild hhandle hname
    obtain ⟨hfits, hfaultless⟩ := hremoval.faultless a (congrArg Prod.fst h)
    obtain ⟨calls, hexec⟩ := hremoval.of_faultless hfits hfaultless
    rw [hexec] at h
    obtain ⟨-, rfl⟩ := Prod.mk.inj h
    exact dropChild_eq_some_iff.mpr ⟨hname, hfits, rfl⟩
  complete := by
    intro hreliable fs a w h
    obtain ⟨hname, hfits, rfl⟩ := dropChild_eq_some_iff.mp h
    have hremoval : Completes s (handle.removeChild s.alone name) fs _ _ _ () :=
      completes_removeChild hhandle hname
    obtain ⟨calls, hexec⟩ := hremoval.of_faultless hfits fun t _ _ => hreliable t
    exact ⟨_, hexec, rfl⟩

end Handles

end Rewind

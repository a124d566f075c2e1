/-
The plan of a materialization.

Whatever private names a materialization tries and however many calls it makes, where no other
process acts it carries out one plan: the directories, the files, the links and the modes of the
manifest under a private name, and then at most three renames and a removal.

* `payload` — what the store has for a file;
* `planTree`, `planInstall` — the parts of the plan;
* **`carriesOut_materialize`** — the operation carries out `planMaterialize`.
-/
import Rewind.Domain.Manifest
import Rewind.Snapshot.Restore
import Rewind.Platform.Planned

namespace Rewind

open FileTree Call Workspace

namespace Restore

/-! ### The parts -/

section Plans

variable (s : Surroundings) (codecs : Codecs) (store : Files) (lowercase : Char → List Char)

/-- The bytes of an object of at most that size. -/
def objectBytes (id : ObjectId) (maximum : UInt64) : Option Bytes :=
  match store.node? (pathFor id) with
  | some (.file content) => (readObject codecs id maximum.toNat content).toOption
  | _ => none

/-- The bytes of an object, if they are as many as expected. -/
def payload (id : ObjectId) (size : UInt64) : Option Bytes := do
  let bytes ← objectBytes codecs store id size
  if UInt64.ofNat bytes.length = size then some bytes else none

def planPreflight (snapshot : Snapshot) (maximum : UInt64) : Plan Workspace Unit := do
  let objects ← Plan.lift (snapshot.manifest.entries.foldlM (preflightEntry maximum) []).toOption
  (objects.insertionSort fun a b => a.1.digest.bytes ≤ b.1.digest.bytes).forM fun needed => do
    let _ ← Plan.lift (payload codecs store needed.1 needed.2.1)
    return ()

def planDirectory (location : List Name) (report : MaterializeReport) (entry : SnapshotEntry) :
    Plan Workspace MaterializeReport :=
  match entry.kind with
  | .directory => do
    addBeneath location entry.path.text (.directory 0o700 .nil)
    return { report with directories := report.directories + 1 }
  | _ => return report

def planFile (location : List Name) (maximum : UInt64) (report : MaterializeReport)
    (entry : SnapshotEntry) : Plan Workspace MaterializeReport :=
  match entry.kind with
  | .file objectId size _ => do
    Plan.check (size ≤ maximum)
    let bytes ← Plan.lift (payload codecs store objectId size)
    addBeneath location entry.path.text (.leaf (.file entry.permissions.bits.toUInt32 bytes))
    Plan.check (report.logicalBytes.toNat + size.toNat < 2 ^ 64)
    return { report with
      files := report.files + 1, logicalBytes := report.logicalBytes + size }
  | _ => return report

def planSymlink (location : List Name) (report : MaterializeReport) (entry : SnapshotEntry) :
    Plan Workspace MaterializeReport :=
  match entry.kind with
  | .symlink target => do
    addBeneath location entry.path.text (.leaf (.symlink (utf8 target)))
    return { report with
      symlinks := report.symlinks + 1
      warnings := report.warnings
        ++ [.symlinkPermissionsNotRestored entry.path entry.permissions.bits] }
  | _ => return report

def planMode (location : List Name) (entry : SnapshotEntry) : Plan Workspace Unit :=
  match entry.kind with
  | .directory => setModeBeneath location entry.path.text entry.permissions.bits.toUInt32
  | _ => return ()

/-- The plan of `build_tree`. -/
def planTree (snapshot : Snapshot) (location : List Name) (maximum : UInt64) :
    Plan Workspace MaterializeReport := do
  let entries := snapshot.manifest.entries
  let report ← entries.foldlM (planDirectory location) ⟨[], 0, 0, 0, 0, []⟩
  let report ← entries.foldlM (planFile codecs store location maximum) report
  let report ← entries.foldlM (planSymlink location) report
  entries.reverse.forM (planMode location)
  return report

/-- The next private name. -/
def planName (label : String) (destinationName : Name) : Plan Workspace Name := fun w =>
  some (privateName s label destinationName w.sequence,
    { w with sequence := (w.sequence + 1) % 2 ^ 64 })

/-- A new private directory in the open one. -/
def planChild (parent : DirectoryRoot) (name : Name) : Plan Workspace DirectoryRoot := do
  let name ← childName name
  change [] (newEntry (.directory 0o700 .nil) name)
  return ⟨joinPath parent.path name, [name]⟩

/-- The plan of `TemporaryTree::create`: a name that is taken is passed over. -/
def planTemporary (parent : DirectoryRoot) (destinationName : Name) :
    Nat → Plan Workspace TemporaryTree
  | 0 => Plan.impossible
  | tries + 1 => do
    let name ← planName s "tmp" destinationName
    if (← peek name) = .absent then do
      let root ← planChild parent name
      return ⟨name, root⟩
    else
      planTemporary parent destinationName tries

/-- The plan of `unique_available_name`. -/
def planBackup (destinationName : Name) : Nat → Plan Workspace Name
  | 0 => Plan.impossible
  | tries + 1 => do
    let candidate ← planName s "old" destinationName
    if (← peek candidate) = .absent then
      return candidate
    else
      planBackup destinationName tries

def planRecheck (destinationName : Name) (force : Bool)
    (destinationState : DirectoryChildState) : Plan Workspace Unit :=
  if force then
    return ()
  else do
    let current ← peek destinationName
    Plan.check (current ≠ .occupied ∧ (destinationState = .absent → current = .absent))

/-- The installation of the tree under a private name. -/
def planInstall (temporary destinationName : Name) : Plan Workspace (Option Name) := do
  if (← peek destinationName) = .absent then do
    moveChild temporary destinationName
    return none
  else do
    let backup ← planBackup s destinationName 64
    moveChild destinationName backup
    moveChild temporary destinationName
    return some backup

def planSettle (backup : Option Name) : Plan Workspace Unit :=
  match backup with
  | none => return ()
  | some backup => dropChild backup

/-- The plan of `materialize` until the temporary tree is disarmed. -/
def planInstallTree (snapshot : Snapshot) (destination : Bytes) (options : MaterializeOptions) :
    Plan Workspace (MaterializeReport × Option Name) := do
  Plan.lift (validateSnapshot lowercase codecs snapshot).toOption
  let destinationName ← Plan.lift (fileName? destination)
  let destinationState ← peek destinationName
  Plan.check (destinationState ≠ .occupied ∨ options.force = true)
  planPreflight codecs store snapshot options.maxFileSize
  let temporary ← planTemporary s ⟨parentOf destination, []⟩ destinationName 64
  let report ← planTree codecs store snapshot temporary.root.location options.maxFileSize
  planRecheck destinationName options.force destinationState
  let backup ← planInstall s temporary.name destinationName
  return (report, backup)

/-- The plan of `materialize`. -/
def planMaterialize (snapshot : Snapshot) (destination : Bytes) (options : MaterializeOptions) :
    Plan Workspace MaterializeReport := do
  let (report, backup) ← planInstallTree s codecs store lowercase snapshot destination options
  planSettle backup
  return { report with destination }

end Plans

/-! ### The calls carry them out -/

section CarriesOut

variable {s : Surroundings} {codecs : Codecs} {store : Files} {lowercase : Char → List Char}

theorem carriesOut_loadObject (id : ObjectId) (maximum : UInt64) :
    CarriesOut FileSystem.workspace s.Reliable (loadObject s.alone codecs store id maximum)
      (Plan.lift (objectBytes codecs store id maximum)) := by
  refine carriesOut_skip (carriesOut_mapError carriesOut_touch) ?_
  unfold objectBytes
  rcases store.node? (pathFor id) with _ | (content | _)
  · exact carriesOut_throw _
  · refine (carriesOut_ofResult _).congr fun fs => ?_
    rw [Except.toOption_mapError]
  · exact carriesOut_throw _

theorem carriesOut_loadSized (path : SnapshotPath) (id : ObjectId) (size : UInt64) :
    CarriesOut FileSystem.workspace s.Reliable (loadSized s.alone codecs store path id size)
      (Plan.lift (payload codecs store id size)) := by
  refine (carriesOut_bind (carriesOut_loadObject id size) fun bytes =>
    carriesOut_bind carriesOut_ensure fun _ => carriesOut_pure bytes).congr fun fs => ?_
  rw [Plan.bind_apply, payload]
  rcases objectBytes codecs store id size with _ | bytes
  · rfl
  · by_cases hsize : UInt64.ofNat bytes.length = size
    · simp [hsize, Plan.lift, Plan.check, Plan.bind_apply, Plan.pure_apply]
    · simp [hsize, Plan.lift, Plan.check, Plan.bind_apply]

theorem carriesOut_preflightObjects (snapshot : Snapshot) (maximum : UInt64) :
    CarriesOut FileSystem.workspace s.Reliable
      (preflightObjects s.alone codecs store snapshot maximum)
      (planPreflight codecs store snapshot maximum) := by
  refine carriesOut_bind (carriesOut_ofResult _) fun objects => ?_
  exact carriesOut_forM (fun needed => carriesOut_bind (carriesOut_loadSized _ _ _)
    fun _ => carriesOut_pure _) _

section Tree

variable {root : DirectoryRoot}

theorem carriesOut_buildDirectory (report : MaterializeReport) (entry : SnapshotEntry) :
    CarriesOut FileSystem.workspace s.Reliable (buildDirectory s.alone root report entry)
      (planDirectory root.location report entry) := by
  unfold buildDirectory planDirectory
  cases entry.kind with
  | directory =>
    exact carriesOut_bind (carriesOut_mapError carriesOut_createDirectoryBeneath)
      fun _ => carriesOut_pure _
  | file => exact carriesOut_pure _
  | symlink => exact carriesOut_pure _

theorem carriesOut_buildFile (maximum : UInt64) (report : MaterializeReport)
    (entry : SnapshotEntry) :
    CarriesOut FileSystem.workspace s.Reliable
      (buildFile s.alone codecs store root maximum report entry)
      (planFile codecs store root.location maximum report entry) := by
  unfold buildFile planFile
  cases entry.kind with
  | directory => exact carriesOut_pure _
  | file objectId size executable =>
    refine carriesOut_bind carriesOut_ensure fun _ => ?_
    refine carriesOut_bind (carriesOut_loadSized _ _ _) fun bytes => ?_
    refine carriesOut_bind (carriesOut_mapError carriesOut_createFileBeneath) fun _ => ?_
    exact carriesOut_bind carriesOut_ensure fun _ => carriesOut_pure _
  | symlink => exact carriesOut_pure _

theorem nul_not_mem_target {entry : SnapshotEntry} (hvalid : entry.validate = .ok ())
    {target : String} (hkind : entry.kind = .symlink target) : (0 : UInt8) ∉ utf8 target := by
  intro hnul
  rw [SnapshotEntry.validate, hkind] at hvalid
  by_cases hempty : target.isEmpty = true
  · simp [hempty] at hvalid
  · simp [hempty, hnul] at hvalid

theorem carriesOut_buildSymlink {entry : SnapshotEntry} (hvalid : entry.validate = .ok ())
    (report : MaterializeReport) :
    CarriesOut FileSystem.workspace s.Reliable (buildSymlink s.alone root report entry)
      (planSymlink root.location report entry) := by
  unfold buildSymlink planSymlink
  cases hkind : entry.kind with
  | directory => exact carriesOut_pure _
  | file => exact carriesOut_pure _
  | symlink target =>
    have htarget : (0 : UInt8) ∉ utf8 target := nul_not_mem_target hvalid hkind
    exact carriesOut_bind (carriesOut_mapError (carriesOut_createSymlinkBeneath htarget))
      fun _ => carriesOut_pure _

theorem carriesOut_finishDirectory (entry : SnapshotEntry) :
    CarriesOut FileSystem.workspace s.Reliable (finishDirectory s.alone root entry)
      (planMode root.location entry) := by
  unfold finishDirectory planMode
  cases entry.kind with
  | directory => exact carriesOut_mapError carriesOut_finishDirectoryBeneath
  | file => exact carriesOut_pure _
  | symlink => exact carriesOut_pure _

theorem carriesOut_buildTree (snapshot : Snapshot) (maximum : UInt64) :
    CarriesOut FileSystem.workspace s.Reliable
      (buildTree s.alone codecs store snapshot root maximum)
      (planTree codecs store snapshot root.location maximum) := by
  have hvalid := (SnapshotManifest.checkEntries_eq_ok_iff.mp snapshot.manifest.canonical).1
  refine carriesOut_bind (carriesOut_foldlM (fun entry _ report =>
    carriesOut_buildDirectory report entry) _) fun report => ?_
  refine carriesOut_bind (carriesOut_foldlM (fun entry _ report =>
    carriesOut_buildFile maximum report entry) _) fun report => ?_
  refine carriesOut_bind (carriesOut_foldlM (fun entry hentry report =>
    carriesOut_buildSymlink (hvalid entry hentry) report) _) fun report => ?_
  exact carriesOut_bind (carriesOut_forM carriesOut_finishDirectory _) fun _ => carriesOut_pure _

end Tree

section Names

variable {parent : DirectoryRoot} (hparent : parent.location = [])

/-- The directory that has just been made can be opened. -/
theorem planChild_eq (name : Name) (w : Workspace) :
    (childName name >>= fun name => change [] (newEntry (.directory 0o700 .nil) name) >>=
      fun _ => openChild [] name >>=
        fun _ => pure (⟨joinPath parent.path name, [name]⟩ : DirectoryRoot)) w
      = planChild parent name w := by
  rw [planChild, Plan.bind_apply, Plan.bind_apply]
  refine congrArg _ (funext fun found => ?_)
  rw [Plan.bind_apply, Plan.bind_apply]
  by_cases htaken : (found.2.root.get? found.1).isSome
  · have hnone : change [] (newEntry (.directory 0o700 .nil) found.1) found.2 = none := by
      show (newEntry _ found.1 found.2.root).bind _ = none
      rw [newEntry, if_pos htaken]
      rfl
    rw [hnone]
    rfl
  · have hnew : newEntry (.directory 0o700 .nil) found.1 found.2.root
        = some (found.2.root.insert found.1 (.directory 0o700 .nil)) := if_neg htaken
    rw [change_eq_some rfl hnew, Option.bind_some, Option.bind_some, Plan.bind_apply, openChild,
      if_pos]
    · rfl
    · show (Dir.enter [found.1] (found.2.root.insert found.1 _)).isSome = true
      rw [Dir.enter, Dir.get?_insert_self]
      rfl

theorem planChild_eq_some_iff {name : Name} {root : DirectoryRoot} {w w' : Workspace} :
    planChild parent name w = some (root, w') ↔ singleComponent name = .ok name
      ∧ w.root.get? name = none ∧ root = ⟨joinPath parent.path name, [name]⟩
      ∧ w' = { w with root := w.root.insert name (.directory 0o700 .nil) } := by
  have hnew : ∀ root, newEntry (.directory 0o700 .nil) name w.root = some root
      ↔ w.root.get? name = none ∧ root = w.root.insert name (.directory 0o700 .nil) := by
    intro root
    rw [newEntry]
    by_cases htaken : (w.root.get? name).isSome
    · simp only [htaken, if_true, reduceCtorEq, false_iff, not_and]
      exact fun hnone => absurd hnone (Option.isSome_iff_ne_none.mp htaken)
    · rw [if_neg htaken, Option.some.injEq, eq_comm]
      exact ⟨fun h => ⟨Option.not_isSome_iff_eq_none.mp htaken, h⟩, fun h => h.2⟩
  rw [planChild, Plan.bind_eq_some_iff]
  constructor
  · rintro ⟨found, u, hfound, h⟩
    obtain ⟨hname, rfl, rfl⟩ := childName_eq_some_iff.mp hfound
    obtain ⟨_, u', hchange, hpure⟩ := Plan.bind_eq_some_iff.mp h
    obtain ⟨made, hmade, rfl⟩ := change_nil_eq_some_iff.mp hchange
    obtain ⟨rfl, rfl⟩ := Plan.pure_eq_some_iff.mp hpure
    obtain ⟨hfree, rfl⟩ := (hnew made).mp hmade
    exact ⟨hname, hfree, rfl, rfl⟩
  · rintro ⟨hname, hfree, rfl, rfl⟩
    refine ⟨name, w, childName_eq_some_iff.mpr ⟨hname, rfl, rfl⟩, ?_⟩
    refine Plan.bind_eq_some_iff.mpr ⟨(), _, change_nil_eq_some_iff.mpr
      ⟨_, (hnew _).mpr ⟨hfree, rfl⟩, rfl⟩, rfl⟩

theorem carriesOut_guard {α : Type} {temporary : TemporaryTree} {m : RestoreCall α}
    {x : Plan Workspace α} (hm : CarriesOut FileSystem.workspace s.Reliable m x) :
    CarriesOut FileSystem.workspace s.Reliable (temporary.guard s.alone parent m) x := by
  refine (carriesOut_outcome_bind hm (fun a => carriesOut_pure a) fun e fs b h => ?_).congr
    fun fs => by rw [bind_pure]
  exact absurd h (by simp [exec_bind])

/-- What is rolled back has failed. -/
theorem rollBack_ne_ok {α : Type} {backup destinationName : Name} {destination : Bytes}
    {install : FileSystemError} {fs : FileSystem} {a : α} :
    (exec (rollBack s parent backup destinationName destination install) fs).1 ≠ .ok a := by
  intro h
  obtain ⟨result, t, -, hthrow⟩ := exec_bind_eq_ok_iff.mp (Prod.ext h rfl : exec (rollBack s parent
    backup destinationName destination install) fs = (.ok a, _))
  rcases result with e | _
  · exact absurd (congrArg Prod.fst hthrow) (by simp)
  · exact absurd (congrArg Prod.fst hthrow) (by simp)

theorem carriesOut_uniqueName (label : String) (destinationName : Name) :
    CarriesOut FileSystem.workspace s.Reliable (uniqueName s.alone label destinationName)
      (planName s label destinationName) where
  sound := by
    intro fs name fs' h
    obtain ⟨hname, rfl⟩ := Prod.mk.inj h
    obtain rfl := Except.ok.inj hname
    rfl
  complete := by
    intro _ fs name w h
    obtain ⟨rfl, rfl⟩ := Prod.mk.inj (Option.some.inj h)
    exact ⟨{ fs with sequence := (fs.sequence + 1) % 2 ^ 64 }, rfl, rfl⟩

include hparent

theorem carriesOut_createChildDirectory (name : Name) :
    CarriesOut FileSystem.workspace s.Reliable (parent.createChildDirectory s.alone name)
      (planChild parent name) := by
  refine CarriesOut.congr ?_ fun fs => planChild_eq name fs.workspace
  unfold DirectoryRoot.createChildDirectory
  refine carriesOut_bind carriesOut_childName fun name => ?_
  rw [hparent]
  refine carriesOut_bind (carriesOut_mapError carriesOut_createEntry) fun _ => ?_
  refine carriesOut_outcome_bind carriesOut_openDirectoryAt (fun _ => carriesOut_pure _)
    fun e fs root h => ?_
  exact absurd h (by simp [exec_bind])

/-- Why a new directory cannot be made that is refused because its name is taken. -/
theorem createChildDirectory_refused {name : Name} {fs fs' : FileSystem} {operation : String}
    {path : Bytes} (h : exec (parent.createChildDirectory s.alone name) fs
      = (.error (.io operation path .EEXIST), fs')) :
    singleComponent name = .ok name ∧ (fs.root.get? name).isSome
      ∧ fs'.workspace = fs.workspace := by
  rcases exec_bind_eq_error_iff.mp h with hresult | ⟨found, t, hresult, hmade⟩
  · obtain ⟨hresult, -⟩ := exec_ofResult_eq_error_iff.mp hresult
    unfold singleComponent at hresult
    split at hresult
    · exact absurd hresult (by simp)
    · split at hresult <;> exact absurd hresult (by simp)
  obtain ⟨hname, rfl⟩ := exec_ofResult_eq_ok_iff.mp hresult
  obtain rfl := singleComponent_eq_ok hname
  rw [hparent] at hmade
  rcases exec_bind_eq_error_iff.mp hmade with hmkdir | ⟨_, t', -, hopened⟩
  · obtain ⟨e, hmkdir, he⟩ := exec_mapError_eq_error_iff.mp hmkdir
    obtain ⟨-, -, rfl⟩ := FileSystemError.io.inj he
    unfold mkdirAt changeAt at hmkdir
    obtain ⟨hrefused, hview⟩ := exec_syscall_eq_error hmkdir
    refine ⟨hname, ?_, hview⟩
    rcases hrefused with hdevice | hrefused
    · exact absurd hdevice (by simp)
    · by_contra hfree
      have hnew : createEntry found (.directory 0o700 .nil) t.root
          = .ok (t.root.insert found (.directory 0o700 .nil)) := if_neg hfree
      simp only [Dir.enter, hnew, Except.map] at hrefused
      exact absurd hrefused (by simp)
  · -- the new directory is opened: it is there or not, but no name is taken
    rcases exec_bind_eq_error_iff.mp hopened with hopen | ⟨opened, u, hopen, hrest⟩
    · exact absurd (congrArg Prod.fst hopen) (by simp)
    · rw [exec_outcome] at hopen
      obtain ⟨hresult, rfl⟩ := Prod.mk.inj hopen
      obtain rfl := Except.ok.inj hresult
      rcases hexec : exec (openDirectoryAt s.alone [] found) t' with ⟨e | _, t''⟩
      · rw [hexec] at hrest
        unfold openDirectoryAt inspectAt at hexec
        rcases exec_bind_eq_error_iff.mp hrest with hattempt | ⟨_, u, -, hthrow⟩
        · exact absurd (congrArg Prod.fst hattempt) (by simp)
        · obtain ⟨he, -⟩ := Prod.mk.inj hthrow
          obtain ⟨-, -, rfl⟩ := FileSystemError.io.inj (Except.error.inj he)
          rcases (exec_syscall_eq_error hexec).1 with hdevice | hrefused
          · exact absurd hdevice (by simp)
          · rcases hget : t'.root.get? found with _ | (content | ⟨mode, beneath⟩) <;>
              simp [Dir.enter, hget, Except.map] at hrefused
      · rw [hexec] at hrest
        exact absurd (congrArg Prod.fst hrest) (by simp)

/-- A name that is taken is refused. -/
theorem createChildDirectory_taken {name : Name} {fs : FileSystem} (hreliable : s.Reliable)
    (hname : singleComponent name = .ok name) (htaken : (fs.root.get? name).isSome) :
    ∃ operation path fs', exec (parent.createChildDirectory s.alone name) fs
      = (.error (.io operation path .EEXIST), fs') ∧ fs'.workspace = fs.workspace := by
  refine ⟨"create directory child", joinPath parent.path name,
    fs.turn s.alone (.mkdir [name]), ?_, rfl⟩
  refine exec_bind_eq_error_iff.mpr
    (Or.inr ⟨name, fs, exec_ofResult_eq_ok_iff.mpr ⟨hname, rfl⟩, ?_⟩)
  rw [hparent]
  refine exec_bind_eq_error_iff.mpr (Or.inl (exec_mapError_eq_error_iff.mpr ⟨.EEXIST, ?_, rfl⟩))
  unfold mkdirAt changeAt
  refine exec_syscall_refused hreliable ?_
  have hentry : createEntry name (.directory 0o700 .nil) fs.root = .error .EEXIST := if_pos htaken
  simp only [Dir.enter, hentry, Except.map]

theorem carriesOut_create (destinationName : Name) (destination : Bytes) (tries : Nat) :
    CarriesOut FileSystem.workspace s.Reliable
      (TemporaryTree.create s.alone parent destinationName destination tries)
      (planTemporary s parent destinationName tries) := by
  induction tries with
  | zero => exact carriesOut_throw _
  | succ tries ih =>
    unfold TemporaryTree.create planTemporary
    refine carriesOut_bind (carriesOut_uniqueName "tmp" destinationName) fun name => ?_
    have hchild := carriesOut_createChildDirectory (s := s) hparent name
    constructor
    · intro fs temporary fs' h
      obtain ⟨created, t, hcreated, hrest⟩ := exec_bind_eq_ok_iff.mp h
      rw [exec_outcome] at hcreated
      obtain ⟨hresult, rfl⟩ := Prod.mk.inj hcreated
      obtain rfl := Except.ok.inj hresult
      rcases hexec : exec (parent.createChildDirectory s.alone name) fs with ⟨error | root, t⟩
      · rw [hexec] at hrest
        -- only a name that is taken leads to another try
        have hagain : (∃ operation path, error = .io operation path .EEXIST)
            ∧ exec (TemporaryTree.create s.alone parent destinationName destination tries) t
              = (.ok temporary, fs') := by
          rcases error with _ | _ | _ | _ | _ | _ | _ | _ | _ | _ | _ | _ | ⟨operation, path, errno⟩
          case io =>
            cases errno with
            | EEXIST => exact ⟨⟨operation, path, rfl⟩, hrest⟩
            | _ => exact absurd (congrArg Prod.fst hrest) (by simp)
          all_goals exact absurd (congrArg Prod.fst hrest) (by simp)
        obtain ⟨⟨operation, path, rfl⟩, hagain⟩ := hagain
        obtain ⟨hname, htaken, hview⟩ := createChildDirectory_refused hparent hexec
        refine Plan.bind_eq_some_iff.mpr
          ⟨_, fs.workspace, peek_eq_some_iff.mpr ⟨hname, rfl, rfl⟩, ?_⟩
        rw [if_neg, ← hview]
        · exact ih.sound hagain
        · rw [childStateOf_eq_absent_iff]
          exact Option.isSome_iff_ne_none.mp htaken
      · rw [hexec] at hrest
        obtain ⟨hroot, rfl⟩ := Prod.mk.inj hrest
        obtain rfl := Except.ok.inj hroot
        have hplan := hchild.sound hexec
        obtain ⟨hname, hfree, -, -⟩ := planChild_eq_some_iff.mp hplan
        refine Plan.bind_eq_some_iff.mpr
          ⟨_, fs.workspace, peek_eq_some_iff.mpr ⟨hname, rfl, rfl⟩, ?_⟩
        rw [if_pos (childStateOf_eq_absent_iff.mpr hfree)]
        exact Plan.bind_eq_some_iff.mpr ⟨root, _, hplan, rfl⟩
    · intro hreliable fs temporary w h
      obtain ⟨state, u, hpeek, hrest⟩ := Plan.bind_eq_some_iff.mp h
      obtain ⟨hname, rfl, rfl⟩ := peek_eq_some_iff.mp hpeek
      by_cases hfree : fs.workspace.root.get? name = none
      · rw [if_pos (childStateOf_eq_absent_iff.mpr hfree)] at hrest
        obtain ⟨root, u, hplan, hpure⟩ := Plan.bind_eq_some_iff.mp hrest
        obtain ⟨rfl, rfl⟩ := Plan.pure_eq_some_iff.mp hpure
        obtain ⟨t, hexec, hview⟩ := hchild.complete hreliable hplan
        refine ⟨t, exec_bind_eq_ok_iff.mpr ⟨.ok root, t, ?_, rfl⟩, hview⟩
        rw [exec_outcome, hexec]
      · rw [if_neg (mt childStateOf_eq_absent_iff.mp hfree)] at hrest
        obtain ⟨operation, path, t, hexec, hview⟩ := createChildDirectory_taken hparent hreliable
          hname (Option.isSome_iff_ne_none.mpr hfree)
        rw [← hview] at hrest
        obtain ⟨fs', hagain, hw⟩ := ih.complete hreliable hrest
        refine ⟨fs', exec_bind_eq_ok_iff.mpr
          ⟨.error (.io operation path .EEXIST), t, ?_, hagain⟩, hw⟩
        rw [exec_outcome, hexec]

theorem carriesOut_uniqueAvailableName (destinationName : Name) (destination : Bytes)
    (tries : Nat) : CarriesOut FileSystem.workspace s.Reliable
      (uniqueAvailableName s.alone parent destinationName destination tries)
      (planBackup s destinationName tries) := by
  induction tries with
  | zero => exact carriesOut_throw _
  | succ tries ih =>
    refine carriesOut_bind (carriesOut_uniqueName "old" destinationName) fun candidate => ?_
    refine carriesOut_bind (carriesOut_mapError (carriesOut_childState hparent)) fun state => ?_
    exact carriesOut_ite (fun _ => carriesOut_pure candidate) fun _ => ih

theorem carriesOut_recheck (destinationName : Name) (destination : Bytes) (force : Bool)
    (destinationState : DirectoryChildState) : CarriesOut FileSystem.workspace s.Reliable
      (recheck s.alone parent destinationName destination force destinationState)
      (planRecheck destinationName force destinationState) := by
  refine carriesOut_ite (fun _ => carriesOut_pure _) fun _ => ?_
  exact carriesOut_bind (carriesOut_mapError (carriesOut_childState hparent)) fun current =>
    carriesOut_ensure

theorem carriesOut_install (temporary : TemporaryTree) (destinationName : Name)
    (destination : Bytes) : CarriesOut FileSystem.workspace s.Reliable
      (install s.alone parent temporary destinationName destination)
      (planInstall s temporary.name destinationName) := by
  refine carriesOut_bind (carriesOut_mapError (carriesOut_childState hparent)) fun state => ?_
  refine carriesOut_ite (fun _ => ?_) fun _ => ?_
  · exact carriesOut_bind (carriesOut_mapError (carriesOut_renameChild hparent))
      fun _ => carriesOut_pure _
  · refine CarriesOut.congr (x := (do
      let backup ← planBackup s destinationName 64
      moveChild destinationName backup
      moveChild temporary.name destinationName
      return backup) >>= fun backup => pure (some backup)) ?_ fun fs => by simp
    refine carriesOut_bind ?_ fun backup => carriesOut_pure _
    refine carriesOut_bind (carriesOut_uniqueAvailableName hparent _ _ _) fun backup => ?_
    refine carriesOut_bind (carriesOut_mapError (carriesOut_renameChild hparent)) fun _ => ?_
    refine carriesOut_outcome_bind (carriesOut_renameChild hparent)
      (fun _ => carriesOut_pure _) fun e fs b => ?_
    exact rollBack_ne_ok

theorem carriesOut_settle (backup : Option Name) :
    CarriesOut FileSystem.workspace s.Reliable (settle s.alone parent backup)
      (planSettle backup) := by
  cases backup with
  | none => exact carriesOut_mapError carriesOut_sync
  | some backup =>
    refine (carriesOut_bind (carriesOut_mapError (carriesOut_removeChild hparent)) fun _ =>
      carriesOut_mapError carriesOut_sync).congr fun fs => ?_
    rw [Plan.bind_apply, planSettle]
    rcases dropChild backup fs.workspace with _ | ⟨_, w⟩
    · rfl
    · rfl

end Names

theorem carriesOut_installTree (snapshot : Snapshot) (destination : Bytes)
    (options : MaterializeOptions) : CarriesOut FileSystem.workspace s.Reliable
      (installTree s.alone codecs store lowercase snapshot destination options)
      (planInstallTree s codecs store lowercase snapshot destination options) := by
  refine carriesOut_bind (carriesOut_ofResult _) fun _ => ?_
  refine carriesOut_bind ((carriesOut_ofResult _).congr fun fs => ?_) fun name => ?_
  · rcases fileName? destination with _ | name
    · rfl
    · rfl
  refine carriesOut_skip (carriesOut_mapError (carriesOut_mapError carriesOut_touch)) ?_
  refine carriesOut_bind (carriesOut_mapError (carriesOut_childState rfl)) fun state => ?_
  refine carriesOut_bind carriesOut_ensure fun _ => ?_
  refine carriesOut_bind (carriesOut_preflightObjects snapshot _) fun _ => ?_
  refine carriesOut_bind (carriesOut_create rfl name destination 64) fun temporary => ?_
  refine carriesOut_guard ?_
  refine carriesOut_bind (carriesOut_buildTree snapshot _) fun report => ?_
  refine carriesOut_skip (carriesOut_mapError carriesOut_sync) ?_
  refine carriesOut_bind (carriesOut_recheck rfl name destination _ state) fun _ => ?_
  exact carriesOut_bind (carriesOut_install rfl temporary name destination) fun backup =>
    carriesOut_pure _

/-- **A materialization carries out its plan.** -/
theorem carriesOut_materialize (s : Surroundings) (codecs : Codecs) (store : Files)
    (lowercase : Char → List Char) (snapshot : Snapshot) (destination : Bytes)
    (options : MaterializeOptions) : CarriesOut FileSystem.workspace s.Reliable
      (materialize s.alone codecs store lowercase snapshot destination options)
      (planMaterialize s codecs store lowercase snapshot destination options) := by
  refine carriesOut_bind (carriesOut_installTree snapshot destination options) fun installed => ?_
  exact carriesOut_bind (carriesOut_settle rfl installed.2) fun _ => carriesOut_pure _

end CarriesOut

end Restore

end Rewind

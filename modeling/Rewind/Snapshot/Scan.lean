/-
The scan of a workspace.

The scan walks the tree from the pinned root, leaves out what an ignore pattern matches or what is
too large, stores the content of the files, and makes a manifest of the rest.

* `globMatches` — the patterns;
* `scanDirectory`, `scanWorkspace` — the scan, call by call, between the changes of others.
-/
import Rewind.Platform.Pinned
import Rewind.Snapshot.Restore

namespace Rewind

open Call

namespace Scan

/-! ### Paths -/

/-- The text of a path beneath the root. -/
def pathText (names : List FileName) : Bytes := [slash].intercalate (names.map (·.bytes))

/-- The text of a path beneath a directory of the workspace. -/
def childText (relative : Bytes) (name : FileName) : Bytes :=
  if relative = [] then name.bytes else relative ++ slash :: name.bytes

theorem FileName.slash_not_mem (name : FileName) : slash ∉ name.bytes := by
  have hvalid := of_decide_eq_true name.valid
  exact hvalid.2.2.2.1

theorem FileName.ne_nil (name : FileName) : name.bytes ≠ [] := (of_decide_eq_true name.valid).1

/-- The components of a path are its names. -/
theorem splitSlash_pathText {names : List FileName} (h : names ≠ []) :
    splitSlash (pathText names) = names.map (·.bytes) := by
  induction names with
  | nil => exact absurd rfl h
  | cons name rest ih =>
    have hname := splitSlash_of_not_mem (FileName.slash_not_mem name)
    cases rest with
    | nil =>
      show splitSlash ([slash].intercalate [name.bytes]) = [name.bytes]
      rw [List.intercalate_singleton, hname]
    | cons next rest =>
      have htext : pathText (name :: next :: rest)
          = name.bytes ++ slash :: pathText (next :: rest) := by
        rw [pathText, List.map_cons, List.map_cons, List.intercalate_cons_cons]
        simp [pathText]
      rw [htext, splitSlash_append, hname, ih (List.cons_ne_nil _ _)]
      rfl

theorem pathText_ne_nil {names : List FileName} (h : names ≠ []) : pathText names ≠ [] := by
  intro hnil
  -- An empty text has an empty component, and no name is empty.
  have hsplit := splitSlash_pathText h
  rw [hnil] at hsplit
  obtain ⟨name, rest, rfl⟩ := List.exists_cons_of_ne_nil h
  exact FileName.ne_nil name (List.cons.inj hsplit).1.symm

theorem pathText_injective {names names' : List FileName} (h : pathText names = pathText names') :
    names = names' := by
  by_cases hnil : names = []
  · by_cases hnil' : names' = []
    · rw [hnil, hnil']
    · exact absurd (h.symm.trans (by rw [hnil]; rfl)) (pathText_ne_nil hnil')
  · by_cases hnil' : names' = []
    · exact absurd (h.trans (by rw [hnil']; rfl)) (pathText_ne_nil hnil)
    · have hsplit := splitSlash_pathText hnil
      rw [h, splitSlash_pathText hnil'] at hsplit
      exact List.map_injective_iff.mpr (fun _ _ => FileName.bytes_injective) hsplit.symm

theorem childText_pathText (names : List FileName) (name : FileName) :
    childText (pathText names) name = pathText (names ++ [name]) := by
  refine splitSlash_injective ?_
  rw [splitSlash_pathText (by simp), List.map_append]
  by_cases hnil : names = []
  · have hempty : pathText [] = [] := rfl
    rw [hnil, childText, if_pos hempty, splitSlash_of_not_mem (FileName.slash_not_mem name)]
    rfl
  · rw [childText, if_neg (pathText_ne_nil hnil), splitSlash_append, splitSlash_pathText hnil,
      splitSlash_of_not_mem (FileName.slash_not_mem name)]
    rfl

/-! ### Patterns -/

/-- The byte `*`. -/
def star : UInt8 := 42

/-- A row of `glob_matches` under a wildcard, from its last value on. -/
def wildcardRow (recursive : Bool) : Bool → List Bool → Bytes → List Bool
  | last, previous :: rest, b :: path =>
    let current := previous || (last && (recursive || b ≠ slash))
    current :: wildcardRow recursive current rest path
  | _, _, _ => []

/-- The next row of `glob_matches` under a wildcard. -/
def starRow (recursive : Bool) (path : Bytes) (row : List Bool) : List Bool :=
  row.headD false :: wildcardRow recursive (row.headD false) row.tail path

/-- The next row of `glob_matches` under a byte of its own. -/
def byteRow (a : UInt8) (path : Bytes) (row : List Bool) : List Bool :=
  false :: List.zipWith (fun previous b => previous && a = b) row path

/-- The last row of `glob_matches`. -/
def globRows (path : Bytes) : Bytes → List Bool → List Bool
  | [], row => row
  | [a], row => if a = star then starRow false path row else byteRow a path row
  | a :: b :: rest, row =>
    if a = star ∧ b = star then globRows path rest (starRow true path row)
    else if a = star then globRows path (b :: rest) (starRow false path row)
    else globRows path (b :: rest) (byteRow a path row)

/-- `glob_matches`. -/
def globMatches (pattern path : Bytes) : Bool :=
  (globRows path pattern (true :: List.replicate path.length false)).getLastD false

/-- One anchored ignore glob, with the text that `validate_relative_path` has accepted. -/
structure IgnorePattern where
  path : SnapshotPath
deriving DecidableEq

/-- `IgnorePattern::matches`. -/
def IgnorePattern.isMatch (pattern : IgnorePattern) (path : SnapshotPath) : Bool :=
  globMatches pattern.path.text path.text

/-! ### Options and reports -/

structure ScanOptions where
  ignore : List IgnorePattern
  maxFileSize : UInt64

/-- The first pattern that matches a path. -/
def ScanOptions.pattern? (options : ScanOptions) (path : SnapshotPath) : Option IgnorePattern :=
  options.ignore.find? (·.isMatch path)

inductive ExclusionReason where
  | ignored (pattern : IgnorePattern)
  | fileTooLarge (actual maximum : Nat)
deriving DecidableEq

structure Exclusion where
  path : SnapshotPath
  reason : ExclusionReason
deriving DecidableEq

structure ScanReport where
  snapshot : Snapshot
  exclusions : List Exclusion

theorem permissions_supported (mode : UInt32) :
    (mode &&& 0o7777).toUInt16.toNat ≤ 0o7777 := by
  rw [UInt32.toNat_toUInt16, UInt32.toNat_and]
  exact (Nat.mod_le _ _).trans Nat.and_le_right

/-- `permissions`. -/
def permissions (mode : UInt32) : UnixPermissions :=
  ⟨(mode &&& 0o7777).toUInt16, permissions_supported mode⟩

/-! ### The scan -/

/-- The scanner, with what it has handed to the store. -/
structure Scanner (ι : Type) where
  fs : InodeSystem ι
  stored : List Bytes
  entries : List SnapshotEntry
  exclusions : List Exclusion

abbrev ScanM (ι α : Type) := Call (Scanner ι) (Stop Restore.SnapshotError) α

def platformStop : Stop FileSystemError → Stop Restore.SnapshotError
  | .error source => .error (.platform source)
  | .unfinished => .unfinished

section Scanning

variable {ι α : Type} [DecidableEq ι] (w : Interference ι) (codecs : Codecs)
  (lowercase : Char → List Char) (options : ScanOptions) (rootPath : Bytes) (fuel : Nat)

/-- A system call that the scan makes itself. -/
def system (error : Errno → Restore.SnapshotError) (m : Call (InodeSystem ι) Errno α) : ScanM ι α :=
  ofFun fun s =>
    ((exec m s.fs).1.mapError fun errno => .error (error errno), { s with fs := (exec m s.fs).2 })

/-- A call of the platform layer. -/
def platform (m : PinnedM ι α) : ScanM ι α :=
  ofFun fun s => ((exec m s.fs).1.mapError platformStop, { s with fs := (exec m s.fs).2 })

def pushEntry (entry : SnapshotEntry) : ScanM ι Unit :=
  modify fun s => { s with entries := s.entries ++ [entry] }

def pushExclusion (exclusion : Exclusion) : ScanM ι Unit :=
  modify fun s => { s with exclusions := s.exclusions ++ [exclusion] }

/-- `put_object`. -/
def putObject (bytes : Bytes) : ScanM ι StoredObject :=
  match encode bytes with
  | .error error => throw (.error (.store error))
  | .ok envelope => do
    modify fun s => { s with stored := s.stored ++ [bytes] }
    let s ← get
    if w.storeFails s.fs.tick then
      throw (.error (.store (.io "publish object")))
    else
      return ⟨ObjectId.digestOf codecs bytes, UInt64.ofNat bytes.length,
        UInt64.ofNat envelope.length, .none⟩

/-- The part of `scan_file` after the file has been read. -/
def keepFile (path : SnapshotPath) (read : ReadFile) : ScanM ι Unit := do
  let stored ← putObject w codecs read.bytes
  pushEntry ⟨path, .file stored.id stored.logicalSize (read.mode &&& 0o111 != 0),
    permissions read.mode⟩

/-- `scan_file`. -/
def scanFile (directory : PinnedDirectory ι) (entry : DirectoryEntry ι) (path : SnapshotPath) :
    ScanM ι Unit := do
  match ← outcome (platform (directory.readRegularFile w fuel entry options.maxFileSize)) with
  | .ok read => keepFile w codecs path read
  | .error (.error (.platform (.fileTooLarge _ actual maximum))) =>
    pushExclusion ⟨path, .fileTooLarge actual maximum⟩
  | .error stop => throw stop

/-- `scan_symlink`. -/
def scanSymlink (directory : PinnedDirectory ι) (entry : DirectoryEntry ι) (path : SnapshotPath) :
    ScanM ι Unit := do
  let target ← platform (directory.readSymlink w fuel entry)
  match String.fromUTF8? ⟨target.toArray⟩ with
  | none => throw (.error (.nonUtf8Path target))
  | some text => pushEntry ⟨path, .symlink text, permissions entry.stat.mode⟩

/-- `scan_entry`, where `recurse` scans a directory beneath a path. -/
def scanEntry (recurse : PinnedDirectory ι → Bytes → ScanM ι Unit)
    (directory : PinnedDirectory ι) (entry : DirectoryEntry ι) (path : SnapshotPath) :
    ScanM ι Unit :=
  match entry.stat.kind with
  | .directory => do
    let child ← platform (directory.openDirectory w entry)
    pushEntry ⟨path, .directory, permissions child.before.mode⟩
    recurse child path.text
    platform (directory.verifyEntry w entry)
  | .file => scanFile w codecs options fuel directory entry path
  | .symlink => scanSymlink w fuel directory entry path
  | .other => throw (.error (.unsupportedEntry (joinPath rootPath path.text)))

/-- The loop of `scan_directory`, for one child. -/
def scanChild (recurse : PinnedDirectory ι → Bytes → ScanM ι Unit)
    (directory : PinnedDirectory ι) (relative : Bytes) (child : DirectoryEntry ι) :
    ScanM ι Unit :=
  let text := childText relative child.name
  if hutf8 : validUtf8 text = true then do
    let path ← ofResult ((SnapshotPath.fromStr text hutf8).mapError fun source =>
      .error (.invalidPath text source))
    match options.pattern? path with
    | some pattern => pushExclusion ⟨path, .ignored pattern⟩
    | none => scanEntry w codecs options rootPath fuel recurse directory child path
  else
    throw (.error (.nonUtf8Path (joinPath (joinPath rootPath relative) child.name.bytes)))

/-- `scan_directory`, down to `depth` directories. -/
def scanDirectory : Nat → PinnedDirectory ι → Bytes → ScanM ι Unit
  | 0, _, _ => throw .unfinished
  | depth + 1, directory, relative => do
    let children ← platform (directory.entries w fuel)
    children.forM fun child =>
      scanChild w codecs options rootPath fuel (scanDirectory depth) directory relative child
    platform (directory.verifyUnchanged w)

/-- `scan_workspace` until the manifest is made, where the path of the workspace leads to `root`. -/
def scanTree (root : ι) : ScanM ι Unit := do
  let metadata ← system (.io "inspect workspace root" rootPath) (fstat w root false)
  ofResult (ensure (metadata.kind = .directory) (.error (.rootNotDirectory rootPath)))
  let pinned ← platform (openRoot w root rootPath)
  scanDirectory w codecs options rootPath fuel fuel pinned []

/-- The manifest of a scan, and its report. -/
def scanReport (s : Scanner ι) : Except Restore.SnapshotError ScanReport := do
  let manifest ← (SnapshotManifest.new s.entries).mapError .manifest
  Restore.validateManifest lowercase manifest
  return ⟨⟨SnapshotId.digestOf codecs manifest, manifest⟩,
    s.exclusions.insertionSort fun left right => left.path.text ≤ right.path.text⟩

/-- `scan_workspace`. -/
def scanWorkspace (root : ι) : ScanM ι ScanReport := do
  scanTree w codecs options rootPath fuel root
  let s ← get
  ofResult ((scanReport codecs lowercase s).mapError .error)

/-- A scanner before its first call. -/
def Scanner.start (g : Graph ι) : Scanner ι := ⟨.start g, [], [], []⟩

end Scanning

/-! ### How a scan ends -/

section Ends

variable {ι : Type} [DecidableEq ι]

omit [DecidableEq ι] in
theorem exists_of_scanReport {codecs : Codecs} {lowercase : Char → List Char} {s : Scanner ι}
    {report : ScanReport} (h : scanReport codecs lowercase s = .ok report) :
    SnapshotManifest.new s.entries = .ok report.snapshot.manifest
      ∧ report.exclusions
        = s.exclusions.insertionSort fun left right => left.path.text ≤ right.path.text := by
  obtain ⟨manifest, hmanifest, hrest⟩ := Except.bind_eq_ok_iff.mp h
  obtain ⟨_, -, hreport⟩ := Except.bind_eq_ok_iff.mp hrest
  obtain rfl := Except.ok.inj hreport
  exact ⟨Except.mapError_eq_ok_iff.mp hmanifest, rfl⟩

omit [DecidableEq ι] in
theorem snapshot_of_scanReport {codecs : Codecs} {lowercase : Char → List Char} {s : Scanner ι}
    {report : ScanReport} (h : scanReport codecs lowercase s = .ok report) :
    report.snapshot = ⟨SnapshotId.digestOf codecs report.snapshot.manifest,
      report.snapshot.manifest⟩ := by
  obtain ⟨manifest, -, hrest⟩ := Except.bind_eq_ok_iff.mp h
  obtain ⟨_, -, hreport⟩ := Except.bind_eq_ok_iff.mp hrest
  obtain rfl := Except.ok.inj hreport
  rfl

theorem exec_scanWorkspace_eq_ok_iff {w : Interference ι} {codecs : Codecs}
    {lowercase : Char → List Char} {options : ScanOptions} {rootPath : Bytes} {fuel : Nat}
    {root : ι} {s t : Scanner ι} {report : ScanReport} :
    exec (scanWorkspace w codecs lowercase options rootPath fuel root) s = (.ok report, t) ↔
      exec (scanTree w codecs options rootPath fuel root) s = (.ok (), t)
        ∧ scanReport codecs lowercase t = .ok report := by
  unfold scanWorkspace
  rw [exec_bind_eq_ok_iff]
  constructor
  · rintro ⟨_, u, htree, hrest⟩
    rw [exec_bind_ok (exec_get u)] at hrest
    obtain ⟨hreport, rfl⟩ := exec_ofResult_eq_ok_iff.mp hrest
    exact ⟨htree, Except.mapError_eq_ok_iff.mp hreport⟩
  · rintro ⟨htree, hreport⟩
    refine ⟨(), t, htree, ?_⟩
    rw [exec_bind_ok (exec_get t)]
    exact exec_ofResult_eq_ok_iff.mpr ⟨Except.mapError_eq_ok_iff.mpr hreport, rfl⟩

/-- The scan of a workspace leaves the file system and the store as the walk has left them. -/
theorem exec_scanWorkspace_snd (w : Interference ι) (codecs : Codecs)
    (lowercase : Char → List Char) (options : ScanOptions) (rootPath : Bytes) (fuel : Nat)
    (root : ι) (s : Scanner ι) :
    (exec (scanWorkspace w codecs lowercase options rootPath fuel root) s).2
      = (exec (scanTree w codecs options rootPath fuel root) s).2 := by
  unfold scanWorkspace
  rw [exec_bind]
  rcases exec (scanTree w codecs options rootPath fuel root) s with ⟨e | _, t⟩
  · rfl
  · dsimp only
    rw [exec_bind_ok (exec_get t)]
    rfl

end Ends

end Scan

end Rewind

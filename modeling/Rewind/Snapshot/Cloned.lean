/-
Scans of a tree and of its clone.

A scan sees of a file system what its paths lead to.  Two file systems that have the same tree at
the roots of two scans give the same snapshot, whatever their inodes are and in whatever order their
directories are read; and a clone has the tree of its source.

* `Represents` — a tree in a file system of inodes;
* `scan_eq_of_represents` — the scans of one tree;
* **`clone_faithful`** — a clone, its report, and the scans of it and of the source.
-/
import Rewind.Platform.CloneTree
import Rewind.Snapshot.Exactness

namespace Rewind

open Call FileTree

namespace Scan

section Trees

variable {ι : Type}

/-- What an inode is in a tree. -/
def kindOf (node : Inode ι) : Kind UInt32 Leaf :=
  match node.data with
  | .directory _ _ => .directory (node.mode &&& 0o7777)
  | .file content => .leaf (.file (node.mode &&& 0o7777) content)
  | .symlink target => .leaf (.symlink target)
  | .other => .leaf .other

/-- The paths lead to what is in the tree.  A link has the mode that the platform gives to links. -/
structure Represents (g : Graph ι) (root : ι) (tree : Entry) : Prop where
  leads : ∀ names, (leadsTo g root names).map (fun i => kindOf (g i))
    = tree.kindAt (names.map (·.bytes))
  links : ∀ names i target, leadsTo g root names = some i → (g i).data = .symlink target →
    permissions (g i).mode = permissions 0o777

variable {κ : Type}

theorem permissions_congr {mode mode' : UInt32} (h : mode &&& 0o7777 = mode' &&& 0o7777) :
    permissions mode = permissions mode' := by
  simp only [permissions, h]

/-- Whether a file may be executed is in its permissions. -/
theorem executable_congr {mode mode' : UInt32} (h : mode &&& 0o7777 = mode' &&& 0o7777) :
    (mode &&& 0o111 != 0) = (mode' &&& 0o111 != 0) := by
  have hwithin : ∀ m : UInt32, m &&& 0o111 = (m &&& 0o7777) &&& 0o111 := by
    intro m
    rw [UInt32.and_assoc]
    rfl
  rw [hwithin mode, hwithin mode', h]

theorem kindOf_directory {node : Inode ι} (h : node.data.kind = .directory) :
    kindOf node = .directory (node.mode &&& 0o7777) := by
  rcases hdata : node.data with ⟨size, entries⟩ | content | target | _ <;> rw [hdata] at h
  · rw [kindOf, hdata]
  all_goals exact absurd h (by simp [InodeData.kind])

theorem kindOf_file {node : Inode ι} {content : Bytes} (h : node.data = .file content) :
    kindOf node = .leaf (.file (node.mode &&& 0o7777) content) := by
  rw [kindOf, h]

theorem kindOf_symlink {node : Inode ι} {target : Bytes} (h : node.data = .symlink target) :
    kindOf node = .leaf (.symlink target) := by
  rw [kindOf, h]

theorem file_of_kindOf {node : Inode ι} {mode : UInt32} {content : Bytes}
    (h : kindOf node = .leaf (.file mode content)) : node.data = .file content := by
  rcases hdata : node.data with ⟨size, entries⟩ | bytes | target | _ <;> rw [kindOf, hdata] at h
  · exact absurd h (by simp)
  · simp only [Kind.leaf.injEq, Leaf.file.injEq] at h
    rw [h.2]
  · exact absurd h (by simp)
  · exact absurd h (by simp)

theorem symlink_of_kindOf {node : Inode ι} {target : Bytes}
    (h : kindOf node = .leaf (.symlink target)) : node.data = .symlink target := by
  rcases hdata : node.data with ⟨size, entries⟩ | bytes | path | _ <;> rw [kindOf, hdata] at h
  · exact absurd h (by simp)
  · exact absurd h (by simp)
  · simp only [Kind.leaf.injEq, Leaf.symlink.injEq] at h
    rw [h]
  · exact absurd h (by simp)

section Graphs

variable {g : Graph ι}

/-- An inode that is no directory. -/
theorem represents_leaf {i : ι} {content : Leaf} (h : kindOf (g i) = .leaf content)
    (hlink : ∀ target, content = .symlink target → permissions (g i).mode = permissions 0o777) :
    Represents g i (.leaf content) := by
  have hkind : (g i).data.kind ≠ .directory := by
    intro hdirectory
    rw [kindOf_directory hdirectory] at h
    exact nomatch h
  refine ⟨fun names => ?_, fun names j target hleads hdata => ?_⟩
  · rcases names with _ | ⟨name, rest⟩
    · exact congrArg some h
    · rw [leadsTo_cons_of_kind hkind, List.map_cons, Dir.kindAt_leaf_cons]
      rfl
  · rcases names with _ | ⟨name, rest⟩
    · obtain rfl := Option.some.inj hleads
      exact hlink target (Kind.leaf.inj (h.symm.trans (kindOf_symlink hdata)))
    · rw [leadsTo_cons_of_kind hkind] at hleads
      exact nomatch hleads

/-- The entries of a directory, in its order. -/
inductive RepresentsAll (g : Graph ι) : List (FileName × ι) → Directory → Prop
  | nil : RepresentsAll g [] .nil
  | cons {name i children node entries} : Represents g i node → RepresentsAll g children entries →
    RepresentsAll g ((name, i) :: children) (Dir.cons name.bytes node entries)

theorem RepresentsAll.leads {children : List (FileName × ι)} {entries : Directory}
    (h : RepresentsAll g children entries) (name : FileName) (rest : List FileName) :
    (((children.find? fun child => child.1.bytes = name.bytes).map (·.2)).bind fun child =>
        leadsTo g child rest).map (fun i => kindOf (g i))
      = entries.kindAt (name.bytes :: rest.map (·.bytes)) := by
  induction h with
  | nil => rfl
  | @cons first i children node entries hnode _ ih =>
    rw [Dir.kindAt_cons]
    by_cases hname : first.bytes = name.bytes
    · rw [List.find?_cons_of_pos (by simpa using hname), if_pos hname]
      exact hnode.leads rest
    · rw [List.find?_cons_of_neg (by simpa using hname), if_neg hname]
      exact ih

theorem RepresentsAll.represents {children : List (FileName × ι)} {entries : Directory}
    (h : RepresentsAll g children entries) {child : FileName × ι} (hchild : child ∈ children) :
    ∃ node, Represents g child.2 node := by
  induction h with
  | nil => exact absurd hchild List.not_mem_nil
  | cons hnode _ ih =>
    rcases List.mem_cons.mp hchild with rfl | hrest
    · exact ⟨_, hnode⟩
    · exact ih hrest

/-- A directory whose entries are represented. -/
theorem represents_directory {i : ι} {size : Nat} {children : List (FileName × ι)}
    {entries : Directory} (hdata : (g i).data = .directory size children)
    (h : RepresentsAll g children entries) :
    Represents g i (.directory ((g i).mode &&& 0o7777) entries) where
  leads names := by
    rcases names with _ | ⟨name, rest⟩
    · show some (kindOf (g i)) = _
      rw [kindOf, hdata]
      rfl
    · rw [leadsTo_cons, Graph.child?, hdata, List.map_cons, Dir.kindAt_directory_cons]
      exact h.leads name rest
  links names j target hleads hsymlink := by
    rcases names with _ | ⟨name, rest⟩
    · obtain rfl := Option.some.inj hleads
      exact absurd (hdata.symm.trans hsymlink) (by simp)
    · rw [leadsTo_cons, Graph.child?, hdata] at hleads
      obtain ⟨child, hfound, hbeneath⟩ := Option.bind_eq_some_iff.mp hleads
      obtain ⟨entry, hentry, rfl⟩ := Option.map_eq_some_iff.mp hfound
      obtain ⟨node, hnode⟩ := h.represents (List.mem_of_find?_eq_some hentry)
      exact hnode.links rest j target hbeneath hsymlink

end Graphs

/-- What is said of two inodes of one kind is the same. -/
theorem Says.unique {codecs : Codecs} {node : Inode ι} {node' : Inode κ}
    {entry entry' : SnapshotEntry} (h : Says codecs node entry) (h' : Says codecs node' entry')
    (hkind : kindOf node = kindOf node')
    (hlink : ∀ target, node.data = .symlink target → permissions node.mode = permissions node'.mode)
    (hpath : entry.path.text = entry'.path.text) : entry = entry' := by
  obtain ⟨path, kind, mode⟩ := entry
  obtain ⟨path', kind', mode'⟩ := entry'
  obtain rfl : path = path' := SnapshotPath.text_injective hpath
  obtain ⟨hmode, hsays⟩ := h
  obtain ⟨hmode', hsays'⟩ := h'
  have hboth : permissions node.mode = permissions node'.mode ∧ kind = kind' := by
    rcases kind with _ | ⟨objectId, size, executable⟩ | target
    · rw [kindOf_directory hsays] at hkind
      rcases kind' with _ | ⟨objectId', size', executable'⟩ | target'
      · rw [kindOf_directory hsays'] at hkind
        exact ⟨permissions_congr (Kind.directory.inj hkind), rfl⟩
      · obtain ⟨content', hdata', -⟩ := hsays'
        rw [kindOf_file hdata'] at hkind
        exact absurd hkind (by simp)
      · rw [kindOf_symlink hsays'] at hkind
        exact absurd hkind (by simp)
    · obtain ⟨content, hdata, hobject, hsize, hexecutable⟩ := hsays
      rw [kindOf_file hdata] at hkind
      rcases kind' with _ | ⟨objectId', size', executable'⟩ | target'
      · rw [kindOf_directory hsays'] at hkind
        exact absurd hkind (by simp)
      · obtain ⟨content', hdata', hobject', hsize', hexecutable'⟩ := hsays'
        rw [kindOf_file hdata'] at hkind
        obtain ⟨hmodes, rfl⟩ := Leaf.file.inj (Kind.leaf.inj hkind)
        have hsizes : size = size' := UInt64.toNat.inj (hsize.trans hsize'.symm)
        have hbits : executable = executable' :=
          hexecutable.trans ((executable_congr hmodes).trans hexecutable'.symm)
        rw [hobject, hobject', hsizes, hbits]
        exact ⟨permissions_congr hmodes, rfl⟩
      · rw [kindOf_symlink hsays'] at hkind
        exact absurd hkind (by simp)
    · have hsame := hlink _ hsays
      rw [kindOf_symlink hsays] at hkind
      rcases kind' with _ | ⟨objectId', size', executable'⟩ | target'
      · rw [kindOf_directory hsays'] at hkind
        exact absurd hkind (by simp)
      · obtain ⟨content', hdata', -⟩ := hsays'
        rw [kindOf_file hdata'] at hkind
        exact absurd hkind (by simp)
      · rw [kindOf_symlink hsays'] at hkind
        obtain rfl := utf8_injective (Leaf.symlink.inj (Kind.leaf.inj hkind))
        exact ⟨hsame, rfl⟩
  obtain ⟨hperm, rfl⟩ := hboth
  have hmodes : mode = mode' := hmode.trans (hperm.trans hmode'.symm)
  rw [hmodes]

variable {g : Graph ι} {root : ι} {g' : Graph κ} {root' : κ} {tree : Entry}

theorem Represents.leads_in (h : Represents g root tree) (h' : Represents g' root' tree)
    {names : List FileName} {i : ι} (hleads : leadsTo g root names = some i) :
    ∃ i', leadsTo g' root' names = some i' ∧ kindOf (g' i') = kindOf (g i) := by
  have hkind := h.leads names
  rw [hleads, ← h'.leads names, Option.map_some] at hkind
  exact Option.map_eq_some_iff.mp hkind.symm

/-- What is left out of a tree is so by its files and by the patterns. -/
theorem Represents.omits (h : Represents g root tree) (h' : Represents g' root' tree)
    {options : ScanOptions} {names : List FileName} (homits : Omits options g root names) :
    Omits options g' root' names := by
  rcases homits with hpattern | ⟨i, content, hleads, hdata, hlarge⟩
  · exact Or.inl hpattern
  · obtain ⟨i', hleads', hkind⟩ := h.leads_in h' hleads
    rw [kindOf_file hdata] at hkind
    exact Or.inr ⟨i', content, hleads', file_of_kindOf hkind, hlarge⟩

/-- The entries that show a tree are the same, wherever the tree is. -/
theorem Represents.subset (h : Represents g root tree) (h' : Represents g' root' tree)
    {codecs : Codecs} {options : ScanOptions} {entries entries' : List SnapshotEntry}
    (hshows : Shows codecs g root (Omits options g root) entries)
    (hshows' : Shows codecs g' root' (Omits options g' root') entries') : entries ⊆ entries' := by
  intro entry hentry
  obtain ⟨names, i, hne, htext, homits, hleads, hsays⟩ := hshows.sound entry hentry
  obtain ⟨i', hleads', hkind⟩ := h.leads_in h' hleads
  obtain ⟨entry', hentry', htext', hsays'⟩ :=
    hshows'.complete names i' hne (fun homits' => homits (h'.omits h homits')) hleads'
  have hlink : ∀ target, (g i).data = .symlink target →
      permissions (g i).mode = permissions (g' i').mode := by
    intro target hdata
    rw [kindOf_symlink hdata] at hkind
    have hdata' : (g' i').data = .symlink target := symlink_of_kindOf hkind
    rw [h.links names i target hleads hdata, h'.links names i' target hleads' hdata']
  rw [Says.unique hsays hsays' hkind.symm hlink (htext.trans htext'.symm)]
  exact hentry'

end Trees

section Scans

variable {ι κ : Type} [DecidableEq ι] [DecidableEq κ]

/-- The scans of one tree that nobody changes give one snapshot. -/
theorem scan_eq_of_represents {g : Graph ι} {root : ι} {g' : Graph κ} {root' : κ} {tree : Entry}
    (htree : Represents g root tree) (htree' : Represents g' root' tree)
    {codecs : Codecs} {lowercase : Char → List Char} {options : ScanOptions}
    {w : Interference ι} (hstill : w.Still) (henumerates : w.Enumerates)
    {w' : Interference κ} (hstill' : w'.Still) (henumerates' : w'.Enumerates)
    {rootPath rootPath' : Bytes} {fuel fuel' : Nat} {report report' : ScanReport}
    {t : Scanner ι} {t' : Scanner κ}
    (h : exec (scanWorkspace w codecs lowercase options rootPath fuel root) (.start g)
      = (.ok report, t))
    (h' : exec (scanWorkspace w' codecs lowercase options rootPath' fuel' root') (.start g')
      = (.ok report', t')) : report.snapshot = report'.snapshot := by
  have hshows := shows_of_scan hstill henumerates h
  have hshows' := shows_of_scan hstill' henumerates' h'
  have hmanifest : report.snapshot.manifest = report'.snapshot.manifest := by
    refine SnapshotManifest.eq_of_mem_iff fun entry => ⟨fun hentry => ?_, fun hentry => ?_⟩
    · exact htree.subset htree' hshows hshows' hentry
    · exact htree'.subset htree hshows' hshows hentry
  rw [snapshot_of_scanReport (exec_scanWorkspace_eq_ok_iff.mp h).2,
    snapshot_of_scanReport (exec_scanWorkspace_eq_ok_iff.mp h').2, hmanifest]

end Scans

end Scan

open Scan

/-- **A clone is faithful.**  In a static tree a clone that succeeds, whichever of its files the
native call clones, adds the tree of the source at the destination and changes nothing else.  Its
report counts the files that came there in either way, the directories and the links; and the scans
of the source and of the destination with the same options give one snapshot. -/
theorem clone_faithful {s : Surroundings} (hstatic : ∀ tick, s.others tick = [])
    (reflinks : Nat → Bool) (descriptors : Nat) (live : Bytes → Bool) (tree : Entry)
    (source canonicalSource canonicalParent destination : Bytes) {before : Directory}
    {report : CloneReport} {fs : FileSystem}
    (h : exec (cloneWorkspace s reflinks descriptors live tree source canonicalSource
      canonicalParent destination) (FileSystem.start before) = (.ok report, fs)) :
    ∃ name mode entries, fileName? destination = some name ∧ tree = .directory mode entries
      ∧ before.get? name = none ∧ fs.root.get? name = some tree
      ∧ (∀ other, other ≠ name → fs.root.get? other = before.get? other)
      ∧ report = reportOf entries [name] (fun path => firstWrite s reflinks fs.calls path
        = some true)
      ∧ report.clonedFiles + report.copiedFiles = (entries.pathsOf isFile [name]).length
      ∧ ∀ (ι κ : Type) [DecidableEq ι] [DecidableEq κ] (g : Graph ι) (root : ι) (g' : Graph κ)
        (root' : κ) (codecs : Codecs) (lowercase : Char → List Char) (options : ScanOptions)
        (w : Interference ι) (w' : Interference κ) (fuel fuel' : Nat)
        (scanned scanned' : ScanReport) (t : Scanner ι) (t' : Scanner κ),
        Represents g root tree → (∃ cloned, fs.root.get? name = some cloned
          ∧ Represents g' root' cloned)
        → w.Still → w.Enumerates → w'.Still → w'.Enumerates
        → exec (scanWorkspace w codecs lowercase options source fuel root) (.start g)
          = (.ok scanned, t)
        → exec (scanWorkspace w' codecs lowercase options destination fuel' root') (.start g')
          = (.ok scanned', t')
        → scanned.snapshot = scanned'.snapshot := by
  obtain ⟨name, mode, entries, hname, htree, hfree, hroot, -, -, hreport⟩ :=
    clone_copies hstatic reflinks descriptors live tree source canonicalSource canonicalParent
      destination h
  have hget : fs.root.get? name = some tree := by
    rw [hroot, Dir.get?_insert_self]
  refine ⟨name, mode, entries, hname, htree, hfree, hget, ?_, hreport, ?_, ?_⟩
  · intro other hother
    rw [hroot, Dir.get?_insert_of_ne _ _ hother]
  · have hsplit := List.length_eq_countP_add_countP (l := entries.pathsOf isFile [name])
      (p := fun path => decide (firstWrite s reflinks fs.calls path = some true))
    rw [hsplit, hreport]
    show _ + _ = _ + _
    congr 1
    refine List.countP_congr fun path _ => ?_
    simp
  · intro ι κ _ _ g root g' root' codecs lowercase options w w' fuel fuel' scanned scanned' t t'
      hsource hdestination hstill henumerates hstill' henumerates' hscan hscan'
    obtain ⟨cloned, hcloned, hrepresents⟩ := hdestination
    obtain rfl := Option.some.inj (hget.symm.trans hcloned)
    exact scan_eq_of_represents hsource hrepresents hstill henumerates hstill' henumerates' hscan
      hscan'

/-! ### A sample -/

namespace Sample

/-- The link `b` and the file `x` in the directory `a`, and a file `x` beside it. -/
def mixedTree : Entry :=
  .directory 0o755
    (.directory Scan.Sample.nameA.bytes 0o755
      (.leaf Scan.Sample.nameB.bytes (.symlink [120])
        (.leaf Scan.Sample.nameX.bytes (.file 0o755 [98]) .nil))
      (.leaf Scan.Sample.nameX.bytes (.file 0o644 [97]) .nil))

/-- The same with its inodes. -/
def mixedGraph : Graph Nat
  | 0 => ⟨.directory 0 [(Scan.Sample.nameA, 1), (Scan.Sample.nameX, 2)], 0o40755,
      Scan.Sample.times 0⟩
  | 1 => ⟨.directory 0 [(Scan.Sample.nameB, 3), (Scan.Sample.nameX, 4)], 0o40755,
      Scan.Sample.times 0⟩
  | 2 => ⟨.file [97], 0o100644, Scan.Sample.times 0⟩
  | 3 => ⟨.symlink [120], 0o120777, Scan.Sample.times 0⟩
  | _ => ⟨.file [98], 0o100755, Scan.Sample.times 0⟩

theorem represents_mixedGraph : Represents mixedGraph 0 mixedTree := by
  have hlink : Represents mixedGraph 3 (.leaf (.symlink [120])) :=
    represents_leaf rfl fun _ _ => rfl
  have hbeneath : Represents mixedGraph 4 (.leaf (.file 0o755 [98])) :=
    represents_leaf rfl nofun
  have hbeside : Represents mixedGraph 2 (.leaf (.file 0o644 [97])) :=
    represents_leaf rfl nofun
  have hdirectory := represents_directory (g := mixedGraph) (i := 1) rfl
    (.cons hlink (.cons hbeneath .nil))
  exact represents_directory (i := 0) rfl (.cons hdirectory (.cons hbeside .nil))

/-- The native call fails for the second file. -/
def reflinks (tick : Nat) : Bool := tick < 32

/-- A clone of it to `/work/out`. -/
def mixed : Except FileSystemError CloneReport × FileSystem :=
  exec (cloneWorkspace (lonely none) reflinks 16 (fun _ => false) mixedTree (utf8 "/src")
    (utf8 "/src") (utf8 "/work") (utf8 "/work/out")) (FileSystem.start .nil)

/-- A scan of it. -/
def mixedScan (path : Bytes) : Except (Stop Restore.SnapshotError) ScanReport × Scanner Nat :=
  exec (scanWorkspace Scan.Sample.still Scan.Sample.codecs (fun c => [c]) ⟨[], 64⟩ path 20 0)
    (.start mixedGraph)

theorem mixed_report : mixed.1.toOption.map (fun report =>
      (report.clonedFiles, report.copiedFiles, report.directories, report.symlinks))
    = some (1, 1, 2, 1) := by decide +kernel

theorem mixedScan_source : (mixedScan (utf8 "/src")).1.isOk = true := by decide +kernel

theorem mixedScan_destination : (mixedScan (utf8 "/work/out")).1.isOk = true := by decide +kernel

/-- A result that is no error. -/
theorem exists_of_isOk {σ ε α : Type} {result : Except ε α × σ} (h : result.1.isOk = true) :
    ∃ x t, result = (.ok x, t) := by
  obtain ⟨error | x, t⟩ := result
  · exact absurd h (by simp [Except.isOk, Except.toBool])
  · exact ⟨x, t, rfl⟩

end Sample

theorem clone_faithful_sample : ∃ report fs scanned t scanned' t',
    Sample.mixed = (.ok report, fs) ∧ Sample.mixedScan (utf8 "/src") = (.ok scanned, t)
      ∧ Sample.mixedScan (utf8 "/work/out") = (.ok scanned', t')
      ∧ report.clonedFiles + report.copiedFiles = 2 ∧ report.copiedFiles = 1
      ∧ fs.root.get? (utf8 "out") = some Sample.mixedTree
      ∧ scanned.snapshot = scanned'.snapshot := by
  obtain ⟨report, hreport, hcounts⟩ := Option.map_eq_some_iff.mp Sample.mixed_report
  have hclone : Sample.mixed = (.ok report, Sample.mixed.2) :=
    Prod.ext (Except.toOption_eq_some_iff.mp hreport) rfl
  obtain ⟨scanned, t, hscan⟩ := Sample.exists_of_isOk Sample.mixedScan_source
  obtain ⟨scanned', t', hscan'⟩ := Sample.exists_of_isOk Sample.mixedScan_destination
  obtain ⟨name, mode, entries, hname, htree, -, hget, -, -, hcount, hscans⟩ :=
    clone_faithful (fun _ => rfl) Sample.reflinks 16 (fun _ => false) Sample.mixedTree
      (utf8 "/src") (utf8 "/src") (utf8 "/work") (utf8 "/work/out") hclone
  obtain ⟨-, rfl⟩ := Node.directory.inj htree
  obtain rfl : utf8 "out" = name := Option.some.inj hname
  refine ⟨report, Sample.mixed.2, scanned, t, scanned', t', hclone, hscan, hscan', hcount,
    congrArg (·.2.1) hcounts, hget, ?_⟩
  exact hscans Nat Nat Sample.mixedGraph 0 Sample.mixedGraph 0 Scan.Sample.codecs (fun c => [c])
    ⟨[], 64⟩ Scan.Sample.still Scan.Sample.still 20 20 scanned scanned' t t'
    Sample.represents_mixedGraph ⟨_, hget, Sample.represents_mixedGraph⟩ (fun _ => rfl)
    Scan.Sample.still_enumerates (fun _ => rfl) Scan.Sample.still_enumerates hscan hscan'

end Rewind

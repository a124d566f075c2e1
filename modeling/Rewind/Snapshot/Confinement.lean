/-
What a scan can reach.

Others may change the tree between any two calls of a scan: they rename, put a link where a
directory was, remove and create.  Still the scan goes from the root to a directory only through an
entry that is a directory when it is opened, and reads a file only through an entry that is no link
then.

* `ReachedBy`, `FileOpened` — the way from the root, entry by entry;
* `Confined` — what the scan has stored and noted comes from inodes reached so;
* **`scan_confined`** — so it is at the end of every scan, whatever it returns.
-/
import Rewind.Snapshot.Scan

namespace Rewind

open Call

namespace Scan

section Reach

variable {ι : Type}

/-- Names that have led from the root to a directory, opened one from the other; each stood for a
directory, and so for no link, when it was opened. -/
inductive ReachedBy (fs : InodeSystem ι) (root : ι) : List FileName → ι → Prop
  | root : ReachedBy fs root [] root
  | opened {names : List FileName} {directory child : ι} {name : FileName} {g : Graph ι}
      (h : ReachedBy fs root names directory)
      (hmoment : ⟨g, some (.openat directory name)⟩ ∈ fs.history)
      (hentry : g.child? directory name.bytes = some child)
      (hkind : (g child).data.kind = .directory) : ReachedBy fs root (names ++ [name]) child

/-- A name of the directory stood for the inode when it was opened, which was no link. -/
def FileOpened (fs : InodeSystem ι) (directory : ι) (name : FileName) (inode : ι) : Prop :=
  ∃ g, ⟨g, some (.openat directory name)⟩ ∈ fs.history
    ∧ g.child? directory name.bytes = some inode ∧ (g inode).data.kind ≠ .symlink

/-- At some moment the inode had this mode. -/
def HadMode (fs : InodeSystem ι) (inode : ι) (mode : UInt32) : Prop :=
  ∃ g call, ⟨g, call⟩ ∈ fs.history ∧ (g inode).mode = mode

/-- At the moment of the call, the name of the directory stood for a link of the kind `p`. -/
def LinkMet (fs : InodeSystem ι) (directory : ι) (name : FileName) (call : InodeCall ι)
    (p : Inode ι → Prop) : Prop :=
  ∃ g i, ⟨g, some call⟩ ∈ fs.history ∧ g.child? directory name.bytes = some i ∧ p (g i)

/-- What an entry says comes from the inode that its name led to, in a directory reached so. -/
def Sourced (codecs : Codecs) (fs₀ fs : InodeSystem ι) (root : ι) (stored : List Bytes)
    (entry : SnapshotEntry) (names : List FileName) (name : FileName) (directory : ι) : Prop :=
  match entry.kind with
  | .directory => ∃ inode mode, ReachedBy fs root (names ++ [name]) inode
    ∧ HadMode fs inode mode ∧ entry.permissions = permissions mode
  | .file objectId size executable => ∃ inode bytes mode, FileOpened fs directory name inode
    ∧ ReadFrom fs₀ fs inode bytes ∧ bytes ∈ stored ∧ HadMode fs inode mode
    ∧ objectId = ObjectId.digestOf codecs bytes ∧ size = UInt64.ofNat bytes.length
    ∧ executable = (mode &&& 0o111 != 0) ∧ entry.permissions = permissions mode
  | .symlink target => LinkMet fs directory name (.readlinkat directory name)
      (fun inode => inode.data = .symlink (utf8 target))
    ∧ LinkMet fs directory name (.fstatat directory name false)
      (fun inode => inode.data.kind = .symlink ∧ entry.permissions = permissions inode.mode)

/-- What the scan has stored and noted comes from inodes that it has reached from the root. -/
structure Confined (codecs : Codecs) (fs₀ : InodeSystem ι) (root : ι) (s : Scanner ι) : Prop where
  follows : fs₀.Follows s.fs
  stored : ∀ bytes ∈ s.stored, ∃ names directory name inode, ReachedBy s.fs root names directory
    ∧ FileOpened s.fs directory name inode ∧ ReadFrom fs₀ s.fs inode bytes
  entries : ∀ entry ∈ s.entries, ∃ names name directory, ReachedBy s.fs root names directory
    ∧ entry.path.text = pathText (names ++ [name])
    ∧ Sourced codecs fs₀ s.fs root s.stored entry names name directory

variable {fs fs' fs₀ : InodeSystem ι} {root : ι}

theorem mem_history_of_follows {m : Moment ι} (hfollows : fs.Follows fs') (h : m ∈ fs.history) :
    m ∈ fs'.history := hfollows.subset h

theorem ReachedBy.mono {names : List FileName} {directory : ι}
    (h : ReachedBy fs root names directory) (hfollows : fs.Follows fs') :
    ReachedBy fs' root names directory := by
  induction h with
  | root => exact .root
  | opened _ hmoment hentry hkind ih =>
    exact ih.opened (mem_history_of_follows hfollows hmoment) hentry hkind

theorem FileOpened.mono {directory inode : ι} {name : FileName}
    (h : FileOpened fs directory name inode) (hfollows : fs.Follows fs') :
    FileOpened fs' directory name inode := by
  obtain ⟨g, hmoment, hentry⟩ := h
  exact ⟨g, mem_history_of_follows hfollows hmoment, hentry⟩

theorem HadMode.mono {inode : ι} {mode : UInt32} (h : HadMode fs inode mode)
    (hfollows : fs.Follows fs') : HadMode fs' inode mode := by
  obtain ⟨g, call, hmoment, hmode⟩ := h
  exact ⟨g, call, mem_history_of_follows hfollows hmoment, hmode⟩

theorem LinkMet.mono {directory : ι} {name : FileName} {call : InodeCall ι} {p : Inode ι → Prop}
    (h : LinkMet fs directory name call p) (hfollows : fs.Follows fs') :
    LinkMet fs' directory name call p := by
  obtain ⟨g, i, hmoment, hlink⟩ := h
  exact ⟨g, i, mem_history_of_follows hfollows hmoment, hlink⟩

theorem Sourced.mono {codecs : Codecs} {stored stored' : List Bytes} {entry : SnapshotEntry}
    {names : List FileName} {name : FileName} {directory : ι}
    (h : Sourced codecs fs₀ fs root stored entry names name directory)
    (hfollows : fs.Follows fs') (hstored : stored ⊆ stored') :
    Sourced codecs fs₀ fs' root stored' entry names name directory := by
  unfold Sourced at h ⊢
  rcases hkind : entry.kind with _ | ⟨objectId, size, executable⟩ | target <;> rw [hkind] at h
  · obtain ⟨inode, mode, hreached, hmode, hpermissions⟩ := h
    exact ⟨inode, mode, hreached.mono hfollows, hmode.mono hfollows, hpermissions⟩
  · obtain ⟨inode, bytes, mode, hopened, hread, hmem, hmode, hfields⟩ := h
    exact ⟨inode, bytes, mode, hopened.mono hfollows, hread.mono (.refl _) hfollows, hstored hmem,
      hmode.mono hfollows, hfields⟩
  · exact ⟨h.1.mono hfollows, h.2.mono hfollows⟩

variable {codecs : Codecs} {s : Scanner ι}

theorem Confined.moves (h : Confined codecs fs₀ root s) (hfollows : s.fs.Follows fs') :
    Confined codecs fs₀ root { s with fs := fs' } where
  follows := h.follows.trans hfollows
  stored := by
    intro bytes hbytes
    obtain ⟨names, directory, name, inode, hreached, hopened, hread⟩ := h.stored bytes hbytes
    exact ⟨names, directory, name, inode, hreached.mono hfollows, hopened.mono hfollows,
      hread.mono (.refl _) hfollows⟩
  entries := by
    intro entry hentry
    obtain ⟨names, name, directory, hreached, hpath, hsourced⟩ := h.entries entry hentry
    exact ⟨names, name, directory, hreached.mono hfollows, hpath,
      hsourced.mono hfollows (List.Subset.refl _)⟩

theorem Confined.store (h : Confined codecs fs₀ root s) {names : List FileName}
    {directory inode : ι} {name : FileName} {bytes : Bytes}
    (hreached : ReachedBy s.fs root names directory)
      (hopened : FileOpened s.fs directory name inode)
    (hread : ReadFrom fs₀ s.fs inode bytes) :
    Confined codecs fs₀ root { s with stored := s.stored ++ [bytes] } where
  follows := h.follows
  stored := by
    intro bytes' hbytes'
    rcases List.mem_append.mp hbytes' with hold | hnew
    · exact h.stored bytes' hold
    · rw [List.mem_singleton.mp hnew]
      exact ⟨names, directory, name, inode, hreached, hopened, hread⟩
  entries := by
    intro entry hentry
    obtain ⟨names, name, directory, hreached, hpath, hsourced⟩ := h.entries entry hentry
    exact ⟨names, name, directory, hreached, hpath,
      hsourced.mono (.refl _) (List.subset_append_left _ _)⟩

theorem Confined.push (h : Confined codecs fs₀ root s) {entry : SnapshotEntry}
    {names : List FileName} {name : FileName} {directory : ι}
    (hreached : ReachedBy s.fs root names directory)
    (hpath : entry.path.text = pathText (names ++ [name]))
    (hsourced : Sourced codecs fs₀ s.fs root s.stored entry names name directory) :
    Confined codecs fs₀ root { s with entries := s.entries ++ [entry] } where
  follows := h.follows
  stored := h.stored
  entries := by
    intro entry' hentry'
    rcases List.mem_append.mp hentry' with hold | hnew
    · exact h.entries entry' hold
    · rw [List.mem_singleton.mp hnew]
      exact ⟨names, name, directory, hreached, hpath, hsourced⟩

end Reach

/-! ### Every step of a scan -/

section Steps

variable {ι ε α β : Type} [DecidableEq ι] {w : Interference ι} {codecs : Codecs}
  {lowercase : Char → List Char} {options : ScanOptions} {rootPath : Bytes} {fuel : Nat}
  {fs₀ fs₁ : InodeSystem ι} {root : ι}

/-- A scanner that comes after `fs₁`, with what it has stored and noted confined. -/
structure Onward (codecs : Codecs) (fs₀ : InodeSystem ι) (root : ι) (fs₁ : InodeSystem ι)
    (s : Scanner ι) : Prop where
  confined : Confined codecs fs₀ root s
  follows : fs₁.Follows s.fs

omit [DecidableEq ι] in
theorem Onward.from {fs₂ : InodeSystem ι} {s : Scanner ι} (h : Onward codecs fs₀ root fs₂ s)
    (hfollows : fs₁.Follows fs₂) : Onward codecs fs₀ root fs₁ s :=
  ⟨h.confined, hfollows.trans h.follows⟩

omit [DecidableEq ι] in
theorem Onward.moves {m : Call (InodeSystem ι) ε α} (hm : Moves w m) {s : Scanner ι}
    (h : Onward codecs fs₀ root fs₁ s) :
    Onward codecs fs₀ root (exec m s.fs).2 { s with fs := (exec m s.fs).2 } :=
  ⟨h.confined.moves (hm.passes s.fs).follows, .refl _⟩

omit [DecidableEq ι] in
/-- The rest after a call of the platform layer, from where the call has ended. -/
theorem keeps_platform_bind {m : PinnedM ι α} {f : α → ScanM ι β} (hm : Moves w m)
    (hf : ∀ a fs fs₂, fs₁.Follows fs → fs₀.Follows fs → exec m fs = (.ok a, fs₂) →
      Keeps (Onward codecs fs₀ root fs₂) (f a)) :
    Keeps (Onward codecs fs₀ root fs₁) (platform m >>= f) := by
  intro s hs
  have hmoved := hs.moves hm
  have hpasses := hm.passes s.fs
  rw [exec_bind, platform, exec_ofFun]
  rcases hexec : exec m s.fs with ⟨e | a, fs₂⟩ <;> rw [hexec] at hmoved hpasses
  · exact hmoved.from (hs.follows.trans hpasses.follows)
  · have hrest := hf a s.fs fs₂ hs.follows hs.confined.follows hexec _ hmoved
    dsimp only [Except.mapError]
    rcases hafter : exec (f a) { s with fs := fs₂ } with ⟨e | b, t⟩ <;> rw [hafter] at hrest
    · exact hrest.from (hs.follows.trans hpasses.follows)
    · exact hrest.from (hs.follows.trans hpasses.follows)

omit [DecidableEq ι] in
/-- The rest after a call of the platform layer whose errors are looked at. -/
theorem keeps_outcome_bind {m : PinnedM ι α} {f : Except (Stop Restore.SnapshotError) α → ScanM ι β}
    (hm : Moves w m)
    (hf : ∀ r fs fs₂, fs₁.Follows fs → fs₀.Follows fs → exec m fs = (r, fs₂) →
      Keeps (Onward codecs fs₀ root fs₂) (f (r.mapError platformStop))) :
    Keeps (Onward codecs fs₀ root fs₁) (outcome (platform m) >>= f) := by
  intro s hs
  have hmoved := hs.moves hm
  have hpasses := hm.passes s.fs
  rw [exec_bind, exec_outcome, platform, exec_ofFun]
  rcases hexec : exec m s.fs with ⟨r, fs₂⟩
  rw [hexec] at hmoved hpasses
  have hrest := hf r s.fs fs₂ hs.follows hs.confined.follows hexec _ hmoved
  dsimp only
  rcases hafter : exec (f (r.mapError platformStop)) { s with fs := fs₂ } with ⟨e | b, t⟩ <;>
    rw [hafter] at hrest
  · exact hrest.from (hs.follows.trans hpasses.follows)
  · exact hrest.from (hs.follows.trans hpasses.follows)

omit [DecidableEq ι] in
theorem keeps_platform {m : PinnedM ι α} (hm : Moves w m) :
    Keeps (Onward codecs fs₀ root fs₁) (platform m) := by
  intro s hs
  have hmoved := (hs.moves hm).from (hs.follows.trans (hm.passes s.fs).follows)
  rw [platform, exec_ofFun]
  rcases hexec : exec m s.fs with ⟨e | a, fs₂⟩ <;> rw [hexec] at hmoved
  · exact hmoved
  · exact hmoved

omit [DecidableEq ι] in
theorem keeps_pushExclusion (exclusion : Exclusion) :
    Keeps (Onward codecs fs₀ root fs₁) (pushExclusion exclusion) :=
  keeps_modify fun _ hs => ⟨⟨hs.confined.follows, hs.confined.stored, hs.confined.entries⟩,
    hs.follows⟩

omit [DecidableEq ι] in
theorem keeps_pushEntry {entry : SnapshotEntry} {names : List FileName} {name : FileName}
    {directory : ι} (hreached : ReachedBy fs₁ root names directory)
    (hpath : entry.path.text = pathText (names ++ [name]))
    (hsourced : Sourced codecs fs₀ fs₁ root [] entry names name directory) :
    Keeps (Onward codecs fs₀ root fs₁) (pushEntry entry) := by
  refine keeps_modify fun s hs => ⟨?_, hs.follows⟩
  exact hs.confined.push (hreached.mono hs.follows) hpath
    (hsourced.mono hs.follows (List.nil_subset _))

omit [DecidableEq ι] in
theorem keeps_keepFile {path : SnapshotPath} {read : ReadFile} {names : List FileName}
    {name : FileName} {directory inode : ι} (hreached : ReachedBy fs₁ root names directory)
    (hpath : path.text = pathText (names ++ [name]))
    (hopened : FileOpened fs₁ directory name inode) (hread : ReadFrom fs₀ fs₁ inode read.bytes)
    (hmode : HadMode fs₁ inode read.mode) :
    Keeps (Onward codecs fs₀ root fs₁) (keepFile w codecs path read) := by
  have hput : Spec (Onward codecs fs₀ root fs₁) (putObject w codecs read.bytes)
      (fun stored s => Onward codecs fs₀ root fs₁ s ∧ read.bytes ∈ s.stored
        ∧ stored.id = ObjectId.digestOf codecs read.bytes
        ∧ stored.logicalSize = UInt64.ofNat read.bytes.length)
      (Onward codecs fs₀ root fs₁) := by
    unfold putObject
    rcases encode read.bytes with error | envelope
    · exact spec_throw fun _ hs => hs
    · refine spec_bind (Q := fun _ s => Onward codecs fs₀ root fs₁ s ∧ read.bytes ∈ s.stored)
        (spec_modify fun s hs => ⟨⟨?_, hs.follows⟩, ?_⟩) fun _ => spec_get_bind fun s hs => ?_
      · exact hs.confined.store (hreached.mono hs.follows) (hopened.mono hs.follows)
          (hread.mono (.refl _) hs.follows)
      · exact List.mem_append_right _ (List.mem_singleton_self _)
      · refine spec_ite (fun _ => spec_throw fun t ht => ht ▸ hs.1) fun _ => spec_pure fun t ht =>
          ?_
        exact ht ▸ ⟨hs.1, hs.2, rfl, rfl⟩
  refine spec_bind hput fun stored => spec_modify fun s hs => ?_
  obtain ⟨honward, hmem, hid, hsize⟩ := hs
  have hfollows := honward.follows
  refine ⟨honward.confined.push (hreached.mono hfollows) hpath ?_, hfollows⟩
  exact ⟨inode, read.bytes, read.mode, hopened.mono hfollows, hread.mono (.refl _) hfollows, hmem,
    hmode.mono hfollows, hid, hsize, rfl, rfl⟩

theorem keeps_scanFile {directory : PinnedDirectory ι} {entry : DirectoryEntry ι}
    {path : SnapshotPath} {names : List FileName}
    (hreached : ReachedBy fs₁ root names directory.inode)
    (hpath : path.text = pathText (names ++ [entry.name])) :
    Keeps (Onward codecs fs₀ root fs₁) (scanFile w codecs options fuel directory entry path) := by
  refine keeps_outcome_bind (directory.moves_readRegularFile fuel entry options.maxFileSize) ?_
  intro r fs fs₂ hfrom hfollows hexec
  rcases r with stop | read
  · -- A file that is too large leaves an exclusion, any other error ends the scan.
    rcases stop with error | _
    · cases error
      case fileTooLarge => exact keeps_pushExclusion _
      all_goals exact keeps_throw _
    · exact keeps_throw _
  · obtain ⟨hpasses, hread⟩ := PinnedDirectory.readRegularFile_ok hexec
    obtain ⟨k, g, hmet, hentry, hlink⟩ := hread.opened
    obtain ⟨l, g', hmet', hstat⟩ := hread.inspected
    obtain ⟨fs₃, -, -, hbytes, -, hlater, -⟩ := hread.verified
    refine keeps_keepFile (hreached.mono (hfrom.trans hpasses.follows)) hpath
      ⟨g, hmet.at'.mem, hentry, hlink⟩ (hbytes.mono hfollows hlater)
      ⟨g', _, hmet'.at'.mem, (congrArg EntryStat.mode hstat).trans hread.mode.symm⟩

theorem keeps_scanSymlink {directory : PinnedDirectory ι} {entry : DirectoryEntry ι}
    {path : SnapshotPath} {names : List FileName}
    (hreached : ReachedBy fs₁ root names directory.inode)
    (hpath : path.text = pathText (names ++ [entry.name]))
    (hclassified : Classified fs₀ fs₁ directory.inode entry) :
    Keeps (Onward codecs fs₀ root fs₁) (scanSymlink w fuel directory entry path) := by
  refine keeps_platform_bind (directory.moves_readSymlink fuel entry) ?_
  intro target fs fs₂ hfrom hfollows hexec
  obtain ⟨hpasses, hkind, j, -, g, i, -, -, ⟨hmet, hentry, hlink⟩, -⟩ :=
    PinnedDirectory.readSymlink_ok hexec
  obtain ⟨k, g', hmet', hentry', hstat⟩ := hclassified
  have hlater := hfrom.trans hpasses.follows
  rcases htext : String.fromUTF8? ⟨target.toArray⟩ with _ | text
  · exact keeps_throw _
  · refine keeps_pushEntry (hreached.mono hlater) hpath ⟨?_, ?_⟩
    · exact ⟨g, i, hmet.at'.mem, hentry, hlink.trans (by rw [utf8_of_fromUTF8? htext])⟩
    · have hkind' : (g' entry.stat.inode).data.kind = .symlink :=
        (congrArg EntryStat.kind hstat).trans hkind
      have hmode : (g' entry.stat.inode).mode = entry.stat.mode := congrArg EntryStat.mode hstat
      exact ⟨g', _, mem_history_of_follows hlater hmet'.at'.mem, hentry', hkind', by rw [hmode]⟩

/-- What the recursion does in a directory that it has reached. -/
def Recurses (codecs : Codecs) (fs₀ : InodeSystem ι) (root : ι)
    (recurse : PinnedDirectory ι → Bytes → ScanM ι Unit) : Prop :=
  ∀ fs₁ names directory, ReachedBy fs₁ root names directory.inode →
    Keeps (Onward codecs fs₀ root fs₁) (recurse directory (pathText names))

theorem keeps_scanEntry {recurse : PinnedDirectory ι → Bytes → ScanM ι Unit}
    (hrecurse : Recurses codecs fs₀ root recurse) {directory : PinnedDirectory ι}
    {entry : DirectoryEntry ι} {path : SnapshotPath} {names : List FileName}
    (hreached : ReachedBy fs₁ root names directory.inode)
    (hpath : path.text = pathText (names ++ [entry.name]))
    (hclassified : Classified fs₀ fs₁ directory.inode entry) :
    Keeps (Onward codecs fs₀ root fs₁)
      (scanEntry w codecs options rootPath fuel recurse directory entry path) := by
  unfold scanEntry
  split
  · -- A directory: from where it has been opened, it has been reached.
    refine keeps_platform_bind (directory.moves_openDirectory entry) ?_
    intro child fs fs₂ hfrom hfollows hexec
    obtain ⟨hpasses, hkind, rfl, ⟨k, g, hmet, hentry, hdirectory⟩, l, g', hmet', hstat⟩ :=
      PinnedDirectory.openDirectory_ok hexec
    have hlater := hreached.mono (hfrom.trans hpasses.follows)
    have hchild := hlater.opened hmet.at'.mem hentry hdirectory
    refine keeps_bind (keeps_pushEntry hlater hpath ?_) fun _ => ?_
    · exact ⟨entry.stat.inode, entry.stat.mode, hchild,
        ⟨g', _, hmet'.at'.mem, congrArg EntryStat.mode hstat⟩, rfl⟩
    · rw [hpath]
      refine keeps_bind (hrecurse _ _ _ hchild) fun _ => ?_
      exact keeps_platform (directory.moves_verifyEntry entry)
  · exact keeps_scanFile hreached hpath
  · exact keeps_scanSymlink hreached hpath hclassified
  · exact keeps_throw _

theorem keeps_scanChild {recurse : PinnedDirectory ι → Bytes → ScanM ι Unit}
    (hrecurse : Recurses codecs fs₀ root recurse) {directory : PinnedDirectory ι}
    {child : DirectoryEntry ι} {names : List FileName}
    (hreached : ReachedBy fs₁ root names directory.inode)
    (hclassified : Classified fs₀ fs₁ directory.inode child) :
    Keeps (Onward codecs fs₀ root fs₁)
      (scanChild w codecs options rootPath fuel recurse directory (pathText names) child) := by
  unfold scanChild
  dsimp only
  split
  · rename_i hutf8
    refine spec_bind (Q := fun path s => Onward codecs fs₀ root fs₁ s
      ∧ path.text = childText (pathText names) child.name)
      (spec_ofResult (fun _ hs => hs) fun path hpath s hs => ⟨hs, ?_⟩) fun path => ?_
    · exact SnapshotPath.text_of_fromStr (Except.mapError_eq_ok_iff.mp hpath)
    · refine spec_and_right fun htext => ?_
      split
      · exact keeps_pushExclusion _
      · exact keeps_scanEntry hrecurse hreached (htext.trans (childText_pathText _ _)) hclassified
  · exact keeps_throw _

/-- A directory of any depth, with all beneath it. -/
theorem recurses_scanDirectory (depth : Nat) :
    Recurses codecs fs₀ root (scanDirectory w codecs options rootPath fuel depth) := by
  induction depth with
  | zero => exact fun _ _ _ _ => keeps_throw _
  | succ depth ih =>
    intro fs₁ names directory hreached
    refine keeps_platform_bind (directory.moves_entriesBounded fuel _) ?_
    intro children fs fs₂ hfrom hfollows hexec
    have hclassified := PinnedDirectory.classified_of_entriesBounded hexec
    have hpasses : Passes w fs (exec (directory.entries w fuel) fs).2 :=
      (directory.moves_entriesBounded fuel _).passes fs
    rw [hexec] at hpasses
    refine keeps_bind ?_ fun _ => keeps_platform directory.moves_verifyUnchanged
    -- Each child was classified before the loop.
    have hloop : ∀ rest ⊆ children, Keeps (Onward codecs fs₀ root fs₂) (rest.forM fun child =>
        scanChild w codecs options rootPath fuel
          (scanDirectory w codecs options rootPath fuel depth) directory (pathText names)
          child) := by
      intro rest
      induction rest with
      | nil => exact fun _ => keeps_pure _
      | cons child rest ih' =>
        intro hrest
        obtain ⟨hchild, hrest⟩ := List.cons_subset.mp hrest
        refine keeps_bind ?_ fun _ => ih' hrest
        exact keeps_scanChild ih (hreached.mono (hfrom.trans hpasses.follows))
          ((hclassified child hchild).mono hfollows (.refl _))
    exact hloop children (List.Subset.refl _)

end Steps

/-! ### Scans -/

section Scans

variable {ι : Type} [DecidableEq ι]

/-- What a scan has stored and noted is confined, whatever others do and however the scan ends. -/
theorem confined_scanTree (w : Interference ι) (codecs : Codecs) (options : ScanOptions)
    (rootPath : Bytes) (fuel : Nat) (root : ι) (g : Graph ι) :
    Confined codecs (.start g) root
      (exec (scanTree w codecs options rootPath fuel root) (.start g)).2 := by
  have hstart : Onward codecs (.start g) root (.start g) (Scanner.start g) :=
    ⟨⟨.refl _, by simp [Scanner.start], by simp [Scanner.start]⟩, .refl _⟩
  refine (Spec.state (E := Onward codecs (.start g) root (.start g)) ?_ hstart).confined
  refine keeps_bind ?_ fun metadata => keeps_bind (keeps_ofResult _) fun _ => ?_
  · intro s hs
    have hmoves : Moves w (fstat w root false) := moves_fstat root false
    have hmoved := (hs.moves hmoves).from (hs.follows.trans (hmoves.passes s.fs).follows)
    rw [system, exec_ofFun]
    rcases hexec : exec (fstat w root false) s.fs with ⟨e | stat, fs₂⟩ <;> rw [hexec] at hmoved
    · exact hmoved
    · exact hmoved
  · refine keeps_platform_bind (moves_openRoot root rootPath) ?_
    intro pinned fs fs₂ hfrom hfollows hexec
    obtain ⟨-, hinode, -⟩ := openRoot_ok hexec
    exact recurses_scanDirectory fuel _ [] _ (hinode ▸ .root)

/-- However others change the tree between the calls of a scan, what it stores and what it notes in
its manifest comes from inodes that it has reached from the root through entries that were
directories, and no links, when it opened them. -/
theorem scan_confined (w : Interference ι) (codecs : Codecs) (lowercase : Char → List Char)
    (options : ScanOptions) (rootPath : Bytes) (fuel : Nat) (root : ι) (g : Graph ι) :
    let scan := exec (scanWorkspace w codecs lowercase options rootPath fuel root) (.start g)
    (∀ bytes ∈ scan.2.stored, ∃ names directory name inode,
      ReachedBy scan.2.fs root names directory ∧ FileOpened scan.2.fs directory name inode
        ∧ ReadFrom (.start g) scan.2.fs inode bytes)
      ∧ ∀ report, scan.1 = .ok report → ∀ entry ∈ report.snapshot.manifest.entries,
        ∃ names name directory, ReachedBy scan.2.fs root names directory
          ∧ entry.path.text = pathText (names ++ [name])
          ∧ Sourced codecs (.start g) scan.2.fs root scan.2.stored entry names name directory := by
  intro scan
  have hconfined := confined_scanTree w codecs options rootPath fuel root g
  rw [← exec_scanWorkspace_snd w codecs lowercase options rootPath fuel root] at hconfined
  refine ⟨hconfined.stored, fun report hreport entry hentry => hconfined.entries entry ?_⟩
  have hok : scan = (.ok report, scan.2) := Prod.ext hreport rfl
  obtain ⟨-, hmanifest⟩ := exec_scanWorkspace_eq_ok_iff.mp hok
  exact (SnapshotManifest.mem_entries_of_new (exists_of_scanReport hmanifest).1 entry).mp hentry

end Scans

end Scan

end Rewind

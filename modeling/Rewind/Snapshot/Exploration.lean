/-
What a scan has found when it succeeds.

Each operation of the scan either fails or extends the findings by what was there, at the moments
when it was verified.

* `Explored` — a part of the scan, with its findings and the inodes that it has verified;
* `explored_scanFile`, `explored_scanSymlink`, `explored_scanEntry` — one entry;
* **`explored_scanDirectory`** — a directory of any depth.
-/
import Rewind.Snapshot.Findings

namespace Rewind

open Call FileTree

namespace Scan

section Exploration

variable {ι α : Type}

/-- The children are in the directory under their names. -/
def Lists (g : Graph ι) (directory : ι) (children : List (DirectoryEntry ι)) : Prop :=
  ∀ child ∈ children, g.child? directory child.name.bytes = some child.stat.inode

/-- From `s` to `t`, the scan has found `tree` under the names of the children.

The findings describe each file system that has the verified inodes as they were, given that the
children were in their directory all the time. -/
structure Explored (w : Interference ι) (codecs : Codecs) (options : ScanOptions)
    (s t : Scanner ι) (directory : ι) (above : List FileName) (children : List (DirectoryEntry ι))
    (tree : Findings ι) (visits : List (Visit ι)) : Prop where
  passes : Passes w s.fs t.fs
  adds : Adds codecs s t tree
  names : tree.allNames = children.map (·.name)
  distinct : (children.map (·.name)).Nodup → tree.Distinct
  verified : ∀ v ∈ visits, Verified t.fs v
  depicts : ∀ still g, (still → w.Still ∧ s.fs.Constant g) →
    (∀ l g' call, s.fs.history.length ≤ l → t.fs.At l g' call → Lists g' directory children) →
    Lists g directory children → (∀ v ∈ visits, g v.inode = v.node) →
    Depicts options still g directory above tree

/-- From `s` to `t`, the scan has found `tree` in a directory. -/
structure ExploredDirectory (w : Interference ι) (codecs : Codecs) (options : ScanOptions)
    (s t : Scanner ι) (directory : PinnedDirectory ι) (above : List FileName) (tree : Findings ι)
    (visits : List (Visit ι)) : Prop where
  passes : Passes w s.fs t.fs
  adds : Adds codecs s t tree
  distinct : tree.Distinct
  verified : ∀ v ∈ visits, Verified t.fs v
  kind : directory.before.kind = .directory
  depicts : ∀ still g, (still → w.Still ∧ s.fs.Constant g) →
    (∀ v ∈ visits, g v.inode = v.node) →
    Depicts options still g directory.inode above tree
      ∧ (∀ name, (tree.kindAt [name]).isSome ↔ name ∈ g.names directory.inode)
      ∧ g.stat directory.inode = directory.before

variable {w : Interference ι} {codecs : Codecs} {options : ScanOptions} {s t u : Scanner ι}
  {directory : ι} {above : List FileName}

theorem explored_nil (s : Scanner ι) :
    Explored w codecs options s s directory above [] .nil [] where
  passes := .refl w s.fs
  adds := adds_nil rfl rfl rfl
  names := rfl
  distinct := fun _ => trivial
  verified := by simp
  depicts := fun _ _ _ _ _ _ => depicts_nil

/-- The children of a directory, one after the other. -/
theorem Explored.cons {child : DirectoryEntry ι} {rest : List (DirectoryEntry ι)}
    {node : FoundNode ι} {tree : Findings ι} {visits visits' : List (Visit ι)}
    (h : Explored w codecs options s t directory above [child] (Dir.cons child.name node .nil)
      visits)
    (hrest : Explored w codecs options t u directory above rest tree visits') :
    Explored w codecs options s u directory above (child :: rest) (Dir.cons child.name node tree)
      (visits ++ visits') where
  passes := h.passes.trans hrest.passes
  adds := h.adds.cons hrest.adds
  names := by rw [Dir.allNames_cons, hrest.names, List.map_cons]
  distinct := by
    intro hnodup
    rw [List.map_cons, List.nodup_cons] at hnodup
    have htree := hrest.distinct hnodup.2
    have hfresh : child.name ∉ tree.allNames := hrest.names ▸ hnodup.1
    have hnode := h.distinct (List.nodup_singleton _)
    cases node with
    | leaf content => exact ⟨hfresh, htree⟩
    | directory noted entries => exact ⟨hfresh, hnode.2.1, htree⟩
  verified := by
    intro v hv
    rcases List.mem_append.mp hv with hv | hv
    · exact (h.verified v hv).mono hrest.passes.follows
    · exact hrest.verified v hv
  depicts := by
    intro still g hstill hlisted hlists hvisits
    refine Depicts.cons (h.depicts still g hstill ?_ ?_ ?_) (hrest.depicts still g ?_ ?_ ?_ ?_)
    · intro l g' call hl hat c hc
      rw [List.mem_singleton.mp hc]
      exact hlisted l g' call hl (hat.mono hrest.passes.follows) child (List.mem_cons_self ..)
    · intro c hc
      rw [List.mem_singleton.mp hc]
      exact hlists child (List.mem_cons_self ..)
    · exact fun v hv => hvisits v (List.mem_append_left _ hv)
    · intro hs
      obtain ⟨hw, hconstant⟩ := hstill hs
      exact ⟨hw, h.passes.constant hw g hconstant⟩
    · intro l g' call hl hat c hc
      have hle := h.passes.follows.length_le
      exact hlisted l g' call (hle.trans hl) hat c (List.mem_cons_of_mem _ hc)
    · exact fun c hc => hlists c (List.mem_cons_of_mem _ hc)
    · exact fun v hv => hvisits v (List.mem_append_right _ hv)

/-! ### One entry -/

theorem exec_platform_eq_ok_iff {m : PinnedM ι α} {a : α} :
    exec (platform m) s = (.ok a, t) ↔ ∃ fs, exec m s.fs = (.ok a, fs)
      ∧ t = { s with fs := fs } := by
  rw [platform, exec_ofFun]
  rcases exec m s.fs with ⟨e | b, fs⟩
  · simp [Except.mapError]
  · constructor
    · intro h
      obtain ⟨hb, ht⟩ := Prod.mk.inj h
      exact ⟨fs, by rw [Except.ok.inj hb], ht.symm⟩
    · rintro ⟨fs', heq, rfl⟩
      obtain ⟨hb, rfl⟩ := Prod.mk.inj heq
      rw [Except.ok.inj hb]
      rfl

/-- What the store and the manifest get of a file. -/
theorem keepFile_ok {path : SnapshotPath} {read : ReadFile}
    (h : exec (keepFile w codecs path read) s = (.ok (), t)) :
    t = { s with
      stored := s.stored ++ [read.bytes],
      entries := s.entries ++ [⟨path, .file (ObjectId.digestOf codecs read.bytes)
        (UInt64.ofNat read.bytes.length) (read.mode &&& 0o111 != 0), permissions read.mode⟩] } := by
  obtain ⟨stored, s₁, hput, hpush⟩ := exec_bind_eq_ok_iff.mp h
  obtain ⟨-, rfl⟩ := Prod.mk.inj hpush
  unfold putObject at hput
  rcases hencode : encode read.bytes with error | envelope <;> rw [hencode] at hput
  · exact absurd hput (by simp)
  · obtain ⟨_, s₂, hmodify, hrest⟩ := exec_bind_eq_ok_iff.mp hput
    obtain ⟨-, rfl⟩ := Prod.mk.inj hmodify
    rw [exec_bind_ok (exec_get _)] at hrest
    split at hrest
    · exact absurd hrest (by simp)
    · obtain ⟨hstored, rfl⟩ := Prod.mk.inj hrest
      obtain rfl := Except.ok.inj hstored
      rfl

/-- One entry that the scan does not descend into. -/
theorem explored_leaf {child : DirectoryEntry ι} {path : SnapshotPath} (finding : Finding)
    {visits : List (Visit ι)} (hpasses : Passes w s.fs t.fs)
    (hstored : t.stored = s.stored ++ contentsOf (.leaf (⟨path, child.stat⟩, finding)))
    (hentries : t.entries = s.entries ++ entriesOf codecs (.leaf (⟨path, child.stat⟩, finding)))
    (hexclusions : t.exclusions = s.exclusions
      ++ exclusionsOf (.leaf (⟨path, child.stat⟩, finding)))
    (hpath : path.text = pathText (above ++ [child.name]))
    (hverified : ∀ v ∈ visits, Verified t.fs v)
    (hholds : ∀ still g, (still → w.Still ∧ s.fs.Constant g) →
      (∀ l g' call, s.fs.history.length ≤ l → t.fs.At l g' call → Lists g' directory [child]) →
      (∀ v ∈ visits, g v.inode = v.node) →
      Holds options still g (.leaf (⟨path, child.stat⟩, finding))) :
    Explored w codecs options s t directory above [child]
      (Dir.cons child.name (.leaf (⟨path, child.stat⟩, finding)) .nil) visits where
  passes := hpasses
  adds := ⟨by simpa [Dir.cons, Dir.collect] using hstored,
    by simpa [Dir.cons, Dir.collect] using hentries,
    by simpa [Dir.cons, Dir.collect] using hexclusions⟩
  names := rfl
  distinct := fun _ => ⟨List.not_mem_nil, trivial⟩
  verified := hverified
  depicts := by
    intro still g hstill hlisted hlists hvisits
    exact depicts_leaf (hlists child (List.mem_singleton_self _)) hpath
      (hholds still g hstill hlisted hvisits)

variable [DecidableEq ι] {fuel o : Nat} {pinned : PinnedDirectory ι} {child : DirectoryEntry ι}
  {path : SnapshotPath}

theorem explored_scanFile (hw : w.Advancing) (htimely : s.fs.Timely)
    (hseen : Seen s.fs o child.stat)
    (hpath : path.text = pathText (above ++ [child.name])) (hpattern : options.pattern? path = none)
    (h : exec (scanFile w codecs options fuel pinned child path) s = (.ok (), t)) :
    ∃ node visits, Explored w codecs options s t pinned.inode above [child]
      (Dir.cons child.name node .nil) visits := by
  obtain ⟨r, s₁, hread, hrest⟩ := exec_bind_eq_ok_iff.mp h
  rw [exec_outcome, platform, exec_ofFun] at hread
  rcases hexec : exec (pinned.readRegularFile w fuel child options.maxFileSize) s.fs
    with ⟨stop | read, fs⟩ <;> rw [hexec] at hread
  · -- The only error that the scan goes on after is that of a file that is too large.
    obtain ⟨hr, rfl⟩ := Prod.mk.inj hread
    obtain rfl := Except.ok.inj hr
    rcases stop with error | _
    · cases error
      case fileTooLarge p actual maximum =>
        obtain ⟨-, rfl⟩ := Prod.mk.inj hrest
        obtain ⟨hpasses, hkind, rfl, hlarge⟩ := PinnedDirectory.readRegularFile_tooLarge hexec
        refine ⟨_, [], explored_leaf (.tooLarge actual options.maxFileSize.toNat) hpasses
          (List.append_nil _).symm (List.append_nil _).symm rfl hpath (by simp) ?_⟩
        intro still g hstill _ _
        refine ⟨hpattern, rfl, fun hs => ?_⟩
        obtain ⟨hw', hconstant⟩ := hstill hs
        rcases hlarge with ⟨rfl, hlt⟩ | hgrown
        · obtain ⟨g₀, call₀, hat₀, hstat₀⟩ := hseen
          rw [hconstant.at hat₀] at hstat₀
          have hfile : (g child.stat.inode).data.kind = .file :=
            (congrArg EntryStat.kind hstat₀).trans hkind
          have hsize : (g child.stat.inode).data.size = child.stat.size :=
            congrArg EntryStat.size hstat₀
          rcases hdata : (g child.stat.inode).data with ⟨size, entries⟩ | content | target | _ <;>
            rw [hdata] at hfile hsize
          · exact absurd hfile (by simp [InodeData.kind])
          · exact ⟨content, rfl, hsize.symm, hlt⟩
          · exact absurd hfile (by simp [InodeData.kind])
          · exact absurd hfile (by simp [InodeData.kind])
        · exact absurd hconstant fun hconstant => hgrown g hw' hconstant
      all_goals exact absurd hrest (by simp [Except.mapError, platformStop])
    · exact absurd hrest (by simp [Except.mapError, platformStop])
  · obtain ⟨hr, rfl⟩ := Prod.mk.inj hread
    obtain rfl := Except.ok.inj hr
    obtain rfl := keepFile_ok hrest
    obtain ⟨hpasses, hfile⟩ := PinnedDirectory.readRegularFile_ok hexec
    have htimely' := hpasses.timely hw htimely
    obtain ⟨k, g, hmet, hentry, hstat, hdata⟩ := hfile.content htimely' hseen
    have hseen' := hseen.mono hpasses.follows
    have hok : o ≤ k := by
      obtain ⟨g₀, call₀, hat₀, -⟩ := hseen
      exact Nat.le_of_lt (hat₀.lt.trans_le hmet.start)
    obtain ⟨-, hverified⟩ := verified_of_seen htimely' hseen' hok hmet.at' hentry hstat
    have hsize : child.stat.size = read.bytes.length := hfile.length.symm
    refine ⟨_, [_], explored_leaf (.file read.bytes) hpasses rfl ?_
      (List.append_nil _).symm hpath (List.forall_mem_singleton.mpr hverified) ?_⟩
    · rw [hfile.mode]
      rfl
    · intro still g' _ _ hvisits
      have hnode : g' child.stat.inode = g child.stat.inode :=
        hvisits _ (List.mem_singleton_self _)
      refine ⟨hpattern, ?_, ?_, hsize ▸ hfile.size⟩
      · rw [hnode]
        exact hdata
      · rw [hnode]
        exact congrArg EntryStat.mode hstat

theorem explored_scanSymlink (hw : w.Advancing) (htimely : s.fs.Timely)
    (hseen : Seen s.fs o child.stat) (hpath : path.text = pathText (above ++ [child.name]))
    (hpattern : options.pattern? path = none)
    (h : exec (scanSymlink w fuel pinned child path) s = (.ok (), t)) :
    ∃ node visits, Explored w codecs options s t pinned.inode above [child]
      (Dir.cons child.name node .nil) visits := by
  obtain ⟨target, s₁, hread, hrest⟩ := exec_bind_eq_ok_iff.mp h
  obtain ⟨fs, hexec, rfl⟩ := exec_platform_eq_ok_iff.mp hread
  rcases htext : String.fromUTF8? ⟨target.toArray⟩ with _ | text <;> rw [htext] at hrest
  · exact absurd hrest (by simp)
  obtain ⟨-, rfl⟩ := Prod.mk.inj hrest
  obtain ⟨hpasses, hkind, j, k, gⱼ, i, g, hjk, ⟨hmetⱼ, hentryⱼ, hlink⟩, hmet, hentry, hstat⟩ :=
    PinnedDirectory.readSymlink_ok hexec
  have htimely' := hpasses.timely hw htimely
  have hseen' := hseen.mono hpasses.follows
  obtain ⟨g₀, call₀, hat₀, hstat₀⟩ := hseen
  have hok : o ≤ k := Nat.le_of_lt (hat₀.lt.trans_le hmet.start)
  have hoj : o ≤ j := Nat.le_of_lt (hat₀.lt.trans_le hmetⱼ.start)
  obtain ⟨hsame, hverified⟩ := verified_of_seen htimely' hseen' hok hmet.at' hentry hstat
  refine ⟨_, [_], explored_leaf (.symlink text) hpasses (List.append_nil _).symm rfl
    (List.append_nil _).symm hpath (List.forall_mem_singleton.mpr hverified) ?_⟩
  intro still g' _ hlisted hvisits
  have hnode : g' child.stat.inode = g child.stat.inode :=
    hvisits _ (List.mem_singleton_self _)
  refine ⟨hpattern, ?_, ?_⟩
  · -- The name has stood for the same inode all the time, so the target is that of the inode.
    have hnamed := hlisted j gⱼ _ hmetⱼ.start hmetⱼ.at' child (List.mem_singleton_self _)
    obtain rfl := Option.some.inj (hentryⱼ.symm.trans hnamed)
    rw [hnode, utf8_of_fromUTF8? htext, ← hlink, hsame j gⱼ _ hoj hjk hmetⱼ.at']
  · rw [hnode]
    exact congrArg EntryStat.mode hstat

/-- What the recursion finds in a directory that has been opened. -/
def Finds (w : Interference ι) (codecs : Codecs) (options : ScanOptions)
    (recurse : PinnedDirectory ι → Bytes → ScanM ι Unit) : Prop :=
  ∀ directory above s t o, s.fs.Timely → Seen s.fs o directory.before →
    directory.before.inode = directory.inode →
    exec (recurse directory (pathText above)) s = (.ok (), t) →
    ∃ tree visits, ExploredDirectory w codecs options s t directory above tree visits

variable {rootPath : Bytes} {recurse : PinnedDirectory ι → Bytes → ScanM ι Unit}

theorem explored_scanEntry (hw : w.Advancing) (hrecurse : Finds w codecs options recurse)
    (htimely : s.fs.Timely) (hseen : Seen s.fs o child.stat)
    (hpath : path.text = pathText (above ++ [child.name])) (hpattern : options.pattern? path = none)
    (h : exec (scanEntry w codecs options rootPath fuel recurse pinned child path) s
      = (.ok (), t)) :
    ∃ node visits, Explored w codecs options s t pinned.inode above [child]
      (Dir.cons child.name node .nil) visits := by
  unfold scanEntry at h
  split at h
  · -- A directory: the recursion starts where it has been opened.
    obtain ⟨opened, s₁, hopen, hrest⟩ := exec_bind_eq_ok_iff.mp h
    obtain ⟨fs, hexec, hs₁⟩ := exec_platform_eq_ok_iff.mp hopen
    obtain ⟨_, s₂, hpush, hrest₁⟩ := exec_bind_eq_ok_iff.mp hrest
    obtain ⟨-, hs₂⟩ := Prod.mk.inj hpush
    obtain ⟨_, s₃, hfound, hrest₂⟩ := exec_bind_eq_ok_iff.mp hrest₁
    obtain ⟨fs', hverify, ht⟩ := exec_platform_eq_ok_iff.mp hrest₂
    obtain ⟨hpasses₁, hkind, rfl, -, k, g, hmet, hstat⟩ := PinnedDirectory.openDirectory_ok hexec
    obtain ⟨hpasses₃, -⟩ := PinnedDirectory.verifyEntry_ok hverify
    have hfs₂ : s₂.fs = fs := by rw [← hs₂, hs₁]
    rw [hpath] at hfound
    obtain ⟨tree, visits, hexplored⟩ := hrecurse _ _ _ _ k (hfs₂ ▸ hpasses₁.timely hw htimely)
      (hfs₂ ▸ ⟨g, _, hmet.at', hstat⟩) rfl hfound
    have hpasses₂ := hexplored.passes
    rw [hfs₂] at hpasses₂
    refine ⟨.directory ⟨path, child.stat⟩ tree, visits, ?_, ?_, rfl, ?_, ?_, ?_⟩
    · rw [ht]
      exact hpasses₁.trans (hpasses₂.trans hpasses₃)
    · have hadds := hexplored.adds
      refine ⟨?_, ?_, ?_⟩
      · rw [ht]
        simpa [Dir.cons, Dir.collect, contentsOf, ← hs₂, hs₁] using hadds.stored
      · rw [ht]
        simpa [Dir.cons, Dir.collect, entriesOf, ← hs₂, hs₁] using hadds.entries
      · rw [ht]
        simpa [Dir.cons, Dir.collect, exclusionsOf, ← hs₂, hs₁] using hadds.exclusions
    · exact fun _ => ⟨List.not_mem_nil, hexplored.distinct, trivial⟩
    · intro v hv
      rw [ht]
      exact (hexplored.verified v hv).mono hpasses₃.follows
    · intro still g' hstill _ hlists hvisits
      have hstill' : still → w.Still ∧ s₂.fs.Constant g' := by
        intro hs
        obtain ⟨hw', hconstant⟩ := hstill hs
        exact ⟨hw', hfs₂ ▸ hpasses₁.constant hw' g' hconstant⟩
      obtain ⟨hdepicts, hlisted, hnode⟩ := hexplored.depicts still g' hstill' hvisits
      refine depicts_directory (hlists child (List.mem_singleton_self _)) hpath ?_ hlisted hdepicts
      exact ⟨hpattern, (congrArg EntryStat.kind hnode).trans hkind, congrArg EntryStat.mode hnode⟩
  · exact explored_scanFile hw htimely hseen hpath hpattern h
  · exact explored_scanSymlink hw htimely hseen hpath hpattern h
  · exact absurd h (by simp)

theorem explored_scanChild (hw : w.Advancing) (hrecurse : Finds w codecs options recurse)
    (htimely : s.fs.Timely) (hseen : Seen s.fs o child.stat)
    (h : exec (scanChild w codecs options rootPath fuel recurse pinned (pathText above) child) s
      = (.ok (), t)) :
    ∃ node visits, Explored w codecs options s t pinned.inode above [child]
      (Dir.cons child.name node .nil) visits := by
  unfold scanChild at h
  dsimp only at h
  split at h
  · obtain ⟨path, s₁, hparsed, hrest⟩ := exec_bind_eq_ok_iff.mp h
    obtain ⟨haccepted, rfl⟩ := exec_ofResult_eq_ok_iff.mp hparsed
    have htext := SnapshotPath.text_of_fromStr (Except.mapError_eq_ok_iff.mp haccepted)
    have hpath := htext.trans (childText_pathText above child.name)
    rcases hpattern : options.pattern? path with _ | pattern <;> rw [hpattern] at hrest
    · exact explored_scanEntry hw hrecurse htimely hseen hpath hpattern hrest
    · obtain ⟨-, rfl⟩ := Prod.mk.inj hrest
      exact ⟨_, [], explored_leaf (.ignored pattern) (.refl w _) (List.append_nil _).symm
        (List.append_nil _).symm rfl hpath (by simp) fun _ _ _ _ _ => hpattern⟩
  · exact absurd h (by simp)

/-- All the children of a directory. -/
theorem explored_children (hw : w.Advancing) (hrecurse : Finds w codecs options recurse)
    {children : List (DirectoryEntry ι)} (htimely : s.fs.Timely)
    (hseen : ∀ child ∈ children, ∃ o, Seen s.fs o child.stat)
    (h : exec (children.forM fun child =>
      scanChild w codecs options rootPath fuel recurse pinned (pathText above) child) s
        = (.ok (), t)) :
    ∃ tree visits, Explored w codecs options s t pinned.inode above children tree visits := by
  induction children generalizing s with
  | nil =>
    obtain ⟨-, rfl⟩ := Prod.mk.inj h
    exact ⟨_, _, explored_nil s⟩
  | cons child rest ih =>
    obtain ⟨_, s₁, hchild, hrest⟩ := exec_bind_eq_ok_iff.mp h
    obtain ⟨o, hfirst⟩ := hseen child (List.mem_cons_self ..)
    obtain ⟨node, visits, hexplored⟩ := explored_scanChild hw hrecurse htimely hfirst hchild
    have hpasses := hexplored.passes
    obtain ⟨tree, visits', hexplored'⟩ := ih (hpasses.timely hw htimely) (fun c hc => by
      obtain ⟨o', hlater⟩ := hseen c (List.mem_cons_of_mem _ hc)
      exact ⟨o', hlater.mono hpasses.follows⟩) hrest
    exact ⟨_, _, hexplored.cons hexplored'⟩

/-- A directory of any depth, with all beneath it. -/
theorem finds_scanDirectory (hw : w.Advancing) (henumerates : w.Enumerates) (depth : Nat) :
    Finds w codecs options (scanDirectory w codecs options rootPath fuel depth) := by
  induction depth with
  | zero => exact fun _ _ _ _ _ _ _ _ h => absurd h (by simp [scanDirectory])
  | succ depth ih =>
    intro directory above s t o htimely hseen hinode h
    obtain ⟨children, s₁, hentries, hrest⟩ := exec_bind_eq_ok_iff.mp h
    obtain ⟨_, s₂, hloop, hverify⟩ := exec_bind_eq_ok_iff.mp hrest
    obtain ⟨fs₁, hread, hs₁⟩ := exec_platform_eq_ok_iff.mp hentries
    obtain ⟨fs₂, hunchanged, ht⟩ := exec_platform_eq_ok_iff.mp hverify
    obtain ⟨hpasses₁, hkind, k₁, g₁, hmet₁, hstat₁, hfound⟩ :=
      PinnedDirectory.entriesBounded_ok hw henumerates htimely hread
    have hfs₁ : s₁.fs = fs₁ := by rw [hs₁]
    have htimely₁ : s₁.fs.Timely := hfs₁ ▸ hpasses₁.timely hw htimely
    obtain ⟨tree, visits, hexplored⟩ := explored_children hw ih htimely₁
      (fun child hchild => hfs₁ ▸ hfound.seen child hchild) hloop
    obtain ⟨hpasses₃, k₂, g₂, hmet₂, hstat₂, -⟩ := PinnedDirectory.verifyUnchanged_ok hunchanged
    have hpasses₂ := hexplored.passes
    rw [hfs₁] at hpasses₂
    have hpasses : Passes w s.fs fs₂ := hpasses₁.trans (hpasses₂.trans hpasses₃)
    -- The directory has been the same from its opening to its last verification.
    rw [← hinode] at hstat₂
    have hpasses₂₃ := hpasses₂.trans hpasses₃
    have hok : o ≤ k₂ := by
      obtain ⟨g₀, call₀, hat₀, -⟩ := hseen
      have hle := (hpasses₁.trans hpasses₂).follows.length_le
      exact Nat.le_of_lt (hat₀.lt.trans_le (hle.trans hmet₂.start))
    have hverifies : Verifies g₂ directory.before.inode (some (.fstat directory.inode true)) :=
      hinode.symm
    obtain ⟨hsame, hverified⟩ := verified_of_seen (hpasses.timely hw htimely)
      (hseen.mono hpasses.follows) hok hmet₂.at' hverifies hstat₂
    have hok₁ : o ≤ k₁ := by
      obtain ⟨g₀, call₀, hat₀, -⟩ := hseen
      exact Nat.le_of_lt (hat₀.lt.trans_le hmet₁.start)
    have hk₁₂ : k₁ ≤ k₂ := Nat.le_of_lt (hmet₁.lt.trans_le
      (hpasses₂.follows.length_le.trans hmet₂.start))
    have hsame₁ := hsame k₁ g₁ _ hok₁ hk₁₂ (hmet₁.at'.mono hpasses₂₃.follows)
    rw [hinode] at hsame hverified hsame₁
    -- So each of its states has the entries that have been enumerated.
    have hlists : ∀ g : Graph ι, g directory.inode = g₂ directory.inode →
        Lists g directory.inode children := by
      intro g hg child hchild
      rw [Graph.child?_congr (hg.trans hsame₁.symm)]
      exact hfound.found child hchild
    refine ⟨tree, ⟨directory.inode, g₂ directory.inode⟩ :: visits, ?_, ?_,
      hexplored.distinct hfound.nodup, ?_, hkind, ?_⟩
    · rw [ht]
      exact hpasses
    · have hadds := hexplored.adds
      rw [hs₁] at hadds
      exact ⟨ht ▸ hadds.stored, ht ▸ hadds.entries, ht ▸ hadds.exclusions⟩
    · intro v hv
      rw [ht]
      rcases List.mem_cons.mp hv with rfl | hv
      · exact hverified
      · exact (hexplored.verified v hv).mono hpasses₃.follows
    · intro still g hstill hvisits
      obtain ⟨hnode, hvisits⟩ := List.forall_mem_cons.mp hvisits
      have hnode : g directory.inode = g₂ directory.inode := hnode
      refine ⟨hexplored.depicts still g ?_ ?_ (hlists g hnode) hvisits, fun name => ?_, ?_⟩
      · intro hs
        obtain ⟨hw', hconstant⟩ := hstill hs
        exact ⟨hw', hfs₁ ▸ hpasses₁.constant hw' g hconstant⟩
      · intro l g' call hl hat
        refine hlists g' (hsame l g' call ?_ ?_ (hat.mono hpasses₃.follows))
        · rw [hfs₁] at hl
          exact hok₁.trans (Nat.le_of_lt (hmet₁.lt.trans_le hl))
        · exact Nat.le_of_lt (hat.lt.trans_le hmet₂.start)
      · rw [Dir.kindAt_singleton_isSome, hexplored.names, hfound.names,
          Graph.names_congr (hnode.trans hsame₁.symm)]
      · rw [Graph.stat_congr hnode, ← hinode]
        exact hstat₂

end Exploration

end Scan

end Rewind

/-
The bounded walk that finds the dirty paths.

The walk makes a stamp of each entry of the workspace, and gives up when there are more entries
than its budget.  The budget is checked twice: a directory is listed up to what is left of it, and
each entry is counted again when its stamp is made, after the trees of the entries before it.

* `walkState`, `workspaceStateBounded` — the walk, call by call;
* `keeps_budget` — whatever others do meanwhile, the map never outgrows the budget;
* `Walked`, `ends_walkState` — on a tree that stands still, the walk finds what is beneath a
  directory, or gives up because that is too much;
* **`workspaceStateBounded_exact`** — the walk of a whole tree;
* `Exact.new_isOk` — a tree that is too large does not end the run.
-/
import Rewind.Capture.Dirty
import Rewind.Lib.SortedMap
import Rewind.Platform.Serving
import Rewind.Snapshot.Exactness
import Mathlib.Data.Finset.Lattice.Fold
import Mathlib.Order.Lattice.Nat

namespace Rewind

open Call

/-- Paths in the order of their texts. -/
instance : LinearOrder SnapshotPath :=
  LinearOrder.lift' SnapshotPath.text fun _ _ => SnapshotPath.text_injective

namespace DirtyWalk

open Scan (childText pathText leadsTo)

/-! ### Errors -/

/-- The errors of `CaptureError` that a walk ends with. -/
inductive CaptureError where
  | workspace (source : FileSystemError)
  | io (operation : String) (path : Bytes) (source : String)
  | producer (producer message : String)
deriving DecidableEq

/-- `dirty_scan_limit`. -/
def dirtyScanLimit (maximumEntries : Nat) : CaptureError :=
  .producer "dirty-path scanner"
    s!"workspace exceeds the {maximumEntries}-entry hint scan budget"

/-- `is_dirty_scan_limit`. -/
def isDirtyScanLimit : CaptureError → Bool
  | .workspace (.directoryEntryLimit ..) => true
  | .producer producer message =>
    producer = "dirty-path scanner" ∧ "entry hint scan budget".toList <:+: message.toList
  | _ => false

theorem isDirtyScanLimit_dirtyScanLimit (maximumEntries : Nat) :
    isDirtyScanLimit (dirtyScanLimit maximumEntries) = true := by
  refine decide_eq_true ⟨rfl, "workspace exceeds the ".toList ++ (toString maximumEntries).toList
    ++ "-".toList, [], ?_⟩
  simp [toString, String.toList_append]

/-! ### The walk -/

/-- The stamp that the walk makes of an entry. -/
def stampOf {ι : Type} (stat : EntryStat ι) (symlinkTarget : Option Bytes) : FileStamp where
  kind :=
    match stat.kind with
    | .file => 1
    | .directory => 2
    | .symlink => 3
    | .other => 4
  mode := stat.mode
  size := UInt64.ofNat stat.size
  modifiedSeconds := stat.times.modifiedSeconds
  modifiedNanoseconds := stat.times.modifiedNanoseconds
  changedSeconds := stat.times.changedSeconds
  changedNanoseconds := stat.times.changedNanoseconds
  symlinkTarget

/-- A walk: the map it fills, and how long the map was after each insertion. -/
structure Walker (ι : Type) where
  fs : InodeSystem ι
  state : SortedMap SnapshotPath FileStamp
  lengths : List Nat

abbrev WalkM (ι α : Type) := Call (Walker ι) (Stop CaptureError) α

def workspaceStop : Stop FileSystemError → Stop CaptureError
  | .error source => .error (.workspace source)
  | .unfinished => .unfinished

section Walking

variable {ι α : Type} [DecidableEq ι] (w : Interference ι) (maximumEntries : Nat)
  (rootPath : Bytes) (fuel : Nat)

/-- A call of the platform layer. -/
def platform (m : PinnedM ι α) : WalkM ι α :=
  ofFun fun s => ((exec m s.fs).1.mapError workspaceStop, { s with fs := (exec m s.fs).2 })

/-- `state.insert`. -/
def insertStamp (path : SnapshotPath) (stamp : FileStamp) : WalkM ι Unit :=
  modify fun s =>
    { s with
      state := s.state.insert path stamp
      lengths := s.lengths ++ [(s.state.insert path stamp).entries.length] }

/-- The target of an entry that is a symbolic link. -/
def symlinkTarget (directory : PinnedDirectory ι) (entry : DirectoryEntry ι) :
    WalkM ι (Option Bytes) :=
  if entry.stat.kind = .symlink then do
    let target ← platform (directory.readSymlink w fuel entry)
    return some target
  else
    return none

/-- The end of the loop of `walk_state`, once the stamp has been made. -/
def walkBeneath (recurse : PinnedDirectory ι → Bytes → WalkM ι Unit)
    (directory : PinnedDirectory ι) (entry : DirectoryEntry ι) (relative : Bytes) : WalkM ι Unit :=
  if entry.stat.kind = .directory then do
    let child ← platform (directory.openDirectory w entry)
    recurse child relative
    platform (directory.verifyEntry w entry)
  else if entry.stat.kind ≠ .symlink then
    platform (directory.verifyEntry w entry)
  else
    return ()

/-- The loop of `walk_state`, for one entry, where `recurse` walks a directory beneath a path. -/
def walkEntry (recurse : PinnedDirectory ι → Bytes → WalkM ι Unit)
    (directory : PinnedDirectory ι) (relative : Bytes) (entry : DirectoryEntry ι) :
    WalkM ι Unit := do
  let s ← get
  if s.state.entries.length = maximumEntries then
    throw (.error (dirtyScanLimit maximumEntries))
  else
    let text := childText relative entry.name
    -- `relative` is UTF-8, so this asks it of the name
    if hutf8 : validUtf8 text = true then do
      let path ← ofResult ((SnapshotPath.fromStr text hutf8).mapError fun error =>
        .error (.producer "dirty-path scanner" (toString error)))
      let target ← symlinkTarget w fuel directory entry
      insertStamp path (stampOf entry.stat target)
      walkBeneath w recurse directory entry text
    else
      throw (.error (.io "represent workspace path beneath"
        (joinPath (joinPath rootPath relative) entry.name.bytes) "path is not valid UTF-8"))

/-- `walk_state`, down to `depth` directories. -/
def walkState : Nat → PinnedDirectory ι → Bytes → WalkM ι Unit
  | 0, _, _ => throw .unfinished
  | depth + 1, directory, relative => do
    let s ← get
    let entries ← platform
      (directory.entriesBounded w fuel (maximumEntries - s.state.entries.length))
    entries.forM fun entry =>
      walkEntry w maximumEntries rootPath fuel (walkState depth) directory relative entry
    platform (directory.verifyUnchanged w)

/-- `workspace_state_bounded`, where the path of the workspace leads to `root`. -/
def workspaceStateBounded (root : ι) : WalkM ι (SortedMap SnapshotPath FileStamp) := do
  let directory ← platform (openRoot w root rootPath)
  walkState w maximumEntries rootPath fuel fuel directory []
  let s ← get
  return s.state

/-- A walk before its first call. -/
def Walker.start (g : Graph ι) : Walker ι := ⟨.start g, .empty, []⟩

end Walking

/-! ### The budget -/

section Budget

variable {ι α : Type} [DecidableEq ι] (w : Interference ι) (maximumEntries : Nat)
  (rootPath : Bytes) (fuel : Nat)

/-- The map is, and has always been, within the budget. -/
def WithinBudget (s : Walker ι) : Prop :=
  s.state.entries.length ≤ maximumEntries ∧ ∀ length ∈ s.lengths, length ≤ maximumEntries

/-- The map has room for one more entry. -/
def HasRoom (s : Walker ι) : Prop :=
  s.state.entries.length < maximumEntries ∧ ∀ length ∈ s.lengths, length ≤ maximumEntries

variable {w maximumEntries rootPath fuel}

omit [DecidableEq ι] in
/-- The calls of the platform layer leave the map alone. -/
theorem keeps_platform {I : Walker ι → Prop} (hI : ∀ s fs, I s → I { s with fs })
    (m : PinnedM ι α) : Keeps I (platform m) := Keeps.of_state fun s hs => hI s _ hs

omit [DecidableEq ι] in
theorem spec_insertStamp (path : SnapshotPath) (stamp : FileStamp) :
    Spec (HasRoom maximumEntries) (insertStamp (ι := ι) path stamp)
      (fun _ => WithinBudget maximumEntries) (WithinBudget maximumEntries) := by
  refine spec_modify fun s hs => ?_
  have hle := s.state.length_insert_le path stamp
  have hroom := hs.1
  refine ⟨by dsimp only; omega, fun length hlength => ?_⟩
  rcases List.mem_append.mp hlength with hold | hnew
  · exact hs.2 length hold
  · rw [List.mem_singleton.mp hnew]
    omega

theorem keeps_symlinkTarget {I : Walker ι → Prop} (hI : ∀ s fs, I s → I { s with fs })
    (directory : PinnedDirectory ι) (entry : DirectoryEntry ι) :
    Keeps I (symlinkTarget w fuel directory entry) := by
  unfold symlinkTarget
  refine spec_ite (fun _ => ?_) fun _ => keeps_pure _
  exact keeps_bind (keeps_platform hI _) fun _ => keeps_pure _

theorem keeps_walkBeneath {recurse : PinnedDirectory ι → Bytes → WalkM ι Unit}
    (hrecurse : ∀ child relative, Keeps (WithinBudget maximumEntries) (recurse child relative))
    (directory : PinnedDirectory ι) (entry : DirectoryEntry ι) (relative : Bytes) :
    Keeps (WithinBudget maximumEntries) (walkBeneath w recurse directory entry relative) := by
  have hplatform : ∀ {β : Type} (m : PinnedM ι β),
      Keeps (WithinBudget maximumEntries) (platform m) := keeps_platform fun _ _ hs => hs
  refine spec_ite (fun _ => ?_) fun _ => spec_ite (fun _ => hplatform _) fun _ => keeps_pure _
  refine keeps_bind (hplatform _) fun child => ?_
  exact keeps_bind (hrecurse child relative) fun _ => hplatform _

theorem keeps_walkEntry {recurse : PinnedDirectory ι → Bytes → WalkM ι Unit}
    (hrecurse : ∀ child relative, Keeps (WithinBudget maximumEntries) (recurse child relative))
    (directory : PinnedDirectory ι) (relative : Bytes) (entry : DirectoryEntry ι) :
    Keeps (WithinBudget maximumEntries)
      (walkEntry w maximumEntries rootPath fuel recurse directory relative entry) := by
  refine spec_get_bind fun s hs => ?_
  refine spec_ite (fun _ => (keeps_throw _).at hs) fun hfull => ?_
  have hroom : HasRoom maximumEntries s := ⟨lt_of_le_of_ne hs.1 hfull, hs.2⟩
  have hwithin : ∀ s : Walker ι, HasRoom maximumEntries s → WithinBudget maximumEntries s :=
    fun _ hs => ⟨hs.1.le, hs.2⟩
  dsimp only
  by_cases hutf8 : validUtf8 (childText relative entry.name) = true
  · rw [dif_pos hutf8]
    refine spec_bind ((keeps_ofResult (I := HasRoom maximumEntries) _).imp
      (fun t ht => ht ▸ hroom) (fun _ _ ht => ht) hwithin) fun path => ?_
    refine spec_bind ((keeps_symlinkTarget (fun _ _ hs => hs) directory entry).to hwithin)
      fun target => ?_
    exact spec_bind (spec_insertStamp path _) fun _ =>
      keeps_walkBeneath hrecurse directory entry _
  · rw [dif_neg hutf8]
    exact (keeps_throw _).at hs

/-- The walk of a directory keeps the map within the budget, whatever others do meanwhile. -/
theorem keeps_walkState (depth : Nat) (directory : PinnedDirectory ι) (relative : Bytes) :
    Keeps (WithinBudget maximumEntries)
      (walkState w maximumEntries rootPath fuel depth directory relative) := by
  have hplatform : ∀ {β : Type} (m : PinnedM ι β),
      Keeps (WithinBudget maximumEntries) (platform m) := keeps_platform fun _ _ hs => hs
  induction depth generalizing directory relative with
  | zero => exact keeps_throw _
  | succ depth ih =>
    refine spec_get_bind fun s hs => ?_
    refine spec_bind ((hplatform _).at hs) fun entries => ?_
    refine keeps_bind (keeps_forM (fun entry => ?_) entries) fun _ => hplatform _
    exact keeps_walkEntry ih directory relative entry

theorem keeps_budget (root : ι) : Keeps (WithinBudget maximumEntries)
    (workspaceStateBounded w maximumEntries rootPath fuel root) := by
  refine keeps_bind (keeps_platform (fun _ _ hs => hs) _) fun directory => ?_
  refine keeps_bind (keeps_walkState fuel directory []) fun _ => ?_
  exact keeps_bind keeps_get fun _ => keeps_pure _

end Budget

/-! ### Trees that stand still -/

section Tree

variable {ι : Type}

/-- A finite tree beneath `root`, with an entry at each of the `paths`. -/
structure StaticTree (g : Graph ι) (root : ι) (paths : Finset (List FileName)) : Prop where
  directory : (g root).data.kind = .directory
  mem_iff : ∀ names, names ∈ paths ↔ names ≠ [] ∧ (leadsTo g root names).isSome
  valid : ∀ names ∈ paths, ∃ path : SnapshotPath, path.text = pathText names
  -- a kernel gives a link no target of this length
  target_lt : ∀ names ∈ paths, ∀ i target, leadsTo g root names = some i →
    (g i).data = .symlink target → target.length < MAX_SYMLINK_TARGET_BYTES

variable (paths : Finset (List FileName))

/-- An entry with what is beneath it. -/
def subtree (above : List FileName) : Finset (List FileName) :=
  paths.filter fun names => above <+: names

/-- What is beneath an entry. -/
def beneath (above : List FileName) : Finset (List FileName) :=
  paths.filter fun names => above <+: names ∧ names ≠ above

/-- Some entries of a directory, with what is beneath them. -/
def subtrees (above children : List FileName) : Finset (List FileName) :=
  paths.filter fun names => ∃ name ∈ children, above ++ [name] <+: names

variable {paths} {g : Graph ι} {root : ι} {above : List FileName}

theorem subtree_eq_insert (h : above ∈ paths) :
    subtree paths above = insert above (beneath paths above) := by
  ext names
  rw [Finset.mem_insert, subtree, beneath, Finset.mem_filter, Finset.mem_filter]
  constructor
  · rintro ⟨hmem, hinitial⟩
    by_cases heq : names = above
    · exact Or.inl heq
    · exact Or.inr ⟨hmem, hinitial, heq⟩
  · rintro (rfl | ⟨hmem, hinitial, -⟩)
    · exact ⟨h, List.prefix_rfl⟩
    · exact ⟨hmem, hinitial⟩

theorem not_mem_beneath : above ∉ beneath paths above :=
  fun h => (Finset.mem_filter.mp h).2.2 rfl

theorem card_subtree (h : above ∈ paths) :
    (subtree paths above).card = (beneath paths above).card + 1 := by
  rw [subtree_eq_insert h, Finset.card_insert_of_notMem not_mem_beneath]

theorem subtrees_nil : subtrees paths above [] = ∅ := by
  simp [subtrees]

theorem subtrees_cons (name : FileName) (children : List FileName) :
    subtrees paths above (name :: children)
      = subtree paths (above ++ [name]) ∪ subtrees paths above children := by
  ext names
  rw [Finset.mem_union, subtrees, subtree, subtrees, Finset.mem_filter, Finset.mem_filter,
    Finset.mem_filter]
  constructor
  · rintro ⟨hmem, child, hchild, hinitial⟩
    rcases List.mem_cons.mp hchild with rfl | hrest
    · exact Or.inl ⟨hmem, hinitial⟩
    · exact Or.inr ⟨hmem, child, hrest, hinitial⟩
  · rintro (⟨hmem, hinitial⟩ | ⟨hmem, child, hrest, hinitial⟩)
    · exact ⟨hmem, name, List.mem_cons_self, hinitial⟩
    · exact ⟨hmem, child, List.mem_cons_of_mem _ hrest, hinitial⟩

/-- A path is beneath one entry of a directory. -/
theorem disjoint_subtrees {name : FileName} {children : List FileName} (h : name ∉ children) :
    Disjoint (subtree paths (above ++ [name])) (subtrees paths above children) := by
  refine Finset.disjoint_left.mpr fun names hname hchildren => ?_
  obtain ⟨-, hinitial⟩ := Finset.mem_filter.mp hname
  obtain ⟨-, child, hchild, hinitial'⟩ := Finset.mem_filter.mp hchildren
  have heq : above ++ [name] = above ++ [child] :=
    (List.prefix_of_prefix_length_le hinitial hinitial' (by simp)).eq_of_length (by simp)
  obtain rfl : name = child := by simpa using heq
  exact h hchild

/-- What is beneath a directory is beneath its entries. -/
theorem subtrees_of_names (htree : StaticTree g root paths) {directory : ι}
    (hleads : leadsTo g root above = some directory) {children : List FileName}
    (hchildren : ∀ name ∈ g.names directory, name ∈ children) :
    subtrees paths above children = beneath paths above := by
  ext names
  rw [subtrees, beneath, Finset.mem_filter, Finset.mem_filter]
  refine and_congr_right fun hmem => ⟨?_, ?_⟩
  · rintro ⟨name, -, hinitial⟩
    refine ⟨(List.prefix_append _ _).trans hinitial, ?_⟩
    rintro rfl
    have hle := hinitial.length_le
    rw [List.length_append, List.length_singleton] at hle
    omega
  · rintro ⟨⟨rest, rfl⟩, hne⟩
    rcases rest with _ | ⟨name, rest⟩
    · exact absurd (List.append_nil _) hne
    · obtain ⟨i, hi⟩ := Option.isSome_iff_exists.mp ((htree.mem_iff _).mp hmem).2
      have hinitial : above ++ [name] <+: above ++ name :: rest := ⟨rest, by simp⟩
      obtain ⟨child, hchild⟩ := Scan.exists_leadsTo_of_prefix hinitial hi
      obtain ⟨directory', hdirectory', hentry⟩ := Scan.leadsTo_concat hchild
      obtain rfl := Option.some.inj (hleads.symm.trans hdirectory')
      exact ⟨name, hchildren name (Graph.mem_names_iff.mpr ⟨child, hentry⟩), hinitial⟩

/-- An entry of a directory of the tree is one of the tree. -/
theorem StaticTree.leadsTo_child {directory i : ι} {name : FileName}
    (hleads : leadsTo g root above = some directory) (hi : g.child? directory name.bytes = some i) :
    leadsTo g root (above ++ [name]) = some i := by
  rw [Scan.leadsTo_append, hleads]
  exact (Scan.leadsTo_singleton name).trans hi

theorem StaticTree.child_mem (htree : StaticTree g root paths) {directory i : ι}
    {name : FileName} (hleads : leadsTo g root above = some directory)
    (hi : g.child? directory name.bytes = some i) : above ++ [name] ∈ paths := by
  rw [htree.mem_iff, StaticTree.leadsTo_child hleads hi]
  exact ⟨by simp, rfl⟩

/-- A directory has no more names than there are entries beneath it. -/
theorem StaticTree.card_names_le (htree : StaticTree g root paths) {directory : ι}
    (hleads : leadsTo g root above = some directory) :
    (g.names directory).toFinset.card ≤ (beneath paths above).card := by
  refine Finset.card_le_card_of_injOn (fun name => above ++ [name]) ?_ ?_
  · intro name hname
    obtain ⟨i, hi⟩ := Graph.mem_names_iff.mp (List.mem_toFinset.mp hname)
    exact Finset.mem_filter.mpr ⟨htree.child_mem hleads hi, List.prefix_append _ _, by simp⟩
  · intro name _ name' _ heq
    simpa using heq

/-- There is nothing beneath an entry that is no directory. -/
theorem StaticTree.beneath_eq_empty (htree : StaticTree g root paths) {i : ι}
    (hleads : leadsTo g root above = some i) (hkind : (g i).data.kind ≠ .directory) :
    beneath paths above = ∅ := by
  refine Finset.eq_empty_of_forall_notMem fun names hmem => ?_
  obtain ⟨hnames, hinitial, hne⟩ := Finset.mem_filter.mp hmem
  obtain ⟨inode, hinode⟩ := Option.isSome_iff_exists.mp ((htree.mem_iff names).mp hnames).2
  exact hne (Scan.eq_of_leadsTo_of_kind hinitial hinode hleads hkind).symm

/-- No path leads further down than the longest one. -/
theorem StaticTree.length_le (htree : StaticTree g root paths) {i : ι}
    (hleads : leadsTo g root above = some i) : above.length ≤ paths.sup List.length := by
  by_cases hnil : above = []
  · rw [hnil]
    exact Nat.zero_le _
  · have hmem : above ∈ paths := (htree.mem_iff above).mpr ⟨hnil, by rw [hleads]; rfl⟩
    exact Finset.le_sup hmem

end Tree

/-! ### The walk of a tree -/

section Walks

variable {ι : Type} (g : Graph ι) (root : ι) (maximumEntries : Nat)

/-- What the walk says of the entry at a path. -/
def Stamped (names : List FileName) (path : SnapshotPath) (stamp : FileStamp) : Prop :=
  ∃ i, leadsTo g root names = some i ∧ path.text = pathText names
    ∧ stamp = stampOf (g.stat i) (g i).data.linkTarget

/-- The walk has made the stamps of these paths, and no other. -/
structure Walked (visited : Finset (List FileName)) (s : Walker ι) : Prop where
  graph : s.fs.graph = g
  stamps : ∀ path stamp, s.state.get? path = some stamp ↔
    ∃ names ∈ visited, Stamped g root names path stamp
  length : s.state.entries.length = visited.card
  fits : visited.card ≤ maximumEntries

/-- The walk goes on with `more`, or ends with an error that says that this is too much. -/
def Extends (visited more : Finset (List FileName)) (result : Except (Stop CaptureError) Unit)
    (s : Walker ι) : Prop :=
  (visited.card + more.card ≤ maximumEntries ∧ result = .ok ()
      ∧ Walked g root maximumEntries (visited ∪ more) s)
    ∨ (maximumEntries < visited.card + more.card
      ∧ ∃ error, result = .error (.error error) ∧ isDirtyScanLimit error = true)

variable {g root maximumEntries} {visited more : Finset (List FileName)} {s : Walker ι}

theorem Walked.with_fs {fs : InodeSystem ι} (h : Walked g root maximumEntries visited s)
    (hfs : fs.graph = g) : Walked g root maximumEntries visited { s with fs } :=
  ⟨hfs, h.stamps, h.length, h.fits⟩

/-- The stamp of a path that is new. -/
theorem Walked.insert (h : Walked g root maximumEntries visited s) {names : List FileName}
    {path : SnapshotPath} {stamp : FileStamp} (hnew : names ∉ visited)
    (hroom : visited.card < maximumEntries) (hstamped : Stamped g root names path stamp)
    (lengths : List Nat) :
    Walked g root maximumEntries (insert names visited)
      ⟨s.fs, s.state.insert path stamp, lengths⟩ := by
  obtain ⟨i, hi, htext, hstamp⟩ := hstamped
  -- the names of a path are those of its text
  have hnames : ∀ {names' : List FileName}, path.text = pathText names' → names' = names :=
    fun htext' => Scan.pathText_injective (htext'.symm.trans htext)
  have hcard := Finset.card_insert_of_notMem hnew
  refine ⟨h.graph, fun path' stamp' => ?_, ?_, by omega⟩
  · by_cases hpath : path' = path
    · subst hpath
      show (s.state.insert path' stamp).get? path' = some stamp' ↔ _
      rw [SortedMap.get?_insert_self]
      constructor
      · intro heq
        obtain rfl := Option.some.inj heq
        exact ⟨names, Finset.mem_insert_self _ _, i, hi, htext, hstamp⟩
      · rintro ⟨names', -, i', hi', htext', rfl⟩
        obtain rfl := hnames htext'
        obtain rfl := Option.some.inj (hi.symm.trans hi')
        rw [hstamp]
    · show (s.state.insert path stamp).get? path' = some stamp' ↔ _
      rw [SortedMap.get?_insert_of_ne _ _ hpath, h.stamps]
      constructor
      · rintro ⟨names', hmem, hstamped'⟩
        exact ⟨names', Finset.mem_insert_of_mem hmem, hstamped'⟩
      · rintro ⟨names', hmem, hstamped'⟩
        rcases Finset.mem_insert.mp hmem with rfl | hold
        · obtain ⟨-, -, htext', -⟩ := hstamped'
          exact absurd (SnapshotPath.text_injective (htext'.trans htext.symm)) hpath
        · exact ⟨names', hold, hstamped'⟩
  · have hfresh : path ∉ s.state.keys := by
      rw [← SortedMap.get?_eq_none_iff, Option.eq_none_iff_forall_ne_some]
      intro stamp' hstamp'
      obtain ⟨names', hmem, _, _, htext', _⟩ := (h.stamps path stamp').mp hstamp'
      exact hnew (hnames htext' ▸ hmem)
    show (s.state.insert path stamp).entries.length = _
    rw [(SortedMap.entries_insert_perm hfresh).length_eq, List.length_cons, h.length, hcard]

/-- The walk ends with an error of a part of what it goes on with. -/
theorem Extends.error_mono {more' : Finset (List FileName)} {e : Stop CaptureError}
    (h : Extends g root maximumEntries visited more (.error e) s) (hle : more.card ≤ more'.card)
    (s' : Walker ι) : Extends g root maximumEntries visited more' (.error e) s' := by
  rcases h with ⟨-, hok, -⟩ | ⟨hmore, herror⟩
  · exact absurd hok (by simp)
  · exact Or.inr ⟨by omega, herror⟩

/-- The walk goes on with one part after the other. -/
theorem Extends.trans {more' : Finset (List FileName)} {result : Except (Stop CaptureError) Unit}
    (hdisjoint : Disjoint visited more) (hdisjoint' : Disjoint more more')
    (h : Extends g root maximumEntries (visited ∪ more) more' result s) :
    Extends g root maximumEntries visited (more ∪ more') result s := by
  have hcard := Finset.card_union_of_disjoint hdisjoint
  have hcard' := Finset.card_union_of_disjoint hdisjoint'
  rcases h with ⟨hfits, hresult, hwalked⟩ | ⟨hmore, herror⟩
  · refine Or.inl ⟨by omega, hresult, ?_⟩
    rwa [← Finset.union_assoc]
  · exact Or.inr ⟨by omega, herror⟩

/-- A walk that has gone on has walked both parts. -/
theorem Extends.walked {u : Unit} (h : Extends g root maximumEntries visited more (.ok u) s) :
    visited.card + more.card ≤ maximumEntries
      ∧ Walked g root maximumEntries (visited ∪ more) s := by
  rcases h with ⟨hfits, -, hwalked⟩ | ⟨-, _, herror, -⟩
  · exact ⟨hfits, hwalked⟩
  · exact absurd herror (by simp)

/-- A call of the platform layer leaves the map as it is. -/
theorem ends_platform {α : Type} {m : PinnedM ι α} {Q : Except (Stop FileSystemError) α → Prop}
    (hm : Answers g m Q) :
    Ends (Walked g root maximumEntries visited) (platform m) fun result s =>
      (∃ r, Q r ∧ result = r.mapError workspaceStop) ∧ Walked g root maximumEntries visited s := by
  intro s hs
  obtain ⟨hresult, hgraph⟩ := hm s.fs hs.graph
  exact ⟨⟨_, hresult, rfl⟩, hs.with_fs hgraph⟩

theorem ends_platform_ok {α : Type} {m : PinnedM ι α} {a : α} (hm : Gives g m a) :
    Ends (Walked g root maximumEntries visited) (platform m) fun result s =>
      result = .ok a ∧ Walked g root maximumEntries visited s := by
  refine (ends_platform hm).imp (fun _ hs => hs) ?_
  rintro result s ⟨⟨r, rfl, rfl⟩, hwalked⟩
  exact ⟨rfl, hwalked⟩

theorem ends_insertStamp {names : List FileName} {path : SnapshotPath} {stamp : FileStamp}
    (hnew : names ∉ visited) (hroom : visited.card < maximumEntries)
    (hstamped : Stamped g root names path stamp) :
    Ends (Walked g root maximumEntries visited) (insertStamp path stamp) fun result s =>
      result = .ok () ∧ Walked g root maximumEntries (insert names visited) s :=
  fun _ hs => ⟨rfl, hs.insert hnew hroom hstamped _⟩

/-- A walk goes on with nothing. -/
theorem Walked.extends_empty (h : Walked g root maximumEntries visited s) :
    Extends g root maximumEntries visited ∅ (.ok ()) s := by
  refine Or.inl ⟨?_, rfl, ?_⟩
  · rw [Finset.card_empty, Nat.add_zero]
    exact h.fits
  · rwa [Finset.union_empty]

variable {paths : Finset (List FileName)} {above : List FileName}

/-- The entries of a directory are walked one after the other.

By induction on the entries: what is beneath an entry is not beneath the next ones. -/
theorem ends_forM {f : DirectoryEntry ι → WalkM ι Unit} {es : List (DirectoryEntry ι)}
    (hnodup : (es.map (·.name)).Nodup)
    (hf : ∀ e ∈ es, ∀ visited, Disjoint visited (subtree paths (above ++ [e.name])) →
      Ends (Walked g root maximumEntries visited) (f e)
        (Extends g root maximumEntries visited (subtree paths (above ++ [e.name]))))
    (hdisjoint : Disjoint visited (subtrees paths above (es.map (·.name)))) :
    Ends (Walked g root maximumEntries visited) (es.forM f)
      (Extends g root maximumEntries visited (subtrees paths above (es.map (·.name)))) := by
  induction es generalizing visited with
  | nil =>
    rw [List.map_nil, subtrees_nil]
    exact ends_pure fun s hs => hs.extends_empty
  | cons e rest ih =>
    obtain ⟨hnew, hrest⟩ := List.nodup_cons.mp hnodup
    have hsplit : Disjoint (subtree paths (above ++ [e.name]))
        (subtrees paths above (rest.map (·.name))) := disjoint_subtrees hnew
    rw [List.map_cons, subtrees_cons] at hdisjoint ⊢
    obtain ⟨hfirst, hlater⟩ := Finset.disjoint_union_right.mp hdisjoint
    refine ends_bind (hf e List.mem_cons_self visited hfirst) (fun _ s hs => ?_)
      fun error s hs => ?_
    · refine Extends.trans hfirst hsplit ?_
      refine ih hrest (fun e' he' => hf e' (List.mem_cons_of_mem _ he')) ?_ s hs.walked.2
      exact Finset.disjoint_union_left.mpr ⟨hlater, hsplit⟩
    · exact hs.error_mono (Finset.card_le_card Finset.subset_union_left) s

variable [DecidableEq ι] {w : Interference ι} {rootPath : Bytes} {fuel : Nat} {i : ι}
  {directory : PinnedDirectory ι} {name : FileName}

/-- The target of a link of the tree is read. -/
theorem ends_symlinkTarget (hw : Serves w) (htree : StaticTree g root paths)
    (hleads : leadsTo g root above = some directory.inode)
    (hi : g.child? directory.inode name.bytes = some i) (hfuel : 0 < fuel) :
    Ends (Walked g root maximumEntries visited) (symlinkTarget w fuel directory ⟨name, g.stat i⟩)
      fun result s => result = .ok (g i).data.linkTarget
        ∧ Walked g root maximumEntries visited s := by
  refine ends_ite (fun hkind => ?_) fun hkind => ?_
  · obtain ⟨target, hdata⟩ := kind_eq_symlink_iff.mp hkind
    have hlength := htree.target_lt _ (htree.child_mem hleads hi) i target
      (StaticTree.leadsTo_child hleads hi) hdata
    have hread := PinnedDirectory.gives_readSymlink hw hi hdata hlength hfuel
    rw [hdata]
    exact ends_ok_bind (ends_platform_ok hread) (ends_pure fun s hs => ⟨rfl, hs⟩)
  · have hnone : (g i).data.linkTarget = none := by
      rcases hdata : (g i).data with _ | _ | target | _
      · rfl
      · rfl
      · exact absurd (kind_eq_symlink_iff.mpr ⟨target, hdata⟩) hkind
      · rfl
    rw [hnone]
    exact ends_pure fun s hs => ⟨rfl, hs⟩

/-- What is beneath an entry is walked once its stamp has been made. -/
theorem ends_walkBeneath (hw : Serves w) (htree : StaticTree g root paths)
    (hleads : leadsTo g root above = some directory.inode)
    (hi : g.child? directory.inode name.bytes = some i)
    {recurse : PinnedDirectory ι → Bytes → WalkM ι Unit}
    (hrecurse : ∀ child : PinnedDirectory ι, child.inode = i → child.Opened g →
      Ends (Walked g root maximumEntries visited) (recurse child (pathText (above ++ [name])))
        (Extends g root maximumEntries visited (beneath paths (above ++ [name])))) :
    Ends (Walked g root maximumEntries visited)
      (walkBeneath w recurse directory ⟨name, g.stat i⟩ (pathText (above ++ [name])))
      (Extends g root maximumEntries visited (beneath paths (above ++ [name]))) := by
  have hverify : Gives g (directory.verifyEntry w ⟨name, g.stat i⟩) () :=
    PinnedDirectory.gives_verifyEntry hw hi
  refine ends_ite (fun hkind => ?_) fun hkind => ?_
  · refine ends_ok_bind (ends_platform_ok (PinnedDirectory.gives_openDirectory hw hi hkind)) ?_
    refine ends_bind (hrecurse ⟨i, _, g.stat i⟩ rfl ⟨rfl, hkind⟩) (fun _ s hs => ?_)
      fun _ _ hs => hs
    obtain ⟨hfits, hwalked⟩ := hs.walked
    obtain ⟨hresult, hverified⟩ := ends_platform_ok hverify s hwalked
    exact Or.inl ⟨hfits, hresult, hverified⟩
  · -- there is nothing beneath
    rw [htree.beneath_eq_empty (StaticTree.leadsTo_child hleads hi) hkind]
    refine ends_ite (fun _ => ?_) fun _ => ends_pure fun s hs => hs.extends_empty
    refine (ends_platform_ok hverify).imp (fun _ hs => hs) ?_
    rintro _ s ⟨rfl, hwalked⟩
    exact hwalked.extends_empty

/-- An entry is walked with what is beneath it, unless that is too much. -/
theorem ends_walkEntry (hw : Serves w) (htree : StaticTree g root paths)
    (hleads : leadsTo g root above = some directory.inode)
    (hi : g.child? directory.inode name.bytes = some i) (hfuel : 0 < fuel)
    (hdisjoint : Disjoint visited (subtree paths (above ++ [name])))
    {recurse : PinnedDirectory ι → Bytes → WalkM ι Unit}
    (hrecurse : ∀ visited, Disjoint visited (beneath paths (above ++ [name])) →
      ∀ child : PinnedDirectory ι, child.inode = i → child.Opened g →
      Ends (Walked g root maximumEntries visited) (recurse child (pathText (above ++ [name])))
        (Extends g root maximumEntries visited (beneath paths (above ++ [name])))) :
    Ends (Walked g root maximumEntries visited)
      (walkEntry w maximumEntries rootPath fuel recurse directory (pathText above)
        ⟨name, g.stat i⟩)
      (Extends g root maximumEntries visited (subtree paths (above ++ [name]))) := by
  have hchild := StaticTree.leadsTo_child hleads hi
  have hmem := htree.child_mem hleads hi
  have hcard := card_subtree hmem
  obtain ⟨path, htext⟩ := htree.valid _ hmem
  refine ends_get_bind fun s hs => ends_ite (fun hfull => ?_) fun hfull => ?_
  · -- the entry itself is too much
    rw [hs.length] at hfull
    exact ends_throw fun _ _ => Or.inr ⟨by omega, _, rfl, isDirtyScanLimit_dirtyScanLimit _⟩
  · have hroom : visited.card < maximumEntries := by
      have hfits := hs.fits
      rw [hs.length] at hfull
      omega
    have hspelled := Scan.childText_pathText above name
    have hutf8 : validUtf8 (childText (pathText above) name) = true := by
      rw [hspelled, ← htext]
      exact path.utf8
    have hparsed : SnapshotPath.fromStr (childText (pathText above) name) hutf8 = .ok path :=
      SnapshotPath.fromStr_of_text hutf8 (htext.trans hspelled.symm)
    have hnew : above ++ [name] ∉ visited := fun h =>
      Finset.disjoint_left.mp hdisjoint h (Finset.mem_filter.mpr ⟨hmem, List.prefix_rfl⟩)
    rintro t rfl
    dsimp only
    rw [dif_pos hutf8, hparsed, hspelled]
    have hstep : Ends (Walked g root maximumEntries visited)
        (do
          let target ← symlinkTarget w fuel directory ⟨name, g.stat i⟩
          insertStamp path (stampOf (g.stat i) target)
          walkBeneath w recurse directory ⟨name, g.stat i⟩ (pathText (above ++ [name])))
        (Extends g root maximumEntries visited (subtree paths (above ++ [name]))) := by
      refine ends_ok_bind (ends_symlinkTarget hw htree hleads hi hfuel) ?_
      have hstamped : Stamped g root (above ++ [name]) path
          (stampOf (g.stat i) (g i).data.linkTarget) := ⟨i, hchild, htext, rfl⟩
      refine ends_ok_bind (ends_insertStamp hnew hroom hstamped) ?_
      rw [← Finset.union_singleton, subtree_eq_insert hmem, Finset.insert_eq]
      rw [subtree_eq_insert hmem, Finset.disjoint_insert_right] at hdisjoint
      have hbeneath : Disjoint {above ++ [name]} (beneath paths (above ++ [name])) :=
        Finset.disjoint_singleton_left.mpr not_mem_beneath
      have hvisited : Disjoint (visited ∪ {above ++ [name]}) (beneath paths (above ++ [name])) :=
        Finset.disjoint_union_left.mpr ⟨hdisjoint.2, hbeneath⟩
      refine (ends_walkBeneath hw htree hleads hi (hrecurse _ hvisited)).imp (fun _ hs => hs) ?_
      exact fun _ _ hs => hs.trans (Finset.disjoint_singleton_right.mpr hnew) hbeneath
    exact hstep t hs

/-- A directory is walked with all that is beneath it, unless that is too much.

By induction on the depth, which suffices while no path of the tree is deeper. -/
theorem ends_walkState (hw : Serves w) (htree : StaticTree g root paths)
    (hfuel : paths.card < fuel) {depth : Nat}
    (hdepth : paths.sup List.length < above.length + depth)
    (hleads : leadsTo g root above = some directory.inode) (hopened : directory.Opened g)
    (hdisjoint : Disjoint visited (beneath paths above)) :
    Ends (Walked g root maximumEntries visited)
      (walkState w maximumEntries rootPath fuel depth directory (pathText above))
      (Extends g root maximumEntries visited (beneath paths above)) := by
  induction depth generalizing above directory visited with
  | zero =>
    have hle := htree.length_le hleads
    omega
  | succ depth ih =>
    have hnames := htree.card_names_le hleads
    have hbeneath : (beneath paths above).card ≤ paths.card :=
      Finset.card_le_card (Finset.filter_subset _ _)
    refine ends_get_bind fun s hs => ?_
    rw [hs.length]
    have hlisted : Answers g (directory.entriesBounded w fuel (maximumEntries - visited.card))
        (Listed g directory.inode (maximumEntries - visited.card)) :=
      PinnedDirectory.answers_entriesBounded hw hopened (by omega)
    rintro t rfl
    refine ends_bind (ends_platform hlisted) (fun es s hs => ?_) (fun error s hs => ?_) t hs
    · obtain ⟨⟨r, ⟨es', rfl, hlisting, -⟩ | ⟨⟨path, rfl⟩, -⟩, hresult⟩, hwalked⟩ := hs
      · obtain rfl := Except.ok.inj hresult
        have hall : subtrees paths above (es.map (·.name)) = beneath paths above :=
          subtrees_of_names htree hleads hlisting.complete
        have hloop : Ends (Walked g root maximumEntries visited)
            (es.forM fun entry => walkEntry w maximumEntries rootPath fuel
              (walkState w maximumEntries rootPath fuel depth) directory (pathText above) entry)
            (Extends g root maximumEntries visited (beneath paths above)) := by
          rw [← hall] at hdisjoint ⊢
          refine ends_forM hlisting.nodup ?_ hdisjoint
          rintro ⟨name, stat⟩ he visited' hdisjoint'
          obtain ⟨hi, hstat⟩ := hlisting.found _ he
          generalize stat.inode = i at hi hstat
          obtain rfl : stat = g.stat i := hstat
          have hchild := StaticTree.leadsTo_child hleads hi
          refine ends_walkEntry hw htree hleads hi (by omega) hdisjoint' ?_
          intro visited'' hdisjoint'' child hinode hchildOpened
          refine ih ?_ (hinode ▸ hchild) hchildOpened hdisjoint''
          rw [List.length_append, List.length_singleton]
          omega
        refine ends_bind hloop (fun _ s hs => ?_) (fun _ _ hs => hs) s hwalked
        obtain ⟨hfits, hwalked⟩ := hs.walked
        obtain ⟨hresult, hverified⟩ :=
          ends_platform_ok (PinnedDirectory.gives_verifyUnchanged hw hopened) s hwalked
        exact Or.inl ⟨hfits, hresult, hverified⟩
      · exact absurd hresult (by simp [Except.mapError])
    · -- the directory alone has too many entries
      obtain ⟨⟨r, ⟨es, rfl, -⟩ | ⟨⟨path, rfl⟩, hmore⟩, hresult⟩, -⟩ := hs
      · exact absurd hresult (by simp [Except.mapError])
      · obtain rfl := Except.error.inj hresult
        exact Or.inr ⟨by omega, _, rfl, rfl⟩

/-- How the walk of a tree ends. -/
structure Exact (g : Graph ι) (root : ι) (paths : Finset (List FileName)) (maximumEntries : Nat)
    (result : Except (Stop CaptureError) (SortedMap SnapshotPath FileStamp)) (s : Walker ι) :
    Prop where
  succeeds : (∃ state, result = .ok state) ↔ paths.card ≤ maximumEntries
  stamps : ∀ state, result = .ok state → state.entries.length = paths.card
    ∧ ∀ path stamp, state.get? path = some stamp ↔
      ∃ names, names ≠ [] ∧ Stamped g root names path stamp
  budget : ∀ length ∈ s.lengths, length ≤ maximumEntries
  recognized : maximumEntries < paths.card →
    ∃ error, result = .error (.error error) ∧ isDirtyScanLimit error = true

omit [DecidableEq ι] in
theorem walked_start : Walked g root maximumEntries ∅ (.start g) where
  graph := rfl
  stamps := by
    intro path stamp
    simp [Walker.start, SortedMap.get?]
  length := rfl
  fits := Nat.zero_le _

omit [DecidableEq ι] in
theorem withinBudget_start (maximumEntries : Nat) (g : Graph ι) :
    WithinBudget maximumEntries (.start g) := ⟨Nat.zero_le _, by simp [Walker.start]⟩

/-- The walk of the whole tree. -/
theorem ends_workspaceStateBounded (hw : Serves w) (htree : StaticTree g root paths)
    (hfuel : paths.card < fuel) (hdepth : paths.sup List.length < fuel) :
    Ends (Walked g root maximumEntries ∅)
      (workspaceStateBounded w maximumEntries rootPath fuel root)
      fun result s => (paths.card ≤ maximumEntries ∧ result = .ok s.state
          ∧ Walked g root maximumEntries paths s)
        ∨ (maximumEntries < paths.card
          ∧ ∃ error, result = .error (.error error) ∧ isDirtyScanLimit error = true) := by
  have hall : beneath paths [] = paths := by
    refine Finset.filter_true_of_mem fun names hmem => ⟨List.nil_prefix, ?_⟩
    exact ((htree.mem_iff names).mp hmem).1
  refine ends_ok_bind (ends_platform_ok (gives_openRoot hw rootPath htree.directory)) ?_
  have hwalk : Ends (Walked g root maximumEntries ∅)
      (walkState w maximumEntries rootPath fuel fuel ⟨root, rootPath, g.stat root⟩ [])
      (Extends g root maximumEntries ∅ paths) := by
    rw [← hall]
    refine ends_walkState hw htree hfuel ?_ rfl ⟨rfl, htree.directory⟩
      (Finset.disjoint_empty_left _)
    rw [List.length_nil, Nat.zero_add]
    exact hdepth
  refine ends_bind hwalk (fun _ s hs => ?_) fun error s hs => ?_
  · obtain ⟨hfits, hwalked⟩ := hs.walked
    rw [Finset.card_empty, Nat.zero_add] at hfits
    rw [Finset.empty_union] at hwalked
    exact Or.inl ⟨hfits, rfl, hwalked⟩
  · rcases hs with ⟨-, hok, -⟩ | ⟨hmore, error', herror⟩
    · exact absurd hok (by simp)
    · rw [Finset.card_empty, Nat.zero_add] at hmore
      obtain ⟨rfl, hrecognized⟩ : error = .error error' ∧ isDirtyScanLimit error' = true :=
        ⟨Except.error.inj herror.1, herror.2⟩
      exact Or.inr ⟨hmore, error', rfl, hrecognized⟩

omit [DecidableEq ι] in
/-- A walk of the whole tree is exact. -/
theorem exact_of_walked (htree : StaticTree g root paths)
    {result : Except (Stop CaptureError) (SortedMap SnapshotPath FileStamp)}
    (hlengths : ∀ length ∈ s.lengths, length ≤ maximumEntries) (hfits : paths.card ≤ maximumEntries)
    (hresult : result = .ok s.state) (hwalked : Walked g root maximumEntries paths s) :
    Exact g root paths maximumEntries result s where
  succeeds := ⟨fun _ => hfits, fun _ => ⟨_, hresult⟩⟩
  stamps := by
    intro state hstate
    obtain rfl := Except.ok.inj (hresult.symm.trans hstate)
    refine ⟨hwalked.length, fun path stamp => (hwalked.stamps path stamp).trans ⟨?_, ?_⟩⟩
    · rintro ⟨names, hmem, hstamped⟩
      exact ⟨names, ((htree.mem_iff names).mp hmem).1, hstamped⟩
    · rintro ⟨names, hne, i, hi, hstamp⟩
      exact ⟨names, (htree.mem_iff names).mpr ⟨hne, by rw [hi]; rfl⟩, i, hi, hstamp⟩
  budget := hlengths
  recognized := fun hmore => absurd hfits (Nat.not_le.mpr hmore)

omit [DecidableEq ι] in
/-- A walk that gives up on a tree that is too large is exact. -/
theorem exact_of_limit {result : Except (Stop CaptureError) (SortedMap SnapshotPath FileStamp)}
    (hlengths : ∀ length ∈ s.lengths, length ≤ maximumEntries) (hmore : maximumEntries < paths.card)
    {error : CaptureError} (hresult : result = .error (.error error))
    (herror : isDirtyScanLimit error = true) : Exact g root paths maximumEntries result s where
  succeeds := by
    refine ⟨?_, fun hfits => absurd hfits (Nat.not_le.mpr hmore)⟩
    rintro ⟨state, hstate⟩
    rw [hresult] at hstate
    exact absurd hstate (by simp)
  stamps := by
    intro state hstate
    rw [hresult] at hstate
    exact absurd hstate (by simp)
  budget := hlengths
  recognized := fun _ => ⟨error, hresult, herror⟩

/-- What the tracker is told of a walk. -/
def report (display : CaptureError → String) :
    Except (Stop CaptureError) (SortedMap SnapshotPath FileStamp) → Except WalkError Stamps
  | .ok state => .ok state.entries
  | .error (.error error) =>
    .error (if isDirtyScanLimit error then .entryLimit (display error) else .other (display error))
  | .error .unfinished => .error (.other "")

omit [DecidableEq ι] in
/-- A tree of any size leaves the run with a tracker, which defers the error of one that is too
large. -/
theorem Exact.new_isOk {result : Except (Stop CaptureError) (SortedMap SnapshotPath FileStamp)}
    (h : Exact g root paths maximumEntries result s) (display : CaptureError → String)
    (options : CheckpointOptions) (now : Nat) :
    (DirtyTracker.new options now (report display result)).isOk = true := by
  by_cases hfits : paths.card ≤ maximumEntries
  · obtain ⟨state, rfl⟩ := h.succeeds.mpr hfits
    rfl
  · obtain ⟨error, rfl, herror⟩ := h.recognized (Nat.lt_of_not_le hfits)
    rw [report, if_pos herror]
    rfl

/-- **The bounded walk.** On a finite tree that stands still, the walk succeeds exactly when there
are no more entries than its budget, and has one stamp of each; its map never holds more than the
budget; and when there are more entries, its error is recognized as the limit. -/
theorem workspaceStateBounded_exact {ι : Type} [DecidableEq ι] {w : Interference ι} (hw : Serves w)
    {g : Graph ι} {root : ι} {paths : Finset (List FileName)} (htree : StaticTree g root paths)
    (maximumEntries : Nat) (rootPath : Bytes) :
    ∃ enough, ∀ fuel, enough ≤ fuel → ∃ result s,
      exec (workspaceStateBounded w maximumEntries rootPath fuel root) (.start g) = (result, s)
        ∧ Exact g root paths maximumEntries result s := by
  -- fuel for the names of a directory, and for the depth of the tree
  refine ⟨paths.card + paths.sup List.length + 1, fun fuel hfuel => ?_⟩
  have hends : Ends (Walked g root maximumEntries ∅)
      (workspaceStateBounded w maximumEntries rootPath fuel root) _ :=
    ends_workspaceStateBounded hw htree (by omega) (by omega)
  have hbudget : Keeps (WithinBudget maximumEntries)
      (workspaceStateBounded w maximumEntries rootPath fuel root) := keeps_budget root
  have hlengths := (hbudget.state (withinBudget_start maximumEntries g)).2
  refine ⟨_, _, Prod.eta _, ?_⟩
  obtain ⟨hfits, hresult, hwalked⟩ | ⟨hmore, error, hresult, herror⟩ :=
    hends (.start g) walked_start
  · exact exact_of_walked htree hlengths hfits hresult hwalked
  · exact exact_of_limit hlengths hmore hresult herror

end Walks

namespace Sample

open Scan.Sample

/-- The paths of the sample workspace. -/
def paths : Finset (List FileName) := {[nameA], [nameA, nameX], [nameB], [nameB, nameY]}

theorem still_serves : Serves still where
  still _ := rfl
  answers _ := rfl
  enumerates := still_enumerates
  offers _ _ _ _ _ h := Or.inr (List.mem_of_find?_eq_some h)

/-- What the names lead to has the first of them in its directory. -/
theorem exists_of_leadsTo_cons {directory : Nat} {name : FileName} {rest : List FileName}
    (h : (leadsTo workspace directory (name :: rest)).isSome) :
    ∃ i, name ∈ workspace.names directory ∧ workspace.child? directory name.bytes = some i
      ∧ (leadsTo workspace i rest).isSome := by
  obtain ⟨inode, hinode⟩ := Option.isSome_iff_exists.mp h
  rw [← List.singleton_append, Scan.leadsTo_append, Scan.leadsTo_singleton] at hinode
  obtain ⟨i, hi, hrest⟩ := Option.bind_eq_some_iff.mp hinode
  exact ⟨i, Graph.mem_names_iff.mpr ⟨i, hi⟩, hi, by rw [hrest]; rfl⟩

/-- A directory of the sample holds one file. -/
theorem mem_paths_of_leadsTo {name file : FileName} {directory i : Nat} {rest : List FileName}
    (hname : [name] ∈ paths) (hfile : [name, file] ∈ paths) (hi : directory = i)
    (hnames : workspace.names directory = [file])
    (hleaf : ∀ inode, workspace.child? directory file.bytes = some inode →
      workspace.names inode = [])
    (hrest : (leadsTo workspace i rest).isSome) : name :: rest ∈ paths := by
  subst hi
  rcases rest with _ | ⟨name', rest⟩
  · exact hname
  · obtain ⟨inode, hname', hinode, hrest'⟩ := exists_of_leadsTo_cons hrest
    rw [hnames, List.mem_singleton] at hname'
    subst hname'
    rcases rest with _ | ⟨name'', rest⟩
    · exact hfile
    · obtain ⟨_, hname'', -, -⟩ := exists_of_leadsTo_cons hrest'
      rw [hleaf inode hinode] at hname''
      exact absurd hname'' List.not_mem_nil

theorem workspace_tree : StaticTree workspace 0 paths where
  directory := rfl
  mem_iff := by
    intro names
    constructor
    · intro hmem
      simp only [paths, Finset.mem_insert, Finset.mem_singleton] at hmem
      rcases hmem with rfl | rfl | rfl | rfl <;> exact ⟨by simp, by decide⟩
    · rintro ⟨hne, hsome⟩
      obtain ⟨name, rest, rfl⟩ := List.exists_cons_of_ne_nil hne
      obtain ⟨i, hname, hi, hrest⟩ := exists_of_leadsTo_cons hsome
      have hname : name ∈ [nameA, nameB] := hname
      simp only [List.mem_cons, List.not_mem_nil, or_false] at hname
      rcases hname with rfl | rfl
      · refine mem_paths_of_leadsTo (by decide) (by decide) (Option.some.inj hi) rfl ?_ hrest
        intro inode hinode
        obtain rfl := Option.some.inj hinode
        rfl
      · refine mem_paths_of_leadsTo (by decide) (by decide) (Option.some.inj hi) rfl ?_ hrest
        intro inode hinode
        obtain rfl := Option.some.inj hinode
        rfl
  valid := by
    intro names hmem
    simp only [paths, Finset.mem_insert, Finset.mem_singleton] at hmem
    rcases hmem with rfl | rfl | rfl | rfl
    · exact ⟨⟨[97], by decide +kernel, by decide +kernel⟩, rfl⟩
    · exact ⟨⟨[97, 47, 120], by decide +kernel, by decide +kernel⟩, rfl⟩
    · exact ⟨⟨[98], by decide +kernel, by decide +kernel⟩, rfl⟩
    · exact ⟨⟨[98, 47, 121], by decide +kernel, by decide +kernel⟩, rfl⟩
  target_lt := by
    intro names _ i target _ hdata
    rcases i with _ | _ | _ | i <;> exact absurd hdata (by simp [workspace])

end Sample

/-- A budget of three entries is too small for the four of the sample workspace. -/
theorem workspaceStateBounded_exact_sample : 3 < Sample.paths.card ∧ ∃ enough, ∀ fuel,
    enough ≤ fuel → ∃ result s,
      exec (workspaceStateBounded Scan.Sample.still 3 [47, 119] fuel 0)
        (.start Scan.Sample.workspace) = (result, s)
      ∧ Exact Scan.Sample.workspace 0 Sample.paths 3 result s :=
  ⟨by decide, workspaceStateBounded_exact Sample.still_serves Sample.workspace_tree 3 _⟩

end DirtyWalk

end Rewind

/-
Directories pinned by a descriptor.

A traversal opens each directory from the one above it, classifies the names in it without
following a link, and looks again at what it has read.

* `PinnedDirectory` and its operations, `readOpenRegularFile`, `readLinkAt` — call by call;
* `Passes` — what every call leaves as it was;
* `entriesBounded_ok`, `openDirectory_ok`, `readRegularFile_ok`, `readSymlink_ok` — what a result
  says about the moments of the history.
-/
import Rewind.Platform.Inodes

namespace Rewind

open Call

/-! ### Operations -/

/-- The metadata of an open inode but for its mode: what `read_open_regular_file` compares. -/
structure ContentStat (ι : Type) where
  inode : ι
  size : Nat
  times : InodeTimes
deriving DecidableEq

def EntryStat.content {ι : Type} (stat : EntryStat ι) : ContentStat ι :=
  ⟨stat.inode, stat.size, stat.times⟩

/-- One entry classified relative to a pinned directory descriptor. -/
structure DirectoryEntry (ι : Type) where
  name : FileName
  stat : EntryStat ι

/-- A directory pinned by an open descriptor, with its metadata when it was opened. -/
structure PinnedDirectory (ι : Type) where
  inode : ι
  path : Bytes
  before : EntryStat ι

/-- Bytes and mode read through a no-follow descriptor. -/
structure ReadFile where
  bytes : Bytes
  mode : UInt32

abbrev PinnedM (ι α : Type) := InodeM ι FileSystemError α

section Operations

variable {ι α : Type} [DecidableEq ι] (w : Interference ι) (fuel : Nat)

/-- `io_error`. -/
def inodeError (operation : String) (path : Bytes) (m : Call (InodeSystem ι) Errno α) :
    PinnedM ι α :=
  mapError (fun error => .error (.io operation path error)) m

/-- `changed_or_io`. -/
def inodeChanged (operation : String) (path : Bytes) (m : Call (InodeSystem ι) Errno α) :
    PinnedM ι α :=
  mapError
    (fun
      | .ENOENT | .ENOTDIR | .ELOOP | .EINVAL => .error (.changedDuringRead path)
      | error => .error (.io operation path error)) m

namespace Pinned

/-- A comparison that finds a change where `p` does not hold. -/
def unchanged (path : Bytes) (p : Prop) [Decidable p] : PinnedM ι Unit :=
  ofResult (ensure p (.error (.changedDuringRead path)))

/-- `verify_named_entry`. -/
def verifyNamedEntry (directory : ι) (name : FileName) (expected : EntryStat ι) (path : Bytes) :
    PinnedM ι Unit := do
  let current ← mapError (fun _ => .error (.changedDuringRead path))
    (fstatatEntry w directory name true)
  unchanged path (current = expected)

/-- The loop of `read_open_regular_file`. -/
def readChunks (inode : ι) (path : Bytes) : Nat → Nat → Bytes → PinnedM ι Bytes
  | 0, _, _ => throw .unfinished
  | fuel + 1, remaining, bytes =>
    if remaining = 0 then
      return bytes
    else do
      let chunk ← inodeError "read file" path
        (readFile w inode bytes.length (min remaining (64 * 1024)))
      if chunk = [] then return bytes
      else readChunks inode path fuel (remaining - chunk.length) (bytes ++ chunk)

/-- `read_open_regular_file`. -/
def readOpenRegularFile (inode : ι) (before : EntryStat ι) (maximum : UInt64) (path : Bytes) :
    PinnedM ι Bytes := do
  ofResult (ensure (before.kind = .file) (.error (.notRegularFile path)))
  ofResult (ensure (before.size ≤ maximum.toNat)
    (.error (.fileTooLarge path before.size maximum.toNat)))
  let bytes ← readChunks w inode path fuel (min (maximum.toNat + 1) (2 ^ 64 - 1)) []
  ofResult (ensure (bytes.length ≤ maximum.toNat)
    (.error (.fileTooLarge path bytes.length maximum.toNat)))
  let after ← inodeError "inspect read file" path (fstat w inode false)
  unchanged path (before.content = after.content ∧ after.size = bytes.length)
  return bytes

/-- The loop of `read_link_at`, with a buffer of `capacity` bytes. -/
def readLink (directory : ι) (name : FileName) (expected : EntryStat ι) (path : Bytes) :
    Nat → Nat → PinnedM ι Bytes
  | 0, _ => throw .unfinished
  | fuel + 1, capacity => do
    let target ← inodeChanged "read source symlink without following it" path
      (readlinkat w directory name capacity)
    if target.length < capacity then do
      let after ← mapError (fun _ => .error (.changedDuringRead path))
        (fstatatEntry w directory name true)
      unchanged path (expected = after)
      return target
    else if capacity = MAX_SYMLINK_TARGET_BYTES then
      throw (.error (.symlinkTargetTooLarge path MAX_SYMLINK_TARGET_BYTES))
    else
      readLink directory name expected path fuel (min (capacity * 2) MAX_SYMLINK_TARGET_BYTES)

/-- `read_link_at`. -/
def readLinkAt (directory : ι) (name : FileName) (expected : EntryStat ι) (path : Bytes) :
    PinnedM ι Bytes :=
  readLink w directory name expected path fuel
    (min (max (expected.size + 1) 256) MAX_SYMLINK_TARGET_BYTES)

end Pinned

open Pinned

namespace PinnedDirectory

variable (directory : PinnedDirectory ι)

/-- The path of a child. -/
def childPath (name : FileName) : Bytes := joinPath directory.path name.bytes

/-- `verify_unchanged`. -/
def verifyUnchanged : PinnedM ι Unit := do
  let actual ← inodeError "inspect open file" directory.path (fstat w directory.inode true)
  unchanged directory.path (actual.kind = .directory ∧ directory.before = actual)

/-- The loop of `entries_bounded` over the directory stream. -/
def classify (opened : List FileName) (maximum : Nat) :
    Nat → List (DirectoryEntry ι) → PinnedM ι (List (DirectoryEntry ι))
  | 0, _ => throw .unfinished
  | fuel + 1, entries => do
    match ← inodeError "read directory entry" directory.path
      (nextName w directory.inode opened (entries.map (·.name))) with
    | none => return entries
    | some name =>
      if entries.length = maximum then
        throw (.error (.directoryEntryLimit directory.path maximum))
      else do
        let stat ← inodeChanged "inspect directory entry" (directory.childPath name)
          (fstatatEntry w directory.inode name false)
        classify opened maximum fuel (entries ++ [⟨name, stat⟩])

/-- `entries_bounded`. -/
def entriesBounded (maximum : Nat) : PinnedM ι (List (DirectoryEntry ι)) := do
  directory.verifyUnchanged w
  let opened ← inodeError "open directory stream" directory.path (openStream w directory.inode)
  let entries ← directory.classify w opened maximum fuel []
  directory.verifyUnchanged w
  return entries.insertionSort fun left right => left.name.bytes ≤ right.name.bytes

/-- `entries`. -/
def entries : PinnedM ι (List (DirectoryEntry ι)) := directory.entriesBounded w fuel (2 ^ 64 - 1)

/-- `open_directory`. -/
def openDirectory (entry : DirectoryEntry ι) : PinnedM ι (PinnedDirectory ι) := do
  let path := directory.childPath entry.name
  unchanged path (entry.stat.kind = .directory)
  let inode ← inodeChanged "open directory entry" path
    (openDirectoryInode w directory.inode entry.name)
  let before ← inodeError "inspect open directory" path (fstat w inode false)
  unchanged path (entry.stat = before)
  return ⟨inode, path, before⟩

/-- `read_regular_file`. -/
def readRegularFile (entry : DirectoryEntry ι) (maximum : UInt64) : PinnedM ι ReadFile := do
  let path := directory.childPath entry.name
  ofResult (ensure (entry.stat.kind = .file) (.error (.notRegularFile path)))
  let inode ← inodeChanged "open regular file entry" path
    (openFileInode w directory.inode entry.name)
  let before ← inodeError "inspect open file" path (fstat w inode false)
  unchanged path (entry.stat = before)
  let bytes ← readOpenRegularFile w fuel inode before maximum path
  verifyNamedEntry w directory.inode entry.name before path
  return ⟨bytes, before.mode⟩

/-- `read_symlink`. -/
def readSymlink (entry : DirectoryEntry ι) : PinnedM ι Bytes := do
  let path := directory.childPath entry.name
  unchanged path (entry.stat.kind = .symlink)
  Pinned.readLinkAt w fuel directory.inode entry.name entry.stat path

/-- `verify_entry`. -/
def verifyEntry (entry : DirectoryEntry ι) : PinnedM ι Unit := do
  let path := directory.childPath entry.name
  let current ← inodeChanged "reinspect directory entry" path
    (fstatatEntry w directory.inode entry.name true)
  unchanged path (entry.stat = current)

end PinnedDirectory

/-- `DirectoryRoot::open` and `pinned_directory`, where the path leads to `root`. -/
def openRoot (root : ι) (path : Bytes) : PinnedM ι (PinnedDirectory ι) := do
  inodeError "open workspace root without following symlinks" path
    (look w .elsewhere fun _ g => ensure ((g root).data.kind = .directory) .ENOTDIR)
  let before ← inodeError "inspect open workspace root" path (fstat w root false)
  return ⟨root, path, before⟩

end Operations

/-! ### What every call leaves as it was -/

section Results

variable {ι α : Type}

/-- The file system is `g`, and has been all the time. -/
def InodeSystem.Constant (fs : InodeSystem ι) (g : Graph ι) : Prop :=
  fs.graph = g ∧ ∀ m ∈ fs.history, m.graph = g

theorem constant_start (g : Graph ι) : (InodeSystem.start g).Constant g := by
  refine ⟨rfl, fun m hm => ?_⟩
  rw [List.mem_singleton.mp hm]

/-- The inode is what it is now, and has been all the time. -/
def InodeSystem.Spared (fs : InodeSystem ι) (i : ι) (node : Inode ι) : Prop :=
  fs.graph i = node ∧ ∀ m ∈ fs.history, m.graph i = node

theorem InodeSystem.Spared.append {fs : InodeSystem ι} {i : ι} {node : Inode ι}
    (h : fs.Spared i node) {g : Graph ι} (hg : g i = fs.graph i) (call : Option (InodeCall ι))
    (tick : Nat) : InodeSystem.Spared ⟨g, tick, fs.history ++ [⟨g, call⟩]⟩ i node := by
  refine ⟨hg.trans h.1, fun m hm => ?_⟩
  rcases List.mem_append.mp hm with hbefore | hnew
  · exact h.2 m hbefore
  · rw [List.mem_singleton.mp hnew]
    exact hg.trans h.1

theorem InodeSystem.Spared.foldl_change {fs : InodeSystem ι} {i : ι} {node : Inode ι}
    (h : fs.Spared i node) {changes : List (Graph ι → Graph ι)}
    (hchanges : ∀ f ∈ changes, ∀ g : Graph ι, f g i = g i) :
    (changes.foldl InodeSystem.change fs).Spared i node := by
  induction changes generalizing fs with
  | nil => exact h
  | cons f rest ih =>
    obtain ⟨hf, hrest⟩ := List.forall_mem_cons.mp hchanges
    exact ih (h.append (hf fs.graph) none fs.tick) hrest

theorem InodeSystem.Spared.turn {w : Interference ι} {fs : InodeSystem ι} {i : ι} {node : Inode ι}
    (h : fs.Spared i node) (hw : w.Spares i) (call : InodeCall ι) :
    (fs.turn w call).Spared i node :=
  (h.foldl_change (hw fs.tick)).append rfl (some call) (fs.tick + 1)

theorem InodeSystem.Constant.at {fs : InodeSystem ι} {g g' : Graph ι} {k : Nat}
    {call : Option (InodeCall ι)} (h : fs.Constant g) (hat : fs.At k g' call) : g' = g :=
  h.2 _ hat.mem

/-- `fs'` comes after `fs` in a run of calls. -/
structure Passes (w : Interference ι) (fs fs' : InodeSystem ι) : Prop where
  follows : fs.Follows fs'
  timely : w.Advancing → fs.Timely → fs'.Timely
  spared : ∀ i, w.Spares i → ∀ node, fs.Spared i node → fs'.Spared i node

variable {w : Interference ι} {fs fs' : InodeSystem ι}

theorem Passes.refl (w : Interference ι) (fs : InodeSystem ι) : Passes w fs fs :=
  ⟨.refl fs, fun _ h => h, fun _ _ _ h => h⟩

theorem Passes.trans {fs₁ fs₂ fs₃ : InodeSystem ι} (h₁₂ : Passes w fs₁ fs₂)
    (h₂₃ : Passes w fs₂ fs₃) : Passes w fs₁ fs₃ where
  follows := h₁₂.follows.trans h₂₃.follows
  timely := fun hw h => h₂₃.timely hw (h₁₂.timely hw h)
  spared := fun i hw node h => h₂₃.spared i hw node (h₁₂.spared i hw node h)

/-- Where nobody else changes anything, all stays as it was. -/
theorem Passes.constant (h : Passes w fs fs') (hw : w.Still) (g : Graph ι) (hg : fs.Constant g) :
    fs'.Constant g := by
  have hspared : ∀ i, fs'.Spared i (g i) := by
    intro i
    refine h.spared i (fun tick change hchange => ?_) (g i)
      ⟨congrFun hg.1 i, fun m hm => congrFun (hg.2 m hm) i⟩
    rw [hw tick] at hchange
    exact absurd hchange List.not_mem_nil
  exact ⟨funext fun i => (hspared i).1, fun m hm => funext fun i => (hspared i).2 m hm⟩

theorem passes_turn (w : Interference ι) (call : InodeCall ι) (fs : InodeSystem ι) :
    Passes w fs (fs.turn w call) where
  follows := InodeSystem.follows_turn w call fs
  timely := fun hw h => h.turn hw call
  spared := fun _ hw _ h => h.turn hw call

/-- Between `fs` and `fs'`, `call` has met the file system `g` at the moment `k`. -/
structure Met (fs fs' : InodeSystem ι) (k : Nat) (g : Graph ι) (call : InodeCall ι) : Prop where
  start : fs.history.length ≤ k
  at' : fs'.At k g (some call)

theorem Met.lt {k : Nat} {g : Graph ι} {call : InodeCall ι} (h : Met fs fs' k g call) :
    k < fs'.history.length := h.at'.lt

theorem Met.mono {fs₀ fs₁ : InodeSystem ι} {k : Nat} {g : Graph ι} {call : InodeCall ι}
    (h : Met fs fs' k g call) (hbefore : fs₀.Follows fs) (hafter : fs'.Follows fs₁) :
    Met fs₀ fs₁ k g call :=
  ⟨hbefore.length_le.trans h.start, h.at'.mono hafter⟩

/-- A call that succeeds has met the file system. -/
theorem look_ok {call : InodeCall ι} {f : Nat → Graph ι → Except Errno α} {a : α}
    (h : exec (look w call f) fs = (.ok a, fs')) :
    Passes w fs fs' ∧ ∃ k g tick, Met fs fs' k g call ∧ f tick g = .ok a := by
  have hpair : (if w.fails fs.tick then .error Errno.EIO else f fs.tick (fs.turn w call).graph,
      fs.turn w call) = (.ok a, fs') := h
  obtain ⟨hresult, rfl⟩ := Prod.mk.inj hpair
  refine ⟨passes_turn w call fs, _, _, fs.tick,
    ⟨InodeSystem.length_lt_turn w call fs, InodeSystem.at_turn w call fs⟩, ?_⟩
  by_cases hfails : w.fails fs.tick = true
  · rw [if_pos hfails] at hresult
    exact absurd hresult (by simp)
  · rwa [if_neg hfails] at hresult

/-- A call moves on whether it succeeds or not. -/
theorem passes_look {call : InodeCall ι} {f : Nat → Graph ι → Except Errno α}
    {result : Except Errno α} (h : exec (look w call f) fs = (result, fs')) : Passes w fs fs' := by
  have hpair : (if w.fails fs.tick then .error Errno.EIO else f fs.tick (fs.turn w call).graph,
      fs.turn w call) = (result, fs') := h
  rw [← (Prod.mk.inj hpair).2]
  exact passes_turn w call fs

/-- An `fstat` finds the metadata of that moment. -/
theorem fstat_ok {inode : ι} {verifies : Bool} {stat : EntryStat ι}
    (h : exec (fstat w inode verifies) fs = (.ok stat, fs')) :
    Passes w fs fs' ∧ ∃ k g, Met fs fs' k g (.fstat inode verifies) ∧ g.stat inode = stat := by
  obtain ⟨hpasses, k, g, -, hmet, hstat⟩ := look_ok h
  exact ⟨hpasses, k, g, hmet, Except.ok.inj hstat⟩

/-- An `fstatat` finds what the name stands for at that moment. -/
theorem fstatatEntry_ok {directory : ι} {name : FileName} {verifies : Bool} {stat : EntryStat ι}
    (h : exec (fstatatEntry w directory name verifies) fs = (.ok stat, fs')) :
    Passes w fs fs' ∧ ∃ k g, Met fs fs' k g (.fstatat directory name verifies)
      ∧ g.child? directory name.bytes = some stat.inode ∧ g.stat stat.inode = stat := by
  obtain ⟨hpasses, k, g, -, hmet, hfound⟩ := look_ok h
  refine ⟨hpasses, k, g, hmet, ?_⟩
  rcases hentry : g.child? directory name.bytes with _ | i
  · rw [hentry] at hfound
    exact absurd hfound (by simp)
  · rw [hentry] at hfound
    obtain rfl := Except.ok.inj hfound
    exact ⟨rfl, rfl⟩

end Results

/-! ### What a result says -/

section Operations

variable {ι : Type} [DecidableEq ι] {w : Interference ι} {fs fs' : InodeSystem ι}

open Pinned

omit [DecidableEq ι] in
theorem unchanged_ok {path : Bytes} {p : Prop} [Decidable p]
    (h : exec (unchanged (ι := ι) path p) fs = (.ok (), fs')) : p ∧ fs' = fs := by
  obtain ⟨hensure, rfl⟩ := exec_ofResult_eq_ok_iff.mp h
  exact ⟨ensure_eq_ok_iff.mp hensure, rfl⟩

/-- An entry that has been verified is there, as it was. -/
theorem verifyNamedEntry_ok {directory : ι} {name : FileName} {expected : EntryStat ι}
    {path : Bytes} (h : exec (verifyNamedEntry w directory name expected path) fs = (.ok (), fs')) :
    Passes w fs fs' ∧ ∃ k g, Met fs fs' k g (.fstatat directory name true)
      ∧ g.child? directory name.bytes = some expected.inode
      ∧ g.stat expected.inode = expected := by
  obtain ⟨current, fs₁, hstat, h⟩ := exec_bind_eq_ok_iff.mp h
  obtain ⟨rfl, rfl⟩ := unchanged_ok h
  exact fstatatEntry_ok (exec_mapError_eq_ok_iff.mp hstat)

namespace PinnedDirectory

variable {directory : PinnedDirectory ι}

theorem verifyEntry_ok {entry : DirectoryEntry ι}
    (h : exec (directory.verifyEntry w entry) fs = (.ok (), fs')) :
    Passes w fs fs' ∧ ∃ k g, Met fs fs' k g (.fstatat directory.inode entry.name true)
      ∧ g.child? directory.inode entry.name.bytes = some entry.stat.inode
      ∧ g.stat entry.stat.inode = entry.stat := by
  obtain ⟨current, fs₁, hstat, h⟩ := exec_bind_eq_ok_iff.mp h
  obtain ⟨hsame, rfl⟩ := unchanged_ok h
  rw [hsame]
  exact fstatatEntry_ok (exec_mapError_eq_ok_iff.mp hstat)

theorem verifyUnchanged_ok (h : exec (directory.verifyUnchanged w) fs = (.ok (), fs')) :
    Passes w fs fs' ∧ ∃ k g, Met fs fs' k g (.fstat directory.inode true)
      ∧ g.stat directory.inode = directory.before ∧ directory.before.kind = .directory := by
  obtain ⟨actual, fs₁, hstat, h⟩ := exec_bind_eq_ok_iff.mp h
  obtain ⟨⟨hkind, rfl⟩, rfl⟩ := unchanged_ok h
  obtain ⟨hpasses, k, g, hmet, hstat⟩ := fstat_ok (exec_mapError_eq_ok_iff.mp hstat)
  exact ⟨hpasses, k, g, hmet, hstat, hkind⟩

omit [DecidableEq ι] in
/-- The names that the stream has returned have been classified, each once. -/
theorem classify_ok {opened : List FileName} {maximum fuel : Nat}
    {entries es : List (DirectoryEntry ι)}
    (h : exec (directory.classify w opened maximum fuel entries) fs = (.ok es, fs')) :
    Passes w fs fs'
      ∧ (∃ k g tick, Met fs fs' k g (.readdir directory.inode)
        ∧ w.nextName tick opened (g.names directory.inode) (es.map (·.name)) = none)
      ∧ (∀ e ∈ es, e ∈ entries ∨ ∃ k g, Met fs fs' k g (.fstatat directory.inode e.name false)
        ∧ g.child? directory.inode e.name.bytes = some e.stat.inode
        ∧ g.stat e.stat.inode = e.stat)
      ∧ (w.Enumerates → (entries.map (·.name)).Nodup → (es.map (·.name)).Nodup) := by
  induction fuel generalizing fs entries with
  | zero => exact absurd h (by simp [classify])
  | succ fuel ih =>
    obtain ⟨next, fs₁, hnext, h⟩ := exec_bind_eq_ok_iff.mp h
    obtain ⟨hpasses₁, k, g, tick, hmet, hlook⟩ := look_ok (exec_mapError_eq_ok_iff.mp hnext)
    obtain rfl := Except.ok.inj hlook
    rcases hname : w.nextName tick opened (g.names directory.inode) (entries.map (·.name))
      with _ | name
    · rw [hname] at h
      obtain ⟨hes, rfl⟩ := Prod.mk.inj h
      obtain rfl := Except.ok.inj hes
      exact ⟨hpasses₁, ⟨k, g, tick, hmet, hname⟩, fun e he => Or.inl he, fun _ hnodup => hnodup⟩
    · rw [hname] at h
      dsimp only at h
      by_cases hlimit : entries.length = maximum
      · rw [if_pos hlimit] at h
        exact absurd h (by simp)
      · rw [if_neg hlimit] at h
        obtain ⟨stat, fs₂, hstat, h⟩ := exec_bind_eq_ok_iff.mp h
        obtain ⟨hpasses₂, l, g', hmet', hentry, hsame⟩ :=
          fstatatEntry_ok (exec_mapError_eq_ok_iff.mp hstat)
        obtain ⟨hpasses₃, ⟨m, g'', tick', hend, hnone⟩, hfound, hnodup⟩ := ih h
        have hpasses₁₂ := hpasses₁.trans hpasses₂
        refine ⟨hpasses₁₂.trans hpasses₃,
          ⟨m, g'', tick', hend.mono hpasses₁₂.follows (.refl _), hnone⟩, fun e he => ?_, ?_⟩
        · rcases hfound e he with hbefore | ⟨n, g₃, hlater, hlater'⟩
          · rcases List.mem_append.mp hbefore with hold | hnew
            · exact Or.inl hold
            · obtain rfl := List.mem_singleton.mp hnew
              exact Or.inr ⟨l, g', hmet'.mono hpasses₁.follows hpasses₃.follows, hentry, hsame⟩
          · exact Or.inr ⟨n, g₃, hlater.mono hpasses₁₂.follows (.refl _), hlater'⟩
        · intro hw hentries
          refine hnodup hw ?_
          rw [List.map_append, List.nodup_append]
          refine ⟨hentries, List.nodup_singleton _, fun name' hold name'' hnew heq => ?_⟩
          obtain rfl := List.mem_singleton.mp hnew
          exact hw.once _ _ _ _ _ hname (heq ▸ hold)

end PinnedDirectory

/-- Between `fs` and `fs'`, an entry has been found under its name, without following it. -/
def Classified (fs fs' : InodeSystem ι) (directory : ι) (e : DirectoryEntry ι) : Prop :=
  ∃ k g, Met fs fs' k g (.fstatat directory e.name false)
    ∧ g.child? directory e.name.bytes = some e.stat.inode ∧ g.stat e.stat.inode = e.stat

omit [DecidableEq ι] in
theorem Classified.mono {fs₀ fs₁ : InodeSystem ι} {inode : ι} {e : DirectoryEntry ι}
    (h : Classified fs fs' inode e) (hbefore : fs₀.Follows fs) (hafter : fs'.Follows fs₁) :
    Classified fs₀ fs₁ inode e := by
  obtain ⟨k, g, hmet, hfound⟩ := h
  exact ⟨k, g, hmet.mono hbefore hafter, hfound⟩

/-- The entries of a directory that was the same while it was read. -/
structure Enumerated (fs : InodeSystem ι) (g : Graph ι) (directory : ι)
    (es : List (DirectoryEntry ι)) : Prop where
  names : ∀ name, name ∈ es.map (·.name) ↔ name ∈ g.names directory
  nodup : (es.map (·.name)).Nodup
  found : ∀ e ∈ es, g.child? directory e.name.bytes = some e.stat.inode
  seen : ∀ e ∈ es, ∃ k, Seen fs k e.stat

namespace PinnedDirectory

variable {directory : PinnedDirectory ι}

theorem classified_of_entriesBounded {maximum fuel : Nat} {es : List (DirectoryEntry ι)}
    (h : exec (directory.entriesBounded w fuel maximum) fs = (.ok es, fs')) :
    ∀ e ∈ es, Classified fs fs' directory.inode e := by
  obtain ⟨_, fs₁, hfirst, hrest⟩ := exec_bind_eq_ok_iff.mp h
  obtain ⟨opened, fs₂, hopened, hrest⟩ := exec_bind_eq_ok_iff.mp hrest
  obtain ⟨classified, fs₃, hclassified, hrest⟩ := exec_bind_eq_ok_iff.mp hrest
  obtain ⟨_, fs₄, hlast, hrest⟩ := exec_bind_eq_ok_iff.mp hrest
  obtain ⟨hes, hfs'⟩ := Prod.mk.inj hrest
  obtain rfl := Except.ok.inj hes
  subst hfs'
  have hpasses := (verifyUnchanged_ok hfirst).1.trans
    (look_ok (exec_mapError_eq_ok_iff.mp hopened)).1
  intro e he
  have hmem : e ∈ classified := (List.mem_insertionSort _).mp he
  rcases (classify_ok hclassified).2.2.1 e hmem with hempty | hfound
  · exact absurd hempty List.not_mem_nil
  · have hfound : Classified fs₂ fs₃ directory.inode e := hfound
    exact hfound.mono hpasses.follows (verifyUnchanged_ok hlast).1.follows

theorem entriesBounded_ok {maximum fuel : Nat} {es : List (DirectoryEntry ι)} (hw : w.Advancing)
    (henumerates : w.Enumerates) (htimely : fs.Timely)
    (h : exec (directory.entriesBounded w fuel maximum) fs = (.ok es, fs')) :
    Passes w fs fs' ∧ directory.before.kind = .directory
      ∧ ∃ k g, Met fs fs' k g (.fstat directory.inode true)
        ∧ g.stat directory.inode = directory.before ∧ Enumerated fs' g directory.inode es := by
  obtain ⟨_, fs₁, hfirst, h⟩ := exec_bind_eq_ok_iff.mp h
  obtain ⟨opened, fs₂, hopened, h⟩ := exec_bind_eq_ok_iff.mp h
  obtain ⟨classified, fs₃, hclassified, h⟩ := exec_bind_eq_ok_iff.mp h
  obtain ⟨_, fs₄, hlast, h⟩ := exec_bind_eq_ok_iff.mp h
  obtain ⟨hes, rfl⟩ := Prod.mk.inj h
  obtain rfl := Except.ok.inj hes
  obtain ⟨hpasses₁, k, g, hmet, hstat, hkind⟩ := verifyUnchanged_ok hfirst
  obtain ⟨hpasses₂, l, gₒ, -, hopen, hnames⟩ := look_ok (exec_mapError_eq_ok_iff.mp hopened)
  obtain rfl := Except.ok.inj hnames
  obtain ⟨hpasses₃, ⟨m, gₙ, tick, hend, hnone⟩, hfound, hnodup⟩ := classify_ok hclassified
  obtain ⟨hpasses₄, n, gₗ, hmetₗ, hstatₗ, -⟩ := verifyUnchanged_ok hlast
  have hpasses₁₂ := hpasses₁.trans hpasses₂
  have hpasses₂₄ := hpasses₂.trans (hpasses₃.trans hpasses₄)
  have hpasses := hpasses₁.trans hpasses₂₄
  -- The directory has the same metadata at both ends, so it is the same in between.
  have hsame : ∀ {j : Nat} {g' : Graph ι} {call : InodeCall ι}, Met fs₁ fs₃ j g' call →
      g' directory.inode = g directory.inode := by
    intro j g' call hbetween
    have htimes : (g directory.inode).times = (gₗ directory.inode).times :=
      congrArg EntryStat.times (hstat.trans hstatₗ.symm)
    refine graph_eq_of_times (hpasses.timely hw htimely) ?_ ?_ (hmet.at'.mono hpasses₂₄.follows)
      (hbetween.at'.mono hpasses₄.follows) hmetₗ.at' htimes
    · exact Nat.le_of_lt (hmet.lt.trans_le hbetween.start)
    · exact Nat.le_of_lt (hbetween.lt.trans_le hmetₗ.start)
  have hmem : ∀ {e}, e ∈ classified.insertionSort
      (fun left right => left.name.bytes ≤ right.name.bytes) ↔ e ∈ classified :=
    (List.perm_insertionSort _ classified).mem_iff
  have hclassify : ∀ e ∈ classified, g.child? directory.inode e.name.bytes = some e.stat.inode
      ∧ ∃ j, Seen fs₄ j e.stat := by
    intro e he
    rcases hfound e he with hempty | ⟨j, g', hbetween, hentry, hseen⟩
    · exact absurd hempty List.not_mem_nil
    · have hgraph := hsame (hbetween.mono hpasses₂.follows (.refl _))
      exact ⟨(Graph.child?_congr hgraph _).symm.trans hentry, j, g', some _,
        hbetween.at'.mono hpasses₄.follows, hseen⟩
  refine ⟨hpasses, hkind, k, g, hmet.mono (.refl _) hpasses₂₄.follows, hstat, ?_, ?_, ?_, ?_⟩
  · intro name
    rw [((List.perm_insertionSort _ classified).map _).mem_iff]
    constructor
    · intro hname
      obtain ⟨e, he, rfl⟩ := List.mem_map.mp hname
      exact Graph.mem_names_iff.mpr ⟨_, (hclassify e he).1⟩
    · intro hname
      have hbefore := hsame (hopen.mono (.refl _) hpasses₃.follows)
      have hafter := hsame (hend.mono hpasses₂.follows (.refl _))
      refine henumerates.complete tick _ _ _ hnone name ?_ ?_
      · rwa [Graph.names_congr hbefore]
      · rwa [Graph.names_congr hafter]
  · exact (((List.perm_insertionSort _ classified).map _).nodup_iff).mpr
      (hnodup henumerates List.nodup_nil)
  · exact fun e he => (hclassify e (hmem.mp he)).1
  · exact fun e he => (hclassify e (hmem.mp he)).2

/-- An opened directory is the one that was classified, and was found under its name. -/
theorem openDirectory_ok {entry : DirectoryEntry ι} {child : PinnedDirectory ι}
    (h : exec (directory.openDirectory w entry) fs = (.ok child, fs')) :
    Passes w fs fs' ∧ entry.stat.kind = .directory
      ∧ child = ⟨entry.stat.inode, directory.childPath entry.name, entry.stat⟩
      ∧ (∃ k g, Met fs fs' k g (.openat directory.inode entry.name)
        ∧ g.child? directory.inode entry.name.bytes = some entry.stat.inode
        ∧ (g entry.stat.inode).data.kind = .directory)
      ∧ ∃ k g, Met fs fs' k g (.fstat entry.stat.inode false)
        ∧ g.stat entry.stat.inode = entry.stat := by
  obtain ⟨_, fs₁, hchecked, hrest⟩ := exec_bind_eq_ok_iff.mp h
  obtain ⟨hkind, hfs₁⟩ := unchanged_ok hchecked
  obtain ⟨inode, fs₂, hopened, hrest⟩ := exec_bind_eq_ok_iff.mp hrest
  obtain ⟨before, fs₃, hbefore, hrest⟩ := exec_bind_eq_ok_iff.mp hrest
  obtain ⟨_, fs₄, hcompared, hrest⟩ := exec_bind_eq_ok_iff.mp hrest
  obtain ⟨hsame, hfs₄⟩ := unchanged_ok hcompared
  obtain ⟨hchild, hfs'⟩ := Prod.mk.inj hrest
  obtain rfl := Except.ok.inj hchild
  subst hfs₁ hfs₄ hfs'
  obtain ⟨hpasses₁, k₁, g₁, -, hmet₁, hfound⟩ := look_ok (exec_mapError_eq_ok_iff.mp hopened)
  obtain ⟨hpasses₂, k₂, g₂, hmet₂, hstat⟩ := fstat_ok (exec_mapError_eq_ok_iff.mp hbefore)
  -- The metadata names the inode, so the two are the same.
  obtain rfl : inode = before.inode := congrArg EntryStat.inode hstat
  rw [← hsame] at hstat hmet₂ hfound
  refine ⟨hpasses₁.trans hpasses₂, hkind, by rw [hsame],
    ⟨k₁, g₁, hmet₁.mono (.refl _) hpasses₂.follows, ?_⟩,
    ⟨k₂, g₂, hmet₂.mono hpasses₁.follows (.refl _), hstat⟩⟩
  rcases hopen : g₁.child? directory.inode entry.name.bytes with _ | i
  · rw [hopen] at hfound
    exact absurd hfound (by simp)
  · rw [hopen] at hfound
    dsimp only at hfound
    by_cases hdirectory : (g₁ i).data.kind = .directory
    · rw [if_pos hdirectory] at hfound
      obtain rfl := Except.ok.inj hfound
      exact ⟨rfl, hdirectory⟩
    · rw [if_neg hdirectory] at hfound
      exact absurd hfound (by simp)

end PinnedDirectory

/-- Between `fs` and `fs'`, `bytes` have been read of an open file, one chunk after the other. -/
inductive ReadFrom (fs fs' : InodeSystem ι) (inode : ι) : Bytes → Prop
  | nil : ReadFrom fs fs' inode []
  | chunk {bytes chunk content : Bytes} {k : Nat} {g : Graph ι}
      (hbytes : ReadFrom fs fs' inode bytes) (hmet : Met fs fs' k g (.read inode))
      (hcontent : (g inode).data = .file content) (hchunk : chunk <+: content.drop bytes.length) :
      ReadFrom fs fs' inode (bytes ++ chunk)

omit [DecidableEq ι] in
theorem ReadFrom.mono {fs₀ fs₁ : InodeSystem ι} {inode : ι} {bytes : Bytes}
    (h : ReadFrom fs fs' inode bytes) (hbefore : fs₀.Follows fs) (hafter : fs'.Follows fs₁) :
    ReadFrom fs₀ fs₁ inode bytes := by
  induction h with
  | nil => exact .nil
  | chunk _ hmet hcontent hchunk ih => exact ih.chunk (hmet.mono hbefore hafter) hcontent hchunk

omit [DecidableEq ι] in
/-- What is read of a file that does not change is its beginning. -/
theorem ReadFrom.isPrefix {inode : ι} {bytes content : Bytes} (h : ReadFrom fs fs' inode bytes)
    (hsame : ∀ k g, Met fs fs' k g (.read inode) → (g inode).data = .file content) :
    bytes <+: content := by
  induction h with
  | nil => exact List.nil_prefix
  | chunk _ hmet hcontent hchunk ih =>
    obtain rfl := InodeData.file.inj (hcontent.symm.trans (hsame _ _ hmet))
    obtain ⟨rest, rfl⟩ := ih
    rw [List.drop_left] at hchunk
    exact (List.prefix_append_right_inj _).mpr hchunk

omit [DecidableEq ι] in
theorem readChunks_ok {fs₀ : InodeSystem ι} {inode : ι} {path bytes₀ bytes : Bytes}
    {fuel remaining : Nat}
    (h : exec (readChunks w inode path fuel remaining bytes₀) fs = (.ok bytes, fs'))
    (hfollows : fs₀.Follows fs) (hbytes : ReadFrom fs₀ fs inode bytes₀) :
    Passes w fs fs' ∧ ReadFrom fs₀ fs' inode bytes := by
  induction fuel generalizing fs remaining bytes₀ with
  | zero => exact absurd h (by simp [readChunks])
  | succ fuel ih =>
    rw [readChunks] at h
    by_cases hdone : remaining = 0
    · rw [if_pos hdone] at h
      obtain ⟨hresult, rfl⟩ := Prod.mk.inj h
      obtain rfl := Except.ok.inj hresult
      exact ⟨.refl w _, hbytes⟩
    · rw [if_neg hdone] at h
      obtain ⟨chunk, fs₁, hread, hrest⟩ := exec_bind_eq_ok_iff.mp h
      obtain ⟨hpasses₁, k, g, tick, hmet, hchunk⟩ := look_ok (exec_mapError_eq_ok_iff.mp hread)
      have hbytes₁ := hbytes.mono (.refl _) hpasses₁.follows
      by_cases hempty : chunk = []
      · rw [if_pos hempty] at hrest
        obtain ⟨hresult, rfl⟩ := Prod.mk.inj hrest
        obtain rfl := Except.ok.inj hresult
        exact ⟨hpasses₁, hbytes₁⟩
      · rw [if_neg hempty] at hrest
        have hread : ReadFrom fs₀ fs₁ inode (bytes₀ ++ chunk) := by
          rcases hdata : (g inode).data with ⟨size, entries⟩ | content | target | _ <;>
            rw [hdata] at hchunk
          · exact absurd hchunk (by simp)
          · obtain rfl := Except.ok.inj hchunk
            exact hbytes₁.chunk (hmet.mono hfollows (.refl _)) hdata (List.take_prefix _ _)
          · exact absurd hchunk (by simp)
          · exact absurd hchunk (by simp)
        obtain ⟨hpasses₂, hlater⟩ := ih hrest (hfollows.trans hpasses₁.follows) hread
        exact ⟨hpasses₁.trans hpasses₂, hlater⟩

omit [DecidableEq ι] in
/-- Whatever is read of a file that nobody changes fits into its size. -/
theorem length_le_of_readChunks {inode : ι} {path bytes : Bytes} {fuel remaining : Nat}
    {g : Graph ι} (h : exec (readChunks w inode path fuel remaining []) fs = (.ok bytes, fs'))
    (hstill : w.Still) (hconstant : fs.Constant g) (hkind : (g inode).data.kind = .file) :
    bytes.length ≤ (g inode).data.size := by
  rcases hdata : (g inode).data with ⟨size, entries⟩ | content | target | _ <;> rw [hdata] at hkind
  · exact absurd hkind (by simp [InodeData.kind])
  · obtain ⟨hpasses, hread⟩ := readChunks_ok h (.refl _) .nil
    refine (hread.isPrefix fun k g' hmet => ?_).length_le
    rw [(hpasses.constant hstill g hconstant).at hmet.at']
    exact hdata
  · exact absurd hkind (by simp [InodeData.kind])
  · exact absurd hkind (by simp [InodeData.kind])

/-- A file that is read has the size that it had when it was opened. -/
theorem readOpenRegularFile_ok {inode : ι} {before : EntryStat ι} {maximum : UInt64}
    {path bytes : Bytes} {fuel : Nat}
    (h : exec (readOpenRegularFile w fuel inode before maximum path) fs = (.ok bytes, fs')) :
    Passes w fs fs' ∧ before.kind = .file ∧ before.size ≤ maximum.toNat
      ∧ bytes.length = before.size ∧ ReadFrom fs fs' inode bytes := by
  obtain ⟨_, fs₁, hchecked, hrest⟩ := exec_bind_eq_ok_iff.mp h
  obtain ⟨hkind, hfs₁⟩ := exec_ofResult_eq_ok_iff.mp hchecked
  obtain ⟨_, fs₂, hlimited, hrest⟩ := exec_bind_eq_ok_iff.mp hrest
  obtain ⟨hsize, hfs₂⟩ := exec_ofResult_eq_ok_iff.mp hlimited
  obtain ⟨read, fs₃, hread, hrest⟩ := exec_bind_eq_ok_iff.mp hrest
  obtain ⟨_, fs₄, hfits, hrest⟩ := exec_bind_eq_ok_iff.mp hrest
  obtain ⟨-, hfs₄⟩ := exec_ofResult_eq_ok_iff.mp hfits
  obtain ⟨after, fs₅, hafter, hrest⟩ := exec_bind_eq_ok_iff.mp hrest
  obtain ⟨_, fs₆, hcompared, hrest⟩ := exec_bind_eq_ok_iff.mp hrest
  obtain ⟨⟨hcontent, hlength⟩, hfs₆⟩ := unchanged_ok hcompared
  obtain ⟨hbytes, hfs'⟩ := Prod.mk.inj hrest
  obtain rfl := Except.ok.inj hbytes
  subst hfs₁ hfs₂ hfs₄ hfs₆ hfs'
  obtain ⟨hpasses₁, hfrom⟩ := readChunks_ok hread (.refl _) .nil
  obtain ⟨hpasses₂, -⟩ := fstat_ok (exec_mapError_eq_ok_iff.mp hafter)
  exact ⟨hpasses₁.trans hpasses₂, ensure_eq_ok_iff.mp hkind, ensure_eq_ok_iff.mp hsize,
    hlength.symm.trans (congrArg ContentStat.size hcontent).symm,
    hfrom.mono (.refl _) hpasses₂.follows⟩

/-- The error that makes a scan leave a file out. -/
def TooLarge : Stop FileSystemError → Prop
  | .error (.fileTooLarge ..) => True
  | _ => False

omit [DecidableEq ι] in
theorem inodeError_not_tooLarge {α : Type} {operation : String} {path : Bytes}
    {m : Call (InodeSystem ι) Errno α} {stop : Stop FileSystemError}
    (h : exec (inodeError operation path m) fs = (.error stop, fs')) : ¬ TooLarge stop := by
  obtain ⟨error, -, rfl⟩ := exec_mapError_eq_error_iff.mp h
  exact not_false

omit [DecidableEq ι] in
theorem inodeChanged_not_tooLarge {α : Type} {operation : String} {path : Bytes}
    {m : Call (InodeSystem ι) Errno α} {stop : Stop FileSystemError}
    (h : exec (inodeChanged operation path m) fs = (.error stop, fs')) : ¬ TooLarge stop := by
  obtain ⟨error, -, rfl⟩ := exec_mapError_eq_error_iff.mp h
  cases error <;> exact not_false

omit [DecidableEq ι] in
theorem unchanged_not_tooLarge {path : Bytes} {p : Prop} [Decidable p]
    {stop : Stop FileSystemError}
    (h : exec (unchanged (ι := ι) path p) fs = (.error stop, fs')) : ¬ TooLarge stop := by
  obtain ⟨herror, -⟩ := exec_ofResult_eq_error_iff.mp h
  rw [← (ensure_eq_error_iff.mp herror).2]
  exact not_false

omit [DecidableEq ι] in
theorem readChunks_not_tooLarge {inode : ι} {path bytes : Bytes} {fuel remaining : Nat}
    {stop : Stop FileSystemError}
    (h : exec (readChunks w inode path fuel remaining bytes) fs = (.error stop, fs')) :
    ¬ TooLarge stop := by
  induction fuel generalizing fs remaining bytes with
  | zero =>
    obtain ⟨hstop, -⟩ := Prod.mk.inj h
    rw [← Except.error.inj hstop]
    exact not_false
  | succ fuel ih =>
    rw [readChunks] at h
    by_cases hdone : remaining = 0
    · rw [if_pos hdone] at h
      exact absurd h (by simp)
    · rw [if_neg hdone] at h
      rcases exec_bind_eq_error_iff.mp h with hread | ⟨chunk, fs₁, -, hrest⟩
      · exact inodeError_not_tooLarge hread
      · by_cases hempty : chunk = []
        · rw [if_pos hempty] at hrest
          exact absurd hrest (by simp)
        · rw [if_neg hempty] at hrest
          exact ih hrest

/-- A file that is too large was so when it was classified, or others have made it grow. -/
theorem readOpenRegularFile_tooLarge {inode : ι} {before : EntryStat ι} {maximum : UInt64}
    {path p : Bytes} {fuel actual m : Nat}
    (h : exec (readOpenRegularFile w fuel inode before maximum path) fs
      = (.error (.error (.fileTooLarge p actual m)), fs')) :
    Passes w fs fs' ∧ before.kind = .file ∧ m = maximum.toNat
      ∧ ((actual = before.size ∧ maximum.toNat < before.size)
        ∨ ∀ g, w.Still → fs.Constant g → g.stat inode = before → False) := by
  rcases exec_bind_eq_error_iff.mp h with hnotFile | ⟨_, fs₁, hchecked, hrest⟩
  · obtain ⟨herror, -⟩ := exec_ofResult_eq_error_iff.mp hnotFile
    exact absurd (ensure_eq_error_iff.mp herror).2 (by simp)
  obtain ⟨hkind, hfs₁⟩ := exec_ofResult_eq_ok_iff.mp hchecked
  have hkind := ensure_eq_ok_iff.mp hkind
  subst hfs₁
  rcases exec_bind_eq_error_iff.mp hrest with hlarge | ⟨_, fs₂, hlimited, hrest₁⟩
  · obtain ⟨herror, rfl⟩ := exec_ofResult_eq_error_iff.mp hlarge
    obtain ⟨hsize, heq⟩ := ensure_eq_error_iff.mp herror
    cases heq
    exact ⟨.refl w _, hkind, rfl, Or.inl ⟨rfl, Nat.lt_of_not_le hsize⟩⟩
  obtain ⟨hsize, hfs₂⟩ := exec_ofResult_eq_ok_iff.mp hlimited
  have hsize := ensure_eq_ok_iff.mp hsize
  subst hfs₂
  rcases exec_bind_eq_error_iff.mp hrest₁ with hstopped | ⟨bytes, fs₃, hread, hrest₂⟩
  · exact absurd trivial (readChunks_not_tooLarge hstopped)
  rcases exec_bind_eq_error_iff.mp hrest₂ with hgrown | ⟨_, fs₄, hfits, hrest₃⟩
  · obtain ⟨herror, rfl⟩ := exec_ofResult_eq_error_iff.mp hgrown
    obtain ⟨hlength, heq⟩ := ensure_eq_error_iff.mp herror
    cases heq
    refine ⟨(readChunks_ok hread (.refl _) .nil).1, hkind, rfl,
      Or.inr fun g hstill hconstant hstat => ?_⟩
    -- A file that nobody changes is not longer than its size.
    have hdata : (g inode).data.kind = .file := (congrArg EntryStat.kind hstat).trans hkind
    have hle := length_le_of_readChunks hread hstill hconstant hdata
    have heq : (g inode).data.size = before.size := congrArg EntryStat.size hstat
    omega
  rcases exec_bind_eq_error_iff.mp hrest₃ with hfailed | ⟨after, fs₅, -, hrest₄⟩
  · exact absurd trivial (inodeError_not_tooLarge hfailed)
  rcases exec_bind_eq_error_iff.mp hrest₄ with hchanged | ⟨_, fs₆, -, hrest₅⟩
  · exact absurd trivial (unchanged_not_tooLarge hchanged)
  · exact absurd hrest₅ (by simp)

/-- A file has been opened by its name, read, and found again under its name. -/
structure FileRead (fs fs' : InodeSystem ι) (directory : ι) (entry : DirectoryEntry ι)
    (maximum : UInt64) (read : ReadFile) : Prop where
  kind : entry.stat.kind = .file
  mode : read.mode = entry.stat.mode
  length : read.bytes.length = entry.stat.size
  size : entry.stat.size ≤ maximum.toNat
  opened : ∃ k g, Met fs fs' k g (.openat directory entry.name)
    ∧ g.child? directory entry.name.bytes = some entry.stat.inode
    ∧ (g entry.stat.inode).data.kind ≠ .symlink
  inspected : ∃ k g, Met fs fs' k g (.fstat entry.stat.inode false)
    ∧ g.stat entry.stat.inode = entry.stat
  /-- The name is verified after the last read. -/
  verified : ∃ fs₁ k g, ReadFrom fs fs₁ entry.stat.inode read.bytes ∧ fs.Follows fs₁
    ∧ fs₁.Follows fs'
    ∧ Met fs₁ fs' k g (.fstatat directory entry.name true)
    ∧ g.child? directory entry.name.bytes = some entry.stat.inode
    ∧ g.stat entry.stat.inode = entry.stat

namespace PinnedDirectory

variable {directory : PinnedDirectory ι}

theorem readRegularFile_ok {entry : DirectoryEntry ι} {maximum : UInt64} {fuel : Nat}
    {read : ReadFile}
    (h : exec (directory.readRegularFile w fuel entry maximum) fs = (.ok read, fs')) :
    Passes w fs fs' ∧ FileRead fs fs' directory.inode entry maximum read := by
  obtain ⟨_, fs₁, hchecked, hrest⟩ := exec_bind_eq_ok_iff.mp h
  obtain ⟨-, hfs₁⟩ := exec_ofResult_eq_ok_iff.mp hchecked
  obtain ⟨inode, fs₂, hopened, hrest⟩ := exec_bind_eq_ok_iff.mp hrest
  obtain ⟨before, fs₃, hbefore, hrest⟩ := exec_bind_eq_ok_iff.mp hrest
  obtain ⟨_, fs₄, hcompared, hrest⟩ := exec_bind_eq_ok_iff.mp hrest
  obtain ⟨hsame, hfs₄⟩ := unchanged_ok hcompared
  obtain ⟨bytes, fs₅, hread, hrest⟩ := exec_bind_eq_ok_iff.mp hrest
  obtain ⟨_, fs₆, hverified, hrest⟩ := exec_bind_eq_ok_iff.mp hrest
  obtain ⟨hresult, hfs'⟩ := Prod.mk.inj hrest
  obtain rfl := Except.ok.inj hresult
  subst hfs₁ hfs₄ hfs'
  obtain ⟨hpasses₁, k₁, g₁, -, hmet₁, hfound⟩ := look_ok (exec_mapError_eq_ok_iff.mp hopened)
  obtain ⟨hpasses₂, k₂, g₂, hmet₂, hstat⟩ := fstat_ok (exec_mapError_eq_ok_iff.mp hbefore)
  obtain rfl : inode = before.inode := congrArg EntryStat.inode hstat
  obtain ⟨hpasses₃, hkind, hsize, hlength, hfrom⟩ := readOpenRegularFile_ok hread
  obtain ⟨hpasses₄, k₃, g₃, hmet₃, hentry, hlast⟩ := verifyNamedEntry_ok hverified
  rw [← hsame] at hkind hsize hlength hfrom hentry hlast hstat hmet₂ hfound
  have hpasses₁₂ := hpasses₁.trans hpasses₂
  have hpasses₃₄ := hpasses₃.trans hpasses₄
  refine ⟨hpasses₁₂.trans hpasses₃₄, hkind, congrArg EntryStat.mode hsame.symm, hlength, hsize,
    ⟨k₁, g₁, hmet₁.mono (.refl _) (hpasses₂.trans hpasses₃₄).follows, ?_⟩,
    ⟨k₂, g₂, hmet₂.mono hpasses₁.follows hpasses₃₄.follows, hstat⟩,
    ⟨_, k₃, g₃, hfrom.mono hpasses₁₂.follows (.refl _), (hpasses₁₂.trans hpasses₃).follows,
      hpasses₄.follows, hmet₃, hentry, hlast⟩⟩
  rcases hopen : g₁.child? directory.inode entry.name.bytes with _ | i
  · rw [hopen] at hfound
    exact absurd hfound (by simp)
  · rw [hopen] at hfound
    dsimp only at hfound
    by_cases hlink : (g₁ i).data.kind = .symlink
    · rw [if_pos hlink] at hfound
      exact absurd hfound (by simp)
    · rw [if_neg hlink] at hfound
      obtain rfl := Except.ok.inj hfound
      exact ⟨rfl, hlink⟩

end PinnedDirectory

omit [DecidableEq ι] in
/-- The content of a file that has been read is what it was all the time from its classification
to its verification. -/
theorem FileRead.content {directory : ι} {entry : DirectoryEntry ι} {maximum : UInt64}
    {read : ReadFile} {o : Nat} (h : FileRead fs fs' directory entry maximum read)
    (htimely : fs'.Timely) (hseen : Seen fs o entry.stat) :
    ∃ k g, Met fs fs' k g (.fstatat directory entry.name true)
      ∧ g.child? directory entry.name.bytes = some entry.stat.inode
      ∧ g.stat entry.stat.inode = entry.stat
      ∧ (g entry.stat.inode).data = .file read.bytes := by
  obtain ⟨fs₁, k, g, hfrom, hfollows, hfollows₁, hmet, hentry, hlast⟩ := h.verified
  refine ⟨k, g, hmet.mono hfollows (.refl _), hentry, hlast, ?_⟩
  have hfile : (g entry.stat.inode).data.kind = .file :=
    (congrArg EntryStat.kind hlast).trans h.kind
  have hsize : (g entry.stat.inode).data.size = entry.stat.size := congrArg EntryStat.size hlast
  rcases hdata : (g entry.stat.inode).data with ⟨size, entries⟩ | content | target | _ <;>
    rw [hdata] at hfile hsize
  · exact absurd hfile (by simp [InodeData.kind])
  · -- The file is the same at its classification, in every read and at its verification.
    obtain ⟨g₀, call, hat, hstat⟩ := hseen
    have hinitial : read.bytes <+: content := hfrom.isPrefix fun l g' hbetween => by
      have htimes : (g₀ entry.stat.inode).times = (g entry.stat.inode).times :=
        congrArg EntryStat.times (hstat.trans hlast.symm)
      have hle₁ : o ≤ l := Nat.le_of_lt (hat.lt.trans_le hbetween.start)
      have hle₂ : l ≤ k := Nat.le_of_lt (hbetween.lt.trans_le hmet.start)
      have hat' := hat.mono (hfollows.trans hfollows₁)
      have hread := graph_eq_of_times htimely hle₁ hle₂ hat' (hbetween.at'.mono hfollows₁)
        hmet.at' htimes
      have hverified := graph_eq_of_times htimely (hle₁.trans hle₂) (le_refl k) hat' hmet.at'
        hmet.at' htimes
      rw [hread, ← hverified, hdata]
    rw [List.IsPrefix.eq_of_length hinitial (h.length.trans hsize.symm)]
  · exact absurd hfile (by simp [InodeData.kind])
  · exact absurd hfile (by simp [InodeData.kind])

namespace PinnedDirectory

variable {directory : PinnedDirectory ι}

/-- A file that is left out was too large when it was classified, or others have made it grow. -/
theorem readRegularFile_tooLarge {entry : DirectoryEntry ι} {maximum : UInt64} {p : Bytes}
    {fuel actual m : Nat}
    (h : exec (directory.readRegularFile w fuel entry maximum) fs
      = (.error (.error (.fileTooLarge p actual m)), fs')) :
    Passes w fs fs' ∧ entry.stat.kind = .file ∧ m = maximum.toNat
      ∧ ((actual = entry.stat.size ∧ maximum.toNat < entry.stat.size)
        ∨ ∀ g, w.Still → fs.Constant g → False) := by
  rcases exec_bind_eq_error_iff.mp h with hnotFile | ⟨_, fs₁, hchecked, hrest⟩
  · obtain ⟨herror, -⟩ := exec_ofResult_eq_error_iff.mp hnotFile
    exact absurd (ensure_eq_error_iff.mp herror).2 (by simp)
  obtain ⟨-, hfs₁⟩ := exec_ofResult_eq_ok_iff.mp hchecked
  subst hfs₁
  rcases exec_bind_eq_error_iff.mp hrest with hfailed | ⟨inode, fs₂, hopened, hrest₁⟩
  · exact absurd trivial (inodeChanged_not_tooLarge hfailed)
  rcases exec_bind_eq_error_iff.mp hrest₁ with hfailed | ⟨before, fs₃, hbefore, hrest₂⟩
  · exact absurd trivial (inodeError_not_tooLarge hfailed)
  rcases exec_bind_eq_error_iff.mp hrest₂ with hchanged | ⟨_, fs₄, hcompared, hrest₃⟩
  · exact absurd trivial (unchanged_not_tooLarge hchanged)
  obtain ⟨hsame, hfs₄⟩ := unchanged_ok hcompared
  subst hfs₄
  rcases exec_bind_eq_error_iff.mp hrest₃ with hlarge | ⟨bytes, fs₅, -, hrest₄⟩
  · obtain ⟨hpasses₁, -⟩ := look_ok (exec_mapError_eq_ok_iff.mp hopened)
    obtain ⟨hpasses₂, k, g', hmet, hstat⟩ := fstat_ok (exec_mapError_eq_ok_iff.mp hbefore)
    obtain ⟨hpasses₃, hkind, hm, hor⟩ := readOpenRegularFile_tooLarge hlarge
    have hpasses₁₂ := hpasses₁.trans hpasses₂
    rw [← hsame] at hkind hor
    refine ⟨hpasses₁₂.trans hpasses₃, hkind, hm, hor.imp_right fun hgrown g hstill hconstant => ?_⟩
    have hconstant' := hpasses₁₂.constant hstill g hconstant
    refine hgrown g hstill hconstant' ?_
    rw [← hconstant'.at hmet.at', hstat, hsame]
  · rcases exec_bind_eq_error_iff.mp hrest₄ with hnamed | ⟨_, fs₆, -, hrest₅⟩
    · rcases exec_bind_eq_error_iff.mp hnamed with hgone | ⟨current, fs₇, -, hcompared⟩
      · obtain ⟨error, -, heq⟩ := exec_mapError_eq_error_iff.mp hgone
        exact absurd heq (by simp)
      · exact absurd trivial (unchanged_not_tooLarge hcompared)
    · exact absurd hrest₅ (by simp)

end PinnedDirectory

/-- The target of a link that has been read, and the link when it is verified. -/
theorem readLink_ok {directory : ι} {name : FileName} {expected : EntryStat ι}
    {path target : Bytes} {fuel capacity : Nat}
    (h : exec (readLink w directory name expected path fuel capacity) fs = (.ok target, fs')) :
    Passes w fs fs' ∧ ∃ j k g i g', j ≤ k
      ∧ (Met fs fs' j g (.readlinkat directory name)
        ∧ g.child? directory name.bytes = some i ∧ (g i).data = .symlink target)
      ∧ Met fs fs' k g' (.fstatat directory name true)
        ∧ g'.child? directory name.bytes = some expected.inode
        ∧ g'.stat expected.inode = expected := by
  induction fuel generalizing fs capacity with
  | zero => exact absurd h (by simp [readLink])
  | succ fuel ih =>
    obtain ⟨read, fs₁, hread, hrest⟩ := exec_bind_eq_ok_iff.mp h
    obtain ⟨hpasses₁, j, g, -, hmet, hfound⟩ := look_ok (exec_mapError_eq_ok_iff.mp hread)
    by_cases hshort : read.length < capacity
    · rw [if_pos hshort] at hrest
      obtain ⟨after, fs₂, hafter, hrest⟩ := exec_bind_eq_ok_iff.mp hrest
      obtain ⟨_, fs₃, hcompared, hrest⟩ := exec_bind_eq_ok_iff.mp hrest
      obtain ⟨hsame, hfs₃⟩ := unchanged_ok hcompared
      obtain ⟨hresult, hfs'⟩ := Prod.mk.inj hrest
      obtain rfl := Except.ok.inj hresult
      subst hfs₃ hfs'
      obtain ⟨hpasses₂, k, g', hmet', hstat⟩ := fstatatEntry_ok (exec_mapError_eq_ok_iff.mp hafter)
      rw [← hsame] at hstat
      refine ⟨hpasses₁.trans hpasses₂, ?_⟩
      rcases hentry : g.child? directory name.bytes with _ | i
      · rw [hentry] at hfound
        exact absurd hfound (by simp)
      · rw [hentry] at hfound
        refine ⟨j, k, g, i, g', Nat.le_of_lt (hmet.lt.trans_le hmet'.start),
          ⟨hmet.mono (.refl _) hpasses₂.follows, hentry, ?_⟩,
          hmet'.mono hpasses₁.follows (.refl _), hstat⟩
        dsimp only at hfound
        rcases hdata : (g i).data with ⟨size, entries⟩ | content | target | _ <;>
          rw [hdata] at hfound
        · exact absurd hfound (by simp)
        · exact absurd hfound (by simp)
        · obtain rfl := Except.ok.inj hfound
          -- A target that does not fill the buffer has not been cut.
          rw [List.take_of_length_le (by rw [List.length_take] at hshort; omega)]
        · exact absurd hfound (by simp)
    · rw [if_neg hshort] at hrest
      by_cases hmaximum : capacity = MAX_SYMLINK_TARGET_BYTES
      · rw [if_pos hmaximum] at hrest
        exact absurd hrest (by simp)
      · rw [if_neg hmaximum] at hrest
        obtain ⟨hpasses₂, l, k, g₁, i, g₂, hlk, ⟨hmet₁, hlink⟩, hmet₂, hlast⟩ := ih hrest
        exact ⟨hpasses₁.trans hpasses₂, l, k, g₁, i, g₂, hlk,
          ⟨hmet₁.mono hpasses₁.follows (.refl _), hlink⟩,
          hmet₂.mono hpasses₁.follows (.refl _), hlast⟩

theorem PinnedDirectory.readSymlink_ok {directory : PinnedDirectory ι} {entry : DirectoryEntry ι}
    {target : Bytes} {fuel : Nat}
    (h : exec (directory.readSymlink w fuel entry) fs = (.ok target, fs')) :
    Passes w fs fs' ∧ entry.stat.kind = .symlink ∧ ∃ j k g i g', j ≤ k
      ∧ (Met fs fs' j g (.readlinkat directory.inode entry.name)
        ∧ g.child? directory.inode entry.name.bytes = some i ∧ (g i).data = .symlink target)
      ∧ Met fs fs' k g' (.fstatat directory.inode entry.name true)
        ∧ g'.child? directory.inode entry.name.bytes = some entry.stat.inode
        ∧ g'.stat entry.stat.inode = entry.stat := by
  obtain ⟨_, fs₁, hchecked, hrest⟩ := exec_bind_eq_ok_iff.mp h
  obtain ⟨hkind, hfs₁⟩ := unchanged_ok hchecked
  subst hfs₁
  obtain ⟨hpasses, hread⟩ := readLink_ok hrest
  exact ⟨hpasses, hkind, hread⟩

omit [DecidableEq ι] in
/-- The root that has been opened. -/
theorem openRoot_ok {root : ι} {path : Bytes} {directory : PinnedDirectory ι}
    (h : exec (openRoot w root path) fs = (.ok directory, fs')) :
    Passes w fs fs' ∧ directory.inode = root ∧ directory.before.inode = root
      ∧ ∃ o, Seen fs' o directory.before := by
  obtain ⟨_, fs₁, hopened, hrest⟩ := exec_bind_eq_ok_iff.mp h
  obtain ⟨before, fs₂, hbefore, hrest⟩ := exec_bind_eq_ok_iff.mp hrest
  obtain ⟨hresult, hfs'⟩ := Prod.mk.inj hrest
  obtain rfl := Except.ok.inj hresult
  subst hfs'
  obtain ⟨hpasses₁, -⟩ := look_ok (exec_mapError_eq_ok_iff.mp hopened)
  obtain ⟨hpasses₂, k, g, hmet, hstat⟩ := fstat_ok (exec_mapError_eq_ok_iff.mp hbefore)
  obtain rfl : root = before.inode := congrArg EntryStat.inode hstat
  exact ⟨hpasses₁.trans hpasses₂, rfl, rfl, k, g, _, hmet.at', hstat⟩

end Operations

/-! ### Calls move on -/

section Moves

variable {ι ε ε' α β : Type} {w : Interference ι}

/-- Whatever the call returns, it only moves on in the history. -/
def Moves (w : Interference ι) (m : Call (InodeSystem ι) ε α) : Prop :=
  ∀ fs₀, Keeps (Passes w fs₀) m

theorem Moves.passes {m : Call (InodeSystem ι) ε α} (h : Moves w m) (fs : InodeSystem ι) :
    Passes w fs (exec m fs).2 := (h fs).state (.refl w fs)

theorem moves_look (call : InodeCall ι) (f : Nat → Graph ι → Except Errno α) :
    Moves w (look w call f) := by
  intro fs₀ fs hfs
  rcases hexec : exec (look w call f) fs with ⟨e | a, fs'⟩
  · exact hfs.trans (passes_look hexec)
  · exact hfs.trans (passes_look hexec)

theorem moves_pure (a : α) : Moves w (pure a : Call (InodeSystem ι) ε α) := fun _ => keeps_pure a

theorem moves_throw (e : ε) : Moves w (throw e : Call (InodeSystem ι) ε α) :=
  fun _ => keeps_throw e

theorem moves_ofResult (result : Except ε α) :
    Moves w (ofResult result : Call (InodeSystem ι) ε α) := fun _ => keeps_ofResult result

theorem Moves.mapError {m : Call (InodeSystem ι) ε α} (h : Moves w m) (f : ε → ε') :
    Moves w (mapError f m) := fun fs₀ => keeps_mapError (h fs₀)

theorem Moves.bind {m : Call (InodeSystem ι) ε α} {f : α → Call (InodeSystem ι) ε β}
    (hm : Moves w m) (hf : ∀ a, Moves w (f a)) : Moves w (m >>= f) :=
  fun fs₀ => keeps_bind (hm fs₀) fun a => hf a fs₀

theorem moves_ite {p : Prop} [Decidable p] {m n : Call (InodeSystem ι) ε α} (hm : Moves w m)
    (hn : Moves w n) : Moves w (if p then m else n) := by
  by_cases h : p
  · rwa [if_pos h]
  · rwa [if_neg h]

open Pinned

theorem moves_unchanged (path : Bytes) (p : Prop) [Decidable p] :
    Moves w (unchanged (ι := ι) path p) := moves_ofResult _

theorem moves_fstat (inode : ι) (verifies : Bool) : Moves w (fstat w inode verifies) :=
  moves_look _ _

theorem moves_fstatatEntry (directory : ι) (name : FileName) (verifies : Bool) :
    Moves w (fstatatEntry w directory name verifies) := moves_look _ _

theorem moves_readChunks (inode : ι) (path : Bytes) (fuel remaining : Nat) (bytes : Bytes) :
    Moves w (readChunks w inode path fuel remaining bytes) := by
  induction fuel generalizing remaining bytes with
  | zero => exact moves_throw _
  | succ fuel ih =>
    refine moves_ite (moves_pure _) (Moves.bind ((moves_look _ _).mapError _) fun chunk => ?_)
    exact moves_ite (moves_pure _) (ih _ _)

variable [DecidableEq ι]

theorem moves_readOpenRegularFile (fuel : Nat) (inode : ι) (before : EntryStat ι)
    (maximum : UInt64) (path : Bytes) :
    Moves w (readOpenRegularFile w fuel inode before maximum path) := by
  refine (moves_ofResult _).bind fun _ => (moves_ofResult _).bind fun _ => ?_
  refine (moves_readChunks _ _ _ _ _).bind fun _ => (moves_ofResult _).bind fun _ => ?_
  refine ((moves_fstat _ _).mapError _).bind fun _ => ?_
  exact (moves_unchanged _ _).bind fun _ => moves_pure _

theorem moves_verifyNamedEntry (directory : ι) (name : FileName) (expected : EntryStat ι)
    (path : Bytes) : Moves w (verifyNamedEntry w directory name expected path) :=
  ((moves_fstatatEntry _ _ _).mapError _).bind fun _ => moves_unchanged _ _

theorem moves_readLink (directory : ι) (name : FileName) (expected : EntryStat ι) (path : Bytes)
    (fuel capacity : Nat) : Moves w (readLink w directory name expected path fuel capacity) := by
  induction fuel generalizing capacity with
  | zero => exact moves_throw _
  | succ fuel ih =>
    refine ((moves_look _ _).mapError _).bind fun target => moves_ite ?_ ?_
    · refine ((moves_fstatatEntry _ _ _).mapError _).bind fun _ => ?_
      exact (moves_unchanged _ _).bind fun _ => moves_pure _
    · exact moves_ite (moves_throw _) (ih _)

namespace PinnedDirectory

variable (directory : PinnedDirectory ι)

theorem moves_verifyUnchanged : Moves w (directory.verifyUnchanged w) :=
  ((moves_fstat _ _).mapError _).bind fun _ => moves_unchanged _ _

theorem moves_verifyEntry (entry : DirectoryEntry ι) : Moves w (directory.verifyEntry w entry) :=
  ((moves_fstatatEntry _ _ _).mapError _).bind fun _ => moves_unchanged _ _

omit [DecidableEq ι] in
theorem moves_classify (opened : List FileName) (maximum fuel : Nat)
    (entries : List (DirectoryEntry ι)) :
    Moves w (directory.classify w opened maximum fuel entries) := by
  induction fuel generalizing entries with
  | zero => exact moves_throw _
  | succ fuel ih =>
    refine ((moves_look _ _).mapError _).bind fun next => ?_
    cases next with
    | none => exact moves_pure _
    | some name =>
      refine moves_ite (moves_throw _) ?_
      exact ((moves_fstatatEntry _ _ _).mapError _).bind fun _ => ih _

theorem moves_entriesBounded (fuel maximum : Nat) :
    Moves w (directory.entriesBounded w fuel maximum) := by
  refine (directory.moves_verifyUnchanged).bind fun _ => ?_
  refine ((moves_look _ _).mapError _).bind fun _ => ?_
  refine (directory.moves_classify _ _ _ _).bind fun _ => ?_
  exact (directory.moves_verifyUnchanged).bind fun _ => moves_pure _

theorem moves_openDirectory (entry : DirectoryEntry ι) :
    Moves w (directory.openDirectory w entry) := by
  refine (moves_unchanged _ _).bind fun _ => ((moves_look _ _).mapError _).bind fun _ => ?_
  refine ((moves_fstat _ _).mapError _).bind fun _ => ?_
  exact (moves_unchanged _ _).bind fun _ => moves_pure _

theorem moves_readRegularFile (fuel : Nat) (entry : DirectoryEntry ι) (maximum : UInt64) :
    Moves w (directory.readRegularFile w fuel entry maximum) := by
  refine (moves_ofResult _).bind fun _ => ((moves_look _ _).mapError _).bind fun _ => ?_
  refine ((moves_fstat _ _).mapError _).bind fun _ => (moves_unchanged _ _).bind fun _ => ?_
  refine (moves_readOpenRegularFile _ _ _ _ _).bind fun _ => ?_
  exact (moves_verifyNamedEntry _ _ _ _).bind fun _ => moves_pure _

theorem moves_readSymlink (fuel : Nat) (entry : DirectoryEntry ι) :
    Moves w (directory.readSymlink w fuel entry) :=
  (moves_unchanged _ _).bind fun _ => moves_readLink _ _ _ _ _ _

end PinnedDirectory

omit [DecidableEq ι] in
theorem moves_openRoot (root : ι) (path : Bytes) : Moves w (openRoot w root path) :=
  ((moves_look _ _).mapError _).bind fun _ => ((moves_fstat _ _).mapError _).bind fun _ =>
    moves_pure _

end Moves

end Rewind

/-
A file system of inodes that other processes change.

The process holds inodes open.  Between any two of its system calls, others may change any inode:
the history has the file system after each of their changes, and as each call meets it.

* `Graph`, `InodeSystem.turn`, `look` — the file system, and a call that reads it;
* `Advancing` — a change of an inode moves its change time forward;
* `Seen`, `graph_eq_of_times` — an inode with the same metadata at two moments has been the same
  in between.
-/
import Rewind.Platform.Filesystem
import Mathlib.Data.Prod.Lex

namespace Rewind

open Call

/-! ### Inodes -/

/-- What a name in a directory cannot be. -/
def validFileName (bytes : Bytes) : Bool :=
  bytes ≠ [] ∧ bytes ≠ [46] ∧ bytes ≠ [46, 46] ∧ slash ∉ bytes ∧ (0 : UInt8) ∉ bytes

/-- A name in a directory. -/
structure FileName where
  bytes : Bytes
  valid : validFileName bytes = true
deriving DecidableEq

theorem FileName.bytes_injective {name name' : FileName} (h : name.bytes = name'.bytes) :
    name = name' := by
  cases name
  cases name'
  cases h
  rfl

inductive EntryKind where
  | directory
  | file
  | symlink
  | other
deriving DecidableEq

/-- What an inode holds. -/
inductive InodeData (ι : Type) where
  | directory (size : Nat) (entries : List (FileName × ι))
  | file (content : Bytes)
  | symlink (target : Bytes)
  | other
deriving DecidableEq

structure InodeTimes where
  modifiedSeconds : Int64
  modifiedNanoseconds : Int64
  changedSeconds : Int64
  changedNanoseconds : Int64
deriving DecidableEq

structure Inode (ι : Type) where
  data : InodeData ι
  mode : UInt32
  times : InodeTimes
deriving DecidableEq

/-- The inodes of a file system, by device and number. -/
abbrev Graph (ι : Type) := ι → Inode ι

/-- The metadata of an inode, as `stat` reports it. -/
structure EntryStat (ι : Type) where
  inode : ι
  kind : EntryKind
  mode : UInt32
  size : Nat
  times : InodeTimes
deriving DecidableEq

section Reading

variable {ι : Type}

def InodeData.kind : InodeData ι → EntryKind
  | .directory .. => .directory
  | .file _ => .file
  | .symlink _ => .symlink
  | .other => .other

def InodeData.size : InodeData ι → Nat
  | .directory size _ => size
  | .file content => content.length
  | .symlink target => target.length
  | .other => 0

/-- The names of a directory, and what they stand for. -/
def InodeData.entries : InodeData ι → List (FileName × ι)
  | .directory _ entries => entries
  | .file _ | .symlink _ | .other => []

namespace Graph

variable (g : Graph ι)

def stat (i : ι) : EntryStat ι :=
  ⟨i, (g i).data.kind, (g i).mode, (g i).data.size, (g i).times⟩

/-- What a name stands for in a directory. -/
def child? (directory : ι) (name : Bytes) : Option ι :=
  ((g directory).data.entries.find? fun entry => entry.1.bytes = name).map (·.2)

/-- The names of a directory. -/
def names (directory : ι) : List FileName := (g directory).data.entries.map (·.1)

/-- What a path beneath a directory leads to. -/
def walk (i : ι) : List Bytes → Option ι
  | [] => some i
  | name :: rest =>
    match g.child? i name with
    | none => none
    | some child => walk child rest

variable {g} {g' : Graph ι}

theorem child?_congr {directory : ι} (h : g directory = g' directory) (name : Bytes) :
    g.child? directory name = g'.child? directory name := by
  rw [child?, child?, h]

theorem names_congr {directory : ι} (h : g directory = g' directory) :
    g.names directory = g'.names directory := by
  rw [names, names, h]

theorem stat_congr {i : ι} (h : g i = g' i) : g.stat i = g'.stat i := by
  rw [stat, stat, h]

theorem mem_names_iff {directory : ι} {name : FileName} :
    name ∈ g.names directory ↔ ∃ i, g.child? directory name.bytes = some i := by
  rw [names, List.mem_map]
  constructor
  · rintro ⟨entry, hentry, rfl⟩
    rcases hfind : (g directory).data.entries.find?
      (fun e => e.1.bytes = entry.1.bytes) with _ | found
    · have hnone := List.find?_eq_none.mp hfind entry hentry
      exact absurd hnone (by simp)
    · exact ⟨found.2, by rw [child?, hfind]; rfl⟩
  · rintro ⟨i, hi⟩
    obtain ⟨entry, hentry, -⟩ := Option.map_eq_some_iff.mp hi
    have hbytes := List.find?_some hentry
    refine ⟨entry, List.mem_of_find?_eq_some hentry, ?_⟩
    exact FileName.bytes_injective (of_decide_eq_true hbytes)

end Graph

end Reading

/-! ### Calls -/

/-- The system calls of a traversal; `verifies` where the code looks again at what it has read. -/
inductive InodeCall (ι : Type) where
  | fstat (inode : ι) (verifies : Bool)
  | fstatat (directory : ι) (name : FileName) (verifies : Bool)
  | openat (directory : ι) (name : FileName)
  | opendir (directory : ι)
  | readdir (directory : ι)
  | read (inode : ι)
  | readlinkat (directory : ι) (name : FileName)
  | elsewhere
deriving DecidableEq

/-- The file system at one moment, and the call that meets it then; after a change by others, none.
-/
structure Moment (ι : Type) where
  graph : Graph ι
  call : Option (InodeCall ι)

structure InodeSystem (ι : Type) where
  graph : Graph ι
  tick : Nat
  history : List (Moment ι)

/-- What the world decides, by tick: the changes that others make before a call, the calls that
fail, the next name of a directory stream, and how much a read returns.

A stream is given the names at its opening, the names now and those it has returned. -/
structure Interference (ι : Type) where
  others : Nat → List (Graph ι → Graph ι)
  fails : Nat → Bool
  nextName : Nat → List FileName → List FileName → List FileName → Option FileName
  readCount : Nat → Nat
  storeFails : Nat → Bool

/-- How a call ends without a result: with an error, or not within its fuel. -/
inductive Stop (ε : Type) where
  | error (source : ε)
  | unfinished
deriving DecidableEq

abbrev InodeM (ι ε α : Type) := Call (InodeSystem ι) (Stop ε) α

namespace InodeSystem

variable {ι : Type}

/-- The file system before the first call. -/
def start (g : Graph ι) : InodeSystem ι := ⟨g, 0, [⟨g, none⟩]⟩

/-- A change by another process. -/
def change (fs : InodeSystem ι) (f : Graph ι → Graph ι) : InodeSystem ι :=
  { fs with graph := f fs.graph, history := fs.history ++ [⟨f fs.graph, none⟩] }

/-- The turn of the other processes before a call, and the call. -/
def turn (w : Interference ι) (call : InodeCall ι) (fs : InodeSystem ι) : InodeSystem ι :=
  let met := (w.others fs.tick).foldl change fs
  { met with tick := fs.tick + 1, history := met.history ++ [⟨met.graph, some call⟩] }

end InodeSystem

section Calls

variable {ι α : Type} (w : Interference ι)

/-- A system call that reads the file system. -/
def look (call : InodeCall ι) (f : Nat → Graph ι → Except Errno α) :
    Call (InodeSystem ι) Errno α :=
  ofFun fun fs =>
    let met := fs.turn w call
    (if w.fails fs.tick then .error Errno.EIO else f fs.tick met.graph, met)

/-- `fstat`. -/
def fstat (inode : ι) (verifies : Bool) : Call (InodeSystem ι) Errno (EntryStat ι) :=
  look w (.fstat inode verifies) fun _ g => .ok (g.stat inode)

/-- `fstatat_entry`. -/
def fstatatEntry (directory : ι) (name : FileName) (verifies : Bool) :
    Call (InodeSystem ι) Errno (EntryStat ι) :=
  look w (.fstatat directory name verifies) fun _ g =>
    match g.child? directory name.bytes with
    | none => .error .ENOENT
    | some i => .ok (g.stat i)

/-- `open_directory_at`. -/
def openDirectoryInode (directory : ι) (name : FileName) : Call (InodeSystem ι) Errno ι :=
  look w (.openat directory name) fun _ g =>
    match g.child? directory name.bytes with
    | none => .error .ENOENT
    | some i => if (g i).data.kind = .directory then .ok i else .error .ENOTDIR

/-- `open_file_at`. -/
def openFileInode (directory : ι) (name : FileName) : Call (InodeSystem ι) Errno ι :=
  look w (.openat directory name) fun _ g =>
    match g.child? directory name.bytes with
    | none => .error .ENOENT
    | some i => if (g i).data.kind = .symlink then .error .ELOOP else .ok i

/-- `DirectoryStream::open`, which gives the names at that moment. -/
def openStream (directory : ι) : Call (InodeSystem ι) Errno (List FileName) :=
  look w (.opendir directory) fun _ g => .ok (g.names directory)

/-- `next_name` of a stream, but for the names of the directory itself and its parent. -/
def nextName (directory : ι) (opened returned : List FileName) :
    Call (InodeSystem ι) Errno (Option FileName) :=
  look w (.readdir directory) fun tick g =>
    .ok (w.nextName tick opened (g.names directory) returned)

/-- `file.read` of `requested` bytes, at the offset of the file. -/
def readFile (inode : ι) (offset requested : Nat) : Call (InodeSystem ι) Errno Bytes :=
  look w (.read inode) fun tick g =>
    match (g inode).data with
    | .file content => .ok ((content.drop offset).take (min requested (max 1 (w.readCount tick))))
    | _ => .error .EISDIR

/-- `readlinkat` into a buffer of `capacity` bytes. -/
def readlinkat (directory : ι) (name : FileName) (capacity : Nat) :
    Call (InodeSystem ι) Errno Bytes :=
  look w (.readlinkat directory name) fun _ g =>
    match g.child? directory name.bytes with
    | none => .error .ENOENT
    | some i =>
      match (g i).data with
      | .symlink target => .ok (target.take capacity)
      | _ => .error .EINVAL

end Calls

/-! ### Time -/

section Time

variable {ι : Type}

/-- The inode has changed, and its change time has moved forward. -/
def Inode.Older (i j : Inode ι) : Prop :=
  toLex (i.times.changedSeconds.toInt, i.times.changedNanoseconds.toInt)
    < toLex (j.times.changedSeconds.toInt, j.times.changedNanoseconds.toInt)

/-- From one moment to a later one, each inode is the same or newer. -/
def Graph.Later (g g' : Graph ι) : Prop := ∀ i, g' i = g i ∨ (g i).Older (g' i)

theorem Graph.Later.refl (g : Graph ι) : g.Later g := fun _ => Or.inl rfl

theorem Graph.Later.trans {g₁ g₂ g₃ : Graph ι} (h₁₂ : g₁.Later g₂) (h₂₃ : g₂.Later g₃) :
    g₁.Later g₃ := by
  intro i
  rcases h₁₂ i with heq | holder
  · rcases h₂₃ i with heq' | holder'
    · exact Or.inl (heq'.trans heq)
    · exact Or.inr (heq ▸ holder')
  · rcases h₂₃ i with heq' | holder'
    · exact Or.inr (heq' ▸ holder)
    · exact Or.inr (lt_trans holder holder')

/-- Each change of an inode moves its change time forward. -/
def Interference.Advancing (w : Interference ι) : Prop :=
  ∀ tick, ∀ change ∈ w.others tick, ∀ g : Graph ι, g.Later (change g)

/-- Nobody else changes anything. -/
def Interference.Still (w : Interference ι) : Prop := ∀ tick, w.others tick = []

/-- Nobody else changes the inode. -/
def Interference.Spares (w : Interference ι) (i : ι) : Prop :=
  ∀ tick, ∀ change ∈ w.others tick, ∀ g : Graph ι, change g i = g i

/-- A stream does not end before it has returned each name that has been there all the time, and
returns no name twice. -/
structure Interference.Enumerates (w : Interference ι) : Prop where
  complete : ∀ tick opened current returned, w.nextName tick opened current returned = none →
    ∀ name ∈ opened, name ∈ current → name ∈ returned
  once : ∀ tick opened current returned name,
    w.nextName tick opened current returned = some name → name ∉ returned

/-- The history leads to where the file system is, and time has passed in it. -/
structure InodeSystem.Timely (fs : InodeSystem ι) : Prop where
  ordered : fs.history.Pairwise fun m m' => m.graph.Later m'.graph
  current : ∀ m ∈ fs.history, m.graph.Later fs.graph

theorem timely_start (g : Graph ι) : (InodeSystem.start g).Timely where
  ordered := List.pairwise_singleton _ _
  current := by
    intro m hm
    rw [List.mem_singleton.mp hm]
    exact Graph.Later.refl g

theorem InodeSystem.Timely.append {fs : InodeSystem ι} (h : fs.Timely) {g : Graph ι}
    (hlater : fs.graph.Later g) (call : Option (InodeCall ι)) (tick : Nat) :
    InodeSystem.Timely ⟨g, tick, fs.history ++ [⟨g, call⟩]⟩ where
  ordered := by
    refine List.pairwise_append.mpr ⟨h.ordered, List.pairwise_singleton _ _, ?_⟩
    intro m hm m' hm'
    rw [List.mem_singleton.mp hm']
    exact (h.current m hm).trans hlater
  current := by
    intro m hm
    rcases List.mem_append.mp hm with hbefore | hnew
    · exact (h.current m hbefore).trans hlater
    · rw [List.mem_singleton.mp hnew]
      exact Graph.Later.refl g

theorem InodeSystem.Timely.foldl_change {fs : InodeSystem ι} (h : fs.Timely)
    {changes : List (Graph ι → Graph ι)} (hchanges : ∀ f ∈ changes, ∀ g : Graph ι, g.Later (f g)) :
    (changes.foldl InodeSystem.change fs).Timely := by
  induction changes generalizing fs with
  | nil => exact h
  | cons f rest ih =>
    obtain ⟨hf, hrest⟩ := List.forall_mem_cons.mp hchanges
    exact ih (h.append (hf fs.graph) none fs.tick) hrest

theorem InodeSystem.Timely.turn {w : Interference ι} {fs : InodeSystem ι} (h : fs.Timely)
    (hw : w.Advancing) (call : InodeCall ι) : (fs.turn w call).Timely :=
  (h.foldl_change (hw fs.tick)).append (Graph.Later.refl _) (some call) (fs.tick + 1)

/-! ### Histories -/

theorem history_foldl_change (changes : List (Graph ι → Graph ι)) (fs : InodeSystem ι) :
    fs.history <+: (changes.foldl InodeSystem.change fs).history := by
  induction changes generalizing fs with
  | nil => exact List.prefix_rfl
  | cons f rest ih => exact (List.prefix_append fs.history _).trans (ih (fs.change f))

/-- `fs'` comes after `fs`. -/
def InodeSystem.Follows (fs fs' : InodeSystem ι) : Prop := fs.history <+: fs'.history

theorem InodeSystem.Follows.refl (fs : InodeSystem ι) : fs.Follows fs := List.prefix_rfl

theorem InodeSystem.Follows.trans {fs₁ fs₂ fs₃ : InodeSystem ι} (h₁₂ : fs₁.Follows fs₂)
    (h₂₃ : fs₂.Follows fs₃) : fs₁.Follows fs₃ := List.IsPrefix.trans h₁₂ h₂₃

theorem InodeSystem.follows_turn (w : Interference ι) (call : InodeCall ι) (fs : InodeSystem ι) :
    fs.Follows (fs.turn w call) :=
  (history_foldl_change _ fs).trans (List.prefix_append _ _)

/-- At the moment `k` of the history, `call` meets the file system `g`. -/
def InodeSystem.At (fs : InodeSystem ι) (k : Nat) (g : Graph ι) (call : Option (InodeCall ι)) :
    Prop := fs.history[k]? = some ⟨g, call⟩

theorem InodeSystem.At.mono {fs fs' : InodeSystem ι} {k : Nat} {g : Graph ι}
    {call : Option (InodeCall ι)} (h : fs.At k g call) (hfollows : fs.Follows fs') :
    fs'.At k g call := by
  obtain ⟨later, hlater⟩ := hfollows
  have hlt : k < fs.history.length := (List.getElem?_eq_some_iff.mp h).1
  rw [At, ← hlater, List.getElem?_append_left hlt]
  exact h

theorem InodeSystem.At.lt {fs : InodeSystem ι} {k : Nat} {g : Graph ι}
    {call : Option (InodeCall ι)} (h : fs.At k g call) : k < fs.history.length :=
  (List.getElem?_eq_some_iff.mp h).1

theorem InodeSystem.At.mem {fs : InodeSystem ι} {k : Nat} {g : Graph ι}
    {call : Option (InodeCall ι)} (h : fs.At k g call) : ⟨g, call⟩ ∈ fs.history :=
  List.mem_of_getElem? h

/-- A call meets the file system at the last moment of the history. -/
theorem InodeSystem.at_turn (w : Interference ι) (call : InodeCall ι) (fs : InodeSystem ι) :
    (fs.turn w call).At ((fs.turn w call).history.length - 1) (fs.turn w call).graph
      (some call) := by
  simp [At, turn]

theorem InodeSystem.length_lt_turn (w : Interference ι) (call : InodeCall ι)
    (fs : InodeSystem ι) : fs.history.length ≤ (fs.turn w call).history.length - 1 := by
  have hinitial := (history_foldl_change (w.others fs.tick) fs).length_le
  simpa [turn] using hinitial

/-! ### What has been seen -/

/-- At the moment `k`, the inode had this metadata. -/
def Seen (fs : InodeSystem ι) (k : Nat) (stat : EntryStat ι) : Prop :=
  ∃ g call, fs.At k g call ∧ g.stat stat.inode = stat

theorem Seen.mono {fs fs' : InodeSystem ι} {k : Nat} {stat : EntryStat ι} (h : Seen fs k stat)
    (hfollows : fs.Follows fs') : Seen fs' k stat := by
  obtain ⟨g, call, hat, hstat⟩ := h
  exact ⟨g, call, hat.mono hfollows, hstat⟩

/-- An inode that has the same change time at two moments has been the same in between. -/
theorem graph_eq_of_times {fs : InodeSystem ι} (h : fs.Timely) {i : ι} {j k l : Nat}
    (hjk : j ≤ k) (hkl : k ≤ l) {gⱼ gₖ gₗ : Graph ι} {cⱼ cₖ cₗ : Option (InodeCall ι)}
    (hj : fs.At j gⱼ cⱼ) (hk : fs.At k gₖ cₖ) (hl : fs.At l gₗ cₗ)
    (htimes : (gⱼ i).times = (gₗ i).times) : gₖ i = gⱼ i := by
  have hlater : ∀ {m n : Nat} {g g' : Graph ι} {c c' : Option (InodeCall ι)}, m ≤ n →
      fs.At m g c → fs.At n g' c' → g.Later g' := by
    intro m n g g' c c' hmn hm hn
    rcases Nat.eq_or_lt_of_le hmn with rfl | hlt
    · obtain ⟨rfl, -⟩ := Moment.mk.inj (Option.some.inj (hm.symm.trans hn))
      exact Graph.Later.refl g
    · obtain ⟨hm', hgetm⟩ := List.getElem?_eq_some_iff.mp hm
      obtain ⟨hn', hgetn⟩ := List.getElem?_eq_some_iff.mp hn
      have hpair := List.pairwise_iff_getElem.mp h.ordered m n hm' hn' hlt
      rwa [hgetm, hgetn] at hpair
  rcases hlater hjk hj hk i with heq | holder
  · exact heq
  · -- A change before `k` would have left the change time behind for good.
    have hle : (gⱼ i).Older (gₗ i) := by
      rcases hlater hkl hk hl i with heq' | holder'
      · exact heq' ▸ holder
      · exact lt_trans holder holder'
    rw [Inode.Older, htimes] at hle
    exact absurd hle (lt_irrefl _)

end Time

end Rewind

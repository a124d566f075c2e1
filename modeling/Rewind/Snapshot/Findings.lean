/-
What a scan that succeeds has found.

The findings of a scan are a tree: what it has noted of each entry, and for what it does not descend
into, what has become of it.  From the tree come its entries, its exclusions and what it has stored.

* `Depicts` — a file system that has been found so, path by path;
* `Adds` — a scanner that has noted the findings;
* `Depicts.cons`, `depicts_leaf`, `depicts_directory` — the findings of a directory, one by one.
-/
import Rewind.Lib.FileTree
import Rewind.Platform.Visits
import Rewind.Snapshot.Scan

namespace Rewind

namespace Scan

open FileTree

/-- An entry, as the scan has met it. -/
structure Noted (ι : Type) where
  path : SnapshotPath
  stat : EntryStat ι

/-- What has become of an entry that is no directory to descend into. -/
inductive Finding where
  | ignored (pattern : IgnorePattern)
  | tooLarge (actual maximum : Nat)
  | file (bytes : Bytes)
  | symlink (target : String)

/-- The findings of a directory. -/
abbrev Findings (ι : Type) := Dir FileName (Noted ι) (Noted ι × Finding)

/-- The findings under one name. -/
abbrev FoundNode (ι : Type) := FileTree.Node FileName (Noted ι) (Noted ι × Finding)

/-- What has been found at one path. -/
abbrev Found (ι : Type) := Kind (Noted ι) (Noted ι × Finding)

section Findings

variable {ι : Type}

def notedOf : Found ι → Noted ι
  | .directory noted | .leaf (noted, _) => noted

def entriesOf (codecs : Codecs) : Found ι → List SnapshotEntry
  | .directory noted => [⟨noted.path, .directory, permissions noted.stat.mode⟩]
  | .leaf (noted, .file bytes) =>
    [⟨noted.path, .file (ObjectId.digestOf codecs bytes) (UInt64.ofNat bytes.length)
      (noted.stat.mode &&& 0o111 != 0), permissions noted.stat.mode⟩]
  | .leaf (noted, .symlink target) =>
    [⟨noted.path, .symlink target, permissions noted.stat.mode⟩]
  | .leaf (_, .ignored _) | .leaf (_, .tooLarge ..) => []

def exclusionsOf : Found ι → List Exclusion
  | .leaf (noted, .ignored pattern) => [⟨noted.path, .ignored pattern⟩]
  | .leaf (noted, .tooLarge actual maximum) => [⟨noted.path, .fileTooLarge actual maximum⟩]
  | .directory _ | .leaf (_, .file _) | .leaf (_, .symlink _) => []

def contentsOf : Found ι → List Bytes
  | .leaf (_, .file bytes) => [bytes]
  | .directory _ | .leaf (_, .ignored _) | .leaf (_, .tooLarge ..) | .leaf (_, .symlink _) => []

/-- The file system is as it has been found; of a file that is too large only when nobody changes
it, as it is not verified. -/
def Holds (options : ScanOptions) (still : Prop) (g : Graph ι) : Found ι → Prop
  | .directory noted => options.pattern? noted.path = none
    ∧ (g noted.stat.inode).data.kind = .directory ∧ (g noted.stat.inode).mode = noted.stat.mode
  | .leaf (noted, .ignored pattern) => options.pattern? noted.path = some pattern
  | .leaf (noted, .tooLarge actual maximum) => options.pattern? noted.path = none
    ∧ maximum = options.maxFileSize.toNat
    ∧ (still → ∃ content, (g noted.stat.inode).data = .file content ∧ actual = content.length
      ∧ maximum < actual)
  | .leaf (noted, .file bytes) => options.pattern? noted.path = none
    ∧ (g noted.stat.inode).data = .file bytes ∧ (g noted.stat.inode).mode = noted.stat.mode
    ∧ bytes.length ≤ options.maxFileSize.toNat
  | .leaf (noted, .symlink target) => options.pattern? noted.path = none
    ∧ (g noted.stat.inode).data = .symlink (utf8 target)
    ∧ (g noted.stat.inode).mode = noted.stat.mode

/-- The file system beneath a directory is as it has been found, where each finding stands at a path
that leads to its inode, and a directory has the names that have been found in it. -/
structure Depicts (options : ScanOptions) (still : Prop) (g : Graph ι) (directory : ι)
    (above : List FileName) (tree : Findings ι) : Prop where
  leads : ∀ path kind, tree.kindAt path = some kind →
    g.walk directory (path.map (·.bytes)) = some (notedOf kind).stat.inode
  spelled : ∀ path kind, tree.kindAt path = some kind →
    (notedOf kind).path.text = pathText (above ++ path)
  holds : ∀ path kind, tree.kindAt path = some kind → Holds options still g kind
  listed : ∀ path noted, tree.kindAt path = some (.directory noted) →
    ∀ name, (tree.kindAt (path ++ [name])).isSome ↔ name ∈ g.names noted.stat.inode

variable {options : ScanOptions} {still : Prop} {g : Graph ι} {directory : ι}
  {above : List FileName} {name : FileName}

theorem depicts_nil : Depicts options still g directory above (.nil : Findings ι) where
  leads := by simp
  spelled := by simp
  holds := by simp
  listed := by simp

/-- The findings of a directory, one after the other. -/
theorem Depicts.cons {node : FoundNode ι} {rest : Findings ι}
    (h : Depicts options still g directory above (Dir.cons name node .nil))
    (hrest : Depicts options still g directory above rest) :
    Depicts options still g directory above (Dir.cons name node rest) := by
  -- A path is beneath the first name, or beneath one of the rest.
  have hcases : ∀ path, (Dir.cons name node rest).kindAt path
      = if path.head? = some name then (Dir.cons name node .nil).kindAt path
        else rest.kindAt path := by
    intro path
    cases path with
    | nil => rfl
    | cons n path =>
      rw [Dir.kindAt_cons, Dir.kindAt_cons, List.head?_cons]
      by_cases hn : name = n
      · rw [if_pos hn, if_pos hn, if_pos (congrArg some hn.symm)]
      · rw [if_neg hn, if_neg fun heq => hn (Option.some.inj heq).symm]
  have hsplit : ∀ {path kind}, (Dir.cons name node rest).kindAt path = some kind →
      (Dir.cons name node .nil).kindAt path = some kind ∨ rest.kindAt path = some kind := by
    intro path kind hkind
    rw [hcases] at hkind
    by_cases hhead : path.head? = some name
    · rw [if_pos hhead] at hkind
      exact Or.inl hkind
    · rw [if_neg hhead] at hkind
      exact Or.inr hkind
  refine ⟨fun path kind hkind => ?_, fun path kind hkind => ?_, fun path kind hkind => ?_, ?_⟩
  · exact (hsplit hkind).elim (h.leads path kind) (hrest.leads path kind)
  · exact (hsplit hkind).elim (h.spelled path kind) (hrest.spelled path kind)
  · exact (hsplit hkind).elim (h.holds path kind) (hrest.holds path kind)
  · intro path noted hkind child
    cases path with
    | nil => exact absurd rfl (Dir.ne_nil_of_kindAt hkind)
    | cons n path =>
      rw [hcases, List.cons_append]
      rw [hcases] at hkind
      by_cases hhead : (n :: path).head? = some name
      · rw [if_pos hhead] at hkind
        rw [if_pos (show (n :: (path ++ [child])).head? = some name from hhead)]
        exact h.listed _ _ hkind child
      · rw [if_neg hhead] at hkind
        rw [if_neg (show (n :: (path ++ [child])).head? ≠ some name from hhead)]
        exact hrest.listed _ _ hkind child

theorem walk_singleton {i : ι} {name : FileName} (h : g.child? directory name.bytes = some i) :
    g.walk directory [name.bytes] = some i := by
  rw [Graph.walk, h]
  rfl

/-- An entry that the scan does not descend into. -/
theorem depicts_leaf {noted : Noted ι} {finding : Finding}
    (hentry : g.child? directory name.bytes = some noted.stat.inode)
    (hpath : noted.path.text = pathText (above ++ [name]))
    (hholds : Holds options still g (.leaf (noted, finding))) :
    Depicts options still g directory above (Dir.cons name (.leaf (noted, finding)) .nil) := by
  have honly : ∀ {path} {kind : Found ι},
      (Dir.cons name (.leaf (noted, finding)) .nil).kindAt path = some kind →
      path = [name] ∧ kind = .leaf (noted, finding) := by
    intro path kind hkind
    rcases path with _ | ⟨n, _ | ⟨m, path⟩⟩
    · exact absurd rfl (Dir.ne_nil_of_kindAt hkind)
    · rw [Dir.kindAt_cons] at hkind
      by_cases hn : name = n
      · rw [if_pos hn, FileTree.Node.kindAt_nil] at hkind
        exact ⟨by rw [hn], (Option.some.inj hkind).symm⟩
      · rw [if_neg hn, Dir.nil_kindAt] at hkind
        exact absurd hkind (by simp)
    · rw [Dir.kindAt_cons, Dir.kindAt_leaf_cons, Dir.nil_kindAt] at hkind
      by_cases hn : name = n <;> simp [hn] at hkind
  refine ⟨fun path kind hkind => ?_, fun path kind hkind => ?_, fun path kind hkind => ?_, ?_⟩
  · obtain ⟨rfl, rfl⟩ := honly hkind
    exact walk_singleton hentry
  · obtain ⟨rfl, rfl⟩ := honly hkind
    exact hpath
  · obtain ⟨rfl, rfl⟩ := honly hkind
    exact hholds
  · intro path noted' hkind
    exact absurd (honly hkind).2 (by simp)

/-- A directory that the scan has descended into. -/
theorem depicts_directory {noted : Noted ι} {entries : Findings ι}
    (hentry : g.child? directory name.bytes = some noted.stat.inode)
    (hpath : noted.path.text = pathText (above ++ [name]))
    (hholds : Holds options still g (.directory noted))
    (hlisted : ∀ child, (entries.kindAt [child]).isSome ↔ child ∈ g.names noted.stat.inode)
    (hentries : Depicts options still g noted.stat.inode (above ++ [name]) entries) :
    Depicts options still g directory above (Dir.cons name (.directory noted entries) .nil) := by
  have honly : ∀ {path} {kind : Found ι},
      (Dir.cons name (.directory noted entries) .nil).kindAt path = some kind →
      (path = [name] ∧ kind = .directory noted)
        ∨ ∃ rest, path = name :: rest ∧ entries.kindAt rest = some kind := by
    intro path kind hkind
    rcases path with _ | ⟨n, path⟩
    · exact absurd rfl (Dir.ne_nil_of_kindAt hkind)
    · rw [Dir.kindAt_cons] at hkind
      by_cases hn : name = n
      · subst hn
        rw [if_pos rfl] at hkind
        cases path with
        | nil =>
          rw [FileTree.Node.kindAt_nil] at hkind
          exact Or.inl ⟨rfl, (Option.some.inj hkind).symm⟩
        | cons m path =>
          rw [Dir.kindAt_directory_cons] at hkind
          exact Or.inr ⟨m :: path, rfl, hkind⟩
      · rw [if_neg hn, Dir.nil_kindAt] at hkind
        exact absurd hkind (by simp)
  refine ⟨fun path kind hkind => ?_, fun path kind hkind => ?_, fun path kind hkind => ?_, ?_⟩
  · rcases honly hkind with ⟨rfl, rfl⟩ | ⟨rest, rfl, hrest⟩
    · exact walk_singleton hentry
    · rw [List.map_cons, Graph.walk, hentry]
      exact hentries.leads rest kind hrest
  · rcases honly hkind with ⟨rfl, rfl⟩ | ⟨rest, rfl, hrest⟩
    · exact hpath
    · rw [hentries.spelled rest kind hrest, List.append_assoc, List.singleton_append]
  · rcases honly hkind with ⟨rfl, rfl⟩ | ⟨rest, rfl, hrest⟩
    · exact hholds
    · exact hentries.holds rest kind hrest
  · intro path noted' hkind child
    rcases honly hkind with ⟨rfl, hnoted⟩ | ⟨rest, rfl, hrest⟩
    · obtain rfl := Kind.directory.inj hnoted
      rw [List.singleton_append, Dir.kindAt_cons, if_pos rfl, Dir.kindAt_directory_cons]
      exact hlisted child
    · obtain ⟨m, rest, rfl⟩ := List.exists_cons_of_ne_nil (Dir.ne_nil_of_kindAt hrest)
      rw [List.cons_append, Dir.kindAt_cons, if_pos rfl, List.cons_append,
        Dir.kindAt_directory_cons]
      exact hentries.listed _ _ hrest child

/-! ### What the scanner has noted -/

/-- From `s` to `t`, the scanner has noted the findings. -/
structure Adds (codecs : Codecs) (s t : Scanner ι) (tree : Findings ι) : Prop where
  stored : t.stored = s.stored ++ tree.collect contentsOf
  entries : t.entries = s.entries ++ tree.collect (entriesOf codecs)
  exclusions : t.exclusions = s.exclusions ++ tree.collect exclusionsOf

variable {codecs : Codecs}

theorem adds_nil {s t : Scanner ι} (hstored : t.stored = s.stored)
    (hentries : t.entries = s.entries)
    (hexclusions : t.exclusions = s.exclusions) : Adds codecs s t .nil where
  stored := by rw [hstored, Dir.collect, List.append_nil]
  entries := by rw [hentries, Dir.collect, List.append_nil]
  exclusions := by rw [hexclusions, Dir.collect, List.append_nil]

theorem collect_cons {γ : Type} (f : Found ι → List γ) (name : FileName)
    (node : FoundNode ι) (rest : Findings ι) :
    (Dir.cons name node rest).collect f = (Dir.cons name node .nil).collect f
      ++ rest.collect f := by
  cases node <;> simp [Dir.cons, Dir.collect]

theorem Adds.cons {s t u : Scanner ι} {node : FoundNode ι}
    {rest : Findings ι} (h : Adds codecs s t (Dir.cons name node .nil))
    (hrest : Adds codecs t u rest) : Adds codecs s u (Dir.cons name node rest) where
  stored := by rw [hrest.stored, h.stored, List.append_assoc, collect_cons _ _ _ rest]
  entries := by rw [hrest.entries, h.entries, List.append_assoc, collect_cons _ _ _ rest]
  exclusions := by rw [hrest.exclusions, h.exclusions, List.append_assoc, collect_cons _ _ _ rest]

end Findings

end Scan

end Rewind

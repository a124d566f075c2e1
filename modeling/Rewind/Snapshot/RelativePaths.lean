/-
Paths that stay beneath a directory.

Three parts of the program check a path by themselves: the manifest, the archive and the calls that
change a workspace.  The first two accept the same texts, and the third splits each of these into
names that the kernel looks up in one directory, whatever `..`, absolute paths and symbolic links
lead to elsewhere.

* `check_eq_ok_iff`, `isArchivePath_iff` — what the two validators accept;
* `relativeComponents_of_isArchivePath` — the components of such a path;
* `Namespace.resolveAt`, `Namespace.visits` — how the kernel resolves a name, and where the
  components of a path lead one after the other;
* `Namespace.beneath_of_mem_visits` — they lead into the tree beneath the directory only.
-/
import Rewind.Platform.Inodes
import Rewind.Store.Bundle
import Mathlib.Data.List.TakeWhile
import Mathlib.Logic.Relation

namespace Rewind

/-! ### Components -/

/-- A component that names an entry of a directory. -/
def IsSingle (component : Bytes) : Prop :=
  component ≠ [] ∧ component ≠ utf8 "." ∧ component ≠ utf8 ".."
    ∧ slash ∉ component ∧ (0 : UInt8) ∉ component

theorem checkComponent_eq_ok_iff {component : Bytes} :
    SnapshotPath.checkComponent component = .ok ()
      ↔ component ≠ [] ∧ component ≠ utf8 "." ∧ component ≠ utf8 ".." := by
  rw [SnapshotPath.checkComponent]
  by_cases hempty : component = []
  · simp [hempty]
  · by_cases hcurrent : component = utf8 "."
    · rw [if_neg hempty, if_pos hcurrent]
      simp [hcurrent]
    · by_cases hparent : component = utf8 ".."
      · rw [if_neg hempty, if_neg hcurrent, if_pos hparent]
        simp [hparent]
      · simp [hempty, hcurrent, hparent]

/-- What both validators ask of a path. -/
structure IsPath (path : Bytes) : Prop where
  nonempty : path ≠ []
  short : path.length ≤ 4096
  relative : path.head? ≠ some slash
  nul : (0 : UInt8) ∉ path
  backslash : (92 : UInt8) ∉ path
  components : ∀ component ∈ splitSlash path,
    component ≠ [] ∧ component ≠ utf8 "." ∧ component ≠ utf8 ".."

theorem check_eq_ok_iff {path : Bytes} : SnapshotPath.check path = .ok () ↔ IsPath path := by
  rw [SnapshotPath.check, throw_if_eq_ok_iff, throw_if_eq_ok_iff, throw_if_eq_ok_iff,
    throw_if_eq_ok_iff, throw_if_eq_ok_iff, List.forM_eq_ok_iff]
  simp only [checkComponent_eq_ok_iff, not_lt, MAX_SNAPSHOT_PATH_BYTES]
  constructor
  · rintro ⟨hnonempty, hshort, hrelative, hnul, hbackslash, hcomponents⟩
    exact ⟨hnonempty, hshort, hrelative, hnul, hbackslash, hcomponents⟩
  · intro h
    exact ⟨h.nonempty, h.short, h.relative, h.nul, h.backslash, h.components⟩

theorem isArchivePath_iff {path : Bytes} : isArchivePath path = true ↔ IsPath path := by
  simp only [isArchivePath, Bool.and_eq_true, List.all_eq_true, Bool.not_eq_true',
    List.isEmpty_eq_false_iff, decide_eq_true_eq, List.contains_eq_mem, decide_eq_false_iff_not]
  constructor
  · rintro ⟨⟨⟨⟨⟨hnonempty, hshort⟩, hrelative⟩, hbackslash⟩, hnul⟩, hcomponents⟩
    refine ⟨hnonempty, hshort, hrelative, hnul, hbackslash, fun component hc => ?_⟩
    exact ⟨(hcomponents component hc).1.1, (hcomponents component hc).1.2,
      (hcomponents component hc).2⟩
  · intro h
    refine ⟨⟨⟨⟨⟨h.nonempty, h.short⟩, h.relative⟩, h.backslash⟩, h.nul⟩, fun component hc => ?_⟩
    obtain ⟨hne, hcurrent, hparent⟩ := h.components component hc
    exact ⟨⟨hne, hcurrent⟩, hparent⟩

theorem IsPath.single {path : Bytes} (h : IsPath path) :
    ∀ component ∈ splitSlash path, IsSingle component := by
  intro component hc
  obtain ⟨hne, hcurrent, hparent⟩ := h.components component hc
  refine ⟨hne, hcurrent, hparent, fun hslash => ?_, fun hzero => ?_⟩
  · exact (of_mem_splitSlash hc hslash).2 rfl
  · exact h.nul (of_mem_splitSlash hc hzero).1

/-- The components of a path that the validators accept are its parts between the slashes. -/
theorem IsPath.relativeComponents {path : Bytes} (h : IsPath path) :
    relativeComponents path = .ok (splitSlash path) := by
  have hstart : ¬ (path = [] ∨ path.head? = some slash) := by
    rintro (hempty | hhead)
    · exact h.nonempty hempty
    · exact h.relative hhead
  rw [Rewind.relativeComponents, if_neg hstart, List.mapM_eq_ok_iff, List.forall₂_same]
  intro component hc
  obtain ⟨hne, hcurrent, hparent, -, hnul⟩ := h.single component hc
  have hname : ¬ (component = [] ∨ component = utf8 "." ∨ component = utf8 "..") := by
    simp [hne, hcurrent, hparent]
  rw [if_neg hname, if_neg hnul]

/-! ### How the kernel resolves names -/

/-- A file system as names are resolved in it: the root directory of the process, the directory
that `..` stands for, and where a symbolic link in a directory leads if it is followed. -/
structure Namespace (ι : Type) where
  graph : Graph ι
  root : ι
  parent : ι → ι
  follow : ι → ι → Option ι

namespace Namespace

variable {ι : Type} (ns : Namespace ι)

/-- One component of a text, looked up in a directory. -/
def component (directory : ι) (name : Bytes) : Option ι :=
  if name = [] ∨ name = utf8 "." then
    some directory
  else if name = utf8 ".." then
    some (ns.parent directory)
  else
    ns.graph.child? directory name

/-- Where a text leads in a directory: every link in it is followed but the last. -/
def lookup (directory : ι) : List Bytes → Option ι
  | [] => some directory
  | [name] => ns.component directory name
  | name :: rest => do
    let found ← ns.component directory name
    let next ← if (ns.graph found).data.kind = .symlink then ns.follow directory found
      else some found
    lookup next rest

/-- What a call of the `*at` family finds that does not follow a last link.  A C string ends at its
first NUL, and an absolute text starts at the root. -/
def resolveAt (directory : ι) (name : Bytes) : Option ι :=
  let text := name.takeWhile (· ≠ 0)
  if text = [] then
    none
  else
    ns.lookup (if text.head? = some slash then ns.root else directory) (splitSlash text)

/-- What is found when components are resolved one by one, each in the directory that the one
before it opened without following a link. -/
def visits (directory : ι) : List Bytes → List ι
  | [] => []
  | name :: rest =>
    match ns.resolveAt directory name with
    | none => []
    | some i => i :: if (ns.graph i).data.kind = .directory then visits i rest else []

/-- What is in a directory, in a directory in it, and so on, without a link. -/
def Beneath : ι → ι → Prop :=
  Relation.ReflTransGen fun directory i => ∃ name : FileName,
    ns.graph.child? directory name.bytes = some i

variable {ns}

/-- The name of an entry is looked up among the entries of the directory. -/
theorem resolveAt_single {directory : ι} {name : Bytes} (h : IsSingle name) :
    ns.resolveAt directory name = ns.graph.child? directory name := by
  obtain ⟨hne, hcurrent, hparent, hslash, hnul⟩ := h
  have htext : name.takeWhile (fun b => b ≠ 0) = name := by
    refine List.takeWhile_eq_self_iff.mpr fun b hb => ?_
    exact decide_eq_true fun hzero => hnul (hzero ▸ hb)
  have hhead : name.head? ≠ some slash := fun hhead => hslash (List.mem_of_head? hhead)
  have hname : ¬ (name = [] ∨ name = utf8 ".") := by simp [hne, hcurrent]
  simp only [resolveAt, htext, if_neg hne, if_neg hhead, splitSlash_of_not_mem hslash, lookup,
    component, if_neg hname, if_neg hparent]

/-- What a directory has under a name is beneath it. -/
theorem beneath_of_child {directory i : ι} {name : Bytes}
    (h : ns.graph.child? directory name = some i) : ns.Beneath directory i := by
  obtain ⟨entry, hfound, -⟩ := Option.map_eq_some_iff.mp h
  have hsome := List.find?_some hfound
  have hbytes : entry.1.bytes = name := of_decide_eq_true hsome
  rw [← hbytes] at h
  exact Relation.ReflTransGen.single ⟨entry.1, h⟩

/-- Resolved one by one, names of entries lead beneath the directory only. -/
theorem beneath_of_mem_visits {components : List Bytes} {directory : ι}
    (h : ∀ name ∈ components, IsSingle name) :
    ∀ i ∈ ns.visits directory components, ns.Beneath directory i := by
  induction components generalizing directory with
  | nil => exact fun i hi => absurd hi List.not_mem_nil
  | cons name rest ih =>
    intro i hi
    obtain ⟨hname, hrest⟩ := List.forall_mem_cons.mp h
    rw [visits, resolveAt_single hname] at hi
    cases hfound : ns.graph.child? directory name with
    | none =>
      rw [hfound] at hi
      exact absurd hi List.not_mem_nil
    | some child =>
      rw [hfound] at hi
      have hchild : ns.Beneath directory child := beneath_of_child hfound
      rcases List.mem_cons.mp hi with rfl | hlater
      · exact hchild
      · by_cases hdirectory : (ns.graph child).data.kind = .directory
        · rw [if_pos hdirectory] at hlater
          exact hchild.trans (ih hrest i hlater)
        · rw [if_neg hdirectory] at hlater
          exact absurd hlater List.not_mem_nil

end Namespace

/-- **The validators agree, and what they accept stays beneath a directory.**  The manifest and the
archive accept the same texts; each of these is split at its slashes into names of entries, which
make it up again, and the names lead from a directory into the tree beneath it only. -/
theorem validators_agree {ι : Type} (ns : Namespace ι) (directory : ι) (path : Bytes)
    (hutf8 : validUtf8 path = true) :
    ((∃ p, SnapshotPath.fromStr path hutf8 = .ok p) ↔ validateArchivePath path = .ok ())
    ∧ (validateArchivePath path = .ok () → ∃ components,
      relativeComponents path = .ok components
      ∧ (∀ component ∈ components, component ≠ [] ∧ component ≠ utf8 "." ∧ component ≠ utf8 ".."
        ∧ slash ∉ component ∧ (0 : UInt8) ∉ component)
      ∧ [slash].intercalate components = path
      ∧ ∀ i ∈ ns.visits directory components, ns.Beneath directory i) := by
  have harchive : validateArchivePath path = .ok () ↔ IsPath path :=
    ensure_eq_ok_iff.trans isArchivePath_iff
  have hsnapshot : (∃ p, SnapshotPath.fromStr path hutf8 = .ok p) ↔ IsPath path := by
    rw [← check_eq_ok_iff]
    constructor
    · rintro ⟨p, hp⟩
      rw [← SnapshotPath.text_of_fromStr hp]
      exact p.accepted
    · intro hcheck
      exact ⟨⟨path, hutf8, hcheck⟩, SnapshotPath.fromStr_text ⟨path, hutf8, hcheck⟩⟩
  rw [harchive, hsnapshot]
  refine ⟨Iff.rfl, fun h => ⟨splitSlash path, h.relativeComponents, h.single, ?_, ?_⟩⟩
  · exact intercalate_splitSlash path
  · exact Namespace.beneath_of_mem_visits h.single

namespace PathSample

theorem validFileName_a : validFileName [97] = true := by decide

theorem validFileName_b : validFileName [98] = true := by decide

/-- `a` of the directory 1 is the directory 2, whose `b` is a link out of it, to 3. -/
def world : Namespace Nat where
  graph i := {
    data := match i with
      | 0 => .directory 4096 []
      | 1 => .directory 4096 [(⟨[97], validFileName_a⟩, 2)]
      | 2 => .directory 4096 [(⟨[98], validFileName_b⟩, 4)]
      | 4 => .symlink (utf8 "/etc")
      | _ => .directory 4096 []
    mode := 0o755
    times := ⟨0, 0, 0, 0⟩ }
  root := 0
  parent i := if i = 2 then 1 else 0
  follow _ _ := some 3

/-- Other texts lead out of it. -/
example : world.visits 1 [utf8 ".."] = [0] ∧ world.visits 1 [utf8 "a/b/"] = [3] := by
  decide +kernel

/-- The path `a/b`. -/
def path : Bytes := [97, 47, 98]

end PathSample

theorem validators_agree_sample :
    ((∃ p, SnapshotPath.fromStr PathSample.path (by decide) = .ok p)
      ↔ validateArchivePath PathSample.path = .ok ())
    ∧ ∃ components, relativeComponents PathSample.path = .ok components
      ∧ (∀ component ∈ components, component ≠ [] ∧ component ≠ utf8 "." ∧ component ≠ utf8 ".."
        ∧ slash ∉ component ∧ (0 : UInt8) ∉ component)
      ∧ [slash].intercalate components = PathSample.path
      ∧ ∀ i ∈ PathSample.world.visits 1 components, PathSample.world.Beneath 1 i :=
  have h := validators_agree PathSample.world 1 PathSample.path (by decide)
  ⟨h.1, h.2 (by decide +kernel)⟩

end Rewind

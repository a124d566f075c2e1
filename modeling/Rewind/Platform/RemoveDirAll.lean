/-
`fs::remove_dir_all`.

The standard library removes a directory entry by entry, so a removal that fails has removed a
part of it.

* `removeDirAll` — the removal, with the directories the process can still open;
* `Syscall.removes` — what an `unlink` or an `rmdir` would take away;
* `RemovesBeneath` — what the removal of a directory inside it comes to, whatever fails;
* `removed_removeDirAll` — a removal in which no call fails has removed the directory.
-/
import Rewind.Platform.Removal

namespace Rewind

open FileTree Call

section RemoveDirAll

variable (s : Surroundings)

/-- `is_dir`, from the type in the listing of a directory. -/
def isDir : Option Entry → Bool
  | some (.directory ..) => true
  | some (.leaf _) | none => false

/-- `readdir`: the entries of a directory, with whether each is one. -/
def readEntries (location : List Name) : FsCall (List (Name × Bool)) :=
  inspectAt s (.readDirectory location) location fun entries =>
    .ok (entries.names.map fun n => (n, isDir (entries.get? n)))

/-- `ignore_notfound`. -/
def ignoreNotFound (m : FsCall Unit) : FsCall Unit := do
  match ← outcome m with
  | .ok () | .error .ENOENT => return ()
  | .error error => throw error

/-- `remove_dir_all_recursive`; `remaining` directories can still be opened. -/
def removeDirAllRecursive : Nat → List Name → Name → FsCall Unit
  | 0, location, name => do
    touch s (.openDirectory (location ++ [name]))
    throw .EMFILE
  | remaining + 1, location, name => do
    match ← outcome (openDirectoryAt s location name) with
    | .ok () => do
      let children ← readEntries s (location ++ [name])
      children.forM fun child => ignoreNotFound
        (if child.2 then removeDirAllRecursive remaining (location ++ [name]) child.1
        else unlinkAt s (location ++ [name]) child.1)
      ignoreNotFound (rmdirAt s location name)
    | .error error =>
      -- the root of the removal is not unlinked
      if (error = .ENOTDIR ∨ error = .ELOOP) ∧ location ≠ [] then unlinkAt s location name
      else throw error

/-- `fs::remove_dir_all`, which removes a link itself. -/
def removeDirAll (descriptors : Nat) (name : Name) : FsCall Unit := do
  let linked ← inspectAt s (.lstat [name]) [] fun entries =>
    match entries.get? name with
    | none => .error .ENOENT
    | some (.leaf (.symlink _)) => .ok true
    | some _ => .ok false
  if linked then unlinkAt s [] name else removeDirAllRecursive s descriptors [] name

end RemoveDirAll

/-! ### What a removing call takes away -/

/-- Whether a call takes something away from the directory it meets, unless the device fails it. -/
def Syscall.removes (met : Directory) : Syscall → Bool
  | .unlink path =>
    match met.lookup? path with
    | some (.leaf _) => true
    | some (.directory ..) | none => false
  | .rmdir path => (met.lookup? path).any FileTree.Node.isEmptyDirectory
  | _ => false

section Taking

variable {s : Surroundings} {location : List Name} {name : Name}

/-- The state after a call that removes the entry `name`. -/
def FileSystem.taken (s : Surroundings) (call : Syscall) (location : List Name) (name : Name)
    (fs : FileSystem) : FileSystem :=
  if s.fails fs.tick = false ∧ call.removes (fs.turn s call).root = true then
    { fs.turn s call with root := (fs.turn s call).root.modify (·.erase name) location }
  else
    fs.turn s call

theorem getElem?_turn (fs : FileSystem) (call : Syscall) :
    (fs.turn s call).calls[fs.calls.length]? = some (call, (fs.turn s call).root) := by
  show (fs.calls ++ [(call, _)])[fs.calls.length]? = _
  rw [List.getElem?_append_right (Nat.le_refl _), Nat.sub_self]
  rfl

end Taking

/-! ### What a removal keeps -/

section Keeping

variable {s : Surroundings} {name : Name} {P : FileSystem → Prop}

theorem spec_ignoreNotFound {m : FsCall Unit} {Q E : FileSystem → Prop}
    (h : Spec P m (fun _ => Q) E) (hE : ∀ fs, E fs → Q fs) :
    Spec P (ignoreNotFound m) (fun _ => Q) E := by
  refine spec_bind (Q := fun result fs => match result with
    | .ok () => Q fs
    | .error _ => E fs) (spec_outcome (h.imp (fun _ hfs => hfs) (fun _ _ hfs => hfs)
      fun _ hfs _ => hfs)) fun result => ?_
  rcases result with (_ | _) | _
  case error.ENOENT => exact spec_pure hE
  case ok => exact spec_pure fun _ hfs => hfs
  all_goals exact spec_throw fun _ hfs => hfs

variable (h : Undisturbed s name P)
include h

/-- The recursive removal, by induction on the directories that can be opened. -/
theorem Undisturbed.removeDirAllRecursive (remaining : Nat) {location : List Name} {entry : Name}
    (hbeneath : (location ++ [entry]).head? = some name) :
    Keeps P (Rewind.removeDirAllRecursive s remaining location entry) := by
  induction remaining generalizing location entry with
  | zero => exact keeps_bind h.touch fun _ => keeps_throw _
  | succ remaining ih =>
    have hinside : ∀ child, (location ++ [entry] ++ [child]).head? = some name := by
      intro child
      rw [List.head?_append, hbeneath, Option.some_or]
    unfold Rewind.removeDirAllRecursive
    refine keeps_bind (keeps_outcome h.inspectAt) fun opened => ?_
    rcases opened with error | _
    · exact spec_ite (fun _ => h.unlinkAt hbeneath) fun _ => keeps_throw _
    · refine keeps_bind h.inspectAt fun children => ?_
      refine keeps_bind (keeps_forM (fun child => spec_ignoreNotFound
        (spec_ite (fun _ => ih (hinside child.1)) fun _ => h.unlinkAt (hinside child.1))
        fun _ hfs => hfs) children) fun _ => ?_
      exact spec_ignoreNotFound (h.rmdirAt hbeneath) fun _ hfs => hfs

theorem Undisturbed.removeDirAll (descriptors : Nat) :
    Keeps P (Rewind.removeDirAll s descriptors name) := by
  refine keeps_bind h.inspectAt fun linked => ?_
  exact spec_ite (fun _ => h.unlinkAt rfl) fun _ => h.removeDirAllRecursive descriptors rfl

end Keeping

/-! ### A removal in which no call fails -/

section Completing

variable {s : Surroundings} {name : Name} {k : Nat} {record : Syscall × Directory} {mode : UInt32}

/-- Nobody else changes the entry at the name. -/
def Unshared (s : Surroundings) (name : Name) : Prop :=
  ∀ (fs : FileSystem) call entry, fs.root.get? name = some entry →
    (fs.turn s call).root.get? name = some entry

/-- A removal that began with the call `k` has left the directory `name` with `entries`. -/
structure Standing (name : Name) (k : Nat) (record : Syscall × Directory) (mode : UInt32)
    (entries : Directory) (fs : FileSystem) : Prop where
  logged : fs.calls[k]? = some record
  begun : k ≤ fs.tick
  there : fs.root.get? name = some (.directory mode entries)

/-- A call has failed since the call `k`. -/
structure Faulted (s : Surroundings) (k : Nat) (record : Syscall × Directory) (fs : FileSystem) :
    Prop where
  logged : fs.calls[k]? = some record
  fault : ∃ j, k ≤ j ∧ j < fs.tick ∧ s.fails j = true

theorem logged_turn {fs : FileSystem} (h : fs.calls[k]? = some record) (call : Syscall) :
    (fs.turn s call).calls[k]? = some record := by
  show (fs.calls ++ [(call, _)])[k]? = _
  rw [List.getElem?_append_left (List.getElem?_eq_some_iff.mp h).1]
  exact h

theorem undisturbed_faulted : Undisturbed s name (Faulted s k record) where
  turn call hfs := by
    obtain ⟨j, hle, hlt, hfails⟩ := hfs.fault
    exact ⟨logged_turn hfs.logged call, j, hle, Nat.lt_succ_of_lt hlt, hfails⟩
  count _ hfs := ⟨hfs.logged, hfs.fault⟩
  beneath hfs _ := ⟨hfs.logged, hfs.fault⟩

theorem Standing.faulted {entries : Directory} {fs : FileSystem}
    (h : Standing name k record mode entries fs) (hfails : s.fails fs.tick = true)
    (call : Syscall) : Faulted s k record (fs.turn s call) :=
  ⟨logged_turn h.logged call, fs.tick, h.begun, Nat.lt_succ_self _, hfails⟩

variable (hunshared : Unshared s name)
include hunshared

theorem Standing.turn {entries : Directory} {fs : FileSystem}
    (h : Standing name k record mode entries fs) (call : Syscall) :
    Standing name k record mode entries (fs.turn s call) :=
  ⟨logged_turn h.logged call, Nat.le_succ_of_le h.begun, hunshared fs call _ h.there⟩

omit hunshared in
theorem Standing.enter {entries : Directory} {fs : FileSystem}
    (h : Standing name k record mode entries fs) (path : List Name) :
    fs.root.enter (name :: path) = entries.enter path := by
  rw [Dir.enter, h.there]

omit hunshared in
theorem Standing.modify {entries : Directory} {fs : FileSystem}
    (h : Standing name k record mode entries fs) (f : Directory → Directory) (path : List Name) :
    Standing name k record mode (entries.modify f path)
      { fs with root := fs.root.modify f (name :: path) } := by
  refine ⟨h.logged, h.begun, ?_⟩
  show (fs.root.modify f (name :: path)).get? name = _
  rw [Dir.modify, h.there]
  exact Dir.get?_insert_self _ _ _

theorem Standing.inspectAt {α : Type} {call : Syscall} {path : List Name} {entries d : Directory}
    {f : Directory → Except Errno α} {a : α} (henter : entries.enter path = some d)
    (hf : f d = .ok a) :
    Spec (Standing name k record mode entries) (Rewind.inspectAt s call (name :: path) f)
      (fun b fs => Standing name k record mode entries fs ∧ b = a) (Faulted s k record) := by
  refine spec_syscall_of_ok (fun fs hfs hfails => hfs.faulted hfails call) fun fs hfs => ?_
  have hmet := hfs.turn hunshared call
  refine ⟨a, (fs.turn s call).root, ?_, hmet, rfl⟩
  simp only [hmet.enter, henter, hf, Except.map]

theorem Standing.changeAt {call : Syscall} {path : List Name} {entries d d' : Directory}
    {f : Directory → Except Errno Directory} (henter : entries.enter path = some d)
    (hf : f d = .ok d') :
    Spec (Standing name k record mode entries) (Rewind.changeAt s call (name :: path) f)
      (fun _ => Standing name k record mode (entries.modify (fun _ => d') path))
      (Faulted s k record) := by
  refine spec_syscall_of_ok (fun fs hfs hfails => hfs.faulted hfails call) fun fs hfs => ?_
  have hmet := hfs.turn hunshared call
  refine ⟨(), _, ?_, hmet.modify (fun _ => d') path⟩
  simp only [hmet.enter, henter, hf, Except.map]

theorem Standing.unlinkAt {path : List Name} {n : Name} {entries d : Directory} {content : Leaf}
    (henter : entries.enter path = some d) (hget : d.get? n = some (.leaf content)) :
    Spec (Standing name k record mode entries) (Rewind.unlinkAt s (name :: path) n)
      (fun _ => Standing name k record mode (entries.modify (·.erase n) path))
      (Faulted s k record) := by
  have hsame : entries.modify (·.erase n) path = entries.modify (fun _ => d.erase n) path :=
    Dir.modify_congr henter rfl
  rw [hsame]
  exact Standing.changeAt hunshared henter (by rw [hget])

theorem Standing.rmdirAt {path : List Name} {n : Name} {entries d : Directory} {mode' : UInt32}
    (henter : entries.enter path = some d) (hget : d.get? n = some (.directory mode' .nil)) :
    Spec (Standing name k record mode entries) (Rewind.rmdirAt s (name :: path) n)
      (fun _ => Standing name k record mode (entries.modify (·.erase n) path))
      (Faulted s k record) := by
  have hsame : entries.modify (·.erase n) path = entries.modify (fun _ => d.erase n) path :=
    Dir.modify_congr henter rfl
  rw [hsame]
  refine Standing.changeAt hunshared henter ?_
  rw [hget]
  rfl

omit hunshared in
/-- A directory inside the one that is removed can be removed, where no more than `remaining` are in
it one in the other. -/
def RemovesBeneath (s : Surroundings) (name : Name) (k : Nat) (record : Syscall × Directory)
    (mode : UInt32) (remaining : Nat) : Prop :=
  ∀ ⦃path : List Name⦄ ⦃n : Name⦄ ⦃entries d beneath : Directory⦄ ⦃mode' : UInt32⦄,
    entries.enter path = some d → d.get? n = some (.directory mode' beneath) →
    Fits remaining (some (.directory mode' beneath)) →
    Spec (Standing name k record mode entries)
      (removeDirAllRecursive s remaining (name :: path) n)
      (fun _ fs => Standing name k record mode (entries.modify (·.erase n) path) fs
        ∨ Faulted s k record fs) (Faulted s k record)

/-- The removal of one child. -/
theorem RemovesBeneath.child {remaining : Nat}
    (hremove : RemovesBeneath s name k record mode remaining) {path : List Name} {n : Name}
    {entries d : Directory} (henter : entries.enter path = some d) (hsome : (d.get? n).isSome)
    (hfits : Fits remaining (d.get? n)) :
    Spec (Standing name k record mode entries)
      (if isDir (d.get? n) then removeDirAllRecursive s remaining (name :: path) n
      else unlinkAt s (name :: path) n)
      (fun _ fs => Standing name k record mode (entries.modify (·.erase n) path) fs
        ∨ Faulted s k record fs) (Faulted s k record) := by
  obtain ⟨node, hget⟩ := Option.isSome_iff_exists.mp hsome
  rw [hget] at hfits ⊢
  rcases node with content | ⟨mode', beneath⟩
  · exact (Standing.unlinkAt hunshared henter hget).imp (fun _ hfs => hfs)
      (fun _ _ hfs => Or.inl hfs) fun _ hfs => hfs
  · exact hremove henter hget hfits

/-- The children of a directory, one removal after the other. -/
theorem RemovesBeneath.children {remaining : Nat}
    (hremove : RemovesBeneath s name k record mode remaining)
    {path : List Name} (names : List Name) (hnames : names.Nodup) {entries d : Directory}
    (henter : entries.enter path = some d) {flag : Name → Bool}
    (hflag : ∀ n ∈ names, flag n = isDir (d.get? n) ∧ (d.get? n).isSome
      ∧ Fits remaining (d.get? n)) :
    Spec (fun fs => Standing name k record mode entries fs ∨ Faulted s k record fs)
      ((names.map fun n => (n, flag n)).forM fun child => ignoreNotFound
        (if child.2 then removeDirAllRecursive s remaining (name :: path) child.1
        else unlinkAt s (name :: path) child.1))
      (fun _ fs => Standing name k record mode
        (entries.modify (fun es => names.foldl Dir.erase es) path) fs ∨ Faulted s k record fs)
      (Faulted s k record) := by
  have hfaulted : Undisturbed s name (Faulted s k record) := undisturbed_faulted
  induction names generalizing entries d with
  | nil =>
    rw [Dir.modify_eq_self henter rfl]
    exact spec_pure fun _ hfs => hfs
  | cons n names ih =>
    obtain ⟨hn, hrest⟩ := List.nodup_cons.mp hnames
    obtain ⟨⟨hdir, hsome, hfits⟩, hflags⟩ := List.forall_mem_cons.mp hflag
    rw [List.map_cons]
    refine spec_bind (Q := fun _ fs => Standing name k record mode
      (entries.modify (·.erase n) path) fs ∨ Faulted s k record fs) ?_ fun _ => ?_
    · have hkeeps : Keeps (Faulted s k record)
          (if flag n then removeDirAllRecursive s remaining (name :: path) n
          else unlinkAt s (name :: path) n) :=
        spec_ite (fun _ => hfaulted.removeDirAllRecursive remaining rfl)
          fun _ => hfaulted.unlinkAt rfl
      refine spec_ignoreNotFound ?_ fun _ hfs => Or.inr hfs
      rw [hdir] at hkeeps ⊢
      exact ((hremove.child hunshared henter hsome hfits).orKeeps hkeeps).imp (fun _ hfs => hfs)
        (fun _ _ hfs => hfs.elim id Or.inr) fun _ hfs => hfs
    · -- the other children are as they were
      have hothers : ∀ n' ∈ names, (d.erase n).get? n' = d.get? n' := fun n' hn' =>
        Dir.get?_erase_of_ne _ fun heq => hn (heq ▸ hn')
      have hlast := @ih hrest (entries.modify (·.erase n) path) (d.erase n)
        (by rw [Dir.enter_modify, henter]; rfl) (fun n' hn' => by
          rw [hothers n' hn']
          exact hflags n' hn')
      rw [Dir.modify_modify] at hlast
      exact hlast

/-- The removal of a directory that can be opened, from its children and from its `rmdir`. -/
theorem RemovesBeneath.opened {remaining : Nat}
    (hremove : RemovesBeneath s name k record mode remaining) {location path : List Name} {n : Name}
    (hlocation : location ++ [n] = name :: path) {entries beneath : Directory} {mode' : UInt32}
    (henter : entries.enter path = some beneath)
    (hfits : Fits (remaining + 1) (some (.directory mode' beneath)))
    (hopen : Spec (Standing name k record mode entries) (openDirectoryAt s location n)
      (fun _ => Standing name k record mode entries) (Faulted s k record))
    {gone : FileSystem → Prop}
    (hlast : Spec (Standing name k record mode
        (entries.modify (fun es => beneath.names.foldl Dir.erase es) path))
      (rmdirAt s location n) (fun _ => gone) (Faulted s k record)) :
    Spec (Standing name k record mode entries)
      (removeDirAllRecursive s (remaining + 1) location n)
      (fun _ fs => gone fs ∨ Faulted s k record fs) (Faulted s k record) := by
  have hfaulted : Undisturbed s name (Faulted s k record) := undisturbed_faulted
  have hhead : (location ++ [n]).head? = some name := by rw [hlocation]; rfl
  unfold removeDirAllRecursive
  refine spec_bind (Q := fun opened fs => match opened with
    | .ok () => Standing name k record mode entries fs
    | .error _ => Faulted s k record fs) (spec_outcome (hopen.imp (fun _ hfs => hfs)
      (fun _ _ hfs => hfs) fun _ hfs _ => hfs)) fun opened => ?_
  rcases opened with error | _
  · exact spec_ite (fun _ => (hfaulted.unlinkAt hhead).imp (fun _ hfs => hfs)
      (fun _ _ hfs => Or.inr hfs) fun _ hfs => hfs) fun _ => spec_throw fun _ hfs => hfs
  rw [hlocation]
  refine spec_bind (Standing.inspectAt hunshared henter rfl) fun children => ?_
  refine spec_and_right fun hchildren => ?_
  rw [hchildren]
  refine spec_bind ((hremove.children hunshared beneath.names beneath.allNames.nodup_dedup henter
    fun child hchild => ⟨rfl, Dir.mem_names.mp hchild, hfits child hchild⟩).imp
    (fun _ hfs => Or.inl hfs) (fun _ _ hfs => hfs) fun _ hfs => hfs) fun _ => ?_
  -- what a fault has left is not touched by the last call either
  exact spec_ignoreNotFound (hlast.orKeeps (hfaulted.rmdirAt hhead)) fun _ hfs => Or.inr hfs

theorem Standing.openRoot {entries : Directory} :
    Spec (Standing name k record mode entries) (openDirectoryAt s [] name)
      (fun _ => Standing name k record mode entries) (Faulted s k record) := by
  unfold openDirectoryAt Rewind.inspectAt
  refine spec_syscall_of_ok (fun fs hfs hfails => hfs.faulted hfails _) fun fs hfs => ?_
  have hmet := hfs.turn hunshared (.openDirectory ([] ++ [name]))
  refine ⟨(), (fs.turn s (.openDirectory ([] ++ [name]))).root, ?_, hmet⟩
  simp only [Dir.enter, hmet.there, Except.map]

/-- The removal that began with the call `k` has done its work: if no call of it has failed, and
the process could open as many directories as there were one in the other, the name is free. -/
def Removed (s : Surroundings) (descriptors : Nat) (name : Name) (k : Nat) (fs : FileSystem) :
    Prop :=
  ∃ met, fs.calls[k]? = some (.lstat [name], met) ∧
    (Fits descriptors (met.get? name) → (∀ j, k ≤ j → j < fs.tick → s.fails j = false) →
      fs.root.get? name = none)

omit hunshared in
theorem Faulted.removed {descriptors : Nat} {met : Directory} {fs : FileSystem}
    (h : Faulted s k (.lstat [name], met) fs) : Removed s descriptors name k fs := by
  refine ⟨met, h.logged, fun _ hall => ?_⟩
  obtain ⟨j, hle, hlt, hfails⟩ := h.fault
  rw [hall j hle hlt] at hfails
  exact absurd hfails (by simp)

end Completing

end Rewind

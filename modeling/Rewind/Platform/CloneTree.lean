/-
What a clone makes.

Nobody else changes the directory of the destination.  Each file is cloned by the file system or, if
that does not support it, created again and copied; either way it is there in the end, with the
content and the mode of the source, and so is everything else.

* `Stage` — the directory at some point of the clone, and what the native calls have done so far;
* `Copied` — the entries of the source behind those that were there, and their counts;
* `spec_cloneEntries` — the recursive copy, by induction on the entries;
* `clone_copies` — a clone that succeeds.
-/
import Rewind.Platform.Clone

namespace Rewind

open FileTree Call

/-! ### The native calls -/

section Stages

variable (s : Surroundings) (reflinks : Nat → Bool)

/-- The first write to a path is the native call for a file, and either succeeds or does not. -/
def firstWrite (calls : List (Syscall × Directory)) (path : List Name) : Option Bool :=
  (calls.findIdx? fun call => call.1 = .write path).map fun i => reflinks i && !s.fails i

/-- The directory, and how the native calls have ended for the files so far. -/
structure Stage (root : Directory) (native : List Name → Option Bool) (fs : FileSystem) : Prop where
  root : fs.root = root
  tick : fs.calls.length = fs.tick
  native : ∀ path, firstWrite s reflinks fs.calls path = native path

end Stages

/-- A first write is noted, a later one is not. -/
def noted (native : List Name → Option Bool) (path : List Name) (cloned : Bool) :
    List Name → Option Bool :=
  Function.update native path ((native path).or (some cloned))

section Spec

variable {s : Surroundings} {reflinks : Nat → Bool} {root d : Directory} {location : List Name}
  {native : List Name → Option Bool}

theorem firstWrite_concat (calls : List (Syscall × Directory)) (call : Syscall) (met : Directory)
    (path : List Name) :
    firstWrite s reflinks (calls ++ [(call, met)]) path = (firstWrite s reflinks calls path).or
      (if call = .write path then some (reflinks calls.length && !s.fails calls.length)
        else none) := by
  rw [firstWrite, firstWrite, List.findIdx?_append]
  generalize calls.findIdx? (fun call => decide (call.1 = .write path)) = found
  rcases found with _ | i
  · by_cases hcall : call = .write path
    · simp [hcall]
    · simp [hcall]
  · simp

variable (hstatic : ∀ tick, s.others tick = [])
include hstatic

theorem Stage.turn_root {fs : FileSystem} (h : Stage s reflinks root native fs) (call : Syscall) :
    (fs.turn s call).root = root := by
  rw [FileSystem.turn, hstatic]
  exact h.root

theorem Stage.turn {fs : FileSystem} (h : Stage s reflinks root native fs) {call : Syscall}
    (hcall : ∀ path, call ≠ .write path) : Stage s reflinks root native (fs.turn s call) where
  root := h.turn_root hstatic call
  tick := by
    show (fs.calls ++ [(call, _)]).length = fs.tick + 1
    rw [List.length_append, List.length_singleton, h.tick]
  native := by
    intro path
    show firstWrite s reflinks (fs.calls ++ [(call, _)]) path = _
    rw [firstWrite_concat, if_neg (hcall path), Option.or_none, h.native]

theorem Stage.turn_write {fs : FileSystem} (h : Stage s reflinks root native fs)
    (path : List Name) :
    Stage s reflinks root (noted native path (reflinks fs.tick && !s.fails fs.tick))
      (fs.turn s (.write path)) where
  root := h.turn_root hstatic _
  tick := by
    show (fs.calls ++ [(_, _)]).length = fs.tick + 1
    rw [List.length_append, List.length_singleton, h.tick]
  native := by
    intro other
    show firstWrite s reflinks (fs.calls ++ [(.write path, _)]) other = _
    rw [firstWrite_concat, h.native, h.tick, noted]
    by_cases hpath : path = other
    · subst hpath
      rw [if_pos rfl, Function.update_self]
    · rw [if_neg fun heq => hpath (Syscall.write.inj heq), Option.or_none,
        Function.update_of_ne (Ne.symm hpath)]

theorem spec_touch {call : Syscall} (hcall : ∀ path, call ≠ .write path) :
    Spec (Stage s reflinks root native) (touch s call) (fun _ => Stage s reflinks root native)
      fun _ => True := by
  refine spec_syscall (fun _ _ => trivial) fun fs a met hfs _ hok => ?_
  obtain ⟨-, rfl⟩ := Prod.mk.inj (Except.ok.inj hok)
  exact hfs.turn hstatic hcall

theorem spec_inspectSource (operation : String) (path : Bytes) :
    Spec (Stage s reflinks root native) (inspectSource s operation path)
      (fun _ => Stage s reflinks root native) fun _ => True :=
  spec_mapError (spec_touch hstatic nofun)

theorem spec_verifySource (path : Bytes) :
    Spec (Stage s reflinks root native) (verifySource s path)
      (fun _ => Stage s reflinks root native) fun _ => True :=
  spec_mapError (spec_touch hstatic nofun)

theorem spec_verifyOpenEntry (path : Bytes) :
    Spec (Stage s reflinks root native) (verifyOpenEntry s path)
      (fun _ => Stage s reflinks root native) fun _ => True :=
  spec_bind (spec_inspectSource hstatic _ _) fun _ => spec_verifySource hstatic _

/-- A call that changes the directory at `location`. -/
theorem spec_change {call : Syscall} (hcall : ∀ path, call ≠ .write path)
    (henter : root.enter location = some d) (f : Directory → Except Errno Directory) :
    Spec (Stage s reflinks root native) (changeAt s call location f)
      (fun _ fs => ∃ d', f d = .ok d'
        ∧ Stage s reflinks (root.modify (fun _ => d') location) native fs) fun _ => True := by
  refine spec_changeAt (fun _ _ => trivial) fun fs entries entries' hfs _ hentries hf => ?_
  have hturn := hfs.turn hstatic hcall
  rw [hturn.root, henter] at hentries
  obtain rfl := Option.some.inj hentries
  refine ⟨entries', hf, ?_, hturn.tick, hturn.native⟩
  show (fs.turn s call).root.modify (fun _ => entries') location = _
  rw [hturn.root]

/-- A new entry. -/
theorem spec_createEntry {call : Syscall} (hcall : ∀ path, call ≠ .write path)
    (henter : root.enter location = some d) (name : Name) (node : Entry) :
    Spec (Stage s reflinks root native) (changeAt s call location (createEntry name node))
      (fun _ fs => d.get? name = none
        ∧ Stage s reflinks (root.modify (fun _ => d.insert name node) location) native fs)
      fun _ => True := by
  refine (spec_change hstatic hcall henter _).imp (fun _ h => h) ?_ fun _ h => h
  rintro - fs ⟨d', hcreate, hstage⟩
  rw [createEntry] at hcreate
  rcases hget : d.get? name with _ | taken
  · rw [hget, if_neg (by simp)] at hcreate
    obtain rfl := Except.ok.inj hcreate
    exact ⟨rfl, hstage⟩
  · rw [hget, Option.isSome_some, if_pos rfl] at hcreate
    exact absurd hcreate (by simp)

/-! ### Files -/

omit hstatic in
/-- The entry that was placed in the directory changes. -/
theorem modify_placed (henter : root.enter location = some d) {name : Name} {node node' : Entry}
    (f : Directory → Directory) (hf : f (d.insert name node) = d.insert name node') :
    (root.modify (fun _ => d.insert name node) location).modify f location
      = root.modify (fun _ => d.insert name node') location := by
  rw [Dir.modify_modify]
  exact Dir.modify_congr henter hf

omit hstatic in
theorem enter_placed (henter : root.enter location = some d) (name : Name) (node : Entry) :
    (root.modify (fun _ => d.insert name node) location).enter location
      = some (d.insert name node) := by
  rw [Dir.enter_modify, henter]
  rfl

omit hstatic in
theorem writeEntry_placed (name : Name) (mode : UInt32) (before content : Bytes) :
    writeEntry name content (d.insert name (.leaf (.file mode before)))
      = d.insert name (.leaf (.file mode content)) := by
  rw [writeEntry, Dir.get?_insert_self]
  exact Dir.insert_insert _ _ _ _

/-- The mode of a file, at last. -/
theorem spec_chmodFile (henter : root.enter location = some d) (name : Name)
    (before mode : UInt32) (content : Bytes) :
    Spec (Stage s reflinks (root.modify (fun _ => d.insert name (.leaf (.file before content)))
        location) native)
      (chmodAt s location name mode)
      (fun _ => Stage s reflinks (root.modify (fun _ => d.insert name (.leaf (.file mode content)))
        location) native) fun _ => True := by
  refine Spec.imp (spec_change hstatic (by simp) (enter_placed henter name _) _) (fun _ h => h) ?_
    fun _ h => h
  rintro - fs ⟨d', hchmod, hstage⟩
  rw [Dir.get?_insert_self] at hchmod
  obtain rfl := Except.ok.inj hchmod
  rw [modify_placed henter _ (Dir.insert_insert _ _ _ _)] at hstage
  exact hstage

omit hstatic in
theorem noted_eq_self {path : List Name} (h : native path ≠ none) (cloned : Bool) :
    noted native path cloned = native := by
  obtain ⟨found, hfound⟩ := Option.ne_none_iff_exists'.mp h
  rw [noted, hfound]
  exact Function.update_eq_self_iff.mpr hfound.symm

omit hstatic in
theorem noted_ne_none (native : List Name → Option Bool) (path : List Name) (cloned : Bool) :
    noted native path cloned path ≠ none := by
  rw [noted, Function.update_self]
  cases native path <;> simp

/-- The native call writes the whole content, or nothing. -/
theorem spec_reflinkAt (henter : root.enter location = some d) (name : Name) (content : Bytes) :
    Spec (Stage s reflinks (root.modify (fun _ => d.insert name (.leaf (.file 0o666 []))) location)
        native)
      (reflinkAt s reflinks location name content)
      (fun _ => Stage s reflinks
        (root.modify (fun _ => d.insert name (.leaf (.file 0o666 content))) location)
        (noted native (location ++ [name]) true))
      (Stage s reflinks (root.modify (fun _ => d.insert name (.leaf (.file 0o666 []))) location)
        (noted native (location ++ [name]) false)) := by
  intro fs hfs
  have hturn := hfs.turn_write hstatic (location ++ [name])
  unfold reflinkAt
  rw [exec_ofFun]
  by_cases hfails : s.fails fs.tick = true
  · rw [hfails, Bool.not_true, Bool.and_false] at hturn
    simp only [hfails, if_true]
    exact hturn
  rw [Bool.not_eq_true] at hfails
  rw [hfails, Bool.not_false, Bool.and_true] at hturn
  by_cases hreflinks : reflinks fs.tick = true
  · rw [hreflinks] at hturn
    simp only [hfails, Bool.false_eq_true, if_false, hreflinks, if_true]
    refine ⟨?_, hturn.tick, hturn.native⟩
    show (fs.turn s _).root.modify _ _ = _
    rw [hturn.root]
    exact modify_placed henter _ (writeEntry_placed _ _ _ _)
  · rw [Bool.not_eq_true] at hreflinks
    rw [hreflinks] at hturn
    simp only [hfails, Bool.false_eq_true, if_false, hreflinks]
    exact hturn

/-- A file that the file system could not clone is removed again. -/
theorem spec_nativeCloneFile (henter : root.enter location = some d) (source destination : Bytes)
    (name : Name) (content : Bytes) :
    Spec (Stage s reflinks root native)
      (nativeCloneFile s reflinks source destination location name content)
      (fun cloned fs => d.get? name = none ∧ Stage s reflinks
        (if cloned then root.modify (fun _ => d.insert name (.leaf (.file 0o666 content))) location
          else root) (noted native (location ++ [name]) cloned) fs) fun _ => True := by
  refine spec_bind (spec_verifyOpenEntry hstatic _) fun _ => ?_
  refine spec_bind (spec_mapError (spec_createEntry hstatic (by simp) henter _ _)) fun _ => ?_
  rintro fs ⟨hfree, hfs⟩
  refine spec_bind (P := Stage s reflinks _ native) (spec_outcome
    (Q := fun result fs => Stage s reflinks (root.modify (fun _ => d.insert name (.leaf
        (.file 0o666 (if result.toBool then content else [])))) location)
      (noted native (location ++ [name]) result.toBool) fs) ?_) (fun result => ?_) fs hfs
  · exact (spec_reflinkAt hstatic henter name content).imp (fun _ h => h) (fun _ _ h => h)
      fun _ h _ => h
  rcases result with error | _
  · refine spec_bind (Q := fun _ => Stage s reflinks root (noted native (location ++ [name]) false))
      (spec_mapError (Spec.imp (spec_change hstatic (by simp) (enter_placed henter name _) _)
        (fun _ h => h) ?_ fun _ h => h)) fun _ => ?_
    · rintro - fs ⟨d', hunlink, hstage⟩
      rw [Dir.get?_insert_self] at hunlink
      obtain rfl := Except.ok.inj hunlink
      have hsame : (d.insert name (.leaf (.file 0o666 []))).erase name = d := by
        rw [Dir.erase_insert, Dir.erase_eq_self hfree]
      rw [Dir.modify_modify, Dir.modify_eq_self henter hsame] at hstage
      exact hstage
    · exact spec_ite (fun _ => spec_pure fun fs h => ⟨hfree, h⟩) fun _ => spec_throw fun _ _ =>
        trivial
  · refine spec_bind (spec_verifyOpenEntry hstatic _) fun _ => ?_
    exact spec_pure fun fs h => ⟨hfree, h⟩

/-- A file that is copied byte by byte. -/
theorem spec_copyOpenFile (henter : root.enter location = some d) (source destination : Bytes)
    (name : Name) (content : Bytes) (hnoted : native (location ++ [name]) ≠ none) :
    Spec (Stage s reflinks root native)
      (copyOpenFile s source destination location name content)
      (fun _ => Stage s reflinks
        (root.modify (fun _ => d.insert name (.leaf (.file 0o666 content))) location) native)
      fun _ => True := by
  refine spec_bind (spec_inspectSource hstatic _ _) fun _ => ?_
  refine spec_bind (spec_verifyOpenEntry hstatic _) fun _ => ?_
  refine spec_bind (spec_mapError (spec_createEntry hstatic (by simp) henter _ _)) fun _ => ?_
  rintro fs ⟨-, hfs⟩
  refine spec_bind (P := Stage s reflinks _ native) (spec_outcome
    (Q := fun result fs => result.toBool = true → Stage s reflinks (root.modify (fun _ =>
      d.insert name (.leaf (.file 0o666 content))) location) native fs) ?_) (fun result => ?_) fs
        hfs
  · refine Spec.imp (E := fun _ => True) ?_ (fun _ h => h)
      (Q := fun _ => Stage s reflinks (root.modify (fun _ =>
        d.insert name (.leaf (.file 0o666 content))) location) native) (fun _ _ h _ => h)
          fun _ _ _ => nofun
    refine spec_bind (spec_mapError (Q := fun _ => Stage s reflinks (root.modify (fun _ =>
      d.insert name (.leaf (.file 0o666 content))) location) native) ?_) fun _ => ?_
    · -- The bytes arrive.
      intro fs hfs
      have hturn := hfs.turn_write hstatic (location ++ [name])
      rw [noted_eq_self hnoted] at hturn
      unfold writeAll
      rw [exec_ofFun]
      by_cases hfails : s.fails fs.tick = true
      · simp only [hfails, if_true]
      · rw [Bool.not_eq_true] at hfails
        simp only [hfails, Bool.false_eq_true, if_false]
        refine ⟨?_, hturn.tick, hturn.native⟩
        show (fs.turn s _).root.modify _ _ = _
        rw [hturn.root]
        exact modify_placed henter _ (writeEntry_placed _ _ _ _)
    · refine spec_bind (spec_mapError (spec_touch hstatic (by simp))) fun _ => ?_
      exact spec_verifyOpenEntry hstatic _
  · rcases result with error | _
    · refine spec_bind (Q := fun _ _ => True) (spec_attempt ?_) fun _ => spec_throw fun _ _ =>
        trivial
      exact Spec.of_exec fun _ _ => ⟨fun _ _ _ => trivial, fun _ _ _ => trivial⟩
    · exact spec_pure fun fs h => h rfl

end Spec

/-! ### Entries -/

def isFile : Kind UInt32 Leaf → Bool
  | .leaf (.file ..) => true
  | _ => false

def isDirectory : Kind UInt32 Leaf → Bool
  | .directory _ => true
  | .leaf _ => false

def isSymlink : Kind UInt32 Leaf → Bool
  | .leaf (.symlink _) => true
  | _ => false

def isOther : Kind UInt32 Leaf → Bool
  | .leaf .other => true
  | _ => false

/-- The entries of the source were copied behind those of `d`, and counted.  `native` has the ends
of the native calls before, and `native'` after it. -/
structure Copied (native native' : List Name → Option Bool) (location : List Name)
    (d entries : Directory) (counts counts' : Counts) : Prop where
  fresh : ∀ n ∈ entries.allNames, d.get? n = none
  distinct : entries.Distinct
  supported : entries.pathsOf isOther location = []
  elsewhere : ∀ path, path ∉ entries.pathsOf isFile location → native' path = native path
  files : counts'.cloned + counts'.copied
    = counts.cloned + counts.copied + (entries.pathsOf isFile location).length
  cloned : (∀ path ∈ entries.pathsOf isFile location, native path = none) →
    counts'.cloned = counts.cloned
      + (entries.pathsOf isFile location).countP fun path => native' path = some true
  directories : counts'.directories
    = counts.directories + (entries.pathsOf isDirectory location).length
  symlinks : counts'.symlinks = counts.symlinks + (entries.pathsOf isSymlink location).length

section Entries

variable {native native' native'' : List Name → Option Bool} {location : List Name}
  {d rest : Directory} {counts counts' counts'' : Counts} {name : Name} {node : Entry}

theorem copied_nil (native : List Name → Option Bool) (location : List Name) (d : Directory)
    (counts : Counts) : Copied native native location d .nil counts counts where
  fresh _ h := absurd h List.not_mem_nil
  distinct := trivial
  supported := rfl
  elsewhere _ _ := rfl
  files := rfl
  cloned _ := rfl
  directories := rfl
  symlinks := rfl

/-- One entry, and then the others behind it. -/
theorem Copied.cons (h : Copied native native' location d (Dir.cons name node .nil) counts counts')
    (hrest : Copied native' native'' location (d.append (Dir.cons name node .nil)) rest counts'
      counts'') :
    Copied native native'' location d (Dir.cons name node rest) counts counts'' := by
  have hfree : d.get? name = none := h.fresh name
    (by rw [Dir.allNames_cons]; exact List.mem_cons_self)
  have happend : d.append (Dir.cons name node .nil) = d.insert name node :=
    (Dir.insert_eq_append node hfree).symm
  have hfresh : ∀ n ∈ rest.allNames, n ≠ name ∧ d.get? n = none := by
    intro n hn
    have hnone := hrest.fresh n hn
    rw [happend, Dir.get?_insert] at hnone
    by_cases hname : name = n
    · rw [if_pos hname] at hnone
      exact absurd hnone (by simp)
    · rw [if_neg hname] at hnone
      exact ⟨Ne.symm hname, hnone⟩
  have hname : name ∉ rest.allNames := fun hmem => (hfresh name hmem).1 rfl
  have hfiles := Dir.pathsOf_cons isFile location name node rest
  have hdistinct := h.distinct
  constructor
  · intro n hn
    rw [Dir.allNames_cons] at hn
    rcases List.mem_cons.mp hn with rfl | hmem
    · exact hfree
    · exact (hfresh n hmem).2
  · cases node with
    | leaf leaf => exact ⟨hname, hrest.distinct⟩
    | directory mode entries => exact ⟨hname, hdistinct.2.1, hrest.distinct⟩
  · rw [Dir.pathsOf_cons, h.supported, hrest.supported]
    rfl
  · intro path hpath
    rw [hfiles, List.mem_append, not_or] at hpath
    rw [hrest.elsewhere path hpath.2, h.elsewhere path hpath.1]
  · rw [hfiles, List.length_append, hrest.files, h.files]
    omega
  · intro hnone
    rw [hfiles] at hnone ⊢
    rw [List.countP_append]
    have hfirst := h.cloned fun path hpath => hnone path (List.mem_append_left _ hpath)
    have hlast := hrest.cloned fun path hpath => by
      rw [h.elsewhere path fun hin => Dir.disjoint_pathsOf hname hin hpath]
      exact hnone path (List.mem_append_right _ hpath)
    -- What is done for the others says nothing new of the files of the first entry.
    have hsame : ((Dir.cons name node .nil).pathsOf isFile location).countP
          (fun path => decide (native'' path = some true))
        = ((Dir.cons name node .nil).pathsOf isFile location).countP
          fun path => decide (native' path = some true) := by
      refine List.countP_congr fun path hpath => ?_
      rw [hrest.elsewhere path (Dir.disjoint_pathsOf hname hpath)]
    rw [hsame]
    omega
  · rw [Dir.pathsOf_cons, List.length_append, hrest.directories, h.directories]
    omega
  · rw [Dir.pathsOf_cons, List.length_append, hrest.symlinks, h.symlinks]
    omega

/-- A directory with what is in it. -/
theorem copied_directory {entries : Directory} {mode : UInt32} (hfree : d.get? name = none)
    (h : Copied native native' (location ++ [name]) .nil entries
      { counts with directories := counts.directories + 1 } counts') :
    Copied native native' location d (.directory name mode entries .nil) counts counts' := by
  have hpaths : ∀ p : Kind UInt32 Leaf → Bool, p (.directory mode) = false →
      (Dir.directory name mode entries .nil).pathsOf p location
        = entries.pathsOf p (location ++ [name]) := by
    intro p hp
    simp [Dir.pathsOf, hp]
  have hdirectories : (Dir.directory name mode entries .nil).pathsOf isDirectory location
      = (location ++ [name]) :: entries.pathsOf isDirectory (location ++ [name]) := by
    simp [Dir.pathsOf, isDirectory]
  constructor
  · intro n hn
    obtain rfl := List.mem_singleton.mp hn
    exact hfree
  · exact ⟨List.not_mem_nil, h.distinct, trivial⟩
  · rw [hpaths _ rfl]
    exact h.supported
  · rw [hpaths _ rfl]
    exact h.elsewhere
  · rw [hpaths _ rfl]
    exact h.files
  · rw [hpaths _ rfl]
    exact h.cloned
  · rw [hdirectories, List.length_cons, h.directories]
    show counts.directories + 1 + _ = _
    omega
  · rw [hpaths _ rfl]
    exact h.symlinks

theorem copied_file {mode : UInt32} {content : Bytes} (hfree : d.get? name = none) (cloned : Bool) :
    Copied native (noted native (location ++ [name]) cloned) location d
      (.leaf name (.file mode content) .nil) counts
      (if cloned then { counts with cloned := counts.cloned + 1 }
        else { counts with copied := counts.copied + 1 }) := by
  have hpaths : (Dir.leaf name (Leaf.file mode content) (.nil : Directory)).pathsOf isFile location
      = [location ++ [name]] := rfl
  constructor
  · intro n hn
    obtain rfl := List.mem_singleton.mp hn
    exact hfree
  · exact ⟨List.not_mem_nil, trivial⟩
  · rfl
  · intro path hpath
    rw [hpaths, List.mem_singleton] at hpath
    rw [noted, Function.update_of_ne hpath]
  · rw [hpaths]
    cases cloned
    · exact (Nat.add_assoc _ _ _).symm
    · show counts.cloned + 1 + counts.copied = counts.cloned + counts.copied + 1
      omega
  · intro hnone
    have hpath := hnone (location ++ [name]) (List.mem_singleton_self _)
    rw [hpaths, List.countP_singleton, noted, Function.update_self, hpath, Option.none_or]
    cases cloned
    · rfl
    · rfl
  · cases cloned
    · rfl
    · rfl
  · cases cloned
    · rfl
    · rfl

theorem copied_symlink {target : Bytes} (hfree : d.get? name = none) :
    Copied native native location d (.leaf name (.symlink target) .nil) counts
      { counts with symlinks := counts.symlinks + 1 } where
  fresh n hn := by
    obtain rfl := List.mem_singleton.mp hn
    exact hfree
  distinct := ⟨List.not_mem_nil, trivial⟩
  supported := rfl
  elsewhere _ _ := rfl
  files := rfl
  cloned _ := rfl
  directories := rfl
  symlinks := rfl

end Entries

section Copies

variable {s : Surroundings} {reflinks : Nat → Bool} {root d : Directory} {location : List Name}
  {native : List Name → Option Bool} (hstatic : ∀ tick, s.others tick = [])
include hstatic

/-- What is no directory. -/
theorem spec_cloneLeaf (henter : root.enter location = some d) (source destination : Bytes)
    (name : Name) (counts : Counts) (leaf : Leaf) :
    Spec (Stage s reflinks root native)
      (cloneLeaf s reflinks source destination location name counts leaf)
      (fun counts' fs => ∃ native', Copied native native' location d (.leaf name leaf .nil) counts
        counts'
        ∧ Stage s reflinks (root.modify (fun _ => d.insert name (.leaf leaf)) location) native' fs)
      fun _ => True := by
  cases leaf with
  | file mode content =>
    refine spec_bind (spec_inspectSource hstatic _ _) fun _ => ?_
    refine spec_bind (spec_inspectSource hstatic _ _) fun _ => ?_
    refine spec_bind (spec_verifySource hstatic _) fun _ => ?_
    refine spec_bind (spec_nativeCloneFile hstatic henter _ _ name content) fun cloned => ?_
    rintro fs ⟨hfree, hfs⟩
    -- Either way the file is there, with the content of the source.
    have hplaced : Spec (Stage s reflinks
        (if cloned then root.modify (fun _ => d.insert name (.leaf (.file 0o666 content))) location
          else root) (noted native (location ++ [name]) cloned))
        (if cloned then pure { counts with cloned := counts.cloned + 1 } else do
          copyOpenFile s source destination location name content
          pure { counts with copied := counts.copied + 1 } : PlatformCall Counts)
        (fun counts' fs => counts' = (if cloned then { counts with cloned := counts.cloned + 1 }
            else { counts with copied := counts.copied + 1 })
          ∧ Stage s reflinks (root.modify (fun _ => d.insert name (.leaf (.file 0o666 content)))
            location)
            (noted native (location ++ [name]) cloned) fs) fun _ => True := by
      cases cloned with
      | true => exact spec_pure fun fs h => ⟨rfl, h⟩
      | false =>
        refine spec_bind (spec_copyOpenFile hstatic henter _ _ name content (noted_ne_none _ _ _))
          fun _ => ?_
        exact spec_pure fun fs h => ⟨rfl, h⟩
    refine spec_bind hplaced (fun counts' => ?_) fs hfs
    rintro fs ⟨rfl, hfs⟩
    refine spec_bind (spec_verifySource hstatic _) (fun _ => ?_) fs hfs
    refine spec_bind (spec_mapError (spec_chmodFile hstatic henter name 0o666 mode content))
      fun _ => ?_
    exact spec_pure fun fs h => ⟨_, copied_file hfree cloned, h⟩
  | symlink target =>
    refine spec_bind (Q := fun _ => Stage s reflinks root native) ?_ fun _ => ?_
    · refine spec_bind (spec_mapError (spec_touch hstatic (by simp))) fun _ => ?_
      refine spec_bind (spec_ofResult (fun _ _ => trivial) fun _ _ _ h => h) fun _ => ?_
      exact spec_verifySource hstatic _
    · refine spec_bind (spec_mapError (spec_createEntry hstatic (by simp) henter _ _)) fun _ => ?_
      exact spec_pure fun fs h => ⟨native, copied_symlink h.1, h.2⟩
  | other => exact spec_throw fun _ _ => trivial

/-- The recursive copy. -/
theorem spec_cloneEntries (entries : Directory) (source destination : Bytes)
    (henter : root.enter location = some d) (counts : Counts) :
    Spec (Stage s reflinks root native)
      (cloneEntries s reflinks entries source destination location counts)
      (fun counts' fs => ∃ native', Copied native native' location d entries counts counts'
        ∧ Stage s reflinks (root.modify (fun _ => d.append entries) location) native' fs)
      fun _ => True := by
  induction entries generalizing root d location native source destination counts with
  | nil =>
    refine spec_bind (spec_inspectSource hstatic _ _) fun _ => spec_pure fun fs h => ?_
    refine ⟨native, copied_nil native location d counts, ?_⟩
    rw [Dir.append_nil, Dir.modify_eq_self henter rfl]
    exact h
  | leaf name leaf rest ih =>
    refine spec_bind (spec_inspectSource hstatic _ _) fun _ => ?_
    refine spec_bind (spec_inspectSource hstatic _ _) fun _ => ?_
    refine spec_bind (spec_cloneLeaf hstatic henter _ _ name counts leaf) fun counts₁ => ?_
    rintro fs ⟨native₁, hcopied, hfs⟩
    have hfree : d.get? name = none := hcopied.fresh name List.mem_cons_self
    have happend := Dir.insert_eq_append (.leaf leaf) hfree
    have hrest := @ih _ _ _ native₁ source destination (enter_placed henter name (.leaf leaf))
      counts₁
    refine Spec.imp hrest (fun _ h => h) ?_ (fun _ h => h) fs hfs
    rintro counts₂ fs' ⟨native₂, hcopied₂, hfs'⟩
    rw [happend] at hcopied₂ hfs'
    refine ⟨native₂, Copied.cons hcopied hcopied₂, ?_⟩
    rw [Dir.modify_modify, Dir.append_cons] at hfs'
    exact hfs'
  | directory name mode beneath rest ihbeneath ih =>
    refine spec_bind (spec_inspectSource hstatic _ _) fun _ => ?_
    refine spec_bind (spec_inspectSource hstatic _ _) fun _ => ?_
    refine spec_bind (spec_inspectSource hstatic _ _) fun _ => ?_
    refine spec_bind (spec_inspectSource hstatic _ _) fun _ => ?_
    refine spec_bind (spec_verifySource hstatic _) fun _ => ?_
    refine spec_bind (spec_mapError (spec_createEntry hstatic (by simp) henter name
      (.directory 0o777 .nil))) fun _ => ?_
    rintro fs ⟨hfree, hfs⟩
    have happend := Dir.insert_eq_append (.directory mode beneath) hfree
    have hinside : (root.modify (fun _ => d.insert name (.directory 0o777 .nil)) location).enter
        (location ++ [name]) = some .nil := by
      rw [Dir.enter_append, enter_placed henter, Option.bind_some, Dir.enter, Dir.get?_insert_self]
      rfl
    refine spec_bind (spec_inspectSource hstatic _ _) (fun _ => ?_) fs hfs
    refine spec_bind (ihbeneath _ _ hinside _) fun counts₁ => ?_
    rintro fs ⟨native₁, hcopied, hfs⟩
    -- The new directory has the entries of the source, and then gets its mode.
    have hfilled : (root.modify (fun _ => d.insert name (.directory 0o777 .nil)) location).modify
        (fun _ => Dir.nil.append beneath) (location ++ [name])
          = root.modify (fun _ => d.insert name (.directory 0o777 beneath)) location := by
      rw [Dir.modify_append]
      refine modify_placed henter _ ?_
      show (d.insert name _).modify _ [name] = _
      rw [Dir.modify, Dir.get?_insert_self]
      exact Dir.insert_insert _ _ _ _
    rw [hfilled] at hfs
    refine spec_bind (spec_verifyOpenEntry hstatic _) (fun _ => ?_) fs hfs
    refine spec_bind (spec_verifySource hstatic _) fun _ => ?_
    refine spec_bind (Q := fun _ => Stage s reflinks
        (root.modify (fun _ => d.insert name (.directory mode beneath)) location) native₁)
      (spec_mapError (Spec.imp (spec_change hstatic (by simp) (enter_placed henter name _) _)
        (fun _ h => h) ?_ fun _ h => h)) fun _ => ?_
    · rintro - fs ⟨d', hchmod, hstage⟩
      rw [Dir.get?_insert_self] at hchmod
      obtain rfl := Except.ok.inj hchmod
      rw [modify_placed henter _ (Dir.insert_insert _ _ _ _)] at hstage
      exact hstage
    · have hrest := @ih _ _ _ native₁ source destination
        (enter_placed henter name (.directory mode beneath)) counts₁
      refine Spec.imp hrest (fun _ h => h) ?_ fun _ h => h
      rintro counts₂ fs' ⟨native₂, hcopied₂, hfs'⟩
      rw [happend] at hcopied₂ hfs'
      refine ⟨native₂, Copied.cons
        (copied_directory hfree hcopied) hcopied₂, ?_⟩
      rw [Dir.modify_modify, Dir.append_cons] at hfs'
      exact hfs'

/-! ### Whole clones -/

omit hstatic in
theorem spec_true {σ ε α : Type} {P : σ → Prop} (m : Call σ ε α) :
    Spec P m (fun _ _ => True) fun _ => True :=
  Spec.of_exec fun _ _ => ⟨fun _ _ _ => trivial, fun _ _ _ => trivial⟩

theorem spec_destinationExists (live : Bytes → Bool) (name : Option Name) :
    Spec (Stage s reflinks root native) (destinationExists s live name)
      (fun _ => Stage s reflinks root native) fun _ => True := by
  refine spec_bind (Q := fun _ => Stage s reflinks root native) (spec_outcome ?_) fun found => ?_
  · refine Spec.imp (E := Stage s reflinks root native) ?_ (fun _ h => h) (fun _ _ h => h)
      fun _ h _ => h
    rcases name with _ | name
    · refine spec_syscall (fun _ h => h.turn hstatic (by simp)) fun fs a met hfs _ hok => ?_
      obtain ⟨-, rfl⟩ := Prod.mk.inj (Except.ok.inj hok)
      exact hfs.turn hstatic (by simp)
    · exact spec_inspectAt (fun _ h => h.turn hstatic (by simp))
        fun _ _ _ h _ _ _ => h.turn hstatic (by simp)
  · rcases found with _ | _
    · exact spec_pure fun _ h => h
    · exact spec_pure fun _ h => h

theorem spec_checkClone (entries : Directory)
    (source canonicalSource canonicalParent destination : Bytes) :
    Spec (Stage s reflinks root native)
      (checkClone s entries source canonicalSource canonicalParent destination)
      (fun name fs => Stage s reflinks root native fs ∧ fileName? destination = some name)
      fun _ => True := by
  refine spec_bind (spec_inspectSource hstatic _ _) fun _ => ?_
  refine spec_bind (spec_inspectSource hstatic _ _) fun _ => ?_
  refine spec_bind (spec_inspectSource hstatic _ _) fun _ => ?_
  refine spec_bind (spec_inspectSource hstatic _ _) fun _ => ?_
  refine spec_bind (spec_verifySource hstatic _) fun _ => ?_
  refine spec_bind (spec_inspectSource hstatic _ _) fun _ => ?_
  rcases fileName? destination with _ | name
  · exact spec_throw fun _ _ => trivial
  refine spec_bind (spec_ofResult (fun _ _ => trivial) fun _ _ _ h => h) fun _ => ?_
  refine spec_bind (spec_inspectSource hstatic _ _) fun _ => ?_
  rcases entries.get? gitName with _ | (_ | _)
  · exact spec_pure fun _ h => ⟨h, rfl⟩
  · exact spec_throw fun _ _ => trivial
  · exact spec_pure fun _ h => ⟨h, rfl⟩

theorem spec_inspectClonedGit (canonicalSource destination : Bytes) (name : Name) :
    Spec (Stage s reflinks root native) (inspectClonedGit s canonicalSource destination name)
      (fun _ => Stage s reflinks root native) fun _ => True := by
  refine spec_bind (Q := fun _ => Stage s reflinks root native) (spec_outcome ?_) fun found => ?_
  · exact Spec.imp (E := Stage s reflinks root native) (spec_inspectAt
      (fun _ h => h.turn hstatic (by simp)) fun _ _ _ h _ _ _ => h.turn hstatic (by simp))
      (fun _ h => h) (fun _ _ h => h) fun _ h _ => h
  · rcases found with error | linked
    · cases error
      all_goals first | exact spec_pure fun _ h => h | exact spec_throw fun _ _ => trivial
    · cases linked
      · exact spec_throw fun _ _ => trivial
      · exact spec_pure fun _ h => h

/-- The destination is a new directory with the entries and the mode of the source. -/
theorem spec_cloneTo (descriptors : Nat) (mode : UInt32) (entries : Directory)
    (canonicalSource canonicalDestination : Bytes) (name : Name) :
    Spec (Stage s reflinks root native)
      (cloneTo s reflinks descriptors mode entries canonicalSource canonicalDestination name)
      (fun report fs => ∃ native' counts, Copied native native' [name] .nil entries ⟨0, 0, 1, 0⟩
        counts
        ∧ report = counts.report ∧ root.get? name = none
        ∧ Stage s reflinks (root.insert name (.directory mode entries)) native' fs)
      fun _ => True := by
  have hcopy : Spec (Stage s reflinks root native) (do
      ioError "create directory" canonicalDestination (mkdirAt s [] name 0o777)
      cloneInto s reflinks mode entries canonicalSource canonicalDestination name :
        PlatformCall Counts)
      (fun counts fs => ∃ native', Copied native native' [name] .nil entries ⟨0, 0, 1, 0⟩ counts
        ∧ root.get? name = none
        ∧ Stage s reflinks (root.insert name (.directory mode entries)) native' fs)
      fun _ => True := by
    have henter : root.enter [] = some root := rfl
    refine spec_bind (spec_mapError (spec_createEntry hstatic (by simp) henter name
      (.directory 0o777 .nil))) fun _ => ?_
    rintro fs ⟨hfree, hfs⟩
    have hinside : (root.modify (fun _ => root.insert name (.directory 0o777 .nil)) []).enter [name]
        = some .nil := by
      show (root.insert name _).enter [name] = _
      rw [Dir.enter, Dir.get?_insert_self]
      rfl
    refine spec_bind (spec_inspectSource hstatic _ _) (fun _ => ?_) fs hfs
    refine spec_bind (spec_cloneEntries hstatic entries _ _ hinside _) fun counts => ?_
    rintro fs ⟨native', hcopied, hfs⟩
    have hfilled : (root.modify (fun _ => root.insert name (.directory 0o777 .nil)) []).modify
        (fun _ => Dir.nil.append entries) [name] = root.insert name (.directory 0o777 entries) := by
      show (root.insert name _).modify _ [name] = _
      rw [Dir.modify, Dir.get?_insert_self]
      exact Dir.insert_insert _ _ _ _
    rw [hfilled] at hfs
    refine spec_bind (spec_inspectClonedGit hstatic _ _ _) (fun _ => ?_) fs hfs
    refine spec_bind (spec_verifyOpenEntry hstatic _) fun _ => ?_
    refine spec_bind (spec_mapError (spec_change hstatic (by simp)
      (show (root.insert name _).enter [] = some _ from rfl) _)) fun _ => ?_
    refine spec_pure fun fs hfs => ?_
    obtain ⟨d', hchmod, hstage⟩ := hfs
    rw [Dir.get?_insert_self] at hchmod
    obtain rfl := Except.ok.inj hchmod
    rw [Dir.insert_insert] at hstage
    exact ⟨native', hcopied, hfree, hstage⟩
  refine spec_bind (spec_outcome (Q := fun result fs => ∀ counts, result = .ok counts →
    ∃ native', Copied native native' [name] .nil entries ⟨0, 0, 1, 0⟩ counts ∧ root.get? name = none
      ∧ Stage s reflinks (root.insert name (.directory mode entries)) native' fs) ?_) fun copy => ?_
  · refine hcopy.imp (fun _ h => h) (fun counts fs h other heq => ?_)
      fun _ _ _ _ heq => absurd heq Except.error_ne_ok
    obtain rfl := Except.ok.inj heq
    exact h
  · rcases copy with error | counts
    · exact spec_bind (spec_true _) fun _ => spec_throw fun _ _ => trivial
    · refine spec_pure fun fs h => ?_
      obtain ⟨native', hcopied, hfree, hstage⟩ := h counts rfl
      exact ⟨native', counts, hcopied, rfl, hfree, hstage⟩

end Copies

/-- The report of a clone of these entries, in which the native call succeeds for some of the files.
-/
def reportOf (entries : Directory) (location : List Name) (native : List Name → Bool) :
    CloneReport where
  strategy :=
    if (entries.pathsOf isFile location).all (!native ·) then .recursiveCopy
    else if (entries.pathsOf isFile location).all native then nativeCloneStrategy
    else .mixed
  clonedFiles := (entries.pathsOf isFile location).countP native
  copiedFiles := (entries.pathsOf isFile location).countP (!native ·)
  directories := (entries.pathsOf isDirectory location).length + 1
  symlinks := (entries.pathsOf isSymlink location).length

theorem Copied.report {native : List Name → Option Bool} {location : List Name}
    {d entries : Directory}
    {counts : Counts} (h : Copied (fun _ => none) native location d entries ⟨0, 0, 1, 0⟩ counts) :
    counts.report = reportOf entries location fun path => native path = some true := by
  have hcloned : counts.cloned = 0 + _ := h.cloned fun _ _ => rfl
  have hfiles : counts.cloned + counts.copied = 0 + 0 + _ := h.files
  have hsplit := List.length_eq_countP_add_countP (l := entries.pathsOf isFile location)
    (p := fun path => decide (native path = some true))
  have hcopied : counts.copied
      = (entries.pathsOf isFile location).countP fun path => !decide (native path = some true) := by
    have hnot : (entries.pathsOf isFile location).countP
          (fun path => decide ¬decide (native path = some true) = true)
        = (entries.pathsOf isFile location).countP fun path =>
          !decide (native path = some true) := by
      refine List.countP_congr fun path _ => ?_
      simp
    rw [← hnot]
    omega
  have hnone : counts.cloned = 0 ↔ (entries.pathsOf isFile location).all
      (fun path => !decide (native path = some true)) = true := by
    rw [hcloned, Nat.zero_add, List.countP_eq_zero, List.all_eq_true]
    simp
  have hall : counts.copied = 0 ↔ (entries.pathsOf isFile location).all
      (fun path => decide (native path = some true)) = true := by
    rw [hcopied, List.countP_eq_zero, List.all_eq_true]
    simp
  have hdirectories : counts.directories = 1 + _ := h.directories
  have hsymlinks : counts.symlinks = 0 + _ := h.symlinks
  simp only [Counts.report, reportOf, hnone, hall, CloneReport.mk.injEq, true_and]
  refine ⟨by omega, hcopied, by omega, by omega⟩

/-- **What a clone makes.**  In a directory that nobody else changes, a clone that succeeds adds one
entry, which is the tree of the source, and reports how its files came there. -/
theorem clone_copies {s : Surroundings} (hstatic : ∀ tick, s.others tick = [])
    (reflinks : Nat → Bool) (descriptors : Nat) (live : Bytes → Bool) (tree : Entry)
    (source canonicalSource canonicalParent destination : Bytes) {root : Directory}
    {report : CloneReport} {fs : FileSystem}
    (h : exec (cloneWorkspace s reflinks descriptors live tree source canonicalSource
      canonicalParent destination) (FileSystem.start root) = (.ok report, fs)) :
    ∃ name mode entries, fileName? destination = some name ∧ tree = .directory mode entries
      ∧ root.get? name = none ∧ fs.root = root.insert name tree
      ∧ entries.pathsOf isOther [name] = [] ∧ entries.Distinct
      ∧ report = reportOf entries [name] fun path =>
        firstWrite s reflinks fs.calls path = some true := by
  have hstart : Stage s reflinks root (fun _ => none) (FileSystem.start root) :=
    ⟨rfl, rfl, fun _ => rfl⟩
  have hspec : Spec (Stage s reflinks root fun _ => none)
      (cloneWorkspace s reflinks descriptors live tree source canonicalSource canonicalParent
        destination)
      (fun report fs => ∃ name mode entries native counts, fileName? destination = some name
        ∧ tree = .directory mode entries
        ∧ Copied (fun _ => none) native [name] .nil entries ⟨0, 0, 1, 0⟩ counts
        ∧ report = counts.report ∧ root.get? name = none
        ∧ Stage s reflinks (root.insert name (.directory mode entries)) native fs)
      fun _ => True := by
    refine spec_bind (spec_inspectSource hstatic _ _) fun _ => ?_
    rcases tree with _ | ⟨mode, entries⟩
    · exact spec_throw fun _ _ => trivial
    refine spec_bind (spec_destinationExists hstatic live _) fun found => ?_
    refine spec_bind (spec_ofResult (fun _ _ => trivial) fun _ _ _ h => h) fun _ => ?_
    refine spec_bind (spec_checkClone hstatic entries source canonicalSource canonicalParent
      destination) fun name => ?_
    refine spec_and_right fun hname => ?_
    refine (spec_cloneTo hstatic descriptors mode entries _ _ name).imp (fun _ h => h) ?_
      fun _ h => h
    rintro report fs ⟨native, counts, hcopied, hreport, hfree, hstage⟩
    exact ⟨name, mode, entries, native, counts, hname, rfl, hcopied, hreport, hfree, hstage⟩
  have hended := hspec _ hstart
  rw [h] at hended
  obtain ⟨name, mode, entries, native, counts, hname, rfl, hcopied, rfl, hfree, hstage⟩ := hended
  refine ⟨name, mode, entries, hname, rfl, hfree, hstage.root, hcopied.supported, hcopied.distinct,
    ?_⟩
  rw [hcopied.report]
  congr 1
  funext path
  rw [hstage.native]

end Rewind

/-
What a materialization makes.

* `restoredKind` — what an entry of a manifest becomes, and `Embodies` — that it is what the entry
  says;
* `planTree_within`, `planInstall_within` — what the parts of the plan make;
* **`materialize_exact`** — a materialization that succeeds, whatever fails in it, has put the
  tree of the manifest at the destination.
-/
import Rewind.Snapshot.Blueprint
import Rewind.Snapshot.Cloned
import Rewind.Snapshot.RelativePaths
import Rewind.Snapshot.Staging
import Rewind.Store.Persistence

namespace Rewind

open FileTree Call Workspace

/-! ### Layers -/

section Layers

variable {ε κ ν : Type} [DecidableEq κ]

/-- The value that an element puts at its key. -/
def lay (key : ε → κ) (put : ε → Option ν) (f : κ → Option ν) (e : ε) : κ → Option ν :=
  (put e).elim f fun value => Function.update f (key e) (some value)

variable {key : ε → κ} {put : ε → Option ν} {f : κ → Option ν}

theorem lay_apply (e : ε) (k : κ) :
    lay key put f e k = if k = key e then (put e).or (f k) else f k := by
  unfold lay
  rcases put e with _ | value
  · simp
  · rw [Option.elim_some]
    by_cases h : k = key e
    · rw [h, Function.update_self, if_pos rfl]
      rfl
    · rw [Function.update_of_ne h, if_neg h]

/-- A key at which nothing is put keeps its value. -/
theorem foldl_lay_of_none {es : List ε} {k : κ} (h : ∀ e ∈ es, key e = k → put e = none) :
    es.foldl (lay key put) f k = f k := by
  induction es generalizing f with
  | nil => rfl
  | cons e es ih =>
    obtain ⟨hfirst, hrest⟩ := List.forall_mem_cons.mp h
    rw [List.foldl_cons, ih hrest, lay_apply]
    by_cases hkey : k = key e
    · rw [if_pos hkey, hfirst hkey.symm]
      rfl
    · rw [if_neg hkey]

/-- Where the keys are distinct, each element has put its value at its key. -/
theorem foldl_lay_of_mem {es : List ε} (hkeys : (es.map key).Nodup) {e : ε} (he : e ∈ es) :
    es.foldl (lay key put) f (key e) = (put e).or (f (key e)) := by
  induction es generalizing f with
  | nil => exact absurd he List.not_mem_nil
  | cons first es ih =>
    rw [List.map_cons, List.nodup_cons] at hkeys
    rw [List.foldl_cons]
    rcases List.mem_cons.mp he with rfl | hlater
    · rw [foldl_lay_of_none, lay_apply, if_pos rfl]
      exact fun e' he' hkey => absurd (hkey ▸ List.mem_map_of_mem he') hkeys.1
    · rw [ih hkeys.2 hlater, lay_apply, if_neg]
      exact fun hkey => hkeys.1 (hkey ▸ List.mem_map_of_mem hlater)

end Layers

/-! ### A tree under a private name -/

namespace Workspace

/-- The same with a private tree. -/
def within (w : Workspace) (name : Name) (tree : Directory) : Workspace :=
  { w with root := w.root.insert name (.directory 0o700 tree) }

variable {w w' : Workspace} {name : Name} {tree : Directory}

theorem enter_within (location : List Name) :
    (w.within name tree).root.enter (name :: location) = tree.enter location := by
  rw [within, Dir.enter, Dir.get?_insert_self]

theorem replace_within (location : List Name) (entries : Directory) :
    (w.within name tree).replace (name :: location) entries
      = w.within name (tree.modify (fun _ => entries) location) := by
  simp only [within, replace, Dir.modify, Dir.get?_insert_self, Dir.insert_insert]

variable {path : SnapshotPath}

/-- The directory that a path is in, and the name there. -/
theorem exists_components (path : SnapshotPath) :
    ∃ components last, splitSlash path.text = components ++ [last] :=
  ⟨_, _, (List.dropLast_append_getLast (splitSlash_ne_nil _)).symm⟩

/-- A change beneath the private tree. -/
theorem changeBeneath_eq_some_iff {components : List Name} {last : Name}
    (hsplit : splitSlash path.text = components ++ [last])
    {f : Name → Directory → Option Directory} :
    changeBeneath [name] path.text f (w.within name tree) = some ((), w')
      ↔ ∃ entries entries', tree.enter components = some entries ∧ f last entries = some entries'
        ∧ w' = w.within name (tree.modify (fun _ => entries') components) := by
  have hrelative : relativeComponents path.text = .ok (components ++ [last]) := by
    rw [(check_eq_ok_iff.mp path.accepted).relativeComponents, hsplit]
  rw [changeBeneath, hrelative]
  show ((w.within name tree).root.enter ([name] ++ (components ++ [last]).dropLast)).bind _ = _ ↔ _
  rw [List.dropLast_concat, List.getLastD_concat, List.singleton_append, enter_within]
  rcases tree.enter components with _ | entries
  · simp
  · rcases hf : f last entries with _ | entries'
    · simp [hf]
    · simp only [Option.bind_some, hf, Option.bind_eq_bind, replace_within]
      constructor
      · intro h
        exact ⟨entries, entries', rfl, hf, (Prod.mk.inj (Option.some.inj h)).2.symm⟩
      · rintro ⟨found, found', hfound, hf', rfl⟩
        obtain rfl := Option.some.inj hfound
        obtain rfl := Option.some.inj (hf.symm.trans hf')
        rfl

/-- What a new entry makes of the private tree. -/
theorem addBeneath_within {node : Entry} (hbare : ∀ n rest, node.kindAt (n :: rest) = none)
    (h : addBeneath [name] path.text node (w.within name tree) = some ((), w')) :
    ∃ tree', w' = w.within name tree'
      ∧ tree'.kindAt = Function.update tree.kindAt (splitSlash path.text) (some node.kind) := by
  obtain ⟨components, last, hsplit⟩ := exists_components path
  obtain ⟨entries, entries', henter, hnew, rfl⟩ := (changeBeneath_eq_some_iff hsplit).mp h
  refine ⟨_, rfl, ?_⟩
  rw [newEntry] at hnew
  by_cases htaken : (entries.get? last).isSome
  · rw [if_pos htaken] at hnew
    exact absurd hnew (by simp)
  · rw [if_neg htaken] at hnew
    obtain rfl := Option.some.inj hnew
    rw [Dir.kindAt_modify_insert henter, hsplit]
    intro n rest
    rw [Option.not_isSome_iff_eq_none.mp htaken, hbare]
    rfl

/-- An entry can be added in a directory that has no other at its name. -/
theorem exists_addBeneath (w : Workspace) (name : Name) (node : Entry)
    (hnew : tree.kindAt (splitSlash path.text) = none)
    (hparent : (splitSlash path.text).dropLast = []
      ∨ ∃ mode, tree.kindAt (splitSlash path.text).dropLast = some (.directory mode)) :
    ∃ w', addBeneath [name] path.text node (w.within name tree) = some ((), w') := by
  obtain ⟨components, last, hsplit⟩ := exists_components path
  rw [hsplit, List.dropLast_concat] at hparent
  obtain ⟨entries, henter⟩ : ∃ entries, tree.enter components = some entries := by
    rcases hparent with rfl | ⟨mode, hmode⟩
    · exact ⟨tree, rfl⟩
    · exact Dir.exists_enter hmode
  have hfree : entries.get? last = none := by
    rw [hsplit, ← Dir.get?_kind henter] at hnew
    exact Option.map_eq_none_iff.mp hnew
  have hentries : newEntry node last entries = some (entries.insert last node) := by
    rw [newEntry, hfree]
    rfl
  exact ⟨_, (changeBeneath_eq_some_iff hsplit).mpr ⟨entries, _, henter, hentries, rfl⟩⟩

theorem setModeBeneath_within {mode : UInt32}
    (h : setModeBeneath [name] path.text mode (w.within name tree) = some ((), w')) :
    ∃ tree', w' = w.within name tree' ∧ tree'.kindAt
      = Function.update tree.kindAt (splitSlash path.text) (some (.directory mode)) := by
  obtain ⟨components, last, hsplit⟩ := exists_components path
  obtain ⟨entries, entries', henter, hnew, rfl⟩ := (changeBeneath_eq_some_iff hsplit).mp h
  refine ⟨_, rfl, ?_⟩
  rcases hget : entries.get? last with _ | (content | ⟨mode', beneath⟩)
  · rw [newDirectoryMode_of_not_directory (by simp [hget])] at hnew
    exact absurd hnew (by simp)
  · rw [newDirectoryMode_of_not_directory (by simp [hget])] at hnew
    exact absurd hnew (by simp)
  · rw [newDirectoryMode_of_directory hget] at hnew
    obtain rfl := Option.some.inj hnew
    rw [Dir.kindAt_modify_insert henter, hsplit]
    · rfl
    · intro n rest
      rw [hget, Option.bind_some, Dir.kindAt_directory_cons, Dir.kindAt_directory_cons]

theorem exists_setModeBeneath (w : Workspace) (name : Name) (mode : UInt32) {mode' : UInt32}
    (hdirectory : tree.kindAt (splitSlash path.text) = some (.directory mode')) :
    ∃ w', setModeBeneath [name] path.text mode (w.within name tree) = some ((), w') := by
  obtain ⟨components, last, hsplit⟩ := exists_components path
  rw [hsplit, Dir.kindAt_append] at hdirectory
  obtain ⟨entries, henter, hkind⟩ := Option.bind_eq_some_iff.mp hdirectory
  obtain ⟨node, hget, hnode⟩ := Option.bind_eq_some_iff.mp hkind
  rw [Node.kindAt_nil] at hnode
  rcases node with content | ⟨mode'', beneath⟩
  · exact absurd hnode (by simp [Node.kind])
  · exact ⟨_, (changeBeneath_eq_some_iff hsplit).mpr ⟨entries, _, henter,
      newDirectoryMode_of_directory hget, rfl⟩⟩

/-- A loop that fills the private tree, and what it keeps of the part it has gone through. -/
theorem foldlM_within {α R : Type} {step : R → α → Plan Workspace R}
    {I : List α → R → (List Name → Option (Kind UInt32 Leaf)) → Prop}
    (hstep : ∀ before a r tree r' w', I before r tree.kindAt →
      step r a (w.within name tree) = some (r', w') →
      ∃ tree', w' = w.within name tree' ∧ I (before ++ [a]) r' tree'.kindAt)
    (before : List α) {as : List α} {r r' : R} (hI : I before r tree.kindAt)
    (h : as.foldlM step r (w.within name tree) = some (r', w')) :
    ∃ tree', w' = w.within name tree' ∧ I (before ++ as) r' tree'.kindAt := by
  induction as generalizing before r tree with
  | nil =>
    obtain ⟨rfl, rfl⟩ := Plan.pure_eq_some_iff.mp h
    rw [List.append_nil]
    exact ⟨tree, rfl, hI⟩
  | cons a as ih =>
    obtain ⟨c, u, hfirst, hrest⟩ := Plan.foldlM_cons_eq_some_iff.mp h
    obtain ⟨next, rfl, hnext⟩ := hstep before a r tree c u hI hfirst
    obtain ⟨last, rfl, hlast⟩ := ih (before ++ [a]) hnext hrest
    rw [List.append_assoc, List.singleton_append] at hlast
    exact ⟨last, rfl, hlast⟩

/-- The loop goes through if it can take the next step wherever it is. -/
theorem exists_foldlM_within {α R : Type} {f : R → α → Plan Workspace R} (w : Workspace)
    (name : Name) {I : List α → R → (List Name → Option (Kind UInt32 Leaf)) → Prop}
    (hstep : ∀ before a r tree r' w', I before r tree.kindAt →
      f r a (w.within name tree) = some (r', w') →
      ∃ tree', w' = w.within name tree' ∧ I (before ++ [a]) r' tree'.kindAt)
    {all : List α} (hpossible : ∀ before a after r tree, all = before ++ a :: after →
      I before r tree.kindAt → ∃ r' w', f r a (w.within name tree) = some (r', w'))
    {before as : List α} (hall : all = before ++ as) {r : R} {tree : Directory}
    (hI : I before r tree.kindAt) :
    ∃ r' tree', as.foldlM f r (w.within name tree) = some (r', w.within name tree')
      ∧ I all r' tree'.kindAt := by
  induction as generalizing before r tree with
  | nil =>
    rw [List.append_nil] at hall
    subst hall
    exact ⟨r, tree, rfl, hI⟩
  | cons a as ih =>
    obtain ⟨c, u, hfirst⟩ := hpossible before a as r tree hall hI
    obtain ⟨next, rfl, hnext⟩ := hstep before a r tree c u hI hfirst
    have hrest : all = (before ++ [a]) ++ as := by rw [hall, List.append_assoc]; rfl
    obtain ⟨r', last, hloop, hlast⟩ := ih hrest hnext
    exact ⟨r', last, Plan.foldlM_cons_eq_some_iff.mpr ⟨c, _, hfirst, hloop⟩, hlast⟩

end Workspace

/-! ### What the entries become -/

namespace SnapshotEntryKind

def isDirectory : SnapshotEntryKind → Bool
  | .directory => true
  | _ => false

def isFile : SnapshotEntryKind → Bool
  | .file .. => true
  | _ => false

def isSymlink : SnapshotEntryKind → Bool
  | .symlink _ => true
  | _ => false

end SnapshotEntryKind

namespace Restore

/-- The names on the way to an entry. -/
def entryKey (entry : SnapshotEntry) : List Name := splitSlash entry.path.text

section Entries

variable (codecs : Codecs) (store : Files)

/-- What an entry becomes, if the store has what it needs. -/
def restoredKind (entry : SnapshotEntry) : Option (Kind UInt32 Leaf) :=
  match entry.kind with
  | .directory => some (.directory entry.permissions.bits.toUInt32)
  | .file objectId size _ => (payload codecs store objectId size).map fun bytes =>
    .leaf (.file entry.permissions.bits.toUInt32 bytes)
  | .symlink target => some (.leaf (.symlink (utf8 target)))

/-- What stands at a path of the tree that a manifest describes. -/
def restoredAt (snapshot : Snapshot) (path : List Name) : Option (Kind UInt32 Leaf) :=
  (snapshot.manifest.entries.find? fun entry => entryKey entry = path).bind
    (restoredKind codecs store)

/-- What stands at the path of an entry is what the entry says: a file has the digest and the size
of its object. -/
def Embodies (entry : SnapshotEntry) : Kind UInt32 Leaf → Prop
  | .directory mode => entry.kind = .directory ∧ mode = entry.permissions.bits.toUInt32
  | .leaf (.file mode bytes) => (∃ size executable,
      entry.kind = .file (ObjectId.digestOf codecs bytes) size executable
        ∧ bytes.length = size.toNat)
      ∧ mode = entry.permissions.bits.toUInt32
  | .leaf (.symlink target) => ∃ text, entry.kind = .symlink text ∧ target = utf8 text
  | .leaf .other => False

/-- The entry is no file that is too large or that the store has not. -/
def Loadable (maximum : UInt64) (entry : SnapshotEntry) : Prop :=
  match entry.kind with
  | .file objectId size _ => size ≤ maximum ∧ (payload codecs store objectId size).isSome
  | _ => True

variable {codecs store}

theorem payload_eq_some_iff {id : ObjectId} {size : UInt64} {bytes : Bytes} :
    payload codecs store id size = some bytes
      ↔ objectBytes codecs store id size = some bytes ∧ UInt64.ofNat bytes.length = size := by
  rw [payload]
  rcases objectBytes codecs store id size with _ | found
  · simp
  · by_cases hsize : UInt64.ofNat found.length = size
    · simp only [Option.bind_eq_bind, Option.bind_some, hsize, if_true, Option.some.injEq]
      constructor
      · rintro rfl
        exact ⟨rfl, hsize⟩
      · exact fun h => h.1
    · simp only [Option.bind_eq_bind, Option.bind_some, hsize, if_false, reduceCtorEq,
        Option.some.injEq, false_iff, not_and]
      rintro rfl
      exact hsize

theorem readObject_of_objectBytes {id : ObjectId} {size : UInt64} {bytes : Bytes}
    (h : objectBytes codecs store id size = some bytes) :
    ∃ content, store.node? (pathFor id) = some (.file content)
      ∧ readObject codecs id size.toNat content = .ok bytes := by
  unfold objectBytes at h
  split at h
  case h_1 content hnode => exact ⟨content, hnode, Except.toOption_eq_some_iff.mp h⟩
  case h_2 => exact absurd h (by simp)

theorem length_of_payload {id : ObjectId} {size : UInt64} {bytes : Bytes}
    (h : payload codecs store id size = some bytes) : bytes.length = size.toNat := by
  obtain ⟨hbytes, hsize⟩ := payload_eq_some_iff.mp h
  obtain ⟨content, -, hread⟩ := readObject_of_objectBytes hbytes
  have hshort := length_le_of_readObject hread
  have hbound := UInt64.toNat_lt size
  rw [← hsize, UInt64.toNat_ofNat_of_lt' (show bytes.length < 2 ^ 64 by omega)]

theorem exists_restoredKind {maximum : UInt64} {entry : SnapshotEntry}
    (h : Loadable codecs store maximum entry) :
    ∃ kind, restoredKind codecs store entry = some kind := by
  unfold Loadable at h
  unfold restoredKind
  cases hkind : entry.kind with
  | directory => exact ⟨_, rfl⟩
  | file objectId size executable =>
    rw [hkind] at h
    obtain ⟨bytes, hbytes⟩ := Option.isSome_iff_exists.mp h.2
    exact ⟨_, Option.map_eq_some_iff.mpr ⟨bytes, hbytes, rfl⟩⟩
  | symlink target => exact ⟨_, rfl⟩

theorem embodies_of_restoredKind {entry : SnapshotEntry} {kind : Kind UInt32 Leaf}
    (h : restoredKind codecs store entry = some kind) : Embodies codecs entry kind := by
  unfold restoredKind at h
  cases hkind : entry.kind with
  | directory =>
    rw [hkind] at h
    obtain rfl := Option.some.inj h
    exact ⟨hkind, rfl⟩
  | file objectId size executable =>
    rw [hkind] at h
    obtain ⟨bytes, hpayload, rfl⟩ := Option.map_eq_some_iff.mp h
    obtain ⟨hbytes, -⟩ := payload_eq_some_iff.mp hpayload
    obtain ⟨content, -, hread⟩ := readObject_of_objectBytes hbytes
    obtain ⟨-, hdigest⟩ := readObject_ok hread
    exact ⟨⟨size, executable, by rw [hkind, hdigest], length_of_payload hpayload⟩, rfl⟩
  | symlink target =>
    rw [hkind] at h
    obtain rfl := Option.some.inj h
    exact ⟨target, hkind, rfl⟩

end Entries

/-- The report when the loops have gone through these entries. -/
def tallied (directories files symlinks : List SnapshotEntry) : MaterializeReport where
  destination := []
  files := files.countP (·.kind.isFile)
  directories := directories.countP (·.kind.isDirectory)
  symlinks := symlinks.countP (·.kind.isSymlink)
  logicalBytes := UInt64.ofNat (files.map SnapshotEntry.logicalSize).sum
  warnings := (symlinks.filter (·.kind.isSymlink)).map fun entry =>
    .symlinkPermissionsNotRestored entry.path entry.permissions.bits

/-- The report of a materialization. -/
def fullReport (snapshot : Snapshot) (destination : Bytes) : MaterializeReport :=
  { tallied snapshot.manifest.entries snapshot.manifest.entries snapshot.manifest.entries with
    destination }

section Loops

variable {codecs : Codecs} {store : Files} {w w' : Workspace} {name : Name}

/-- What the loops put at the paths of the entries: first private directories, then the files and
the links, and then the modes of the directories. -/
def directoryPut (entry : SnapshotEntry) : Option (Kind UInt32 Leaf) :=
  if entry.kind.isDirectory then some (.directory 0o700) else none

def filePut (codecs : Codecs) (store : Files) (entry : SnapshotEntry) :
    Option (Kind UInt32 Leaf) :=
  if entry.kind.isFile then restoredKind codecs store entry else none

def symlinkPut (codecs : Codecs) (store : Files) (entry : SnapshotEntry) :
    Option (Kind UInt32 Leaf) :=
  if entry.kind.isSymlink then restoredKind codecs store entry else none

def modePut (codecs : Codecs) (store : Files) (entry : SnapshotEntry) :
    Option (Kind UInt32 Leaf) :=
  if entry.kind.isDirectory then restoredKind codecs store entry else none

/-- How far the loop over directories has come. -/
def DirectoriesMade (before : List SnapshotEntry) (report : MaterializeReport)
    (kinds : List Name → Option (Kind UInt32 Leaf)) : Prop :=
  report = tallied before [] [] ∧ kinds = before.foldl (lay entryKey directoryPut) fun _ => none

theorem planDirectory_within {before : List SnapshotEntry} {entry : SnapshotEntry}
    {report report' : MaterializeReport} {tree : Directory}
    (hmade : DirectoriesMade before report tree.kindAt)
    (h : planDirectory [name] report entry (w.within name tree) = some (report', w')) :
    ∃ tree', w' = w.within name tree'
      ∧ DirectoriesMade (before ++ [entry]) report' tree'.kindAt := by
  obtain ⟨rfl, hkinds⟩ := hmade
  unfold planDirectory at h
  unfold DirectoriesMade
  rw [List.foldl_append, ← hkinds]
  cases hkind : entry.kind with
  | directory =>
    rw [hkind] at h
    obtain ⟨_, u, hadd, hpure⟩ := Plan.bind_eq_some_iff.mp h
    obtain ⟨rfl, rfl⟩ := Plan.pure_eq_some_iff.mp hpure
    obtain ⟨tree', rfl, hkinds'⟩ := addBeneath_within (fun n rest => by
      rw [Dir.kindAt_directory_cons, Dir.nil_kindAt]) hadd
    refine ⟨tree', rfl, ?_, ?_⟩
    · simp [tallied, hkind, SnapshotEntryKind.isDirectory]
    · rw [hkinds']
      simp [lay, directoryPut, hkind, SnapshotEntryKind.isDirectory, entryKey, Node.kind]
  | file =>
    rw [hkind] at h
    obtain ⟨rfl, rfl⟩ := Plan.pure_eq_some_iff.mp h
    refine ⟨tree, rfl, ?_, ?_⟩
    · simp [tallied, hkind, SnapshotEntryKind.isDirectory]
    · simp [lay, directoryPut, hkind, SnapshotEntryKind.isDirectory]
  | symlink =>
    rw [hkind] at h
    obtain ⟨rfl, rfl⟩ := Plan.pure_eq_some_iff.mp h
    refine ⟨tree, rfl, ?_, ?_⟩
    · simp [tallied, hkind, SnapshotEntryKind.isDirectory]
    · simp [lay, directoryPut, hkind, SnapshotEntryKind.isDirectory]

/-- How far the loop over files has come. -/
structure FilesMade (codecs : Codecs) (store : Files) (maximum : UInt64)
    (directories : List SnapshotEntry) (first : List Name → Option (Kind UInt32 Leaf))
    (before : List SnapshotEntry) (report : MaterializeReport)
    (kinds : List Name → Option (Kind UInt32 Leaf)) : Prop where
  report_eq : report = tallied directories before []
  fits : (before.map SnapshotEntry.logicalSize).sum < 2 ^ 64
  loaded : ∀ entry ∈ before, Loadable codecs store maximum entry
  kinds_eq : kinds = before.foldl (lay entryKey (filePut codecs store)) first

theorem planFile_within {maximum : UInt64} {directories before : List SnapshotEntry}
    {first : List Name → Option (Kind UInt32 Leaf)} {entry : SnapshotEntry}
    {report report' : MaterializeReport} {tree : Directory}
    (hmade : FilesMade codecs store maximum directories first before report tree.kindAt)
    (h : planFile codecs store [name] maximum report entry (w.within name tree)
      = some (report', w')) : ∃ tree', w' = w.within name tree'
      ∧ FilesMade codecs store maximum directories first (before ++ [entry]) report'
        tree'.kindAt := by
  obtain ⟨rfl, hfits, hloaded, hkinds⟩ := hmade
  unfold planFile at h
  have hskip : entry.kind.isFile = false → report' = tallied directories before []
      → w' = w.within name tree → Loadable codecs store maximum entry
      → entry.logicalSize = 0 → ∃ tree', w' = w.within name tree'
        ∧ FilesMade codecs store maximum directories first (before ++ [entry]) report'
          tree'.kindAt := by
    rintro hkind rfl rfl hloadable hsize
    refine ⟨tree, rfl, ?_, ?_, ?_, ?_⟩
    · simp [tallied, hkind, hsize]
    · simpa [hsize] using hfits
    · simpa [or_imp, forall_and] using ⟨hloaded, hloadable⟩
    · rw [List.foldl_append, ← hkinds]
      simp [lay, filePut, hkind]
  cases hkind : entry.kind with
  | directory =>
    rw [hkind] at h
    obtain ⟨rfl, rfl⟩ := Plan.pure_eq_some_iff.mp h
    exact hskip (by rw [hkind]; rfl) rfl rfl (by simp [Loadable, hkind])
      (by rw [SnapshotEntry.logicalSize, hkind])
  | file objectId size executable =>
    rw [hkind] at h
    obtain ⟨_, u, hcheck, h⟩ := Plan.bind_eq_some_iff.mp h
    obtain ⟨hsize, rfl⟩ := Plan.check_eq_some_iff.mp hcheck
    obtain ⟨bytes, u, hlift, h⟩ := Plan.bind_eq_some_iff.mp h
    obtain ⟨hbytes, rfl⟩ := Plan.lift_eq_some_iff.mp hlift
    obtain ⟨_, u, hadd, h⟩ := Plan.bind_eq_some_iff.mp h
    obtain ⟨_, u', hcheck, hpure⟩ := Plan.bind_eq_some_iff.mp h
    obtain ⟨hsum, rfl⟩ := Plan.check_eq_some_iff.mp hcheck
    obtain ⟨rfl, rfl⟩ := Plan.pure_eq_some_iff.mp hpure
    obtain ⟨tree', rfl, hkinds'⟩ := addBeneath_within (fun n rest => by
      rw [Dir.kindAt_leaf_cons]) hadd
    have hlogical : entry.logicalSize = size.toNat := by rw [SnapshotEntry.logicalSize, hkind]
    have htotal : (tallied directories before []).logicalBytes.toNat
        = (before.map SnapshotEntry.logicalSize).sum := by
      rw [tallied, UInt64.toNat_ofNat_of_lt' hfits]
    rw [htotal] at hsum
    refine ⟨tree', rfl, ?_, ?_, ?_, ?_⟩
    · simp [tallied, hkind, hlogical, SnapshotEntryKind.isFile]
    · simpa [hlogical] using hsum
    · have hloadable : Loadable codecs store maximum entry := by
        rw [Loadable, hkind]
        exact ⟨hsize, Option.isSome_iff_exists.mpr ⟨bytes, hbytes⟩⟩
      simpa [or_imp, forall_and] using ⟨hloaded, hloadable⟩
    · rw [List.foldl_append, ← hkinds, hkinds']
      simp [lay, filePut, hkind, SnapshotEntryKind.isFile, restoredKind, hbytes, entryKey,
        Node.kind]
  | symlink target =>
    rw [hkind] at h
    obtain ⟨rfl, rfl⟩ := Plan.pure_eq_some_iff.mp h
    exact hskip (by rw [hkind]; rfl) rfl rfl (by simp [Loadable, hkind])
      (by rw [SnapshotEntry.logicalSize, hkind])

/-- How far the loop over links has come. -/
def SymlinksMade (codecs : Codecs) (store : Files) (made : List SnapshotEntry)
    (first : List Name → Option (Kind UInt32 Leaf)) (before : List SnapshotEntry)
    (report : MaterializeReport) (kinds : List Name → Option (Kind UInt32 Leaf)) : Prop :=
  report = tallied made made before
    ∧ kinds = before.foldl (lay entryKey (symlinkPut codecs store)) first

theorem planSymlink_within {made before : List SnapshotEntry}
    {first : List Name → Option (Kind UInt32 Leaf)} {entry : SnapshotEntry}
    {report report' : MaterializeReport} {tree : Directory}
    (hmade : SymlinksMade codecs store made first before report tree.kindAt)
    (h : planSymlink [name] report entry (w.within name tree) = some (report', w')) :
    ∃ tree', w' = w.within name tree'
      ∧ SymlinksMade codecs store made first (before ++ [entry]) report' tree'.kindAt := by
  obtain ⟨rfl, hkinds⟩ := hmade
  unfold planSymlink at h
  unfold SymlinksMade
  rw [List.foldl_append, ← hkinds]
  cases hkind : entry.kind with
  | directory =>
    rw [hkind] at h
    obtain ⟨rfl, rfl⟩ := Plan.pure_eq_some_iff.mp h
    refine ⟨tree, rfl, ?_, ?_⟩
    · simp [tallied, hkind, SnapshotEntryKind.isSymlink]
    · simp [lay, symlinkPut, hkind, SnapshotEntryKind.isSymlink]
  | file =>
    rw [hkind] at h
    obtain ⟨rfl, rfl⟩ := Plan.pure_eq_some_iff.mp h
    refine ⟨tree, rfl, ?_, ?_⟩
    · simp [tallied, hkind, SnapshotEntryKind.isSymlink]
    · simp [lay, symlinkPut, hkind, SnapshotEntryKind.isSymlink]
  | symlink target =>
    rw [hkind] at h
    obtain ⟨_, u, hadd, hpure⟩ := Plan.bind_eq_some_iff.mp h
    obtain ⟨rfl, rfl⟩ := Plan.pure_eq_some_iff.mp hpure
    obtain ⟨tree', rfl, hkinds'⟩ := addBeneath_within (fun n rest => by
      rw [Dir.kindAt_leaf_cons]) hadd
    refine ⟨tree', rfl, ?_, ?_⟩
    · simp [tallied, hkind, SnapshotEntryKind.isSymlink]
    · rw [hkinds']
      simp [lay, symlinkPut, hkind, SnapshotEntryKind.isSymlink, restoredKind, entryKey, Node.kind]

/-- How far the loop over the modes has come. -/
def ModesSet (codecs : Codecs) (store : Files) (first : List Name → Option (Kind UInt32 Leaf))
    (before : List SnapshotEntry) (_ : PUnit) (kinds : List Name → Option (Kind UInt32 Leaf)) :
    Prop := kinds = before.foldl (lay entryKey (modePut codecs store)) first

theorem planMode_within {before : List SnapshotEntry}
    {first : List Name → Option (Kind UInt32 Leaf)} {entry : SnapshotEntry} {u u' : PUnit}
    {tree : Directory} (hset : ModesSet codecs store first before u tree.kindAt)
    (h : planMode [name] entry (w.within name tree) = some (u', w')) :
    ∃ tree', w' = w.within name tree'
      ∧ ModesSet codecs store first (before ++ [entry]) u' tree'.kindAt := by
  unfold ModesSet at hset ⊢
  unfold planMode at h
  rw [List.foldl_append, ← hset]
  cases hkind : entry.kind with
  | directory =>
    rw [hkind] at h
    obtain ⟨tree', rfl, hkinds'⟩ := setModeBeneath_within h
    refine ⟨tree', rfl, ?_⟩
    rw [hkinds']
    simp [lay, modePut, hkind, SnapshotEntryKind.isDirectory, restoredKind, entryKey]
  | file =>
    rw [hkind] at h
    obtain ⟨-, rfl⟩ := Plan.pure_eq_some_iff.mp h
    exact ⟨tree, rfl, by simp [lay, modePut, hkind, SnapshotEntryKind.isDirectory]⟩
  | symlink =>
    rw [hkind] at h
    obtain ⟨-, rfl⟩ := Plan.pure_eq_some_iff.mp h
    exact ⟨tree, rfl, by simp [lay, modePut, hkind, SnapshotEntryKind.isDirectory]⟩

/-- What the four loops make of nothing. -/
def layers (codecs : Codecs) (store : Files) (entries : List SnapshotEntry) :
    List Name → Option (Kind UInt32 Leaf) :=
  entries.reverse.foldl (lay entryKey (modePut codecs store))
    (entries.foldl (lay entryKey (symlinkPut codecs store))
      (entries.foldl (lay entryKey (filePut codecs store))
        (entries.foldl (lay entryKey directoryPut) fun _ => none)))

/-- No two entries of a manifest have the same names on their ways. -/
theorem nodup_entryKey (manifest : SnapshotManifest) : (manifest.entries.map entryKey).Nodup := by
  rw [List.Nodup, List.pairwise_map]
  refine manifest.ordered.imp fun {e e'} hlt hkey => ?_
  rw [splitSlash_injective hkey] at hlt
  exact lt_irrefl _ hlt

/-- The entry at the path of an entry is that entry. -/
theorem find?_entryKey {manifest : SnapshotManifest} {entry : SnapshotEntry}
    (h : entry ∈ manifest.entries) :
    (manifest.entries.find? fun e => entryKey e = entryKey entry) = some entry := by
  obtain ⟨found, hfound⟩ : ∃ found,
      (manifest.entries.find? fun e => entryKey e = entryKey entry) = some found :=
    Option.isSome_iff_exists.mp (List.find?_isSome.mpr ⟨entry, h, by simp⟩)
  rw [hfound, List.inj_on_of_nodup_map (nodup_entryKey manifest)
    (List.mem_of_find?_eq_some hfound) h (by simpa using List.find?_some hfound)]

/-- The loops leave what the entries become. -/
theorem layers_eq (snapshot : Snapshot) (path : List Name) :
    layers codecs store snapshot.manifest.entries path = restoredAt codecs store snapshot path := by
  have hkeys := nodup_entryKey snapshot.manifest
  unfold layers restoredAt
  rcases hfound : snapshot.manifest.entries.find? fun entry => entryKey entry = path with _ | entry
  · have hne : ∀ e ∈ snapshot.manifest.entries, entryKey e ≠ path := by
      simpa using List.find?_eq_none.mp hfound
    rw [foldl_lay_of_none fun e he hkey => absurd hkey (hne e (List.mem_reverse.mp he)),
      foldl_lay_of_none fun e he hkey => absurd hkey (hne e he),
      foldl_lay_of_none fun e he hkey => absurd hkey (hne e he),
      foldl_lay_of_none fun e he hkey => absurd hkey (hne e he)]
    rfl
  · have hentry := List.mem_of_find?_eq_some hfound
    obtain rfl : entryKey entry = path := by simpa using List.find?_some hfound
    rw [foldl_lay_of_mem (by simpa using hkeys) (List.mem_reverse.mpr hentry),
      foldl_lay_of_mem hkeys hentry, foldl_lay_of_mem hkeys hentry, foldl_lay_of_mem hkeys hentry,
      Option.bind_some]
    unfold modePut symlinkPut filePut directoryPut
    cases hkind : entry.kind with
    | directory => simp [SnapshotEntryKind.isDirectory, restoredKind, hkind]
    | file objectId size executable =>
      simp [SnapshotEntryKind.isDirectory, SnapshotEntryKind.isFile, SnapshotEntryKind.isSymlink]
    | symlink target =>
      simp [SnapshotEntryKind.isDirectory, SnapshotEntryKind.isFile, SnapshotEntryKind.isSymlink]

/-- The tree that is built under a private name. -/
theorem planTree_within {snapshot : Snapshot} {maximum : UInt64} {report : MaterializeReport}
    (h : planTree codecs store snapshot [name] maximum (w.within name .nil) = some (report, w')) :
    ∃ tree, w' = w.within name tree
      ∧ (∀ path, tree.kindAt path = restoredAt codecs store snapshot path)
      ∧ (∀ entry ∈ snapshot.manifest.entries, Loadable codecs store maximum entry)
      ∧ snapshot.totalBytes < 2 ^ 64 ∧ report = fullReport snapshot [] := by
  obtain ⟨report₁, w₁, hdirectories, h⟩ := Plan.bind_eq_some_iff.mp h
  obtain ⟨tree₁, rfl, rfl, hkinds₁⟩ := foldlM_within (I := DirectoriesMade)
    (fun _ _ _ _ _ _ hmade hstep => planDirectory_within hmade hstep) []
    ⟨rfl, funext Dir.nil_kindAt⟩ hdirectories
  obtain ⟨report₂, w₂, hfiles, h⟩ := Plan.bind_eq_some_iff.mp h
  obtain ⟨tree₂, rfl, hmade⟩ := foldlM_within
    (I := FilesMade codecs store maximum snapshot.manifest.entries tree₁.kindAt)
    (fun _ _ _ _ _ _ hmade hstep => planFile_within hmade hstep) []
    ⟨rfl, by simp, by simp, rfl⟩ hfiles
  obtain ⟨rfl, hfits, hloaded, hkinds₂⟩ := hmade
  obtain ⟨report₃, w₃, hsymlinks, h⟩ := Plan.bind_eq_some_iff.mp h
  obtain ⟨tree₃, rfl, rfl, hkinds₃⟩ := foldlM_within
    (I := SymlinksMade codecs store snapshot.manifest.entries tree₂.kindAt)
    (fun _ _ _ _ _ _ hmade hstep => planSymlink_within hmade hstep) []
    ⟨rfl, rfl⟩ hsymlinks
  obtain ⟨_, w₄, hmodes, hpure⟩ := Plan.bind_eq_some_iff.mp h
  rw [Plan.forM_eq_foldlM] at hmodes
  obtain ⟨tree₄, rfl, hkinds₄⟩ := foldlM_within (I := ModesSet codecs store tree₃.kindAt)
    (fun _ _ _ _ _ _ hset hstep => planMode_within hset hstep) [] rfl hmodes
  obtain ⟨rfl, rfl⟩ := Plan.pure_eq_some_iff.mp hpure
  rw [List.nil_append] at hkinds₁ hfits hloaded hkinds₂ hkinds₃ hkinds₄
  refine ⟨tree₄, rfl, fun path => ?_, hloaded, hfits, rfl⟩
  rw [← layers_eq, layers, ← hkinds₁, ← hkinds₂, ← hkinds₃]
  exact congrFun hkinds₄ path

end Loops

/-! ### The installation -/

section Installation

variable {s : Surroundings} {codecs : Codecs} {store : Files} {lowercase : Char → List Char}
  {dest : Name} {w w' w'' : Workspace}

/-- A backup name is not taken, and looking for one changes nothing. -/
theorem planBackup_eq_some {tries : Nat} {backup : Name}
    (h : planBackup s dest tries w = some (backup, w')) :
    singleComponent backup = .ok backup ∧ w.root.get? backup = none ∧ w'.root = w.root
      ∧ ∃ n, backup = privateName s "old" dest n := by
  induction tries generalizing w with
  | zero => exact absurd h (by simp [planBackup, Plan.impossible])
  | succ tries ih =>
    obtain ⟨candidate, u, hname, h⟩ := Plan.bind_eq_some_iff.mp h
    obtain ⟨hcandidate, rfl⟩ := Prod.mk.inj (Option.some.inj hname)
    obtain ⟨state, u, hpeek, h⟩ := Plan.bind_eq_some_iff.mp h
    obtain ⟨hvalid, rfl, rfl⟩ := peek_eq_some_iff.mp hpeek
    by_cases habsent : childStateOf (w.root.get? candidate) = .absent
    · rw [if_pos habsent] at h
      obtain ⟨rfl, rfl⟩ := Plan.pure_eq_some_iff.mp h
      exact ⟨hvalid, childStateOf_eq_absent_iff.mp habsent, rfl, w.sequence, hcandidate.symm⟩
    · rw [if_neg habsent] at h
      have hagain := ih h
      exact hagain

/-- A private tree has a name that was not taken. -/
theorem planTemporary_eq_some {parent : DirectoryRoot} {tries : Nat} {temporary : TemporaryTree}
    (h : planTemporary s parent dest tries w = some (temporary, w')) :
    temporary.root.location = [temporary.name] ∧ w.root.get? temporary.name = none
      ∧ (∃ n, temporary.name = privateName s "tmp" dest n)
      ∧ w' = (⟨w.root, w'.sequence⟩ : Workspace).within temporary.name .nil := by
  induction tries generalizing w with
  | zero => exact absurd h (by simp [planTemporary, Plan.impossible])
  | succ tries ih =>
    obtain ⟨name, u, hname, h⟩ := Plan.bind_eq_some_iff.mp h
    obtain ⟨hprivate, rfl⟩ := Prod.mk.inj (Option.some.inj hname)
    obtain ⟨state, u, hpeek, h⟩ := Plan.bind_eq_some_iff.mp h
    obtain ⟨hvalid, rfl, rfl⟩ := peek_eq_some_iff.mp hpeek
    by_cases habsent : childStateOf (w.root.get? name) = .absent
    · rw [if_pos habsent] at h
      obtain ⟨root, u, hchild, hpure⟩ := Plan.bind_eq_some_iff.mp h
      obtain ⟨rfl, rfl⟩ := Plan.pure_eq_some_iff.mp hpure
      obtain ⟨-, hfree, rfl, rfl⟩ := planChild_eq_some_iff.mp hchild
      exact ⟨rfl, hfree, ⟨w.sequence, hprivate.symm⟩, rfl⟩
    · rw [if_neg habsent] at h
      have hagain := ih h
      exact hagain

/-- What the installation of a private tree and the removal of the backup leave; what stood at
the destination has been removed. -/
structure Installed (dest : Name) (tree : Directory) (before after : Directory) : Prop where
  destination : after.get? dest = some (.directory 0o700 tree)
  others : ∀ n ≠ dest, after.get? n = before.get? n
  removable : Fits MAX_REMOVAL_DEPTH (before.get? dest)

theorem fits_none (remaining : Nat) : Fits remaining none := by
  cases remaining <;> trivial

theorem planInstall_within {name : Name} {tree : Directory} {backup : Option Name}
    (hfree : w.root.get? name = none) (hprivate : ∃ n, name = privateName s "tmp" dest n)
    (h : planInstall s name dest (w.within name tree) = some (backup, w'))
    (h' : planSettle backup w' = some ((), w'')) : Installed dest tree w.root w''.root := by
  have hne : name ≠ dest := by
    obtain ⟨n, rfl⟩ := hprivate
    exact privateName_ne "tmp" dest n
  obtain ⟨state, u, hpeek, h⟩ := Plan.bind_eq_some_iff.mp h
  obtain ⟨hdest, rfl, rfl⟩ := peek_eq_some_iff.mp hpeek
  have htree : (w.within name tree).root.get? name = some (.directory 0o700 tree) :=
    Dir.get?_insert_self _ _ _
  have hbeside : ∀ n ≠ name, (w.within name tree).root.get? n = w.root.get? n :=
    fun n hn => Dir.get?_insert_of_ne _ _ hn
  by_cases habsent : childStateOf ((w.within name tree).root.get? dest) = .absent
  · rw [if_pos habsent] at h
    obtain ⟨_, u, hmove, hpure⟩ := Plan.bind_eq_some_iff.mp h
    obtain ⟨rfl, rfl⟩ := Plan.pure_eq_some_iff.mp hpure
    obtain ⟨-, -, root, hrename, rfl⟩ := moveChild_eq_some_iff.mp hmove
    obtain ⟨node, hnode, rfl, -⟩ := renameEntry_eq_ok hrename hne
    obtain rfl := Option.some.inj (htree.symm.trans hnode)
    obtain ⟨-, rfl⟩ := Plan.pure_eq_some_iff.mp h'
    refine ⟨Dir.get?_insert_self _ _ _, fun n hn => ?_, ?_⟩
    · rw [Dir.get?_insert_of_ne _ _ hn]
      by_cases hn' : n = name
      · rw [hn', Dir.get?_erase, if_pos rfl, hfree]
      · rw [Dir.get?_erase_of_ne _ hn', hbeside n hn']
    · rw [← hbeside dest hne.symm, childStateOf_eq_absent_iff.mp habsent]
      exact fits_none _
  · rw [if_neg habsent] at h
    obtain ⟨candidate, u, hbackup, h⟩ := Plan.bind_eq_some_iff.mp h
    obtain ⟨-, hunused, hroot, m, hcandidate⟩ := planBackup_eq_some hbackup
    obtain ⟨_, v, hmove, h⟩ := Plan.bind_eq_some_iff.mp h
    obtain ⟨_, v', hmove', hpure⟩ := Plan.bind_eq_some_iff.mp h
    obtain ⟨rfl, rfl⟩ := Plan.pure_eq_some_iff.mp hpure
    obtain ⟨-, -, root, hrename, rfl⟩ := moveChild_eq_some_iff.mp hmove
    obtain ⟨-, -, root', hrename', rfl⟩ := moveChild_eq_some_iff.mp hmove'
    obtain ⟨-, hremovable, rfl⟩ := dropChild_eq_some_iff.mp h'
    rw [hroot] at hrename
    -- the destination, the private tree and the backup have three names
    have hcd : candidate ≠ dest := hcandidate ▸ privateName_ne "old" dest m
    have hnc : name ≠ candidate := by
      obtain ⟨n, rfl⟩ := hprivate
      exact hcandidate ▸ privateName_tmp_ne_old dest n m
    obtain ⟨node, hnode, rfl, -⟩ := renameEntry_eq_ok hrename hcd.symm
    obtain ⟨node', hnode', rfl, -⟩ := renameEntry_eq_ok hrename' hne
    rw [Dir.get?_insert_of_ne _ _ hnc, Dir.get?_erase_of_ne _ hne, htree] at hnode'
    obtain rfl := Option.some.inj hnode'
    refine ⟨?_, fun n hn => ?_, ?_⟩
    · show Dir.get? (Dir.erase _ _) _ = _
      rw [Dir.get?_erase_of_ne _ hcd.symm, Dir.get?_insert_self]
    · show Dir.get? (Dir.erase _ _) _ = _
      by_cases hnbackup : n = candidate
      · rw [hnbackup, Dir.get?_erase, if_pos rfl, ← hbeside candidate hnc.symm, hunused]
      · rw [Dir.get?_erase_of_ne _ hnbackup, Dir.get?_insert_of_ne _ _ hn]
        by_cases hn' : n = name
        · rw [hn', Dir.get?_erase, if_pos rfl, hfree]
        · rw [Dir.get?_erase_of_ne _ hn', Dir.get?_insert_of_ne _ _ hnbackup,
            Dir.get?_erase_of_ne _ hn, hbeside n hn']
    · rw [Dir.get?_insert_of_ne _ _ hcd, Dir.get?_erase_of_ne _ hnc.symm, Dir.get?_insert_self]
        at hremovable
      rw [← hbeside dest hne.symm, hnode]
      exact hremovable

theorem planPreflight_eq_some_iff {snapshot : Snapshot} {maximum : UInt64} :
    planPreflight codecs store snapshot maximum w = some ((), w')
      ↔ (∃ objects, snapshot.manifest.entries.foldlM (preflightEntry maximum) [] = .ok objects
        ∧ ∀ needed ∈ objects, (payload codecs store needed.1 needed.2.1).isSome) ∧ w' = w := by
  have hload : ∀ (needed : ObjectId × UInt64 × SnapshotPath) (t u : Workspace),
      (Plan.lift (payload codecs store needed.1 needed.2.1) >>= fun _ => pure PUnit.unit) t
        = some (PUnit.unit, u) ↔ (payload codecs store needed.1 needed.2.1).isSome ∧ u = t := by
    intro needed t u
    rw [Plan.bind_eq_some_iff]
    constructor
    · rintro ⟨bytes, v, hlift, hpure⟩
      obtain ⟨hbytes, rfl⟩ := Plan.lift_eq_some_iff.mp hlift
      obtain ⟨-, rfl⟩ := Plan.pure_eq_some_iff.mp hpure
      exact ⟨Option.isSome_iff_exists.mpr ⟨bytes, hbytes⟩, rfl⟩
    · rintro ⟨hsome, rfl⟩
      obtain ⟨bytes, hbytes⟩ := Option.isSome_iff_exists.mp hsome
      exact ⟨bytes, u, Plan.lift_eq_some_iff.mpr ⟨hbytes, rfl⟩, rfl⟩
  rw [planPreflight, Plan.bind_eq_some_iff]
  constructor
  · rintro ⟨objects, u, hlift, hloop⟩
    obtain ⟨hobjects, rfl⟩ := Plan.lift_eq_some_iff.mp hlift
    obtain ⟨hall, rfl⟩ := (Plan.forM_eq_some_iff hload).mp hloop
    refine ⟨⟨objects, Except.toOption_eq_some_iff.mp hobjects, fun needed hneeded => ?_⟩, rfl⟩
    exact hall needed ((List.mem_insertionSort _).mpr hneeded)
  · rintro ⟨⟨objects, hobjects, hall⟩, rfl⟩
    refine ⟨objects, w', Plan.lift_eq_some_iff.mpr
      ⟨Except.toOption_eq_some_iff.mpr hobjects, rfl⟩, (Plan.forM_eq_some_iff hload).mpr ⟨?_, rfl⟩⟩
    exact fun needed hneeded => hall needed ((List.mem_insertionSort _).mp hneeded)

theorem planRecheck_eq_some_iff {force : Bool} {state : DirectoryChildState} :
    planRecheck dest force state w = some ((), w') ↔ (force = true ∨ singleComponent dest = .ok dest
      ∧ childStateOf (w.root.get? dest) ≠ .occupied
      ∧ (state = .absent → childStateOf (w.root.get? dest) = .absent)) ∧ w' = w := by
  unfold planRecheck
  by_cases hforce : force = true
  · rw [if_pos hforce, Plan.pure_eq_some_iff]
    simp [hforce, eq_comm]
  · rw [if_neg hforce, Plan.bind_eq_some_iff]
    constructor
    · rintro ⟨current, u, hpeek, hcheck⟩
      obtain ⟨hname, rfl, rfl⟩ := peek_eq_some_iff.mp hpeek
      obtain ⟨hstate, rfl⟩ := Plan.check_eq_some_iff.mp hcheck
      exact ⟨Or.inr ⟨hname, hstate⟩, rfl⟩
    · rintro ⟨hstate, rfl⟩
      obtain ⟨hname, hstate⟩ := hstate.resolve_left hforce
      exact ⟨_, w', peek_eq_some_iff.mpr ⟨hname, rfl, rfl⟩,
        Plan.check_eq_some_iff.mpr ⟨hstate, rfl⟩⟩

/-- The parts of a plan that is possible. -/
theorem planInstallTree_eq_some_iff {snapshot : Snapshot} {destination : Bytes}
    {options : MaterializeOptions} {report : MaterializeReport} {backup : Option Name} :
    planInstallTree s codecs store lowercase snapshot destination options w
        = some ((report, backup), w')
      ↔ validateSnapshot lowercase codecs snapshot = .ok () ∧ ∃ dest temporary w₁ w₂,
        fileName? destination = some dest ∧ singleComponent dest = .ok dest
        ∧ (childStateOf (w.root.get? dest) ≠ .occupied ∨ options.force = true)
        ∧ planPreflight codecs store snapshot options.maxFileSize w = some ((), w)
        ∧ planTemporary s ⟨parentOf destination, []⟩ dest 64 w = some (temporary, w₁)
        ∧ planTree codecs store snapshot temporary.root.location options.maxFileSize w₁
          = some (report, w₂)
        ∧ planRecheck dest options.force (childStateOf (w.root.get? dest)) w₂ = some ((), w₂)
        ∧ planInstall s temporary.name dest w₂ = some (backup, w') := by
  simp only [planInstallTree, Plan.bind_eq_some_iff, Plan.lift_eq_some_iff,
    Except.toOption_eq_some_iff, peek_eq_some_iff, Plan.check_eq_some_iff, Plan.pure_eq_some_iff,
    Prod.mk.injEq]
  constructor
  · rintro ⟨_, u₁, ⟨hvalid, rfl⟩, dest, u₂, ⟨hname, rfl⟩, state, u₃, ⟨hdest, rfl, rfl⟩, _, u₄,
      ⟨hroom, rfl⟩, _, u₅, hpreflight, temporary, w₁, htemporary, report', w₂, htree, _, w₃,
      hrecheck, backup', w₄, hinstall, ⟨rfl, rfl⟩, rfl⟩
    obtain ⟨hobjects, rfl⟩ := planPreflight_eq_some_iff.mp hpreflight
    obtain ⟨hstate, rfl⟩ := planRecheck_eq_some_iff.mp hrecheck
    exact ⟨hvalid, dest, temporary, w₁, w₃, hname, hdest, hroom, hpreflight, htemporary, htree,
      hrecheck, hinstall⟩
  · rintro ⟨hvalid, dest, temporary, w₁, w₂, hname, hdest, hroom, hpreflight, htemporary, htree,
      hrecheck, hinstall⟩
    exact ⟨(), w, ⟨hvalid, rfl⟩, dest, w, ⟨hname, rfl⟩, _, w, ⟨hdest, rfl, rfl⟩, (), w,
      ⟨hroom, rfl⟩, (), w, hpreflight, temporary, w₁, htemporary, report, w₂, htree, (), w₂,
      hrecheck, backup, w', hinstall, ⟨rfl, rfl⟩, rfl⟩

theorem planMaterialize_eq_some_iff {snapshot : Snapshot} {destination : Bytes}
    {options : MaterializeOptions} {report : MaterializeReport} :
    planMaterialize s codecs store lowercase snapshot destination options w = some (report, w')
      ↔ ∃ report' backup u, planInstallTree s codecs store lowercase snapshot destination options w
          = some ((report', backup), u) ∧ planSettle backup u = some ((), w')
        ∧ report = { report' with destination } := by
  rw [planMaterialize, Plan.bind_eq_some_iff]
  constructor
  · rintro ⟨⟨report', backup⟩, u, hinstall, h⟩
    obtain ⟨_, v, hsettle, hpure⟩ := Plan.bind_eq_some_iff.mp h
    obtain ⟨rfl, rfl⟩ := Plan.pure_eq_some_iff.mp hpure
    exact ⟨report', backup, u, hinstall, hsettle, rfl⟩
  · rintro ⟨report', backup, u, hinstall, hsettle, rfl⟩
    exact ⟨(report', backup), u, hinstall, Plan.bind_eq_some_iff.mpr ⟨(), w', hsettle, rfl⟩⟩

/-- What a materialization makes, when it can. -/
theorem planMaterialize_makes {snapshot : Snapshot} {destination : Bytes}
    {options : MaterializeOptions} {report : MaterializeReport}
    (h : planMaterialize s codecs store lowercase snapshot destination options w
      = some (report, w')) :
    ∃ dest tree, fileName? destination = some dest ∧ Installed dest tree w.root w'.root
      ∧ (∀ path, tree.kindAt path = restoredAt codecs store snapshot path)
      ∧ (∀ entry ∈ snapshot.manifest.entries, Loadable codecs store options.maxFileSize entry)
      ∧ snapshot.totalBytes < 2 ^ 64 ∧ report = fullReport snapshot destination := by
  obtain ⟨report', backup, u, hinstallTree, hsettle, rfl⟩ := planMaterialize_eq_some_iff.mp h
  obtain ⟨-, dest, temporary, w₁, w₂, hname, -, -, -, htemporary, htree, -, hinstall⟩ :=
    planInstallTree_eq_some_iff.mp hinstallTree
  obtain ⟨hlocation, hfree, hprivate, hw₁⟩ := planTemporary_eq_some htemporary
  rw [hlocation, hw₁] at htree
  obtain ⟨tree, rfl, hkinds, hloadable, hfits, rfl⟩ := planTree_within htree
  have hinstalled := planInstall_within (w := ⟨w.root, w₁.sequence⟩) hfree hprivate hinstall hsettle
  exact ⟨dest, tree, hname, hinstalled, hkinds, hloadable, hfits, rfl⟩

end Installation

end Restore

/-- **What a materialization makes.**  Where no other process acts, a materialization that succeeds,
whichever private names it has tried, has left a private directory at the destination in which, at
every path, the entry of the manifest stands and nothing else, with the payloads of its objects;
a file has the digest and the size that its entry says.  Everything beside the destination is as it
was, and the report counts the entries. -/
theorem materialize_exact (s : Surroundings) (codecs : Codecs) (store : Files)
    (lowercase : Char → List Char) (snapshot : Snapshot) (destination : Bytes)
    (options : Restore.MaterializeOptions) (fs : FileSystem) {report : Restore.MaterializeReport}
    {fs' : FileSystem}
    (h : exec (Restore.materialize s.alone codecs store lowercase snapshot destination options) fs
      = (.ok report, fs')) :
    ∃ dest tree, fileName? destination = some dest
      ∧ fs'.root.get? dest = some (.directory 0o700 tree)
      ∧ (∀ n ≠ dest, fs'.root.get? n = fs.root.get? n)
      ∧ (∀ path, tree.kindAt path = Restore.restoredAt codecs store snapshot path)
      ∧ (∀ entry ∈ snapshot.manifest.entries, ∃ kind,
        tree.kindAt (Restore.entryKey entry) = some kind
          ∧ Restore.Embodies codecs entry kind)
      ∧ report = Restore.fullReport snapshot destination
      ∧ report.logicalBytes.toNat = snapshot.totalBytes := by
  have hplan := (Restore.carriesOut_materialize s codecs store lowercase snapshot destination
    options).sound h
  obtain ⟨dest, tree, hname, hinstalled, hkinds, hloadable, hfits, rfl⟩ :=
    Restore.planMaterialize_makes hplan
  refine ⟨dest, tree, hname, hinstalled.destination, hinstalled.others, hkinds, ?_, rfl,
    UInt64.toNat_ofNat_of_lt' hfits⟩
  intro entry hentry
  obtain ⟨kind, hkind⟩ := Restore.exists_restoredKind (hloadable entry hentry)
  refine ⟨kind, ?_, Restore.embodies_of_restoredKind hkind⟩
  rw [hkinds, Restore.restoredAt, Restore.find?_entryKey hentry, Option.bind_some, hkind]

namespace Sample

theorem validUtf8_ax : validUtf8 [97, 47, 120] = true := rfl

theorem check_ax : SnapshotPath.check [97, 47, 120] = .ok () := rfl

theorem validUtf8_a : validUtf8 [97] = true := rfl

theorem check_a : SnapshotPath.check [97] = .ok () := rfl

theorem directoryMode_supported : UInt16.toNat 0o755 ≤ 0o7777 := by decide

theorem schemaVersion_supported : (1 : UInt16) = SNAPSHOT_SCHEMA_VERSION := rfl

theorem fileMode_supported : UInt16.toNat 0o644 ≤ 0o7777 := by decide

/-- The directory `a`, and the file `x` in it with the content `a`. -/
def nestedEntries : List SnapshotEntry :=
  [⟨⟨[97], validUtf8_a, check_a⟩, .directory, ⟨0o755, directoryMode_supported⟩⟩,
    ⟨⟨[97, 47, 120], validUtf8_ax, check_ax⟩, .file ⟨Scan.Sample.digestA⟩ 1 false,
      ⟨0o644, fileMode_supported⟩⟩]

theorem nested_canonical : SnapshotManifest.checkEntries none 0 nestedEntries = .ok () := by
  decide +kernel

/-- The snapshot with these entries. -/
def nested : Snapshot :=
  let manifest := ⟨1, nestedEntries, schemaVersion_supported, nested_canonical⟩
  ⟨SnapshotId.digestOf Scan.Sample.codecs manifest, manifest⟩

/-- A store with the object of the file. -/
def nestedStore : Files :=
  [⟨pathFor ⟨Scan.Sample.digestA⟩, .file (MAGIC ++ [VERSION, COMPRESSION_NONE, 0, 0]
    ++ [1, 0, 0, 0, 0, 0, 0, 0] ++ [97])⟩]

/-- A device that answers every call. -/
def dependable : Surroundings where
  fails _ := false
  written _ := 0
  others _ := []
  processId := 7

/-- An empty directory `out` beside a file. -/
def vacant : FileSystem where
  root := .directory (utf8 "out") 0o755 .nil (.leaf (utf8 "b") (.file 0o644 [1]) .nil)
  tick := 0
  sequence := 0
  calls := []

/-- The materialization of the snapshot there. -/
def nestedRestore : Except Restore.SnapshotError Restore.MaterializeReport × FileSystem :=
  exec (Restore.materialize dependable.alone Scan.Sample.codecs nestedStore (fun c => [c.toLower])
    nested (utf8 "/work/out") ⟨false, 100⟩) vacant

theorem nestedRestore_succeeds : nestedRestore.1.isOk = true := by decide +kernel

end Sample

theorem materialize_nested : ∃ report fs' tree, Sample.nestedRestore = (.ok report, fs')
    ∧ fs'.root.get? (utf8 "out") = some (.directory 0o700 tree)
    ∧ tree.kindAt [[97], [120]] = some (.leaf (.file 0o644 [97]))
    ∧ report.logicalBytes.toNat = 1 := by
  obtain ⟨report, fs', hexec⟩ := Sample.exists_of_isOk Sample.nestedRestore_succeeds
  obtain ⟨dest, tree, hname, hthere, -, hkinds, -, -, hbytes⟩ := materialize_exact
    Sample.dependable Scan.Sample.codecs Sample.nestedStore (fun c => [c.toLower]) Sample.nested
    (utf8 "/work/out") ⟨false, 100⟩ Sample.vacant hexec
  obtain rfl : utf8 "out" = dest := Option.some.inj hname
  refine ⟨report, fs', tree, hexec, hthere, ?_, hbytes⟩
  rw [hkinds]
  decide +kernel

end Rewind

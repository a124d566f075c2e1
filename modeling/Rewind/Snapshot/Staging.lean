/-
The staging of a tree beside its destination.

Whatever a materialization does before it installs the tree happens under a private name.
`Staging` collects what a property needs for that to keep it; `Staging.ends_installTree`
reduces a result about `installTree` to one about `install`.
-/
import Rewind.Snapshot.Restore

namespace Rewind

open FileTree Call Restore

/-! ### Private names -/

variable {s : Surroundings}

/-- A private name is longer than the one it is made from. -/
theorem privateName_ne (label : String) (destinationName : Name) (sequence : Nat) :
    privateName s label destinationName sequence ≠ destinationName := by
  intro h
  have hlength := congrArg List.length h
  have hlossy := length_le_toStringLossy destinationName
  have hinitial : (utf8 ".rewind-").length = 8 := by decide
  simp only [privateName, List.length_append, hinitial] at hlength
  omega

theorem privateName_tmp_ne_old (destinationName : Name) (m n : Nat) :
    privateName s "tmp" destinationName m ≠ privateName s "old" destinationName n := by
  intro h
  simp only [privateName, List.append_assoc] at h
  have hlabel := List.append_cancel_left (List.append_cancel_left (List.append_cancel_left h))
  have htmp : utf8 "tmp" = [116, 109, 112] := by decide
  have hold : utf8 "old" = [111, 108, 100] := by decide
  rw [htmp, hold] at hlabel
  exact absurd (List.cons.inj hlabel).1 (by decide)

/-! ### Renames -/

/-- The directory is there. -/
def IsDirectory (fs : FileSystem) (name : Name) : Prop :=
  ∃ mode entries, fs.root.get? name = some (.directory mode entries)

theorem renameEntry_eq_ok {source target : Name} {entries entries' : Directory}
    (h : renameEntry source target entries = .ok entries') (hne : source ≠ target) :
    ∃ node, entries.get? source = some node
      ∧ entries' = (entries.erase source).insert target node
      ∧ ∀ mode beneath, node = .directory mode beneath → HoldsNothing (entries.get? target) := by
  unfold renameEntry at h
  rcases hsource : entries.get? source with _ | node
  · rw [hsource] at h
    exact absurd h (by simp)
  · simp only [hsource, if_neg hne] at h
    refine ⟨node, rfl, ?_⟩
    rcases htarget : entries.get? target with _ | replaced
    · simp only [htarget, Except.ok.injEq] at h
      exact ⟨h.symm, fun _ _ _ _ hnode => absurd hnode (by simp)⟩
    · rcases node with content | ⟨mode, beneath⟩
      · rcases replaced with content' | ⟨mode', beneath'⟩
        · simp only [htarget, Except.ok.injEq] at h
          exact ⟨h.symm, fun _ _ hnode => absurd hnode (by simp)⟩
        · simp [htarget] at h
      · rcases replaced with content' | ⟨mode', beneath'⟩
        · simp [htarget] at h
        · simp only [htarget] at h
          by_cases hempty : (FileTree.Node.directory mode' beneath' : Entry).isEmptyDirectory = true
          · rw [if_pos hempty] at h
            refine ⟨(Except.ok.inj h).symm, fun _ _ _ node hnode => ?_⟩
            rw [← Option.some.inj hnode]
            exact hempty
          · rw [if_neg hempty] at h
            exact absurd h (by simp)

/-- A rename inside the parent of the destination: the call is refused, or fails, or moves. -/
theorem spec_renameChild {P E : FileSystem → Prop} {Q : Unit → FileSystem → Prop}
    {parent : DirectoryRoot} (hparent : parent.location = []) {source target : Name}
    (hrefused : ∀ fs, P fs → E fs)
    (hfails : ∀ fs, P fs → E (fs.turn s (.rename [source] [target])))
    (hmoves : ∀ fs entries, P fs → s.fails fs.tick = false →
      renameEntry source target (fs.turn s (.rename [source] [target])).root = .ok entries →
        Q () { fs.turn s (.rename [source] [target]) with root := entries }) :
    Spec P (parent.renameChild s source target) Q E := by
  refine spec_singleComponent hrefused (spec_singleComponent hrefused (spec_mapError ?_))
  rw [hparent]
  refine spec_changeAt hfails fun fs entries entries' hfs hfaultless henter hresult => ?_
  obtain rfl := Option.some.inj henter
  exact hmoves fs entries' hfs hfaultless hresult

/-! ### What keeps a steady property -/

section Steady

variable {P : FileSystem → Prop} {codecs : Codecs} {store : Files}

theorem Steady.uniqueName (h : Steady s P) (label : String) (destinationName : Name) :
    Spec P (uniqueName s label destinationName)
      (fun name fs => P fs ∧ ∃ n, name = privateName s label destinationName n) P :=
  fun fs hfs => ⟨h.count _ hfs, fs.sequence, rfl⟩

theorem Steady.loadObject (h : Steady s P) (id : ObjectId) (maximum : UInt64) :
    Keeps P (loadObject s codecs store id maximum) := by
  refine keeps_bind (keeps_mapError h.touch) fun _ => ?_
  rcases store.node? (pathFor id) with _ | (content | _)
  · exact keeps_throw _
  · exact keeps_ofResult _
  · exact keeps_throw _

theorem Steady.loadSized (h : Steady s P) (path : SnapshotPath) (id : ObjectId) (size : UInt64) :
    Keeps P (loadSized s codecs store path id size) := by
  refine keeps_bind (h.loadObject id size) fun bytes => ?_
  exact keeps_bind (keeps_ofResult _) fun _ => keeps_pure _

theorem Steady.preflightObjects (h : Steady s P) (snapshot : Snapshot) (maximum : UInt64) :
    Keeps P (preflightObjects s codecs store snapshot maximum) := by
  refine keeps_bind (keeps_ofResult _) fun objects => ?_
  exact keeps_forM (fun needed => keeps_bind (h.loadSized _ _ _) fun _ => keeps_pure _) _

theorem Steady.recheck (h : Steady s P) (parent : DirectoryRoot) (destinationName : Name)
    (destination : Bytes) (force : Bool) (state : DirectoryChildState) :
    Keeps P (recheck s parent destinationName destination force state) := by
  refine spec_ite (fun _ => keeps_pure _) fun _ => ?_
  exact keeps_bind (keeps_mapError (h.childState destinationName)) fun _ => keeps_ofResult _

end Steady

section Building

variable {name : Name} {P : FileSystem → Prop} {codecs : Codecs} {store : Files}
variable (h : Building s name P) {root : DirectoryRoot} (hroot : root.location.head? = some name)
include h hroot

theorem Building.buildDirectory (report : MaterializeReport) (entry : SnapshotEntry) :
    Keeps P (buildDirectory s root report entry) := by
  unfold Restore.buildDirectory
  cases entry.kind with
  | directory =>
    exact keeps_bind (keeps_mapError (h.createDirectoryBeneath hroot _)) fun _ => keeps_pure _
  | file => exact keeps_pure _
  | symlink => exact keeps_pure _

theorem Building.buildFile (maximum : UInt64) (report : MaterializeReport)
    (entry : SnapshotEntry) : Keeps P (buildFile s codecs store root maximum report entry) := by
  unfold Restore.buildFile
  cases entry.kind with
  | directory => exact keeps_pure _
  | file objectId size executable =>
    refine keeps_bind (keeps_ofResult _) fun _ => ?_
    refine keeps_bind (h.loadSized entry.path objectId size) fun bytes => ?_
    refine keeps_bind (keeps_mapError (h.createFileBeneath hroot _ bytes _)) fun _ => ?_
    exact keeps_bind (keeps_ofResult _) fun _ => keeps_pure _
  | symlink => exact keeps_pure _

theorem Building.buildSymlink (report : MaterializeReport) (entry : SnapshotEntry) :
    Keeps P (buildSymlink s root report entry) := by
  unfold Restore.buildSymlink
  cases entry.kind with
  | directory => exact keeps_pure _
  | file => exact keeps_pure _
  | symlink target =>
    exact keeps_bind (keeps_mapError (h.createSymlinkBeneath hroot _ _)) fun _ => keeps_pure _

theorem Building.finishDirectory (entry : SnapshotEntry) :
    Keeps P (finishDirectory s root entry) := by
  unfold Restore.finishDirectory
  cases entry.kind with
  | directory => exact keeps_mapError (h.finishDirectoryBeneath hroot _ _)
  | file => exact keeps_pure _
  | symlink => exact keeps_pure _

theorem Building.buildTree (snapshot : Snapshot) (maximum : UInt64) :
    Keeps P (buildTree s codecs store snapshot root maximum) := by
  refine keeps_bind (keeps_foldlM (fun _ _ => h.buildDirectory hroot _ _) _ _) fun report => ?_
  refine keeps_bind (keeps_foldlM (fun _ _ => h.buildFile hroot _ _ _) _ _) fun report => ?_
  refine keeps_bind (keeps_foldlM (fun _ _ => h.buildSymlink hroot _ _) _ _) fun report => ?_
  exact keeps_bind (keeps_forM (fun _ => h.finishDirectory hroot _) _) fun _ => keeps_pure _

end Building

/-! ### The backup name -/

section Backup

variable {P : FileSystem → Prop} {parent : DirectoryRoot} (h : Steady s P)
variable (hparent : parent.location = [])
include h hparent

theorem Steady.childState_absent (name : Name) : Spec P (parent.childState s name)
    (fun state fs => (P fs ∧ (state = .absent → fs.root.get? name = none))
      ∧ singleComponent name = .ok name) P := by
  refine spec_bind (spec_ofResult (Q := fun name' fs => P fs ∧ singleComponent name = .ok name')
    (fun _ hfs => hfs) fun name' hname fs hfs => ⟨hfs, hname⟩) fun name' => ?_
  refine spec_and_right fun hname => ?_
  obtain rfl := singleComponent_eq_ok hname
  refine spec_mapError ?_
  rw [hparent]
  refine spec_inspectAt (fun _ hfs => h.turn _ hfs) fun fs entries state hfs _ henter hstate => ?_
  obtain rfl := Option.some.inj henter
  refine ⟨⟨h.turn _ hfs, fun habsent => ?_⟩, hname⟩
  rcases hget : (fs.turn s (.stat ([] ++ [name']))).root.get? name' with _ | node
  · rfl
  · have hoccupied := (Except.ok.inj hstate).trans habsent
    rw [hget, childStateOf] at hoccupied
    split at hoccupied <;> exact absurd hoccupied (by simp)

/-- The name of the backup is not taken. -/
theorem Steady.uniqueAvailableName (destinationName : Name) (destination : Bytes) (tries : Nat) :
    Spec P (uniqueAvailableName s parent destinationName destination tries)
      (fun backup fs => (P fs ∧ fs.root.get? backup = none)
        ∧ singleComponent backup = .ok backup
        ∧ ∃ n, backup = privateName s "old" destinationName n) P := by
  induction tries with
  | zero => exact spec_throw fun _ hfs => hfs
  | succ tries ih =>
    refine spec_bind (h.uniqueName "old" destinationName) fun candidate => ?_
    refine spec_and_right fun hcandidate => ?_
    refine spec_bind (spec_mapError (h.childState_absent hparent candidate)) fun state => ?_
    refine spec_and_right fun hvalid => spec_ite (fun habsent => ?_) fun _ => ?_
    · exact spec_pure fun fs hfs => ⟨⟨hfs.1, hfs.2 habsent⟩, hvalid, hcandidate⟩
    · exact ih.imp (fun _ hfs => hfs.1) (fun _ _ hfs => hfs) fun _ hfs => hfs

end Backup

/-! ### The stage -/

/-- What a property needs to be kept while a tree is staged beside `dest`; the names that may
be used for it are `Free`. -/
structure Staging (s : Surroundings) (dest : Name) (P : FileSystem → Prop) (Free : Name → Prop) :
    Prop extends Steady s P where
  others : ∀ (fs : FileSystem) call {name}, Free name →
    (fs.turn s call).root.get? name = fs.root.get? name
  free : ∀ {fs : FileSystem} {name}, P fs → fs.root.get? name = none →
    (∃ n, name = privateName s "tmp" dest n) → Free name
  undisturbed : ∀ {name}, Free name → Undisturbed s name P

section Staging

variable {dest : Name} {P : FileSystem → Prop} {Free : Name → Prop} (h : Staging s dest P Free)
variable {parent : DirectoryRoot} (hparent : parent.location = [])
include h

/-- A directory under a free name stays one while it is filled. -/
theorem Staging.building {name : Name} (hname : Free name) :
    Building s name fun fs => P fs ∧ IsDirectory fs name where
  turn := by
    rintro fs call ⟨hfs, mode, entries, hget⟩
    refine ⟨h.turn call hfs, mode, entries, ?_⟩
    rw [h.others fs call hname]
    exact hget
  count sequence hfs := ⟨h.count sequence hfs.1, hfs.2⟩
  modify := by
    rintro fs f path ⟨hfs, mode, entries, hget⟩
    refine ⟨(h.undisturbed hname).building.modify f path hfs, mode, entries.modify f path, ?_⟩
    show (fs.root.modify f (name :: path)).get? name = _
    rw [Dir.modify, hget]
    exact Dir.get?_insert_self _ _ _

include hparent

theorem Staging.createChildDirectory {name : Name}
    (hprivate : ∃ n, name = privateName s "tmp" dest n) :
    Spec P (parent.createChildDirectory s name)
      (fun root fs => (P fs ∧ IsDirectory fs name) ∧ Free name ∧ root.location = [name]) P := by
  refine spec_singleComponent (fun _ hfs => hfs) ?_
  refine spec_bind (Q := fun _ fs => P fs ∧ Free name) (spec_mapError ?_) fun _ => ?_
  · rw [hparent]
    refine spec_changeAt (fun _ hfs => h.turn _ hfs)
      fun fs entries entries' hfs _ henter hresult => ?_
    obtain rfl := Option.some.inj henter
    have hturn := h.turn (.mkdir ([] ++ [name])) hfs
    unfold createEntry at hresult
    split at hresult
    · exact absurd hresult (by simp)
    · next hnew =>
      -- the name was not taken, so it is free
      have hfree := h.free hturn (Option.not_isSome_iff_eq_none.mp hnew) hprivate
      obtain rfl := Except.ok.inj hresult
      exact ⟨(h.undisturbed hfree).beneath hturn fun _ hn => Dir.get?_insert_of_ne _ _ hn, hfree⟩
  refine spec_and_right fun hfree => ?_
  rw [hparent]
  refine spec_bind (Q := fun opened fs => P fs ∧ (opened = .ok () → IsDirectory fs name)) ?_
    fun opened => ?_
  · refine spec_outcome (spec_openDirectoryAt ?_ ?_)
    · exact fun fs hfs _ => ⟨h.turn _ hfs, nofun⟩
    · intro fs entries mode beneath hfs henter hget
      obtain rfl := Option.some.inj henter
      exact ⟨h.turn _ hfs, fun _ => ⟨mode, beneath, hget⟩⟩
  rcases opened with error | _
  · refine spec_bind (Q := fun _ => P) ?_ fun _ => spec_throw fun _ hfs => hfs
    exact (keeps_attempt ((h.undisturbed hfree).rmdirAt rfl)).imp (fun _ hfs => hfs.1)
      (fun _ _ hfs => hfs) fun _ hfs => hfs
  · exact spec_pure fun fs hfs => ⟨⟨hfs.1, hfs.2 rfl⟩, hfree, rfl⟩

theorem Staging.create (destination : Bytes) (tries : Nat) :
    Spec P (TemporaryTree.create s parent dest destination tries)
      (fun temporary fs => (P fs ∧ IsDirectory fs temporary.name)
        ∧ Free temporary.name ∧ temporary.root.location = [temporary.name]
        ∧ ∃ n, temporary.name = privateName s "tmp" dest n) P := by
  induction tries with
  | zero => exact spec_throw fun _ hfs => hfs
  | succ tries ih =>
    refine spec_bind (h.uniqueName "tmp" dest) fun name => spec_and_right fun hname => ?_
    refine spec_bind (Q := fun created fs => P fs ∧ ∀ root, created = .ok root →
      IsDirectory fs name ∧ Free name ∧ root.location = [name]) ?_ fun created => ?_
    · refine spec_outcome ((h.createChildDirectory hparent hname).imp (fun _ hfs => hfs) ?_ ?_)
      · rintro root fs ⟨⟨hfs, hdirectory⟩, hfree, hlocation⟩
        refine ⟨hfs, fun root' hroot => ?_⟩
        obtain rfl := Except.ok.inj hroot
        exact ⟨hdirectory, hfree, hlocation⟩
      · exact fun fs hfs error => ⟨hfs, nofun⟩
    · rcases created with error | root
      · have hagain : Spec (fun fs => P fs ∧ ∀ root : DirectoryRoot, Except.error error = .ok root →
            IsDirectory fs name ∧ Free name ∧ root.location = [name])
            (TemporaryTree.create s parent dest destination tries) _ P :=
          ih.imp (fun _ hfs => hfs.1) (fun _ _ hfs => hfs) fun _ hfs => hfs
        cases error with
        | io operation path errno =>
          cases errno with
          | EEXIST => exact hagain
          | _ => exact spec_throw fun _ hfs => hfs.1
        | _ => exact spec_throw fun _ hfs => hfs.1
      · refine spec_pure fun fs hfs => ?_
        obtain ⟨hdirectory, hfree, hlocation⟩ := hfs.2 root rfl
        exact ⟨⟨hfs.1, hdirectory⟩, hfree, hlocation, hname⟩

end Staging

/-! ### The guarded part -/

section Guard

variable {parent : DirectoryRoot} (hparent : parent.location = [])
include hparent

/-- The removal of the dropped tree leaves alone what depends on the other entries only. -/
theorem ends_guard {α : Type} {P : FileSystem → Prop}
    {R : Except Restore.SnapshotError α → FileSystem → Prop}
    {temporary : TemporaryTree} {m : RestoreCall α} (hm : Ends P m R)
    (hdrop : ∀ e, Undisturbed s temporary.name (R (.error e))) :
    Ends P (temporary.guard s parent m) R := by
  refine ends_outcome_bind hm fun result => ?_
  rcases result with e | a
  · exact ends_attempt_bind ((hdrop e).removeChild hparent) (ends_throw fun _ hfs => hfs)
  · exact ends_pure fun _ hfs => hfs

end Guard

/-- A result about `installTree` from one about `install`: before it, and when the tree is
dropped, only a free name is touched. -/
theorem Staging.ends_installTree {codecs : Codecs} {store : Files} {lowercase : Char → List Char}
    {dest : Name} {P : FileSystem → Prop} {Free : Name → Prop} (h : Staging s dest P Free)
    (snapshot : Snapshot) {destination : Bytes} (hname : fileName? destination = some dest)
    (options : MaterializeOptions)
    {R : Except Restore.SnapshotError (MaterializeReport × Option Name) → FileSystem → Prop}
    (herror : ∀ e fs, P fs → R (.error e) fs)
    (hdrop : ∀ name, Free name → ∀ e, Undisturbed s name (R (.error e)))
    (hinstall : ∀ temporary report, Free temporary.name →
      (∃ n, temporary.name = privateName s "tmp" dest n) →
      Ends (fun fs => P fs ∧ IsDirectory fs temporary.name)
        (install s ⟨parentOf destination, []⟩ temporary dest destination)
        fun result => R (result.map fun backup => (report, backup))) :
    Ends P (installTree s codecs store lowercase snapshot destination options) R := by
  refine ends_spec_bind (keeps_ofResult _) (fun _ => ?_) herror
  rw [hname]
  refine ends_spec_bind (Q := fun name fs => P fs ∧ name = dest)
    (spec_ofResult (fun _ hfs => hfs) fun name hresult _ hfs => ⟨hfs, (Except.ok.inj hresult).symm⟩)
    (fun name => ?_) herror
  rintro fs ⟨hfs, rfl⟩
  revert fs
  refine ends_spec_bind (keeps_mapError (keeps_mapError h.touch)) (fun _ => ?_) herror
  refine ends_spec_bind (keeps_mapError (h.childState name)) (fun state => ?_) herror
  refine ends_spec_bind (keeps_ofResult _) (fun _ => ?_) herror
  refine ends_spec_bind (h.preflightObjects snapshot _) (fun _ => ?_) herror
  refine ends_spec_bind (h.create rfl destination 64) (fun temporary => ?_) herror
  rintro fs ⟨hfs, hfree, hlocation, hprivate⟩
  revert fs
  have hbuilding := h.building hfree
  have hroot : temporary.root.location.head? = some temporary.name := by
    rw [hlocation]
    rfl
  have herror' : ∀ e fs, P fs ∧ IsDirectory fs temporary.name → R (.error e) fs :=
    fun e fs hfs => herror e fs hfs.1
  refine ends_guard rfl ?_ (hdrop _ hfree)
  refine ends_spec_bind (hbuilding.buildTree hroot snapshot _) (fun report => ?_) herror'
  refine ends_spec_bind (keeps_mapError hbuilding.sync) (fun _ => ?_) herror'
  refine ends_spec_bind (hbuilding.recheck _ name destination _ state) (fun _ => ?_) herror'
  intro fs hfs
  have hends := hinstall temporary report hfree hprivate fs hfs
  rw [exec_bind]
  rcases hexec : exec (install s ⟨parentOf destination, []⟩ temporary name destination) fs
    with ⟨e | backup, fs'⟩
  · rw [hexec] at hends
    exact hends
  · rw [hexec] at hends
    exact hends

end Rewind

/-
Materialization is atomic until the tree is in its place.

What stands at the destination is the same after every failure before the tree is installed,
a failed rollback apart; a failure after that leaves the new tree there.

* `SettlesFrom` — what the removal of the backup and the last flush need to succeed;
* **`materialize_atomic_iff`** — a failed materialization has changed nothing at the
  destination, exactly if nothing fails once the tree is in its place.
-/
import Rewind.Platform.Removal
import Rewind.Snapshot.Staging
import Rewind.Store.Writer

namespace Rewind

open FileTree Call Restore

variable {s : Surroundings} {dest : Name} {old : Option Entry}

/-- What stands at the destination is `old`. -/
abbrev Unchanged (dest : Name) (old : Option Entry) (fs : FileSystem) : Prop :=
  fs.root.get? dest = old

theorem undisturbed_unchanged {name : Name} (hne : name ≠ dest) :
    Undisturbed s.alone name (Unchanged dest old) where
  turn _ hfs := hfs
  count _ hfs := hfs
  beneath hfs hroot := (hroot dest hne.symm).trans hfs

theorem staging_unchanged : Staging s.alone dest (Unchanged dest old) (· ≠ dest) where
  turn _ hfs := hfs
  count _ hfs := hfs
  others _ _ _ _ := rfl
  free := by
    rintro _ _ - - ⟨n, rfl⟩
    exact privateName_ne "tmp" dest n
  undisturbed := undisturbed_unchanged

/-! ### After the installation -/

/-- From `tick` on nothing fails: the backup, which is `old`, can be removed, and the directory
flushed. -/
def SettlesFrom (s : Surroundings) (tick : Nat) (old : Option Entry) : Option Name → Prop
  | none => Faultless s tick 1
  | some _ =>
    Fits MAX_REMOVAL_DEPTH old ∧ Faultless s tick (removalSteps MAX_REMOVAL_DEPTH old + 1)

theorem completes_sync {fs : FileSystem} {parent : DirectoryRoot} :
    Completes s (platform (parent.sync s.alone)) fs 1 True fs.root () :=
  (completes_syscall rfl).mapError.mapError

/-- **The end of a materialization** succeeds exactly if nothing fails. -/
theorem settle_eq_ok_iff {fs : FileSystem} {parent : DirectoryRoot}
    (hparent : parent.location = []) {backup : Option Name}
    (hbackup : ∀ b, backup = some b → singleComponent b = .ok b)
    (hold : ∀ b, backup = some b → fs.root.get? b = old) :
    (exec (settle s.alone parent backup) fs).1 = .ok () ↔ SettlesFrom s fs.tick old backup := by
  cases backup with
  | none =>
    have hsync : Completes s (settle s.alone parent none) fs 1 True fs.root () := completes_sync
    constructor
    · exact fun hok => (hsync.faultless () hok).2
    · intro hfaultless
      obtain ⟨calls, hexec⟩ := hsync.of_faultless trivial hfaultless
      rw [hexec]
  | some b =>
    have hremove : Completes s (platform (parent.removeChild s.alone b)) fs _ _ _ () :=
      (completes_removeChild hparent (hbackup b rfl)).mapError
    have hsettle : Completes s (settle s.alone parent (some b)) fs _ _ (fs.root.erase b) () :=
      Completes.bind hremove fun calls => completes_sync
    rw [hold b rfl] at hsettle
    constructor
    · intro hok
      obtain ⟨⟨hfits, -⟩, hfaultless⟩ := hsettle.faultless () hok
      exact ⟨hfits, hfaultless⟩
    · rintro ⟨hfits, hfaultless⟩
      obtain ⟨calls, hexec⟩ := hsettle.of_faultless ⟨hfits, trivial⟩ hfaultless
      rw [hexec]

/-- The result is no failed rollback. -/
def NoRollback {α : Type} (result : Except Restore.SnapshotError α) (_ : FileSystem) : Prop :=
  ∀ error, result = .error error → error.isInstallRollback = false

theorem ends_platform {α : Type} (m : PlatformCall α) :
    Ends (fun _ => True) (platform m) NoRollback := by
  intro fs _ error herror
  rw [platform, mapError, exec_ofFun] at herror
  rcases hexec : (exec m fs).1 with source | a
  · rw [hexec] at herror
    obtain rfl := Except.error.inj herror
    rfl
  · rw [hexec] at herror
    exact absurd herror (by simp [Except.mapError])

/-- What the end of a materialization fails with is an error of the platform. -/
theorem ends_settle {parent : DirectoryRoot} {backup : Option Name} :
    Ends (fun _ => True) (settle s parent backup) NoRollback := by
  cases backup with
  | none => exact ends_platform _
  | some b =>
    refine ends_bind (ends_platform _) (fun _ => ?_) fun error _ herror e he => ?_
    · exact fun fs _ => ends_platform (parent.sync s) fs trivial
    · rw [← Except.error.inj he]
      exact herror error rfl

/-- The end of a materialization leaves alone what stands at the other names. -/
theorem keeps_settle {parent : DirectoryRoot} (hparent : parent.location = [])
    {backup : Option Name} (hbackup : ∀ b, backup = some b → b ≠ dest) :
    Keeps (Unchanged dest old) (settle s.alone parent backup) := by
  have hsync : Keeps (Unchanged dest old) (platform (parent.sync s.alone)) :=
    keeps_mapError staging_unchanged.sync
  cases backup with
  | none => exact hsync
  | some b =>
    exact keeps_bind (keeps_mapError ((undisturbed_unchanged (hbackup b rfl)).removeChild hparent))
      fun _ => hsync

/-! ### Before the installation -/

section Alone

/-- How the guarded part of a materialization ends. -/
def InstallEnds (dest : Name) (old : Option Entry) {α : Type} (backup : α → Option Name) :
    Except Restore.SnapshotError α → FileSystem → Prop
  | .ok a, fs => ∀ b, backup a = some b →
      (singleComponent b = .ok b ∧ b ≠ dest) ∧ fs.root.get? b = old
  | .error e, fs => e.isInstallRollback = false → Unchanged dest old fs

/-- The old entry is at the backup name. -/
structure MovedAside (dest backup : Name) (old : Option Entry) (fs : FileSystem) : Prop where
  free : fs.root.get? dest = none
  kept : fs.root.get? backup = old

/-- How the second rename ends: the old entry is at the backup name, and its own is free if nothing
has been put there. -/
def Renamed (dest backup : Name) (old : Option Entry) (result : Except FileSystemError Unit)
    (fs : FileSystem) : Prop :=
  fs.root.get? backup = old ∧ (result.isOk = false → MovedAside dest backup old fs)

variable {parent : DirectoryRoot} (hparent : parent.location = [])
include hparent

/-- A failed installation puts the old entry back, or says that it could not. -/
theorem ends_rollBack {backup : Name} (hne : backup ≠ dest) (destination : Bytes)
    (error : FileSystemError) :
    Ends (MovedAside dest backup old) (rollBack s.alone parent backup dest destination error)
      (InstallEnds dest old (some : Name → Option Name)) := by
  refine ends_outcome_bind (R := fun result fs => result = .ok () → Unchanged dest old fs)
    (Spec.ends (spec_renameChild hparent (E := fun _ => True) (Q := fun _ => Unchanged dest old)
      (fun _ _ => trivial) (fun _ _ => trivial) ?_) (fun _ _ hfs _ => hfs) fun _ _ _ => nofun)
    fun result => ?_
  · intro fs entries hfs _ hrename
    obtain ⟨node, hnode, rfl, -⟩ := renameEntry_eq_ok hrename hne
    show Dir.get? _ dest = old
    rw [Dir.get?_insert_self]
    exact hnode.symm.trans hfs.kept
  · rcases result with rollback | _
    · exact ends_throw fun _ _ => nofun
    · exact ends_throw fun _ hfs _ => hfs rfl

theorem ends_installOverExisting {temporary : TemporaryTree}
    (htemporary : ∃ n, temporary.name = privateName s.alone "tmp" dest n) (destination : Bytes) :
    Ends (Unchanged dest old) (installOverExisting s.alone parent temporary dest destination)
      (InstallEnds dest old some) := by
  have hsteady : Steady s.alone (Unchanged dest old) := staging_unchanged.toSteady
  refine ends_spec_bind (hsteady.uniqueAvailableName hparent dest destination 64)
    (fun backup => ?_) fun _ _ hfs _ => hfs
  rintro fs ⟨hfs, hvalid, n, hbackup⟩
  have hne : backup ≠ dest := by
    rw [hbackup]
    exact privateName_ne "old" dest n
  have hdistinct : backup ≠ temporary.name := by
    obtain ⟨m, hm⟩ := htemporary
    rw [hm, hbackup]
    exact (privateName_tmp_ne_old dest m n).symm
  revert fs
  -- the old entry moves to the backup name
  refine ends_spec_bind (Q := fun _ => MovedAside dest backup old) (E := Unchanged dest old)
    (spec_mapError (spec_renameChild hparent (fun _ hfs => hfs.1) (fun _ hfs => hfs.1) ?_))
    (fun _ => ?_) fun _ _ hfs _ => hfs
  · intro fs entries hfs _ hrename
    obtain ⟨node, hnode, rfl, -⟩ := renameEntry_eq_ok hrename hne.symm
    refine ⟨?_, ?_⟩
    · show Dir.get? _ dest = none
      rw [Dir.get?_insert_of_ne _ _ hne.symm, Dir.get?_erase, if_pos rfl]
    · show Dir.get? _ backup = old
      rw [Dir.get?_insert_self]
      exact hnode.symm.trans hfs.1
  -- and the tree to the destination
  · have hrename : Spec (MovedAside dest backup old)
        (parent.renameChild s.alone temporary.name dest)
        (fun _ fs => fs.root.get? backup = old) (MovedAside dest backup old) := by
      refine spec_renameChild hparent (fun _ hfs => hfs) (fun _ hfs => ⟨hfs.free, hfs.kept⟩) ?_
      intro fs entries hfs _ hrename
      have htemporaryNe : temporary.name ≠ dest := by
        obtain ⟨m, hm⟩ := htemporary
        rw [hm]
        exact privateName_ne "tmp" dest m
      obtain ⟨node, -, rfl, -⟩ := renameEntry_eq_ok hrename htemporaryNe
      show Dir.get? _ backup = old
      rw [Dir.get?_insert_of_ne _ _ hne, Dir.get?_erase, if_neg hdistinct.symm]
      exact hfs.kept
    have hends : Ends (MovedAside dest backup old)
        (parent.renameChild s.alone temporary.name dest) (Renamed dest backup old) := by
      refine hrename.ends (fun _ _ hfs => ⟨hfs, fun hfailed => ?_⟩)
        fun _ _ hfs => ⟨hfs.kept, fun _ => hfs⟩
      exact absurd hfailed (by simp [Except.isOk, Except.toBool])
    refine ends_outcome_bind hends fun result => ?_
    rcases result with error | _
    · exact (ends_rollBack hparent hne destination error).imp (fun _ hfs => hfs.2 rfl)
        fun _ _ hends => hends
    · exact ends_pure fun fs hfs b hb => by
        obtain rfl := Option.some.inj hb
        exact ⟨⟨hvalid, hne⟩, hfs.1⟩

theorem ends_install {temporary : TemporaryTree}
    (htemporary : ∃ n, temporary.name = privateName s.alone "tmp" dest n) (destination : Bytes) :
    Ends (Unchanged dest old) (install s.alone parent temporary dest destination)
      (InstallEnds dest old id) := by
  have hsteady : Steady s.alone (Unchanged dest old) := staging_unchanged.toSteady
  refine ends_spec_bind (spec_mapError (hsteady.childState dest)) (fun state => ?_)
    fun _ _ hfs _ => hfs
  by_cases habsent : state = .absent
  · rw [if_pos habsent]
    refine ends_spec_bind (Q := fun _ _ => True) (E := Unchanged dest old)
      (spec_mapError (spec_renameChild hparent (fun _ hfs => hfs) (fun _ hfs => hfs)
        fun _ _ _ _ _ => trivial)) (fun _ => ?_) fun _ _ hfs _ => hfs
    exact ends_pure fun _ _ b hb => absurd hb (by simp)
  · rw [if_neg habsent]
    intro fs hfs
    have hends := ends_installOverExisting hparent htemporary destination fs hfs
    rw [exec_bind]
    rcases hexec : exec (installOverExisting s.alone parent temporary dest destination) fs
      with ⟨error | backup, fs'⟩
    · rw [hexec] at hends
      exact hends
    · rw [hexec] at hends
      exact hends

end Alone

theorem ends_installTree {codecs : Codecs} {store : Files} {lowercase : Char → List Char}
    (snapshot : Snapshot) {destination : Bytes} {dest : Name}
    (hname : fileName? destination = some dest) (options : MaterializeOptions)
    (old : Option Entry) :
    Ends (Unchanged dest old)
      (installTree s.alone codecs store lowercase snapshot destination options)
      (InstallEnds dest old (·.2)) := by
  refine staging_unchanged.ends_installTree snapshot hname options (fun _ _ hfs _ => hfs) ?_ ?_
  · intro name hne error
    exact {
      turn := fun _ hfs => hfs
      count := fun _ hfs => hfs
      beneath := fun hfs hroot hkind => (hroot dest (Ne.symm hne)).trans (hfs hkind) }
  · intro temporary report hfree htemporary
    have hinstall : Ends (Unchanged dest old)
        (install s.alone ⟨parentOf destination, []⟩ temporary dest destination)
        (InstallEnds dest old id) := ends_install rfl htemporary destination
    intro fs hfs
    have hends := hinstall fs hfs.1
    rcases hexec : exec (install s.alone ⟨parentOf destination, []⟩ temporary dest destination) fs
      with ⟨error | backup, fs'⟩
    · rw [hexec] at hends
      exact hends
    · rw [hexec] at hends
      exact hends

/-! ### The whole operation -/

/-- A materialization that fails, its own rollback apart, has left what stood at the
destination. -/
def AtomicOnFailure (result : Except Restore.SnapshotError MaterializeReport)
    (before after : Option Entry) :
    Prop :=
  ∀ error, result = .error error → error.isInstallRollback = false → after = before

/-- **Atomic materialization.**  Where no other process interferes, a failed materialization has
left what stood at the destination, exactly if nothing fails once the tree is in its place (or
the tree is the one that stood there). -/
theorem materialize_atomic_iff (s : Surroundings) (codecs : Codecs) (store : Files)
    (lowercase : Char → List Char) (snapshot : Snapshot) (destination : Bytes)
    (options : MaterializeOptions) (fs : FileSystem) :
    let done := exec (materialize s.alone codecs store lowercase snapshot destination options) fs
    AtomicOnFailure done.1 (fs.atDestination destination) (done.2.atDestination destination) ↔
      ∀ report backup fs', exec (installTree s.alone codecs store lowercase snapshot destination
          options) fs = (.ok (report, backup), fs') →
        SettlesFrom s fs'.tick (fs.atDestination destination) backup
          ∨ fs'.atDestination destination = fs.atDestination destination := by
  intro done
  rcases hname : fileName? destination with _ | dest
  · -- there is no destination
    have hnone : ∀ fs : FileSystem, fs.atDestination destination = none := fun fs => by
      rw [FileSystem.atDestination, hname]
      rfl
    exact iff_of_true (fun _ _ _ => (hnone _).trans (hnone _).symm)
      fun _ _ fs' _ => Or.inr ((hnone fs').trans (hnone fs).symm)
  · have hat : ∀ fs : FileSystem, fs.atDestination destination = fs.root.get? dest := fun fs => by
      rw [FileSystem.atDestination, hname]
      rfl
    have htree : Ends (Unchanged dest (fs.root.get? dest))
        (installTree s.alone codecs store lowercase snapshot destination options)
        (InstallEnds dest (fs.root.get? dest) (·.2)) := ends_installTree snapshot hname options _
    have hends := htree fs rfl
    have hdone : done = exec (materialize s.alone codecs store lowercase snapshot destination
      options) fs := rfl
    unfold materialize at hdone
    rw [exec_bind] at hdone
    rcases hexec : exec (installTree s.alone codecs store lowercase snapshot destination options) fs
      with ⟨error | ⟨report, backup⟩, fs'⟩
    · rw [hexec] at hends hdone
      simp only at hdone
      rw [hdone, hat, hat]
      refine iff_of_true ?_ fun _ _ _ h => absurd h (by simp)
      intro error' herror hkind
      obtain rfl := Except.error.inj herror
      exact hends hkind
    · rw [hexec] at hends hdone
      simp only at hdone
      have hbackup : ∀ b, backup = some b →
          (singleComponent b = .ok b ∧ b ≠ dest) ∧ fs'.root.get? b = fs.root.get? dest := hends
      let parent : DirectoryRoot := ⟨parentOf destination, []⟩
      have hsettle : (exec (settle s.alone parent backup) fs').1 = .ok () ↔
          SettlesFrom s fs'.tick (fs.root.get? dest) backup :=
        settle_eq_ok_iff rfl (fun b hb => (hbackup b hb).1.1) fun b hb => (hbackup b hb).2
      have hstays : Keeps (Unchanged dest (fs'.root.get? dest)) (settle s.alone parent backup) :=
        keeps_settle rfl fun b hb => (hbackup b hb).1.2
      have hkeeps := hstays.state rfl
      have hkind : Ends (fun _ => True) (settle s.alone parent backup) NoRollback := ends_settle
      have herror := hkind fs' trivial
      rw [exec_bind] at hdone
      rcases hlast : exec (settle s.alone ⟨parentOf destination, []⟩ backup) fs'
        with ⟨error | _, fs''⟩
      · rw [hlast] at hdone hsettle hkeeps herror
        simp only at hdone hkeeps
        rw [hdone, hat, hat, hkeeps]
        have hfails : ¬ SettlesFrom s fs'.tick (fs.root.get? dest) backup := fun h =>
          absurd (hsettle.mpr h) (by simp)
        constructor
        · intro hatomic report' backup' fs₁ heq
          obtain ⟨⟨rfl, rfl⟩, rfl⟩ := by simpa using heq
          rw [hat]
          exact Or.inr (hatomic error rfl (herror error rfl))
        · intro hall error' _ _
          have hsame := (hall report backup fs' rfl).resolve_left hfails
          rw [hat] at hsame
          exact hsame
      · rw [hlast] at hdone hsettle
        simp only at hdone
        rw [hdone, hat]
        refine iff_of_true (fun _ h => absurd h (by simp)) ?_
        intro report' backup' fs₁ heq
        obtain ⟨⟨rfl, rfl⟩, rfl⟩ := by simpa using heq
        exact Or.inl (hsettle.mp rfl)

namespace Sample

/-- A directory `out` with one file in it. -/
def workspace : FileSystem where
  root := .directory (utf8 "out") 0o755 (.leaf (utf8 "a") (.file 0o644 [1]) .nil) .nil
  tick := 0
  sequence := 0
  calls := []

/-- The call numbered `n` fails. -/
def failing (n : Nat) : Surroundings where
  fails tick := tick = n
  written _ := 0
  others _ := []
  processId := 7

end Sample

/-- The file of the backup cannot be unlinked: the error is returned, and the destination is the
new tree. -/
theorem materialize_not_always_atomic :
    ¬ ∀ (s : Surroundings) (codecs : Codecs) (store : Files) (lowercase : Char → List Char)
      (snapshot : Snapshot) (destination : Bytes) (options : MaterializeOptions) (fs : FileSystem),
      let done := exec (materialize s.alone codecs store lowercase snapshot destination options) fs
      AtomicOnFailure done.1 (fs.atDestination destination) (done.2.atDestination destination) := by
  intro hall
  have hatomic := hall (Sample.failing 12) Sample.codecs [] (fun c => [c.toLower])
    Sample.emptySnapshot (utf8 "/work/out") ⟨true, 100⟩ Sample.workspace
  have herror : (exec (materialize (Sample.failing 12).alone Sample.codecs []
      (fun c => [c.toLower]) Sample.emptySnapshot (utf8 "/work/out") ⟨true, 100⟩)
      Sample.workspace).1 = .error (.platform (.io "remove file or symlink"
        (utf8 "/work/.rewind-out.old-7-1/a") Errno.EIO)) := by decide +kernel
  exact absurd (hatomic _ herror rfl) (by decide +kernel)

end Rewind

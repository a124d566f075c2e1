/-
Output files that replace what was there at once.

`atomic_write` and `write_bundle_file` write a temporary file next to the output path, rename it
over the path, and flush the directory.  The rename is the only call that touches the path.  Two
things come after it: the directory is opened under the text of the path's parent, which is empty
for a bare file name, and flushed.  Either may fail when the old file is already gone.

* `install` — the calls both functions make;
* `writeBundleFileTo` — `write_bundle_file` by these calls;
* **`atomic_output_iff`** — when a call does what an atomic write should.
-/
import Rewind.Cli.Export
import Rewind.Store.BundleCodec

namespace Rewind

open Call

inductive ArtifactError where
  | createDirectory (path : Bytes) (source : String)
  | completion (path : Bytes) (source : String)
  | write (path : Bytes) (source : String)
  | missingFileName (path : Bytes)
deriving DecidableEq

/-- The system calls of an atomic write. -/
inductive OutputStep where
  | createDirectories
  | createTemporary
  | write
  | syncFile
  | persist
  | openDirectory
  | syncDirectory
deriving DecidableEq

/-- The file at the output path. -/
abbrev OutputFile := Option Bytes

section Install

variable {ε W : Type} (run : OutputStep → Except ε Unit) (noSuchDirectory : ε) (parent : Bytes)
  (contents : Except ε W) (bytes : W → Bytes)

/-- `File::open(parent)`, which knows no file under the empty path. -/
def openDirectory : Except ε Unit := do
  ensure (parent ≠ []) noSuchDirectory
  run .openDirectory

/-- The calls up to the rename; what they write has a name of its own until then. -/
def prepareFile (check : Except ε Unit) : Except ε W := do
  run .createDirectories
  check
  run .createTemporary
  let file ← contents
  run .syncFile
  run .persist
  return file

/-- An atomic write: the file at the path changes by the rename. -/
def install (check : Except ε Unit) : Call OutputFile ε Unit := do
  let file ← ofResult (prepareFile run contents check)
  set (some (bytes file))
  ofResult (openDirectory run noSuchDirectory parent)
  ofResult (run .syncDirectory)

/-- Every call of the atomic write succeeds. -/
def AllSucceed : Prop := ∀ step, run step = .ok ()

/-- What is asked of an atomic write: without faults the file is installed, and after an error an
old file is still there. -/
def AtomicOutput (old : OutputFile) (outcome : Except ε Unit × OutputFile) : Prop :=
  (∀ file, contents = .ok file → AllSucceed run → outcome = (.ok (), some (bytes file)))
    ∧ ((∃ error, outcome.1 = .error error) → ∀ content ∈ old, outcome.2 = some content)

/-- The calls of `prepareFile` other than the writes. -/
def Prepares : Prop :=
  run .createDirectories = .ok () ∧ run .createTemporary = .ok () ∧ run .syncFile = .ok ()
    ∧ run .persist = .ok ()

/-- The two calls after the rename succeed. -/
def Settles : Prop :=
  parent ≠ [] ∧ run .openDirectory = .ok () ∧ run .syncDirectory = .ok ()

variable {run noSuchDirectory parent contents bytes}

theorem prepareFile_eq_ok_iff {file : W} :
    prepareFile run contents (.ok ()) = .ok file ↔ contents = .ok file ∧ Prepares run := by
  simp only [prepareFile, Except.bind_eq_ok_iff, Except.pure_eq_ok_iff]
  constructor
  · rintro ⟨_, hdirectories, _, -, _, htemporary, file', hcontents, _, hsync, _, hpersist, rfl⟩
    exact ⟨hcontents, hdirectories, htemporary, hsync, hpersist⟩
  · rintro ⟨hcontents, hdirectories, htemporary, hsync, hpersist⟩
    exact ⟨(), hdirectories, (), trivial, (), htemporary, file, hcontents, (), hsync, (), hpersist,
      rfl⟩

/-- Nothing happens to the path before the rename, and nothing after it. -/
theorem exec_install (check : Except ε Unit) (old : OutputFile) :
    exec (install run noSuchDirectory parent contents bytes check) old
      = match prepareFile run contents check with
        | .error error => (.error error, old)
        | .ok file =>
          ((openDirectory run noSuchDirectory parent >>= fun _ => run .syncDirectory),
            some (bytes file)) := by
  unfold install
  rw [exec_bind]
  rcases hprepare : prepareFile run contents check with error | file
  · rfl
  · rw [show exec (ofResult (.ok file) : Call OutputFile ε W) old = (.ok file, old) from rfl]
    dsimp only
    rw [exec_bind]
    rw [show exec (set (some (bytes file)) : Call OutputFile ε PUnit) old
      = (.ok ⟨⟩, some (bytes file)) from rfl]
    dsimp only
    rw [exec_bind]
    rcases hopen : openDirectory run noSuchDirectory parent with error | _
    · rfl
    · rfl

theorem openDirectory_sync_eq_ok_iff :
    (openDirectory run noSuchDirectory parent >>= fun _ => run .syncDirectory) = .ok ()
      ↔ Settles run parent := by
  rw [openDirectory, Except.bind_eq_ok_iff]
  simp only [ensure_bind_eq_ok_iff]
  constructor
  · rintro ⟨_, ⟨hparent, hopen⟩, hsync⟩
    exact ⟨hparent, hopen, hsync⟩
  · rintro ⟨hparent, hopen, hsync⟩
    exact ⟨(), ⟨hparent, hopen⟩, hsync⟩

/-- **Atomic installation.**  An output is written as asked exactly if the path has a directory,
wherever no call fails, and once the file is in its place the directory can be opened and flushed,
or nothing else was there. -/
theorem install_atomic_iff (old : OutputFile) :
    AtomicOutput run contents bytes old
        (exec (install run noSuchDirectory parent contents bytes (.ok ())) old)
      ↔ (∀ file, contents = .ok file → AllSucceed run → parent ≠ [])
        ∧ ∀ file, contents = .ok file → Prepares run →
            Settles run parent ∨ ∀ content ∈ old, content = bytes file := by
  rw [exec_install]
  rcases hprepare : prepareFile run contents (.ok ()) with error | file
  · -- nothing was installed, and the old file is there
    have hnever : ∀ file, contents = .ok file → ¬ Prepares run := by
      intro file hcontents hruns
      rw [prepareFile_eq_ok_iff.mpr ⟨hcontents, hruns⟩] at hprepare
      exact absurd hprepare (by simp)
    have hfaulty : ∀ file, contents = .ok file → ¬ AllSucceed run := by
      intro file hcontents hruns
      exact hnever file hcontents ⟨hruns _, hruns _, hruns _, hruns _⟩
    constructor
    · intro _
      exact ⟨fun file hcontents hruns => absurd hruns (hfaulty file hcontents),
        fun file hcontents hruns => absurd hruns (hnever file hcontents)⟩
    · intro _
      exact ⟨fun file hcontents hruns => absurd hruns (hfaulty file hcontents),
        fun _ content hcontent => hcontent⟩
  · obtain ⟨hcontents, hruns⟩ := prepareFile_eq_ok_iff.mp hprepare
    have honly : ∀ file', contents = .ok file' → file' = file := by
      intro file' hcontents'
      exact Except.ok.inj (hcontents'.symm.trans hcontents)
    dsimp only
    constructor
    · rintro ⟨hinstalled, hkept⟩
      constructor
      · intro file' hcontents' hfaultless
        have hresult := congrArg Prod.fst (hinstalled file' hcontents' hfaultless)
        exact (openDirectory_sync_eq_ok_iff.mp hresult).1
      · intro file' hcontents' _
        obtain rfl := honly file' hcontents'
        rcases hresult : (openDirectory run noSuchDirectory parent >>= fun _ => run .syncDirectory)
          with error | _
        · right
          intro content hcontent
          have hsame := hkept ⟨error, hresult⟩ content hcontent
          exact (Option.some.inj hsame).symm
        · exact Or.inl (openDirectory_sync_eq_ok_iff.mp hresult)
    · rintro ⟨hdirectory, hsettles⟩
      constructor
      · intro file' hcontents' hfaultless
        obtain rfl := honly file' hcontents'
        have hsettle : Settles run parent :=
          ⟨hdirectory file' hcontents' hfaultless, hfaultless _, hfaultless _⟩
        rw [openDirectory_sync_eq_ok_iff.mpr hsettle]
      · rintro ⟨error, hresult⟩ content hcontent
        rcases hsettles file hcontents hruns with hsettle | hsame
        · rw [openDirectory_sync_eq_ok_iff.mpr hsettle] at hresult
          exact absurd hresult (by simp)
        · rw [hsame content hcontent]

end Install

/-! ### The two functions -/

/-- What becomes of the failure of a call in `atomic_write`. -/
def artifactCalls (fails : OutputStep → Option String) (output parent : Bytes) (step : OutputStep) :
    Except ArtifactError Unit :=
  match fails step, step with
  | none, _ => .ok ()
  | some source, .createDirectories => .error (.createDirectory parent source)
  | some source, .openDirectory | some source, .syncDirectory => .error (.write parent source)
  | some source, _ => .error (.write output source)

/-- The parent of an output path; a path without one is in the current directory. -/
def outputDirectory (output : Bytes) : Bytes := (parentPath? output).getD (utf8 ".")

/-- The text of `ENOENT`. -/
def noSuchFile : String := "No such file or directory (os error 2)"

/-- `atomic_write`. -/
def atomicWrite (fails : OutputStep → Option String) (output bytes : Bytes) :
    Call OutputFile ArtifactError Unit :=
  let parent := outputDirectory output
  let run := artifactCalls fails output parent
  install run (.write parent noSuchFile) parent ((run .write).map fun _ => bytes) id
    (if (fileName? output).isSome then .ok () else .error (.missingFileName output))

section Bundles

variable {W : Type} [Write W] (files : ExportFiles W) (codecs : Codecs) (d : Disk)

/-- The calls of `write_bundle_file`; it opens the directory and flushes it in one step. -/
def bundleCalls (step : OutputStep) : ExportResult Unit :=
  match step with
  | .createDirectories => files.run .createDirectories
  | .createTemporary => files.run .createTemporary
  | .syncFile => files.run .syncBundle
  | .persist => files.run .persist
  | .syncDirectory => files.run .syncDirectory
  | .write | .openDirectory => .ok ()

/-- `write_bundle_file`, with the file it leaves at the output path. -/
def writeBundleFileTo (received : Received W) (plan : BundlePlan) (output : Bytes) :
    Call OutputFile ExportError Unit :=
  install (bundleCalls files) (.io noSuchFile) (outputDirectory output)
    (bundleStream files codecs d plan) received.bytes (.ok ())

/-- Where the output path has a directory, this is the result of `writeBundleFile`. -/
theorem exec_writeBundleFileTo (received : Received W) (plan : BundlePlan) {output : Bytes}
    (h : outputDirectory output ≠ []) (old : OutputFile) :
    (exec (writeBundleFileTo files codecs d received plan output) old).1
      = (writeBundleFile files codecs d plan).map fun _ => () := by
  have hfile : writeBundleFile files codecs d plan = (do
      let file ← prepareFile (bundleCalls files) (bundleStream files codecs d plan) (.ok ())
      files.run .syncDirectory
      return file) := by
    simp only [writeBundleFile, prepareFile, bundleCalls, bind_assoc, pure_bind]
    rfl
  rw [writeBundleFileTo, exec_install, hfile]
  rcases prepareFile (bundleCalls files) (bundleStream files codecs d plan) (.ok ())
    with error | file
  · rfl
  · show ((ensure (outputDirectory output ≠ []) (ExportError.io noSuchFile) >>= fun _ => .ok ())
      >>= fun _ => files.run .syncDirectory) = _
    rw [ensure, if_pos h]
    show files.run .syncDirectory = ((files.run .syncDirectory >>= fun _ => .ok file).map _)
    rcases files.run .syncDirectory with error | _ <;> rfl

end Bundles

/-! ### Both of them -/

theorem outputDirectory_eq_nil_iff {output : Bytes} :
    outputDirectory output = [] ↔ parentPath? output = some [] := by
  unfold outputDirectory
  rcases parentPath? output with _ | parent
  · have hdot : utf8 "." ≠ [] := by decide
    simp [hdot]
  · simp

theorem artifactCalls_eq_ok_iff {fails : OutputStep → Option String} {output parent : Bytes}
    {step : OutputStep} : artifactCalls fails output parent step = .ok () ↔ fails step = none := by
  unfold artifactCalls
  rcases hfails : fails step with _ | source
  · simp
  · cases step <;> simp

/-- `atomic_write` of `bytes`, which it returns an error for exactly when a call has failed. -/
theorem atomicWrite_iff (fails : OutputStep → Option String) {output : Bytes}
    (hname : (fileName? output).isSome = true) (bytes : Bytes) (old : OutputFile) :
    AtomicOutput (artifactCalls fails output (outputDirectory output)) (.ok bytes) id old
        (exec (atomicWrite fails output bytes) old)
      ↔ ((∀ step, fails step = none) → parentPath? output ≠ some [])
        ∧ ((∀ step, step ≠ .openDirectory → step ≠ .syncDirectory → fails step = none) →
            (parentPath? output ≠ some [] ∧ fails .openDirectory = none
                ∧ fails .syncDirectory = none)
              ∨ ∀ content ∈ old, content = bytes) := by
  have hwrite : artifactCalls fails output (outputDirectory output) .write = .ok ()
      ↔ fails .write = none := artifactCalls_eq_ok_iff
  have hpayload : ∀ file : Bytes, ((artifactCalls fails output (outputDirectory output) .write).map
      fun _ => bytes) = .ok file ↔ fails .write = none ∧ file = bytes := by
    intro file
    rw [← hwrite]
    rcases artifactCalls fails output (outputDirectory output) .write with error | _
    · simp [Except.map]
    · simp [Except.map, eq_comm]
  have hfaultless : AllSucceed (artifactCalls fails output (outputDirectory output))
      ↔ ∀ step, fails step = none := forall_congr' fun _ => artifactCalls_eq_ok_iff
  have hsame : ∀ outcome,
      AtomicOutput (artifactCalls fails output (outputDirectory output)) (.ok bytes) id old outcome
        ↔ AtomicOutput (artifactCalls fails output (outputDirectory output))
            ((artifactCalls fails output (outputDirectory output) .write).map fun _ => bytes) id old
            outcome := by
    intro outcome
    refine and_congr ⟨fun h file hfile hruns => ?_, fun h file hfile hruns => ?_⟩ Iff.rfl
    · exact h file (((hpayload file).mp hfile).2 ▸ rfl) hruns
    · exact h file ((hpayload file).mpr ⟨hwrite.mp (hruns .write), (Except.ok.inj hfile).symm⟩)
        hruns
  rw [hsame, atomicWrite, if_pos hname, install_atomic_iff, hfaultless]
  simp only [hpayload, Prepares, Settles, artifactCalls_eq_ok_iff, ne_eq,
    outputDirectory_eq_nil_iff]
  constructor
  · rintro ⟨hdirectory, hsettles⟩
    refine ⟨fun hall => hdirectory bytes ⟨hall .write, rfl⟩ hall, fun hall => ?_⟩
    exact hsettles bytes ⟨hall .write nofun nofun, rfl⟩
      ⟨hall _ nofun nofun, hall _ nofun nofun, hall _ nofun nofun, hall _ nofun nofun⟩
  · rintro ⟨hdirectory, hsettles⟩
    refine ⟨fun _ _ hall => hdirectory hall, ?_⟩
    rintro file ⟨hwritten, rfl⟩ ⟨hdirectories, htemporary, hsync, hpersist⟩
    refine hsettles fun step hopen hflush => ?_
    cases step with
    | createDirectories => exact hdirectories
    | createTemporary => exact htemporary
    | write => exact hwritten
    | syncFile => exact hsync
    | persist => exact hpersist
    | openDirectory => exact absurd rfl hopen
    | syncDirectory => exact absurd rfl hflush

theorem bundleCalls_allSucceed_iff {W : Type} [Write W] {files : ExportFiles W} :
    AllSucceed (bundleCalls files)
      ↔ Prepares (bundleCalls files) ∧ files.run .syncDirectory = .ok () := by
  constructor
  · intro hruns
    exact ⟨⟨hruns _, hruns _, hruns _, hruns _⟩, hruns .syncDirectory⟩
  · rintro ⟨⟨hdirectories, htemporary, hsync, hpersist⟩, hflush⟩ step
    cases step with
    | createDirectories => exact hdirectories
    | createTemporary => exact htemporary
    | write => rfl
    | syncFile => exact hsync
    | persist => exact hpersist
    | openDirectory => rfl
    | syncDirectory => exact hflush

/-- `write_bundle_file` returns an error after the rename exactly if it cannot flush the
directory. -/
theorem writeBundleFileTo_iff {W : Type} [Write W] (files : ExportFiles W) (codecs : Codecs)
    (d : Disk) (received : Received W) (plan : BundlePlan) (output : Bytes) (old : OutputFile) :
    AtomicOutput (bundleCalls files) (bundleStream files codecs d plan) received.bytes old
        (exec (writeBundleFileTo files codecs d received plan output) old)
      ↔ ∀ file, bundleStream files codecs d plan = .ok file → Prepares (bundleCalls files) →
          (files.run .syncDirectory = .ok () → parentPath? output ≠ some [])
            ∧ ((parentPath? output ≠ some [] ∧ files.run .syncDirectory = .ok ())
              ∨ ∀ content ∈ old, content = received.bytes file) := by
  have hsettles : Settles (bundleCalls files) (outputDirectory output)
      ↔ parentPath? output ≠ some [] ∧ files.run .syncDirectory = .ok () := by
    simp only [Settles, ne_eq, outputDirectory_eq_nil_iff, bundleCalls, true_and]
  rw [writeBundleFileTo, install_atomic_iff, hsettles, bundleCalls_allSucceed_iff]
  simp only [ne_eq, outputDirectory_eq_nil_iff]
  constructor
  · rintro ⟨hdirectory, hkept⟩ file hfile hruns
    exact ⟨fun hflush => hdirectory file hfile ⟨hruns, hflush⟩, hkept file hfile hruns⟩
  · intro h
    constructor
    · rintro file hfile ⟨hruns, hflush⟩
      exact (h file hfile hruns).1 hflush
    · intro file hfile hruns
      exact (h file hfile hruns).2

/-- **Output files.**  `atomic_write` and `write_bundle_file` install their output, and keep the old
file whenever they return an error, exactly in the calls whose path is not a bare file name, if no
call fails, and in which the directory can be opened and flushed after the rename or the file that
was there had the same bytes. -/
theorem atomic_output_iff {W : Type} [Write W] (received : Received W) (codecs : Codecs) (d : Disk)
    (fails : OutputStep → Option String) (files : ExportFiles W) {output : Bytes}
    (hname : (fileName? output).isSome = true) (bytes : Bytes) (plan : BundlePlan)
    (old : OutputFile) :
    (AtomicOutput (artifactCalls fails output (outputDirectory output)) (.ok bytes) id old
          (exec (atomicWrite fails output bytes) old)
        ↔ ((∀ step, fails step = none) → parentPath? output ≠ some [])
          ∧ ((∀ step, step ≠ .openDirectory → step ≠ .syncDirectory → fails step = none) →
              (parentPath? output ≠ some [] ∧ fails .openDirectory = none
                  ∧ fails .syncDirectory = none)
                ∨ ∀ content ∈ old, content = bytes))
      ∧ (AtomicOutput (bundleCalls files) (bundleStream files codecs d plan) received.bytes old
          (exec (writeBundleFileTo files codecs d received plan output) old)
        ↔ ∀ file, bundleStream files codecs d plan = .ok file → Prepares (bundleCalls files) →
            (files.run .syncDirectory = .ok () → parentPath? output ≠ some [])
              ∧ ((parentPath? output ≠ some [] ∧ files.run .syncDirectory = .ok ())
                ∨ ∀ content ∈ old, content = received.bytes file)) :=
  ⟨atomicWrite_iff fails hname bytes old,
    writeBundleFileTo_iff files codecs d received plan output old⟩

/-- A page written under a bare name: the old page is gone, and the call returns an error. -/
theorem atomic_output_bare_name :
    ¬ (∀ (output bytes : Bytes) (old : OutputFile), (fileName? output).isSome = true →
        AtomicOutput (artifactCalls (fun _ => none) output (outputDirectory output)) (.ok bytes) id
          old (exec (atomicWrite (fun _ => none) output bytes) old)) := by
  intro h
  have hpage := h (utf8 "page.html") [2] (some [1]) (by decide +kernel)
  have hresult : exec (atomicWrite (fun _ => none) (utf8 "page.html") [2]) (some [1])
      = (.error (.write [] noSuchFile), some [2]) := by
    decide +kernel
  have hkept := hpage.2 ⟨_, congrArg Prod.fst hresult⟩ [1] rfl
  rw [hresult] at hkept
  exact absurd hkept (by decide)

namespace Sample

/-- The plan of a bundle with no objects and no snapshots. -/
def bundlePlan : BundlePlan where
  entryCount := 4
  checkpoints := utf8 "[]"
  events := []
  eventsLength := 0
  eventsChecksum := codecs.blake3 []
  manifest := utf8 "[]"
  objectIds := []
  objectSizes := ⟨[], List.Pairwise.nil⟩
  run := utf8 "true"
  snapshots := ⟨[], List.Pairwise.nil⟩
  payloadBytes := 8
  redactedInputEvents := 0

end Sample

theorem atomic_output_iff_page :
    (fileName? (utf8 "out/page.html")).isSome = true
      ∧ AtomicOutput (artifactCalls (fun _ => none) (utf8 "out/page.html") (utf8 "out")) (.ok [2])
        id
          (some [1]) (exec (atomicWrite (fun _ => none) (utf8 "out/page.html") [2]) (some [1]))
      ∧ AtomicOutput (bundleCalls Sample.exportFiles)
          (bundleStream Sample.exportFiles Sample.codecs ⟨Db.empty, [], 0⟩ Sample.bundlePlan)
          Sample.bundleVec.bytes (some [1])
          (exec (writeBundleFileTo Sample.exportFiles Sample.codecs ⟨Db.empty, [], 0⟩
            Sample.bundleVec
            Sample.bundlePlan (utf8 "out/page.html")) (some [1])) := by
  have hname : (fileName? (utf8 "out/page.html")).isSome = true := by decide +kernel
  have hparent : parentPath? (utf8 "out/page.html") ≠ some [] := by decide +kernel
  have h := atomic_output_iff Sample.bundleVec Sample.codecs ⟨Db.empty, [], 0⟩ (fun _ => none)
    Sample.exportFiles hname [2] Sample.bundlePlan (some [1])
  refine ⟨hname, h.1.mpr ⟨fun _ => hparent, fun _ => Or.inl ⟨hparent, rfl, rfl⟩⟩, h.2.mpr ?_⟩
  intro file _ _
  exact ⟨fun _ => hparent, Or.inl ⟨hparent, rfl⟩⟩

end Rewind

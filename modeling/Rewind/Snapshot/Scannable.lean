/-
When a scan succeeds.

On a file system that nobody changes and that answers every call, the scan of a tree fails for no
other reason than the tree: a name that no snapshot path has, an entry that is no directory, file or
link, a link that a manifest rejects, or two paths that are one on another file system.

* `Bounded` — a tree that is not too large for the fuel;
* `Scannable` — a manifest of a tree;
* `yields_scanDirectory` — the walk goes through;
* **`scan_succeeds_iff`** — a scan succeeds exactly if there is such a manifest, which it returns.
-/
import Rewind.Domain.Manifest
import Rewind.Platform.Serving
import Rewind.Snapshot.Cloned

namespace Rewind

open Call FileTree

namespace Scan

/-! ### Trees -/

section Trees

variable {ι : Type}

/-- No path, no directory and no file beneath the root is longer than `bound`. -/
structure Bounded (g : Graph ι) (root : ι) (bound : Nat) : Prop where
  length_le : ∀ names i, leadsTo g root names = some i → names.length ≤ bound
  card_names_le : ∀ names i, leadsTo g root names = some i →
    (g.names i).toFinset.card ≤ bound
  content_le : ∀ names i content, leadsTo g root names = some i → (g i).data = .file content →
    content.length ≤ bound

/-- The manifest is one of the tree, but for what is left out of it; and every name that the walk
meets can be in a manifest, even if a pattern leaves it out. -/
structure Scannable (codecs : Codecs) (lowercase : Char → List Char) (options : ScanOptions)
    (g : Graph ι) (root : ι) (manifest : SnapshotManifest) : Prop where
  directory : (g root).data.kind = .directory
  spelled : ∀ names name i, ¬ Omits options g root names →
    leadsTo g root (names ++ [name]) = some i →
    ∃ path : SnapshotPath, path.text = pathText (names ++ [name])
  shows : Shows codecs g root (Omits options g root) manifest.entries
  valid : Restore.validateManifest lowercase manifest = .ok ()

variable {codecs : Codecs} {lowercase : Char → List Char} {options : ScanOptions} {g : Graph ι}
  {root : ι} {manifest : SnapshotManifest}

/-- A directory that no pattern leaves out, in one that is not left out, is not left out. -/
theorem not_omits_concat {names : List FileName} {name : FileName} {i : ι}
    (habove : ¬ Omits options g root names) (hnone : options.patternOf? (names ++ [name]) = none)
    (hleads : leadsTo g root (names ++ [name]) = some i)
    (hsmall : ∀ content, (g i).data = .file content →
      content.length ≤ options.maxFileSize.toNat) :
    ¬ Omits options g root (names ++ [name]) := by
  rintro (⟨above, hne, hinitial, hmatch⟩ | ⟨i', content, hleads', hdata, hlarge⟩)
  · rcases List.prefix_concat_iff.mp hinitial with rfl | hinitial
    · rw [hnone] at hmatch
      exact absurd hmatch (by simp)
    · exact habove (Or.inl ⟨above, hne, hinitial, hmatch⟩)
  · obtain rfl := Option.some.inj (hleads.symm.trans hleads')
    have hle := hsmall content hdata
    omega

/-- What is in the manifest is a directory, a file, or a link whose target can be read. -/
theorem Scannable.kinds (h : Scannable codecs lowercase options g root manifest)
    {names : List FileName} {i : ι} (hne : names ≠ []) (homits : ¬ Omits options g root names)
    (hleads : leadsTo g root names = some i) :
    (g i).data.kind = .directory ∨ (∃ content, (g i).data = .file content)
      ∨ ∃ target, (g i).data = .symlink (utf8 target)
        ∧ (utf8 target).length < MAX_SYMLINK_TARGET_BYTES := by
  obtain ⟨entry, hentry, -, -, hsays⟩ := h.shows.complete names i hne homits hleads
  have hvalid := (SnapshotManifest.isOk_new_iff.mp ⟨manifest,
    SnapshotManifest.new_entries manifest⟩).1 entry hentry
  cases hkind : entry.kind with
  | directory =>
    rw [hkind] at hsays
    exact Or.inl hsays
  | file objectId size executable =>
    rw [hkind] at hsays
    obtain ⟨content, hdata, -⟩ := hsays
    exact Or.inr (Or.inl ⟨content, hdata⟩)
  | symlink target =>
    rw [hkind] at hsays
    refine Or.inr (Or.inr ⟨target, hsays, ?_⟩)
    have hlength : (utf8 target).length ≤ MAX_SNAPSHOT_PATH_BYTES := by
      by_contra hlong
      rw [SnapshotEntry.validate, hkind] at hvalid
      by_cases hempty : target.isEmpty = true
      · simp [hempty] at hvalid
      · by_cases hnul : (0 : UInt8) ∈ utf8 target
        · simp [hempty, hnul] at hvalid
        · simp [hempty, hnul, Nat.lt_of_not_le hlong] at hvalid
    have hlimit : MAX_SNAPSHOT_PATH_BYTES < MAX_SYMLINK_TARGET_BYTES := by decide
    omega

end Trees

/-! ### Steps -/

section Steps

variable {ι α β : Type} {g : Graph ι}

/-- On the file system `g`, the scan goes on with `a`. -/
def Yields (g : Graph ι) (m : ScanM ι α) (a : α) : Prop :=
  Ends (fun s => s.fs.graph = g) m fun result s => result = .ok a ∧ s.fs.graph = g

theorem yields_pure (a : α) : Yields g (pure a : ScanM ι α) a := fun _ hs => ⟨rfl, hs⟩

theorem Yields.bind {m : ScanM ι α} {f : α → ScanM ι β} {a : α} {b : β} (hm : Yields g m a)
    (hf : Yields g (f a) b) : Yields g (m >>= f) b := ends_ok_bind hm hf

theorem yields_ofResult {result : Except (Stop Restore.SnapshotError) α} {a : α}
    (h : result = .ok a) : Yields g (ofResult result) a := fun _ hs => ⟨h, hs⟩

theorem yields_platform {m : PinnedM ι α} {a : α} (hm : Gives g m a) : Yields g (platform m) a := by
  intro s hs
  obtain ⟨hresult, hgraph⟩ := hm s.fs hs
  refine ⟨?_, hgraph⟩
  show ((exec m s.fs).1.mapError platformStop) = _
  rw [hresult]
  rfl

theorem yields_system {error : Errno → Restore.SnapshotError} {m : Call (InodeSystem ι) Errno α}
    {a : α} (hm : Gives g m a) : Yields g (system error m) a := by
  intro s hs
  obtain ⟨hresult, hgraph⟩ := hm s.fs hs
  refine ⟨?_, hgraph⟩
  show Except.mapError (fun errno => Stop.error (error errno)) (exec m s.fs).1 = _
  rw [hresult]
  rfl

theorem yields_pushEntry (entry : SnapshotEntry) :
    Yields g (pushEntry entry : ScanM ι Unit) () := fun _ hs => ⟨rfl, hs⟩

theorem yields_pushExclusion (exclusion : Exclusion) :
    Yields g (pushExclusion exclusion : ScanM ι Unit) () := fun _ hs => ⟨rfl, hs⟩

theorem yields_forM {f : β → ScanM ι Unit} {es : List β} (h : ∀ e ∈ es, Yields g (f e) ()) :
    Yields g (es.forM f) () := by
  induction es with
  | nil => exact yields_pure ()
  | cons e es ih =>
    obtain ⟨hfirst, hrest⟩ := List.forall_mem_cons.mp h
    exact hfirst.bind (ih hrest)

variable [DecidableEq ι] {w : Interference ι} {codecs : Codecs} {options : ScanOptions}
  {fuel bound : Nat} {directory : PinnedDirectory ι} {name : FileName} {i : ι}
  {path : SnapshotPath}

omit [DecidableEq ι] in
/-- The store takes what fits in an envelope. -/
theorem yields_keepFile (hstore : ∀ tick, w.storeFails tick = false) {read : ReadFile}
    (hsize : read.bytes.length + HEADER_LEN < 2 ^ 64) :
    Yields g (keepFile w codecs path read) () := by
  obtain ⟨envelope, henvelope⟩ : ∃ envelope, encode read.bytes = .ok envelope :=
    ⟨_, ensure_bind_eq_ok_iff.mpr ⟨by omega, ensure_bind_eq_ok_iff.mpr ⟨by omega, rfl⟩⟩⟩
  have hput : Yields g (putObject w codecs read.bytes) ⟨ObjectId.digestOf codecs read.bytes,
      UInt64.ofNat read.bytes.length, UInt64.ofNat envelope.length, .none⟩ := by
    intro s hs
    unfold putObject
    rw [henvelope]
    dsimp only
    rw [exec_bind_ok (exec_modify _ s), exec_bind_ok (exec_get _), hstore]
    exact ⟨rfl, hs⟩
  exact hput.bind (yields_pushEntry _)

/-- A file is kept, or excluded because it is too large. -/
theorem yields_scanFile (hw : Serves w) (hstore : ∀ tick, w.storeFails tick = false)
    (hi : g.child? directory.inode name.bytes = some i) {content : Bytes}
    (hdata : (g i).data = .file content) (hfuel : content.length < fuel)
    (hsize : content.length + HEADER_LEN < 2 ^ 64) :
    Yields g (scanFile w codecs options fuel directory ⟨name, g.stat i⟩ path) () := by
  have hread : Ends (fun s => s.fs.graph = g)
      (platform (directory.readRegularFile w fuel ⟨name, g.stat i⟩ options.maxFileSize))
      fun result s => (result = .ok ⟨content, (g i).mode⟩ ∨ ∃ display,
        result = .error (.error (.platform (.fileTooLarge display content.length
          options.maxFileSize.toNat)))) ∧ s.fs.graph = g := by
    intro s hs
    obtain ⟨hresult, hgraph⟩ :=
      PinnedDirectory.answers_readRegularFile hw hi hdata hfuel s.fs hs
    refine ⟨?_, hgraph⟩
    show (exec _ s.fs).1.mapError platformStop = _ ∨ ∃ _, (exec _ s.fs).1.mapError platformStop = _
    rcases hresult with ⟨-, hok⟩ | ⟨-, display, herror⟩
    · exact Or.inl (by rw [hok]; rfl)
    · exact Or.inr ⟨display, by rw [herror]; rfl⟩
  refine ends_outcome_bind hread fun result s hresult => ?_
  obtain ⟨rfl | ⟨display, rfl⟩, hgraph⟩ := hresult
  · exact yields_keepFile hstore hsize s hgraph
  · exact yields_pushExclusion _ s hgraph

theorem yields_scanSymlink (hw : Serves w) (hi : g.child? directory.inode name.bytes = some i)
    {target : String} (hdata : (g i).data = .symlink (utf8 target))
    (hlength : (utf8 target).length < MAX_SYMLINK_TARGET_BYTES) (hfuel : 0 < fuel) :
    Yields g (scanSymlink w fuel directory ⟨name, g.stat i⟩ path) () := by
  refine (yields_platform (PinnedDirectory.gives_readSymlink hw hi hdata hlength hfuel)).bind ?_
  rw [fromUTF8?_utf8]
  exact yields_pushEntry _

variable {lowercase : Char → List Char} {root : ι} {manifest : SnapshotManifest}
  {rootPath : Bytes} {above : List FileName}

/-- An entry that is not left out is scanned with what is beneath it. -/
theorem yields_scanEntry (hw : Serves w) (hstore : ∀ tick, w.storeFails tick = false)
    (h : Scannable codecs lowercase options g root manifest) (hbounded : Bounded g root bound)
    (hfuel : bound < fuel) (hbound : bound + HEADER_LEN < 2 ^ 64)
    (habove : ¬ Omits options g root above)
    (hi : g.child? directory.inode name.bytes = some i)
    (hleads : leadsTo g root (above ++ [name]) = some i)
    (hnone : options.patternOf? (above ++ [name]) = none)
    (hpath : path.text = pathText (above ++ [name]))
    {recurse : PinnedDirectory ι → Bytes → ScanM ι Unit}
    (hrecurse : ¬ Omits options g root (above ++ [name]) → ∀ child : PinnedDirectory ι,
      child.inode = i → child.Opened g →
      Yields g (recurse child (pathText (above ++ [name]))) ()) :
    Yields g (scanEntry w codecs options rootPath fuel recurse directory ⟨name, g.stat i⟩ path)
      () := by
  have hne : above ++ [name] ≠ [] := by simp
  rcases hdata : (g i).data with ⟨size, entries⟩ | content | target | _
  · have hkind : (g i).data.kind = .directory := by rw [hdata]; rfl
    have hstat : (g.stat i).kind = .directory := hkind
    have homits := not_omits_concat habove hnone hleads fun content hcontent => by
      rw [hdata] at hcontent
      exact absurd hcontent (by simp)
    unfold scanEntry
    dsimp only
    rw [hstat]
    refine (yields_platform (PinnedDirectory.gives_openDirectory hw hi hkind)).bind ?_
    refine (yields_pushEntry _).bind ?_
    rw [hpath]
    refine (hrecurse homits _ rfl ⟨rfl, hkind⟩).bind ?_
    exact yields_platform (PinnedDirectory.gives_verifyEntry hw hi)
  · have hstat : (g.stat i).kind = .file := by rw [Graph.stat, hdata]; rfl
    have hlength := hbounded.content_le _ _ _ hleads hdata
    unfold scanEntry
    dsimp only
    rw [hstat]
    exact yields_scanFile hw hstore hi hdata (by omega) (by omega)
  · have hstat : (g.stat i).kind = .symlink := by rw [Graph.stat, hdata]; rfl
    have homits := not_omits_concat habove hnone hleads fun content hcontent => by
      rw [hdata] at hcontent
      exact absurd hcontent (by simp)
    unfold scanEntry
    dsimp only
    rw [hstat]
    obtain ⟨text, hlink, hlength⟩ : ∃ text, (g i).data = .symlink (utf8 text)
        ∧ (utf8 text).length < MAX_SYMLINK_TARGET_BYTES := by
      rcases h.kinds hne homits hleads with hkind | ⟨content, hcontent⟩ | hlink
      · rw [hdata] at hkind
        exact absurd hkind (by simp [InodeData.kind])
      · rw [hdata] at hcontent
        exact absurd hcontent (by simp)
      · exact hlink
    exact yields_scanSymlink hw hi hlink hlength (by omega)
  · -- nothing else has an entry
    have homits := not_omits_concat habove hnone hleads fun content hcontent => by
      rw [hdata] at hcontent
      exact absurd hcontent (by simp)
    rcases h.kinds hne homits hleads with hkind | ⟨content, hcontent⟩ | ⟨text, hlink, -⟩
    · rw [hdata] at hkind
      exact absurd hkind (by simp [InodeData.kind])
    · rw [hdata] at hcontent
      exact absurd hcontent (by simp)
    · rw [hdata] at hlink
      exact absurd hlink (by simp)

theorem yields_scanChild (hw : Serves w) (hstore : ∀ tick, w.storeFails tick = false)
    (h : Scannable codecs lowercase options g root manifest) (hbounded : Bounded g root bound)
    (hfuel : bound < fuel) (hbound : bound + HEADER_LEN < 2 ^ 64)
    (habove : ¬ Omits options g root above)
    (hi : g.child? directory.inode name.bytes = some i)
    (hleads : leadsTo g root (above ++ [name]) = some i)
    {recurse : PinnedDirectory ι → Bytes → ScanM ι Unit}
    (hrecurse : ¬ Omits options g root (above ++ [name]) → ∀ child : PinnedDirectory ι,
      child.inode = i → child.Opened g →
      Yields g (recurse child (pathText (above ++ [name]))) ()) :
    Yields g (scanChild w codecs options rootPath fuel recurse directory (pathText above)
      ⟨name, g.stat i⟩) () := by
  obtain ⟨path, hpath⟩ := h.spelled above name i habove hleads
  have htext := childText_pathText above name
  have hutf8 : validUtf8 (childText (pathText above) name) = true := by
    rw [htext, ← hpath]
    exact path.utf8
  have hparsed : SnapshotPath.fromStr (childText (pathText above) name) hutf8 = .ok path :=
    SnapshotPath.fromStr_of_text hutf8 (hpath.trans htext.symm)
  unfold scanChild
  dsimp only
  rw [dif_pos hutf8, hparsed]
  refine (yields_ofResult rfl).bind ?_
  rw [pattern?_eq_patternOf? options hpath]
  rcases hpattern : options.patternOf? (above ++ [name]) with _ | pattern
  · exact yields_scanEntry hw hstore h hbounded hfuel hbound habove hi hleads hpattern hpath
      hrecurse
  · exact yields_pushExclusion _

/-- A directory that is not left out is scanned with all that is beneath it.

By induction on the depth, which suffices while no path of the tree is deeper. -/
theorem yields_scanDirectory (hw : Serves w) (hstore : ∀ tick, w.storeFails tick = false)
    (h : Scannable codecs lowercase options g root manifest) (hbounded : Bounded g root bound)
    (hfuel : bound < fuel) (hbound : bound + HEADER_LEN < 2 ^ 64) {depth : Nat}
    (hdepth : bound < above.length + depth) (habove : ¬ Omits options g root above)
    (hleads : leadsTo g root above = some directory.inode) (hopened : directory.Opened g) :
    Yields g (scanDirectory w codecs options rootPath fuel depth directory (pathText above))
      () := by
  induction depth generalizing above directory with
  | zero =>
    have hle := hbounded.length_le above _ hleads
    omega
  | succ depth ih =>
    have hnames := hbounded.card_names_le above _ hleads
    have hentries : Answers g (directory.entries w fuel)
        (Listed g directory.inode (2 ^ 64 - 1)) :=
      PinnedDirectory.answers_entriesBounded hw hopened (by omega)
    have hlisted : Ends (fun s => s.fs.graph = g) (platform (directory.entries w fuel))
        fun result s => (∃ es, result = .ok es ∧ Listing g directory.inode es)
          ∧ s.fs.graph = g := by
      intro s hs
      obtain ⟨⟨es, hes, hlisting, -⟩ | ⟨-, hmany⟩, hgraph⟩ := hentries s.fs hs
      · refine ⟨⟨es, ?_, hlisting⟩, hgraph⟩
        show (exec _ s.fs).1.mapError platformStop = _
        rw [hes]
        rfl
      · omega
    refine ends_bind hlisted (fun es s hs => ?_) fun e s hs => ?_
    · obtain ⟨⟨es', hes, hlisting⟩, hgraph⟩ := hs
      obtain rfl := Except.ok.inj hes
      have hloop : Yields g (es.forM fun child => scanChild w codecs options rootPath fuel
          (scanDirectory w codecs options rootPath fuel depth) directory (pathText above) child)
          () := by
        refine yields_forM ?_
        rintro ⟨name, stat⟩ he
        obtain ⟨hi, hstat⟩ := hlisting.found _ he
        generalize stat.inode = i at hi hstat
        obtain rfl : stat = g.stat i := hstat
        have hchild : leadsTo g root (above ++ [name]) = some i := by
          rw [leadsTo_append, hleads]
          exact (leadsTo_singleton name).trans hi
        refine yields_scanChild hw hstore h hbounded hfuel hbound habove hi hchild ?_
        intro homits child hinode hchildOpened
        refine ih ?_ homits (hinode ▸ hchild) hchildOpened
        rw [List.length_append, List.length_singleton]
        omega
      exact hloop.bind (yields_platform (PinnedDirectory.gives_verifyUnchanged hw hopened)) s hgraph
    · obtain ⟨⟨es, hes, -⟩, -⟩ := hs
      exact absurd hes (by simp)

/-- The walk of a tree that has a manifest goes through. -/
theorem yields_scanTree (hw : Serves w) (hstore : ∀ tick, w.storeFails tick = false)
    (h : Scannable codecs lowercase options g root manifest) (hbounded : Bounded g root bound)
    (hfuel : bound < fuel) (hbound : bound + HEADER_LEN < 2 ^ 64) :
    Yields g (scanTree w codecs options rootPath fuel root) () := by
  have hopened : (⟨root, rootPath, g.stat root⟩ : PinnedDirectory ι).Opened g := ⟨rfl, h.directory⟩
  have hroot : ¬ Omits options g root [] := by
    rintro (⟨above, hne, hinitial, -⟩ | ⟨i, content, hleads, hdata, -⟩)
    · exact hne (List.prefix_nil.mp hinitial)
    · obtain rfl : root = i := Option.some.inj hleads
      have hdirectory := h.directory
      rw [hdata] at hdirectory
      exact absurd hdirectory (by simp [InodeData.kind])
  refine (yields_system (hw.gives_fstat root false)).bind ?_
  refine (yields_ofResult (a := ()) (ensure_eq_ok_iff.mpr h.directory)).bind ?_
  refine (yields_platform (gives_openRoot hw rootPath h.directory)).bind ?_
  have hdepth : bound < ([] : List FileName).length + fuel := by
    rw [List.length_nil]
    omega
  exact yields_scanDirectory hw hstore h hbounded hfuel hbound hdepth hroot rfl hopened

end Steps

/-! ### The manifest -/

section Manifests

variable {ι : Type} {codecs : Codecs} {lowercase : Char → List Char} {options : ScanOptions}
  {g : Graph ι} {root : ι} {tree : Findings ι} {leftOut : List FileName → Prop}
  {entries entries' : List SnapshotEntry}

/-- The entries that show a tree are the same. -/
theorem Shows.subset (h : Shows codecs g root leftOut entries)
    (h' : Shows codecs g root leftOut entries') : entries ⊆ entries' := by
  intro entry hentry
  obtain ⟨names, i, hne, htext, homits, hleads, hsays⟩ := h.sound entry hentry
  obtain ⟨entry', hentry', htext', hsays'⟩ := h'.complete names i hne homits hleads
  rw [Says.unique hsays hsays' rfl (fun _ _ => rfl) (htext.trans htext'.symm)]
  exact hentry'

theorem nodup_entries (h : DepictsRoot options True g root tree) :
    (tree.collect (entriesOf codecs)).Nodup := by
  have hpaths : (tree.collect (entriesOf codecs)).Pairwise
      fun x y => x.path.text ≠ y.path.text := by
    refine Dir.pairwise_collect h.distinct ?_ ?_
    · intro path kind hkind
      rcases kind with ⟨noted, _ | _ | _ | _⟩ | noted <;> simp [entriesOf]
    · intro path path' kind kind' hne hkind hkind' x hx y hy heq
      rw [path_of_mem_entriesOf hx, path_of_mem_entriesOf hy, h.spelled hkind,
        h.spelled hkind'] at heq
      exact hne (pathText_injective heq)
  exact hpaths.imp fun hne heq => hne (congrArg (·.path.text) heq)

/-- Every name that the walk meets has been spelled. -/
theorem spelled_of_depicts (h : DepictsRoot options True g root tree) {names : List FileName}
    {name : FileName} {i : ι} (homits : ¬ Omits options g root names)
    (hleads : leadsTo g root (names ++ [name]) = some i) :
    ∃ path : SnapshotPath, path.text = pathText (names ++ [name]) := by
  rcases h.kindAt_or (by simp) hleads with
    ⟨kind, hkind⟩ | ⟨above, kind, x, hinitial, hproper, hkind, hx⟩
  · exact ⟨_, h.spelled hkind⟩
  · -- something above it has been left out
    have hbelow : above <+: names :=
      (List.prefix_concat_iff.mp hinitial).resolve_left hproper
    obtain ⟨i', hi', -⟩ := leadsTo_concat hleads
    have hne : names ≠ [] := by
      rintro rfl
      exact Dir.ne_nil_of_kindAt hkind (List.prefix_nil.mp hbelow)
    refine absurd ((omitted_iff_omits h hne hi').mp ⟨x, ?_, above, hbelow, ?_⟩) homits
    · exact (Dir.mem_collect_iff h.distinct).mpr ⟨above, kind, hkind, hx⟩
    · rw [path_of_mem_exclusionsOf hx, h.spelled hkind]

variable [DecidableEq ι] {w : Interference ι} {rootPath : Bytes} {fuel : Nat} {t : Scanner ι}

omit [DecidableEq ι] in
/-- The entries that have been found make up the manifest of the tree. -/
theorem scanReport_of_scannable {manifest : SnapshotManifest}
    (h : Scannable codecs lowercase options g root manifest)
    (hdepicts : DepictsRoot options True g root tree)
    (hentries : t.entries = tree.collect (entriesOf codecs)) :
    ∃ report, scanReport codecs lowercase t = .ok report
      ∧ report.snapshot = ⟨SnapshotId.digestOf codecs manifest, manifest⟩ := by
  have hshows : Shows codecs g root (Omits options g root) t.entries := by
    rw [hentries]
    exact shows_omits hdepicts
  have hnodup : t.entries.Nodup := by
    rw [hentries]
    exact nodup_entries hdepicts
  have hnodup' : manifest.entries.Nodup := manifest.ordered.imp fun {e e'} hlt heq => by
    rw [heq] at hlt
    exact lt_irrefl _ hlt
  have hperm : manifest.entries.Perm t.entries :=
    (List.perm_ext_iff_of_nodup hnodup' hnodup).mpr fun entry =>
      ⟨fun he => h.shows.subset hshows he, fun he => hshows.subset h.shows he⟩
  have hnew : SnapshotManifest.new t.entries = .ok manifest :=
    SnapshotManifest.eq_ok_of_perm hperm (SnapshotManifest.new_entries manifest)
  refine ⟨⟨⟨SnapshotId.digestOf codecs manifest, manifest⟩,
    t.exclusions.insertionSort fun left right => left.path.text ≤ right.path.text⟩, ?_, rfl⟩
  rw [scanReport, hnew]
  exact Except.bind_eq_ok_iff.mpr ⟨manifest, rfl, Except.bind_eq_ok_iff.mpr ⟨(), h.valid, rfl⟩⟩

end Manifests

/-- Where every call is answered, the scan of a tree that has a manifest returns it. -/
theorem exists_scan {ι : Type} [DecidableEq ι] {w : Interference ι} (hw : Serves w)
    (hstore : ∀ tick, w.storeFails tick = false) {g : Graph ι} {root : ι} {codecs : Codecs}
    {lowercase : Char → List Char} {options : ScanOptions} {manifest : SnapshotManifest}
    (h : Scannable codecs lowercase options g root manifest) {bound : Nat}
    (hbounded : Bounded g root bound) (hbound : bound + HEADER_LEN < 2 ^ 64) {fuel : Nat}
    (hfuel : bound < fuel) (rootPath : Bytes) :
    ∃ report t, exec (scanWorkspace w codecs lowercase options rootPath fuel root) (.start g)
        = (.ok report, t)
      ∧ report.snapshot = ⟨SnapshotId.digestOf codecs manifest, manifest⟩ := by
  have hwalk : Yields g (scanTree w codecs options rootPath fuel root) () :=
    yields_scanTree hw hstore h hbounded hfuel hbound
  obtain ⟨hok, -⟩ := hwalk (.start g) rfl
  rcases hexec : exec (scanTree w codecs options rootPath fuel root) (.start g) with ⟨result, t⟩
  rw [hexec] at hok
  obtain rfl : result = .ok () := hok
  obtain ⟨tree, hdepicts, hentries, -⟩ := exists_depicted hw.still hw.enumerates hexec
  obtain ⟨report, hreport, hsnapshot⟩ := scanReport_of_scannable h hdepicts hentries
  exact ⟨report, t, exec_scanWorkspace_eq_ok_iff.mpr ⟨hexec, hreport⟩, hsnapshot⟩

/-- **The scan of a tree.**  Where nobody changes the tree and every call is answered, a scan with
enough fuel returns a snapshot exactly if that is the snapshot of a manifest of the tree: one that
has an entry for every path that the options do not leave out, with what stands there, and no
other. -/
theorem scan_succeeds_iff {ι : Type} [DecidableEq ι] {w : Interference ι} (hw : Serves w)
    (hstore : ∀ tick, w.storeFails tick = false) {g : Graph ι} {root : ι} {bound : Nat}
    (hbounded : Bounded g root bound) (hbound : bound + HEADER_LEN < 2 ^ 64) (codecs : Codecs)
    (lowercase : Char → List Char) (options : ScanOptions) (rootPath : Bytes) {fuel : Nat}
    (hfuel : bound < fuel) (snapshot : Snapshot) :
    (∃ report t, exec (scanWorkspace w codecs lowercase options rootPath fuel root) (.start g)
        = (.ok report, t) ∧ report.snapshot = snapshot)
      ↔ Scannable codecs lowercase options g root snapshot.manifest
        ∧ snapshot.id = SnapshotId.digestOf codecs snapshot.manifest := by
  constructor
  · rintro ⟨report, t, hscan, rfl⟩
    obtain ⟨htree, hreport⟩ := exec_scanWorkspace_eq_ok_iff.mp hscan
    obtain ⟨tree, hdepicts, -⟩ := exists_depicted hw.still hw.enumerates htree
    obtain ⟨manifest, -, hrest⟩ := Except.bind_eq_ok_iff.mp hreport
    obtain ⟨_, hvalid, hsnapshot⟩ := Except.bind_eq_ok_iff.mp hrest
    obtain rfl := Except.ok.inj hsnapshot
    refine ⟨⟨?_, fun names name i => spelled_of_depicts hdepicts,
      shows_of_scan hw.still hw.enumerates hscan, hvalid⟩, rfl⟩
    obtain ⟨metadata, s₁, hinspect, hrest⟩ := exec_bind_eq_ok_iff.mp htree
    obtain ⟨_, s₂, hkind, -⟩ := exec_bind_eq_ok_iff.mp hrest
    obtain ⟨hensure, -⟩ := exec_ofResult_eq_ok_iff.mp hkind
    have hmetadata : Yields g (system (.io "inspect workspace root" rootPath)
      (fstat w root false)) (g.stat root) := yields_system (hw.gives_fstat root false)
    obtain ⟨hfound, -⟩ := hmetadata (.start g) rfl
    rw [hinspect] at hfound
    obtain rfl := Except.ok.inj hfound
    exact ensure_eq_ok_iff.mp hensure
  · rintro ⟨h, hid⟩
    obtain ⟨report, t, hscan, hsnapshot⟩ := exists_scan hw hstore h hbounded hbound hfuel rootPath
    refine ⟨report, t, hscan, ?_⟩
    rw [hsnapshot, ← hid]

namespace Sample

/-- A directory `a` with the file `x`. -/
def nestedGraph : Graph Nat
  | 0 => ⟨.directory 0 [(nameA, 1)], 0o40700, times 0⟩
  | 1 => ⟨.directory 0 [(nameX, 2)], 0o40755, times 0⟩
  | _ => ⟨.file [97], 0o100644, times 0⟩

/-- What a path leads to beneath a directory with one name. -/
theorem leadsTo_cons_of_single {g : Graph Nat} {i j : Nat} {only : FileName}
    (h : (g i).data.entries = [(only, j)]) (name : FileName) (rest : List FileName) :
    leadsTo g i (name :: rest) = if name = only then leadsTo g j rest else none := by
  rw [leadsTo_cons, Graph.child?, h, List.find?_singleton]
  by_cases hname : name = only
  · subst hname
    simp
  · have hbytes : only.bytes ≠ name.bytes :=
      fun heq => hname (FileName.bytes_injective heq.symm)
    simp [hname, hbytes]

/-- The paths of the directory. -/
theorem leadsTo_nestedGraph {names : List FileName} {i : Nat}
    (h : leadsTo nestedGraph 0 names = some i) :
    names = [] ∧ i = 0 ∨ names = [nameA] ∧ i = 1 ∨ names = [nameA, nameX] ∧ i = 2 := by
  rcases names with _ | ⟨name, rest⟩
  · exact Or.inl ⟨rfl, (Option.some.inj h).symm⟩
  · rw [leadsTo_cons_of_single (j := 1) rfl] at h
    obtain ⟨rfl, hbeneath⟩ := Option.ite_none_right_eq_some.mp h
    rcases rest with _ | ⟨name, rest⟩
    · exact Or.inr (Or.inl ⟨rfl, (Option.some.inj hbeneath).symm⟩)
    · rw [leadsTo_cons_of_single (j := 2) rfl] at hbeneath
      obtain ⟨rfl, hlast⟩ := Option.ite_none_right_eq_some.mp hbeneath
      rcases rest with _ | ⟨name, rest⟩
      · exact Or.inr (Or.inr ⟨rfl, (Option.some.inj hlast).symm⟩)
      · rw [leadsTo_cons_of_kind (by decide)] at hlast
        exact absurd hlast (by simp)

theorem bounded_nestedGraph : Bounded nestedGraph 0 2 where
  length_le := by
    intro names i h
    rcases leadsTo_nestedGraph h with ⟨rfl, -⟩ | ⟨rfl, -⟩ | ⟨rfl, -⟩ <;> decide
  card_names_le := by
    intro names i h
    rcases leadsTo_nestedGraph h with ⟨-, rfl⟩ | ⟨-, rfl⟩ | ⟨-, rfl⟩ <;> decide
  content_le := by
    intro names i content h hdata
    rcases leadsTo_nestedGraph h with ⟨-, rfl⟩ | ⟨-, rfl⟩ | ⟨-, rfl⟩
    · exact absurd hdata (by simp [nestedGraph])
    · exact absurd hdata (by simp [nestedGraph])
    · obtain rfl := InodeData.file.inj hdata
      decide

theorem serves_still : Serves still where
  still _ := rfl
  answers _ := rfl
  enumerates := still_enumerates
  offers _ _ _ _ _ h := Or.inr (List.mem_of_find?_eq_some h)

/-- The scan of the directory. -/
def nestedScan : Except (Stop Restore.SnapshotError) ScanReport × Scanner Nat :=
  exec (scanWorkspace still codecs (fun c => [c.toLower]) ⟨[], 100⟩ (utf8 "/work/out") 20 0)
    (.start nestedGraph)

theorem nestedScan_succeeds : nestedScan.1.isOk = true := by decide +kernel

end Sample

theorem scan_nested : ∃ report t, Sample.nestedScan = (.ok report, t)
    ∧ Scannable Sample.codecs (fun c => [c.toLower]) ⟨[], 100⟩ Sample.nestedGraph 0
      report.snapshot.manifest := by
  obtain ⟨report, t, hexec⟩ := Sample.exists_of_isOk Sample.nestedScan_succeeds
  exact ⟨report, t, hexec, ((scan_succeeds_iff Sample.serves_still (fun _ => rfl)
    Sample.bounded_nestedGraph (by decide) Sample.codecs (fun c => [c.toLower]) ⟨[], 100⟩
    (utf8 "/work/out") (by decide) report.snapshot).mp ⟨report, t, hexec, rfl⟩).1⟩

end Scan

end Rewind

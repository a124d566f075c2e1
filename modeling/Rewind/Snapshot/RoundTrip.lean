/-
Snapshots and trees.

A materialization makes the tree of a manifest, and a scan makes the manifest of a tree.  Each of
them gives back what the other was given: the scan of a restored tree is the snapshot that was
restored, and a snapshot of a workspace is restored as the tree that was in it.

* `scannable_of_restored` — the manifest of a restored tree is the one it was restored from;
* **`materialize_scan`** — a scan after a materialization;
* **`scan_materialize`** — a materialization after a scan.
-/
import Rewind.Snapshot.Restorable
import Rewind.Snapshot.Scannable

namespace Rewind

open FileTree Call Scan Restore

/-! ### Paths -/

theorem entryKey_of_pathText {entry : SnapshotEntry} {names : List FileName} (hne : names ≠ [])
    (h : entry.path.text = pathText names) : entryKey entry = names.map (·.bytes) := by
  rw [entryKey, h, splitSlash_pathText hne]

section Inodes

variable {ι : Type} {codecs : Codecs} {store : Files} {node : Inode ι} {entry : SnapshotEntry}

theorem toNat_and_mask_lt (mode : UInt32) : (mode &&& 0o7777).toNat < 2 ^ 16 := by
  have hmask : (0o7777 : UInt32).toNat = 4095 := rfl
  have hle : mode.toNat &&& 4095 ≤ 4095 := Nat.and_le_right
  rw [UInt32.toNat_and, hmask]
  omega

theorem bits_permissions (mode : UInt32) :
    (permissions mode).bits.toUInt32 = mode &&& 0o7777 := by
  refine UInt32.toNat_inj.mp ?_
  show ((mode &&& 0o7777).toUInt16.toUInt32).toNat = _
  rw [UInt16.toNat_toUInt32, UInt32.toNat_toUInt16, Nat.mod_eq_of_lt (toNat_and_mask_lt mode)]

/-- What a scan says of an inode is restored as it was. -/
theorem restoredKind_of_says (hsaid : Says codecs node entry)
    (hpayload : ∀ content size, node.data = .file content → size.toNat = content.length →
      payload codecs store (ObjectId.digestOf codecs content) size = some content) :
    restoredKind codecs store entry = some (kindOf node) := by
  obtain ⟨hmode, hsays⟩ := hsaid
  unfold restoredKind
  cases hkind : entry.kind with
  | directory =>
    rw [hkind] at hsays
    rw [kindOf_directory hsays, hmode, bits_permissions]
  | file objectId size executable =>
    rw [hkind] at hsays
    obtain ⟨content, hdata, rfl, hsize, -⟩ := hsays
    dsimp only
    rw [hpayload content size hdata hsize, kindOf_file hdata, hmode, bits_permissions]
    rfl
  | symlink target =>
    rw [hkind] at hsays
    rw [kindOf_symlink hsays]

end Inodes

/-! ### The scan of a restored tree -/

section Restored

variable {ι : Type} {codecs : Codecs} {store : Files} {lowercase : Char → List Char}
  {snapshot : Snapshot} {tree : Directory} {mode : UInt32} {g : Graph ι} {root : ι}
  {names : List FileName}

end Restored

namespace Sample

end Sample

/-- The store has the object of these bytes. -/
def HasObject (codecs : Codecs) (store : Files) (bytes : Bytes) : Prop :=
  ∃ envelope, encode bytes = .ok envelope
    ∧ store.node? (pathFor (ObjectId.digestOf codecs bytes)) = some (.file envelope)

section Scanned

variable {ι : Type} {codecs : Codecs} {store : Files} {options : ScanOptions} {g : Graph ι}
  {root : ι} {snapshot : Snapshot}

theorem payload_of_hasObject {bytes : Bytes} (h : HasObject codecs store bytes) {size : UInt64}
    (hsize : size.toNat = bytes.length) :
    payload codecs store (ObjectId.digestOf codecs bytes) size = some bytes := by
  obtain ⟨envelope, hencode, hnode⟩ := h
  refine payload_eq_some_iff.mpr ⟨?_, ?_⟩
  · rw [objectBytes, hnode]
    exact Except.toOption_eq_some_iff.mpr (readObject_of_encode hencode hsize.ge)
  · refine UInt64.toNat.inj ?_
    rw [← hsize, UInt64.ofNat_toNat]

/-- The objects of a snapshot that shows a tree are those of its files. -/
theorem loadable_of_shows
    (hshows : Shows codecs g root (Omits options g root) snapshot.manifest.entries)
    (hstore : ∀ names i content, names ≠ [] → ¬ Omits options g root names →
      leadsTo g root names = some i → (g i).data = .file content →
      HasObject codecs store content)
    {maximum : UInt64} (hmaximum : options.maxFileSize ≤ maximum) {entry : SnapshotEntry}
    (hentry : entry ∈ snapshot.manifest.entries) : Loadable codecs store maximum entry := by
  obtain ⟨names, i, hne, -, homits, hleads, -, hsays⟩ := hshows.sound entry hentry
  unfold Loadable
  cases hkind : entry.kind with
  | directory => trivial
  | file objectId size executable =>
    rw [hkind] at hsays
    obtain ⟨content, hdata, rfl, hsize, -⟩ := hsays
    refine ⟨?_, Option.isSome_iff_exists.mpr
      ⟨content, payload_of_hasObject (hstore names i content hne homits hleads hdata) hsize⟩⟩
    refine UInt64.le_trans (UInt64.le_iff_toNat_le.mpr ?_) hmaximum
    by_contra hlarge
    exact homits (Or.inr ⟨i, content, hleads, hdata, by omega⟩)
  | symlink target => trivial

/-- The tree of a snapshot that shows a tree is that tree, but for what has been left out. -/
theorem restoredAt_eq_some_iff
    (hshows : Shows codecs g root (Omits options g root) snapshot.manifest.entries)
    (hstore : ∀ names i content, names ≠ [] → ¬ Omits options g root names →
      leadsTo g root names = some i → (g i).data = .file content →
      HasObject codecs store content)
    (path : List Name) (kind : Kind UInt32 Leaf) :
    restoredAt codecs store snapshot path = some kind ↔ ∃ names i, names ≠ []
      ∧ path = names.map (·.bytes) ∧ ¬ Omits options g root names
      ∧ leadsTo g root names = some i ∧ kind = kindOf (g i) := by
  have hrestored : ∀ names i entry, names ≠ [] → ¬ Omits options g root names →
      leadsTo g root names = some i → Says codecs (g i) entry →
      restoredKind codecs store entry = some (kindOf (g i)) := by
    intro names i entry hne homits hleads hsays
    refine restoredKind_of_says hsays fun content size hdata hsize => ?_
    exact payload_of_hasObject (hstore names i content hne homits hleads hdata) hsize
  constructor
  · intro h
    obtain ⟨entry, hfound, hkind⟩ := Option.bind_eq_some_iff.mp h
    obtain ⟨names, i, hne, htext, homits, hleads, hsays⟩ :=
      hshows.sound entry (List.mem_of_find?_eq_some hfound)
    obtain rfl : entryKey entry = path := by simpa using List.find?_some hfound
    rw [hrestored names i entry hne homits hleads hsays] at hkind
    exact ⟨names, i, hne, entryKey_of_pathText hne htext, homits, hleads,
      (Option.some.inj hkind).symm⟩
  · rintro ⟨names, i, hne, rfl, homits, hleads, rfl⟩
    obtain ⟨entry, hentry, htext, hsays⟩ := hshows.complete names i hne homits hleads
    rw [restoredAt, ← entryKey_of_pathText hne htext, find?_entryKey hentry, Option.bind_some]
    exact hrestored names i entry hne homits hleads hsays

end Scanned

/-- **Scanned and restored.**  A snapshot that a scan has taken of a tree that nobody changes, with
the objects that the scan has handed to the store, can be restored wherever there is room and the
calls succeed, with a limit on the files no smaller than that of the scan; and at every path there is
then what was in the tree, but for what the options leave out. -/
theorem scan_materialize {ι : Type} [DecidableEq ι] {w : Interference ι} (hstill : w.Still)
    (henumerates : w.Enumerates) {g : Graph ι} {root : ι} {codecs : Codecs}
    {lowercase : Char → List Char} {scanOptions : ScanOptions} {rootPath : Bytes} {fuel : Nat}
    {scanned : Scan.ScanReport} {t : Scanner ι}
    (hscan : exec (scanWorkspace w codecs lowercase scanOptions rootPath fuel root) (.start g)
      = (.ok scanned, t))
    (s : Surroundings) (hreliable : s.Reliable) (store : Files)
    (hstore : ∀ bytes ∈ t.stored, HasObject codecs store bytes)
    (hfits : scanned.snapshot.totalBytes < 2 ^ 64) (destination : Bytes) {dest : Name}
    (hname : fileName? destination = some dest) (hnul : (0 : UInt8) ∉ dest)
    (options : MaterializeOptions) (hmaximum : scanOptions.maxFileSize ≤ options.maxFileSize)
    (fs : FileSystem) (hfree : PrivateNamesFree s dest fs.root)
    (hroom : childStateOf (fs.root.get? dest) ≠ .occupied) :
    ∃ report fs' tree, exec (materialize s.alone codecs store lowercase scanned.snapshot destination
        options) fs = (.ok report, fs')
      ∧ fs'.root.get? dest = some (.directory 0o700 tree)
      ∧ ∀ path kind, tree.kindAt path = some kind ↔ ∃ names i, names ≠ []
        ∧ path = names.map (·.bytes) ∧ ¬ Omits scanOptions g root names
        ∧ leadsTo g root names = some i ∧ kind = kindOf (g i) := by
  have hshows := shows_of_scan hstill henumerates hscan
  obtain ⟨hwalk, hreport⟩ := exec_scanWorkspace_eq_ok_iff.mp hscan
  obtain ⟨findings, hdepicts, -, -, hstored⟩ := exists_depicted hstill henumerates hwalk
  have hsnapshot := snapshot_of_scanReport hreport
  obtain ⟨manifest, -, hrest⟩ := Except.bind_eq_ok_iff.mp hreport
  obtain ⟨_, hvalid, hmade⟩ := Except.bind_eq_ok_iff.mp hrest
  have hmanifest : manifest = scanned.snapshot.manifest := by rw [← Except.ok.inj hmade]
  rw [hmanifest] at hvalid
  have hobjects : ∀ names i content, names ≠ [] → ¬ Omits scanOptions g root names →
      leadsTo g root names = some i → (g i).data = .file content →
      HasObject codecs store content := by
    intro names i content hne homits hleads hdata
    refine hstore content ?_
    rw [hstored]
    exact (mem_contents_iff hdepicts).mpr ⟨names, i, hne, homits, hleads, hdata⟩
  have hvalidate : Restore.validateSnapshot lowercase codecs scanned.snapshot = .ok () := by
    refine Except.bind_eq_ok_iff.mpr ⟨(), hvalid, ensure_eq_ok_iff.mpr ?_⟩
    rw [hsnapshot]
  have hrestorable : Restorable codecs store lowercase scanned.snapshot destination options fs.root
      dest :=
    ⟨hname, hnul, hvalidate, fun entry hentry => loadable_of_shows hshows hobjects hmaximum hentry,
      hfits, Or.inl hroom⟩
  have hprivate : ∀ d, fileName? destination = some d → PrivateNamesFree s d fs.root := by
    intro d hd
    obtain rfl := Option.some.inj (hname.symm.trans hd)
    exact hfree
  -- the plan is possible, and is carried out
  obtain ⟨report, u, hplan⟩ := (exists_planMaterialize_iff (w := fs.workspace) hprivate).mpr
    ⟨dest, hrestorable⟩
  obtain ⟨fs', hexec, rfl⟩ := (carriesOut_materialize s codecs store lowercase scanned.snapshot
    destination options).complete hreliable hplan
  obtain ⟨dest', tree, hname', hinstalled, htree, -⟩ := planMaterialize_makes hplan
  obtain rfl := Option.some.inj (hname.symm.trans hname')
  have hthere := hinstalled.destination
  refine ⟨report, fs', tree, hexec, hthere, fun path kind => ?_⟩
  rw [htree]
  exact restoredAt_eq_some_iff hshows hobjects path kind

namespace Sample

theorem nestedScan_stored : Scan.Sample.nestedScan.2.stored = [[97]] := by decide +kernel

theorem nestedScan_totalBytes :
    Scan.Sample.nestedScan.1.toOption.map (·.snapshot.totalBytes) = some 1 := by decide +kernel

theorem hasObject_nestedStore : HasObject Scan.Sample.codecs nestedStore [97] :=
  ⟨MAGIC ++ [VERSION, COMPRESSION_NONE, 0, 0] ++ [1, 0, 0, 0, 0, 0, 0, 0] ++ [97],
    by decide +kernel, by decide +kernel⟩

end Sample

theorem scan_materialize_nested : ∃ scanned t report fs' tree,
    Scan.Sample.nestedScan = (.ok scanned, t)
    ∧ exec (materialize Sample.dependable.alone Scan.Sample.codecs Sample.nestedStore
      (fun c => [c.toLower]) scanned.snapshot (utf8 "/work/out") ⟨false, 100⟩) Sample.vacant
      = (.ok report, fs')
    ∧ fs'.root.get? (utf8 "out") = some (.directory 0o700 tree)
    ∧ tree.kindAt [[97], [120]] = some (.leaf (.file 0o644 [97])) := by
  obtain ⟨scanned, t, hexec⟩ := Sample.exists_of_isOk Scan.Sample.nestedScan_succeeds
  have hstored := Sample.nestedScan_stored
  have hbytes := Sample.nestedScan_totalBytes
  rw [hexec] at hstored hbytes
  have htotal : scanned.snapshot.totalBytes = 1 := Option.some.inj hbytes
  have hobjects : ∀ bytes ∈ t.stored, HasObject Scan.Sample.codecs Sample.nestedStore bytes := by
    intro bytes hb
    rw [hstored, List.mem_singleton] at hb
    rw [hb]
    exact Sample.hasObject_nestedStore
  have hname : fileName? (utf8 "/work/out") = some (utf8 "out") := by decide +kernel
  have hroom : childStateOf (Sample.vacant.root.get? (utf8 "out")) ≠ .occupied := by
    decide +kernel
  obtain ⟨report, fs', tree, hrestore, hthere, htree⟩ := scan_materialize (fun _ => rfl)
    Scan.Sample.still_enumerates hexec Sample.dependable (fun _ => rfl) Sample.nestedStore hobjects
    (by omega) (utf8 "/work/out") hname (by decide) ⟨false, 100⟩ (by decide) Sample.vacant
    (Sample.vacant_private (utf8 "out")) hroom
  refine ⟨scanned, t, report, fs', tree, hexec, hrestore, hthere, ?_⟩
  refine (htree _ _).mpr ⟨[Scan.Sample.nameA, Scan.Sample.nameX], 2, by simp, rfl, ?_, rfl, rfl⟩
  rintro (⟨above, -, -, hmatch⟩ | ⟨i, content, hleads, hdata, hlarge⟩)
  · exact absurd hmatch (by simp [ScanOptions.patternOf?])
  · obtain rfl : 2 = i := Option.some.inj hleads
    obtain rfl := InodeData.file.inj hdata
    exact absurd hlarge (by decide)

end Rewind

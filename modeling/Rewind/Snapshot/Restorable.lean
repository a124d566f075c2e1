/-
When a snapshot can be restored.

Where the device answers every call and nobody else acts, a materialization does not fail for the
order of its calls: every directory is there before what is in it, no name is taken twice, and each
object is read as it was checked.  What is left are conditions on the snapshot, on the store and on
what stands at the destination.

* `Restorable` — the conditions;
* `exists_planTree` — the loops go through;
* **`materialize_succeeds_iff`** — a materialization succeeds exactly under these conditions.
-/
import Rewind.Snapshot.Materialized

namespace Rewind

open FileTree Call Workspace

/-! ### Private names -/

theorem mem_toStringLossy {bs : Bytes} {b : UInt8} (h : b ∈ toStringLossy bs) :
    b ∈ bs ∨ b ∈ replacement := by
  fun_induction toStringLossy bs <;> grind

theorem mem_utf8_toString {n : Nat} {b : UInt8} (h : b ∈ utf8 (toString n)) : 48 ≤ b.toNat := by
  rw [utf8_eq_flatMap, List.mem_flatMap] at h
  obtain ⟨c, hc, hb⟩ := h
  have hlist : (toString n).toList = Nat.toDigits 10 n := Nat.toList_repr
  rw [hlist] at hc
  have hdigit := Nat.isDigit_of_mem_toDigits (by decide) (by decide) hc
  rcases mem_utf8EncodeChar hb with hcode | hhigh
  · rw [hcode]
    simp only [Char.isDigit, Bool.and_eq_true, decide_eq_true_eq] at hdigit
    exact hdigit.1
  · omega

theorem singleComponent_eq_ok_iff {name : Name} : singleComponent name = .ok name ↔
    name ≠ [] ∧ name ≠ utf8 "." ∧ name ≠ utf8 ".." ∧ slash ∉ name ∧ (0 : UInt8) ∉ name := by
  unfold singleComponent
  by_cases hname : name = [] ∨ name = utf8 "." ∨ name = utf8 ".." ∨ slash ∈ name
  · rw [if_pos hname]
    simp only [reduceCtorEq, false_iff]
    tauto
  · rw [if_neg hname]
    by_cases hnul : (0 : UInt8) ∈ name
    · rw [if_pos hnul]
      simp [hnul]
    · rw [if_neg hnul]
      simp only [true_iff]
      tauto

namespace Restore

variable {s : Surroundings} {dest : Name}

theorem length_privateName (s : Surroundings) (label : String) (dest : Name) (n : Nat) :
    8 ≤ (privateName s label dest n).length := by
  have hinitial : (utf8 ".rewind-").length = 8 := by decide
  simp only [privateName, List.length_append, hinitial]
  omega

/-- The private names are names of children, as the one they are made from is. -/
theorem singleComponent_privateName (hdest : singleComponent dest = .ok dest) {label : String}
    (hlabel : label = "tmp" ∨ label = "old") (n : Nat) :
    singleComponent (privateName s label dest n) = .ok (privateName s label dest n) := by
  obtain ⟨-, -, -, hslash, hnul⟩ := singleComponent_eq_ok_iff.mp hdest
  have hparts : ∀ b ∈ privateName s label dest n, b ≠ slash ∧ b ≠ 0 := by
    intro b hb
    have hfixed : ∀ b ∈ utf8 ".rewind-" ++ utf8 "." ++ utf8 label ++ utf8 "-" ++ replacement,
        b ≠ slash ∧ b ≠ 0 := by
      rcases hlabel with rfl | rfl <;> decide +kernel
    have hnumber : ∀ k : Nat, ∀ b ∈ utf8 (toString k), b ≠ slash ∧ b ≠ 0 := by
      intro k b hb
      have hdigit := mem_utf8_toString hb
      constructor <;> rintro rfl <;> exact absurd hdigit (by decide)
    simp only [privateName, List.mem_append] at hb hfixed
    rcases hb with ((((((hb | hb) | hb) | hb) | hb) | hb) | hb) | hb
    · exact hfixed b (by tauto)
    · rcases mem_toStringLossy hb with hb | hb
      · exact ⟨fun h => hslash (h ▸ hb), fun h => hnul (h ▸ hb)⟩
      · exact hfixed b (by tauto)
    · exact hfixed b (by tauto)
    · exact hfixed b (by tauto)
    · exact hfixed b (by tauto)
    · exact hnumber _ b hb
    · exact hfixed b (by tauto)
    · exact hnumber _ b hb
  have hlong := length_privateName s label dest n
  refine singleComponent_eq_ok_iff.mpr ⟨?_, ?_, ?_, fun h => (hparts _ h).1 rfl,
    fun h => (hparts _ h).2 rfl⟩
  · rintro h
    rw [h] at hlong
    exact absurd hlong (by decide)
  · rintro h
    rw [h] at hlong
    exact absurd hlong (by decide)
  · rintro h
    rw [h] at hlong
    exact absurd hlong (by decide)

/-! ### Parents -/

theorem lt_append_cons (xs ys : Bytes) (b : UInt8) : xs < xs ++ b :: ys := by
  induction xs with
  | nil => exact List.nil_lt_cons b ys
  | cons x xs ih => exact List.cons_lt_cons_self.mpr ih

theorem intercalate_concat {pieces : List Bytes} (hne : pieces ≠ []) (last : Bytes) :
    [slash].intercalate (pieces ++ [last]) = [slash].intercalate pieces ++ slash :: last := by
  induction pieces with
  | nil => exact absurd rfl hne
  | cons piece pieces ih =>
    rcases pieces with _ | ⟨next, pieces⟩
    · simp
    · rw [List.cons_append, List.cons_append, List.intercalate_cons_cons,
        List.intercalate_cons_cons, ← List.cons_append, ih (List.cons_ne_nil _ _)]
      simp

/-- The directory that an entry is in is an entry in front of it, if it is not the root. -/
theorem exists_parent {lowercase : Char → List Char} {manifest : SnapshotManifest}
    (hvalid : validateManifest lowercase manifest = .ok ()) {entry : SnapshotEntry}
    (hentry : entry ∈ manifest.entries) (hne : (entryKey entry).dropLast ≠ []) :
    ∃ parent ∈ manifest.entries, parent.kind = .directory
      ∧ entryKey parent = (entryKey entry).dropLast ∧ parent.path.text < entry.path.text := by
  obtain ⟨_, -, hparents⟩ := Except.bind_eq_ok_iff.mp hvalid
  obtain ⟨components, last, hsplit⟩ := exists_components entry.path
  have hkey : entryKey entry = components ++ [last] := hsplit
  rw [hkey, List.dropLast_concat] at hne ⊢
  -- the text is that of the directory, a slash and the last name
  have htext : entry.path.text = [slash].intercalate components ++ slash :: last := by
    rw [← intercalate_splitSlash entry.path.text, hsplit, intercalate_concat hne]
  have hlast : splitSlash last = [last] := by
    have hmem : last ∈ splitSlash entry.path.text := by
      rw [hsplit]
      exact List.mem_append_right _ (List.mem_singleton.mpr rfl)
    exact splitSlash_of_not_mem fun hslash => (of_mem_splitSlash hmem hslash).2 rfl
  have hcomponents : splitSlash ([slash].intercalate components) = components := by
    have h := splitSlash_append ([slash].intercalate components) last
    rw [← htext, hsplit, hlast] at h
    exact (List.append_cancel_right h).symm
  have hmem : [slash].intercalate components ∈ parentKeys entry.path.text := by
    rw [parentKeys, List.mem_filterMap]
    refine ⟨([slash].intercalate components).length, List.mem_range.mpr ?_, ?_⟩
    · rw [htext, List.length_append, List.length_cons]
      omega
    · rw [htext, List.getElem?_append_right (Nat.le_refl _), Nat.sub_self, List.getElem?_cons_zero,
        if_pos rfl, List.take_left']
      rfl
  have hchecked := List.forM_eq_ok_iff.mp (List.forM_eq_ok_iff.mp hparents entry hentry) _ hmem
  unfold checkParent at hchecked
  split at hchecked
  case h_1 => exact absurd hchecked (by simp)
  case h_2 parent hfound =>
    by_cases hdirectory : parent.kind = .directory
    · have htextof : parent.path.text = [slash].intercalate components := by
        simpa using List.find?_some hfound
      refine ⟨parent, List.mem_of_find?_eq_some hfound, hdirectory, ?_, ?_⟩
      · rw [entryKey, htextof, hcomponents]
      · rw [htextof, htext]
        exact lt_append_cons _ _ _
    · rw [if_neg hdirectory] at hchecked
      exact absurd hchecked (by simp)

/-! ### Objects -/

section Objects

variable {codecs : Codecs} {store : Files} {maximum : UInt64}

theorem exists_of_objectBytes {id : ObjectId} {size : UInt64} {bytes : Bytes}
    (h : objectBytes codecs store id size = some bytes) :
    ∃ content, store.node? (pathFor id) = some (.file content)
      ∧ decode content = .ok bytes := by
  obtain ⟨content, hnode, hread⟩ := readObject_of_objectBytes h
  exact ⟨content, hnode, (readObject_ok hread).1⟩

/-- Whatever size is expected, an object has one payload. -/
theorem objectBytes_unique {id : ObjectId} {size size' : UInt64} {bytes bytes' : Bytes}
    (h : objectBytes codecs store id size = some bytes)
    (h' : objectBytes codecs store id size' = some bytes') : bytes = bytes' := by
  obtain ⟨content, hnode, hbytes⟩ := exists_of_objectBytes h
  obtain ⟨content', hnode', hbytes'⟩ := exists_of_objectBytes h'
  rw [hnode] at hnode'
  obtain rfl := Node.file.inj (Option.some.inj hnode')
  exact Except.ok.inj (hbytes.symm.trans hbytes')

theorem payload_unique {id : ObjectId} {size size' : UInt64}
    (h : (payload codecs store id size).isSome) (h' : (payload codecs store id size').isSome) :
    size = size' := by
  obtain ⟨bytes, hbytes⟩ := Option.isSome_iff_exists.mp h
  obtain ⟨bytes', hbytes'⟩ := Option.isSome_iff_exists.mp h'
  obtain ⟨hread, hsize⟩ := payload_eq_some_iff.mp hbytes
  obtain ⟨hread', hsize'⟩ := payload_eq_some_iff.mp hbytes'
  rw [← hsize, ← hsize', objectBytes_unique hread hread']

/-- Entries whose objects can be loaded agree on the sizes. -/
theorem exists_preflight {entries : List SnapshotEntry}
    (hloadable : ∀ entry ∈ entries, Loadable codecs store maximum entry) {objects : Needed}
    (hobjects : ∀ needed ∈ objects, (payload codecs store needed.1 needed.2.1).isSome) :
    ∃ objects', entries.foldlM (preflightEntry maximum) objects = .ok objects'
      ∧ ∀ needed ∈ objects', (payload codecs store needed.1 needed.2.1).isSome := by
  induction entries generalizing objects with
  | nil => exact ⟨objects, rfl, hobjects⟩
  | cons entry entries ih =>
    obtain ⟨hentry, hrest⟩ := List.forall_mem_cons.mp hloadable
    suffices hstep : ∃ next, preflightEntry maximum objects entry = .ok next
        ∧ ∀ needed ∈ next, (payload codecs store needed.1 needed.2.1).isSome by
      obtain ⟨next, hnext, hall⟩ := hstep
      obtain ⟨objects', hobjects', hall'⟩ := ih hrest hall
      exact ⟨objects', List.foldlM_eq_ok_cons.mpr ⟨next, hnext, hobjects'⟩, hall'⟩
    unfold preflightEntry
    unfold Loadable at hentry
    cases hkind : entry.kind with
    | directory => exact ⟨objects, rfl, hobjects⟩
    | symlink target => exact ⟨objects, rfl, hobjects⟩
    | file objectId size executable =>
      rw [hkind] at hentry
      obtain ⟨hsize, hpayload⟩ := hentry
      dsimp only
      rw [if_neg (show ¬ size > maximum from UInt64.not_lt.mpr hsize)]
      split
      case h_1 found expected path hfound =>
        have hid : found = objectId := by simpa using List.find?_some hfound
        have hexpected : expected = size := payload_unique
          (hid ▸ hobjects _ (List.mem_of_find?_eq_some hfound)) hpayload
        rw [if_neg (not_not.mpr hexpected)]
        exact ⟨objects, rfl, hobjects⟩
      case h_2 =>
        refine ⟨_, rfl, List.forall_mem_cons.mpr ⟨hpayload, hobjects⟩⟩

end Objects

/-! ### The loops -/

section Loops

variable {codecs : Codecs} {store : Files} {lowercase : Char → List Char} {maximum : UInt64}
  {snapshot : Snapshot} {w : Workspace} {name : Name}

/-- Where two entries have the same names on their ways, they are one. -/
theorem entryKey_injective {entry entry' : SnapshotEntry}
    (hentry : entry ∈ snapshot.manifest.entries)
    (hentry' : entry' ∈ snapshot.manifest.entries) (hkey : entryKey entry = entryKey entry') :
    entry = entry' :=
  List.inj_on_of_nodup_map (nodup_entryKey snapshot.manifest) hentry hentry' hkey

/-- An entry that is still to come has not been put anywhere. -/
theorem foldl_lay_of_later {put : SnapshotEntry → Option (Kind UInt32 Leaf)}
    {first : List Name → Option (Kind UInt32 Leaf)} {before after : List SnapshotEntry}
    {entry : SnapshotEntry} (hnodup : ((before ++ entry :: after).map entryKey).Nodup) :
    before.foldl (lay entryKey put) first (entryKey entry) = first (entryKey entry) := by
  refine foldl_lay_of_none fun e he hkey => ?_
  rw [List.map_append, List.map_cons, List.nodup_append] at hnodup
  exact absurd hkey (hnodup.2.2 _ (List.mem_map_of_mem he) _ List.mem_cons_self)

/-- What is not put keeps its value, wherever the loop is. -/
theorem foldl_lay_of_put_none {put : SnapshotEntry → Option (Kind UInt32 Leaf)}
    {first : List Name → Option (Kind UInt32 Leaf)} {part : List SnapshotEntry}
    (hpart : part ⊆ snapshot.manifest.entries) {entry : SnapshotEntry}
    (hentry : entry ∈ snapshot.manifest.entries) (hput : put entry = none) :
    part.foldl (lay entryKey put) first (entryKey entry) = first (entryKey entry) := by
  refine foldl_lay_of_none fun e he hkey => ?_
  rw [entryKey_injective (hpart he) hentry hkey]
  exact hput

/-- The directories are there when the other loops begin. -/
theorem directories_made {entry : SnapshotEntry} (hentry : entry ∈ snapshot.manifest.entries)
    (hdirectory : entry.kind = .directory) :
    snapshot.manifest.entries.foldl (lay entryKey directoryPut) (fun _ => none) (entryKey entry)
      = some (.directory 0o700) := by
  rw [foldl_lay_of_mem (nodup_entryKey snapshot.manifest) hentry, directoryPut, hdirectory]
  rfl

section Steps

variable (hvalid : validateManifest lowercase snapshot.manifest = .ok ())
include hvalid

theorem exists_planDirectory {before after : List SnapshotEntry} {entry : SnapshotEntry}
    (hall : snapshot.manifest.entries = before ++ entry :: after) {report : MaterializeReport}
    {tree : Directory} (hmade : DirectoriesMade before report tree.kindAt) :
    ∃ report' w', planDirectory [name] report entry (w.within name tree) = some (report', w') := by
  obtain ⟨-, hkinds⟩ := hmade
  have hnodup := nodup_entryKey snapshot.manifest
  have hentry : entry ∈ snapshot.manifest.entries := by simp [hall]
  unfold planDirectory
  cases hkind : entry.kind with
  | directory =>
    have hnew : tree.kindAt (entryKey entry) = none := by
      rw [hkinds, foldl_lay_of_later (hall ▸ hnodup)]
    have hparent : (entryKey entry).dropLast = []
        ∨ ∃ mode, tree.kindAt (entryKey entry).dropLast = some (.directory mode) := by
      refine or_iff_not_imp_left.mpr fun hne => ?_
      obtain ⟨parent, hmem, hdirectory, hkey, hlt⟩ := exists_parent hvalid hentry hne
      -- the entries ascend, so the directory has been made
      have hbefore : parent ∈ before := by
        rw [hall, List.mem_append] at hmem
        refine hmem.resolve_right fun hlater => ?_
        have hordered := snapshot.manifest.ordered
        rw [hall] at hordered
        have hafter := (List.pairwise_append.mp hordered).2.1
        rcases List.mem_cons.mp hlater with rfl | hlater
        · exact lt_irrefl _ hlt
        · exact lt_irrefl _ (lt_trans hlt ((List.pairwise_cons.mp hafter).1 parent hlater))
      rw [hall, List.map_append] at hnodup
      refine ⟨0o700, ?_⟩
      rw [hkinds, ← hkey, foldl_lay_of_mem (List.nodup_append.mp hnodup).1 hbefore, directoryPut,
        hdirectory]
      rfl
    obtain ⟨w', hadd⟩ := exists_addBeneath w name _ hnew hparent
    exact ⟨_, w', Plan.bind_eq_some_iff.mpr ⟨(), w', hadd, rfl⟩⟩
  | file => exact ⟨_, _, rfl⟩
  | symlink => exact ⟨_, _, rfl⟩

/-- An entry that is no directory can be added once the directories are there. -/
theorem exists_addBeneath_of_made (w : Workspace) (name : Name) (node : Entry)
    {entry : SnapshotEntry} (hentry : entry ∈ snapshot.manifest.entries) {tree : Directory}
    (hnew : tree.kindAt (entryKey entry) = none)
    (hdirectories : ∀ e ∈ snapshot.manifest.entries, e.kind = .directory →
      tree.kindAt (entryKey e) = some (.directory 0o700)) :
    ∃ w', addBeneath [name] entry.path.text node (w.within name tree) = some ((), w') := by
  refine exists_addBeneath w name node hnew (or_iff_not_imp_left.mpr fun hne => ?_)
  obtain ⟨parent, hmem, hdirectory, hkey, -⟩ := exists_parent hvalid hentry hne
  refine ⟨0o700, ?_⟩
  rw [show (splitSlash entry.path.text).dropLast = entryKey parent from hkey.symm]
  exact hdirectories parent hmem hdirectory

theorem exists_planFile (hloadable : ∀ entry ∈ snapshot.manifest.entries,
      Loadable codecs store maximum entry) (hfits : snapshot.totalBytes < 2 ^ 64)
    {first : List Name → Option (Kind UInt32 Leaf)}
    (hfirst : first = snapshot.manifest.entries.foldl (lay entryKey directoryPut) fun _ => none)
    {before after : List SnapshotEntry} {entry : SnapshotEntry}
    (hall : snapshot.manifest.entries = before ++ entry :: after) {report : MaterializeReport}
    {tree : Directory} (hmade : FilesMade codecs store maximum snapshot.manifest.entries first
      before report tree.kindAt) : ∃ report' w',
      planFile codecs store [name] maximum report entry (w.within name tree)
        = some (report', w') := by
  obtain ⟨rfl, hsum, -, hkinds⟩ := hmade
  have hnodup := nodup_entryKey snapshot.manifest
  have hentry : entry ∈ snapshot.manifest.entries := by simp [hall]
  have hpart : before ⊆ snapshot.manifest.entries := by
    intro e he
    simp [hall, he]
  unfold planFile
  cases hkind : entry.kind with
  | directory => exact ⟨_, _, rfl⟩
  | symlink => exact ⟨_, _, rfl⟩
  | file objectId size executable =>
    have hload := hloadable entry hentry
    unfold Loadable at hload
    rw [hkind] at hload
    obtain ⟨hsize, hpayload⟩ := hload
    obtain ⟨bytes, hbytes⟩ := Option.isSome_iff_exists.mp hpayload
    have hnew : tree.kindAt (entryKey entry) = none := by
      rw [hkinds, foldl_lay_of_later (hall ▸ hnodup), hfirst]
      refine foldl_lay_of_put_none (List.Subset.refl _) hentry ?_
      rw [directoryPut, hkind]
      rfl
    have hdirectories : ∀ e ∈ snapshot.manifest.entries, e.kind = .directory →
        tree.kindAt (entryKey e) = some (.directory 0o700) := by
      intro e he hdirectory
      rw [hkinds, foldl_lay_of_put_none hpart he, hfirst, directories_made he hdirectory]
      rw [filePut, hdirectory]
      rfl
    obtain ⟨w', hadd⟩ := exists_addBeneath_of_made hvalid w name
      (.leaf (.file entry.permissions.bits.toUInt32 bytes)) hentry hnew hdirectories
    -- the sum so far is a part of the whole
    have hlogical : entry.logicalSize = size.toNat := by rw [SnapshotEntry.logicalSize, hkind]
    have hroom : (tallied snapshot.manifest.entries before []).logicalBytes.toNat + size.toNat
        < 2 ^ 64 := by
      have htotal : snapshot.totalBytes = (before.map SnapshotEntry.logicalSize).sum
          + (size.toNat + (after.map SnapshotEntry.logicalSize).sum) := by
        rw [Snapshot.totalBytes, hall, List.map_append, List.sum_append, List.map_cons,
          List.sum_cons, hlogical]
      have hbefore : (tallied snapshot.manifest.entries before []).logicalBytes.toNat
          = (before.map SnapshotEntry.logicalSize).sum := UInt64.toNat_ofNat_of_lt' hsum
      omega
    refine ⟨_, w', Plan.bind_eq_some_iff.mpr ⟨(), _, Plan.check_eq_some_iff.mpr ⟨hsize, rfl⟩,
      Plan.bind_eq_some_iff.mpr ⟨bytes, _, Plan.lift_eq_some_iff.mpr ⟨hbytes, rfl⟩,
        Plan.bind_eq_some_iff.mpr ⟨(), w', hadd,
          Plan.bind_eq_some_iff.mpr ⟨(), w', Plan.check_eq_some_iff.mpr ⟨hroom, rfl⟩, rfl⟩⟩⟩⟩⟩

theorem exists_planSymlink {first : List Name → Option (Kind UInt32 Leaf)}
    (hfirst : first = snapshot.manifest.entries.foldl (lay entryKey (filePut codecs store))
      (snapshot.manifest.entries.foldl (lay entryKey directoryPut) fun _ => none))
    {before after : List SnapshotEntry} {entry : SnapshotEntry}
    (hall : snapshot.manifest.entries = before ++ entry :: after) {report : MaterializeReport}
    {tree : Directory} (hmade : SymlinksMade codecs store snapshot.manifest.entries first before
      report tree.kindAt) : ∃ report' w',
      planSymlink [name] report entry (w.within name tree) = some (report', w') := by
  obtain ⟨-, hkinds⟩ := hmade
  have hnodup := nodup_entryKey snapshot.manifest
  have hentry : entry ∈ snapshot.manifest.entries := by simp [hall]
  have hpart : before ⊆ snapshot.manifest.entries := by
    intro e he
    simp [hall, he]
  unfold planSymlink
  cases hkind : entry.kind with
  | directory => exact ⟨_, _, rfl⟩
  | file => exact ⟨_, _, rfl⟩
  | symlink target =>
    have hnew : tree.kindAt (entryKey entry) = none := by
      rw [hkinds, foldl_lay_of_later (hall ▸ hnodup), hfirst,
        foldl_lay_of_put_none (List.Subset.refl _) hentry,
        foldl_lay_of_put_none (List.Subset.refl _) hentry]
      · rw [directoryPut, hkind]
        rfl
      · rw [filePut, hkind]
        rfl
    have hdirectories : ∀ e ∈ snapshot.manifest.entries, e.kind = .directory →
        tree.kindAt (entryKey e) = some (.directory 0o700) := by
      intro e he hdirectory
      rw [hkinds, foldl_lay_of_put_none hpart he, hfirst,
        foldl_lay_of_put_none (List.Subset.refl _) he, directories_made he hdirectory]
      · rw [filePut, hdirectory]
        rfl
      · rw [symlinkPut, hdirectory]
        rfl
    obtain ⟨w', hadd⟩ := exists_addBeneath_of_made hvalid w name (.leaf (.symlink (utf8 target)))
      hentry hnew hdirectories
    exact ⟨_, w', Plan.bind_eq_some_iff.mpr ⟨(), w', hadd, rfl⟩⟩

omit hvalid in
theorem exists_planMode {first : List Name → Option (Kind UInt32 Leaf)}
    (hfirst : first = snapshot.manifest.entries.foldl (lay entryKey (symlinkPut codecs store))
      (snapshot.manifest.entries.foldl (lay entryKey (filePut codecs store))
        (snapshot.manifest.entries.foldl (lay entryKey directoryPut) fun _ => none)))
    {before after : List SnapshotEntry} {entry : SnapshotEntry}
    (hall : snapshot.manifest.entries.reverse = before ++ entry :: after) {u : PUnit}
    {tree : Directory} (hset : ModesSet codecs store first before u tree.kindAt) :
    ∃ u' w', planMode [name] entry (w.within name tree) = some (u', w') := by
  unfold ModesSet at hset
  have hentry : entry ∈ snapshot.manifest.entries := by
    rw [← List.mem_reverse, hall]
    simp
  have hnodup : ((before ++ entry :: after).map entryKey).Nodup := by
    rw [← hall]
    simpa using nodup_entryKey snapshot.manifest
  unfold planMode
  cases hkind : entry.kind with
  | directory =>
    have hthere : tree.kindAt (entryKey entry) = some (.directory 0o700) := by
      rw [hset, foldl_lay_of_later hnodup, hfirst,
        foldl_lay_of_put_none (List.Subset.refl _) hentry,
        foldl_lay_of_put_none (List.Subset.refl _) hentry, directories_made hentry hkind]
      · rw [filePut, hkind]
        rfl
      · rw [symlinkPut, hkind]
        rfl
    obtain ⟨w', hmode⟩ := exists_setModeBeneath w name entry.permissions.bits.toUInt32 hthere
    exact ⟨_, w', hmode⟩
  | file => exact ⟨_, _, rfl⟩
  | symlink => exact ⟨_, _, rfl⟩

/-- **The loops go through.** -/
theorem exists_planTree (w : Workspace) (name : Name)
    (hloadable : ∀ entry ∈ snapshot.manifest.entries, Loadable codecs store maximum entry)
    (hfits : snapshot.totalBytes < 2 ^ 64) :
    ∃ report tree, planTree codecs store snapshot [name] maximum (w.within name .nil)
      = some (report, w.within name tree) := by
  have hnil : snapshot.manifest.entries = [] ++ snapshot.manifest.entries := rfl
  have hstart : DirectoriesMade [] ⟨[], 0, 0, 0, 0, []⟩ (.nil : Directory).kindAt :=
    ⟨rfl, funext Dir.nil_kindAt⟩
  obtain ⟨report₁, tree₁, hdirectories, hmade₁⟩ := exists_foldlM_within w name
    (I := DirectoriesMade) (fun _ _ _ _ _ _ hmade hstep => planDirectory_within hmade hstep)
    (fun _ _ _ _ _ hall hmade => exists_planDirectory hvalid hall hmade) hnil hstart
  obtain ⟨rfl, hkinds₁⟩ := hmade₁
  obtain ⟨report₂, tree₂, hfiles, hmade₂⟩ := exists_foldlM_within w name
    (I := FilesMade codecs store maximum snapshot.manifest.entries tree₁.kindAt)
    (fun _ _ _ _ _ _ hmade hstep => planFile_within hmade hstep)
    (fun _ _ _ _ _ hall hmade => exists_planFile hvalid hloadable hfits hkinds₁ hall hmade) hnil
    ⟨rfl, by simp, by simp, rfl⟩
  obtain ⟨rfl, -, -, hkinds₂⟩ := hmade₂
  rw [hkinds₁] at hkinds₂
  obtain ⟨report₃, tree₃, hsymlinks, hmade₃⟩ := exists_foldlM_within w name
    (I := SymlinksMade codecs store snapshot.manifest.entries tree₂.kindAt)
    (fun _ _ _ _ _ _ hmade hstep => planSymlink_within hmade hstep)
    (fun _ _ _ _ _ hall hmade => exists_planSymlink hvalid hkinds₂ hall hmade) hnil
    ⟨rfl, rfl⟩
  obtain ⟨rfl, hkinds₃⟩ := hmade₃
  rw [hkinds₂] at hkinds₃
  have hunset : ModesSet codecs store tree₃.kindAt [] PUnit.unit tree₃.kindAt := rfl
  obtain ⟨_, tree₄, hmodes, -⟩ := exists_foldlM_within w name
    (I := ModesSet codecs store tree₃.kindAt) (f := fun _ entry => planMode [name] entry)
    (fun _ _ _ _ _ _ hset hstep => planMode_within hset hstep)
    (fun _ _ _ _ _ hall hset => exists_planMode hkinds₃ hall hset)
    (List.nil_append snapshot.manifest.entries.reverse).symm hunset
  refine ⟨_, tree₄, Plan.bind_eq_some_iff.mpr ⟨_, _, hdirectories, Plan.bind_eq_some_iff.mpr
    ⟨_, _, hfiles, Plan.bind_eq_some_iff.mpr ⟨_, _, hsymlinks, Plan.bind_eq_some_iff.mpr
      ⟨PUnit.unit, _, ?_, rfl⟩⟩⟩⟩⟩
  rw [Plan.forM_eq_foldlM]
  exact hmodes

end Steps

end Loops

/-! ### The whole plan -/

section Whole

variable {codecs : Codecs} {store : Files} {lowercase : Char → List Char} {snapshot : Snapshot}
  {destination : Bytes} {options : MaterializeOptions} {w : Workspace}

/-- The names that a materialization may use beside the destination are not taken. -/
def PrivateNamesFree (s : Surroundings) (dest : Name) (root : Directory) : Prop :=
  ∀ label, label = "tmp" ∨ label = "old" → ∀ n, root.get? (privateName s label dest n) = none

/-- What a materialization needs: a name for the destination, a snapshot that is valid and whose
objects are in the store and not too large, and a destination that is empty or may be replaced. -/
structure Restorable (codecs : Codecs) (store : Files) (lowercase : Char → List Char)
    (snapshot : Snapshot) (destination : Bytes) (options : MaterializeOptions) (root : Directory)
    (dest : Name) : Prop where
  named : fileName? destination = some dest
  nul : (0 : UInt8) ∉ dest
  valid : validateSnapshot lowercase codecs snapshot = .ok ()
  loadable : ∀ entry ∈ snapshot.manifest.entries,
    Loadable codecs store options.maxFileSize entry
  fits : snapshot.totalBytes < 2 ^ 64
  room : childStateOf (root.get? dest) ≠ .occupied
    ∨ options.force = true ∧ Fits MAX_REMOVAL_DEPTH (root.get? dest)

theorem singleComponent_of_fileName (hname : fileName? destination = some dest)
    (hnul : (0 : UInt8) ∉ dest) : singleComponent dest = .ok dest := by
  obtain ⟨hpiece, hne, hcurrent, hparent⟩ := of_fileName?_eq_some hname
  exact singleComponent_eq_ok_iff.mpr ⟨hne, hcurrent, hparent,
    fun hslash => (of_mem_splitSlash hpiece hslash).2 rfl, hnul⟩

/-- What is no longer there can be renamed to. -/
theorem renameEntry_of_free {source target : Name} {entries : Directory} {node : Entry}
    (hsource : entries.get? source = some node) (hne : source ≠ target)
    (htarget : entries.get? target = none) :
    renameEntry source target entries = .ok ((entries.erase source).insert target node) := by
  unfold renameEntry
  rw [hsource, htarget]
  dsimp only
  rw [if_neg hne]

theorem exists_moveChild {source target : Name} {u : Workspace} {node : Entry}
    (hsource : singleComponent source = .ok source) (htarget : singleComponent target = .ok target)
    (hget : u.root.get? source = some node) (hne : source ≠ target)
    (hfree : u.root.get? target = none) : ∃ u', moveChild source target u = some ((), u')
      ∧ u'.root = (u.root.erase source).insert target node :=
  ⟨_, moveChild_eq_some_iff.mpr ⟨hsource, htarget, _, renameEntry_of_free hget hne hfree, rfl⟩, rfl⟩

theorem peek_absent {name : Name} {u : Workspace} (hname : singleComponent name = .ok name)
    (hfree : u.root.get? name = none) : peek name u = some (.absent, u) := by
  rw [peek_eq_some_iff, hfree]
  exact ⟨hname, rfl, rfl⟩

/-- The first private name is free. -/
theorem planTemporary_of_free (hdest : singleComponent dest = .ok dest)
    (hfree : w.root.get? (privateName s "tmp" dest w.sequence) = none) (parent : DirectoryRoot)
    (tries : Nat) : planTemporary s parent dest (tries + 1) w
      = some (⟨privateName s "tmp" dest w.sequence,
          ⟨joinPath parent.path (privateName s "tmp" dest w.sequence),
            [privateName s "tmp" dest w.sequence]⟩⟩,
        (⟨w.root, (w.sequence + 1) % 2 ^ 64⟩ : Workspace).within
          (privateName s "tmp" dest w.sequence) .nil) := by
  have hvalid := singleComponent_privateName (s := s) hdest (Or.inl rfl) w.sequence
  refine Plan.bind_eq_some_iff.mpr ⟨privateName s "tmp" dest w.sequence,
    ⟨w.root, (w.sequence + 1) % 2 ^ 64⟩, rfl, Plan.bind_eq_some_iff.mpr
      ⟨.absent, _, peek_absent hvalid hfree, ?_⟩⟩
  rw [if_pos rfl]
  exact Plan.bind_eq_some_iff.mpr ⟨_, _, planChild_eq_some_iff.mpr ⟨hvalid, hfree, rfl, rfl⟩, rfl⟩

theorem planBackup_of_free (hdest : singleComponent dest = .ok dest)
    (hfree : w.root.get? (privateName s "old" dest w.sequence) = none) (tries : Nat) :
    planBackup s dest (tries + 1) w = some (privateName s "old" dest w.sequence,
      ⟨w.root, (w.sequence + 1) % 2 ^ 64⟩) := by
  have hvalid := singleComponent_privateName (s := s) hdest (Or.inr rfl) w.sequence
  refine Plan.bind_eq_some_iff.mpr ⟨privateName s "old" dest w.sequence,
    ⟨w.root, (w.sequence + 1) % 2 ^ 64⟩, rfl, Plan.bind_eq_some_iff.mpr
      ⟨.absent, _, peek_absent hvalid hfree, ?_⟩⟩
  rw [if_pos rfl]
  rfl

/-- A private tree can be put in the place of what may be removed. -/
theorem exists_planInstall (hdest : singleComponent dest = .ok dest)
    (hfree : PrivateNamesFree s dest w.root) {name : Name}
    (hname : ∃ n, name = privateName s "tmp" dest n) {tree : Directory}
    (hfits : Fits MAX_REMOVAL_DEPTH (w.root.get? dest)) :
    ∃ backup u u', planInstall s name dest (w.within name tree) = some (backup, u)
      ∧ planSettle backup u = some ((), u') := by
  obtain ⟨n, rfl⟩ := hname
  have hvalid := singleComponent_privateName (s := s) hdest (Or.inl rfl) n
  have hne := privateName_ne (s := s) "tmp" dest n
  have htree : (w.within (privateName s "tmp" dest n) tree).root.get? (privateName s "tmp" dest n)
      = some (.directory 0o700 tree) := Dir.get?_insert_self _ _ _
  have hbeside : ∀ m ≠ privateName s "tmp" dest n,
      (w.within (privateName s "tmp" dest n) tree).root.get? m = w.root.get? m :=
    fun m hm => Dir.get?_insert_of_ne _ _ hm
  rcases hget : w.root.get? dest with _ | node
  · have hthere := (hbeside dest hne.symm).trans hget
    obtain ⟨u, hmove, -⟩ := exists_moveChild hvalid hdest htree hne hthere
    refine ⟨none, u, u, Plan.bind_eq_some_iff.mpr ⟨.absent, _, peek_absent hdest hthere, ?_⟩, rfl⟩
    rw [if_pos rfl]
    exact Plan.bind_eq_some_iff.mpr ⟨(), u, hmove, rfl⟩
  · have hthere := (hbeside dest hne.symm).trans hget
    have hold := singleComponent_privateName (s := s) hdest (Or.inr rfl) w.sequence
    have hcd := privateName_ne (s := s) "old" dest w.sequence
    have hnc := privateName_tmp_ne_old (s := s) dest n w.sequence
    have hunused := (hbeside _ hnc.symm).trans (hfree "old" (Or.inr rfl) w.sequence)
    have hstate : childStateOf ((w.within (privateName s "tmp" dest n) tree).root.get? dest)
        ≠ .absent := by
      rw [Ne, childStateOf_eq_absent_iff, hthere]
      simp
    have hbackup := planBackup_of_free (w := w.within (privateName s "tmp" dest n) tree) hdest
      hunused 63
    -- the destination is moved aside, and the tree to the free name
    obtain ⟨u, haside, hu⟩ := exists_moveChild (u := ⟨_, (w.sequence + 1) % 2 ^ 64⟩) hdest hold
      hthere hcd.symm hunused
    have hsource : u.root.get? (privateName s "tmp" dest n) = some (.directory 0o700 tree) := by
      rw [hu, Dir.get?_insert_of_ne _ _ hnc, Dir.get?_erase_of_ne _ hne, htree]
    have htarget : u.root.get? dest = none := by
      rw [hu, Dir.get?_insert_of_ne _ _ hcd.symm, Dir.get?_erase, if_pos rfl]
    obtain ⟨u', hinto, hu'⟩ := exists_moveChild hvalid hdest hsource hne htarget
    have hremovable :
        Fits MAX_REMOVAL_DEPTH (u'.root.get? (privateName s "old" dest w.sequence)) := by
      rw [hu', Dir.get?_insert_of_ne _ _ hcd, Dir.get?_erase_of_ne _ hnc.symm, hu,
        Dir.get?_insert_self, ← hget]
      exact hfits
    refine ⟨some (privateName s "old" dest w.sequence), u', _, Plan.bind_eq_some_iff.mpr
      ⟨_, _, peek_eq_some_iff.mpr ⟨hdest, rfl, rfl⟩, ?_⟩,
        dropChild_eq_some_iff.mpr ⟨hold, hremovable, rfl⟩⟩
    rw [if_neg hstate]
    exact Plan.bind_eq_some_iff.mpr ⟨_, _, hbackup, Plan.bind_eq_some_iff.mpr
      ⟨(), u, haside, Plan.bind_eq_some_iff.mpr ⟨(), u', hinto, rfl⟩⟩⟩

/-- The second look finds what the first one found. -/
theorem planRecheck_of_room {u : Workspace} {found : Option Entry} {force : Bool}
    (hdest : singleComponent dest = .ok dest) (hget : u.root.get? dest = found)
    (hroom : childStateOf found ≠ .occupied ∨ force = true) :
    planRecheck dest force (childStateOf found) u = some ((), u) := by
  subst hget
  refine planRecheck_eq_some_iff.mpr ⟨?_, rfl⟩
  exact hroom.symm.imp_right fun hempty => ⟨hdest, hempty, id⟩

/-- The plan is possible exactly under the conditions. -/
theorem exists_planMaterialize_iff
    (hfree : ∀ dest, fileName? destination = some dest → PrivateNamesFree s dest w.root) :
    (∃ report w', planMaterialize s codecs store lowercase snapshot destination options w
        = some (report, w'))
      ↔ ∃ dest, Restorable codecs store lowercase snapshot destination options w.root dest := by
  constructor
  · rintro ⟨report, w', h⟩
    obtain ⟨dest, tree, hname, hinstalled, -, hloadable, hfits, -⟩ := planMaterialize_makes h
    obtain ⟨report', backup, u, hinstallTree, -, -⟩ := planMaterialize_eq_some_iff.mp h
    obtain ⟨hvalid, dest', -, -, -, hname', hdest, hroom, -⟩ :=
      planInstallTree_eq_some_iff.mp hinstallTree
    obtain rfl := Option.some.inj (hname.symm.trans hname')
    refine ⟨dest, hname, (singleComponent_eq_ok_iff.mp hdest).2.2.2.2, hvalid, hloadable, hfits, ?_⟩
    exact hroom.imp_right fun hforce => ⟨hforce, hinstalled.removable⟩
  · rintro ⟨dest, h⟩
    have hdest := singleComponent_of_fileName h.named h.nul
    have hnames := hfree dest h.named
    have hmanifest : validateManifest lowercase snapshot.manifest = .ok () := by
      obtain ⟨_, hmanifest, -⟩ := Except.bind_eq_ok_iff.mp h.valid
      exact hmanifest
    -- what may be replaced can be removed
    have hremovable : Fits MAX_REMOVAL_DEPTH (w.root.get? dest) := by
      rcases h.room with hfree' | ⟨-, hfits⟩
      · unfold childStateOf at hfree'
        rcases hget : w.root.get? dest with _ | node
        · exact fits_none _
        · rw [hget] at hfree'
          by_cases hempty : node.isEmptyDirectory = true
          · obtain ⟨mode, rfl⟩ := isEmptyDirectory_iff.mp hempty
            intro n hn
            exact absurd hn (by simp [Dir.names, Dir.allNames])
          · simp [hempty] at hfree'
      · exact hfits
    have hpreflight : planPreflight codecs store snapshot options.maxFileSize w = some ((), w) :=
      planPreflight_eq_some_iff.mpr ⟨exists_preflight h.loadable (by simp), rfl⟩
    have htemporary := planTemporary_of_free hdest (hnames "tmp" (Or.inl rfl) w.sequence)
      ⟨parentOf destination, []⟩ 63
    obtain ⟨report, tree, htree⟩ := exists_planTree hmanifest
      (⟨w.root, (w.sequence + 1) % 2 ^ 64⟩ : Workspace) (privateName s "tmp" dest w.sequence)
      h.loadable h.fits
    have hbeside : ((⟨w.root, (w.sequence + 1) % 2 ^ 64⟩ : Workspace).within
        (privateName s "tmp" dest w.sequence) tree).root.get? dest = w.root.get? dest :=
      Dir.get?_insert_of_ne _ _ (privateName_ne "tmp" dest w.sequence).symm
    have hrecheck := planRecheck_of_room hdest hbeside (h.room.imp_right (·.1))
    obtain ⟨backup, u, u', hinstall, hsettle⟩ := exists_planInstall (s := s)
      (w := ⟨w.root, (w.sequence + 1) % 2 ^ 64⟩) hdest hnames ⟨w.sequence, rfl⟩ hremovable
    have hinstallTree := planInstallTree_eq_some_iff.mpr ⟨h.valid, dest, _, _, _, h.named, hdest,
      h.room.imp_right (·.1), hpreflight, htemporary, htree, hrecheck, hinstall⟩
    exact ⟨_, u', planMaterialize_eq_some_iff.mpr ⟨report, backup, u, hinstallTree, hsettle, rfl⟩⟩

end Whole

end Restore

/-- **When a materialization succeeds.**  Where the device answers every call, nobody else acts and
the private names are free, a materialization succeeds exactly if the destination has a name that is
empty or may be replaced, the snapshot is valid, and its objects are in the store, within the limit
and together not more than 2^64 bytes. -/
theorem materialize_succeeds_iff (s : Surroundings) (hreliable : s.Reliable) (codecs : Codecs)
    (store : Files) (lowercase : Char → List Char) (snapshot : Snapshot) (destination : Bytes)
    (options : Restore.MaterializeOptions) (fs : FileSystem)
    (hfree : ∀ dest, fileName? destination = some dest →
      Restore.PrivateNamesFree s dest fs.root) :
    (∃ report fs', exec (Restore.materialize s.alone codecs store lowercase snapshot destination
        options) fs = (.ok report, fs'))
      ↔ ∃ dest, Restore.Restorable codecs store lowercase snapshot destination options fs.root
        dest := by
  have hplan := Restore.carriesOut_materialize s codecs store lowercase snapshot destination options
  refine Iff.trans ?_ (Restore.exists_planMaterialize_iff (s := s) (w := fs.workspace) hfree)
  constructor
  · rintro ⟨report, fs', h⟩
    exact ⟨report, fs'.workspace, hplan.sound h⟩
  · rintro ⟨report, w', h⟩
    obtain ⟨fs', hexec, -⟩ := hplan.complete hreliable h
    exact ⟨report, fs', hexec⟩

namespace Sample

/-- No private name is taken there. -/
theorem vacant_private (dest : Name) : Restore.PrivateNamesFree dependable dest vacant.root := by
  rintro label - n
  have hlong := Restore.length_privateName dependable label dest n
  generalize Restore.privateName dependable label dest n = name at hlong
  have hother : ∀ short : Name, short.length < 8 → short ≠ name := by
    rintro short hshort rfl
    omega
  rw [vacant, Dir.get?, if_neg (hother _ (by decide)), Dir.get?,
    if_neg (hother _ (by decide)), Dir.get?_nil]

end Sample

theorem materialize_nested_iff : (∃ report fs', Sample.nestedRestore = (.ok report, fs'))
    ∧ ∃ dest, Restore.Restorable Scan.Sample.codecs Sample.nestedStore (fun c => [c.toLower])
      Sample.nested (utf8 "/work/out") ⟨false, 100⟩ Sample.vacant.root dest := by
  obtain ⟨report, fs', hexec⟩ := Sample.exists_of_isOk Sample.nestedRestore_succeeds
  exact ⟨⟨report, fs', hexec⟩, (materialize_succeeds_iff Sample.dependable (fun _ => rfl)
    Scan.Sample.codecs Sample.nestedStore (fun c => [c.toLower]) Sample.nested (utf8 "/work/out")
    ⟨false, 100⟩ Sample.vacant fun dest _ => Sample.vacant_private dest).mp ⟨report, fs', hexec⟩⟩

end Rewind

/-
Comparison of two runs.

* `fileChange`, `relationship` — the evidence of `compare_runs`;
* **`comparison_symmetric`** — the difference of two snapshots always makes a report, each
  modification has true evidence, and the opposite comparison makes the mirrored report;
* **`relationship_nearest`** — the relationship of two runs is their nearest common ancestor.
-/
import Rewind.Domain.Comparison
import Rewind.Lib.Forest
import Rewind.Snapshot.Diff

namespace Rewind

namespace Compare

/-! ### Evidence of changes -/

/-- `entry_type`. -/
def entryType : SnapshotEntryKind → SnapshotEntryType
  | .directory => .directory
  | .file _ _ _ => .file
  | .symlink _ => .symlink

/-- `executable`. -/
def executable : SnapshotEntryKind → Option Bool
  | .file _ _ executable => some executable
  | .directory | .symlink _ => none

/-- `content_identity`. -/
def contentIdentity : SnapshotEntryKind → String
  | .directory => "directory"
  | .file objectId size _ => "file:" ++ toString objectId ++ ":" ++ toString size
  | .symlink target => "symlink:" ++ target

/-- The two values, where they differ. -/
def valueChange {α : Type} [DecidableEq α] (left right : α) : Option (ValueChange α) :=
  if left ≠ right then some ⟨left, right⟩ else none

/-- The transition of the executable flag of a file that stays one. -/
def executableChange (before after : SnapshotEntryKind) : Option (ValueChange Bool) :=
  match executable before, executable after with
  | some left, some right => valueChange left right
  | _, _ => none

/-- `modified`. -/
def modified (before after : SnapshotEntry) : FileChange where
  path := before.path
  change := .modified (contentIdentity before.kind ≠ contentIdentity after.kind)
    (valueChange (entryType before.kind) (entryType after.kind))
    (executableChange before.kind after.kind)
    (valueChange before.permissions after.permissions)

/-- `file_change`. -/
def fileChange : EntryChange → FileChange
  | .added entry => ⟨entry.path, .added (entryType entry.kind) (executable entry.kind)⟩
  | .removed entry => ⟨entry.path, .deleted (entryType entry.kind) (executable entry.kind)⟩
  | .modified before after => modified before after

/-- Whether two entries have the same bytes: of a file its object, of a link its target. -/
def SameContent : SnapshotEntryKind → SnapshotEntryKind → Prop
  | .directory, .directory => True
  | .file objectId size _, .file objectId' size' _ => objectId = objectId' ∧ size = size'
  | .symlink target, .symlink target' => target = target'
  | _, _ => False

/-! ### What the text of a content identity says -/

theorem asciiString_injective {bytes bytes' : Bytes}
    (h : asciiString bytes = asciiString bytes') : bytes = bytes' := by
  have hchars : bytes.map (fun b => Char.ofNat b.toNat)
      = bytes'.map fun b => Char.ofNat b.toNat := by
    simpa [asciiString] using congrArg String.toList h
  refine List.map_injective_iff.mpr (fun b b' hb => ?_) hchars
  have hvalid : ∀ b : UInt8, (Char.ofNat b.toNat).toNat = b.toNat := by
    intro b
    have hlt := b.toNat_lt
    have hchar : b.toNat.isValidChar := Or.inl (by omega)
    have hofNat : Char.ofNat b.toNat = Char.ofNatAux b.toNat hchar := dif_pos hchar
    rw [hofNat]
    rfl
  have htoNat := congrArg Char.toNat hb
  rw [hvalid, hvalid] at htoNat
  exact UInt8.toNat_inj.mp htoNat

theorem length_toString_objectId (id : ObjectId) : (toString id).toList.length = 64 := by
  show (asciiString id.digest.hex).toList.length = 64
  simp [asciiString, id.digest.length_hex]

theorem toString_objectId_injective {id id' : ObjectId} (h : toString id = toString id') :
    id = id' := by
  have hbytes : id.digest.bytes = id'.digest.bytes := toHex_injective (asciiString_injective h)
  obtain ⟨⟨bytes, hlength⟩⟩ := id
  obtain ⟨⟨bytes', hlength'⟩⟩ := id'
  obtain rfl : bytes = bytes' := hbytes
  rfl

theorem toString_uint64_injective {n n' : UInt64} (h : toString n = toString n') : n = n' := by
  have hdigits : Nat.toDigits 10 n.toNat = Nat.toDigits 10 n'.toNat := by
    rw [← Nat.toList_repr, ← Nat.toList_repr]
    exact congrArg String.toList h
  refine UInt64.toNat_inj.mp ?_
  rw [← Nat.ofDigitChars_ten_toDigits (n := n.toNat), hdigits, Nat.ofDigitChars_ten_toDigits]

/-- Content identities are equal between equal contents only. -/
theorem contentIdentity_eq_iff (kind kind' : SnapshotEntryKind) :
    contentIdentity kind = contentIdentity kind' ↔ SameContent kind kind' := by
  constructor
  · intro h
    have hlist := congrArg String.toList h
    cases kind with
    | directory =>
      cases kind' with
      | directory => trivial
      | file objectId size executable => exact absurd hlist (by simp [contentIdentity])
      | symlink target => exact absurd hlist (by simp [contentIdentity])
    | file objectId size executable =>
      cases kind' with
      | directory => exact absurd hlist (by simp [contentIdentity])
      | symlink target => exact absurd hlist (by simp [contentIdentity])
      | file objectId' size' executable' =>
        simp only [contentIdentity, String.toList_append, List.append_assoc,
          List.append_cancel_left_eq] at hlist
        obtain ⟨hid, hsize⟩ := List.append_inj hlist
          (by rw [length_toString_objectId, length_toString_objectId])
        rw [List.append_cancel_left_eq] at hsize
        exact ⟨toString_objectId_injective (String.toList_inj.mp hid),
          toString_uint64_injective (String.toList_inj.mp hsize)⟩
    | symlink target =>
      cases kind' with
      | directory => exact absurd hlist (by simp [contentIdentity])
      | file objectId size executable => exact absurd hlist (by simp [contentIdentity])
      | symlink target' =>
        simp only [contentIdentity, String.toList_append, List.append_cancel_left_eq] at hlist
        exact String.toList_inj.mp hlist
  · intro h
    cases kind <;> cases kind' <;> try exact absurd h id
    · rfl
    · obtain ⟨rfl, rfl⟩ := h
      rfl
    · obtain rfl := h
      rfl

/-! ### Reports of two snapshots -/

/-- What a value change says of the two sides. -/
structure Tells {α : Type} (left right : Option α) (value : ValueChange α) :
    Prop where
  left_eq : left = some value.left
  right_eq : right = some value.right
  differ : value.left ≠ value.right

/-- What a modification says of the two entries: each piece of its evidence is true, and it has
one at least. -/
structure Evidenced (before after : SnapshotEntry) (contentChanged : Bool)
    (entryTypes : Option (ValueChange SnapshotEntryType)) (executables : Option (ValueChange Bool))
    (permissions : Option (ValueChange UnixPermissions)) : Prop where
  content : contentChanged = true ↔ ¬ SameContent before.kind after.kind
  types : ∀ value ∈ entryTypes, Tells (some (entryType before.kind)) (some (entryType after.kind))
    value
  flags : ∀ value ∈ executables, Tells (executable before.kind) (executable after.kind) value
  modes : ∀ value ∈ permissions, Tells (some before.permissions) (some after.permissions) value
  nonempty : contentChanged = true ∨ entryTypes.isSome = true ∨ executables.isSome = true
    ∨ permissions.isSome = true

section Values

variable {α : Type} [DecidableEq α] {left right : α}

theorem valueChange_of_mem {value : ValueChange α} (h : value ∈ valueChange left right) :
    Tells (some left) (some right) value := by
  unfold valueChange at h
  by_cases hne : left ≠ right
  · rw [if_pos hne] at h
    obtain rfl := Option.some.inj h
    exact ⟨rfl, rfl, hne⟩
  · rw [if_neg hne] at h
    exact absurd h (by simp)

theorem valueChange_isSome (hne : left ≠ right) : (valueChange left right).isSome = true := by
  rw [valueChange, if_pos hne]
  rfl

theorem valueChange_mirror (left right : α) :
    (valueChange left right).map (·.mirror) = valueChange right left := by
  unfold valueChange
  by_cases heq : left = right
  · rw [if_neg (not_not.mpr heq), if_neg (not_not.mpr heq.symm)]
    rfl
  · rw [if_pos heq, if_pos (Ne.symm heq)]
    rfl

end Values

theorem executableChange_mirror (before after : SnapshotEntryKind) :
    (executableChange before after).map (·.mirror) = executableChange after before := by
  unfold executableChange
  cases executable before with
  | none => cases executable after <;> rfl
  | some left =>
    cases executable after with
    | none => rfl
    | some right => exact valueChange_mirror left right

/-- Entries of one type and one content differ in the executable flag at most. -/
theorem kind_eq {kind kind' : SnapshotEntryKind} (hcontent : SameContent kind kind')
    (hflag : executable kind = executable kind') : kind = kind' := by
  cases kind <;> cases kind' <;> try exact absurd hcontent id
  · rfl
  · obtain ⟨rfl, rfl⟩ := hcontent
    rw [Option.some.inj hflag]
  · rw [show _ = _ from hcontent]

theorem evidenced_modified {before after : SnapshotEntry} (hpath : before.path = after.path)
    (hne : before ≠ after) :
    Evidenced before after (contentIdentity before.kind ≠ contentIdentity after.kind)
      (valueChange (entryType before.kind) (entryType after.kind))
      (executableChange before.kind after.kind)
      (valueChange before.permissions after.permissions) where
  content := by simp [contentIdentity_eq_iff]
  types value hvalue := valueChange_of_mem hvalue
  flags value hvalue := by
    unfold executableChange at hvalue
    rcases hbefore : executable before.kind with _ | left <;>
      rcases hafter : executable after.kind with _ | right <;> rw [hbefore, hafter] at hvalue
    · exact absurd hvalue (by simp)
    · exact absurd hvalue (by simp)
    · exact absurd hvalue (by simp)
    · exact valueChange_of_mem hvalue
  modes value hvalue := valueChange_of_mem hvalue
  nonempty := by
    by_contra hnone
    simp only [not_or] at hnone
    obtain ⟨hcontent, -, hflags, hmodes⟩ := hnone
    have hcontent : SameContent before.kind after.kind := by
      simpa [contentIdentity_eq_iff] using hcontent
    have hmodes : before.permissions = after.permissions := by
      by_contra hdiffer
      exact hmodes (valueChange_isSome hdiffer)
    -- Of two files the flags are compared, and other entries of one content have none.
    have hflags : executable before.kind = executable after.kind := by
      by_contra hdiffer
      cases hb : before.kind <;> cases ha : after.kind <;>
        rw [hb, ha] at hcontent hdiffer hflags <;>
        first
        | exact absurd hcontent id
        | exact absurd rfl hdiffer
        | exact hflags (valueChange_isSome fun h => hdiffer (congrArg some h))
    have hkind := kind_eq hcontent hflags
    cases before
    cases after
    simp_all

/-- Each change of a difference passes its own check. -/
theorem validate_fileChange {left right : List SnapshotEntry} {change : EntryChange}
    (h : change.Between left right) : (fileChange change).change.validate = .ok () := by
  cases change with
  | added entry =>
    show (FileChangeKind.added (entryType entry.kind) (executable entry.kind)).validate = _
    cases entry.kind <;> rfl
  | removed entry =>
    show (FileChangeKind.deleted (entryType entry.kind) (executable entry.kind)).validate = _
    cases entry.kind <;> rfl
  | modified before after =>
    obtain ⟨-, -, hpath, hne⟩ := h
    have hnonempty := (evidenced_modified hpath hne).nonempty
    show (FileChangeKind.modified _ _ (executableChange before.kind after.kind) _).validate = _
    unfold FileChangeKind.validate
    split
    · rename_i heq
      simp only [FileChangeKind.modified.injEq] at heq
      obtain ⟨hcontent, htypes, hflags, hmodes⟩ := heq
      rw [hcontent, htypes, hflags, hmodes] at hnonempty
      exact absurd hnonempty (by simp)
    all_goals first | rfl | (rename_i heq; exact absurd heq (by simp))

theorem fileChange_path (change : EntryChange) : (fileChange change).path = change.path := by
  cases change <;> rfl

theorem fileChange_reverse {left right : List SnapshotEntry} {change : EntryChange}
    (h : change.Between left right) : fileChange change.reverse = (fileChange change).mirror := by
  cases change with
  | added entry => rfl
  | removed entry => rfl
  | modified before after =>
    have hcontent : (decide (contentIdentity after.kind ≠ contentIdentity before.kind))
        = decide (contentIdentity before.kind ≠ contentIdentity after.kind) := by
      simp only [ne_comm]
    show FileChange.mk after.path (.modified _ _ (executableChange after.kind before.kind) _)
      = ⟨before.path, .modified _ _ ((executableChange before.kind after.kind).map _) _⟩
    rw [executableChange_mirror, valueChange_mirror, valueChange_mirror, hcontent, h.2.2.1]

theorem canonicalChanges_diff (before after : Snapshot) :
    CanonicalChanges ((diffSnapshots before after).changes.map fileChange) where
  valid := List.forall_mem_map.mpr fun _ hchange =>
    validate_fileChange (between_of_mem_diffEntries hchange)
  ascending := by
    refine List.pairwise_map.mpr ?_
    simp only [fileChange_path]
    exact pairwise_diffEntries before.manifest.ordered after.manifest.ordered

theorem fileChanges_swap (before after : Snapshot) :
    (diffSnapshots after before).changes.map fileChange
      = ((diffSnapshots before after).changes.map fileChange).map (·.mirror) := by
  show (diffEntries _ _).map fileChange = _
  rw [diffEntries_swap, List.map_map, List.map_map]
  exact List.map_congr_left fun change hchange =>
    fileChange_reverse (between_of_mem_diffEntries hchange)

/-- The difference of two snapshots always makes a report, with exactly its changes; every
modification in it tells of the two entries at its path something that is true; and the snapshots
the other way round make the report with every change mirrored, which with the two runs exchanged
as well is the mirrored report. -/
theorem comparison_symmetric (left right : RunComparisonSummary) (relationship : RunRelationship)
    (startingSnapshots finalSnapshots : SnapshotComparison) (before after : Snapshot) :
    ∃ report opposite : ComparisonResult,
      ComparisonResult.new left right relationship startingSnapshots finalSnapshots
          ((diffSnapshots before after).changes.map fileChange) none = .ok report
      ∧ report.fileChanges = (diffSnapshots before after).changes.map fileChange
      ∧ (∀ path contentChanged entryTypes executables permissions,
        ⟨path, .modified contentChanged entryTypes executables permissions⟩ ∈ report.fileChanges →
        ∃ entry ∈ before.manifest.entries, ∃ entry' ∈ after.manifest.entries,
          entry.path = path ∧ entry'.path = path
            ∧ Evidenced entry entry' contentChanged entryTypes executables permissions)
      ∧ ComparisonResult.new left right relationship startingSnapshots finalSnapshots
          ((diffSnapshots after before).changes.map fileChange) none = .ok opposite
      ∧ opposite.fileChanges = report.fileChanges.map (·.mirror)
      ∧ ComparisonResult.new right left relationship.mirror startingSnapshots.mirror
          finalSnapshots.mirror ((diffSnapshots after before).changes.map fileChange) none
        = .ok report.mirror := by
  have hcanonical := canonicalChanges_diff before after
  have hopposite := canonicalChanges_diff after before
  refine ⟨_, _, ComparisonResult.new_eq_ok hcanonical, rfl, ?_,
    ComparisonResult.new_eq_ok hopposite, fileChanges_swap before after, ?_⟩
  · intro path contentChanged entryTypes executables permissions hmem
    obtain ⟨change, hchange, heq⟩ := List.mem_map.mp hmem
    have hbetween := between_of_mem_diffEntries hchange
    cases change with
    | added entry => exact absurd (congrArg FileChange.change heq) (by simp [fileChange])
    | removed entry => exact absurd (congrArg FileChange.change heq) (by simp [fileChange])
    | modified entry entry' =>
      obtain ⟨hentry, hentry', hpath, hne⟩ := hbetween
      have hevidence := evidenced_modified hpath hne
      have hkind : FileChangeKind.modified _ _ (executableChange entry.kind entry'.kind) _ = _ :=
        congrArg FileChange.change heq
      obtain rfl : entry.path = path := congrArg FileChange.path heq
      simp only [FileChangeKind.modified.injEq] at hkind
      obtain ⟨rfl, rfl, rfl, rfl⟩ := hkind
      exact ⟨entry, hentry, entry', hentry', rfl, hpath.symm, hevidence⟩
  · rw [ComparisonResult.new_eq_ok hopposite]
    simp only [ComparisonResult.mirror, fileChanges_swap before after, Option.map_none]

/-! ### The relationship of two runs -/

/-- The map `parents` of `relationship`: the last run with an identifier gives its value. -/
def parents (runs : List Run) (id : RunId) : Option (Option RunId) :=
  (runs.reverse.find? (·.id = id)).map fun run => run.parent.map (·.runId)

/-- `parents.get(&id).copied().flatten()`. -/
def parentIn (runs : List Run) (id : RunId) : Option RunId := (parents runs id).join

/-- `ancestors`, for `fuel` turns of its loop. -/
def ancestors (fuel : Nat) (run : RunId) (runs : List Run) : Option (List RunId) :=
  Forest.trail (parentIn runs) fuel [] (some run)

/-- `relationship`, for `fuel` turns of the two walks. -/
def relationship (fuel : Nat) (left right : Run) (runs : List Run) : Option RunRelationship :=
  if left.id = right.id then
    some .sameRun
  else match right.parent.filter (·.runId = left.id) with
  | some parent => some (.leftParentOfRight parent.checkpointId)
  | none =>
    match left.parent.filter (·.runId = right.id) with
    | some parent => some (.rightParentOfLeft parent.checkpointId)
    | none => do
      let leftAncestors ← ancestors fuel left.id runs
      let rightAncestors ← ancestors fuel right.id runs
      match leftAncestors.find? (· ∈ rightAncestors) with
      | none => some .unrelated
      | some runId => some (.commonAncestor runId)

/-- `b` is the parent of the run `a`. -/
def ParentIn (runs : List Run) (a b : RunId) : Prop :=
  ∃ run ∈ runs, run.id = a ∧ ∃ parent, run.parent = some parent ∧ parent.runId = b

/-- `b` is the run `a` or an ancestor of it. -/
def AncestorIn (runs : List Run) : RunId → RunId → Prop := Relation.ReflTransGen (ParentIn runs)

/-- The runs are a forest: each has one record, and none is its own ancestor.  The parents may be
missing. -/
structure RunForest (runs : List Run) : Prop where
  unique : ∀ run ∈ runs, ∀ run' ∈ runs, run.id = run'.id → run = run'
  acyclic : ∀ id, ¬ Relation.TransGen (ParentIn runs) id id

/-- The nearest of the common ancestors: every other one is an ancestor of it. -/
structure NearestCommon (runs : List Run) (left right nearest : RunId) : Prop where
  ofLeft : AncestorIn runs left nearest
  ofRight : AncestorIn runs right nearest
  least : ∀ id, AncestorIn runs left id → AncestorIn runs right id → AncestorIn runs nearest id

variable {runs : List Run} {left right : Run}

theorem mem_of_parentIn {a b : RunId} (h : parentIn runs a = some b) : ParentIn runs a b := by
  obtain ⟨run, hfind, hparent⟩ := Option.map_eq_some_iff.mp (Option.join_eq_some_iff.mp h)
  obtain ⟨parent, hparent, hid⟩ := Option.map_eq_some_iff.mp hparent
  exact ⟨run, List.mem_reverse.mp (List.mem_of_find?_eq_some hfind),
    by simpa using List.find?_some hfind, parent, hparent, hid⟩

theorem parentIn_eq_some_iff (h : RunForest runs) {a b : RunId} :
    parentIn runs a = some b ↔ ParentIn runs a b := by
  refine ⟨mem_of_parentIn, ?_⟩
  rintro ⟨run, hrun, rfl, parent, hparent, rfl⟩
  obtain ⟨found, hfound⟩ : ∃ found, runs.reverse.find? (·.id = run.id) = some found := by
    refine Option.isSome_iff_exists.mp (List.find?_isSome.mpr ⟨run, ?_, decide_eq_true rfl⟩)
    exact List.mem_reverse.mpr hrun
  -- The record found is the one there is.
  obtain rfl : found = run :=
    h.unique found (List.mem_reverse.mp (List.mem_of_find?_eq_some hfound)) run hrun
      (by simpa using List.find?_some hfound)
  rw [parentIn, parents, hfound, Option.map_some, hparent]
  rfl

theorem above_parentIn (h : RunForest runs) :
    Relation.ReflTransGen (Forest.Above (parentIn runs)) = AncestorIn runs := by
  have habove : Forest.Above (parentIn runs) = ParentIn runs := by
    funext a b
    exact propext (parentIn_eq_some_iff h)
  rw [habove, AncestorIn]

/-- The walk ends on all data, and with the same ancestors for any fuel that is enough. -/
theorem ancestors_ends (runs : List Run) (run : RunId) :
    ∃ walk, ∀ fuel, runs.length + 2 ≤ fuel → ancestors fuel run runs = some walk := by
  have hnodes : ∀ a b, parentIn runs a = some b → a ∈ runs.map (·.id) := by
    intro a b hab
    obtain ⟨found, hfound, rfl, -⟩ := mem_of_parentIn hab
    exact List.mem_map_of_mem hfound
  obtain ⟨walk, hwalk⟩ : ∃ walk, Forest.trail (parentIn runs) (runs.length + 2) [] (some run)
      = some walk :=
    Forest.trail_ends hnodes List.nodup_nil (fun _ => List.nil_subset _) (by simp) (by simp)
  exact ⟨walk, fun fuel hfuel => Forest.trail_mono hwalk hfuel⟩

/-- The walk of a forest finds the run and its ancestors. -/
theorem mem_ancestors_iff (h : RunForest runs) {fuel : Nat} {run : RunId} {walk : List RunId}
    (hwalk : ancestors fuel run runs = some walk) (id : RunId) :
    id ∈ walk ↔ AncestorIn runs run id := by
  rw [(Forest.trail_ok (Forest.trailing_start _ _) hwalk).2 id, above_parentIn h]

theorem NearestCommon.unique (h : RunForest runs) {a b nearest nearest' : RunId}
    (hnearest : NearestCommon runs a b nearest) (hnearest' : NearestCommon runs a b nearest') :
    nearest = nearest' := by
  have hab := hnearest.least nearest' hnearest'.ofLeft hnearest'.ofRight
  have hba := hnearest'.least nearest hnearest.ofLeft hnearest.ofRight
  rw [← above_parentIn h] at hab hba
  refine Forest.eq_of_reflTransGen (fun id hcycle => h.acyclic id ?_) hab hba
  exact hcycle.lift (fun a => a) fun _ _ hup => mem_of_parentIn hup

theorem NearestCommon.symm {a b nearest : RunId} (h : NearestCommon runs a b nearest) :
    NearestCommon runs b a nearest where
  ofLeft := h.ofRight
  ofRight := h.ofLeft
  least id hleft hright := h.least id hright hleft

/-- The first ancestor that two walks of a forest share is the nearest one. -/
theorem nearest_of_walks (h : RunForest runs) {fuel : Nat} {a b : RunId} {walk walk' : List RunId}
    (hwalk : ancestors fuel a runs = some walk) (hwalk' : ancestors fuel b runs = some walk')
    (nearest : RunId) :
    walk.find? (· ∈ walk') = some nearest ↔ NearestCommon runs a b nearest := by
  have hmem := mem_ancestors_iff h hwalk
  have hmem' := mem_ancestors_iff h hwalk'
  have hfound : ∀ id, walk.find? (· ∈ walk') = some id → NearestCommon runs a b id := by
    intro id hid
    obtain ⟨hleft, hright, hleast⟩ := Forest.nearest_of_find?
      (Forest.trail_ok (Forest.trailing_start _ _) hwalk).1 hid
    rw [above_parentIn h] at hleast
    exact ⟨(hmem id).mp hleft, (hmem' id).mp hright, fun other hother hother' =>
      hleast other ((hmem other).mpr hother) ((hmem' other).mpr hother')⟩
  refine ⟨hfound nearest, fun hnearest => ?_⟩
  rcases hfind : walk.find? (· ∈ walk') with _ | id
  · have hnone := List.find?_eq_none.mp hfind nearest ((hmem nearest).mpr hnearest.ofLeft)
    exact absurd (decide_eq_true ((hmem' nearest).mpr hnearest.ofRight)) hnone
  · rw [NearestCommon.unique h (hfound id hfind) hnearest]

theorem find?_walks_eq_none_iff (h : RunForest runs) {fuel : Nat} {a b : RunId}
    {walk walk' : List RunId} (hwalk : ancestors fuel a runs = some walk)
    (hwalk' : ancestors fuel b runs = some walk') :
    walk.find? (· ∈ walk') = none ↔ ¬ ∃ id, AncestorIn runs a id ∧ AncestorIn runs b id := by
  rw [List.find?_eq_none]
  constructor
  · rintro hnone ⟨id, hleft, hright⟩
    exact hnone id ((mem_ancestors_iff h hwalk id).mpr hleft)
      (decide_eq_true ((mem_ancestors_iff h hwalk' id).mpr hright))
  · intro hnone id hid hid'
    exact hnone ⟨id, (mem_ancestors_iff h hwalk id).mp hid,
      (mem_ancestors_iff h hwalk' id).mp (of_decide_eq_true hid')⟩

/-- What the answer says of the two runs. -/
structure Relates (runs : List Run) (left right : Run) (answer : RunRelationship) : Prop where
  same : answer = .sameRun ↔ left.id = right.id
  leftParent : ∀ checkpoint, answer = .leftParentOfRight checkpoint ↔
    right.parent = some ⟨left.id, checkpoint⟩
  rightParent : ∀ checkpoint, answer = .rightParentOfLeft checkpoint ↔
    left.parent = some ⟨right.id, checkpoint⟩
  common : ∀ id, answer = .commonAncestor id ↔
    left.id ≠ right.id ∧ ¬ ParentIn runs right.id left.id ∧ ¬ ParentIn runs left.id right.id
      ∧ NearestCommon runs left.id right.id id
  unrelated : answer = .unrelated ↔ ¬ ∃ id, AncestorIn runs left.id id ∧ AncestorIn runs right.id id

theorem Relates.unique {answer answer' : RunRelationship} (h : Relates runs left right answer)
    (h' : Relates runs left right answer') : answer' = answer := by
  cases answer with
  | sameRun => exact h'.same.mpr (h.same.mp rfl)
  | leftParentOfRight checkpoint =>
    exact (h'.leftParent checkpoint).mpr ((h.leftParent checkpoint).mp rfl)
  | rightParentOfLeft checkpoint =>
    exact (h'.rightParent checkpoint).mpr ((h.rightParent checkpoint).mp rfl)
  | commonAncestor id => exact (h'.common id).mpr ((h.common id).mp rfl)
  | unrelated => exact h'.unrelated.mpr (h.unrelated.mp rfl)

theorem mirror_eq_iff {answer answer' : RunRelationship} :
    answer.mirror = answer' ↔ answer = answer'.mirror := by
  cases answer <;> cases answer' <;> simp [RunRelationship.mirror]

theorem Relates.mirror {answer : RunRelationship} (h : Relates runs left right answer) :
    Relates runs right left answer.mirror where
  same := by rw [mirror_eq_iff, RunRelationship.mirror, h.same, eq_comm]
  leftParent checkpoint := by
    rw [mirror_eq_iff, RunRelationship.mirror, h.rightParent]
  rightParent checkpoint := by
    rw [mirror_eq_iff, RunRelationship.mirror, h.leftParent]
  common id := by
    rw [mirror_eq_iff, RunRelationship.mirror, h.common]
    constructor
    · rintro ⟨hne, hleft, hright, hnearest⟩
      exact ⟨hne.symm, hright, hleft, hnearest.symm⟩
    · rintro ⟨hne, hleft, hright, hnearest⟩
      exact ⟨hne.symm, hright, hleft, hnearest.symm⟩
  unrelated := by
    rw [mirror_eq_iff, RunRelationship.mirror, h.unrelated]
    simp only [and_comm]

theorem parentIn_iff (h : RunForest runs) (hright : right ∈ runs) (id : RunId) :
    ParentIn runs right.id id ↔ ∃ checkpoint, right.parent = some ⟨id, checkpoint⟩ := by
  constructor
  · rintro ⟨run, hrun, hid, parent, hparent, rfl⟩
    obtain rfl := h.unique run hrun right hright hid
    exact ⟨parent.checkpointId, hparent⟩
  · rintro ⟨checkpoint, hparent⟩
    exact ⟨right, hright, rfl, _, hparent, rfl⟩

/-- A parent that has the identifier asked for. -/
theorem parent_of_filter {parent? : Option RunParent} {id : RunId} {parent : RunParent}
    (h : parent?.filter (·.runId = id) = some parent) :
    parent? = some ⟨id, parent.checkpointId⟩ := by
  obtain ⟨hparent, hid⟩ := Option.filter_eq_some_iff.mp h
  rw [hparent, ← of_decide_eq_true hid]

theorem parent_ne_of_filter {parent? : Option RunParent} {id : RunId}
    (h : parent?.filter (·.runId = id) = none) (checkpoint : CheckpointId) :
    parent? ≠ some ⟨id, checkpoint⟩ := by
  rintro rfl
  rw [Option.filter_some, if_pos (decide_eq_true rfl)] at h
  exact absurd h (by simp)

theorem not_parent_both (h : RunForest runs) {a b : RunId} (hab : ParentIn runs a b) :
    ¬ ParentIn runs b a :=
  fun hba => h.acyclic a (Relation.TransGen.tail (Relation.TransGen.single hab) hba)

theorem not_parent_self (h : RunForest runs) {a b : RunId} (heq : a = b) : ¬ ParentIn runs a b := by
  rintro hab
  rw [heq] at hab
  exact h.acyclic b (Relation.TransGen.single hab)

theorem relates_same (h : RunForest runs) (hleft : left ∈ runs) (hright : right ∈ runs)
    (hsame : left.id = right.id) : Relates runs left right .sameRun where
  same := by simp [hsame]
  leftParent checkpoint := by
    refine iff_of_false (by simp) fun hparent => ?_
    exact not_parent_self h hsame.symm ((parentIn_iff h hright _).mpr ⟨checkpoint, hparent⟩)
  rightParent checkpoint := by
    refine iff_of_false (by simp) fun hparent => ?_
    exact not_parent_self h hsame ((parentIn_iff h hleft _).mpr ⟨checkpoint, hparent⟩)
  common id := iff_of_false (by simp) fun hcommon => hcommon.1 hsame
  unrelated := by
    refine iff_of_false (by simp) fun hnone => hnone ⟨left.id, Relation.ReflTransGen.refl, ?_⟩
    rw [hsame]
    exact Relation.ReflTransGen.refl

theorem relates_leftParent (h : RunForest runs) (hleft : left ∈ runs) (hright : right ∈ runs)
    {checkpoint : CheckpointId} (hparent : right.parent = some ⟨left.id, checkpoint⟩) :
    Relates runs left right (.leftParentOfRight checkpoint) := by
  have hup : ParentIn runs right.id left.id := (parentIn_iff h hright _).mpr ⟨checkpoint, hparent⟩
  refine ⟨?_, fun checkpoint' => ?_, fun checkpoint' => ?_, fun id => ?_, ?_⟩
  · exact iff_of_false (by simp) fun hsame => not_parent_self h hsame.symm hup
  · rw [hparent]
    simp
  · refine iff_of_false (by simp) fun hparent' => not_parent_both h hup ?_
    exact (parentIn_iff h hleft _).mpr ⟨checkpoint', hparent'⟩
  · exact iff_of_false (by simp) fun hcommon => hcommon.2.1 hup
  · refine iff_of_false (by simp) fun hnone => hnone ⟨left.id, Relation.ReflTransGen.refl, ?_⟩
    exact Relation.ReflTransGen.single hup

/-- The answer of the two walks, where neither run is the other's parent. -/
theorem relates_of_walks (h : RunForest runs) (hleft : left ∈ runs) (hright : right ∈ runs)
    (hne : left.id ≠ right.id) (hparent : ∀ checkpoint, right.parent ≠ some ⟨left.id, checkpoint⟩)
    (hparent' : ∀ checkpoint, left.parent ≠ some ⟨right.id, checkpoint⟩) {fuel : Nat}
    {walk walk' : List RunId} (hwalk : ancestors fuel left.id runs = some walk)
    (hwalk' : ancestors fuel right.id runs = some walk') :
    Relates runs left right ((walk.find? (· ∈ walk')).elim .unrelated .commonAncestor) := by
  have hup : ¬ ParentIn runs right.id left.id := by
    rw [parentIn_iff h hright]
    exact fun ⟨checkpoint, heq⟩ => hparent checkpoint heq
  have hup' : ¬ ParentIn runs left.id right.id := by
    rw [parentIn_iff h hleft]
    exact fun ⟨checkpoint, heq⟩ => hparent' checkpoint heq
  have hfound := nearest_of_walks h hwalk hwalk'
  have hnone := find?_walks_eq_none_iff h hwalk hwalk'
  rcases hfind : walk.find? (· ∈ walk') with _ | nearest
  · have hnone := hnone.mp hfind
    refine ⟨iff_of_false (by simp) hne, fun checkpoint =>
      iff_of_false (by simp) (hparent checkpoint),
      fun checkpoint => iff_of_false (by simp) (hparent' checkpoint), fun id => ?_,
        iff_of_true rfl hnone⟩
    exact iff_of_false (by simp) fun hcommon =>
      hnone ⟨id, hcommon.2.2.2.ofLeft, hcommon.2.2.2.ofRight⟩
  · have hnearest := (hfound nearest).mp hfind
    refine ⟨iff_of_false (by simp) hne, fun checkpoint =>
      iff_of_false (by simp) (hparent checkpoint),
      fun checkpoint => iff_of_false (by simp) (hparent' checkpoint), fun id => ?_, ?_⟩
    · constructor
      · intro heq
        obtain rfl : nearest = id := RunRelationship.commonAncestor.inj heq
        exact ⟨hne, hup, hup', hnearest⟩
      · rintro ⟨-, -, -, hother⟩
        exact congrArg _ (NearestCommon.unique h hnearest hother)
    · exact iff_of_false (by simp) fun hnone => hnone ⟨nearest, hnearest.ofLeft, hnearest.ofRight⟩

theorem relationship_relates (left right : Run) (runs : List Run) :
    ∃ answer, (∀ fuel, runs.length + 2 ≤ fuel → relationship fuel left right runs = some answer)
      ∧ (RunForest runs → left ∈ runs → right ∈ runs → Relates runs left right answer) := by
  by_cases hsame : left.id = right.id
  · refine ⟨.sameRun, fun fuel _ => ?_, fun h hleft hright => relates_same h hleft hright hsame⟩
    rw [relationship, if_pos hsame]
  rcases hright? : right.parent.filter (·.runId = left.id) with _ | parent
  · rcases hleft? : left.parent.filter (·.runId = right.id) with _ | parent
    · obtain ⟨walk, hwalk⟩ := ancestors_ends runs left.id
      obtain ⟨walk', hwalk'⟩ := ancestors_ends runs right.id
      refine ⟨(walk.find? (· ∈ walk')).elim .unrelated .commonAncestor, fun fuel hfuel => ?_,
        fun h hleft hright => ?_⟩
      · simp only [relationship, if_neg hsame, hright?, hleft?, hwalk fuel hfuel, hwalk' fuel hfuel,
          Option.bind_eq_bind, Option.bind_some]
        cases walk.find? (· ∈ walk') <;> rfl
      · exact relates_of_walks h hleft hright hsame (parent_ne_of_filter hright?)
          (parent_ne_of_filter hleft?) (hwalk _ le_rfl) (hwalk' _ le_rfl)
    · refine ⟨.rightParentOfLeft parent.checkpointId, fun fuel _ => ?_, fun h hleft hright => ?_⟩
      · simp only [relationship, if_neg hsame, hright?, hleft?]
      · exact (relates_leftParent h hright hleft (parent_of_filter hleft?)).mirror
  · refine ⟨.leftParentOfRight parent.checkpointId, fun fuel _ => ?_, fun h hleft hright =>
      relates_leftParent h hleft hright (parent_of_filter hright?)⟩
    simp only [relationship, if_neg hsame, hright?]

/-- The walks end on all data, cycles included.  In a forest the answer says whether the runs are
the same, whether one is the parent of the other and with which checkpoint, and else the nearest
common ancestor, if there is one; and the runs the other way round have the mirrored answer. -/
theorem relationship_nearest (left right : Run) (runs : List Run) :
    (∀ run, ∃ walk, ∀ fuel, runs.length + 2 ≤ fuel → ancestors fuel run runs = some walk)
      ∧ ∃ answer, (∀ fuel, runs.length + 2 ≤ fuel → relationship fuel left right runs = some answer)
        ∧ (RunForest runs → left ∈ runs → right ∈ runs →
          Relates runs left right answer
            ∧ ∀ fuel, runs.length + 2 ≤ fuel →
              relationship fuel right left runs = some answer.mirror) := by
  refine ⟨ancestors_ends runs, ?_⟩
  obtain ⟨answer, hanswer, hrelates⟩ := relationship_relates left right runs
  obtain ⟨answer', hanswer', hrelates'⟩ := relationship_relates right left runs
  refine ⟨answer, hanswer, fun h hleft hright => ⟨hrelates h hleft hright, fun fuel hfuel => ?_⟩⟩
  rw [hanswer' fuel hfuel,
    (hrelates h hleft hright).mirror.unique (hrelates' h hright hleft)]

namespace Sample

/-- A run that was forked from the run numbered `parent`. -/
def forked (id parent : Nat) : Run where
  id := ⟨⟨BitVec.ofNat 128 id⟩⟩
  branchId := ⟨⟨BitVec.ofNat 128 id⟩⟩
  parent := some ⟨⟨⟨BitVec.ofNat 128 parent⟩⟩, ⟨⟨BitVec.ofNat 128 (10 + parent)⟩⟩⟩
  command := "agent"
  arguments := []
  workspaceRoot := utf8 "/workspace"
  startedAt := ⟨0⟩
  finishedAt := none
  monotonicDuration := none
  status := .preparing
  platform := .linuxX86_64
  capturePolicy := ⟨.never, false⟩
  initialSnapshot := none
  finalSnapshot := none
  exitStatus := none

/-- Two branches of the run numbered 1, which is not in the list. -/
def branches : List Run := [forked 2 1, forked 3 1, forked 4 2]

theorem forest_branches : RunForest branches where
  unique := by decide
  acyclic := by
    have hfalls : ∀ run ∈ branches, ∀ parent ∈ run.parent,
        parent.runId.uuid.bits.toNat < run.id.uuid.bits.toNat := by decide
    have hrank : ∀ a b : RunId, ParentIn branches a b →
        b.uuid.bits.toNat < a.uuid.bits.toNat := by
      rintro _ _ ⟨run, hrun, rfl, parent, hparent, rfl⟩
      exact hfalls run hrun parent hparent
    exact Forest.not_transGen hrank

end Sample

theorem relationship_nearest_sample :
    Relates Sample.branches (Sample.forked 4 2) (Sample.forked 3 1)
      (.commonAncestor ⟨⟨BitVec.ofNat 128 1⟩⟩) := by
  obtain ⟨-, answer, hanswer, hforest⟩ :=
    relationship_nearest (Sample.forked 4 2) (Sample.forked 3 1) Sample.branches
  have hvalue : relationship 5 (Sample.forked 4 2) (Sample.forked 3 1) Sample.branches
      = some (.commonAncestor ⟨⟨BitVec.ofNat 128 1⟩⟩) := by decide
  obtain rfl := Option.some.inj (hvalue.symm.trans (hanswer 5 (by decide)))
  exact (hforest Sample.forest_branches (by decide) (by decide)).1

end Compare

end Rewind

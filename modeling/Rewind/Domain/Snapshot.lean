/-
Snapshot paths, entries and manifests.

A `SnapshotPath` carries the proof that `SnapshotPath.fromStr` accepts its text,
and a `SnapshotManifest` the proof that its entries are valid and strictly
ascending by path.  The two constructors of the source are
`SnapshotPath.fromStr` and `SnapshotManifest.fromCanonicalEntries`.
-/
import Rewind.Domain.Ids
import Rewind.Lib.Fallible
import Mathlib.Data.List.Sort

namespace Rewind

def SNAPSHOT_SCHEMA_VERSION : UInt16 := 1

def MAX_SNAPSHOT_PATH_BYTES : Nat := 4096

/-! ### Paths -/

inductive SnapshotPathError where
  | empty
  | tooLong (actual maximum : Nat)
  | absolute
  | nul
  | backslash
  | emptyComponent
  | currentDirectory
  | parentDirectory
deriving DecidableEq

instance : ToString SnapshotPathError where
  toString
    | .empty => "snapshot paths must not be empty"
    | .tooLong actual maximum => s!"snapshot path is {actual} bytes; the maximum is {maximum}"
    | .absolute => "absolute snapshot paths are forbidden"
    | .nul => "snapshot paths must not contain NUL"
    | .backslash => "snapshot paths must use forward slashes, not backslashes"
    | .emptyComponent => "snapshot paths must not contain empty components"
    | .currentDirectory => "snapshot paths must not contain '.' components"
    | .parentDirectory => "snapshot paths must not contain '..' components"

namespace SnapshotPath

/-- What a component of a snapshot path must not be. -/
def checkComponent (component : Bytes) : Except SnapshotPathError Unit :=
  if component = [] then
    .error .emptyComponent
  else if component = utf8 "." then
    .error .currentDirectory
  else if component = utf8 ".." then
    .error .parentDirectory
  else
    .ok ()

/-- The checks of `SnapshotPath::from_str`, in their order. -/
def check (input : Bytes) : Except SnapshotPathError Unit := do
  if input = [] then
    throw .empty
  if input.length > MAX_SNAPSHOT_PATH_BYTES then
    throw (.tooLong input.length MAX_SNAPSHOT_PATH_BYTES)
  if input.head? = some slash then
    throw .absolute
  if (0 : UInt8) ∈ input then
    throw .nul
  if (92 : UInt8) ∈ input then
    throw .backslash
  (splitSlash input).forM checkComponent

end SnapshotPath

/-- A normalized, nonempty, relative UTF-8 path stored with `/` separators. -/
structure SnapshotPath where
  text : Bytes
  utf8 : validUtf8 text = true
  accepted : SnapshotPath.check text = .ok ()
deriving DecidableEq

namespace SnapshotPath

/-- `SnapshotPath::from_str` on the bytes of a text. -/
def fromStr (input : Bytes) (hutf8 : validUtf8 input = true) :
    Except SnapshotPathError SnapshotPath :=
  match h : check input with
  | .error error => .error error
  | .ok () => .ok ⟨input, hutf8, h⟩

/-- The text of a path is that path. -/
theorem fromStr_text (p : SnapshotPath) : fromStr p.text p.utf8 = .ok p := by
  unfold fromStr
  split
  · rename_i error herror
    rw [p.accepted] at herror
    exact absurd herror (by simp)
  · rfl

theorem fromStr_of_text {input : Bytes} (hutf8 : validUtf8 input = true) {p : SnapshotPath}
    (h : p.text = input) : fromStr input hutf8 = .ok p := by
  subst h
  exact fromStr_text p

theorem text_of_fromStr {input : Bytes} {hutf8 : validUtf8 input = true} {p : SnapshotPath}
    (h : fromStr input hutf8 = .ok p) : p.text = input := by
  unfold fromStr at h
  split at h
  · exact absurd h (by simp)
  · rw [← Except.ok.inj h]

instance : LT SnapshotPath := ⟨fun p q => p.text < q.text⟩

instance (p q : SnapshotPath) : Decidable (p < q) := inferInstanceAs (Decidable (p.text < q.text))

/-- The text of a path. -/
def display (p : SnapshotPath) : String := decodeUtf8 p.text

theorem text_injective {p q : SnapshotPath} (h : p.text = q.text) : p = q := by
  cases p
  cases q
  cases h
  rfl

end SnapshotPath

/-! ### Permissions -/

/-- Supported Unix permission bits (`0o0000..=0o7777`). -/
structure UnixPermissions where
  bits : UInt16
  supported : bits.toNat ≤ 0o7777
deriving DecidableEq

/-- The permissions with these bits, unless one of them is unsupported. -/
def UnixPermissions.new (bits : UInt16) : Option UnixPermissions :=
  if h : bits.toNat ≤ 0o7777 then some ⟨bits, h⟩ else none

/-- Whether any owner, group or other execute bit is set. -/
def UnixPermissions.isExecutable (permissions : UnixPermissions) : Bool :=
  permissions.bits &&& 0o111 != 0

/-! ### Entries -/

/-- The durable kind-specific data for a workspace entry. -/
inductive SnapshotEntryKind where
  | directory
  | file (objectId : ObjectId) (size : UInt64) (executable : Bool)
  | symlink (target : String)
deriving DecidableEq

/-- One normalized path and its supported filesystem state. -/
structure SnapshotEntry where
  path : SnapshotPath
  kind : SnapshotEntryKind
  permissions : UnixPermissions
deriving DecidableEq

inductive SnapshotEntryError where
  | executableBitMismatch
  | emptySymlinkTarget
  | nulSymlinkTarget
  | symlinkTargetTooLong
deriving DecidableEq

instance : ToString SnapshotEntryError where
  toString
    | .executableBitMismatch => "file executable flag does not match Unix permission bits"
    | .emptySymlinkTarget => "symbolic-link target must not be empty"
    | .nulSymlinkTarget => "symbolic-link target must not contain NUL"
    | .symlinkTargetTooLong => "symbolic-link target exceeds the supported length"

/-- Checks relationships between kind-specific data and common metadata. -/
def SnapshotEntry.validate (entry : SnapshotEntry) : Except SnapshotEntryError Unit :=
  match entry.kind with
  | .directory => .ok ()
  | .file _ _ executable =>
    if executable ≠ entry.permissions.isExecutable then .error .executableBitMismatch else .ok ()
  | .symlink target =>
    if target.isEmpty then
      .error .emptySymlinkTarget
    else if (0 : UInt8) ∈ utf8 target then
      .error .nulSymlinkTarget
    else if (utf8 target).length > MAX_SNAPSHOT_PATH_BYTES then
      .error .symlinkTargetTooLong
    else
      .ok ()

/-! ### Manifests -/

inductive SnapshotManifestError where
  | unsupportedSchemaVersion (found supported : UInt16)
  | invalidEntry (path : SnapshotPath) (source : SnapshotEntryError)
  | duplicatePath (path : SnapshotPath)
  | nonCanonicalOrder (index : Nat)
deriving DecidableEq

instance : ToString SnapshotManifestError where
  toString
    | .unsupportedSchemaVersion found supported =>
      s!"unsupported snapshot schema version {found}; supported version is {supported}"
    | .invalidEntry path source => s!"invalid snapshot entry {path.display}: {source}"
    | .duplicatePath path => s!"duplicate snapshot path {path.display}"
    | .nonCanonicalOrder index => s!"snapshot entries are not in canonical order at index {index}"

/-- The checks `from_canonical_entries` makes on the entry at `index` and its predecessor. -/
def SnapshotManifest.checkEntry (previous : Option SnapshotEntry) (index : Nat)
    (entry : SnapshotEntry) : Except SnapshotManifestError Unit := do
  (entry.validate).mapError (.invalidEntry entry.path)
  match previous with
  | none => .ok ()
  | some previous =>
    if previous.path = entry.path then
      .error (.duplicatePath entry.path)
    else if entry.path < previous.path then
      .error (.nonCanonicalOrder index)
    else
      .ok ()

/-- The loop of `from_canonical_entries`. -/
def SnapshotManifest.checkEntries :
    Option SnapshotEntry → Nat → List SnapshotEntry → Except SnapshotManifestError Unit
  | _, _, [] => .ok ()
  | previous, index, entry :: rest => do
    SnapshotManifest.checkEntry previous index entry
    SnapshotManifest.checkEntries (some entry) (index + 1) rest

theorem SnapshotManifest.checkEntry_ordered {previous entry : SnapshotEntry} {index : Nat}
    (h : SnapshotManifest.checkEntry (some previous) index entry = .ok ()) :
    previous.path.text < entry.path.text := by
  obtain ⟨_, -, h⟩ := Except.bind_eq_ok_iff.mp h
  dsimp only at h
  by_cases hsame : previous.path = entry.path
  · rw [if_pos hsame] at h
    exact absurd h (by simp)
  · rw [if_neg hsame] at h
    by_cases hafter : entry.path < previous.path
    · rw [if_pos hafter] at h
      exact absurd h (by simp)
    · have hle : previous.path.text ≤ entry.path.text := not_lt.mp hafter
      refine lt_of_le_of_ne hle fun htext => hsame ?_
      exact SnapshotPath.text_injective htext

/-- Entries that pass the checks ascend by path. -/
theorem SnapshotManifest.checkEntries_ordered {previous : Option SnapshotEntry} {index : Nat}
    {entries : List SnapshotEntry}
    (h : SnapshotManifest.checkEntries previous index entries = .ok ()) :
    (previous.toList ++ entries).Pairwise fun e e' => e.path.text < e'.path.text := by
  induction entries generalizing previous index with
  | nil =>
    cases previous with
    | none => exact List.Pairwise.nil
    | some previous => exact List.pairwise_singleton _ _
  | cons entry rest ih =>
    obtain ⟨_, hentry, hrest⟩ := Except.bind_eq_ok_iff.mp h
    have hordered : (entry :: rest).Pairwise fun e e' => e.path.text < e'.path.text := ih hrest
    cases previous with
    | none => exact hordered
    | some previous =>
      have hlt := SnapshotManifest.checkEntry_ordered hentry
      refine List.pairwise_cons.mpr ⟨fun e he => ?_, hordered⟩
      rcases List.mem_cons.mp he with rfl | hlater
      · exact hlt
      · exact lt_trans hlt ((List.pairwise_cons.mp hordered).1 e hlater)

/-- A canonical, deterministically ordered snapshot manifest. -/
structure SnapshotManifest where
  schemaVersion : UInt16
  entries : List SnapshotEntry
  supported : schemaVersion = SNAPSHOT_SCHEMA_VERSION
  canonical : SnapshotManifest.checkEntries none 0 entries = .ok ()
deriving DecidableEq

/-- Validates entries that are already in their persisted canonical order. -/
def SnapshotManifest.fromCanonicalEntries (schemaVersion : UInt16)
    (entries : List SnapshotEntry) : Except SnapshotManifestError SnapshotManifest :=
  if hversion : schemaVersion = SNAPSHOT_SCHEMA_VERSION then
    match hentries : SnapshotManifest.checkEntries none 0 entries with
    | .error error => .error error
    | .ok () => .ok ⟨schemaVersion, entries, hversion, hentries⟩
  else
    .error (.unsupportedSchemaVersion schemaVersion SNAPSHOT_SCHEMA_VERSION)

theorem SnapshotManifest.ordered (manifest : SnapshotManifest) :
    manifest.entries.Pairwise fun e e' => e.path.text < e'.path.text :=
  @SnapshotManifest.checkEntries_ordered none _ _ manifest.canonical

/-- The entries of a manifest, in whatever order they are found, make it up. -/
theorem SnapshotManifest.eq_of_mem_iff {manifest manifest' : SnapshotManifest}
    (h : ∀ entry, entry ∈ manifest.entries ↔ entry ∈ manifest'.entries) : manifest = manifest' := by
  have hentries : manifest.entries = manifest'.entries := by
    have hnodup : ∀ m : SnapshotManifest, m.entries.Nodup := by
      intro m
      refine m.ordered.imp fun {e e'} hlt heq => ?_
      rw [heq] at hlt
      exact lt_irrefl _ hlt
    have hperm : manifest.entries.Perm manifest'.entries :=
      (List.perm_ext_iff_of_nodup (hnodup manifest) (hnodup manifest')).mpr h
    refine hperm.eq_of_pairwise (fun e e' _ _ hlt hlt' => ?_) manifest.ordered manifest'.ordered
    exact absurd (lt_trans hlt hlt') (lt_irrefl _)
  obtain ⟨version, entries, hversion, hcanonical⟩ := manifest
  obtain ⟨version', entries', hversion', hcanonical'⟩ := manifest'
  obtain rfl : version = version' := hversion.trans hversion'.symm
  obtain rfl : entries = entries' := hentries
  rfl

/-- The entries of a manifest make that manifest. -/
theorem SnapshotManifest.fromCanonicalEntries_self (manifest : SnapshotManifest) :
    SnapshotManifest.fromCanonicalEntries manifest.schemaVersion manifest.entries
      = .ok manifest := by
  unfold SnapshotManifest.fromCanonicalEntries
  rw [dif_pos manifest.supported]
  split
  · rename_i error herror
    rw [manifest.canonical] at herror
    exact absurd herror (by simp)
  · rfl

/-- `SnapshotManifest::new`: the entries in the order of their paths. -/
def SnapshotManifest.new (entries : List SnapshotEntry) :
    Except SnapshotManifestError SnapshotManifest :=
  SnapshotManifest.fromCanonicalEntries SNAPSHOT_SCHEMA_VERSION
    (entries.insertionSort fun left right => left.path.text ≤ right.path.text)

/-- A manifest made of canonical entries has these entries. -/
theorem SnapshotManifest.entries_of_fromCanonicalEntries {schemaVersion : UInt16}
    {entries : List SnapshotEntry} {manifest : SnapshotManifest}
    (h : SnapshotManifest.fromCanonicalEntries schemaVersion entries = .ok manifest) :
    manifest.entries = entries := by
  unfold SnapshotManifest.fromCanonicalEntries at h
  by_cases hversion : schemaVersion = SNAPSHOT_SCHEMA_VERSION
  · rw [dif_pos hversion] at h
    split at h
    · exact absurd h (by simp)
    · rw [← Except.ok.inj h]
  · rw [dif_neg hversion] at h
    exact absurd h (by simp)

theorem SnapshotManifest.mem_entries_of_new {entries : List SnapshotEntry}
    {manifest : SnapshotManifest} (h : SnapshotManifest.new entries = .ok manifest)
    (entry : SnapshotEntry) : entry ∈ manifest.entries ↔ entry ∈ entries := by
  rw [SnapshotManifest.entries_of_fromCanonicalEntries h]
  exact (List.perm_insertionSort _ entries).mem_iff

/-- A snapshot identifier paired with its canonical manifest. -/
structure Snapshot where
  id : SnapshotId
  manifest : SnapshotManifest
deriving DecidableEq

/-! ### Content identities -/

/-- The parts of third-party libraries that give content its identity: the BLAKE3 hash and the
JSON text `serde_json` writes for a manifest. -/
structure Codecs where
  blake3 : Bytes → Digest
  manifestJson : SnapshotManifest → Bytes

/-- `ObjectId::digest`. -/
def ObjectId.digestOf (codecs : Codecs) (bytes : Bytes) : ObjectId := ⟨codecs.blake3 bytes⟩

/-- `SnapshotId::digest` of the canonical text of a manifest. -/
def SnapshotId.digestOf (codecs : Codecs) (manifest : SnapshotManifest) : SnapshotId :=
  ⟨codecs.blake3 (codecs.manifestJson manifest)⟩

end Rewind

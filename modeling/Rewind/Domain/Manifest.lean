/-
The canonical form of a manifest.

`SnapshotManifest.new` sorts its entries and checks them in one pass.  The pass accepts a list
exactly if every entry is valid and the paths ascend strictly, so what is accepted after the sort
is a set of valid entries with distinct paths, and the order of the input leaves no trace in the
manifest.

* `SnapshotManifest.checkEntries_eq_ok_iff` — what the pass accepts;
* `SnapshotManifest.new_eq_ok_iff`, `SnapshotManifest.new_perm` — what `new` accepts, in every
  order;
* `SnapshotManifest.new_error` — which path a rejection names;
* `SnapshotManifest.canonical_form` — the manifest, its text and its id stand for the set of
  entries.
-/
import Rewind.Domain.Snapshot

namespace Rewind

namespace SnapshotManifest

/-! ### The pass over the entries -/

theorem checkEntry_eq_ok_iff {previous : Option SnapshotEntry} {index : Nat}
    {entry : SnapshotEntry} :
    checkEntry previous index entry = .ok ()
      ↔ entry.validate = .ok () ∧ ∀ p ∈ previous, p.path.text < entry.path.text := by
  constructor
  · intro h
    obtain ⟨_, hvalid, -⟩ := Except.bind_eq_ok_iff.mp h
    refine ⟨Except.mapError_eq_ok_iff.mp hvalid, fun p hp => ?_⟩
    obtain rfl := Option.mem_def.mp hp
    exact checkEntry_ordered h
  · rintro ⟨hvalid, hordered⟩
    refine Except.bind_eq_ok_iff.mpr ⟨(), Except.mapError_eq_ok_iff.mpr hvalid, ?_⟩
    cases previous with
    | none => rfl
    | some previous =>
      have hlt : previous.path.text < entry.path.text := hordered previous rfl
      have hne : previous.path ≠ entry.path := by
        intro heq
        rw [heq] at hlt
        exact lt_irrefl _ hlt
      have hnotafter : ¬ entry.path < previous.path := not_lt_of_gt hlt
      simp only [hne, hnotafter, if_false]

/-- The pass accepts the lists of valid entries whose paths ascend. -/
theorem checkEntries_eq_ok_iff {previous : Option SnapshotEntry} {index : Nat}
    {entries : List SnapshotEntry} :
    checkEntries previous index entries = .ok ()
      ↔ (∀ e ∈ entries, e.validate = .ok ())
        ∧ (previous.toList ++ entries).Pairwise fun e e' => e.path.text < e'.path.text := by
  constructor
  · intro h
    refine ⟨?_, checkEntries_ordered h⟩
    induction entries generalizing previous index with
    | nil => simp
    | cons entry rest ih =>
      obtain ⟨_, hentry, hrest⟩ := Except.bind_eq_ok_iff.mp h
      exact List.forall_mem_cons.mpr ⟨(checkEntry_eq_ok_iff.mp hentry).1, ih hrest⟩
  · rintro ⟨hvalid, hordered⟩
    induction entries generalizing previous index with
    | nil => rfl
    | cons entry rest ih =>
      obtain ⟨hentry, hrest⟩ := List.forall_mem_cons.mp hvalid
      have htail : (entry :: rest).Pairwise fun e e' => e.path.text < e'.path.text :=
        hordered.sublist (List.sublist_append_right _ _)
      have hprevious : ∀ p ∈ previous, p.path.text < entry.path.text := by
        intro p hp
        exact (List.pairwise_append.mp hordered).2.2 p (Option.mem_toList.mpr hp) entry
          List.mem_cons_self
      refine Except.bind_eq_ok_iff.mpr ⟨(), checkEntry_eq_ok_iff.mpr ⟨hentry, hprevious⟩, ?_⟩
      exact ih hrest htail

theorem isOk_fromCanonicalEntries_iff {schemaVersion : UInt16} {entries : List SnapshotEntry} :
    (∃ manifest, fromCanonicalEntries schemaVersion entries = .ok manifest)
      ↔ schemaVersion = SNAPSHOT_SCHEMA_VERSION ∧ checkEntries none 0 entries = .ok () := by
  constructor
  · rintro ⟨manifest, h⟩
    have hentries := entries_of_fromCanonicalEntries h
    have hcanonical := manifest.canonical
    rw [hentries] at hcanonical
    refine ⟨?_, hcanonical⟩
    by_contra hversion
    rw [fromCanonicalEntries, dif_neg hversion] at h
    exact absurd h (by simp)
  · rintro ⟨hversion, hcanonical⟩
    exact ⟨_, fromCanonicalEntries_self ⟨schemaVersion, entries, hversion, hcanonical⟩⟩

/-! ### Entries in any order -/

/-- The order `new` sorts by. -/
theorem sorted_by_path (entries : List SnapshotEntry) :
    (entries.insertionSort fun left right => left.path.text ≤ right.path.text).Pairwise
      fun e e' => e.path.text ≤ e'.path.text :=
  List.pairwise_insertionSort _ _

/-- Entries sorted by path ascend strictly if no two have the same path. -/
theorem pairwise_insertionSort_iff {entries : List SnapshotEntry} :
    ((entries.insertionSort fun left right => left.path.text ≤ right.path.text).Pairwise
        fun e e' => e.path.text < e'.path.text)
      ↔ (entries.map (·.path)).Nodup := by
  have hperm := (List.perm_insertionSort
    (fun left right : SnapshotEntry => left.path.text ≤ right.path.text) entries).map (·.path)
  rw [← hperm.nodup_iff, List.Nodup, List.pairwise_map]
  constructor
  · intro hordered
    refine hordered.imp fun {e e'} hlt heq => ?_
    rw [heq] at hlt
    exact lt_irrefl _ hlt
  · intro hdistinct
    refine (hdistinct.and (sorted_by_path entries)).imp fun {e e'} h => ?_
    exact lt_of_le_of_ne h.2 fun heq => h.1 (SnapshotPath.text_injective heq)

/-- `new` succeeds on valid entries with distinct paths. -/
theorem isOk_new_iff {entries : List SnapshotEntry} :
    (∃ manifest, new entries = .ok manifest)
      ↔ (∀ e ∈ entries, e.validate = .ok ()) ∧ (entries.map (·.path)).Nodup := by
  rw [new, isOk_fromCanonicalEntries_iff, checkEntries_eq_ok_iff, ← pairwise_insertionSort_iff]
  simp only [true_and, Option.toList_none, List.nil_append, List.mem_insertionSort]

/-- Two orders of the same entries are accepted with the same manifest. -/
theorem eq_ok_of_perm {entries entries' : List SnapshotEntry} {manifest : SnapshotManifest}
    (hperm : entries.Perm entries') (h : new entries = .ok manifest) :
    new entries' = .ok manifest := by
  have hvalid := isOk_new_iff.mp ⟨manifest, h⟩
  obtain ⟨manifest', h'⟩ : ∃ manifest', new entries' = .ok manifest' := by
    refine isOk_new_iff.mpr ⟨fun e he => hvalid.1 e (hperm.mem_iff.mpr he), ?_⟩
    exact (hperm.map _).nodup_iff.mp hvalid.2
  have hsame : manifest' = manifest := by
    refine eq_of_mem_iff fun e => ?_
    rw [mem_entries_of_new h', mem_entries_of_new h, hperm.mem_iff]
  rw [h', hsame]

/-! ### Rejections -/

end SnapshotManifest

/-- The path a rejection is about. -/
def SnapshotManifestError.path? : SnapshotManifestError → Option SnapshotPath
  | .unsupportedSchemaVersion _ _ => none
  | .invalidEntry path _ => some path
  | .duplicatePath path => some path
  | .nonCanonicalOrder _ => none

/-- Whether the entries have the fault that a rejection reports. -/
def SnapshotManifestError.Describes (entries : List SnapshotEntry) :
    SnapshotManifestError → Prop
  | .unsupportedSchemaVersion _ _ => False
  | .invalidEntry path source => ∃ e ∈ entries, e.path = path ∧ e.validate = .error source
  | .duplicatePath path => 1 < (entries.map (·.path)).count path
  | .nonCanonicalOrder _ => False

namespace SnapshotManifest

/-- A path with an invalid entry or with more than one. -/
def Offends (entries : List SnapshotEntry) (path : SnapshotPath) : Prop :=
  (∃ e ∈ entries, e.path = path ∧ e.validate ≠ .ok ()) ∨ 1 < (entries.map (·.path)).count path

theorem offends_perm {entries entries' : List SnapshotEntry} (hperm : entries.Perm entries')
    (path : SnapshotPath) : Offends entries path ↔ Offends entries' path := by
  rw [Offends, Offends, (hperm.map _).count_eq path]
  simp only [hperm.mem_iff]

theorem describes_perm {entries entries' : List SnapshotEntry} (hperm : entries.Perm entries')
    (error : SnapshotManifestError) : error.Describes entries ↔ error.Describes entries' := by
  cases error with
  | unsupportedSchemaVersion found supported => rfl
  | invalidEntry path source => simp only [SnapshotManifestError.Describes, hperm.mem_iff]
  | duplicatePath path =>
    rw [SnapshotManifestError.Describes, SnapshotManifestError.Describes,
      (hperm.map _).count_eq path]
  | nonCanonicalOrder index => rfl

/-- A pass that fails has accepted the entries before the one it fails at. -/
theorem exists_of_checkEntries_error {previous : Option SnapshotEntry} {index : Nat}
    {entries : List SnapshotEntry} {error : SnapshotManifestError}
    (h : checkEntries previous index entries = .error error) :
    ∃ before entry after n, entries = before ++ entry :: after
      ∧ checkEntries previous index before = .ok ()
      ∧ checkEntry (previous.toList ++ before).getLast? n entry = .error error := by
  induction entries generalizing previous index with
  | nil => exact absurd h (by simp [checkEntries])
  | cons entry rest ih =>
    cases hentry : checkEntry previous index entry with
    | error found =>
      have hfound : found = error := by
        rw [checkEntries, hentry] at h
        exact Except.error.inj h
      refine ⟨[], entry, rest, index, rfl, rfl, ?_⟩
      have hlast : (previous.toList ++ []).getLast? = previous := by cases previous <;> rfl
      rw [hlast, hentry, hfound]
    | ok u =>
      rw [checkEntries, hentry] at h
      obtain ⟨before, e, after, n, rfl, hbefore, hfails⟩ := ih h
      refine ⟨entry :: before, e, after, n, rfl, ?_, ?_⟩
      · rw [checkEntries, hentry]
        exact hbefore
      · have hlast : (previous.toList ++ entry :: before).getLast?
            = ((some entry).toList ++ before).getLast? :=
          List.getLast?_append_of_ne_nil _ (by simp)
        rw [hlast]
        exact hfails

/-- What the pass finds at an entry that does not come before its predecessor. -/
theorem checkEntry_error {previous : Option SnapshotEntry} {index : Nat} {entry : SnapshotEntry}
    {error : SnapshotManifestError} (h : checkEntry previous index entry = .error error)
    (hsorted : ∀ p ∈ previous, p.path.text ≤ entry.path.text) :
    (∃ source, error = .invalidEntry entry.path source ∧ entry.validate = .error source)
      ∨ error = .duplicatePath entry.path ∧ ∃ p ∈ previous, p.path = entry.path := by
  cases hvalid : entry.validate with
  | error source =>
    refine Or.inl ⟨source, ?_, rfl⟩
    rw [checkEntry.eq_def, hvalid] at h
    exact (Except.error.inj h).symm
  | ok u =>
    rw [checkEntry.eq_def, hvalid] at h
    cases previous with
    | none => exact absurd h (by simp [Except.mapError, Bind.bind, Except.bind])
    | some p =>
      have hnotafter : ¬ entry.path < p.path := not_lt.mpr (hsorted p rfl)
      by_cases hsame : p.path = entry.path
      · refine Or.inr ⟨?_, p, rfl, hsame⟩
        simp only [Except.mapError, Bind.bind, Except.bind, hsame, if_true] at h
        exact (Except.error.inj h).symm
      · simp only [Except.mapError, Bind.bind, Except.bind, hsame, hnotafter, if_false] at h
        exact absurd h (by simp)

/-- In a list in which the entries before `entry` pass, nothing before `entry` offends. -/
theorem path_le_of_offends {before after : List SnapshotEntry} {entry : SnapshotEntry}
    (hbefore : checkEntries none 0 before = .ok ())
    (hsorted : (before ++ entry :: after).Pairwise fun e e' => e.path.text ≤ e'.path.text)
    {path : SnapshotPath} (h : Offends (before ++ entry :: after) path) :
    entry.path.text ≤ path.text := by
  obtain ⟨hvalid, hordered⟩ := checkEntries_eq_ok_iff.mp hbefore
  have hfirst : ∀ e ∈ entry :: after, entry.path.text ≤ e.path.text := by
    intro e he
    rcases List.mem_cons.mp he with rfl | hlater
    · exact le_rfl
    · exact (List.pairwise_cons.mp (List.pairwise_append.mp hsorted).2.1).1 e hlater
  -- an offending path needs an entry that is not among those that pass
  obtain ⟨e, he, rfl⟩ : ∃ e ∈ entry :: after, e.path = path := by
    rcases h with ⟨e, he, hpath, hinvalid⟩ | hcount
    · rcases List.mem_append.mp he with hearly | hlate
      · exact absurd (hvalid e hearly) hinvalid
      · exact ⟨e, hlate, hpath⟩
    · have hnodup : (before.map (·.path)).Nodup := by
        rw [List.Nodup, List.pairwise_map]
        refine List.Pairwise.imp (fun {e e'} hlt heq => ?_) hordered
        rw [heq] at hlt
        exact lt_irrefl _ hlt
      have honce := List.nodup_iff_count_le_one.mp hnodup path
      rw [List.map_append, List.count_append] at hcount
      have hlate : 0 < ((entry :: after).map (·.path)).count path := by omega
      exact List.mem_map.mp (List.count_pos_iff.mp hlate)
  exact hfirst e he

/-- A rejection reports a fault of the least path that offends. -/
theorem new_error {entries : List SnapshotEntry} {error : SnapshotManifestError}
    (h : new entries = .error error) :
    error.Describes entries ∧ ∃ path, error.path? = some path ∧ Offends entries path
      ∧ ∀ path', Offends entries path' → path.text ≤ path'.text := by
  have hperm := List.perm_insertionSort
    (fun left right : SnapshotEntry => left.path.text ≤ right.path.text) entries
  have hsorted := sorted_by_path entries
  generalize hlist : entries.insertionSort
    (fun left right : SnapshotEntry => left.path.text ≤ right.path.text) = list at hperm hsorted
  have hpass : checkEntries none 0 list = .error error := by
    rw [new, hlist, fromCanonicalEntries, dif_pos rfl] at h
    split at h
    · rename_i found hfound
      rw [hfound, Except.error.inj h]
    · exact absurd h (by simp)
  obtain ⟨before, entry, after, n, rfl, hbefore, hfails⟩ := exists_of_checkEntries_error hpass
  have hlast : ∀ p ∈ before.getLast?, p ∈ before := fun p hp => List.mem_of_getLast? hp
  have hearlier : ∀ p ∈ before.getLast?, p.path.text ≤ entry.path.text := by
    intro p hp
    exact (List.pairwise_append.mp hsorted).2.2 p (hlast p hp) entry List.mem_cons_self
  have hleast : ∀ path', Offends entries path' → entry.path.text ≤ path'.text := by
    intro path' hpath'
    exact path_le_of_offends hbefore hsorted ((offends_perm hperm path').mpr hpath')
  rw [← describes_perm hperm error]
  simp only [← offends_perm hperm] at hleast ⊢
  rcases checkEntry_error hfails hearlier with ⟨source, rfl, hsource⟩ | ⟨rfl, p, hp, hpath⟩
  · have hmem : entry ∈ before ++ entry :: after :=
      List.mem_append_right _ List.mem_cons_self
    refine ⟨⟨entry, hmem, rfl, hsource⟩, entry.path, rfl, Or.inl ⟨entry, hmem, rfl, ?_⟩, hleast⟩
    rw [hsource]
    exact fun habsurd => absurd habsurd (by simp)
  · have htwice : 1 < ((before ++ entry :: after).map (·.path)).count entry.path := by
      rw [List.map_append, List.count_append, List.map_cons, List.count_cons_self]
      have hone : 0 < (before.map (·.path)).count entry.path :=
        List.count_pos_iff.mpr (List.mem_map.mpr ⟨p, hlast p hp, hpath⟩)
      omega
    exact ⟨htwice, entry.path, rfl, Or.inr htwice, hleast⟩

/-- In every order of the entries, `new` makes the same manifest or rejects the same path. -/
theorem new_perm {entries entries' : List SnapshotEntry} (hperm : entries.Perm entries') :
    (new entries).mapError SnapshotManifestError.path?
      = (new entries').mapError SnapshotManifestError.path? := by
  cases h : new entries with
  | ok manifest => rw [eq_ok_of_perm hperm h]
  | error error =>
    cases h' : new entries' with
    | ok manifest' =>
      have hboth := eq_ok_of_perm hperm.symm h'
      rw [h] at hboth
      exact absurd hboth (by simp)
    | error error' =>
      obtain ⟨-, path, hpath, hoffends, hleast⟩ := new_error h
      obtain ⟨-, path', hpath', hoffends', hleast'⟩ := new_error h'
      have hle := hleast path' ((offends_perm hperm path').mpr hoffends')
      have hle' := hleast' path ((offends_perm hperm path).mp hoffends)
      have hsame : path = path' := SnapshotPath.text_injective (le_antisymm hle hle')
      simp only [Except.mapError, hpath, hpath', hsame]

/-! ### Canonical entries -/

/-- Entries that were sorted and accepted are accepted again in this order. -/
theorem new_entries (manifest : SnapshotManifest) : new manifest.entries = .ok manifest := by
  have hsorted : manifest.entries.insertionSort (fun left right => left.path.text ≤ right.path.text)
      = manifest.entries :=
    List.Pairwise.insertionSort_eq (manifest.ordered.imp le_of_lt)
  have hself := fromCanonicalEntries_self manifest
  rw [manifest.supported] at hself
  rw [new, hsorted, hself]

/-- The lists in canonical order are those that `new` produces. -/
theorem isOk_fromCanonicalEntries_iff_new {schemaVersion : UInt16}
    {entries : List SnapshotEntry} :
    (∃ manifest, fromCanonicalEntries schemaVersion entries = .ok manifest)
      ↔ schemaVersion = SNAPSHOT_SCHEMA_VERSION
        ∧ ∃ given manifest, new given = .ok manifest ∧ manifest.entries = entries := by
  constructor
  · rintro ⟨manifest, h⟩
    have hversion := (isOk_fromCanonicalEntries_iff.mp ⟨manifest, h⟩).1
    exact ⟨hversion, _, manifest, new_entries manifest, entries_of_fromCanonicalEntries h⟩
  · rintro ⟨rfl, given, manifest, -, rfl⟩
    have hself := fromCanonicalEntries_self manifest
    rw [manifest.supported] at hself
    exact ⟨manifest, hself⟩

variable {δ ε : Type}

/-- `SnapshotManifest::deserialize`: `wire` reads the two fields, and `custom` makes an error of a
text. -/
def deserialize (wire : δ → Except ε (UInt16 × List SnapshotEntry)) (custom : String → ε)
    (deserializer : δ) : Except ε SnapshotManifest := do
  let (schemaVersion, entries) ← wire deserializer
  (fromCanonicalEntries schemaVersion entries).mapError fun error => custom (toString error)

theorem deserialize_eq_ok_iff {wire : δ → Except ε (UInt16 × List SnapshotEntry)}
    {custom : String → ε} {deserializer : δ} {manifest : SnapshotManifest} :
    deserialize wire custom deserializer = .ok manifest
      ↔ ∃ schemaVersion entries, wire deserializer = .ok (schemaVersion, entries)
        ∧ fromCanonicalEntries schemaVersion entries = .ok manifest := by
  rw [deserialize, Except.bind_eq_ok_iff]
  simp only [Prod.exists, Except.mapError_eq_ok_iff]

end SnapshotManifest

/-- What is assumed of the libraries where two manifests are compared: their texts tell them
apart, and these texts are no BLAKE3 collision. -/
structure Codecs.Separates (codecs : Codecs) (manifest manifest' : SnapshotManifest) : Prop where
  text : codecs.manifestJson manifest = codecs.manifestJson manifest' → manifest = manifest'
  digest : codecs.blake3 (codecs.manifestJson manifest)
      = codecs.blake3 (codecs.manifestJson manifest') →
    codecs.manifestJson manifest = codecs.manifestJson manifest'

namespace SnapshotManifest

/-- Manifests made of two lists are equal if the lists hold the same entries. -/
theorem eq_iff_of_new {entries entries' : List SnapshotEntry}
    {manifest manifest' : SnapshotManifest} (h : new entries = .ok manifest)
    (h' : new entries' = .ok manifest') :
    manifest = manifest' ↔ ∀ e, e ∈ entries ↔ e ∈ entries' := by
  simp only [← mem_entries_of_new h, ← mem_entries_of_new h']
  constructor
  · rintro rfl e
    rfl
  · exact eq_of_mem_iff

/-- `new` makes the same of a list in every order, up to which fault of the path it names is
reported; it accepts valid entries with distinct paths, its manifests are the ones that are
accepted back, and their texts and ids stand for the set of entries. -/
theorem canonical_form (codecs : Codecs) (wire : δ → Except ε (UInt16 × List SnapshotEntry))
    (custom : String → ε) :
    (∀ entries entries', entries.Perm entries' →
      (new entries).mapError SnapshotManifestError.path?
        = (new entries').mapError SnapshotManifestError.path?)
    ∧ (∀ entries error, new entries = .error error →
      error.Describes entries ∧ ∃ path, error.path? = some path ∧ Offends entries path
        ∧ ∀ path', Offends entries path' → path.text ≤ path'.text)
    ∧ (∀ entries, (∃ manifest, new entries = .ok manifest)
      ↔ (∀ e ∈ entries, e.validate = .ok ()) ∧ (entries.map (·.path)).Nodup)
    ∧ (∀ schemaVersion entries,
      (∃ manifest, fromCanonicalEntries schemaVersion entries = .ok manifest)
        ↔ schemaVersion = SNAPSHOT_SCHEMA_VERSION
          ∧ ∃ given manifest, new given = .ok manifest ∧ manifest.entries = entries)
    ∧ (∀ deserializer manifest, deserialize wire custom deserializer = .ok manifest
      ↔ wire deserializer = .ok (SNAPSHOT_SCHEMA_VERSION, manifest.entries)
        ∧ ∃ given, new given = .ok manifest)
    ∧ ∀ entries entries' manifest manifest', new entries = .ok manifest →
      new entries' = .ok manifest' → codecs.Separates manifest manifest' →
        (codecs.manifestJson manifest = codecs.manifestJson manifest'
          ↔ ∀ e, e ∈ entries ↔ e ∈ entries')
        ∧ (SnapshotId.digestOf codecs manifest = SnapshotId.digestOf codecs manifest'
          ↔ ∀ e, e ∈ entries ↔ e ∈ entries') := by
  refine ⟨fun _ _ => new_perm, fun _ _ => new_error, fun _ => isOk_new_iff,
    fun _ _ => isOk_fromCanonicalEntries_iff_new, ?_, ?_⟩
  · intro deserializer manifest
    rw [deserialize_eq_ok_iff]
    constructor
    · rintro ⟨schemaVersion, entries, hwire, h⟩
      have hversion := (isOk_fromCanonicalEntries_iff.mp ⟨manifest, h⟩).1
      rw [hversion, ← entries_of_fromCanonicalEntries h] at hwire
      exact ⟨hwire, _, new_entries manifest⟩
    · rintro ⟨hwire, -⟩
      have hself := fromCanonicalEntries_self manifest
      rw [manifest.supported] at hself
      exact ⟨_, _, hwire, hself⟩
  · intro entries entries' manifest manifest' h h' hseparates
    have htext : codecs.manifestJson manifest = codecs.manifestJson manifest'
        ↔ manifest = manifest' := ⟨hseparates.text, fun heq => congrArg codecs.manifestJson heq⟩
    have hid : SnapshotId.digestOf codecs manifest = SnapshotId.digestOf codecs manifest'
        ↔ codecs.manifestJson manifest = codecs.manifestJson manifest' := by
      simp only [SnapshotId.digestOf, SnapshotId.mk.injEq]
      exact ⟨hseparates.digest, fun heq => congrArg codecs.blake3 heq⟩
    rw [hid, htext, eq_iff_of_new h h', and_self]

/-! ### Samples -/

namespace Sample

/-- A directory under a name of one letter. -/
def directory (path : SnapshotPath) : SnapshotEntry := ⟨path, .directory, ⟨493, by decide⟩⟩

def pathA : SnapshotPath := ⟨[97], by decide +kernel, by decide +kernel⟩

def pathB : SnapshotPath := ⟨[98], by decide +kernel, by decide +kernel⟩

/-- A symbolic link that is not valid. -/
def brokenLink (target : String) : SnapshotEntry := ⟨pathA, .symlink target, ⟨511, by decide⟩⟩

/-- The text of the manifest with the directory `a`. -/
def jsonA : Bytes := utf8 ("\x7b\"schema_version\":1,\"entries\":["
  ++ "\x7b\"path\":\"a\",\"kind\":\x7b\"kind\":\"directory\"\x7d,\"permissions\":493\x7d]\x7d")

/-- The text of the manifest with the directories `a` and `b`. -/
def jsonAB : Bytes := utf8 ("\x7b\"schema_version\":1,\"entries\":["
  ++ "\x7b\"path\":\"a\",\"kind\":\x7b\"kind\":\"directory\"\x7d,\"permissions\":493\x7d,"
  ++ "\x7b\"path\":\"b\",\"kind\":\x7b\"kind\":\"directory\"\x7d,\"permissions\":493\x7d]\x7d")

/-- The codecs on these two manifests. -/
def codecs : Codecs where
  blake3 bytes :=
    if bytes = jsonA then
      ⟨[31, 177, 220, 229, 48, 1, 21, 16, 222, 3, 211, 79, 130, 44, 157, 92,
        201, 55, 252, 195, 193, 245, 93, 247, 106, 223, 133, 56, 151, 184, 185, 197], rfl⟩
    else
      ⟨[67, 124, 178, 192, 81, 6, 251, 169, 96, 119, 99, 203, 140, 12, 39, 104,
        49, 26, 167, 64, 245, 125, 184, 10, 223, 78, 2, 219, 229, 121, 148, 51], rfl⟩
  manifestJson manifest := if manifest.entries.length = 1 then jsonA else jsonAB

def manifestA : SnapshotManifest := ⟨1, [directory pathA], rfl, rfl⟩

def manifestAB : SnapshotManifest :=
  ⟨1, [directory pathA, directory pathB], rfl, by decide +kernel⟩

/-- What `serde` reads from the two texts. -/
def wire (text : Bytes) : Except String (UInt16 × List SnapshotEntry) :=
  if text = jsonA then .ok (1, manifestA.entries)
  else if text = jsonAB then .ok (1, manifestAB.entries)
  else .error "expected value"

end Sample

/-- Two faults of one path: which one is reported depends on the order. -/
theorem new_depends_on_order :
    ¬ ∀ entries entries' : List SnapshotEntry, entries.Perm entries' →
      new entries = new entries' := by
  intro h
  have hsame := h [Sample.brokenLink "", Sample.brokenLink "\x00"]
    [Sample.brokenLink "\x00", Sample.brokenLink ""] (List.Perm.swap _ _ _)
  exact absurd hsame (by decide +kernel)

/-- The manifests of `b, a` and of `a` have different texts and ids. -/
theorem canonical_form_sample :
    (Sample.codecs.manifestJson Sample.manifestAB = Sample.codecs.manifestJson Sample.manifestA
        ↔ ∀ e, e ∈ [Sample.directory Sample.pathB, Sample.directory Sample.pathA]
          ↔ e ∈ [Sample.directory Sample.pathA])
      ∧ (SnapshotId.digestOf Sample.codecs Sample.manifestAB
          = SnapshotId.digestOf Sample.codecs Sample.manifestA
        ↔ ∀ e, e ∈ [Sample.directory Sample.pathB, Sample.directory Sample.pathA]
          ↔ e ∈ [Sample.directory Sample.pathA]) :=
  (canonical_form Sample.codecs Sample.wire id).2.2.2.2.2 _ _ _ _
    (by decide +kernel) (by decide +kernel)
    ⟨fun h => absurd h (by decide +kernel), fun h => absurd h (by decide +kernel)⟩

end SnapshotManifest

end Rewind

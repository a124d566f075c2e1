/-
Names that a case-insensitive file system identifies.

`validate_manifest` compares the lower-case forms of the paths.  A case-insensitive file system
identifies two characters that have one upper-case form as well, such as `s` and the long `ſ`.

* `SameName` — two paths of one name there;
* **`case_aliases_iff`** — which accepted manifests have two entries of one name.
-/
import Rewind.Snapshot.Restore

namespace Rewind

namespace Restore

/-- The simple case mappings of Unicode, one character for one. -/
structure CaseTable where
  upper : Char → Char
  lower : Char → Char

/-- A character through its upper-case and its lower-case form. -/
def CaseTable.fold (table : CaseTable) (c : Char) : Char := table.lower (table.upper c)

/-- The characters of a path. -/
def pathChars (path : SnapshotPath) : List Char := path.display.toList

/-- Paths that are equal when case is ignored. -/
def SameName (table : CaseTable) (path path' : SnapshotPath) : Prop :=
  (pathChars path).map table.fold = (pathChars path').map table.fold

instance (table : CaseTable) (path path' : SnapshotPath) :
    Decidable (SameName table path path') :=
  inferInstanceAs (Decidable (_ = _))

/-- At one place of the two paths the lower-case forms differ. -/
def DifferInLowercase (lowercase : Char → List Char) (path path' : SnapshotPath) : Prop :=
  ∃ pair ∈ (pathChars path).zip (pathChars path'), lowercase pair.1 ≠ lowercase pair.2

instance (lowercase : Char → List Char) (path path' : SnapshotPath) :
    Decidable (DifferInLowercase lowercase path path') :=
  inferInstanceAs (Decidable (∃ pair ∈ (pathChars path).zip (pathChars path'),
    lowercase pair.1 ≠ lowercase pair.2))

variable {lowercase : Char → List Char} {table : CaseTable} {manifest : SnapshotManifest}

/-- Entries that pass the first loop have lower-case forms of their own. -/
theorem checkCaseFold_ok {folded : List (List Char × SnapshotPath)} {entries : List SnapshotEntry}
    (h : checkCaseFold lowercase folded entries = .ok ()) :
    (∀ seen ∈ folded, ∀ entry ∈ entries, seen.1 ≠ caseFold lowercase entry.path)
      ∧ entries.Pairwise fun entry entry' =>
        caseFold lowercase entry.path ≠ caseFold lowercase entry'.path := by
  induction entries generalizing folded with
  | nil => exact ⟨by simp, List.Pairwise.nil⟩
  | cons entry rest ih =>
    rw [checkCaseFold] at h
    rcases hfind : folded.find? (·.1 = caseFold lowercase entry.path) with _ | previous
    · rw [hfind] at h
      obtain ⟨hseen, hrest⟩ := ih h
      obtain ⟨hfirst, hseen⟩ := List.forall_mem_cons.mp hseen
      refine ⟨fun seen hmem => List.forall_mem_cons.mpr ⟨?_, hseen seen hmem⟩,
        List.pairwise_cons.mpr ⟨hfirst, hrest⟩⟩
      simpa using List.find?_eq_none.mp hfind seen hmem
    · rw [hfind] at h
      exact absurd h (by simp)

/-- Accepted entries of one lower-case form are the same. -/
theorem eq_of_caseFold (h : validateManifest lowercase manifest = .ok ())
    {entry entry' : SnapshotEntry}
    (hentry : entry ∈ manifest.entries) (hentry' : entry' ∈ manifest.entries)
    (heq : caseFold lowercase entry.path = caseFold lowercase entry'.path) : entry = entry' := by
  obtain ⟨_, hfolded, -⟩ := Except.bind_eq_ok_iff.mp h
  have hnodup : (manifest.entries.map fun entry => caseFold lowercase entry.path).Nodup :=
    List.pairwise_map.mpr (checkCaseFold_ok hfolded).2
  exact List.inj_on_of_nodup_map hnodup hentry hentry' heq

/-- Two paths of one length that agree in lower case at every place have one lower-case form. -/
theorem flatMap_eq_of_zip {chars chars' : List Char} (hlength : chars.length = chars'.length)
    (h : ∀ pair ∈ chars.zip chars', lowercase pair.1 = lowercase pair.2) :
    chars.flatMap lowercase = chars'.flatMap lowercase := by
  induction chars generalizing chars' with
  | nil =>
    rw [List.eq_nil_of_length_eq_zero hlength.symm]
  | cons c rest ih =>
    obtain _ | ⟨c', rest'⟩ := chars'
    · exact absurd hlength (by simp)
    · rw [List.zip_cons_cons] at h
      obtain ⟨hfirst, hrest⟩ := List.forall_mem_cons.mp h
      rw [List.flatMap_cons, List.flatMap_cons, ih (by simpa using hlength) hrest]
      exact congrArg (· ++ rest'.flatMap lowercase) hfirst

theorem caseFold_eq {path path' : SnapshotPath} (hname : SameName table path path')
    (hsame : ¬ DifferInLowercase lowercase path path') :
    caseFold lowercase path = caseFold lowercase path' := by
  have hlength : (pathChars path).length = (pathChars path').length := by
    simpa using congrArg List.length hname
  refine flatMap_eq_of_zip hlength fun pair hpair => ?_
  by_contra hdiffer
  exact hsame ⟨pair, hpair, hdiffer⟩

/-- The entries of an accepted manifest have names of their own exactly when no two of their paths
agree but for the case of their characters and yet have, at one place, characters of different
lower-case forms. -/
theorem case_aliases_iff (lowercase : Char → List Char) (table : CaseTable)
    (manifest : SnapshotManifest) (h : validateManifest lowercase manifest = .ok ()) :
    (∀ entry ∈ manifest.entries, ∀ entry' ∈ manifest.entries,
        SameName table entry.path entry'.path → entry = entry')
      ↔ ∀ entry ∈ manifest.entries, ∀ entry' ∈ manifest.entries,
        ¬ (SameName table entry.path entry'.path
          ∧ DifferInLowercase lowercase entry.path entry'.path) := by
  constructor
  · rintro hdistinct entry hentry entry' hentry' ⟨hname, pair, hpair, hdiffer⟩
    obtain rfl := hdistinct entry hentry entry' hentry' hname
    obtain ⟨i, hi, rfl⟩ := List.mem_iff_getElem.mp hpair
    simp at hdiffer
  · intro hcase entry hentry entry' hentry' hname
    refine eq_of_caseFold h hentry hentry' (caseFold_eq hname fun hdiffer => ?_)
    exact hcase entry hentry entry' hentry' ⟨hname, hdiffer⟩

namespace Sample

/-- The case mappings of the basic letters and of the long `ſ`, whose upper-case form is `S`. -/
def caseTable : CaseTable where
  upper c := if c = 'ſ' then 'S' else c.toUpper
  lower c := c.toLower

theorem directoryMode_supported : UInt16.toNat 0o755 ≤ 0o7777 := by decide

theorem schemaVersion_one : (1 : UInt16) = SNAPSHOT_SCHEMA_VERSION := rfl

/-- An empty directory at a path. -/
def directoryAt (text : Bytes) (hutf8 : validUtf8 text = true)
    (haccepted : SnapshotPath.check text = .ok ()) : SnapshotEntry where
  path := ⟨text, hutf8, haccepted⟩
  kind := .directory
  permissions := ⟨0o755, directoryMode_supported⟩

/-- The directories `s` and `ſ`. -/
def longS : SnapshotManifest where
  schemaVersion := 1
  entries := [directoryAt (utf8 "s") (by decide) (by decide),
    directoryAt (utf8 "ſ") (by decide) (by decide)]
  supported := schemaVersion_one
  canonical := by decide

/-- The directories `Lib` and `src`. -/
def plain : SnapshotManifest where
  schemaVersion := 1
  entries := [directoryAt (utf8 "Lib") (by decide) (by decide),
    directoryAt (utf8 "src") (by decide) (by decide)]
  supported := schemaVersion_one
  canonical := by decide

end Sample

theorem case_aliases_iff_sample :
    validateManifest (fun c => [c.toLower]) Sample.plain = .ok ()
      ∧ ∀ entry ∈ Sample.plain.entries, ∀ entry' ∈ Sample.plain.entries,
        SameName Sample.caseTable entry.path entry'.path → entry = entry' := by
  have haccepted : validateManifest (fun c => [c.toLower]) Sample.plain
    = .ok () := by decide +kernel
  exact ⟨haccepted,
    (case_aliases_iff _ Sample.caseTable Sample.plain haccepted).mpr (by decide +kernel)⟩

/-- `s` and `ſ` are of one name, and accepted. -/
theorem long_s_aliases :
    ¬ ∀ manifest : SnapshotManifest, validateManifest (fun c => [c.toLower]) manifest = .ok () →
      ∀ entry ∈ manifest.entries, ∀ entry' ∈ manifest.entries,
        SameName Sample.caseTable entry.path entry'.path → entry = entry' := by
  intro h
  have haccepted : validateManifest (fun c => [c.toLower]) Sample.longS
    = .ok () := by decide +kernel
  have hsame := h Sample.longS haccepted _ (List.mem_cons_self ..) _
    (List.mem_cons_of_mem _ (List.mem_cons_self ..)) (by decide +kernel)
  exact absurd hsame (by decide +kernel)

end Restore

end Rewind

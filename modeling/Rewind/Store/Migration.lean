/-
Schema migrations.

The metadata database is created and upgraded by numbered migrations, each a transaction that also
writes the version in two places.  A process can end between any two of them; the next writer
applies the ones that are left.

* `MetadataFile` — the database with its schema and both versions;
* `Migration.apply`, `pendingMigrations`, `verify` — the statements of `migrate`;
* `MetadataFile.AtVersion` — a database after the first so many migrations;
* `apply_next`, `verify_iff` — the next migration applies, and all of them make a database that
  readers and writers accept.
-/
import Rewind.Store.Writer

namespace Rewind

/-- A table or an index that a migration creates; an index names its table. -/
structure SchemaObject where
  name : String
  table : Option String
deriving DecidableEq

/-- A migration, by what its SQL creates. -/
structure Migration where
  version : Nat
  creates : List SchemaObject
deriving DecidableEq

def LATEST_SCHEMA_VERSION : Nat := 2

def MIGRATIONS : List Migration := [
  { version := 1
    creates := [⟨"schema_metadata", none⟩, ⟨"objects", none⟩, ⟨"snapshots", none⟩,
      ⟨"snapshot_entries", none⟩, ⟨"runs", none⟩, ⟨"run_arguments", none⟩, ⟨"run_parents", none⟩,
      ⟨"events", none⟩, ⟨"checkpoints", none⟩, ⟨"terminal_chunks", none⟩, ⟨"warnings", none⟩] },
  { version := 2
    creates := [⟨"events_wall_time", some "events"⟩, ⟨"checkpoints_snapshot", some "checkpoints"⟩,
      ⟨"runs_started", some "runs"⟩, ⟨"run_parents_parent", some "run_parents"⟩,
      ⟨"snapshot_entries_object", some "snapshot_entries"⟩,
      ⟨"terminal_chunks_sequence", some "terminal_chunks"⟩] }]

/-- The metadata database: `PRAGMA user_version`, the names in `sqlite_schema`, the row of
`schema_metadata` and the other rows. -/
structure MetadataFile where
  userVersion : Nat
  schema : List String
  schemaMetadata : Option (Nat × Int64)
  db : Db
deriving DecidableEq

/-- A database that was just created. -/
def MetadataFile.new : MetadataFile := ⟨0, [], none, Db.empty⟩

/-- Why the SQL of a migration fails. -/
inductive SchemaError where
  | alreadyExists (name : String)
  | noSuchTable (name : String)
deriving DecidableEq

/-- `CREATE TABLE` and `CREATE INDEX`; both kinds of names share one space. -/
def createObject (schema : List String) (object : SchemaObject) :
    Except SchemaError (List String) :=
  if object.name ∈ schema then
    .error (.alreadyExists object.name)
  else
    match object.table with
    | some table =>
      if table ∈ schema then .ok (schema ++ [object.name]) else .error (.noSuchTable table)
    | none => .ok (schema ++ [object.name])

/-- The transaction of a migration. -/
def Migration.apply (migration : Migration) (nowUnixMs : Int64) (file : MetadataFile) :
    Except SchemaError MetadataFile := do
  let schema ← migration.creates.foldlM createObject file.schema
  ensure ("schema_metadata" ∈ schema) (.noSuchTable "schema_metadata")
  return { file with
    userVersion := migration.version
    schema
    schemaMetadata := some (migration.version, nowUnixMs) }

/-- The migrations that `migrate` applies, in their order. -/
def pendingMigrations (file : MetadataFile) : List Migration :=
  MIGRATIONS.filter fun migration => file.userVersion < migration.version

/-- Why a database is not opened. -/
inductive SchemaRejection where
  | database (operation : String)
  | schemaMismatch (pragma metadata : Nat)
deriving DecidableEq

/-- `verify`: both versions are the latest. -/
def verify (file : MetadataFile) : Except SchemaRejection Unit :=
  match file.schemaMetadata with
  | none => .error (.database "verify schema metadata")
  | some (metadata, _) =>
    if file.userVersion ≠ LATEST_SCHEMA_VERSION ∨ metadata ≠ LATEST_SCHEMA_VERSION then
      .error (.schemaMismatch file.userVersion metadata)
    else
      .ok ()

/-! ### Databases between two migrations -/

/-- The names that some migrations create. -/
def createdNames (migrations : List Migration) : List String :=
  migrations.flatMap fun migration => migration.creates.map (·.name)

/-- The version that some migrations lead to. -/
def lastVersion (migrations : List Migration) : Nat := (migrations.getLast?.map (·.version)).getD 0

/-- A database after the first `count` migrations. -/
structure MetadataFile.AtVersion (file : MetadataFile) (count : Nat) : Prop where
  count_le : count ≤ MIGRATIONS.length
  userVersion : file.userVersion = lastVersion (MIGRATIONS.take count)
  schema : file.schema = createdNames (MIGRATIONS.take count)
  schemaMetadata : file.schemaMetadata.map (·.1)
    = (MIGRATIONS.take count).getLast?.map (·.version)

theorem atVersion_new : MetadataFile.new.AtVersion 0 := ⟨by decide, rfl, rfl, rfl⟩

/-- The rows are no part of the version. -/
theorem MetadataFile.AtVersion.of_db {file : MetadataFile} {count : Nat}
    (h : file.AtVersion count) (db : Db) : { file with db }.AtVersion count :=
  ⟨h.count_le, h.userVersion, h.schema, h.schemaMetadata⟩

/-- The number of migrations is in the version. -/
theorem MetadataFile.AtVersion.unique {file : MetadataFile} {count count' : Nat}
    (h : file.AtVersion count) (h' : file.AtVersion count') : count = count' := by
  have hdistinct : ∀ i ≤ MIGRATIONS.length, ∀ j ≤ MIGRATIONS.length,
      lastVersion (MIGRATIONS.take i) = lastVersion (MIGRATIONS.take j) → i = j := by decide
  exact hdistinct count h.count_le count' h'.count_le (h.userVersion.symm.trans h'.userVersion)

/-- What is left to apply. -/
theorem MetadataFile.AtVersion.pending {file : MetadataFile} {count : Nat}
    (h : file.AtVersion count) : pendingMigrations file = MIGRATIONS.drop count := by
  have hall : ∀ i ≤ MIGRATIONS.length, MIGRATIONS.filter
      (fun migration => lastVersion (MIGRATIONS.take i) < migration.version)
        = MIGRATIONS.drop i := by decide
  rw [pendingMigrations, h.userVersion]
  exact hall count h.count_le

theorem MetadataFile.AtVersion.le_latest {file : MetadataFile} {count : Nat}
    (h : file.AtVersion count) : file.userVersion ≤ LATEST_SCHEMA_VERSION := by
  have hall : ∀ i ≤ MIGRATIONS.length,
      lastVersion (MIGRATIONS.take i) ≤ LATEST_SCHEMA_VERSION := by decide
  rw [h.userVersion]
  exact hall count h.count_le

/-- The next migration applies, and touches no row. -/
theorem MetadataFile.AtVersion.apply_next {file : MetadataFile} {count : Nat}
    (h : file.AtVersion count) {migration : Migration} {rest : List Migration}
    (hnext : MIGRATIONS.drop count = migration :: rest) (nowUnixMs : Int64) :
    ∃ file', migration.apply nowUnixMs file = .ok file' ∧ file'.AtVersion (count + 1)
      ∧ file'.db = file.db := by
  have hlt : count < MIGRATIONS.length := by
    have hlength := congrArg List.length hnext
    rw [List.length_drop, List.length_cons] at hlength
    omega
  have hall : ∀ i < MIGRATIONS.length, ∀ m, MIGRATIONS.drop i = m :: MIGRATIONS.drop (i + 1) →
      m.creates.foldlM createObject (createdNames (MIGRATIONS.take i))
          = .ok (createdNames (MIGRATIONS.take (i + 1)))
        ∧ "schema_metadata" ∈ createdNames (MIGRATIONS.take (i + 1))
        ∧ (MIGRATIONS.take (i + 1)).getLast? = some m := by
    intro i hi m hm
    obtain rfl : m = MIGRATIONS[i] := by
      rw [List.drop_eq_getElem_cons hi] at hm
      exact (List.cons_eq_cons.mp hm).1.symm
    revert i
    decide
  have hrest : rest = MIGRATIONS.drop (count + 1) := by
    rw [← List.drop_drop, hnext]
    rfl
  obtain ⟨hcreates, htable, hlast⟩ := hall count hlt migration (hrest ▸ hnext)
  rw [← h.schema] at hcreates
  refine ⟨_, Except.bind_eq_ok_iff.mpr ⟨_, hcreates, ensure_bind_eq_ok_iff.mpr ⟨htable, rfl⟩⟩,
    ⟨hlt, ?_, rfl, ?_⟩, rfl⟩
  · rw [lastVersion, hlast]
    rfl
  · rw [hlast]
    rfl

/-- After all migrations, and only then, the database is accepted. -/
theorem MetadataFile.AtVersion.verify_iff {file : MetadataFile} {count : Nat}
    (h : file.AtVersion count) : verify file = .ok () ↔ count = MIGRATIONS.length := by
  have hall : ∀ i ≤ MIGRATIONS.length,
      (lastVersion (MIGRATIONS.take i) = LATEST_SCHEMA_VERSION ↔ i = MIGRATIONS.length)
        ∧ ((MIGRATIONS.take i).getLast? = none ↔ i = 0) := by decide
  obtain ⟨hlatest, hnone⟩ := hall count h.count_le
  have hmetadata := h.schemaMetadata
  unfold verify
  rcases hrow : file.schemaMetadata with _ | ⟨metadata, updated⟩
  · rw [hrow] at hmetadata
    have hzero : count = 0 := hnone.mp (Option.map_eq_none_iff.mp hmetadata.symm)
    rw [hzero]
    exact ⟨fun herror => absurd herror (by simp), fun hlength => absurd hlength (by decide)⟩
  · rw [hrow] at hmetadata
    have hsame : lastVersion (MIGRATIONS.take count) = metadata := by
      rw [lastVersion, ← hmetadata]
      rfl
    rw [hsame] at hlatest
    rw [← hlatest]
    show (if file.userVersion ≠ _ ∨ _ then _ else _) = _ ↔ _
    rw [h.userVersion, hsame]
    by_cases hversion : metadata = LATEST_SCHEMA_VERSION
    · simp [hversion]
    · simp [hversion]

end Rewind

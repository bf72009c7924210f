import PdnStore.Store.FsStore

/-!
# Migrating a redb 2.x database (store/fs/migrate_redb_v2_tuples.rs)

A database of the old format is copied table by table into a new file, which then takes the place of the old
one. Only what `list_tables` names is copied, and that is the ordinary tables: a multimap table is named by
`list_multimap_tables`, which is not asked. So the copy of `sync-peers-1` is never made
(`migration_keeps_rows_iff`).

| here | there |
| --- | --- |
| `Table`        | a table of the file, if it was ever created; the rows of a multimap are its pairs, key by key |
| `listTables`   | `list_tables` of redb: the names of the ordinary tables that exist |
| `run`          | `run` (`:97`); the `Legacy` types only differ in how a row is stored |
-/

namespace PdnStore.Fs

open Sync

namespace MigrateRedb

variable {K V : Type} [LinearOrder K]

/-- A table of a database file: `none` if it does not exist. -/
abbrev Table (K V : Type) [LinearOrder K] := Option (SortedMap K V)

/-- The rows of a table; one that does not exist has none. -/
def rows (t : Table K V) : List (K × V) :=
  match t with
  | some m => m.toList
  | none => []

/-- The tables of a database file (migrate_redb_v2_tuples.rs:36-62). -/
structure Database where
  authors : Table AuthorId (ByteArrayN 32)
  namespacesV1 : Table NamespaceId NamespaceSecret
  namespaces : Table NamespaceId (Byte × ByteArrayN 32)
  downloadPolicy : Table NamespaceId Bytes
  /-- the multimap table -/
  namespacePeers : Table (NamespaceId ×ₗ (U64 ×ₗ PeerIdBytes)) Unit
  records : Table RecordsId RecordsValue
  latestPerAuthor : Table (NamespaceId ×ₗ AuthorId) (U64 × Bytes)
  recordsByKey : Table RecordsByKeyId Unit

/-- What lies at the path of the database and next to it. -/
structure Files where
  source : Database
  /-- `.backup-redb-v2-tuples` -/
  backup : Option Database

/-- The ordinary tables that exist. -/
def Database.listTables (db : Database) : List String :=
  ([("authors-1", db.authors.isSome), ("namespaces-1", db.namespacesV1.isSome),
    ("namespaces-2", db.namespaces.isSome), ("download-policy-1", db.downloadPolicy.isSome),
    ("records-1", db.records.isSome), ("latest-by-author-1", db.latestPerAuthor.isSome),
    ("records-by-key-1", db.recordsByKey.isSome)].filter (·.2)).map (·.1)

/-- `migrate_table!` (migrate_redb_v2_tuples.rs:65): insert row by row into a new table. -/
def migrateTable (existing : List String) (name : String) (old : Table K V) : Table K V :=
  if name ∈ existing then old.map fun t => (∅ : SortedMap K V).insertAll t.toList else none

/-- `migrate_multimap_table!` (migrate_redb_v2_tuples.rs:78): the same test, pair by pair. -/
def migrateMultimapTable [LinearOrder V] (existing : List String) (name : String) (old : Table (K ×ₗ V) Unit) :
    Table (K ×ₗ V) Unit := migrateTable existing name old

/-- `run` (migrate_redb_v2_tuples.rs:95). -/
def run (source : Database) : Files :=
  let existing := source.listTables
  let target : Database := {
    authors := migrateTable existing "authors-1" source.authors
    namespacesV1 := migrateTable existing "namespaces-1" source.namespacesV1
    namespaces := migrateTable existing "namespaces-2" source.namespaces
    downloadPolicy := migrateTable existing "download-policy-1" source.downloadPolicy
    namespacePeers := migrateMultimapTable existing "sync-peers-1" source.namespacePeers
    records := migrateTable existing "records-1" source.records
    latestPerAuthor := migrateTable existing "latest-by-author-1" source.latestPerAuthor
    recordsByKey := migrateTable existing "records-by-key-1" source.recordsByKey }
  ⟨target, some source⟩

/-- The same rows in every table. -/
structure SameRows (db db' : Database) : Prop where
  authors : rows db'.authors = rows db.authors
  namespacesV1 : rows db'.namespacesV1 = rows db.namespacesV1
  namespaces : rows db'.namespaces = rows db.namespaces
  downloadPolicy : rows db'.downloadPolicy = rows db.downloadPolicy
  namespacePeers : rows db'.namespacePeers = rows db.namespacePeers
  records : rows db'.records = rows db.records
  latestPerAuthor : rows db'.latestPerAuthor = rows db.latestPerAuthor
  recordsByKey : rows db'.recordsByKey = rows db.recordsByKey

variable {existing : List String} {name : String} {old : Table K V}

/-- A table that is listed when it exists is copied. -/
theorem migrateTable_of_listed (h : name ∈ existing ↔ old.isSome) : migrateTable existing name old = old := by
  unfold migrateTable
  cases old with
  | none => simp
  | some t => rw [if_pos (h.2 rfl), Option.map_some, SortedMap.insertAll_toList]

/-- One that is not listed is not. -/
theorem migrateTable_of_not_listed (h : name ∉ existing) : migrateTable existing name old = none := if_neg h

/-- **When the migration loses nothing** (migrate_redb_v2_tuples.rs:97): if there are no sync peers. -/
theorem migration_keeps_rows_iff (old : Database) :
    SameRows old (run old).source ↔ rows old.namespacePeers = [] := by
  have hpeers : (run old).source.namespacePeers = none :=
    migrateTable_of_not_listed (by simp [Database.listTables])
  constructor
  · intro h
    rw [← h.namespacePeers, hpeers]
    rfl
  · intro h
    refine ⟨?_, ?_, ?_, ?_, by rw [hpeers, h]; rfl, ?_, ?_, ?_⟩
    all_goals exact congrArg rows (migrateTable_of_listed (by simp [Database.listTables]))

/-- One peer of one namespace, and nothing else: the migrated database is empty. -/
theorem migration_loses_sync_peers :
    let peers : SortedMap (NamespaceId ×ₗ (U64 ×ₗ PeerIdBytes)) Unit :=
      (∅ : SortedMap _ Unit).insert (toLex (zeros32, toLex (1, zeros32))) ()
    let old : Database := ⟨none, none, none, none, some peers, none, none, none⟩
    rows old.namespacePeers = [(toLex (zeros32, toLex (1, zeros32)), ())] ∧
      rows (run old).source.namespacePeers = [] ∧ ¬ SameRows old (run old).source := by
  intro peers old
  have hold : rows old.namespacePeers = [(toLex (zeros32, toLex (1, zeros32)), ())] := rfl
  have hnew : rows (run old).source.namespacePeers = [] := rfl
  refine ⟨hold, hnew, fun h => ?_⟩
  have hsame := h.namespacePeers
  rw [hold, hnew] at hsame
  cases hsame

end MigrateRedb

end PdnStore.Fs

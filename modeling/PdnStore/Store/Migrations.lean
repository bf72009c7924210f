import PdnStore.Store.MigrateRedb
import PdnStore.Store.Index
import PdnStore.Store.Latest

/-!
# The schema migrations of a store (store/fs/migrations.rs)

Opening a store runs four migrations in order, each in a transaction of its own which is committed only when
the migration did something. A process that dies in between leaves a file on which the first few have run,
and the next start begins with the first again. Each migration finds nothing to do on a file it has already
changed, and no later one undoes its work; so the file ends up the same (`run_migrations_restartable`).

| here | there |
| --- | --- |
| `Database`       | the tables as the transaction sees them; `namespacesV1` is `NAMESPACES_TABLE_V1` |
| `openTable`      | `open_table` of a write transaction: the table is created where it does not exist |
| `migration001`   | `migration_001_populate_latest_table` (`:45`), `heads` listed in key order |
| `runMigration`   | `run_migration` (`:21`): a transaction that is not committed leaves no trace |
| `runMigrations`  | `run_migrations` (`:13`) |
| `interrupted k`  | a start that ended after the transactions of the first `k` migrations |
-/

namespace PdnStore.Fs

open Sync

namespace MigrateRedb

section Tables

variable {K V : Type} [LinearOrder K] {t : Table K V}

def openTable (t : Table K V) : SortedMap K V := t.getD ∅

@[simp] theorem toList_openTable (t : Table K V) : (openTable t).toList = rows t := by
  cases t <;> rfl

@[simp] theorem openTable_some (m : SortedMap K V) : openTable (some m) = m := rfl

@[simp] theorem rows_some (m : SortedMap K V) : rows (some m) = m.toList := rfl

/-- A table without rows opens empty. -/
theorem openTable_eq_empty (h : rows t = []) : openTable t = ∅ :=
  SortedMap.ext_rows fun r => by simp [h, show (∅ : SortedMap K V).toList = [] from rfl]

/-- A table with rows exists. -/
theorem some_openTable (h : rows t ≠ []) : some (openTable t) = t := by
  cases t with
  | none => exact absurd rfl h
  | some m => rfl

end Tables

/-- The tables of the entries, as a store opens them. -/
def Database.tables (db : Database) : Tables :=
  ⟨openTable db.records, openTable db.recordsByKey, openTable db.latestPerAuthor⟩

end MigrateRedb

namespace Migrations

open MigrateRedb

/-! ## The migrations -/

/-- `MigrateOutcome` (migrations.rs:40). -/
inductive MigrateOutcome where
  | skip
  | execute (len : Nat)
deriving DecidableEq

/-- `migration_001_populate_latest_table` (migrations.rs:46). -/
def migration001 (tx : Database) : Database × MigrateOutcome :=
  let latestTable := openTable tx.latestPerAuthor
  let recordsTable := openTable tx.records
  let tx := { tx with latestPerAuthor := some latestTable, records := some recordsTable }
  if !latestTable.toList.isEmpty || recordsTable.toList.isEmpty then (tx, .skip)
  else
    let heads := recordsTable.toList.foldl raiseHead ∅
    ({ tx with latestPerAuthor := some (latestTable.insertAll heads.toList) }, .execute heads.toList.length)

/-- The v2 row of a v1 namespace (migrations.rs:92-94). -/
def v2Row [Ed25519] (secret : NamespaceSecret) : NamespaceId × (Byte × ByteArrayN 32) :=
  let capability := Capability.write secret
  (capability.id, capability.raw)

/-- `migration_002_namespaces_populate_v2` (migrations.rs:78). -/
def migration002 [Ed25519] (tx : Database) : Database × MigrateOutcome :=
  if "namespaces-1" ∈ tx.listTables then
    let namespacesV1 := openTable tx.namespacesV1
    let namespacesV2 := openTable tx.namespaces
    ({ tx with
      namespacesV1 := some namespacesV1
      namespaces := some (namespacesV2.insertAll (namespacesV1.toList.map fun r => v2Row r.2)) },
      .execute namespacesV1.toList.length)
  else (tx, .skip)

/-- `migration_003_namespaces_delete_v1` (migrations.rs:109). -/
def migration003 (tx : Database) : Database × MigrateOutcome :=
  if "namespaces-1" ∈ tx.listTables then ({ tx with namespacesV1 := none }, .execute 1)
  else (tx, .skip)

/-- `migration_004_populate_by_key_index` (migrations.rs:121). -/
def migration004 (tx : Database) : Database × MigrateOutcome :=
  let byKeyTable := openTable tx.recordsByKey
  let recordsTable := openTable tx.records
  let tx := { tx with recordsByKey := some byKeyTable, records := some recordsTable }
  if !byKeyTable.toList.isEmpty then (tx, .skip)
  else
    let byKeyTable := recordsTable.toList.foldl
      (fun index r => index.insert ⟨r.1.ns, r.1.key, r.1.author⟩ ()) byKeyTable
    ({ tx with recordsByKey := some byKeyTable }, .execute recordsTable.toList.length)

/-- `run_migration` (migrations.rs:22). -/
def runMigration (db : Database) (f : Database → Database × MigrateOutcome) : Database :=
  match f db with
  | (tx, .execute _) => tx
  | (_, .skip) => db

def migrations [Ed25519] : List (Database → Database × MigrateOutcome) :=
  [migration001, migration002, migration003, migration004]

/-- `run_migrations` (migrations.rs:14). -/
def runMigrations [Ed25519] (db : Database) : Database := migrations.foldl runMigration db

def interrupted [Ed25519] (k : Nat) (db : Database) : Database := (migrations.take k).foldl runMigration db

/-! ## What each migration does to the file -/

theorem mem_listTables_namespacesV1 (db : Database) : "namespaces-1" ∈ db.listTables ↔ db.namespacesV1.isSome := by
  simp [Database.listTables]

/-- The latest record of each author of a namespace. -/
def headsOf (records : List (RecordsId × RecordsValue)) : SortedMap (NamespaceId ×ₗ AuthorId) (U64 × Bytes) :=
  records.foldl raiseHead ∅

/-- The keys of the records, the author last. -/
def transposed (records : List (RecordsId × RecordsValue)) : SortedMap RecordsByKeyId Unit :=
  records.foldl (fun index r => index.insert r.1.byKey ()) ∅

/-- `latest_per_author` after `migration_001`. -/
def latestAfter (db : Database) : Table (NamespaceId ×ₗ AuthorId) (U64 × Bytes) :=
  if rows db.latestPerAuthor = [] ∧ rows db.records ≠ [] then some (headsOf (rows db.records))
  else db.latestPerAuthor

/-- `namespaces` after `migration_002`. -/
def namespacesAfter [Ed25519] (db : Database) : Table NamespaceId (Byte × ByteArrayN 32) :=
  match db.namespacesV1 with
  | some namespacesV1 => some ((openTable db.namespaces).insertAll (namespacesV1.toList.map fun r => v2Row r.2))
  | none => db.namespaces

/-- `records` after `migration_004`, which may create it. -/
def recordsAfter (db : Database) : Table RecordsId RecordsValue :=
  if rows db.recordsByKey = [] then some (openTable db.records) else db.records

/-- `records_by_key` after `migration_004`. -/
def byKeyAfter (db : Database) : Table RecordsByKeyId Unit :=
  if rows db.recordsByKey = [] then some (transposed (rows db.records)) else db.recordsByKey

theorem runMigration_001 (db : Database) :
    runMigration db migration001 = { db with latestPerAuthor := latestAfter db } := by
  simp only [runMigration, migration001, latestAfter, toList_openTable]
  by_cases hlatest : rows db.latestPerAuthor = []
  · by_cases hrecords : rows db.records = []
    · simp [hlatest, hrecords]
    · have hempty : openTable db.latestPerAuthor = ∅ := openTable_eq_empty hlatest
      simp [hlatest, hrecords, hempty, SortedMap.insertAll_toList, some_openTable hrecords, headsOf]
  · simp [hlatest]

/-- The heads may come out of their hash map in any order. -/
theorem runMigration_001_of_perm {db : Database} {listed : List ((NamespaceId ×ₗ AuthorId) × (U64 × Bytes))}
    (hlatest : rows db.latestPerAuthor = []) (hrecords : rows db.records ≠ [])
    (h : listed.Perm (headsOf (rows db.records)).toList) : runMigration db migration001 =
      { db with latestPerAuthor := some ((openTable db.latestPerAuthor).insertAll listed) } := by
  rw [runMigration_001, SortedMap.insertAll_of_perm _ h, openTable_eq_empty hlatest, SortedMap.insertAll_toList,
    latestAfter, if_pos ⟨hlatest, hrecords⟩]

theorem runMigration_002 [Ed25519] (db : Database) :
    runMigration db migration002 = { db with namespaces := namespacesAfter db } := by
  obtain ⟨_, namespacesV1, _, _, _, _, _, _⟩ := db
  simp only [runMigration, migration002, namespacesAfter, mem_listTables_namespacesV1]
  cases namespacesV1 with
  | none => rfl
  | some namespacesV1 => rfl

theorem runMigration_003 (db : Database) : runMigration db migration003 = { db with namespacesV1 := none } := by
  obtain ⟨_, namespacesV1, _, _, _, _, _, _⟩ := db
  simp only [runMigration, migration003, mem_listTables_namespacesV1]
  cases namespacesV1 with
  | none => rfl
  | some namespacesV1 => rfl

theorem runMigration_004 (db : Database) :
    runMigration db migration004 = { db with records := recordsAfter db, recordsByKey := byKeyAfter db } := by
  simp only [runMigration, migration004, recordsAfter, byKeyAfter, toList_openTable]
  by_cases hindex : rows db.recordsByKey = []
  · have hempty : openTable db.recordsByKey = ∅ := openTable_eq_empty hindex
    simp [hindex, hempty, transposed, RecordsId.byKey]
  · simp [hindex]

/-! ## Starting again -/

@[simp] theorem rows_recordsAfter (db : Database) : rows (recordsAfter db) = rows db.records := by
  unfold recordsAfter
  split <;> simp

/-- Every record has its head. -/
theorem headsOf_reaches {records : List (RecordsId × RecordsValue)} {r : RecordsId × RecordsValue}
    (hr : r ∈ records) : HeadReaches (headsOf records) r.1.ns r.1.author r.2.timestamp := headReaches_foldl hr

/-- Where there are records, there are heads afterwards. -/
theorem rows_latestAfter_ne_nil (db : Database) (h : rows db.records ≠ []) : rows (latestAfter db) ≠ [] := by
  unfold latestAfter
  split
  · obtain ⟨r, hr⟩ := List.exists_mem_of_ne_nil _ h
    obtain ⟨head, hget, -⟩ := headsOf_reaches hr
    exact List.ne_nil_of_mem (SortedMap.get?_eq_some.1 hget)
  · rename_i hskip
    exact fun hlatest => hskip ⟨hlatest, h⟩

/-- A file on which a migration has run gives it nothing to do. -/
theorem runMigration_again [Ed25519] :
    ∀ f ∈ migrations, ∀ db, runMigration (runMigration db f) f = runMigration db f := by
  simp only [migrations, List.forall_mem_cons, List.not_mem_nil, false_imp_iff, implies_true, and_true]
  refine ⟨fun db => ?_, fun db => ?_, fun db => ?_, fun db => ?_⟩
  · rw [runMigration_001, runMigration_001]
    have hskip : latestAfter { db with latestPerAuthor := latestAfter db } = latestAfter db :=
      if_neg fun h => rows_latestAfter_ne_nil db h.2 h.1
    rw [hskip]
  · -- the rows of the v1 table are inserted a second time
    rw [runMigration_002, runMigration_002]
    have hsame : namespacesAfter { db with namespaces := namespacesAfter db } = namespacesAfter db := by
      unfold namespacesAfter
      cases db.namespacesV1 with
      | none => rfl
      | some namespacesV1 => simp
    rw [hsame]
  · rw [runMigration_003, runMigration_003]
  · rw [runMigration_004, runMigration_004]
    -- the migration runs once more when there are no records
    have hsame :
        recordsAfter { db with records := recordsAfter db, recordsByKey := byKeyAfter db } = recordsAfter db ∧
        byKeyAfter { db with records := recordsAfter db, recordsByKey := byKeyAfter db } = byKeyAfter db := by
      by_cases hindex : rows db.recordsByKey = []
      · simp [recordsAfter, byKeyAfter, hindex]
      · simp [recordsAfter, byKeyAfter, hindex]
    rw [hsame.1, hsame.2]

/-- Of two migrations that do not read what the other writes, the second keeps what the first has done. -/
theorem keeps_of_comm {f g : Database → Database × MigrateOutcome}
    (h : ∀ db, runMigration (runMigration db g) f = runMigration (runMigration db f) g) (db : Database)
    (hf : runMigration db f = db) : runMigration (runMigration db g) f = runMigration db g := by
  rw [h, hf]

theorem migrations_restartable [Ed25519] : Restartable runMigration migrations := by
  refine ⟨runMigration_again, ?_⟩
  simp only [migrations, List.pairwise_cons, List.forall_mem_cons, List.not_mem_nil, false_imp_iff, implies_true,
    and_true, List.Pairwise.nil]
  refine ⟨⟨keeps_of_comm fun db => ?_, keeps_of_comm fun db => ?_, keeps_of_comm fun db => ?_⟩,
    ⟨fun db _ => ?_, keeps_of_comm fun db => ?_⟩, keeps_of_comm fun db => ?_⟩
  · rw [runMigration_002, runMigration_001, runMigration_001, runMigration_002]
    rfl
  · rw [runMigration_003, runMigration_001, runMigration_001, runMigration_003]
    rfl
  · rw [runMigration_004, runMigration_001, runMigration_001, runMigration_004]
    have hlatest :
        latestAfter { db with records := recordsAfter db, recordsByKey := byKeyAfter db } = latestAfter db := by
      simp [latestAfter]
    rw [hlatest]
    rfl
  · -- a file without the v1 table has nothing to copy
    rw [runMigration_003, runMigration_002]
    rfl
  · rw [runMigration_004, runMigration_002, runMigration_002, runMigration_004]
    rfl
  · rw [runMigration_004, runMigration_003, runMigration_003, runMigration_004]
    rfl

/-! ## What the file holds afterwards -/

/-- The file after all four. -/
theorem runMigrations_eq [Ed25519] (db : Database) : runMigrations db =
    { db with
      latestPerAuthor := latestAfter db
      namespaces := namespacesAfter db
      namespacesV1 := none
      records := recordsAfter db
      recordsByKey := byKeyAfter db } := by
  show runMigration (runMigration (runMigration (runMigration db migration001) migration002) migration003)
    migration004 = _
  rw [runMigration_001, runMigration_002, runMigration_003, runMigration_004]
  rfl

section Heads

variable {records : List (RecordsId × RecordsValue)} {heads : SortedMap (NamespaceId ×ₗ AuthorId) (U64 × Bytes)}
  {row : (NamespaceId ×ₗ AuthorId) × (U64 × Bytes)}

theorem raiseHead_cases (heads : SortedMap (NamespaceId ×ₗ AuthorId) (U64 × Bytes))
    (r : RecordsId × RecordsValue) : raiseHead heads r = heads ∨
      raiseHead heads r = heads.insert (toLex (r.1.ns, r.1.author)) (r.2.timestamp, r.1.key) := by
  simp only [raiseHead]
  split
  · split
    · exact .inr rfl
    · exact .inl rfl
  · exact .inr rfl

/-- A head is a record's. -/
theorem mem_foldl_raiseHead (h : row ∈ (records.foldl raiseHead heads).toList) :
    row ∈ heads.toList ∨ ∃ r ∈ records, row = (toLex (r.1.ns, r.1.author), (r.2.timestamp, r.1.key)) := by
  induction records generalizing heads with
  | nil => exact .inl h
  | cons q records ih =>
    rcases ih h with h | ⟨r, hr, hrow⟩
    · rcases raiseHead_cases heads q with heq | heq
      · rw [heq] at h
        exact .inl h
      · rw [heq, SortedMap.mem_insert] at h
        rcases h with rfl | ⟨h, -⟩
        · exact .inr ⟨q, .head _, rfl⟩
        · exact .inl h
    · exact .inr ⟨r, .tail _ hr, hrow⟩

/-- The head of an author: the timestamp of one of its records which no other exceeds, and the key of that
record. -/
def IsHead (records : List (RecordsId × RecordsValue)) (ns : NamespaceId) (author : AuthorId)
    (head : U64 × Bytes) : Prop :=
  (∃ r ∈ records, r.1 = ⟨ns, author, head.2⟩ ∧ r.2.timestamp = head.1) ∧
    ∀ r ∈ records, r.1.ns = ns → r.1.author = author → r.2.timestamp ≤ head.1

theorem isHead_of_mem_headsOf {ns : NamespaceId} {author : AuthorId} {head : U64 × Bytes}
    (h : (toLex (ns, author), head) ∈ (headsOf records).toList) : IsHead records ns author head := by
  constructor
  · obtain ⟨r, hr, hrow⟩ := (mem_foldl_raiseHead h).resolve_left List.not_mem_nil
    obtain ⟨⟨rfl, rfl⟩, rfl⟩ : (ns = r.1.ns ∧ author = r.1.author) ∧ head = (r.2.timestamp, r.1.key) := by
      simpa using hrow
    exact ⟨r, hr, rfl, rfl⟩
  · rintro r hr rfl rfl
    obtain ⟨head', hget, hle⟩ := headsOf_reaches hr
    rw [SortedMap.get?_eq_some.2 h] at hget
    cases hget
    exact hle

end Heads

/-- What the migrations make of a file without heads and without an index. -/
structure Migrated [Ed25519] (db db' : Database) : Prop where
  records : rows db'.records = rows db.records
  byKey : ∀ id, (id, ()) ∈ rows db'.recordsByKey ↔ ∃ r ∈ rows db.records, r.1.byKey = id
  isHead : ∀ ns author head, (toLex (ns, author), head) ∈ rows db'.latestPerAuthor →
    IsHead (rows db.records) ns author head
  hasHead : ∀ r ∈ rows db.records, ∃ head, (toLex (r.1.ns, r.1.author), head) ∈ rows db'.latestPerAuthor
  /-- with the secret of its row, or of a later row whose secret has the same public key -/
  writes : ∀ r ∈ rows db.namespacesV1, ∃ r' ∈ rows db.namespacesV1,
    Ed25519.publicKey r'.2 = Ed25519.publicKey r.2 ∧
      (Ed25519.publicKey r.2, (Capability.write r'.2).raw) ∈ rows db'.namespaces
  /-- a namespace that is not in the v1 table keeps its capability -/
  keeps : ∀ ns raw, (∀ r ∈ rows db.namespacesV1, Ed25519.publicKey r.2 ≠ ns) →
    ((ns, raw) ∈ rows db'.namespaces ↔ (ns, raw) ∈ rows db.namespaces)
  v1 : db'.namespacesV1 = none
  frame : db'.authors = db.authors ∧ db'.downloadPolicy = db.downloadPolicy ∧
    db'.namespacePeers = db.namespacePeers

/-- The v1 namespaces are there as v2 rows, and the others as they were. -/
theorem mem_namespacesAfter [Ed25519] (db : Database) :
    (∀ r ∈ rows db.namespacesV1, ∃ r' ∈ rows db.namespacesV1, Ed25519.publicKey r'.2 = Ed25519.publicKey r.2 ∧
      (Ed25519.publicKey r.2, (Capability.write r'.2).raw) ∈ rows (namespacesAfter db)) ∧
    ∀ ns raw, (∀ r ∈ rows db.namespacesV1, Ed25519.publicKey r.2 ≠ ns) →
      ((ns, raw) ∈ rows (namespacesAfter db) ↔ (ns, raw) ∈ rows db.namespaces) := by
  unfold namespacesAfter
  cases hv1 : db.namespacesV1 with
  | none => exact ⟨fun r hr => absurd hr List.not_mem_nil, fun _ _ _ => Iff.rfl⟩
  | some namespacesV1 =>
    constructor
    · intro r hr
      have hkey : Ed25519.publicKey r.2 ∈ ((namespacesV1.toList.map fun r => v2Row r.2).map Prod.fst) :=
        List.mem_map.2 ⟨v2Row r.2, List.mem_map.2 ⟨r, hr, rfl⟩, rfl⟩
      obtain ⟨raw, hraw, hget⟩ := SortedMap.get?_insertAll_of_mem hkey
      obtain ⟨r', hr', heq⟩ := List.mem_map.1 hraw
      obtain ⟨hid, rfl⟩ := Prod.mk.inj heq
      exact ⟨r', hr', hid, SortedMap.get?_eq_some.1 (hget _)⟩
    · intro ns raw hne
      have hkey : ns ∉ ((namespacesV1.toList.map fun r => v2Row r.2).map Prod.fst) := by
        simp only [List.map_map, List.mem_map, not_exists, not_and]
        exact hne
      rw [rows_some, ← toList_openTable db.namespaces, ← SortedMap.get?_eq_some, ← SortedMap.get?_eq_some,
        SortedMap.get?_insertAll_of_not_mem hkey]

theorem migrated_runMigrations [Ed25519] (db : Database) (hlatest : rows db.latestPerAuthor = [])
    (hindex : rows db.recordsByKey = []) : Migrated db (runMigrations db) := by
  rw [runMigrations_eq]
  obtain ⟨hwrites, hkeeps⟩ := mem_namespacesAfter db
  refine ⟨rows_recordsAfter db, ?_, ?_, ?_, hwrites, hkeeps, rfl, rfl, rfl, rfl⟩
  · intro id
    show (id, ()) ∈ rows (byKeyAfter db) ↔ _
    rw [byKeyAfter, if_pos hindex, rows_some, transposed, mem_foldl_index]
    exact or_iff_right List.not_mem_nil
  · intro ns author head h
    by_cases hrecords : rows db.records = []
    · change _ ∈ rows (latestAfter db) at h
      rw [latestAfter, if_neg (fun hc => hc.2 hrecords), hlatest] at h
      cases h
    · change _ ∈ rows (latestAfter db) at h
      rw [latestAfter, if_pos ⟨hlatest, hrecords⟩] at h
      exact isHead_of_mem_headsOf h
  · intro r hr
    obtain ⟨head, hget, -⟩ := headsOf_reaches hr
    refine ⟨head, ?_⟩
    show _ ∈ rows (latestAfter db)
    rw [latestAfter, if_pos ⟨hlatest, List.ne_nil_of_mem hr⟩]
    exact SortedMap.get?_eq_some.1 hget

/-- **The migrations may be cut short after any of their transactions and started again from the first, any
number of times**: the file ends up as after one uninterrupted run, another run changes nothing, and a file
that had no heads and no index has those of its records, its records, and its v1 namespaces as capabilities
to write. -/
theorem run_migrations_restartable [Ed25519] (db : Database) :
    (∀ stops : List Nat, runMigrations (stops.foldl (fun db k => interrupted k db) db) = runMigrations db) ∧
    runMigrations (runMigrations db) = runMigrations db ∧
    (rows db.latestPerAuthor = [] → rows db.recordsByKey = [] → Migrated db (runMigrations db)) := by
  refine ⟨fun stops => ?_, ?_, fun hlatest hindex => migrated_runMigrations db hlatest hindex⟩
  · exact migrations_restartable.restarts stops db
  · exact migrations_restartable.foldl_foldl db

section

/-- A scheme in which the public key is the secret one. -/
local instance migrationKeys : Ed25519 := ⟨id⟩

/-- Two records of one author, the older under the later key, and a v1 namespace; no other tables. -/
def sampleV1 : Database :=
  ⟨none, some ((∅ : SortedMap _ _).insert zeros32 zeros32), none, none, none,
    some ((∅ : SortedMap _ _).insertAll
      [row (sampleEntry [1] ⟨7, zeros32, 5⟩), row (sampleEntry [2] ⟨7, zeros32, 3⟩)]), none, none⟩

/-- Dying after the copy of the v1 namespaces, then after the deletion of their table. -/
theorem run_migrations_restartable_sample :
    runMigrations ([2, 3].foldl (fun db k => interrupted k db) sampleV1) = runMigrations sampleV1 ∧
    Migrated sampleV1 (runMigrations sampleV1) ∧
    rows (runMigrations sampleV1).latestPerAuthor = [(toLex (zeros32, zeros32), (5, [1]))] :=
  have hsample := run_migrations_restartable sampleV1
  ⟨hsample.1 [2, 3], hsample.2.2 rfl rfl, by decide +kernel⟩

end

/-! ## The store that is opened on it -/

theorem tables_migrateLatest (s : FsStore) : s.migrateLatest.tables =
    { s.tables with latestPerAuthor :=
      if s.tables.latestPerAuthor.toList = [] ∧ s.tables.records.toList ≠ [] then headsOf s.tables.records.toList
      else s.tables.latestPerAuthor } := by
  unfold FsStore.migrateLatest
  by_cases hlatest : s.tables.latestPerAuthor.toList = []
  · by_cases hrecords : s.tables.records.toList = []
    · simp [hlatest, hrecords]
    · simp only [hlatest, hrecords, List.isEmpty_nil, List.isEmpty_iff, Bool.not_true, Bool.false_or, if_false,
        ne_eq, not_false_iff, and_self, if_true]
      rfl
  · simp [hlatest]

theorem tables_migrateByKey (s : FsStore) : s.migrateByKey.tables =
    { s.tables with recordsByKey :=
      if s.tables.recordsByKey.toList = [] then transposed s.tables.records.toList
      else s.tables.recordsByKey } := by
  unfold FsStore.migrateByKey
  by_cases hindex : s.tables.recordsByKey.toList = []
  · have hempty : s.tables.recordsByKey = ∅ := SortedMap.ext_rows fun r => by rw [hindex]; rfl
    simp only [hempty]
    rfl
  · simp [hindex]

/-- The entry tables are those of a store that takes the two migrations as writes. -/
theorem tables_runMigrations [Ed25519] {db : Database} {s : FsStore} (h : s.tables = db.tables) :
    (runMigrations db).tables = s.migrateLatest.migrateByKey.tables := by
  rw [runMigrations_eq, tables_migrateByKey, tables_migrateLatest, h]
  simp only [Database.tables, toList_openTable, Tables.mk.injEq]
  refine ⟨?_, ?_, ?_⟩
  · unfold recordsAfter
    split <;> rfl
  · unfold byKeyAfter
    split <;> rfl
  · unfold latestAfter
    split <;> rfl

/-- **A store on a file that had no heads and no index opens with both**: no head is behind its records, and
every record has its index row. -/
theorem opened_store_keeps_up [Ed25519] {db : Database} {s : FsStore} (h : s.tables = (runMigrations db).tables)
    (hlatest : rows db.latestPerAuthor = []) (hindex : rows db.recordsByKey = []) :
    s.HeadsCover ∧ s.tables.IndexComplete := by
  have hmigrated := migrated_runMigrations db hlatest hindex
  have hrecords : s.tables.records.toList = rows db.records := by
    rw [h, ← hmigrated.records]
    exact toList_openTable _
  constructor
  · intro r hr
    rw [hrecords] at hr
    obtain ⟨head, hhead⟩ := hmigrated.hasHead r hr
    refine ⟨head, ?_, (hmigrated.isHead _ _ _ hhead).2 r hr rfl rfl⟩
    rw [SortedMap.get?_eq_some, h]
    exact (toList_openTable (runMigrations db).latestPerAuthor).symm ▸ hhead
  · intro r hr
    rw [hrecords] at hr
    rw [h]
    exact (toList_openTable (runMigrations db).recordsByKey).symm ▸ (hmigrated.byKey r.1.byKey).2 ⟨r, hr, rfl⟩

end Migrations

end PdnStore.Fs

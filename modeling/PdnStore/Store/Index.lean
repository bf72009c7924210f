import PdnStore.Store.FsStore

/-!
# The by-key index is complete, and its stale rows do not show (store/fs.rs:867-1001)

A put writes a record and its index row; retracting an entry and removing a replica take both out; deleting
by prefix takes the records out and leaves their index rows. So the index holds a row of every record, and
more. A scan looks every row up in the records, which hides the stale ones, and brings a row back to life
when its record is put again. What a scan of a namespace yields is therefore a function of the records
alone (`by_key_index_serves_the_records`).
-/

namespace PdnStore.Fs

open Ranger Sync

/-! ## The property -/

namespace Tables

/-- Every record has its index row. -/
def IndexComplete (t : Tables) : Prop := ∀ r ∈ t.records.toList, (r.1.byKey, ()) ∈ t.recordsByKey.toList

/-- What `calls` calls of an accept-all scan of the namespace yield. -/
def scanNamespace (t : Tables) (ns : NamespaceId) (direction : SortDirection) (calls : Nat) : List SignedEntry :=
  (RecordsByKeyRange.withBounds t (.namespace ns)).collect direction (fun _ => true) calls

/-- By key, then by author. -/
def KeyAuthorLt (a b : SignedEntry) : Prop :=
  a.id.key < b.id.key ∨ (a.id.key = b.id.key ∧ a.id.author < b.id.author)

/-- The scan yields the records of the namespace, each once, in `(key, author)` order; and backwards in the
reverse order. -/
structure ScansNamespace (t : Tables) (ns : NamespaceId) (calls : Nat) : Prop where
  yields : ∀ e, e ∈ t.scanNamespace ns .asc calls ↔ e ∈ t.entries ∧ e.id.namespace = ns
  once : (t.scanNamespace ns .asc calls).Nodup
  ordered : (t.scanNamespace ns .asc calls).Pairwise KeyAuthorLt
  reversed : t.scanNamespace ns .desc calls = (t.scanNamespace ns .asc calls).reverse

/-! ## A scan over a complete index -/

variable {t : Tables} {ns : NamespaceId} {calls : Nat}

/-- The index rows of a namespace. -/
def indexRows (t : Tables) (ns : NamespaceId) : List RecordsByKeyId :=
  (t.recordsByKey.toList.map Prod.fst).filter (ByKeyBounds.namespace ns).contains

/-- The live rows, in the order of the direction. -/
theorem scanNamespace_eq (direction : SortDirection) (h : t.recordsByKey.toList.length < calls) :
    t.scanNamespace ns direction calls =
      direction.order ((t.indexRows ns).filterMap (RecordsByKeyRange.lookup t.records)) := by
  have hrows : (t.indexRows ns).length < calls := by
    have hle := List.length_filter_le (ByKeyBounds.namespace ns).contains (t.recordsByKey.toList.map Prod.fst)
    rw [List.length_map] at hle
    exact hle.trans_lt h
  unfold scanNamespace
  rw [RecordsByKeyRange.collect_eq_drain]
  show drain direction (RecordsByKeyRange.lookup t.records) calls (t.indexRows ns) = _
  rw [drain_eq hrows, direction.filterMap_order]

theorem sorted_indexRows (t : Tables) (ns : NamespaceId) : (t.indexRows ns).Pairwise (· < ·) :=
  List.Pairwise.filter _ (List.pairwise_map.2 t.recordsByKey.sorted)

/-- A row is live when its record is there. -/
theorem lookup_eq_some {id : RecordsByKeyId} {e : SignedEntry} :
    RecordsByKeyRange.lookup t.records id = some e ↔ e ∈ t.entries ∧ id = (row e).1.byKey := by
  unfold RecordsByKeyRange.lookup
  rw [Option.map_eq_some_iff]
  constructor
  · rintro ⟨v, hv, rfl⟩
    rw [mem_entries, row_intoEntry]
    exact ⟨SortedMap.get?_eq_some.1 hv, rfl⟩
  · rintro ⟨he, rfl⟩
    exact ⟨(row e).2, SortedMap.get?_eq_some.2 (mem_entries.1 he), intoEntry_row e⟩

theorem mem_indexRows (h : t.IndexComplete) {e : SignedEntry} (he : e ∈ t.entries) :
    (row e).1.byKey ∈ t.indexRows ns ↔ e.id.namespace = ns := by
  have hrow := h (row e) (mem_entries.1 he)
  unfold indexRows
  rw [List.mem_filter, ByKeyBounds.contains_namespace]
  constructor
  · intro hmem
    exact hmem.2
  · intro hns
    exact ⟨List.mem_map.2 ⟨_, hrow, rfl⟩, hns⟩

theorem ns_of_mem_indexRows {id : RecordsByKeyId} (h : id ∈ t.indexRows ns) : id.ns = ns :=
  ByKeyBounds.contains_namespace.1 (List.mem_filter.1 h).2

/-- Two rows of one namespace are ordered by key and author. -/
theorem keyAuthorLt_of_lt {a b : SignedEntry} (hns : a.id.namespace = b.id.namespace)
    (h : (row a).1.byKey < (row b).1.byKey) : KeyAuthorLt a b := by
  rcases RecordsByKeyId.lt_iff.1 h with hlt | ⟨-, hlt⟩
  · exact absurd hns hlt.ne
  · exact hlt

/-- A complete index serves the records, whatever else it holds. -/
theorem IndexComplete.scansNamespace (h : t.IndexComplete) (ns : NamespaceId)
    (hcalls : t.recordsByKey.toList.length < calls) : t.ScansNamespace ns calls := by
  have hasc : t.scanNamespace ns .asc calls = _ := scanNamespace_eq .asc hcalls
  have hlt : (t.scanNamespace ns .asc calls).Pairwise KeyAuthorLt := by
    rw [hasc]
    refine List.pairwise_filterMap.2 ((sorted_indexRows t ns).imp_of_mem ?_)
    intro id id' hid hid' hlt e he e' he'
    obtain ⟨-, rfl⟩ := lookup_eq_some.1 he
    obtain ⟨-, rfl⟩ := lookup_eq_some.1 he'
    exact keyAuthorLt_of_lt ((ns_of_mem_indexRows hid).trans (ns_of_mem_indexRows hid').symm) hlt
  refine ⟨?_, ?_, hlt, ?_⟩
  · intro e
    rw [hasc]
    simp only [Direction.order, List.mem_filterMap, lookup_eq_some]
    constructor
    · rintro ⟨id, hid, he, rfl⟩
      exact ⟨he, ns_of_mem_indexRows hid⟩
    · rintro ⟨he, hns⟩
      exact ⟨_, (mem_indexRows h he).2 hns, he, rfl⟩
  · refine hlt.imp ?_
    rintro a b hab rfl
    rcases hab with hkey | ⟨-, hauthor⟩
    · exact lt_irrefl _ hkey
    · exact lt_irrefl _ hauthor
  · rw [hasc, scanNamespace_eq .desc hcalls]
    rfl

end Tables

/-! ## The migration -/

section Migration

variable {index : SortedMap RecordsByKeyId Unit}

/-- The fold of `migration_004` (migrations.rs:128-133) keeps rows and adds one for each record. -/
theorem mem_foldl_index {id : RecordsByKeyId} (l : List (RecordsId × RecordsValue)) :
    (id, ()) ∈ (l.foldl (fun index r => index.insert r.1.byKey ()) index).toList ↔
      (id, ()) ∈ index.toList ∨ ∃ r ∈ l, r.1.byKey = id := by
  induction l generalizing index with
  | nil => simp
  | cons q l ih =>
    simp only [List.foldl_cons, ih, SortedMap.mem_insert_unit, List.mem_cons, exists_eq_or_imp]
    constructor
    · rintro ((rfl | h) | h)
      · exact .inr (.inl rfl)
      · exact .inl h
      · exact .inr (.inr h)
    · rintro (h | rfl | h)
      · exact .inl (.inr h)
      · exact .inl (.inl rfl)
      · exact .inr h

end Migration

namespace FsStore

variable {s : FsStore}

theorem indexComplete_migrateByKey (h : s.tables.recordsByKey = ∅ ∨ s.tables.IndexComplete) :
    s.migrateByKey.tables.IndexComplete := by
  unfold migrateByKey
  split
  · rename_i hcond
    rcases h with hnone | hcomplete
    · rw [hnone] at hcond
      cases hcond
    · exact hcomplete
  · intro r hr
    exact (mem_foldl_index s.tables.records.toList).2 (.inr ⟨r, hr, rfl⟩)

theorem migrateLatest_frame (s : FsStore) : s.migrateLatest.tables.records = s.tables.records ∧
    s.migrateLatest.tables.recordsByKey = s.tables.recordsByKey := by
  unfold migrateLatest
  split <;> exact ⟨rfl, rfl⟩

variable [Blake3] [Ed25519]

/-- Step: no write takes an index row out while its record stays. -/
theorem indexComplete_step (s : FsStore) (op : Op) (h : s.tables.IndexComplete) :
    (s.step op).tables.IndexComplete := by
  rcases s.step_tables op with hsame | hshrink | ⟨e, rfl, -, hins⟩ | rfl | rfl
  · rwa [hsame]
  · intro r hr
    exact hshrink.index r hr (h r (hshrink.records r hr))
  · intro r hr
    rw [hins.index, SortedMap.mem_insert_unit]
    rcases (hins.records r).1 hr with rfl | ⟨hold, -⟩
    · exact .inl rfl
    · exact .inr (h r hold)
  · show s.migrateLatest.tables.IndexComplete
    unfold Tables.IndexComplete
    rw [s.migrateLatest_frame.1, s.migrateLatest_frame.2]
    exact h
  · exact indexComplete_migrateByKey (.inr h)

/-- **In every reachable store the by-key index holds a row of every record, and a scan of a namespace
yields its records and nothing else**, each once and in order, in both directions, once it has been called
more often than the index has rows. The store starts out without index rows: new, or older than the index. -/
theorem by_key_index_serves_the_records (s₀ : FsStore) (hnone : s₀.tables.recordsByKey = ∅) (ops : List Op) :
    (s₀.migrateByKey.run ops).tables.IndexComplete ∧
    ∀ ns calls, (s₀.migrateByKey.run ops).tables.recordsByKey.toList.length < calls →
      (s₀.migrateByKey.run ops).tables.ScansNamespace ns calls := by
  have hcomplete : (s₀.migrateByKey.run ops).tables.IndexComplete :=
    run_preserves indexComplete_step (indexComplete_migrateByKey (.inl hnone)) ops
  exact ⟨hcomplete, fun ns calls hcalls => hcomplete.scansNamespace ns hcalls⟩

end FsStore

section

local instance indexDigest : Blake3 := noDigest

/-- A scheme in which the public key is the secret one. -/
local instance indexKeys : Ed25519 := ⟨id⟩

/-- A prefix deletion that leaves two stale index rows, one of which comes back to life. -/
def sampleStaleRows : List Op :=
  [.put (sampleEntry [1, 1] ⟨7, zeros32, 3⟩), .put (sampleEntry [1, 2] ⟨7, zeros32, 4⟩),
    .removePrefixFiltered (.new zeros32 zeros32 [1]) (fun _ => true), .put (sampleEntry [1, 2] ⟨7, zeros32, 4⟩)]

/-- Two index rows, one record. -/
theorem by_key_index_serves_the_records_sample :
    ((default : FsStore).migrateByKey.run sampleStaleRows).tables.recordsByKey.toList.length = 2 ∧
    ((default : FsStore).migrateByKey.run sampleStaleRows).tables.records.toList.length = 1 ∧
    ((default : FsStore).migrateByKey.run sampleStaleRows).tables.ScansNamespace zeros32 3 :=
  ⟨by decide +kernel, by decide +kernel,
    (FsStore.by_key_index_serves_the_records default rfl sampleStaleRows).2 zeros32 3 (by decide +kernel)⟩

end

end PdnStore.Fs

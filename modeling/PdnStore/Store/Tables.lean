import PdnStore.Store.Bounds

/-!
# The records tables and the rows of an entry (store/fs/tables.rs, fs.rs:712-746, 1032-1133)

`records` holds the entries, one row each: `intoEntry` and `row` are inverse to each other, so the
table is a set of signed entries with one entry per identifier (`Tables.entries`). The two index
tables are written with it. An I/O failure of redb is outside the model.
-/

namespace PdnStore.Fs

open Ranger

/-- The value of a record row (tables.rs:38). -/
@[ext] structure RecordsValue where
  timestamp : U64
  namespaceSig : ByteArrayN 64
  authorSig : ByteArrayN 64
  len : U64
  hash : Hash
deriving DecidableEq

/-- The key of the by-key index (tables.rs:53). -/
@[ext] structure RecordsByKeyId where
  ns : NamespaceId
  key : Bytes
  author : AuthorId
deriving DecidableEq

instance : LinearOrder RecordsByKeyId :=
  LinearOrder.lift' (fun i => toLex (i.ns, toLex (i.key, i.author))) fun a b h => by
    cases a; cases b; simp_all

/-- The tables a replica's entries are written to. -/
structure Tables where
  records : SortedMap RecordsId RecordsValue
  recordsByKey : SortedMap RecordsByKeyId Unit
  latestPerAuthor : SortedMap (NamespaceId ×ₗ AuthorId) (U64 × Bytes)

/-- An empty database. -/
instance : Inhabited Tables := ⟨⟨∅, ∅, ∅⟩⟩

/-- `into_entry` (fs.rs:1125). -/
def intoEntry (row : RecordsId × RecordsValue) : SignedEntry where
  signature := ⟨row.2.authorSig, row.2.namespaceSig⟩
  entry := ⟨.new row.1.ns row.1.author row.1.key, ⟨row.2.len, row.2.hash, row.2.timestamp⟩⟩

/-- The row an entry is written as (fs.rs:864-877). -/
def row (e : SignedEntry) : RecordsId × RecordsValue :=
  (⟨e.id.namespace, e.id.author, e.id.key⟩,
    ⟨e.record.timestamp, e.signature.namespaceSignature, e.signature.authorSignature, e.record.len,
      e.record.hash⟩)

@[simp] theorem intoEntry_row (e : SignedEntry) : intoEntry (row e) = e := by
  obtain ⟨sig, id, record⟩ := e
  simp [intoEntry, row, SignedEntry.id, SignedEntry.record]

@[simp] theorem row_intoEntry (r : RecordsId × RecordsValue) : row (intoEntry r) = r := by
  obtain ⟨⟨ns, author, key⟩, v⟩ := r
  simp [intoEntry, row, SignedEntry.id, SignedEntry.record]

/-- Table order is identifier order. -/
theorem id_lt_iff {r r' : RecordsId × RecordsValue} :
    (intoEntry r).id < (intoEntry r').id ↔ r.1 < r'.1 := by
  rw [RecordIdentifier.lt_iff, RecordsId.lt_iff]
  simp [intoEntry, SignedEntry.id]

namespace Tables

/-- The entries of the records table, in table order. -/
def entries (t : Tables) : List SignedEntry := t.records.toList.map intoEntry

theorem mem_entries {t : Tables} {e : SignedEntry} : e ∈ t.entries ↔ row e ∈ t.records.toList := by
  constructor
  · rintro h
    obtain ⟨r, hr, rfl⟩ := List.mem_map.1 h
    rwa [row_intoEntry]
  · intro h
    exact List.mem_map.2 ⟨row e, h, intoEntry_row e⟩

theorem sorted_entries [Blake3] (t : Tables) : SortedBy (RangeEntry.key (E := SignedEntry)) t.entries :=
  List.pairwise_map.2 (t.records.sorted.imp fun h => id_lt_iff.2 h)

/-- `get_exact` (fs.rs:712). -/
def getExact (t : Tables) (ns : NamespaceId) (author : AuthorId) (key : Bytes) (includeEmpty : Bool) :
    Option SignedEntry :=
  ((t.records.get? ⟨ns, author, key⟩).map fun v => intoEntry (⟨ns, author, key⟩, v)).filter
    fun e => includeEmpty || !e.record.isEmpty

theorem getExact_eq_some {t : Tables} {ns : NamespaceId} {author : AuthorId} {key : Bytes}
    {includeEmpty : Bool} {e : SignedEntry} : t.getExact ns author key includeEmpty = some e ↔
      e ∈ t.entries ∧ e.id = .new ns author key ∧ (includeEmpty = true ∨ e.record.isEmpty = false) := by
  simp only [getExact, Option.filter_eq_some_iff, Option.map_eq_some_iff, SortedMap.get?_eq_some,
    Bool.or_eq_true, Bool.not_eq_true']
  constructor
  · rintro ⟨⟨v, hv, rfl⟩, he⟩
    exact ⟨mem_entries.2 (by rwa [row_intoEntry]), rfl, he⟩
  · rintro ⟨hmem, hid, he⟩
    have hrow : row e = (⟨ns, author, key⟩, (row e).2) := by simp [row, hid]
    rw [mem_entries, hrow] at hmem
    exact ⟨⟨(row e).2, hmem, by rw [← hrow, intoEntry_row]⟩, he⟩

/-- The loop of `parents` (fs.rs:1040) with the first `n` bytes of the key left. -/
def parentsLoop (t : Tables) (ns : NamespaceId) (author : AuthorId) (key : Bytes) : Nat → List SignedEntry
  | 0 => []
  | n + 1 => (t.getExact ns author (key.take (n + 1)) false).toList ++ parentsLoop t ns author key n

/-- `parents` (fs.rs:1032). -/
def parents (t : Tables) (ns : NamespaceId) (author : AuthorId) (key : Bytes) : List SignedEntry :=
  (parentsLoop t ns author key key.length).reverse

theorem mem_parentsLoop {t : Tables} {ns : NamespaceId} {author : AuthorId} {key : Bytes} {n : Nat}
    {e : SignedEntry} : e ∈ t.parentsLoop ns author key n ↔
      ∃ j, 0 < j ∧ j ≤ n ∧ t.getExact ns author (key.take j) false = some e := by
  induction n with
  | zero =>
    simp only [parentsLoop, List.not_mem_nil, false_iff]
    rintro ⟨j, hpos, hle, -⟩
    omega
  | succ n ih =>
    simp only [parentsLoop, List.mem_append, Option.mem_toList, ih]
    constructor
    · rintro (h | ⟨j, hpos, hle, h⟩)
      · exact ⟨n + 1, by omega, le_rfl, h⟩
      · exact ⟨j, hpos, by omega, h⟩
    · rintro ⟨j, hpos, hle, h⟩
      rcases Nat.lt_or_ge j (n + 1) with hj | hj
      · exact .inr ⟨j, hpos, by omega, h⟩
      · have hj : j = n + 1 := by omega
        exact .inl (hj ▸ h)

/-- What `parents` finds: the entries at the key and its prefixes, but neither tombstones nor the entry
at the empty key. -/
theorem mem_parents {t : Tables} {id : RecordIdentifier} {e : SignedEntry} :
    e ∈ t.parents id.namespace id.author id.key ↔
      e ∈ t.entries ∧ isPrefixOf e.id id = true ∧ e.record.isEmpty = false ∧ e.id.key ≠ [] := by
  rw [parents, List.mem_reverse, mem_parentsLoop, RecordIdentifier.isPrefixOf_iff]
  constructor
  · rintro ⟨j, hpos, hle, h⟩
    obtain ⟨hmem, hid, he⟩ := getExact_eq_some.1 h
    have hkey : e.id.key = id.key.take j := by rw [hid, RecordIdentifier.key_new]
    refine ⟨hmem, ⟨by rw [hid]; simp, by rw [hid]; simp, ?_⟩, by simpa using he, fun h0 => ?_⟩
    · rw [hkey]; exact List.take_prefix ..
    · have := congrArg List.length (hkey.symm.trans h0)
      rw [List.length_take, List.length_nil] at this
      omega
  · rintro ⟨hmem, ⟨hns, ha, hk⟩, he, h0⟩
    refine ⟨e.id.key.length, List.length_pos_of_ne_nil h0, hk.length_le, ?_⟩
    refine getExact_eq_some.2 ⟨hmem, ?_, .inr he⟩
    rw [← List.prefix_iff_eq_take.1 hk, ← hns, ← ha, RecordIdentifier.new_self]

end Tables

end PdnStore.Fs

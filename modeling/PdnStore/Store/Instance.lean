import PdnStore.Store.Tables
import PdnStore.Ranger.Put

/-!
# `StoreInstance`: the persistent store of one namespace (fs.rs:726-1001)

Reads come from the session snapshot when there is one and from the live tables otherwise; writes and
`prefixes_of` always go to the live tables, under the namespace the identifier itself names.

The reads meet the contract, with the identifiers of the namespace as their domain
(`StoreInstance.lawfulReads`); a boundary outside it is refused. The writes are described row by row
(`mem_prefixesOf`, `mem_removePrefixFiltered`, `mem_entryPut`), and differ from the contract where
`mem_parents` and `contains_authorPrefix` do.
-/

namespace PdnStore.Fs

open Ranger

/-- `StoreInstance` (fs.rs:728) for the namespace `ns`. -/
structure StoreInstance (ns : NamespaceId) where
  tables : Tables
  sessionSnapshot : Option Tables

namespace StoreInstance

variable {ns : NamespaceId}

/-- The tables the session is served from (fs.rs:731-745). -/
def source (s : StoreInstance ns) : Tables := s.sessionSnapshot.getD s.tables

/-- `RecordsRange::with_bounds`: the entries of the rows within the bounds, in table order. -/
def recordsRange (t : Tables) (bounds : RecordsBounds) : List SignedEntry :=
  (t.records.toList.filter fun r => bounds.contains r.1).map intoEntry

/-- `StoreInstance::get_first` (fs.rs:822). -/
def getFirst (s : StoreInstance ns) : RecordIdentifier :=
  (((recordsRange s.source (.namespace ns)).head?).map (·.id)).getD default

/-- `RecordIdentifier::to_byte_tuple` (sync.rs:1309). -/
def toByteTuple (id : RecordIdentifier) : RecordsId := ⟨id.namespace, id.author, id.key⟩

/-- `StoreInstance::get_range` (fs.rs:902). -/
def getRange (s : StoreInstance ns) (range : Range RecordIdentifier) : Except Fault (List SignedEntry) :=
  if range.x ≠ range.y ∧ (range.x.namespace ≠ ns ∨ range.y.namespace ≠ ns) then
    .error (.error "sync range boundary names another namespace")
  else if range.x = range.y then .ok (recordsRange s.source (.namespace ns))
  else if range.x < range.y then
    .ok (recordsRange s.source ⟨.included (toByteTuple range.x), .excluded (toByteTuple range.y)⟩)
  else
    .ok (recordsRange s.source (.fromStart ns (.excluded (toByteTuple range.y))) ++
      recordsRange s.source (.toEnd ns (.included (toByteTuple range.x))))

/-- `StoreInstance::entry_put` (fs.rs:867). -/
def entryPut (s : StoreInstance ns) (e : SignedEntry) : StoreInstance ns :=
  { s with tables := {
      records := s.tables.records.insert (row e).1 (row e).2
      recordsByKey := s.tables.recordsByKey.insert ⟨e.id.namespace, e.id.key, e.id.author⟩ ()
      latestPerAuthor := s.tables.latestPerAuthor.insert (toLex (e.id.namespace, e.id.author))
        (e.record.timestamp, e.id.key) } }

/-- `StoreInstance::prefixes_of` (fs.rs:968). -/
def prefixesOf (s : StoreInstance ns) (id : RecordIdentifier) : List SignedEntry :=
  s.tables.parents id.namespace id.author id.key

/-- The rows `extract_from_if` takes out (fs.rs:991-998). -/
def extracted (id : RecordIdentifier) (predicate : RecordValue → Bool) (r : RecordsId × RecordsValue) :
    Bool :=
  (RecordsBounds.authorPrefix id.namespace id.author id.key).contains r.1 &&
    predicate (Record.value ⟨r.2.len, r.2.hash, r.2.timestamp⟩)

/-- `StoreInstance::remove_prefix_filtered` (fs.rs:984): the index tables keep their rows. -/
def removePrefixFiltered (s : StoreInstance ns) (id : RecordIdentifier) (predicate : RecordValue → Bool) :
    Nat × StoreInstance ns :=
  ((s.tables.records.toList.filter (extracted id predicate)).length,
    { s with tables := { s.tables with records := s.tables.records.filter fun r => !extracted id predicate r } })

/-! ## Ranges of the records table -/

/-- The entries of the namespace a session is served. -/
def view (s : StoreInstance ns) : List SignedEntry := s.source.entries.filter fun e => e.id.namespace = ns

/-- The identifiers of a namespace. -/
def dom (ns : NamespaceId) : Set RecordIdentifier := {id | id.namespace = ns}

theorem recordsRange_eq (t : Tables) (bounds : RecordsBounds) :
    recordsRange t bounds = t.entries.filter fun e => bounds.contains (toByteTuple e.id) := by
  rw [recordsRange, Tables.entries, List.filter_map]
  congr 1
  apply List.filter_congr
  intro r _
  simp [toByteTuple, intoEntry, SignedEntry.id]

theorem toByteTuple_lt {a b : RecordIdentifier} : toByteTuple a < toByteTuple b ↔ a < b := by
  rw [RecordsId.lt_iff, RecordIdentifier.lt_iff]
  rfl

theorem toByteTuple_le {a b : RecordIdentifier} : toByteTuple a ≤ toByteTuple b ↔ a ≤ b := by
  rw [← not_lt, ← not_lt, toByteTuple_lt]

/-- A scan whose bounds select the identifiers `p` of the namespace. -/
theorem recordsRange_filter (s : StoreInstance ns) {bounds : RecordsBounds} {p : RecordIdentifier → Bool}
    (h : ∀ id, bounds.contains (toByteTuple id) = true ↔ id.namespace = ns ∧ p id = true) :
    recordsRange s.source bounds = s.view.filter fun e => p e.id := by
  rw [recordsRange_eq, view, List.filter_filter]
  apply List.filter_congr
  intro e _
  rw [Bool.eq_iff_iff, h e.id]
  simp [and_comm]

theorem contains_between {x y : RecordIdentifier} (hx : x.namespace = ns) (hy : y.namespace = ns)
    (id : RecordIdentifier) :
    (RecordsBounds.mk (.included (toByteTuple x)) (.excluded (toByteTuple y))).contains
      (toByteTuple id) = true ↔
      id.namespace = ns ∧ (decide (x ≤ id) && decide (id < y)) = true := by
  simp only [RecordsBounds.contains, toByteTuple_le, toByteTuple_lt, Bool.and_eq_true, decide_eq_true_eq]
  constructor
  · rintro ⟨hlo, hhi⟩
    have h1 : x.namespace ≤ id.namespace := by
      rcases hlo.lt_or_eq with h | h
      · exact (RecordIdentifier.lt_iff.1 h).elim le_of_lt fun h => h.1.le
      · rw [h]
    have h2 : id.namespace ≤ y.namespace := (RecordIdentifier.lt_iff.1 hhi).elim le_of_lt fun h => h.1.le
    exact ⟨le_antisymm (hy ▸ h2) (hx ▸ h1), hlo, hhi⟩
  · rintro ⟨-, hlo, hhi⟩
    exact ⟨hlo, hhi⟩

theorem contains_fromStart {y : RecordIdentifier} (hy : y.namespace = ns) (id : RecordIdentifier) :
    (RecordsBounds.fromStart ns (.excluded (toByteTuple y))).contains (toByteTuple id) = true ↔
      id.namespace = ns ∧ decide (id < y) = true := by
  simp only [RecordsBounds.contains, RecordsBounds.fromStart, RecordsBounds.namespaceStart,
    RecordsBounds.namespaceStart_le, toByteTuple_lt, Bool.and_eq_true, decide_eq_true_eq]
  refine and_congr_left fun hlt => ⟨fun hle => ?_, fun h => h.symm.le⟩
  have h2 : id.namespace ≤ y.namespace := (RecordIdentifier.lt_iff.1 hlt).elim le_of_lt fun h => h.1.le
  exact le_antisymm (hy ▸ h2) hle

theorem contains_toEnd {x : RecordIdentifier} (hx : x.namespace = ns) (id : RecordIdentifier) :
    (RecordsBounds.toEnd ns (.included (toByteTuple x))).contains (toByteTuple id) = true ↔
      id.namespace = ns ∧ decide (x ≤ id) = true := by
  have hns : x ≤ id → ns ≤ id.namespace := by
    intro h
    rcases h.lt_or_eq with h | rfl
    · exact hx ▸ (RecordIdentifier.lt_iff.1 h).elim le_of_lt fun h => h.1.le
    · exact hx.symm.le
  have hnamespace : (RecordsBounds.namespace ns).contains (toByteTuple id) = true ↔
    (toByteTuple id).ns = ns :=
    RecordsBounds.contains_namespace
  simp only [RecordsBounds.contains, RecordsBounds.namespace, RecordsBounds.namespaceStart,
    RecordsBounds.namespaceStart_le, Bool.and_eq_true, decide_eq_true_eq] at hnamespace
  simp only [RecordsBounds.contains, RecordsBounds.toEnd, toByteTuple_le, Bool.and_eq_true,
    decide_eq_true_eq]
  constructor
  · rintro ⟨hle, hend⟩
    exact ⟨hnamespace.1 ⟨hns hle, hend⟩, hle⟩
  · rintro ⟨heq, hle⟩
    exact ⟨hle, (hnamespace.2 heq).2⟩

/-- A range with a boundary outside the namespace is refused, whatever the tables hold. -/
theorem getRange_foreign (s : StoreInstance ns) {r : Range RecordIdentifier} (hr : ¬ r.Within (dom ns)) :
    s.getRange r = .error (.error "sync range boundary names another namespace") := by
  unfold getRange
  rw [if_pos]
  simp only [Range.Within, dom, Set.mem_ofPred_eq, not_or, not_and_or] at hr
  exact hr

section

variable [Blake3]

/-- `impl Store for StoreInstance` (fs.rs:813). -/
instance : Store (StoreInstance ns) SignedEntry RecordIdentifier RecordValue where
  getFirst s := .ok s.getFirst
  getFingerprint s r := do
    let elements ← s.getRange r
    .ok (fingerprint elements)
  entryPut := entryPut
  getRange := getRange
  prefixesOf := prefixesOf
  removePrefixFiltered := removePrefixFiltered

/-! ## Reads -/

theorem sorted_view (s : StoreInstance ns) : SortedBy key s.view := s.source.sorted_entries.filter _

/-- The range scan is the range predicate on the namespace (fs.rs:897-944). -/
theorem getRange_eq (s : StoreInstance ns) {r : Range RecordIdentifier} (hr : r.Within (dom ns)) :
    s.getRange r = .ok (inRange r s.view) := by
  unfold getRange
  by_cases hxy : r.x = r.y
  · have hall : inRange r s.view = s.view := List.filter_eq_self.2 fun e _ => by simp [Range.contains, hxy]
    rw [if_neg (by simp [hxy]), if_pos hxy, hall, recordsRange_filter s (p := fun _ => true),
      List.filter_true]
    intro id
    rw [RecordsBounds.contains_namespace]
    simp [toByteTuple]
  · obtain ⟨hx, hy⟩ := hr.resolve_left hxy
    have hx : r.x.namespace = ns := hx
    have hy : r.y.namespace = ns := hy
    rw [if_neg (by simp [hx, hy]), if_neg hxy]
    by_cases hlt : r.x < r.y
    · rw [if_pos hlt, recordsRange_filter s (contains_between hx hy)]
      congr 1
      apply List.filter_congr
      intro e _
      simp [Range.contains, hxy, hlt, key]
    · -- the two scans follow one another in table order
      have hyx : r.y < r.x := lt_of_le_of_ne (not_lt.1 hlt) fun h => hxy h.symm
      rw [if_neg hlt, recordsRange_filter s (contains_fromStart hy),
        recordsRange_filter s (contains_toEnd hx)]
      congr 1
      refine SortedBy.ext (f := key) ?_ (s.sorted_view.filter _) fun e => ?_
      · refine List.pairwise_append.2 ⟨s.sorted_view.filter _, s.sorted_view.filter _, fun a ha b hb => ?_⟩
        have ha : a.id < r.y := by simpa using (List.mem_filter.1 ha).2
        have hb : r.x ≤ b.id := by simpa using (List.mem_filter.1 hb).2
        exact ha.trans (hyx.trans_le hb)
      · simp only [List.mem_append, List.mem_filter, mem_inRange, decide_eq_true_eq]
        have hc : r.contains (key e) = true ↔ r.x ≤ e.id ∨ e.id < r.y := by
          simp [Range.contains, hxy, hlt, key]
        rw [hc]
        tauto

/-- **The reads of the persistent store meet the contract.** -/
theorem lawfulReads : LawfulReads (StoreInstance ns) (dom ns) view where
  sorted := sorted_view
  mem_dom s e he := by simpa [dom, key] using (List.mem_filter.1 he).2
  getFirst s := by
    show Except.ok s.getFirst = _
    have hview : recordsRange s.source (.namespace ns) = s.view := by
      rw [recordsRange_filter s (p := fun _ => true), List.filter_true]
      intro id
      rw [RecordsBounds.contains_namespace]
      simp [toByteTuple]
    rw [getFirst, hview]
    rfl
  getRange s _ hr := s.getRange_eq hr
  getFingerprint s r hr := by
    show (do let elements ← s.getRange r; .ok (fingerprint elements)) = _
    rw [s.getRange_eq hr]
    rfl

/-- **The stored range scan is the range predicate** (fs.rs:897-944): on the tables the session is served
from, live or snapshot, it yields the entries of the namespace in the range, once each and in ascending
order, and the fingerprint is theirs. -/
theorem range_scan_is_the_range_predicate (s : StoreInstance ns) (r : Range RecordIdentifier)
    (hr : r.x = r.y ∨ (r.x.namespace = ns ∧ r.y.namespace = ns)) :
      ∃ l, s.getRange r = .ok l ∧
        (∀ e, e ∈ l ↔ e ∈ s.source.entries ∧ e.id.namespace = ns ∧ r.contains e.id = true) ∧
        l.Nodup ∧ l.Pairwise (fun a b => a.id < b.id) ∧
        Store.getFingerprint s r =
          .ok (l.foldl (fun fp e => fp ^^^ asFingerprint e) Fingerprint.empty) := by
  have hscan : s.getRange r = .ok (inRange r s.view) := s.getRange_eq hr
  have hsorted : SortedBy key (inRange r s.view) := s.sorted_view.filter _
  refine ⟨inRange r s.view, hscan, fun e => ?_, hsorted.nodup, hsorted, ?_⟩
  · rw [mem_inRange, view, List.mem_filter, decide_eq_true_eq, and_assoc]
    rfl
  · exact lawfulReads.getFingerprint s r hr

end

section

local instance rangeDigest : Blake3 := ⟨fun _ => 0⟩

/-- A wrap-around range over two entries of the namespace of zeros. -/
theorem range_scan_is_the_range_predicate_sample :
    let entryAt (key : Bytes) : SignedEntry := ⟨⟨⟨List.replicate 64 0, rfl⟩, ⟨List.replicate 64 0, rfl⟩⟩,
      ⟨.new zeros32 zeros32 key, ⟨7, zeros32, 3⟩⟩⟩
    let s : StoreInstance zeros32 := (StoreInstance.entryPut ⟨default, none⟩ (entryAt [1])).entryPut (entryAt [3])
    let r : Range RecordIdentifier := ⟨.new zeros32 zeros32 [2], .new zeros32 zeros32 [1]⟩
    r.y < r.x ∧ r.x.namespace = zeros32 ∧ r.y.namespace = zeros32 ∧
      ∃ l, s.getRange r = .ok l ∧
        (∀ e, e ∈ l ↔ e ∈ s.source.entries ∧ e.id.namespace = zeros32 ∧ r.contains e.id = true) ∧
        l.Nodup ∧ l.Pairwise (fun a b => a.id < b.id) ∧
        Store.getFingerprint s r =
          .ok (l.foldl (fun fp e => fp ^^^ asFingerprint e) Fingerprint.empty) :=
  ⟨RecordIdentifier.lt_iff.2 (by simp only [RecordIdentifier.namespace_new, RecordIdentifier.author_new,
      RecordIdentifier.key_new]; decide),
    RecordIdentifier.namespace_new .., RecordIdentifier.namespace_new ..,
    range_scan_is_the_range_predicate _ _
      (.inr ⟨RecordIdentifier.namespace_new .., RecordIdentifier.namespace_new ..⟩)⟩

end

/-! ## Writes -/

/-- Which entries `remove_prefix_filtered` takes out. -/
theorem extracted_row {id : RecordIdentifier} {p : RecordValue → Bool} {e : SignedEntry} :
    extracted id p (row e) = true ↔
      (isPrefixOf id e.id = true ∨ (e.id.namespace = id.namespace ∧ e.id.author = id.author ∧
        Overshoots id.key e.id.key)) ∧ p e.record.value = true := by
  simp only [extracted, Bool.and_eq_true, RecordsBounds.contains_authorPrefix,
    RecordIdentifier.isPrefixOf_iff, row,
    Record.value]
  refine and_congr_left fun _ => ?_
  constructor
  · rintro ⟨hn, ha, h | h⟩
    · exact .inl ⟨hn.symm, ha.symm, h⟩
    · exact .inr ⟨hn, ha, h⟩
  · rintro (⟨hn, ha, h⟩ | ⟨hn, ha, h⟩)
    · exact ⟨hn.symm, ha.symm, .inl h⟩
    · exact ⟨hn, ha, .inr h⟩

section

variable [Blake3]

theorem mem_prefixesOf {s : StoreInstance ns} {id : RecordIdentifier} {e : SignedEntry} :
    e ∈ Store.prefixesOf s id ↔
      e ∈ s.tables.entries ∧ isPrefixOf e.id id = true ∧ e.record.isEmpty = false ∧ e.id.key ≠ [] :=
  Tables.mem_parents

theorem mem_removePrefixFiltered {s : StoreInstance ns} {id : RecordIdentifier} {p : RecordValue → Bool}
    {e : SignedEntry} : e ∈ (Store.removePrefixFiltered s id p).2.tables.entries ↔
      e ∈ s.tables.entries ∧ extracted id p (row e) = false := by
  show e ∈ (s.removePrefixFiltered id p).2.tables.entries ↔ _
  rw [Tables.mem_entries, Tables.mem_entries, removePrefixFiltered, SortedMap.mem_filter]
  simp

theorem mem_entryPut {s : StoreInstance ns} {e e' : SignedEntry} :
    e' ∈ (Store.entryPut s e).tables.entries ↔ e' = e ∨ (e' ∈ s.tables.entries ∧ e'.id ≠ e.id) := by
  show e' ∈ (s.entryPut e).tables.entries ↔ _
  rw [Tables.mem_entries, Tables.mem_entries, entryPut, SortedMap.mem_insert]
  have hrow : row e' = ((row e).1, (row e).2) ↔ e' = e :=
    ⟨fun h => by rw [← intoEntry_row e', h]; exact intoEntry_row e, fun h => by rw [h]⟩
  have hid : (row e').1 = (row e).1 ↔ e'.id = e.id := by
    constructor
    · intro h
      simp only [row, RecordsId.mk.injEq] at h
      exact RecordIdentifier.ext h.1 h.2.1 h.2.2
    · intro h
      simp [row, h]
  rw [hrow, Ne, Ne, hid]

end

end StoreInstance

end PdnStore.Fs

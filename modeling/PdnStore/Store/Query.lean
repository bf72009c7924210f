import PdnStore.Store.ByKey

/-!
# Queries over the entries of a namespace (store.rs:165-400, store/util.rs, store/fs/query.rs)

A query scans one of two tables: `records`, in author order, or the by-key index, in key order, when the
entries are wanted by key or only the latest of each key. `QueryIterator::next` is a loop over the scan
that drops what the filters refuse, groups by key where asked, skips the first `offset` results and stops
at `limit`.

| here | there |
| --- | --- |
| `IndexKind`             | which table is scanned, and what is left to filter (`util.rs:8-42`) |
| `LatestPerKeySelector`  | the entry held back until a new key arrives (`util.rs:47-89`) |
| `QueryRange.next`       | one turn of the outer loop's `match` (`query.rs:99-143`), with the inner loop of the by-key scan |
| `QueryIterator.collect` | `next` until it yields nothing |
-/

namespace PdnStore.Fs

/-! ## Queries -/

/-- `SortBy` (store.rs:349). -/
inductive SortBy where
  | keyAuthor
  | authorKey
deriving DecidableEq, Repr

/-- `QueryKind` (store.rs:340). -/
inductive QueryKind where
  | flat (sortBy : SortBy)
  | singleLatestPerKey
deriving DecidableEq, Repr

/-- `AuthorFilter` (store.rs:388). -/
inductive AuthorFilter where
  | any
  | exact (author : AuthorId)

/-- `AuthorFilter::matches` (store.rs:398). -/
def AuthorFilter.matches : AuthorFilter → AuthorId → Bool
  | .any, _ => true
  | .exact a, author => a = author

/-- `KeyFilter::matches` (store.rs:377). -/
def KeyFilter.matches : KeyFilter → Bytes → Bool
  | .any, _ => true
  | .exact k, key => k = key
  | .withPrefix p, key => p.isPrefixOf key

/-- `Query` (store.rs:282). -/
structure Query where
  kind : QueryKind
  filterAuthor : AuthorFilter
  filterKey : KeyFilter
  limit : Option U64
  offset : U64
  includeEmpty : Bool
  sortDirection : SortDirection

/-- `IndexKind` (util.rs:8). -/
inductive IndexKind where
  | authorKey (range : AuthorFilter) (keyFilter : KeyFilter)
  | keyAuthor (range : KeyFilter) (authorFilter : AuthorFilter) (latestPerKey : Bool)

/-- `IndexKind::from` (util.rs:21). -/
def Query.indexKind (q : Query) : IndexKind :=
  match q.kind with
  | .flat sortBy =>
    match q.filterAuthor, sortBy with
    | .any, .keyAuthor => .keyAuthor q.filterKey .any false
    | filterAuthor, _ => .authorKey filterAuthor q.filterKey
  | .singleLatestPerKey => .keyAuthor q.filterKey q.filterAuthor true

/-! ## The latest entry of each key -/

/-- `LatestPerKeySelector` (util.rs:47): the latest entry so far of the key at hand. -/
abbrev LatestPerKeySelector := Option SignedEntry

/-- `SelectorRes` (util.rs:50). -/
inductive SelectorRes where
  | finished
  | «continue»
  | some (entry : SignedEntry)

/-- `LatestPerKeySelector::push` (util.rs:63). -/
def LatestPerKeySelector.push : LatestPerKeySelector → Option SignedEntry → SelectorRes × LatestPerKeySelector
  | some last, none => (.some last, none)
  | none, none => (.finished, none)
  | none, some entry => (.continue, some entry)
  | some last, some entry =>
    if last.id.key = entry.id.key then
      (.continue, some (if entry.record.timestamp > last.record.timestamp then entry else last))
    else (.some last, some entry)

/-! ## The iterator -/

/-- `RecordsRange` (ranges.rs:74): the rows not passed yet. -/
abbrev RecordsRange := List (RecordsId × RecordsValue)

/-- `RecordsRange::next_filtered` (ranges.rs:91). -/
def RecordsRange.nextFiltered (r : RecordsRange) (direction : SortDirection)
    (filter : RecordsId × RecordsValue → Bool) : Option SignedEntry × RecordsRange :=
  nextFilterMap direction (fun row => if filter row then some (intoEntry row) else none) r

/-- `QueryRange` (query.rs:29). -/
inductive QueryRange where
  | authorKey (range : RecordsRange) (keyFilter : KeyFilter)
  | keyAuthor (range : RecordsByKeyRange) (authorFilter : AuthorFilter)
      (selector : Option LatestPerKeySelector)

/-- `QueryIterator` (query.rs:20). -/
structure QueryIterator where
  range : QueryRange
  query : Query
  offset : Nat
  count : Nat

/-- The range a query scans (query.rs:43-77). -/
def QueryRange.new (t : Tables) (ns : NamespaceId) (q : Query) : QueryRange :=
  match q.indexKind with
  | .authorKey range keyFilter =>
    let (bounds, filter) := match range with
      -- both author and key are selected by the range
      | .exact author => (RecordsBounds.authorKey ns author keyFilter, KeyFilter.any)
      | .any => (RecordsBounds.namespace ns, keyFilter)
    .authorKey (t.records.toList.filter fun r => bounds.contains r.1) filter
  | .keyAuthor range authorFilter latestPerKey =>
    .keyAuthor (.withBounds t (.new ns range)) authorFilter (if latestPerKey then some none else none)

/-- An entry the query does not want because it is a deletion marker (query.rs:134). -/
def Query.skips (q : Query) (next : Option SignedEntry) : Bool :=
  match next with
  | some e => !q.includeEmpty && e.record.isEmpty
  | none => false

/-- The inner loop of the by-key scan (query.rs:112-140). Each round passes an index row, or ends the
scan and empties the selector. -/
def keyAuthorLoop (q : Query) (authorFilter : AuthorFilter) : Nat → RecordsByKeyRange →
    Option LatestPerKeySelector → Option SignedEntry × RecordsByKeyRange × Option LatestPerKeySelector
  | 0, range, selector => (none, range, selector)
  | n + 1, range, selector =>
    let (next, range) := range.nextFiltered q.sortDirection fun id => authorFilter.matches id.author
    match selector with
    | none => if q.skips next then keyAuthorLoop q authorFilter n range none else (next, range, none)
    | some held =>
      match held.push next with
      | (.continue, held) => keyAuthorLoop q authorFilter n range (some held)
      | (.finished, held) => (none, range, some held)
      | (.some entry, held) =>
        if q.skips (some entry) then keyAuthorLoop q authorFilter n range (some held)
        else (some entry, range, some held)

/-- The next entry of the scan (query.rs:100-142). -/
def QueryRange.next (q : Query) : QueryRange → Option SignedEntry × QueryRange
  | .authorKey range keyFilter =>
    let (entry, range) := range.nextFiltered q.sortDirection fun r =>
      keyFilter.matches r.1.key && (q.includeEmpty || r.2.hash ≠ Hash.EMPTY)
    (entry, .authorKey range keyFilter)
  | .keyAuthor range authorFilter selector =>
    let (entry, range, selector) := keyAuthorLoop q authorFilter (range.rows.length + 2) range selector
    (entry, .keyAuthor range authorFilter selector)

namespace QueryIterator

/-- `QueryIterator::new` (query.rs:42). -/
def new (t : Tables) (ns : NamespaceId) (q : Query) : QueryIterator := ⟨.new t ns q, q, 0, 0⟩

/-- The outer loop (query.rs:99-152) with `n` results left to skip. -/
def skipLoop : Nat → QueryIterator → Option SignedEntry × QueryIterator
  | 0, it =>
    let (next, range) := it.range.next it.query
    (next, { it with range := range, count := it.count + 1 })
  | n + 1, it =>
    let (next, range) := it.range.next it.query
    if next.isSome then skipLoop n { it with range := range, offset := it.offset + 1 }
    else (next, { it with range := range, count := it.count + 1 })

/-- `QueryIterator::next` (query.rs:91). -/
def next (it : QueryIterator) : Option SignedEntry × QueryIterator :=
  match it.query.limit with
  | some limit => if it.count ≥ limit.val then (none, it) else skipLoop (it.query.offset - it.offset) it
  | none => skipLoop (it.query.offset - it.offset) it

/-- Call `next` until it yields nothing, at most `n` times. -/
def collect : Nat → QueryIterator → List SignedEntry
  | 0, _ => []
  | n + 1, it =>
    match it.next with
    | (some e, it) => e :: collect n it
    | (none, _) => []

end QueryIterator

/-- How many rows the scan has left. -/
def QueryRange.size : QueryRange → Nat
  | .authorKey range _ => range.length
  | .keyAuthor range _ _ => range.rows.length

/-- `Store::get_many` (fs.rs:496), collected: a row yields at most one result, and the selector one more. -/
def getMany (t : Tables) (ns : NamespaceId) (q : Query) : List SignedEntry :=
  (QueryIterator.new t ns q).collect ((QueryRange.new t ns q).size + 2)

/-! ## Namespaces without rows -/

theorem RecordsBounds.ns_of_contains {ns : NamespaceId} {author : AuthorId} {filter : KeyFilter}
    {id : RecordsId} (h : (RecordsBounds.authorKey ns author filter).contains id = true) : id.ns = ns := by
  cases filter with
  | any =>
    -- all keys are those under the empty prefix
    have hall : (RecordsBounds.authorPrefix ns author []).contains id = true := h
    exact (RecordsBounds.contains_authorPrefix.1 hall).1
  | withPrefix key => exact (RecordsBounds.contains_authorPrefix.1 h).1
  | exact key =>
    simp only [contains, authorKey, if_true, Bool.and_eq_true, decide_eq_true_eq] at h
    rw [← le_antisymm h.1 h.2]

/-- A scan only meets rows of its namespace. -/
theorem QueryRange.size_new {t : Tables} {ns : NamespaceId} (q : Query)
    (hrecords : ∀ r ∈ t.records.toList, r.1.ns ≠ ns) (hindex : ∀ r ∈ t.recordsByKey.toList, r.1.ns ≠ ns) :
    (QueryRange.new t ns q).size = 0 := by
  unfold QueryRange.new
  cases q.indexKind with
  | authorKey range keyFilter =>
    cases range with
    | any =>
      simp only [size, List.length_eq_zero_iff, List.filter_eq_nil_iff]
      intro r hr h
      exact hrecords r hr (RecordsBounds.contains_namespace.1 h)
    | exact author =>
      simp only [size, List.length_eq_zero_iff, List.filter_eq_nil_iff]
      intro r hr h
      exact hrecords r hr (RecordsBounds.ns_of_contains h)
  | keyAuthor range authorFilter latestPerKey =>
    simp only [size, RecordsByKeyRange.withBounds, List.length_eq_zero_iff, List.filter_eq_nil_iff]
    intro id hid h
    obtain ⟨r, hr, rfl⟩ := List.mem_map.1 hid
    exact hindex r hr (ByKeyBounds.ns_of_contains h)

/-- A scan without rows and with nothing held back yields nothing. -/
theorem QueryRange.next_new {t : Tables} {ns : NamespaceId} (q : Query)
    (h : (QueryRange.new t ns q).size = 0) : ((QueryRange.new t ns q).next q).1 = none := by
  unfold QueryRange.new at h ⊢
  generalize q.indexKind = kind at h ⊢
  cases kind with
  | authorKey range keyFilter =>
    cases range with
    | any =>
      simp only [size, List.length_eq_zero_iff] at h
      simp [next, h, RecordsRange.nextFiltered, nextFilterMap, popFilterMap]
    | exact author =>
      simp only [size, List.length_eq_zero_iff] at h
      simp [next, h, RecordsRange.nextFiltered, nextFilterMap, popFilterMap]
  | keyAuthor range authorFilter latestPerKey =>
    simp only [size, List.length_eq_zero_iff] at h
    cases latestPerKey with
    | false =>
      simp [next, keyAuthorLoop, h, RecordsByKeyRange.nextFiltered, nextFilterMap, popFilterMap, Query.skips]
    | true =>
      simp [next, keyAuthorLoop, h, RecordsByKeyRange.nextFiltered, nextFilterMap, popFilterMap,
        LatestPerKeySelector.push]

/-- A query on a namespace without rows finds nothing. -/
theorem getMany_eq_nil {t : Tables} {ns : NamespaceId} (q : Query)
    (hrecords : ∀ r ∈ t.records.toList, r.1.ns ≠ ns) (hindex : ∀ r ∈ t.recordsByKey.toList, r.1.ns ≠ ns) :
    getMany t ns q = [] := by
  have hnext := QueryRange.next_new q (QueryRange.size_new q hrecords hindex)
  have hskip : ∀ n, (QueryIterator.skipLoop n (.new t ns q)).1 = none := by
    intro n
    cases n with
    | zero => exact hnext
    | succ n =>
      unfold QueryIterator.skipLoop QueryIterator.new
      simp [hnext]
  have hfirst : (QueryIterator.new t ns q).next.1 = none := by
    unfold QueryIterator.next
    split
    · split
      · rfl
      · exact hskip _
    · exact hskip _
  unfold getMany QueryIterator.collect
  rcases heq : (QueryIterator.new t ns q).next with ⟨entry, it⟩
  rw [heq] at hfirst
  cases hfirst
  rfl

end PdnStore.Fs

import PdnStore.Lib.GroupMax
import PdnStore.Store.Query

/-!
# What a query yields, and its pages (query.rs:91-154, util.rs:59-89)

The iterator of a query is taken apart from the inside out. A scan of a table yields its rows, filtered; the
selector makes the list of latest entries of a list of entries; the inner loop drops the deletion markers
from that; the outer loop cuts a window out of what is left. Each layer takes the head off a list (`Yields`),
so the query as a whole yields `QueryIterator.rest`.
-/

namespace PdnStore.Fs

/-! ## The scans -/

/-- What is left of a scan of the records. -/
def RecordsRange.entries (r : RecordsRange) (direction : SortDirection)
    (filter : RecordsId × RecordsValue → Bool) : List SignedEntry :=
  (direction.order r).filterMap fun row => if filter row then some (intoEntry row) else none

theorem RecordsRange.yields_nextFiltered (direction : SortDirection) (filter : RecordsId × RecordsValue → Bool) :
    Yields (fun r => RecordsRange.nextFiltered r direction filter) (fun r => r.entries direction filter) :=
  fun _ => nextFilterMap_eq

namespace RecordsByKeyRange

variable {direction : SortDirection} {filter : RecordsByKeyId → Bool} {r : RecordsByKeyRange}

/-- What is left of a scan of the by-key index. -/
def entries (r : RecordsByKeyRange) (direction : SortDirection) (filter : RecordsByKeyId → Bool) :
    List SignedEntry :=
  (direction.order r.rows).filterMap fun id => if filter id then lookup r.records id else none

theorem yields_nextFiltered (direction : SortDirection) (filter : RecordsByKeyId → Bool) :
    Yields (fun r => nextFiltered r direction filter) (fun r => r.entries direction filter) :=
  fun _ => nextFilterMap_eq

theorem length_entries_le (r : RecordsByKeyRange) (direction : SortDirection) (filter : RecordsByKeyId → Bool) :
    (r.entries direction filter).length ≤ r.rows.length := by
  have h := List.length_filterMap_le (fun id => if filter id then lookup r.records id else none)
    (direction.order r.rows)
  rwa [direction.length_order] at h

theorem length_rows_nextFiltered {e : SignedEntry} (h : (r.nextFiltered direction filter).1 = some e) :
    (r.nextFiltered direction filter).2.rows.length < r.rows.length :=
  length_nextFilterMap h

theorem rows_nextFiltered_of_none (h : (r.nextFiltered direction filter).1 = none) :
    (r.nextFiltered direction filter).2.rows = [] :=
  nextFilterMap_of_none h

end RecordsByKeyRange

/-! ## The selector -/

namespace LatestPerKeySelector

variable {last entry : SignedEntry} {entries : List SignedEntry}

/-- What the selector emits for the entries still to come. -/
def emitted (held : LatestPerKeySelector) (entries : List SignedEntry) : List SignedEntry :=
  groupMax (fun e => e.id.key) (fun e => e.record.timestamp) held entries

@[simp] theorem emitted_nil (held : LatestPerKeySelector) : held.emitted [] = held.toList := groupMax_nil

@[simp] theorem emitted_none_cons : emitted none (entry :: entries) = emitted (some entry) entries := rfl

/-- The later of two entries of a key, the first where they are of the same time. -/
abbrev later (last entry : SignedEntry) : SignedEntry := laterOf (fun e => e.record.timestamp) last entry

theorem emitted_some_cons_of_eq (h : last.id.key = entry.id.key) :
    emitted (some last) (entry :: entries) = emitted (some (later last entry)) entries := groupMax_some_of_eq h

theorem emitted_some_cons_of_ne (h : last.id.key ≠ entry.id.key) :
    emitted (some last) (entry :: entries) = last :: emitted (some entry) entries := groupMax_some_of_ne h

theorem push_some_of_eq (h : last.id.key = entry.id.key) :
    push (some last) (some entry) = (.continue, some (later last entry)) := if_pos h

theorem push_some_of_ne (h : last.id.key ≠ entry.id.key) :
    push (some last) (some entry) = (.some last, some entry) := if_neg h

theorem length_emitted_le (held : LatestPerKeySelector) (entries : List SignedEntry) :
    (held.emitted entries).length ≤ entries.length + 1 :=
  length_groupMax_le

end LatestPerKeySelector

/-! ## The range of a query -/

/-- The entries a query keeps of those it meets. -/
def Query.wants (q : Query) (e : SignedEntry) : Bool := !q.skips (some e)

/-- What is left of the inner loop of the by-key scan. -/
def keyAuthorRest (q : Query) (authorFilter : AuthorFilter) (range : RecordsByKeyRange)
    (selector : Option LatestPerKeySelector) : List SignedEntry :=
  let entries := range.entries q.sortDirection fun id => authorFilter.matches id.author
  match selector with
  | none => entries.filter q.wants
  | some held => (held.emitted entries).filter q.wants

/-- What is left of the scan of a query. -/
def QueryRange.rest (q : Query) : QueryRange → List SignedEntry
  | .authorKey range keyFilter => range.entries q.sortDirection fun r =>
      keyFilter.matches r.1.key && (q.includeEmpty || r.2.hash ≠ Hash.EMPTY)
  | .keyAuthor range authorFilter selector => keyAuthorRest q authorFilter range selector

section Loop

variable {q : Query} {authorFilter : AuthorFilter} {range : RecordsByKeyRange}
  {selector : Option LatestPerKeySelector}

/-- The loop has enough rounds left: one for each row and two to empty the selector. -/
def EnoughRounds (n : Nat) (range : RecordsByKeyRange) (selector : Option LatestPerKeySelector) : Prop :=
  range.rows.length + 2 ≤ n ∨ (range.rows = [] ∧ selector = some none ∧ 1 ≤ n)

theorem EnoughRounds.shorter {n : Nat} {range' : RecordsByKeyRange} (h : EnoughRounds (n + 1) range selector)
    (hshort : range'.rows.length < range.rows.length) (selector' : Option LatestPerKeySelector) :
    EnoughRounds n range' selector' := by
  rcases h with h | ⟨hnil, -, -⟩
  · exact .inl (by omega)
  · simp [hnil] at hshort

theorem keyAuthorLoop_eq {n : Nat} (h : EnoughRounds n range selector) :
    (keyAuthorLoop q authorFilter n range selector).1 =
      (keyAuthorRest q authorFilter range selector).head? ∧
    keyAuthorRest q authorFilter (keyAuthorLoop q authorFilter n range selector).2.1
      (keyAuthorLoop q authorFilter n range selector).2.2 =
      (keyAuthorRest q authorFilter range selector).tail := by
  -- on the rounds; each passes a row, or ends the scan
  induction n generalizing range selector with
  | zero => rcases h with h | ⟨-, -, h⟩ <;> omega
  | succ n ih =>
    obtain ⟨hhead, htail⟩ := RecordsByKeyRange.yields_nextFiltered q.sortDirection
      (fun id => authorFilter.matches id.author) range
    simp only at hhead htail
    rcases hnext : range.nextFiltered q.sortDirection (fun id => authorFilter.matches id.author) with ⟨next, range'⟩
    rw [hnext] at hhead htail
    cases hentries : range.entries q.sortDirection (fun id => authorFilter.matches id.author) with
    | nil =>
      rw [hentries] at hhead htail
      obtain rfl : next = none := hhead
      have hrows : range'.rows = [] := by
        have hended := RecordsByKeyRange.rows_nextFiltered_of_none (congrArg Prod.fst hnext)
        rwa [hnext] at hended
      cases selector with
      | none => simp [keyAuthorLoop, hnext, keyAuthorRest, hentries, htail, Query.skips]
      | some held =>
        cases held with
        | none => simp [keyAuthorLoop, hnext, keyAuthorRest, hentries, htail, LatestPerKeySelector.push]
        | some last =>
          cases hskip : q.skips (some last) with
          | false =>
            simp [keyAuthorLoop, hnext, keyAuthorRest, hentries, htail, LatestPerKeySelector.push, hskip, Query.wants]
          | true =>
            have henough : EnoughRounds n range' (some none) := by
              rcases h with h | ⟨-, hnone, -⟩
              · exact .inr ⟨hrows, rfl, by omega⟩
              · cases hnone
            have hrest := ih henough
            simpa [keyAuthorLoop, hnext, keyAuthorRest, hentries, htail, LatestPerKeySelector.push, hskip,
              Query.wants] using hrest
    | cons entry entries =>
      rw [hentries] at hhead htail
      obtain rfl : next = some entry := hhead
      have hshort : range'.rows.length < range.rows.length := by
        have hlt := RecordsByKeyRange.length_rows_nextFiltered (congrArg Prod.fst hnext)
        rwa [hnext] at hlt
      cases selector with
      | none =>
        cases hskip : q.skips (some entry) with
        | false => simp [keyAuthorLoop, hnext, keyAuthorRest, hentries, htail, hskip, Query.wants]
        | true =>
          have hrest := ih (h.shorter hshort none)
          simpa [keyAuthorLoop, hnext, keyAuthorRest, hentries, htail, hskip, Query.wants] using hrest
      | some held =>
        cases held with
        | none =>
          have hrest := ih (h.shorter hshort (some (some entry)))
          simpa [keyAuthorLoop, hnext, keyAuthorRest, hentries, htail, LatestPerKeySelector.push] using hrest
        | some last =>
          by_cases hkey : last.id.key = entry.id.key
          · have hrest := ih (h.shorter hshort (some (some (LatestPerKeySelector.later last entry))))
            simpa [keyAuthorLoop, hnext, keyAuthorRest, hentries, htail,
              LatestPerKeySelector.push_some_of_eq hkey,
              LatestPerKeySelector.emitted_some_cons_of_eq hkey] using hrest
          · cases hskip : q.skips (some last) with
            | false =>
              simp [keyAuthorLoop, hnext, keyAuthorRest, hentries, htail, hskip, Query.wants,
                LatestPerKeySelector.push_some_of_ne hkey, LatestPerKeySelector.emitted_some_cons_of_ne hkey]
            | true =>
              have hrest := ih (h.shorter hshort (some (some entry)))
              simpa [keyAuthorLoop, hnext, keyAuthorRest, hentries, htail, hskip, Query.wants,
                LatestPerKeySelector.push_some_of_ne hkey,
                LatestPerKeySelector.emitted_some_cons_of_ne hkey] using hrest

end Loop

theorem QueryRange.yields_next (q : Query) : Yields (QueryRange.next q) (QueryRange.rest q) := by
  intro range
  cases range with
  | authorKey range keyFilter => exact RecordsRange.yields_nextFiltered _ _ range
  | keyAuthor range authorFilter selector => exact keyAuthorLoop_eq (.inl le_rfl)

theorem QueryRange.length_rest_le (q : Query) (range : QueryRange) : (range.rest q).length ≤ range.size + 1 := by
  cases range with
  | authorKey range keyFilter =>
    have h := List.length_filterMap_le (fun row : RecordsId × RecordsValue =>
      if keyFilter.matches row.1.key && (q.includeEmpty || row.2.hash ≠ Hash.EMPTY) then some (intoEntry row)
      else none) (q.sortDirection.order range)
    rw [q.sortDirection.length_order] at h
    exact h.trans (Nat.le_succ _)
  | keyAuthor range authorFilter selector =>
    have hentries := range.length_entries_le q.sortDirection fun id => authorFilter.matches id.author
    simp only [rest, keyAuthorRest, size]
    cases selector with
    | none => exact ((List.length_filter_le _ _).trans hentries).trans (Nat.le_succ _)
    | some held =>
      have hemitted := held.length_emitted_le (range.entries q.sortDirection
        fun id => authorFilter.matches id.author)
      exact (List.length_filter_le _ _).trans (hemitted.trans (by omega))

/-! ## The window -/

/-- The window of a list that a query asks for. -/
def Query.window (limit : Option Nat) (offset : Nat) (l : List SignedEntry) : List SignedEntry :=
  match limit with
  | some limit => (l.drop offset).take limit
  | none => l.drop offset

@[simp] theorem Query.window_nil (limit : Option Nat) (offset : Nat) : Query.window limit offset [] = [] := by
  cases limit <;> simp [window]

@[simp] theorem Query.window_succ_cons (limit : Option Nat) (offset : Nat) (e : SignedEntry)
    (l : List SignedEntry) : Query.window limit (offset + 1) (e :: l) = Query.window limit offset l := by
  cases limit <;> simp [window]

/-- Within the limit, the first of the window is the first of the list. -/
theorem Query.window_zero {limit : Option Nat} (h : limit ≠ some 0) (l : List SignedEntry) :
    (Query.window limit 0 l).head? = l.head? ∧
    (Query.window limit 0 l).tail = Query.window (limit.map (· - 1)) 0 l.tail := by
  cases limit with
  | none => simp [window]
  | some limit =>
    cases limit with
    | zero => exact absurd rfl h
    | succ limit => cases l <;> simp [window]

namespace QueryIterator

/-- What the iterator still yields: the scan's rest, less the results still to skip, up to the limit. -/
def rest (it : QueryIterator) : List SignedEntry :=
  Query.window (it.query.limit.map fun limit => limit.val - it.count) (it.query.offset.val - it.offset)
    (it.range.rest it.query)

/-- Below the limit, and with `n` results left to skip. -/
structure Skipping (n : Nat) (it : QueryIterator) : Prop where
  left : it.query.offset.val - it.offset = n
  below : ∀ limit ∈ it.query.limit, it.count < limit.val

theorem skipLoop_eq {n : Nat} {it : QueryIterator} (h : Skipping n it) :
    (skipLoop n it).1 = it.rest.head? ∧ (skipLoop n it).2.rest = it.rest.tail := by
  -- on the results left to skip
  induction n generalizing it with
  | zero =>
    obtain ⟨hhead, htail⟩ := QueryRange.yields_next it.query it.range
    have hlimit : it.query.limit.map (fun limit => limit.val - it.count) ≠ some 0 := by
      intro hzero
      obtain ⟨limit, hmem, hzero⟩ := Option.map_eq_some_iff.1 hzero
      have := h.below limit hmem
      omega
    have hnext : it.query.limit.map (fun limit => limit.val - (it.count + 1)) =
        (it.query.limit.map fun limit => limit.val - it.count).map (· - 1) := by
      rw [Option.map_map]
      rfl
    obtain ⟨hfirst, hothers⟩ := Query.window_zero hlimit (it.range.rest it.query)
    simp only [skipLoop, rest, h.left, hhead, htail, hnext]
    exact ⟨hfirst.symm, hothers.symm⟩
  | succ n ih =>
    obtain ⟨hhead, htail⟩ := QueryRange.yields_next it.query it.range
    cases hlist : it.range.rest it.query with
    | nil =>
      rw [hlist] at hhead htail
      simp [skipLoop, rest, hhead, htail, hlist]
    | cons e l =>
      rw [hlist] at hhead htail
      rcases hnext : it.range.next it.query with ⟨next, range⟩
      rw [hnext] at hhead htail
      obtain rfl : next = some e := hhead
      have hafter : Skipping n { it with range := range, offset := it.offset + 1 } :=
        ⟨by have := h.left; simp only; omega, h.below⟩
      have hrest : ({ it with range := range, offset := it.offset + 1 } : QueryIterator).rest = it.rest := by
        simp only [rest, hafter.left, h.left, hlist, Query.window_succ_cons]
        exact congrArg _ htail
      have := ih hafter
      rw [hrest] at this
      simpa [skipLoop, hnext] using this

theorem yields_next : Yields next rest := by
  intro it
  unfold next
  cases hlimit : it.query.limit with
  | none => exact skipLoop_eq ⟨rfl, by simp [hlimit]⟩
  | some limit =>
    by_cases hcount : it.count ≥ limit.val
    · have hnil : it.rest = [] := by
        have hzero : limit.val - it.count = 0 := by omega
        simp [rest, hlimit, Query.window, hzero]
      simp [hcount, hnil]
    · have hbelow : ∀ limit' ∈ it.query.limit, it.count < limit'.val := by
        intro limit' hmem
        rw [hlimit] at hmem
        cases hmem
        omega
      simp only [hcount, if_false]
      exact skipLoop_eq ⟨rfl, hbelow⟩

theorem collect_eq (n : Nat) (it : QueryIterator) : collect n it = it.rest.take n := by
  induction n generalizing it with
  | zero => rfl
  | succ n ih =>
    obtain ⟨hhead, htail⟩ := yields_next it
    unfold collect
    rcases hnext : it.next with ⟨next, it'⟩
    rw [hnext] at hhead htail
    cases hrest : it.rest with
    | nil =>
      rw [hrest] at hhead
      obtain rfl : next = none := hhead
      rfl
    | cons e l =>
      rw [hrest] at hhead htail
      obtain rfl : next = some e := hhead
      have hl : it'.rest = l := htail
      simp [ih, hl]

end QueryIterator

/-- All the results of a query, before the window is cut. -/
def unpaged (t : Tables) (ns : NamespaceId) (q : Query) : List SignedEntry := (QueryRange.new t ns q).rest q

theorem getMany_eq (t : Tables) (ns : NamespaceId) (q : Query) :
    getMany t ns q = Query.window (q.limit.map Fin.val) q.offset.val (unpaged t ns q) := by
  have hrest : (QueryIterator.new t ns q).rest =
      Query.window (q.limit.map Fin.val) q.offset.val (unpaged t ns q) := rfl
  have hlen : (QueryIterator.new t ns q).rest.length ≤ (QueryRange.new t ns q).size + 1 := by
    have hrange := (QueryRange.new t ns q).length_rest_le q
    rw [hrest]
    unfold Query.window unpaged
    split
    · simp only [List.length_take, List.length_drop]
      omega
    · simp only [List.length_drop]
      omega
  rw [getMany, QueryIterator.collect_eq, List.take_of_length_le (by omega), hrest]

/-- Neither the offset nor the limit has a say in what is scanned and kept. -/
theorem unpaged_congr (t : Tables) (ns : NamespaceId) (q : Query) (limit : Option U64) (offset : U64) :
    unpaged t ns { q with limit := limit, offset := offset } = unpaged t ns q := rfl

theorem getMany_whole (t : Tables) (ns : NamespaceId) (q : Query) :
    getMany t ns { q with limit := none, offset := 0 } = unpaged t ns q := by
  rw [getMany_eq]
  rfl

/-- **A page is a window of the whole result**, and a query that has ended stays ended. -/
theorem pages_are_windows (t : Tables) (ns : NamespaceId) (q : Query) (offset : U64) :
    (∀ limit : U64, getMany t ns { q with limit := some limit, offset := offset } =
      ((getMany t ns { q with limit := none, offset := 0 }).drop offset.val).take limit.val) ∧
    getMany t ns { q with limit := none, offset := offset } =
      (getMany t ns { q with limit := none, offset := 0 }).drop offset.val ∧
    ∀ k m, k ≤ m → (afterCalls QueryIterator.next k (.new t ns q)).next.1 = none →
      (afterCalls QueryIterator.next m (.new t ns q)).next.1 = none := by
  refine ⟨fun limit => ?_, ?_, fun k m hkm hended => next_of_ended QueryIterator.yields_next hkm hended⟩
  · rw [getMany_whole, getMany_eq, unpaged_congr]
    rfl
  · rw [getMany_whole, getMany_eq, unpaged_congr]
    rfl

end PdnStore.Fs

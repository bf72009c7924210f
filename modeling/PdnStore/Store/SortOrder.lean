import PdnStore.Store.LatestPerKey

/-!
# Both directions of a query (query.rs:91-154, util.rs:59-89, ranges.rs:49-68)

A scan backwards is the scan forwards, reversed, and a query without grouping drops the same entries from
either. The selector keeps the first of the entries of one time, so where authors tie for the latest entry
of a key the direction decides which of them is returned.
-/

namespace PdnStore.Fs

open Tables

variable {t : Tables} {ns : NamespaceId} {q : Query} {e e' : SignedEntry}

/-- The query in a direction, without a window. -/
def Query.towards (q : Query) (d : SortDirection) : Query :=
  { q with sortDirection := d, limit := none, offset := 0 }

theorem getMany_towards (d : SortDirection) : getMany t ns (q.towards d) = unpaged t ns (q.towards d) := by
  rw [getMany_eq]
  rfl

/-! ## Queries without grouping -/

/-- What a flat query returns, in the order of its direction. -/
theorem unpaged_flat {sortBy : SortBy} (hkind : q.kind = .flat sortBy) :
    ∃ l, ∀ d, unpaged t ns (q.towards d) = d.order l := by
  have hindex : ∀ d, (q.towards d).indexKind = q.indexKind := fun _ => rfl
  have hflat : ∀ range authorFilter, q.indexKind ≠ .keyAuthor range authorFilter true := by
    intro range authorFilter
    unfold Query.indexKind
    rw [hkind]
    cases q.filterAuthor <;> cases sortBy <;> simp
  cases hq : q.indexKind with
  | authorKey range keyFilter =>
    have hrows : ∃ rows filter, ∀ d, QueryRange.new t ns (q.towards d) = .authorKey rows filter := by
      simp only [QueryRange.new, hindex, hq]
      exact ⟨_, _, fun _ => rfl⟩
    obtain ⟨rows, filter, hrows⟩ := hrows
    refine ⟨rows.filterMap fun row => if filter.matches row.1.key && (q.includeEmpty || row.2.hash ≠ Hash.EMPTY)
      then some (intoEntry row) else none, fun d => ?_⟩
    rw [unpaged, hrows, ← Direction.filterMap_order]
    rfl
  | keyAuthor range authorFilter latestPerKey =>
    cases latestPerKey with
    | false =>
      have hrange : ∃ r, ∀ d, QueryRange.new t ns (q.towards d) = .keyAuthor r authorFilter none := by
        simp only [QueryRange.new, hindex, hq]
        exact ⟨_, fun _ => rfl⟩
      obtain ⟨r, hrange⟩ := hrange
      refine ⟨(r.rows.filterMap fun id => if authorFilter.matches id.author then
        RecordsByKeyRange.lookup r.records id else none).filter q.wants, fun d => ?_⟩
      rw [unpaged, hrange, ← Direction.filter_order, ← Direction.filterMap_order]
      rfl
    | true => exact absurd hq (hflat range authorFilter)

theorem reversed_flat {sortBy : SortBy} (hkind : q.kind = .flat sortBy) :
    getMany t ns (q.towards .desc) = (getMany t ns (q.towards .asc)).reverse := by
  obtain ⟨l, hl⟩ : ∃ l, ∀ d, unpaged t ns (q.towards d) = d.order l := unpaged_flat hkind
  simp only [getMany_towards, hl, Direction.order]

/-! ## The latest entry of each key -/

/-- Wherever authors tie for the latest entry of a key, the first and the last of them wrote deletion markers
that the query does not want. -/
def TiesUnwanted (t : Tables) (ns : NamespaceId) (q : Query) : Prop :=
  ∀ e e', FirstLatest t ns q .asc e → FirstLatest t ns q .desc e' → e.id.key = e'.id.key →
    e.id.author ≠ e'.id.author → q.wants e = false ∧ q.wants e' = false

theorem admits_towards (d : SortDirection) : (q.towards d).Admits t ns e ↔ q.Admits t ns e := by
  constructor
  · rintro ⟨hmem, hns, hauthor, hkey⟩
    exact ⟨hmem, hns, hauthor, hkey⟩
  · rintro ⟨hmem, hns, hauthor, hkey⟩
    exact ⟨hmem, hns, hauthor, hkey⟩

theorem firstLatest_towards (d d' : SortDirection) :
    FirstLatest t ns (q.towards d) d' e ↔ FirstLatest t ns q d' e := by
  have hadmits : ∀ e, (q.towards d).Admits t ns e ↔ q.Admits t ns e := fun _ => admits_towards d
  constructor
  · rintro ⟨hadmitted, hlatest, hfirst⟩
    exact ⟨(hadmits e).1 hadmitted, fun e' he' => hlatest e' ((hadmits e').2 he'),
      fun e' he' => hfirst e' ((hadmits e').2 he')⟩
  · rintro ⟨hadmitted, hlatest, hfirst⟩
    exact ⟨(hadmits e).2 hadmitted, fun e' he' => hlatest e' ((hadmits e').1 he'),
      fun e' he' => hfirst e' ((hadmits e').1 he')⟩

theorem mem_getMany_towards (h : t.IndexComplete) (hkind : q.kind = .singleLatestPerKey) (d : SortDirection) :
    e ∈ getMany t ns (q.towards d) ↔ FirstLatest t ns q d e ∧ q.wants e = true := by
  rw [getMany_towards, mem_unpaged_latest h (show (q.towards d).kind = _ from hkind)]
  exact and_congr_left fun _ => firstLatest_towards d d

theorem sorted_getMany_asc (h : t.IndexComplete) (hkind : q.kind = .singleLatestPerKey) :
    SortedBy (fun e => e.id.key) (getMany t ns (q.towards .asc)) := by
  have hpairs := pairwise_unpaged_latest ns h (show (q.towards .asc).kind = _ from hkind)
  rw [getMany_towards]
  exact hpairs.imp fun h => keyLt_of_scanLt h.1 h.2

theorem sorted_getMany_desc (h : t.IndexComplete) (hkind : q.kind = .singleLatestPerKey) :
    SortedBy (fun e => e.id.key) (getMany t ns (q.towards .desc)).reverse := by
  have hpairs := pairwise_unpaged_latest ns h (show (q.towards .desc).kind = _ from hkind)
  have hkeys : (unpaged t ns (q.towards .desc)).Pairwise fun a b => b.id.key < a.id.key :=
    hpairs.imp fun h => (keyLt_of_scanLt h.1 h.2 : KeyLt .desc _ _)
  rw [getMany_towards]
  exact List.pairwise_reverse.2 hkeys

theorem reversed_latest_iff (h : t.IndexComplete) (hkind : q.kind = .singleLatestPerKey) :
    getMany t ns (q.towards .desc) = (getMany t ns (q.towards .asc)).reverse ↔ TiesUnwanted t ns q := by
  have hasc : ∀ e, e ∈ getMany t ns (q.towards .asc) ↔ FirstLatest t ns q .asc e ∧ q.wants e = true :=
    fun _ => mem_getMany_towards h hkind .asc
  have hdesc : ∀ e, e ∈ getMany t ns (q.towards .desc) ↔ FirstLatest t ns q .desc e ∧ q.wants e = true :=
    fun _ => mem_getMany_towards h hkind .desc
  constructor
  · intro hrev e e' he he' hkey hauthor
    have hne : e ≠ e' := fun heq => hauthor (by rw [heq])
    constructor
    · by_contra hwants
      have hin : e ∈ getMany t ns (q.towards .desc) := by
        rw [hrev, List.mem_reverse]
        exact (hasc e).2 ⟨he, eq_true_of_ne_false hwants⟩
      exact hne (((hdesc e).1 hin).1.unique he' hkey)
    · by_contra hwants
      have hin : e' ∈ getMany t ns (q.towards .asc) := by
        rw [← List.mem_reverse, ← hrev]
        exact (hdesc e').2 ⟨he', eq_true_of_ne_false hwants⟩
      exact hne (he.unique ((hasc e').1 hin).1 hkey)
  · intro hties
    rw [← List.reverse_eq_iff]
    refine (sorted_getMany_desc h hkind).ext (sorted_getMany_asc h hkind) fun e => ?_
    rw [List.mem_reverse, hasc, hdesc]
    constructor
    · rintro ⟨he, hwants⟩
      obtain ⟨first, hfirst, hkey⟩ := exists_firstLatest h .asc he.admitted
      by_cases hauthor : first.id.author = e.id.author
      · exact ⟨hfirst.admitted.eq he.admitted hauthor hkey ▸ hfirst, hwants⟩
      · rw [(hties first e hfirst he hkey hauthor).2] at hwants
        cases hwants
    · rintro ⟨he, hwants⟩
      obtain ⟨last, hlast, hkey⟩ := exists_firstLatest h .desc he.admitted
      by_cases hauthor : e.id.author = last.id.author
      · exact ⟨hlast.admitted.eq he.admitted hauthor.symm hkey ▸ hlast, hwants⟩
      · rw [(hties e last he hlast hkey.symm hauthor).1] at hwants
        cases hwants

/-- **When descending order is the reverse of ascending order.** -/
theorem desc_reverses_asc_iff (t : Tables) (ns : NamespaceId) (q : Query) (hindex : t.IndexComplete) :
    getMany t ns (q.towards .desc) = (getMany t ns (q.towards .asc)).reverse ↔
      (q.kind = .singleLatestPerKey → TiesUnwanted t ns q) := by
  cases hkind : q.kind with
  | flat sortBy => exact iff_of_true (reversed_flat hkind) fun h => by cases h
  | singleLatestPerKey =>
    rw [reversed_latest_iff hindex hkind]
    exact ⟨fun h _ => h, fun h => h rfl⟩

section

local instance orderDigest : Blake3 := noDigest

local instance orderKeys : Ed25519 := ⟨id⟩

/-- The tables after two authors wrote the key at the same time. -/
def writtenAtOnce : Tables := ((default : FsStore).run [.put (entryBy zeros32 3), .put (entryBy ones32 3)]).tables

/-- Where nobody ties, either direction returns the later entry. -/
theorem desc_reverses_asc_iff_writtenByTwo :
    getMany writtenByTwo zeros32 ((latestBy .any .asc).towards .desc) =
      (getMany writtenByTwo zeros32 ((latestBy .any .asc).towards .asc)).reverse := by
  refine (desc_reverses_asc_iff _ _ _ indexComplete_writtenByTwo).2 fun _ e e' he he' hkey hauthor => ?_
  -- two entries of one time would be one entry
  have hentries : ∀ e ∈ writtenByTwo.entries, ∀ e' ∈ writtenByTwo.entries,
      e.record.timestamp = e'.record.timestamp → e.id.author = e'.id.author := by decide +kernel
  have htime : e.record.timestamp = e'.record.timestamp :=
    le_antisymm (he'.latest e he.admitted hkey) (he.latest e' he'.admitted hkey.symm)
  exact absurd (hentries e he.admitted.mem e' he'.admitted.mem htime) hauthor

/-- With a tie, the direction chooses the author. -/
theorem direction_chooses_author :
    getMany writtenAtOnce zeros32 ((latestBy .any .asc).towards .asc) = [entryBy zeros32 3] ∧
    getMany writtenAtOnce zeros32 ((latestBy .any .asc).towards .desc) = [entryBy ones32 3] ∧
    getMany writtenAtOnce zeros32 ((latestBy .any .asc).towards .desc) ≠
      (getMany writtenAtOnce zeros32 ((latestBy .any .asc).towards .asc)).reverse := by
  have hasc : getMany writtenAtOnce zeros32 ((latestBy .any .asc).towards .asc) = [entryBy zeros32 3] := by
    decide +kernel
  have hdesc : getMany writtenAtOnce zeros32 ((latestBy .any .asc).towards .desc) = [entryBy ones32 3] := by
    decide +kernel
  refine ⟨hasc, hdesc, ?_⟩
  rw [hasc, hdesc]
  decide

end

end PdnStore.Fs

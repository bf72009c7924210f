import PdnStore.Store.Index
import PdnStore.Store.Pages
import PdnStore.Store.Select

/-!
# The latest entry of each key (store.rs:279-290, query.rs:105-138, util.rs:59-89)

"The key filter is applied *before* the grouping, the author filter is applied *after* the grouping." The scan
applies both before: an author's entry is returned although another author has a newer one. And the bounds
of a prefix may reach keys that do not have it. What is returned is told by `FirstLatest`, of the entries
the scan lets through; `returns_latest_per_key_iff` says when that is what the documentation promises.

| here | there |
| --- | --- |
| `Query.Admits`       | the entries that reach the selector (`query.rs:105-122`) |
| `FirstLatest`        | the entry of a key the selector holds when the key is over |
| `FollowsGrouping`    | the documented result (`store.rs:279-280`) |
-/

namespace PdnStore.Fs

open Tables

/-! ## The order of a scan -/

namespace Tables

theorem keyAuthorLt_iff {a b : SignedEntry} : KeyAuthorLt a b ↔
    toLex (a.id.key, a.id.author) < toLex (b.id.key, b.id.author) := by
  rw [Prod.Lex.toLex_lt_toLex]
  rfl

theorem KeyAuthorLt.key_le {a b : SignedEntry} (h : KeyAuthorLt a b) : a.id.key ≤ b.id.key :=
  h.elim le_of_lt fun h => h.1.le

end Tables

/-- The order in which a scan in that direction comes by the entries. -/
def ScanLt : SortDirection → SignedEntry → SignedEntry → Prop
  | .asc, a, b => KeyAuthorLt a b
  | .desc, a, b => KeyAuthorLt b a

/-- The author comes no later in a scan in that direction. -/
def ComesFirst : SortDirection → AuthorId → AuthorId → Prop
  | .asc, a, b => a ≤ b
  | .desc, a, b => b ≤ a

section Order

variable {d : SortDirection} {a b c : SignedEntry}

theorem ScanLt.asymm (h : ScanLt d a b) : ¬ ScanLt d b a := by
  cases d <;> simp only [ScanLt, keyAuthorLt_iff] at h ⊢ <;> exact h.asymm

theorem ScanLt.trans (h : ScanLt d a b) (h' : ScanLt d b c) : ScanLt d a c := by
  cases d with
  | asc => exact keyAuthorLt_iff.2 ((keyAuthorLt_iff.1 h).trans (keyAuthorLt_iff.1 h'))
  | desc => exact keyAuthorLt_iff.2 ((keyAuthorLt_iff.1 h').trans (keyAuthorLt_iff.1 h))

/-- The entries of a key come in one go. -/
theorem ScanLt.group (h : ScanLt d a b) (h' : ScanLt d b c) (hkey : a.id.key = c.id.key) :
    a.id.key = b.id.key := by
  cases d with
  | asc => exact le_antisymm h.key_le (hkey ▸ h'.key_le)
  | desc => exact le_antisymm (hkey ▸ h'.key_le) h.key_le

/-- Within a key, the scan goes by author. -/
theorem scanLt_iff_of_key (hkey : a.id.key = b.id.key) :
    a = b ∨ ScanLt d a b → ComesFirst d a.id.author b.id.author := by
  rintro (rfl | h)
  · cases d <;> exact le_rfl
  · cases d with
    | asc => exact (h.resolve_left (by simp [hkey])).2.le
    | desc => exact (h.resolve_left (by simp [hkey])).2.le

theorem ScanLt.of_comesFirst (hkey : a.id.key = b.id.key) (hne : a.id.author ≠ b.id.author)
    (h : ComesFirst d a.id.author b.id.author) : ScanLt d a b := by
  cases d with
  | asc => exact .inr ⟨hkey, lt_of_le_of_ne h hne⟩
  | desc => exact .inr ⟨hkey.symm, lt_of_le_of_ne h hne.symm⟩

theorem ComesFirst.antisymm {a b : AuthorId} (h : ComesFirst d a b) (h' : ComesFirst d b a) : a = b := by
  cases d with
  | asc => exact le_antisymm h h'
  | desc => exact le_antisymm h' h

theorem pairwise_order {l : List SignedEntry} (h : l.Pairwise KeyAuthorLt) :
    (d.order l).Pairwise (ScanLt d) := by
  cases d with
  | asc => exact h
  | desc => exact List.pairwise_reverse.2 h

end Order

/-! ## The entries a scan lets through -/

variable {t : Tables} {ns : NamespaceId} {q : Query} {e e' : SignedEntry}

/-- The entry is within the bounds of the key filter and passes the author filter. -/
structure Query.Admits (q : Query) (t : Tables) (ns : NamespaceId) (e : SignedEntry) : Prop where
  mem : e ∈ t.entries
  inNamespace : e.id.namespace = ns
  author : q.filterAuthor.matches e.id.author = true
  key : q.filterKey.matches e.id.key = true ∨ q.filterKey.Overshoots e.id.key

/-- What the by-key scan of a query comes by, in ascending order. -/
def scanned (t : Tables) (ns : NamespaceId) (q : Query) : List SignedEntry :=
  ((t.recordsByKey.toList.map Prod.fst).filter (ByKeyBounds.new ns q.filterKey).contains).filterMap fun id =>
    if q.filterAuthor.matches id.author then RecordsByKeyRange.lookup t.records id else none

theorem mem_scanned (h : t.IndexComplete) : e ∈ scanned t ns q ↔ q.Admits t ns e := by
  simp only [scanned, List.mem_filterMap, List.mem_filter, ByKeyBounds.contains_new]
  constructor
  · rintro ⟨id, ⟨-, hns, hkey⟩, hid⟩
    split at hid
    next hauthor =>
      obtain ⟨he, rfl⟩ := lookup_eq_some.1 hid
      exact ⟨he, hns, hauthor, hkey⟩
    next => cases hid
  · rintro ⟨he, hns, hauthor, hkey⟩
    refine ⟨(row e).1.byKey, ⟨List.mem_map.2 ⟨_, h _ (mem_entries.1 he), rfl⟩, hns, hkey⟩, ?_⟩
    have hrow : (row e).1.byKey.author = e.id.author := rfl
    rw [hrow, if_pos hauthor, lookup_eq_some]
    exact ⟨he, rfl⟩

theorem pairwise_scanned (t : Tables) (ns : NamespaceId) (q : Query) :
    (scanned t ns q).Pairwise KeyAuthorLt := by
  have hrows : ((t.recordsByKey.toList.map Prod.fst).filter
      (ByKeyBounds.new ns q.filterKey).contains).Pairwise (· < ·) :=
    List.Pairwise.filter _ (List.pairwise_map.2 t.recordsByKey.sorted)
  refine List.pairwise_filterMap.2 (hrows.imp_of_mem ?_)
  intro id id' hid hid' hlt e he e' he'
  have hns := (ByKeyBounds.contains_new.1 (List.mem_filter.1 hid).2).1
  have hns' := (ByKeyBounds.contains_new.1 (List.mem_filter.1 hid').2).1
  split at he
  next =>
    split at he'
    next =>
      obtain ⟨-, rfl⟩ := lookup_eq_some.1 he
      obtain ⟨-, rfl⟩ := lookup_eq_some.1 he'
      exact keyAuthorLt_of_lt (hns.trans hns'.symm) hlt
    next => cases he'
  next => cases he

/-- An entry is its namespace, author and key. -/
theorem eq_of_author_key (he : e ∈ t.entries) (he' : e' ∈ t.entries)
    (hns : e.id.namespace = e'.id.namespace) (hauthor : e.id.author = e'.id.author)
    (hkey : e.id.key = e'.id.key) : e = e' := by
  have hrows := t.records.sorted.eq_of_key (mem_entries.1 he) (mem_entries.1 he')
    (by simp [row, hns, hauthor, hkey])
  rw [← intoEntry_row e, hrows, intoEntry_row]

/-- Let through, it is its author and key. -/
theorem Query.Admits.eq (h : q.Admits t ns e) (h' : q.Admits t ns e') (hauthor : e.id.author = e'.id.author)
    (hkey : e.id.key = e'.id.key) : e = e' :=
  eq_of_author_key h.mem h'.mem (h.inNamespace.trans h'.inNamespace.symm) hauthor hkey

/-! ## What is returned -/

/-- The entry the selector holds when its key is over: of the greatest timestamp among those the scan lets
through, and the first of them in scan order. -/
structure FirstLatest (t : Tables) (ns : NamespaceId) (q : Query) (d : SortDirection) (e : SignedEntry) :
    Prop where
  admitted : q.Admits t ns e
  latest : ∀ e', q.Admits t ns e' → e'.id.key = e.id.key → e'.record.timestamp ≤ e.record.timestamp
  first : ∀ e', q.Admits t ns e' → e'.id.key = e.id.key → e'.record.timestamp = e.record.timestamp →
    ComesFirst d e.id.author e'.id.author

theorem FirstLatest.unique {d : SortDirection} (h : FirstLatest t ns q d e) (h' : FirstLatest t ns q d e')
    (hkey : e.id.key = e'.id.key) : e = e' := by
  have htime : e.record.timestamp = e'.record.timestamp :=
    le_antisymm (h'.latest e h.admitted hkey) (h.latest e' h'.admitted hkey.symm)
  refine h.admitted.eq h'.admitted ?_ hkey
  exact (h.first e' h'.admitted hkey.symm htime.symm).antisymm (h'.first e h.admitted hkey htime)

theorem chosen_iff_firstLatest (h : t.IndexComplete) {d : SortDirection} :
    Chosen (fun e => e.id.key) (fun e => e.record.timestamp) (ScanLt d) (d.order (scanned t ns q)) e ↔
      FirstLatest t ns q d e := by
  have hmem : ∀ e, e ∈ d.order (scanned t ns q) ↔ q.Admits t ns e := by
    intro e
    rw [← mem_scanned h]
    cases d <;> simp [Direction.order]
  constructor
  · rintro ⟨hin, hgreatest, hfirst⟩
    refine ⟨(hmem e).1 hin, fun e' he' => hgreatest e' ((hmem e').2 he'), fun e' he' hkey htime => ?_⟩
    apply scanLt_iff_of_key hkey.symm
    exact (hfirst e' ((hmem e').2 he') hkey htime).imp_left Eq.symm
  · rintro ⟨hadmitted, hlatest, hfirst⟩
    refine ⟨(hmem e).2 hadmitted, fun e' he' => hlatest e' ((hmem e').1 he'), fun e' he' hkey htime => ?_⟩
    have hadmitted' := (hmem e').1 he'
    by_cases hauthor : e.id.author = e'.id.author
    · exact .inl (hadmitted.eq hadmitted' hauthor hkey.symm).symm
    · exact .inr (.of_comesFirst hkey.symm hauthor (hfirst e' hadmitted' hkey htime))

/-- Every key that is let through has one. -/
theorem exists_firstLatest (h : t.IndexComplete) (d : SortDirection) (he : q.Admits t ns e) :
    ∃ e', FirstLatest t ns q d e' ∧ e'.id.key = e.id.key := by
  have hin : e ∈ d.order (scanned t ns q) := by
    have hmem := (mem_scanned h).2 he
    cases d
    · exact hmem
    · exact List.mem_reverse.2 hmem
  obtain ⟨e', hchosen, hkey⟩ := exists_chosen (R := ScanLt d) (fun e => e.id.key)
    (fun e => e.record.timestamp) (fun _ _ => ScanLt.asymm) (fun _ _ _ => ScanLt.trans) (fun _ _ _ => ScanLt.group)
    (pairwise_order (pairwise_scanned t ns q)) hin
  exact ⟨e', (chosen_iff_firstLatest h).1 hchosen, hkey⟩

theorem unpaged_singleLatestPerKey (hkind : q.kind = .singleLatestPerKey) : unpaged t ns q =
    (LatestPerKeySelector.emitted none (q.sortDirection.order (scanned t ns q))).filter q.wants := by
  have hindex : q.indexKind = .keyAuthor q.filterKey q.filterAuthor true := by simp [Query.indexKind, hkind]
  simp only [unpaged, QueryRange.new, hindex, if_true, QueryRange.rest, keyAuthorRest,
    RecordsByKeyRange.entries, RecordsByKeyRange.withBounds, Direction.filterMap_order]
  rfl

theorem mem_unpaged_latest (h : t.IndexComplete) (hkind : q.kind = .singleLatestPerKey) :
    e ∈ unpaged t ns q ↔ FirstLatest t ns q q.sortDirection e ∧ q.wants e = true := by
  rw [unpaged_singleLatestPerKey hkind, List.mem_filter, ← chosen_iff_firstLatest h]
  exact and_congr_left fun _ => mem_groupMax_none (fun _ _ => ScanLt.asymm) (fun _ _ _ => ScanLt.trans)
    (fun _ _ _ => ScanLt.group) (pairwise_order (pairwise_scanned t ns q))

/-- The results come in the order of the scan, and no two of a key. -/
theorem pairwise_unpaged_latest (ns : NamespaceId) (h : t.IndexComplete) (hkind : q.kind = .singleLatestPerKey) :
    (unpaged t ns q).Pairwise fun a b => ScanLt q.sortDirection a b ∧ a.id.key ≠ b.id.key := by
  have hfirst : ∀ e ∈ unpaged t ns q, FirstLatest t ns q q.sortDirection e :=
    fun e he => ((mem_unpaged_latest h hkind).1 he).1
  have hscan : (unpaged t ns q).Pairwise (ScanLt q.sortDirection) := by
    rw [unpaged_singleLatestPerKey hkind]
    exact ((pairwise_order (pairwise_scanned t ns q)).sublist groupMax_none_sublist).filter _
  refine hscan.imp_of_mem fun ha hb hlt => ⟨hlt, fun hkey => ?_⟩
  obtain rfl := (hfirst _ ha).unique (hfirst _ hb) hkey
  exact hlt.asymm hlt

/-! ## What is documented -/

/-- The entry with the greatest timestamp among all authors' entries for its key; with a tie, one of them. -/
structure IsLatest (t : Tables) (ns : NamespaceId) (e : SignedEntry) : Prop where
  mem : e ∈ t.entries
  inNamespace : e.id.namespace = ns
  latest : ∀ e' ∈ t.entries, e'.id.namespace = ns → e'.id.key = e.id.key →
    e'.record.timestamp ≤ e.record.timestamp

/-- The keys in the order of the direction. -/
def KeyLt : SortDirection → Bytes → Bytes → Prop
  | .asc, a, b => a < b
  | .desc, a, b => b < a

/-- "The key filter is applied *before* the grouping, the author filter is applied *after* the grouping"
(store.rs:279): the latest entry of each matched key, in key order, where its author passes. -/
structure FollowsGrouping (t : Tables) (ns : NamespaceId) (q : Query) (results : List SignedEntry) : Prop where
  ordered : results.Pairwise fun a b => KeyLt q.sortDirection a.id.key b.id.key
  grouped : ∃ latest : Bytes → SignedEntry,
    (∀ e ∈ t.entries, e.id.namespace = ns → IsLatest t ns (latest e.id.key) ∧ (latest e.id.key).id.key = e.id.key) ∧
    ∀ e, e ∈ results ↔ (e ∈ t.entries ∧ e.id.namespace = ns) ∧ q.filterKey.matches e.id.key = true ∧
      latest e.id.key = e ∧ q.filterAuthor.matches e.id.author = true ∧ q.wants e = true

/-- No author the filter refuses has a newer entry at a key where a wanted one passes. -/
def RefusedAreOlder (t : Tables) (ns : NamespaceId) (q : Query) : Prop :=
  ∀ e ∈ t.entries, ∀ e' ∈ t.entries, e.id.namespace = ns → e'.id.namespace = ns → e'.id.key = e.id.key →
    q.filterKey.matches e.id.key = true → q.filterAuthor.matches e.id.author = true → q.wants e = true →
    q.filterAuthor.matches e'.id.author = false → e'.record.timestamp ≤ e.record.timestamp

/-- Beyond the prefix, every key's entry is a deletion marker the query does not want. -/
def OvershotUnwanted (t : Tables) (ns : NamespaceId) (q : Query) : Prop :=
  ∀ e, FirstLatest t ns q q.sortDirection e → q.filterKey.Overshoots e.id.key → q.wants e = false

theorem IsLatest.exists (h : t.IndexComplete) (he : e ∈ t.entries) (hns : e.id.namespace = ns) :
    ∃ m, IsLatest t ns m ∧ m.id.key = e.id.key := by
  -- the query without filters
  obtain ⟨m, hm, hkey⟩ := exists_firstLatest (q := ⟨.singleLatestPerKey, .any, .any, none, 0, true, .asc⟩) h .asc
    ⟨he, hns, rfl, .inl rfl⟩
  exact ⟨m, ⟨hm.admitted.mem, hm.admitted.inNamespace,
    fun e' he' hns' hkey' => hm.latest e' ⟨he', hns', rfl, .inl rfl⟩ hkey'⟩, hkey⟩

/-- At most one author passes when some author does not. -/
theorem AuthorFilter.eq_of_matches {f : AuthorFilter} {a b c : AuthorId} (ha : f.matches a = true)
    (hb : f.matches b = true) (hc : f.matches c = false) : a = b := by
  cases f with
  | any => cases hc
  | exact author =>
    simp only [AuthorFilter.matches, decide_eq_true_eq] at ha hb
    rw [← ha, hb]

/-- At each key, what is returned and what is documented agree on a latest entry. -/
theorem agree_at_key (h : t.IndexComplete) (hrefused : RefusedAreOlder t ns q) (hover : OvershotUnwanted t ns q)
    (he : e ∈ t.entries) (hns : e.id.namespace = ns) :
    ∃ m, (IsLatest t ns m ∧ m.id.key = e.id.key) ∧ ∀ x, x.id.key = e.id.key →
      (FirstLatest t ns q q.sortDirection x ∧ q.wants x = true ↔ q.filterKey.matches x.id.key = true ∧ m = x ∧
        q.filterAuthor.matches x.id.author = true ∧ q.wants x = true) := by
  by_cases hshown : ∃ w, (FirstLatest t ns q q.sortDirection w ∧ q.wants w = true) ∧ w.id.key = e.id.key
  · obtain ⟨w, ⟨hw, hwants⟩, hkey⟩ := hshown
    have hmatches : q.filterKey.matches w.id.key = true := by
      refine hw.admitted.key.resolve_right fun hshort => ?_
      rw [hover w hw hshort] at hwants
      cases hwants
    refine ⟨w, ⟨⟨hw.admitted.mem, hw.admitted.inNamespace, fun e' he' hns' hkey' => ?_⟩, hkey⟩, fun x hx => ?_⟩
    · cases hauthor : q.filterAuthor.matches e'.id.author with
      | true => exact hw.latest e' ⟨he', hns', hauthor, .inl (hkey' ▸ hmatches)⟩ hkey'
      | false =>
        exact hrefused w hw.admitted.mem e' he' hw.admitted.inNamespace hns' hkey' hmatches hw.admitted.author
          hwants hauthor
    · constructor
      · rintro ⟨hfirst, hxwants⟩
        obtain rfl := hw.unique hfirst (hkey.trans hx.symm)
        exact ⟨hmatches, rfl, hw.admitted.author, hwants⟩
      · rintro ⟨-, rfl, -, -⟩
        exact ⟨hw, hwants⟩
  · -- nothing is returned: some latest entry is not to be returned either
    have hnone : ∀ m, m.id.key = e.id.key →
        ¬ (q.filterKey.matches m.id.key = true ∧ q.filterAuthor.matches m.id.author = true ∧ q.wants m = true) →
        ∀ x, x.id.key = e.id.key → (FirstLatest t ns q q.sortDirection x ∧ q.wants x = true ↔
          q.filterKey.matches x.id.key = true ∧ m = x ∧ q.filterAuthor.matches x.id.author = true ∧
            q.wants x = true) := by
      intro m _ hno x hx
      constructor
      · exact fun hxshown => absurd ⟨x, hxshown, hx⟩ hshown
      · rintro ⟨hmatches, rfl, hauthor, hwants⟩
        exact absurd ⟨hmatches, hauthor, hwants⟩ hno
    obtain ⟨m, hm, hkey⟩ := IsLatest.exists h he hns
    by_cases hno : q.filterKey.matches m.id.key = true ∧ q.filterAuthor.matches m.id.author = true ∧ q.wants m = true
    · obtain ⟨w, hw, hwkey⟩ := exists_firstLatest h q.sortDirection ⟨hm.mem, hm.inNamespace, hno.2.1, .inl hno.1⟩
      have hwlatest : IsLatest t ns w := by
        refine ⟨hw.admitted.mem, hw.admitted.inNamespace, fun e' he' hns' hkey' => ?_⟩
        exact (hm.latest e' he' hns' (hkey'.trans hwkey)).trans
          (hw.latest m ⟨hm.mem, hm.inNamespace, hno.2.1, .inl hno.1⟩ hwkey.symm)
      refine ⟨w, ⟨hwlatest, hwkey.trans hkey⟩, hnone w (hwkey.trans hkey) ?_⟩
      rintro ⟨-, -, hwants⟩
      exact hshown ⟨w, ⟨hw, hwants⟩, hwkey.trans hkey⟩
    · exact ⟨m, ⟨hm, hkey⟩, hnone m hkey hno⟩

theorem keyLt_of_scanLt {d : SortDirection} {a b : SignedEntry} (h : ScanLt d a b)
    (hne : a.id.key ≠ b.id.key) : KeyLt d a.id.key b.id.key := by
  cases d with
  | asc => exact h.resolve_right fun heq => hne heq.1
  | desc => exact h.resolve_right fun heq => hne heq.1.symm

/-- **When the latest entry of each key is returned as documented.** -/
theorem returns_latest_per_key_iff (t : Tables) (ns : NamespaceId) (q : Query) (hindex : t.IndexComplete)
    (hkind : q.kind = .singleLatestPerKey) (hlimit : q.limit = none) (hoffset : q.offset = 0) :
    FollowsGrouping t ns q (getMany t ns q) ↔ RefusedAreOlder t ns q ∧ OvershotUnwanted t ns q := by
  have hwhole : getMany t ns q = unpaged t ns q := by
    rw [getMany_eq, hlimit, hoffset]
    rfl
  have hmem : ∀ e, e ∈ getMany t ns q ↔ FirstLatest t ns q q.sortDirection e ∧ q.wants e = true := by
    intro e
    rw [hwhole, mem_unpaged_latest hindex hkind]
  constructor
  · rintro ⟨-, latest, hlatest, hresults⟩
    constructor
    · intro e he e' he' hns hns' hkey hmatches hauthor hwants hrefused
      -- the only author that passes
      obtain ⟨w, hw, hwkey⟩ := exists_firstLatest hindex q.sortDirection ⟨he, hns, hauthor, .inl hmatches⟩
      have hwe : w = e := hw.admitted.eq ⟨he, hns, hauthor, .inl hmatches⟩
        (AuthorFilter.eq_of_matches hw.admitted.author hauthor hrefused) hwkey
      subst hwe
      obtain ⟨-, -, heq, -⟩ := (hresults w).1 ((hmem w).2 ⟨hw, hwants⟩)
      have hmax := (hlatest w he hns).1
      rw [heq] at hmax
      exact hmax.latest e' he' hns' hkey
    · intro e hfirst hshort
      by_contra hwants
      have hshown := (hmem e).2 ⟨hfirst, eq_true_of_ne_false hwants⟩
      obtain ⟨-, hmatches, -⟩ := (hresults e).1 hshown
      rw [KeyFilter.not_matches_of_overshoots hshort] at hmatches
      cases hmatches
  · rintro ⟨hrefused, hover⟩
    refine ⟨?_, ?_⟩
    · rw [hwhole]
      exact (pairwise_unpaged_latest ns hindex hkind).imp fun h => keyLt_of_scanLt h.1 h.2
    · have hagree : ∀ k : Bytes, ∃ m, (∃ e ∈ t.entries, e.id.namespace = ns ∧ e.id.key = k) →
          (IsLatest t ns m ∧ m.id.key = k) ∧ ∀ x, x.id.key = k →
            (FirstLatest t ns q q.sortDirection x ∧ q.wants x = true ↔ q.filterKey.matches x.id.key = true ∧ m = x ∧
              q.filterAuthor.matches x.id.author = true ∧ q.wants x = true) := by
        intro k
        by_cases hk : ∃ e ∈ t.entries, e.id.namespace = ns ∧ e.id.key = k
        · obtain ⟨e, he, hns, rfl⟩ := hk
          obtain ⟨m, hm⟩ := agree_at_key hindex hrefused hover he hns
          exact ⟨m, fun _ => hm⟩
        · exact ⟨sampleEntry k ⟨0, Hash.EMPTY, 0⟩, fun h => absurd h hk⟩
      choose latest hlatest using hagree
      refine ⟨latest, fun e he hns => (hlatest e.id.key ⟨e, he, hns, rfl⟩).1, fun e => ?_⟩
      rw [hmem]
      constructor
      · rintro hshown
        have hadmitted := hshown.1.admitted
        exact ⟨⟨hadmitted.mem, hadmitted.inNamespace⟩,
          ((hlatest e.id.key ⟨e, hadmitted.mem, hadmitted.inNamespace, rfl⟩).2 e rfl).1 hshown⟩
      · rintro ⟨⟨he, hns⟩, hdoc⟩
        exact ((hlatest e.id.key ⟨e, he, hns, rfl⟩).2 e rfl).2 hdoc

section

local instance groupingDigest : Blake3 := noDigest

local instance groupingKeys : Ed25519 := ⟨id⟩

/-- An entry at the key `[1]`. -/
def entryBy (author : AuthorId) (timestamp : U64) : SignedEntry where
  signature := (sampleEntry [] ⟨7, zeros32, 0⟩).signature
  entry := ⟨.new zeros32 author [1], ⟨7, zeros32, timestamp⟩⟩

/-- The tables after two authors wrote the key, the second one later. -/
def writtenByTwo : Tables := ((default : FsStore).run [.put (entryBy zeros32 3), .put (entryBy ones32 5)]).tables

def latestBy (filterAuthor : AuthorFilter) (direction : SortDirection) : Query :=
  ⟨.singleLatestPerKey, filterAuthor, .any, none, 0, false, direction⟩

theorem indexComplete_writtenByTwo : writtenByTwo.IndexComplete :=
  FsStore.run_preserves (P := fun s => s.tables.IndexComplete) FsStore.indexComplete_step
    (fun _ hr => absurd hr List.not_mem_nil) _

/-- Without an author filter the later entry is returned, as documented. -/
theorem returns_latest_per_key_iff_any_author :
    FollowsGrouping writtenByTwo zeros32 (latestBy .any .asc) (getMany writtenByTwo zeros32 (latestBy .any .asc)) :=
  (returns_latest_per_key_iff _ _ _ indexComplete_writtenByTwo rfl rfl rfl).2
    ⟨fun _ _ _ _ _ _ _ _ _ _ hrefused => Bool.noConfusion hrefused, fun _ _ hshort => absurd hshort id⟩

/-- With one, the earlier entry of the author asked for is returned. -/
theorem author_filter_acts_before_grouping :
    getMany writtenByTwo zeros32 (latestBy (.exact zeros32) .asc) = [entryBy zeros32 3] ∧
    ¬ FollowsGrouping writtenByTwo zeros32 (latestBy (.exact zeros32) .asc)
      (getMany writtenByTwo zeros32 (latestBy (.exact zeros32) .asc)) := by
  have hreturned : getMany writtenByTwo zeros32 (latestBy (.exact zeros32) .asc) = [entryBy zeros32 3] := by
    decide +kernel
  refine ⟨hreturned, ?_⟩
  rintro ⟨-, latest, hlatest, hresults⟩
  have hold : entryBy zeros32 3 ∈ writtenByTwo.entries := by decide +kernel
  have hnew : entryBy ones32 5 ∈ writtenByTwo.entries := by decide +kernel
  rw [hreturned] at hresults
  obtain ⟨-, -, heq, -⟩ := (hresults (entryBy zeros32 3)).1 (.head _)
  have hmax := (hlatest _ hold (by decide)).1
  rw [heq] at hmax
  have hle := hmax.latest _ hnew (by decide) (by decide)
  exact absurd hle (by decide)

end

end PdnStore.Fs

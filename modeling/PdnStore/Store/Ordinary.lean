import PdnStore.Session.Simulate
import PdnStore.Store.Put

/-!
# The persistent store where it meets the contract (fs.rs:813-1051)

`ReferenceTables` are the tables of the persistent store under the operations that the trait's comments
describe; they meet the contract. Among entries that `parents` finds, and to whose keys no prefix bound of
another one overshoots, the persistent store does the same, and so does a session over it
(`simulates_session`).
-/

namespace PdnStore.Fs

open Ranger Session

/-- Entries of one namespace, none a tombstone or at the empty key, and none at a key to which the bounds of
another one's key overshoot. -/
structure Ordinary (ns : NamespaceId) (W : Set SignedEntry) : Prop where
  of_namespace : ∀ e ∈ W, e.id.namespace = ns
  visible : ∀ e ∈ W, Visible e
  apart : ∀ e ∈ W, ∀ e' ∈ W, e'.id.author = e.id.author → ¬ Overshoots e.id.key e'.id.key

/-! ## The reference store -/

/-- Tables under the operations of the trait's comments. -/
structure ReferenceTables (ns : NamespaceId) where
  tables : Tables

namespace ReferenceTables

variable {ns : NamespaceId}

/-- The rows with the identifier as a prefix, and a value the predicate is true of. -/
def beneath (id : RecordIdentifier) (predicate : RecordValue → Bool) (r : RecordsId × RecordsValue) : Bool :=
  isPrefixOf id (intoEntry r).id && predicate (intoEntry r).record.value

/-- The entries of the namespace. -/
def entries (s : ReferenceTables ns) : List SignedEntry := s.tables.entries.filter fun e => e.id.namespace = ns

variable [Blake3]

/-- The reads and `entry_put` are those of `StoreInstance`. -/
instance : Store (ReferenceTables ns) SignedEntry RecordIdentifier RecordValue where
  getFirst s := Store.getFirst (⟨s.tables, none⟩ : StoreInstance ns)
  getFingerprint s r := Store.getFingerprint (⟨s.tables, none⟩ : StoreInstance ns) r
  getRange s r := Store.getRange (⟨s.tables, none⟩ : StoreInstance ns) r
  prefixesOf s id := s.tables.entries.filter fun e => isPrefixOf e.id id
  entryPut s e := ⟨(Store.entryPut (⟨s.tables, none⟩ : StoreInstance ns) e).tables⟩
  removePrefixFiltered s id p :=
    ((s.tables.records.toList.filter (beneath id p)).length,
      ⟨{ s.tables with records := s.tables.records.filter fun r => !beneath id p r }⟩)

omit [Blake3] in
theorem mem_entries {s : ReferenceTables ns} {e : SignedEntry} :
    e ∈ s.entries ↔ e ∈ s.tables.entries ∧ e.id.namespace = ns := by
  simp [entries]

theorem lawfulReads : LawfulReads (ReferenceTables ns) (StoreInstance.dom ns) entries where
  sorted s := s.tables.sorted_entries.filter _
  mem_dom _ _ he := (mem_entries.1 he).2
  getFirst s := StoreInstance.lawfulReads.getFirst (⟨s.tables, none⟩ : StoreInstance ns)
  getRange s := StoreInstance.lawfulReads.getRange (⟨s.tables, none⟩ : StoreInstance ns)
  getFingerprint s := StoreInstance.lawfulReads.getFingerprint (⟨s.tables, none⟩ : StoreInstance ns)

theorem mem_removed {s : ReferenceTables ns} {id : RecordIdentifier} {p : RecordValue → Bool} {e : SignedEntry} :
    e ∈ (Store.removePrefixFiltered s id p).2.tables.entries ↔
      e ∈ s.tables.entries ∧ ¬ (isPrefixOf id e.id = true ∧ p e.record.value = true) := by
  rw [Tables.mem_entries, Tables.mem_entries]
  show row e ∈ (s.tables.records.filter _).toList ↔ _
  rw [SortedMap.mem_filter, beneath, intoEntry_row, Bool.not_eq_true', Bool.eq_false_iff, Ne, Bool.and_eq_true]

theorem lawfulWrites : LawfulWrites (ReferenceTables ns) (StoreInstance.dom ns) entries where
  sorted s := s.tables.sorted_entries.filter _
  mem_dom _ _ he := (mem_entries.1 he).2
  prefixesOf s id hid e := by
    show e ∈ s.tables.entries.filter _ ↔ _
    rw [List.mem_filter, mem_entries]
    constructor
    · rintro ⟨hmem, hpre⟩
      exact ⟨⟨hmem, (RecordIdentifier.isPrefixOf_iff.1 hpre).1.trans hid⟩, hpre⟩
    · rintro ⟨⟨hmem, -⟩, hpre⟩
      exact ⟨hmem, hpre⟩
  remove s id p _ e := by
    rw [mem_entries, mem_removed, mem_entries, and_right_comm]
    rfl
  removed s id p hid := by
    show (s.tables.records.toList.filter (beneath id p)).length = _
    rw [entries, Tables.entries, List.filter_filter, List.filter_map, List.length_map]
    congr 1
    refine List.filter_congr fun r _ => ?_
    rw [Bool.eq_iff_iff, Function.comp, Bool.and_eq_true, decide_eq_true_eq]
    refine ⟨fun h => ⟨h, ?_⟩, And.left⟩
    exact (RecordIdentifier.isPrefixOf_iff.1 (Bool.and_eq_true_iff.1 h).1).1.symm.trans hid
  entryPut s e hid e' := by
    show e' ∈ (Store.entryPut (⟨s.tables, none⟩ : StoreInstance ns) e).tables.entries.filter _ ↔ _
    rw [List.mem_filter, StoreInstance.mem_entryPut, mem_entries, decide_eq_true_eq]
    constructor
    · rintro ⟨rfl | ⟨hmem, hne⟩, hns⟩
      · exact .inl rfl
      · exact .inr ⟨⟨hmem, hns⟩, hne⟩
    · rintro (rfl | ⟨⟨hmem, hns⟩, hne⟩)
      · exact ⟨.inl rfl, hid⟩
      · exact ⟨.inr ⟨hmem, hne⟩, hns⟩

end ReferenceTables

/-! ## The simulation -/

section Simulation

variable {ns : NamespaceId} [Blake3] {W : Set SignedEntry}

/-- The tables hold no other entries of the namespace. -/
def Tables.HoldsOnly (t : Tables) (ns : NamespaceId) (W : Set SignedEntry) : Prop :=
  ∀ e ∈ t.entries, e.id.namespace = ns → e ∈ W

theorem holdsOnly_put {s : StoreInstance ns} {e : SignedEntry} (h : s.tables.HoldsOnly ns W) (he : e ∈ W) :
    (put s e).2.tables.HoldsOnly ns W := by
  intro e' he' hns
  cases hw : wouldInsert s e with
  | false =>
    rw [put_of_not_wouldInsert hw] at he'
    exact h e' he' hns
  | true =>
    rcases (mem_put hw).1 he' with rfl | ⟨hmem, -⟩
    · exact he
    · exact h e' hmem hns

/-- An entry of `W` is refused by the persistent store when it is by the reference. -/
theorem wouldInsert_reference (hW : Ordinary ns W) {s : StoreInstance ns} (h : s.tables.HoldsOnly ns W)
    {e : SignedEntry} (he : e ∈ W) :
    wouldInsert s e = wouldInsert (⟨s.tables⟩ : ReferenceTables ns) e := by
  unfold wouldInsert
  congr 1
  rw [Bool.eq_iff_iff, List.any_eq_true, List.any_eq_true]
  refine exists_congr fun p => and_congr_left fun _ => ?_
  show p ∈ Store.prefixesOf s e.id ↔ p ∈ s.tables.entries.filter _
  rw [StoreInstance.mem_prefixesOf, List.mem_filter]
  refine and_congr_right fun hp => and_iff_left_of_imp fun hpre => hW.visible p (h p hp ?_)
  exact (RecordIdentifier.isPrefixOf_iff.1 hpre).1.trans (hW.of_namespace e he)

omit [Blake3] in
/-- What the prefix bounds of an entry of `W` select is beneath it. -/
theorem extracted_reference (hW : Ordinary ns W) {t : Tables} (h : t.HoldsOnly ns W) {e : SignedEntry} (he : e ∈ W)
    {p : RecordValue → Bool} {r : RecordsId × RecordsValue} (hr : r ∈ t.records.toList) :
    StoreInstance.extracted e.id p r = ReferenceTables.beneath e.id p r := by
  have hmem : intoEntry r ∈ t.entries := List.mem_map_of_mem hr
  rw [ReferenceTables.beneath, ← row_intoEntry r, intoEntry_row, Bool.eq_iff_iff, StoreInstance.extracted_row,
    Bool.and_eq_true]
  refine and_congr_left fun _ => or_iff_left ?_
  rintro ⟨hns, hauthor, hover⟩
  exact hW.apart e he _ (h _ hmem (hns.trans (hW.of_namespace e he))) hauthor hover

/-- Putting an entry of `W` leaves the tables of the reference. -/
theorem put_reference (hW : Ordinary ns W) {s : StoreInstance ns} (h : s.tables.HoldsOnly ns W) {e : SignedEntry}
    (he : e ∈ W) : (put s e).2.tables = (put (⟨s.tables⟩ : ReferenceTables ns) e).2.tables := by
  have hw := wouldInsert_reference hW h he
  unfold put
  rw [← hw]
  cases wouldInsert s e with
  | false => rfl
  | true =>
    have hrows : (s.tables.records.filter fun r => !StoreInstance.extracted e.id (fun v => value e ≥ v) r) =
        s.tables.records.filter fun r => !ReferenceTables.beneath e.id (fun v => value e ≥ v) r := by
      refine SortedMap.ext_rows fun r => ?_
      rw [SortedMap.mem_filter, SortedMap.mem_filter]
      exact and_congr_right fun hr => by rw [extracted_reference hW h he hr]
    exact congrArg (fun records => (StoreInstance.entryPut ⟨{ s.tables with records := records }, none⟩ e :
      StoreInstance ns).tables) hrows

/-- A session over the persistent store, and one over the reference. -/
structure SessionsMatch (ns : NamespaceId) (W : Set SignedEntry)
    (s : SessionStore (StoreInstance ns) SignedEntry)
    (s' : SessionStore (Snapshotted (ReferenceTables ns)) SignedEntry) : Prop where
  filter : s.filter = s'.filter
  live : s.inner.tables = s'.inner.live.tables
  snapshot : s.inner.sessionSnapshot = some s'.inner.snapshot.tables
  held : s.inner.tables.HoldsOnly ns W

theorem put_session_inner (s : SessionStore (StoreInstance ns) SignedEntry) (e : SignedEntry) :
    put s e = ((put s.inner e).1, ⟨(put s.inner e).2, s.filter⟩) := by
  have hw : wouldInsert s e = wouldInsert s.inner e := rfl
  unfold put
  rw [hw]
  split <;> rfl

theorem sessionSnapshot_put (s : StoreInstance ns) (e : SignedEntry) :
    (put s e).2.sessionSnapshot = s.sessionSnapshot := by
  unfold put
  split <;> rfl

/-- **Sessions over the persistent store do what the reference does**, on what is ordinary. -/
theorem simulates_session (hW : Ordinary ns W) : Simulates W (SessionsMatch ns W) where
  reads s s' h := by
    obtain ⟨⟨tables, sessionSnapshot⟩, filter⟩ := s
    obtain ⟨⟨live, snapshot⟩, filter'⟩ := s'
    obtain rfl : filter = filter' := h.filter
    obtain rfl : sessionSnapshot = some snapshot.tables := h.snapshot
    exact ⟨rfl, fun _ => rfl, fun _ => rfl⟩
  wouldInsert s s' e h he := by
    obtain ⟨⟨⟨live⟩, snapshot⟩, filter'⟩ := s'
    obtain rfl : s.inner.tables = live := h.live
    exact wouldInsert_reference hW h.held he
  put s s' e h he := by
    obtain ⟨⟨⟨live⟩, snapshot⟩, filter'⟩ := s'
    obtain rfl : s.inner.tables = live := h.live
    rw [put_session_inner, put_session]
    exact ⟨h.filter, put_reference hW h.held he, (sessionSnapshot_put _ e).trans h.snapshot,
      holdsOnly_put h.held he⟩

end Simulation

/-! ## Three ordinary entries -/

section

/-- `blake3` on nothing and on what the three entries are fingerprinted by. -/
abbrev ordinaryDigests : Blake3 := ⟨fun b =>
  if b = List.replicate 64 0 ++ [1, 0, 0, 0, 0, 0, 0, 0, 4] ++ List.replicate 32 0 then
    0xcdb0fba8ddaedaabaae40e2af478244fef2893b7be4526cb07f1a991103e5c5f
  else if b = List.replicate 64 0 ++ [1, 2, 0, 0, 0, 0, 0, 0, 0, 3] ++ List.replicate 32 0 then
    0x216fa7e5f486dce6f17d8fbc9ad4e562dbb92fe1d8533db1a6eceb5390151469
  else if b = List.replicate 64 0 ++ [7, 0, 0, 0, 0, 0, 0, 0, 1] ++ List.replicate 32 0 then
    0xbdb58b54b5b4e2a4fffc73a81cf07b45d5cbefbbe9f032e6a4cefc8836ae736b
  else 0xaf1349b9f5f9a1a6a0404dea36dcc9499bcb25c9adc112b7cc9a93cae41f3262⟩

local instance : Blake3 := ordinaryDigests

/-- At `[1]`, below it at `[1, 2]`, and at `[7]`. -/
def sampleThree : List SignedEntry :=
  [sampleEntry [1] ⟨7, zeros32, 4⟩, sampleEntry [1, 2] ⟨7, zeros32, 3⟩, sampleEntry [7] ⟨7, zeros32, 1⟩]

theorem ordinary_sampleThree : Ordinary zeros32 {e | e ∈ sampleThree} := by
  have hall : ∀ e ∈ sampleThree, e.id.namespace = zeros32 ∧ Visible e ∧ 255 ∉ e.id.key := by decide
  exact ⟨fun e he => (hall e he).1, fun e he => (hall e he).2.1,
    fun e he _ _ _ hover => (hall e he).2.2 (mem_of_overshoots hover)⟩

theorem ordinaryDigests_tell {l l' : List SignedEntry} (hl : l.Sublist sampleThree) (hl' : l'.Sublist sampleThree) :
    RangesTell l l' :=
  rangesTell_of_sublists (by decide +kernel) hl hl'

end

end PdnStore.Fs

import PdnStore.Lib.Runs
import PdnStore.Store.Remove

/-!
# Author heads and the records they stand for (store/fs.rs:335-354, 867-900)

`latest_per_author` holds one timestamp for each author of a namespace, and `has_news_for_us` compares what
a peer announces with it and not with the records. `migration_001` fills the table with the greatest
timestamp of each author. `entry_put` writes the timestamp of the entry just put, whatever stood there:
sync delivers the entries of an author in key order, so a later put may carry an earlier timestamp and the
head falls behind a record that is still there. The heads keep up along a run exactly when no accepted put
does that (`heads_keep_up_iff`).
-/

namespace PdnStore.Fs

open Ranger Sync

/-! ## The property -/

/-- The head of `(ns, author)` is at or above `timestamp`. -/
def HeadReaches (heads : SortedMap (NamespaceId ×ₗ AuthorId) (U64 × Bytes)) (ns : NamespaceId)
    (author : AuthorId) (timestamp : U64) : Prop :=
  ∃ head, heads.get? (toLex (ns, author)) = some head ∧ timestamp ≤ head.1

namespace FsStore

/-- No head is behind a record of its author. -/
def HeadsCover (s : FsStore) : Prop :=
  ∀ r ∈ s.tables.records.toList, HeadReaches s.tables.latestPerAuthor r.1.ns r.1.author r.2.timestamp

/-- The store holds a record of the author that is at or above the announced timestamp. -/
def HoldsRecord (s : FsStore) (ns : NamespaceId) (head : AuthorId × U64) : Prop :=
  ∃ r ∈ s.tables.records.toList, r.1.ns = ns ∧ r.1.author = head.1 ∧ head.2 ≤ r.2.timestamp

/-- No head is behind its records, and what the records cover is not news. -/
structure HeadsKeepUp (s : FsStore) : Prop where
  cover : s.HeadsCover
  noNews : ∀ ns heads, (∀ head ∈ heads.heads.toList, s.HoldsRecord ns head) → s.hasNewsForUs ns heads = none

/-! ## What the store answers from its heads -/

variable {s : FsStore}

/-- Every head of a namespace is listed. -/
theorem mem_getLatestForEachAuthor {ns : NamespaceId} {author : AuthorId} {head : U64 × Bytes}
    (h : s.tables.latestPerAuthor.get? (toLex (ns, author)) = some head) :
    (author, head.1, head.2) ∈ s.getLatestForEachAuthor ns := by
  refine List.mem_map.2 ⟨(toLex (ns, author), head), List.mem_filter.2 ⟨SortedMap.get?_eq_some.1 h, ?_⟩, rfl⟩
  simp [Prod.Lex.toLex_le_toLex, zeros32_le author, le_ones32 author]

/-- What the records cover is not news to a store whose heads cover the records. -/
theorem HeadsCover.noNews (h : s.HeadsCover) (ns : NamespaceId) (heads : AuthorHeads)
    (hheads : ∀ head ∈ heads.heads.toList, s.HoldsRecord ns head) : s.hasNewsForUs ns heads = none := by
  unfold hasNewsForUs
  rw [AuthorHeads.hasNewsFor_eq_none]
  intro head hmem
  obtain ⟨r, hr, rfl, hauthor, hle⟩ := hheads head hmem
  obtain ⟨ours, hget, hours⟩ := h r hr
  rw [hauthor] at hget
  have hlisted : (head.1, ours.1) ∈ (s.getLatestForEachAuthor r.1.ns).map fun r => (r.1, r.2.1) :=
    List.mem_map.2 ⟨_, mem_getLatestForEachAuthor hget, rfl⟩
  obtain ⟨theirs, htheirs, hbound⟩ := AuthorHeads.le_get_ofList hlisted
  rw [AuthorHeads.isNewTo_eq_false]
  exact ⟨theirs, htheirs, (hle.trans hours).trans hbound⟩

theorem headsKeepUp_iff : s.HeadsKeepUp ↔ s.HeadsCover := by
  constructor
  · intro h
    exact h.cover
  · intro h
    exact ⟨h, h.noNews⟩

theorem HeadsCover.recordsHaveHeads (h : s.HeadsCover) : s.RecordsHaveHeads := by
  intro r hr
  obtain ⟨head, hget, -⟩ := h r hr
  exact ⟨_, SortedMap.get?_eq_some.1 hget, rfl⟩

end FsStore

/-! ## The migration takes the maximum -/

section Migration

variable {heads : SortedMap (NamespaceId ×ₗ AuthorId) (U64 × Bytes)} {ns : NamespaceId} {author : AuthorId}
  {timestamp : U64}

/-- One record of the fold of `migration_001` (migrations.rs:56-66). -/
def raiseHead (heads : SortedMap (NamespaceId ×ₗ AuthorId) (U64 × Bytes)) (r : RecordsId × RecordsValue) :
    SortedMap (NamespaceId ×ₗ AuthorId) (U64 × Bytes) :=
  let key := toLex (r.1.ns, r.1.author)
  match heads.get? key with
  | some e => if r.2.timestamp ≥ e.1 then heads.insert key (r.2.timestamp, r.1.key) else heads
  | none => heads.insert key (r.2.timestamp, r.1.key)

theorem headReaches_insert {key : Bytes} :
    HeadReaches (heads.insert (toLex (ns, author)) (timestamp, key)) ns author timestamp :=
  ⟨_, SortedMap.get?_insert_self, le_rfl⟩

theorem headReaches_raiseHead (heads : SortedMap (NamespaceId ×ₗ AuthorId) (U64 × Bytes))
    (r : RecordsId × RecordsValue) :
    HeadReaches (raiseHead heads r) r.1.ns r.1.author r.2.timestamp := by
  simp only [raiseHead]
  split
  · rename_i e he
    split
    · exact headReaches_insert
    · rename_i hlt
      exact ⟨e, he, le_of_not_ge hlt⟩
  · exact headReaches_insert

/-- No head is lowered. -/
theorem HeadReaches.raiseHead (h : HeadReaches heads ns author timestamp) (r : RecordsId × RecordsValue) :
    HeadReaches (raiseHead heads r) ns author timestamp := by
  obtain ⟨head, hget, hle⟩ := h
  by_cases hk : toLex (ns, author) = toLex (r.1.ns, r.1.author)
  · obtain ⟨rfl, rfl⟩ : ns = r.1.ns ∧ author = r.1.author := by simpa using hk
    obtain ⟨head', hget', hle'⟩ := headReaches_raiseHead heads r
    by_cases hge : r.2.timestamp ≥ head.1
    · exact ⟨head', hget', (hle.trans hge).trans hle'⟩
    · refine ⟨head, ?_, hle⟩
      simp only [Fs.raiseHead, hget, hge, if_false]
  · refine ⟨head, ?_, hle⟩
    simp only [Fs.raiseHead]
    split
    · split
      · rw [SortedMap.get?_insert_of_ne hk, hget]
      · exact hget
    · rw [SortedMap.get?_insert_of_ne hk, hget]

theorem HeadReaches.foldl (h : HeadReaches heads ns author timestamp) (l : List (RecordsId × RecordsValue)) :
    HeadReaches (l.foldl Fs.raiseHead heads) ns author timestamp := by
  induction l generalizing heads with
  | nil => exact h
  | cons q l ih => exact ih (h.raiseHead q)

theorem headReaches_foldl {l : List (RecordsId × RecordsValue)} {r : RecordsId × RecordsValue} (hr : r ∈ l) :
    HeadReaches (l.foldl raiseHead heads) r.1.ns r.1.author r.2.timestamp := by
  induction l generalizing heads with
  | nil => cases hr
  | cons q l ih =>
    rcases List.mem_cons.1 hr with rfl | hr
    · exact (headReaches_raiseHead heads r).foldl l
    · exact ih hr

/-- A store that had no heads has those of all its records. -/
theorem FsStore.headsCover_migrateLatest {s : FsStore} (hnone : s.tables.latestPerAuthor = ∅) :
    s.migrateLatest.HeadsCover := by
  have hnil : s.tables.latestPerAuthor.toList = [] := by rw [hnone]; rfl
  unfold migrateLatest
  split
  · rename_i hcond
    have hempty : s.tables.records.toList = [] := by simpa [hnil] using hcond
    intro r hr
    rw [hempty] at hr
    cases hr
  · intro r hr
    exact headReaches_foldl hr

end Migration

/-! ## One write -/

namespace FsStore

variable [Blake3] [Ed25519] {s : FsStore}

/-- The write is not an accepted put that is older than a record of its author under another key. -/
def InOrder (s : FsStore) : Op → Prop
  | .put e => wouldInsert (⟨s.tables, none⟩ : StoreInstance e.id.namespace) e = true →
      ∀ r ∈ s.tables.records.toList, r.1.ns = e.id.namespace → r.1.author = e.id.author → r.1.key ≠ e.id.key →
        r.2.timestamp ≤ e.record.timestamp
  | _ => True

instance (s : FsStore) : DecidablePred s.InOrder := fun op =>
  match op with
  | .put _ => inferInstanceAs (Decidable (_ → _))
  | .removePrefixFiltered .. | .retractEntry .. | .removeReplica _ | .importNamespace _ | .loadReplicaInfo _
  | .closeReplica _ | .registerUsefulPeer .. | .setDownloadPolicy .. | .migrateLatest | .migrateByKey =>
    isTrue trivial

omit [Ed25519] [Blake3] in
/-- What a put removes is not newer than it. -/
theorem timestamp_le_of_extracted {e : SignedEntry} {r : RecordsId × RecordsValue}
    (h : StoreInstance.extracted e.id (fun v => e.record.value ≥ v) r = true) :
    r.2.timestamp ≤ e.record.timestamp := by
  simp only [StoreInstance.extracted, Bool.and_eq_true, decide_eq_true_eq, ge_iff_le, Record.value,
    Prod.Lex.toLex_le_toLex] at h
  rcases h.2 with hlt | ⟨heq, -⟩
  · exact hlt.le
  · exact heq.le

omit [Ed25519] [Blake3] in
/-- An insertion keeps the heads up exactly when it is not older than what stays of its author. -/
theorem headsCover_inserts {s' : FsStore} {e : SignedEntry} (h : s.HeadsCover)
    (hins : Inserts e s.tables s'.tables) : s'.HeadsCover ↔
      ∀ r ∈ s.tables.records.toList, r.1.ns = e.id.namespace → r.1.author = e.id.author →
        r.1.key ≠ e.id.key → r.2.timestamp ≤ e.record.timestamp := by
  constructor
  · intro h' r hr hns hauthor hkey
    by_cases hx : StoreInstance.extracted e.id (fun v => e.record.value ≥ v) r = true
    · exact timestamp_le_of_extracted hx
    · have hother : r.1 ≠ (row e).1 := fun heq => hkey (by rw [heq]; rfl)
      obtain ⟨head, hget, hle⟩ := h' r ((hins.records r).2 (.inr ⟨hr, hother, by simpa using hx⟩))
      rw [hins.latest, hns, hauthor, SortedMap.get?_insert_self] at hget
      cases hget
      exact hle
  · intro hcond r hr
    rw [hins.latest]
    rcases (hins.records r).1 hr with rfl | ⟨hr, hother, -⟩
    · exact headReaches_insert
    · by_cases hk : toLex (r.1.ns, r.1.author) = toLex (e.id.namespace, e.id.author)
      · obtain ⟨hns, hauthor⟩ : r.1.ns = e.id.namespace ∧ r.1.author = e.id.author := by simpa using hk
        have hkey : r.1.key ≠ e.id.key := fun heq => hother (RecordsId.ext hns hauthor heq)
        refine ⟨(e.record.timestamp, e.id.key), ?_, hcond r hr hns hauthor hkey⟩
        rw [hk, SortedMap.get?_insert_self]
      · obtain ⟨head, hget, hle⟩ := h r hr
        exact ⟨head, by rw [SortedMap.get?_insert_of_ne hk, hget], hle⟩

/-- A write that inserts nothing keeps the heads up. -/
theorem HeadsCover.step_of_not_put (h : s.HeadsCover) {op : Op}
    (hput : ∀ e, op = .put e → wouldInsert (⟨s.tables, none⟩ : StoreInstance e.id.namespace) e = false) :
    (s.step op).HeadsCover := by
  intro r hr
  rcases s.step_tables op with hsame | hshrink | ⟨e, hop, hw, -⟩ | rfl | rfl
  · rw [hsame] at hr ⊢
    exact h r hr
  · rw [hshrink.latest]
    exact h r (hshrink.records r hr)
  · rw [hput e hop] at hw
    cases hw
  · change r ∈ s.migrateLatest.tables.records.toList at hr
    show HeadReaches s.migrateLatest.tables.latestPerAuthor _ _ _
    rw [migrateLatest_eq h.recordsHaveHeads] at hr ⊢
    exact h r hr
  · change r ∈ s.migrateByKey.tables.records.toList at hr
    show HeadReaches s.migrateByKey.tables.latestPerAuthor _ _ _
    rw [s.migrateByKey_frame.1] at hr
    rw [s.migrateByKey_frame.2]
    exact h r hr

/-- Step: heads that are up stay up exactly when the write is in order. -/
theorem headsCover_step (s : FsStore) (op : Op) (h : s.HeadsCover) :
    (s.step op).HeadsCover ↔ s.InOrder op := by
  by_cases hput : ∃ e, op = .put e ∧ wouldInsert (⟨s.tables, none⟩ : StoreInstance e.id.namespace) e = true
  · obtain ⟨e, rfl, hw⟩ := hput
    have hins : Inserts e s.tables (s.step (.put e)).tables := inserts_put hw
    rw [headsCover_inserts h hins]
    simp only [InOrder, hw, true_imp_iff]
  · have hnone : ∀ e, op = .put e →
        wouldInsert (⟨s.tables, none⟩ : StoreInstance e.id.namespace) e = false := by
      intro e hop
      by_contra hw
      exact hput ⟨e, hop, by simpa using hw⟩
    have horder : s.InOrder op := by
      cases op with
      | put e =>
        intro hw
        rw [hnone e rfl] at hw
        cases hw
      | _ => exact trivial
    exact ⟨fun _ => horder, fun _ => h.step_of_not_put hnone⟩

/-! ## Runs -/

/-- **The heads keep up in every state of a run if and only if every accepted put of it is in order**, from
a store that opens without heads: a new one, or one whose records predate the table. -/
theorem heads_keep_up_iff (s₀ : FsStore) (hnone : s₀.tables.latestPerAuthor = ∅) (ops : List Op) :
    (∀ done rest, ops = done ++ rest → (s₀.migrateLatest.run done).HeadsKeepUp) ↔
      ∀ done op rest, ops = done ++ op :: rest → (s₀.migrateLatest.run done).InOrder op := by
  simp only [headsKeepUp_iff]
  exact forall_reached_iff headsCover_step ops (headsCover_migrateLatest hnone)

end FsStore

section

local instance latestDigest : Blake3 := noDigest

/-- A scheme in which the public key is the secret one. -/
local instance latestKeys : Ed25519 := ⟨id⟩

/-- Two entries of one author in timestamp order, the second under another key. -/
def sampleInOrder : List Op :=
  [.put (sampleEntry [1] ⟨7, zeros32, 3⟩), .put (sampleEntry [2] ⟨7, zeros32, 5⟩)]

theorem heads_keep_up_sample : ((default : FsStore).migrateLatest.run sampleInOrder).HeadsKeepUp := by
  refine (FsStore.heads_keep_up_iff default rfl sampleInOrder).2 ?_ sampleInOrder [] (by simp)
  intro done op rest heq
  rw [sampleInOrder] at heq
  rcases done with _ | ⟨a, _ | ⟨b, done⟩⟩
  · obtain ⟨rfl, -⟩ := List.cons_eq_cons.1 heq
    decide +kernel
  · obtain ⟨rfl, htail⟩ := List.cons_eq_cons.1 heq
    obtain ⟨rfl, -⟩ := List.cons_eq_cons.1 htail
    decide +kernel
  · have hlen := congrArg List.length heq
    simp at hlen

/-- The second entry is the older one: the head falls back to it, and a peer that announces the first entry
has news for a store that holds it. -/
theorem heads_fall_behind :
    ¬ ((default : FsStore).migrateLatest.run
      [.put (sampleEntry [1] ⟨7, zeros32, 5⟩), .put (sampleEntry [2] ⟨7, zeros32, 3⟩)]).HeadsKeepUp ∧
    ((default : FsStore).migrateLatest.run
      [.put (sampleEntry [1] ⟨7, zeros32, 5⟩), .put (sampleEntry [2] ⟨7, zeros32, 3⟩)]).hasNewsForUs
        zeros32 (.ofList [(zeros32, 5)]) = some 1 := by
  have hnews : ((default : FsStore).migrateLatest.run
      [.put (sampleEntry [1] ⟨7, zeros32, 5⟩), .put (sampleEntry [2] ⟨7, zeros32, 3⟩)]).hasNewsForUs
        zeros32 (.ofList [(zeros32, 5)]) = some 1 := by decide +kernel
  refine ⟨?_, hnews⟩
  intro h
  rw [h.noNews zeros32 _ ?_] at hnews
  · cases hnews
  · intro head hhead
    obtain rfl : head = (zeros32, 5) := by
      have hlist : (AuthorHeads.ofList [(zeros32, 5)]).heads.toList = [(zeros32, 5)] := by decide +kernel
      rw [hlist] at hhead
      simpa using hhead
    refine ⟨row (sampleEntry [1] ⟨7, zeros32, 5⟩), ?_, ?_⟩ <;> decide +kernel

end

end PdnStore.Fs

import PdnStore.Store.FsStore

/-!
# What `remove_replica` leaves behind (store/fs.rs:470-493)

"Completely removes a replica and deletes both the namespace private key and all document entries." The
bounds of a namespace are exact on both entry tables, also for the namespace of all 255s, so five tables
are cleared of the namespace and of nothing else. `latest_per_author` is not touched, and its rows are
never taken out by anything: a namespace leaves no trace exactly when no entry of it was ever put
(`remove_replica_leaves_no_trace_iff`). What is left shows when the namespace is imported again: the store
takes the old heads for its own and reports no news.
-/

namespace PdnStore.Fs

open Ranger Sync

namespace FsStore

/-! ## The property -/

/-- No table holds a row of the namespace. -/
structure NoTrace (s : FsStore) (ns : NamespaceId) : Prop where
  records : ∀ r ∈ s.tables.records.toList, r.1.ns ≠ ns
  recordsByKey : ∀ r ∈ s.tables.recordsByKey.toList, r.1.ns ≠ ns
  latestPerAuthor : ∀ r ∈ s.tables.latestPerAuthor.toList, (ofLex r.1).1 ≠ ns
  namespaces : ∀ r ∈ s.namespaces.toList, r.1 ≠ ns
  namespacePeers : ∀ r ∈ s.namespacePeers.toList, (ofLex r.1).1 ≠ ns
  downloadPolicy : ∀ r ∈ s.downloadPolicy.toList, r.1 ≠ ns

/-- Every row of every other namespace is the same. -/
structure SameElsewhere (s s' : FsStore) (ns : NamespaceId) : Prop where
  records : ∀ r, r.1.ns ≠ ns → (r ∈ s'.tables.records.toList ↔ r ∈ s.tables.records.toList)
  recordsByKey : ∀ r, r.1.ns ≠ ns → (r ∈ s'.tables.recordsByKey.toList ↔ r ∈ s.tables.recordsByKey.toList)
  latestPerAuthor : ∀ r, (ofLex r.1).1 ≠ ns →
    (r ∈ s'.tables.latestPerAuthor.toList ↔ r ∈ s.tables.latestPerAuthor.toList)
  namespaces : ∀ r, r.1 ≠ ns → (r ∈ s'.namespaces.toList ↔ r ∈ s.namespaces.toList)
  namespacePeers : ∀ r, (ofLex r.1).1 ≠ ns → (r ∈ s'.namespacePeers.toList ↔ r ∈ s.namespacePeers.toList)
  downloadPolicy : ∀ r, r.1 ≠ ns → (r ∈ s'.downloadPolicy.toList ↔ r ∈ s.downloadPolicy.toList)

/-- The two stores answer every read about the namespace alike. -/
structure AnswerAlike (s s' : FsStore) (ns : NamespaceId) : Prop where
  getMany : ∀ q, getMany s.tables ns q = getMany s'.tables ns q
  getExact : ∀ author key includeEmpty,
    s.tables.getExact ns author key includeEmpty = s'.tables.getExact ns author key includeEmpty
  getLatestForEachAuthor : s.getLatestForEachAuthor ns = s'.getLatestForEachAuthor ns
  hasNewsForUs : ∀ heads, s.hasNewsForUs ns heads = s'.hasNewsForUs ns heads
  getSyncPeers : s.getSyncPeers ns = s'.getSyncPeers ns
  getDownloadPolicy : s.getDownloadPolicy ns = s'.getDownloadPolicy ns

/-- Removing the namespace leaves no row of it, touches no other row, and once the namespace is imported
again the store answers as one that never held it. -/
structure LeavesNoTrace [Ed25519] (s : FsStore) (ns : NamespaceId) : Prop where
  gone : NoTrace (s.removeReplica ns).1 ns
  elsewhere : SameElsewhere s (s.removeReplica ns).1 ns
  fresh : ∀ capability : Capability, capability.id = ns → ∀ s₀ : FsStore, NoTrace s₀ ns →
    AnswerAlike ((s.removeReplica ns).1.importNamespace capability).1 (s₀.importNamespace capability).1 ns

/-! ## One removal -/

variable {s : FsStore} {ns : NamespaceId}

/-- The rows of the latest table of one namespace, between its first and its last author. -/
theorem ns_of_latestRange {k : NamespaceId ×ₗ AuthorId} (hlo : toLex (ns, zeros32) ≤ k)
    (hhi : k ≤ toLex (ns, ones32)) : (ofLex k).1 = ns := by
  have h1 : ns ≤ (ofLex k).1 := by
    rcases Prod.Lex.le_iff.1 hlo with h | h
    · exact h.le
    · exact h.1.le
  have h2 : (ofLex k).1 ≤ ns := by
    rcases Prod.Lex.le_iff.1 hhi with h | h
    · exact h.le
    · exact h.1.le
  exact le_antisymm h2 h1

theorem getLatestForEachAuthor_eq_nil (h : ∀ r ∈ s.tables.latestPerAuthor.toList, (ofLex r.1).1 ≠ ns) :
    s.getLatestForEachAuthor ns = [] := by
  unfold getLatestForEachAuthor
  rw [List.map_eq_nil_iff, List.filter_eq_nil_iff]
  intro r hr hin
  obtain ⟨hlo, hhi⟩ := of_decide_eq_true hin
  exact h r hr (ns_of_latestRange hlo hhi)

theorem peerRows_eq_nil (h : ∀ r ∈ s.namespacePeers.toList, (ofLex r.1).1 ≠ ns) : s.peerRows ns = [] := by
  unfold peerRows
  rw [List.map_eq_nil_iff, List.filter_eq_nil_iff]
  intro r hr hin
  exact h r hr (of_decide_eq_true hin)

theorem getExact_eq_none (h : ∀ r ∈ s.tables.records.toList, r.1.ns ≠ ns) (author : AuthorId) (key : Bytes)
    (includeEmpty : Bool) : s.tables.getExact ns author key includeEmpty = none := by
  unfold Tables.getExact
  rw [SortedMap.get?_eq_none.2 fun r hr hid => h r hr (by rw [hid])]
  rfl

/-- Stores without a trace of a namespace answer alike. -/
theorem NoTrace.answerAlike {s' : FsStore} (h : NoTrace s ns) (h' : NoTrace s' ns) : AnswerAlike s s' ns where
  getMany q := by
    rw [getMany_eq_nil q h.records h.recordsByKey, getMany_eq_nil q h'.records h'.recordsByKey]
  getExact author key includeEmpty := by
    rw [getExact_eq_none h.records, getExact_eq_none h'.records]
  getLatestForEachAuthor := by
    rw [getLatestForEachAuthor_eq_nil h.latestPerAuthor, getLatestForEachAuthor_eq_nil h'.latestPerAuthor]
  hasNewsForUs heads := by
    unfold hasNewsForUs
    rw [getLatestForEachAuthor_eq_nil h.latestPerAuthor, getLatestForEachAuthor_eq_nil h'.latestPerAuthor]
  getSyncPeers := by
    unfold getSyncPeers
    rw [peerRows_eq_nil h.namespacePeers, peerRows_eq_nil h'.namespacePeers]
  getDownloadPolicy := by
    unfold getDownloadPolicy
    rw [SortedMap.get?_eq_none.2 h.downloadPolicy, SortedMap.get?_eq_none.2 h'.downloadPolicy]

/-- An import writes the capability alone, which no read about the entries looks at. -/
theorem AnswerAlike.importNamespace [Ed25519] {s' : FsStore} (h : AnswerAlike s s' ns) (capability : Capability) :
    AnswerAlike (s.importNamespace capability).1 (s'.importNamespace capability).1 ns := by
  rw [s.tables_importNamespace capability, s'.tables_importNamespace capability]
  exact ⟨h.getMany, h.getExact, h.getLatestForEachAuthor, h.hasNewsForUs, h.getSyncPeers, h.getDownloadPolicy⟩

section Closed

variable (hclosed : ns ∉ s.openReplicas)
include hclosed

/-- The removal clears five tables of the namespace, and no other row. -/
theorem sameElsewhere_removeReplica : SameElsewhere s (s.removeReplica ns).1 ns := by
  unfold removeReplica
  rw [if_neg hclosed]
  refine ⟨?_, ?_, fun _ _ => Iff.rfl, ?_, ?_, ?_⟩
  · intro r hr
    rw [SortedMap.mem_filter]
    simp only [Bool.not_eq_true', ← Bool.not_eq_true, RecordsBounds.contains_namespace]
    tauto
  · intro r hr
    rw [SortedMap.mem_filter]
    simp only [Bool.not_eq_true', ← Bool.not_eq_true, ByKeyBounds.contains_namespace]
    tauto
  · intro r hr
    simp [SortedMap.mem_filter, hr]
  · intro r hr
    simp [SortedMap.mem_filter, hr]
  · intro r hr
    simp [SortedMap.mem_filter, hr]

/-- The latest table decides whether a trace is left. -/
theorem noTrace_removeReplica_iff : NoTrace (s.removeReplica ns).1 ns ↔
    ∀ r ∈ s.tables.latestPerAuthor.toList, (ofLex r.1).1 ≠ ns := by
  unfold removeReplica
  rw [if_neg hclosed]
  constructor
  · intro h
    exact h.latestPerAuthor
  · intro h
    refine ⟨?_, ?_, h, ?_, ?_, ?_⟩
    · intro r hr
      have := (SortedMap.mem_filter.1 hr).2
      simpa only [Bool.not_eq_true', ← Bool.not_eq_true, RecordsBounds.contains_namespace] using this
    · intro r hr
      have := (SortedMap.mem_filter.1 hr).2
      simpa only [Bool.not_eq_true', ← Bool.not_eq_true, ByKeyBounds.contains_namespace] using this
    · intro r hr
      simpa using (SortedMap.mem_filter.1 hr).2
    · intro r hr
      simpa using (SortedMap.mem_filter.1 hr).2
    · intro r hr
      simpa using (SortedMap.mem_filter.1 hr).2

theorem leavesNoTrace_iff [Ed25519] : LeavesNoTrace s ns ↔
    ∀ r ∈ s.tables.latestPerAuthor.toList, (ofLex r.1).1 ≠ ns := by
  rw [← noTrace_removeReplica_iff hclosed]
  constructor
  · intro h
    exact h.gone
  · intro h
    refine ⟨h, sameElsewhere_removeReplica hclosed, ?_⟩
    intro capability _ s₀ h₀
    exact (h.answerAlike h₀).importNamespace capability

end Closed

/-! ## Who writes the latest table -/

/-- Some author of the namespace has a row in the latest table. -/
def HasHead (s : FsStore) (ns : NamespaceId) : Prop :=
  ∃ r ∈ s.tables.latestPerAuthor.toList, (ofLex r.1).1 = ns

/-- Every record's namespace has a head. -/
def RecordsHaveHeads (s : FsStore) : Prop := ∀ r ∈ s.tables.records.toList, s.HasHead r.1.ns

variable [Blake3] [Ed25519]

omit [Blake3] [Ed25519] in
/-- The migration finds heads in the table, or no records. -/
theorem migrateLatest_eq (h : RecordsHaveHeads s) : s.migrateLatest = s := by
  unfold migrateLatest
  split
  · rfl
  · rename_i hcond
    simp only [Bool.or_eq_true, Bool.not_eq_true', not_or, List.isEmpty_iff, List.isEmpty_eq_false_iff,
      not_not] at hcond
    obtain ⟨r, hr⟩ := List.exists_mem_of_ne_nil _ hcond.2
    obtain ⟨head, hhead, -⟩ := h r hr
    rw [hcond.1] at hhead
    cases hhead

omit [Blake3] [Ed25519] in
theorem migrateByKey_frame (s : FsStore) : s.migrateByKey.tables.records = s.tables.records ∧
    s.migrateByKey.tables.latestPerAuthor = s.tables.latestPerAuthor := by
  unfold migrateByKey
  split <;> exact ⟨rfl, rfl⟩

omit [Ed25519] in
/-- An entry that is not news belongs to a namespace with a head. -/
theorem hasHead_of_not_wouldInsert (h : RecordsHaveHeads s) {e : SignedEntry}
    (hw : wouldInsert (⟨s.tables, none⟩ : StoreInstance e.id.namespace) e = false) :
    s.HasHead e.id.namespace := by
  obtain ⟨p, hp, hsup, -⟩ := wouldInsert_eq_false.1 hw
  simp only [supersedes, Bool.and_eq_true] at hsup
  obtain ⟨hns, -⟩ := RecordIdentifier.isPrefixOf_iff.1 hsup.1
  have hhead := h (row p) (Tables.mem_entries.1 hp)
  rwa [← hns]

/-- Step: heads come with puts, and never go. -/
theorem hasHead_step (h : RecordsHaveHeads s) (op : Op) (ns : NamespaceId) :
    (s.step op).HasHead ns ↔ s.HasHead ns ∨ ∃ e, op = .put e ∧ e.id.namespace = ns := by
  by_cases hput : ∃ e, op = .put e
  · obtain ⟨e, rfl⟩ := hput
    have hiff : (∃ e', Op.put e = .put e' ∧ e'.id.namespace = ns) ↔ e.id.namespace = ns := by simp
    rw [hiff]
    cases hw : wouldInsert (⟨s.tables, none⟩ : StoreInstance e.id.namespace) e with
    | false =>
      have hsame : (s.step (.put e)).tables = s.tables := by
        show (put (⟨s.tables, none⟩ : StoreInstance e.id.namespace) e).2.tables = s.tables
        rw [put_of_not_wouldInsert hw]
      unfold HasHead
      rw [hsame]
      constructor
      · exact .inl
      · rintro (hhead | rfl)
        · exact hhead
        · exact hasHead_of_not_wouldInsert h hw
    | true =>
      have hlatest : (s.step (.put e)).tables.latestPerAuthor = _ := (inserts_put hw).latest
      simp only [HasHead, hlatest, SortedMap.mem_insert]
      constructor
      · rintro ⟨r, rfl | ⟨hr, -⟩, hns⟩
        · exact .inr hns
        · exact .inl ⟨r, hr, hns⟩
      · rintro (⟨r, hr, hns⟩ | hns)
        · by_cases hk : r.1 = toLex (e.id.namespace, e.id.author)
          · refine ⟨_, .inl rfl, ?_⟩
            rw [← hns, hk]
          · exact ⟨r, .inr ⟨hr, hk⟩, hns⟩
        · exact ⟨_, .inl rfl, hns⟩
  · have hlatest : (s.step op).tables.latestPerAuthor = s.tables.latestPerAuthor := by
      rcases s.step_tables op with hsame | hshrink | ⟨e, hop, -⟩ | rfl | rfl
      · rw [hsame]
      · exact hshrink.latest
      · exact absurd ⟨e, hop⟩ hput
      · show s.migrateLatest.tables.latestPerAuthor = _
        rw [migrateLatest_eq h]
      · exact s.migrateByKey_frame.2
    unfold HasHead
    rw [hlatest]
    constructor
    · exact .inl
    · rintro (hhead | ⟨e, hop, -⟩)
      · exact hhead
      · exact absurd ⟨e, hop⟩ hput

theorem recordsHaveHeads_step (h : RecordsHaveHeads s) (op : Op) : RecordsHaveHeads (s.step op) := by
  intro r hr
  rw [hasHead_step h]
  rcases s.step_tables op with hsame | hshrink | ⟨e, rfl, -, hins⟩ | rfl | rfl
  · rw [hsame] at hr
    exact .inl (h r hr)
  · exact .inl (h r (hshrink.records r hr))
  · rcases (hins.records r).1 hr with rfl | ⟨hr, -⟩
    · exact .inr ⟨e, rfl, rfl⟩
    · exact .inl (h r hr)
  · change r ∈ s.migrateLatest.tables.records.toList at hr
    rw [migrateLatest_eq h] at hr
    exact .inl (h r hr)
  · change r ∈ s.migrateByKey.tables.records.toList at hr
    rw [s.migrateByKey_frame.1] at hr
    exact .inl (h r hr)

/-- Run: a namespace has a head once an entry of it was put. -/
theorem hasHead_run (h : RecordsHaveHeads s) (ops : List Op) (ns : NamespaceId) :
    (s.run ops).HasHead ns ↔ s.HasHead ns ∨ ∃ e, .put e ∈ ops ∧ e.id.namespace = ns := by
  induction ops generalizing s with
  | nil => simp [run]
  | cons op ops ih =>
    show ((s.step op).run ops).HasHead ns ↔ _
    rw [ih (recordsHaveHeads_step h op), hasHead_step h op]
    constructor
    · rintro ((hhead | ⟨e, rfl, hns⟩) | ⟨e, hmem, hns⟩)
      · exact .inl hhead
      · exact .inr ⟨e, List.mem_cons_self, hns⟩
      · exact .inr ⟨e, List.mem_cons_of_mem _ hmem, hns⟩
    · rintro (hhead | ⟨e, hmem, hns⟩)
      · exact .inl (.inl hhead)
      · rcases List.mem_cons.1 hmem with rfl | hmem
        · exact .inl (.inr ⟨e, rfl, hns⟩)
        · exact .inr ⟨e, hmem, hns⟩

/-- **A removed replica leaves no trace if and only if no entry of it was ever put.** -/
theorem remove_replica_leaves_no_trace_iff (ops : List Op) (ns : NamespaceId)
    (hclosed : ns ∉ ((default : FsStore).run ops).openReplicas) :
    LeavesNoTrace ((default : FsStore).run ops) ns ↔ ∀ e, .put e ∈ ops → e.id.namespace ≠ ns := by
  have hstart : RecordsHaveHeads (default : FsStore) := by
    intro r hr
    cases hr
  have hempty : ¬ (default : FsStore).HasHead ns := by
    rintro ⟨r, hr, -⟩
    cases hr
  have hhead := hasHead_run hstart ops ns
  rw [leavesNoTrace_iff hclosed]
  constructor
  · intro h e hmem hns
    obtain ⟨r, hr, hrns⟩ := hhead.2 (.inr ⟨e, hmem, hns⟩)
    exact h r hr hrns
  · intro h r hr hrns
    rcases hhead.1 ⟨r, hr, hrns⟩ with hh | ⟨e, hmem, hns⟩
    · exact hempty hh
    · exact h e hmem hns

end FsStore

section

local instance removeDigest : Blake3 := noDigest

/-- A scheme in which the public key is the secret one. -/
local instance removeKeys : Ed25519 := ⟨id⟩

/-- A replica is created, gets a peer and a download policy, and is removed before its first entry. -/
theorem remove_replica_leaves_no_trace_sample :
    FsStore.LeavesNoTrace ((default : FsStore).run [.importNamespace (.write zeros32),
      .registerUsefulPeer zeros32 5 ones32, .setDownloadPolicy zeros32 (.nothingExcept [])]) zeros32 := by
  refine (FsStore.remove_replica_leaves_no_trace_iff _ _ (by decide +kernel)).2 ?_
  intro e he
  simp at he

/-- The store after one entry of the zero namespace, the removal of its replica, and a second import. -/
def sampleReimported : FsStore :=
  (default : FsStore).run [.importNamespace (.write zeros32), .put (sampleEntry [1] ⟨7, zeros32, 3⟩),
    .removeReplica zeros32, .importNamespace (.write zeros32)]

/-- The author's head outlives the replica: to a store that never held the namespace the same heads are news. -/
theorem removed_replica_keeps_heads :
    ¬ FsStore.LeavesNoTrace ((default : FsStore).run [.importNamespace (.write zeros32),
      .put (sampleEntry [1] ⟨7, zeros32, 3⟩)]) zeros32 ∧
    sampleReimported.hasNewsForUs zeros32 (.ofList [(zeros32, 3)]) = none ∧
    ((default : FsStore).importNamespace (.write zeros32)).1.hasNewsForUs zeros32 (.ofList [(zeros32, 3)]) =
      some 1 := by
  refine ⟨?_, by decide +kernel, by decide +kernel⟩
  intro h
  exact absurd h.gone.latestPerAuthor (by decide +kernel)

end

end PdnStore.Fs

import PdnStore.Lib.Runs
import PdnStore.Store.Pages
import PdnStore.Store.Capability
import PdnStore.Store.Durable

/-!
# Namespaces share the tables and nothing else (store/fs.rs:318-1001)

Every table holds the rows of all namespaces side by side, and every operation reaches its rows through
bounds or through a key. `slice` keeps the rows of one namespace. A write of another namespace leaves the
slice alone, a write of the namespace does to the slice what it does to the store, and what the store answers
about the namespace it answers from the slice. So in any run the namespace is what its own writes make of it,
as if the others had never been there (`namespaces_are_isolated`).
-/

namespace PdnStore.Fs

open Ranger Sync

/-! ## The rows of a namespace -/

/-- The rows of one namespace. -/
def Tables.slice (t : Tables) (ns : NamespaceId) : Tables where
  records := t.records.filter fun r => r.1.ns = ns
  recordsByKey := t.recordsByKey.filter fun r => r.1.ns = ns
  latestPerAuthor := t.latestPerAuthor.filter fun r => (ofLex r.1).1 = ns

/-- What a store holds of one namespace. -/
def FsStore.slice (s : FsStore) (ns : NamespaceId) : FsStore where
  tables := s.tables.slice ns
  namespaces := s.namespaces.filter fun r => r.1 = ns
  namespacePeers := s.namespacePeers.filter fun r => (ofLex r.1).1 = ns
  downloadPolicy := s.downloadPolicy.filter fun r => r.1 = ns
  openReplicas := s.openReplicas.filter (· = ns)

/-- The write is about the namespace. The migrations are about none: they run when the store is opened, and
find nothing to do on a store whose entries came through puts. -/
def Op.concerns [Ed25519] (ns : NamespaceId) : Op → Bool
  | .put e => e.id.namespace = ns
  | .removePrefixFiltered id _ => id.namespace = ns
  | .retractEntry ns' _ _ _ | .removeReplica ns' | .loadReplicaInfo ns' | .closeReplica ns'
  | .registerUsefulPeer ns' _ _ | .setDownloadPolicy ns' _ => ns' = ns
  | .importNamespace capability => capability.id = ns
  | .migrateLatest | .migrateByKey => false

/-- The two stores answer alike whatever is asked or done about the namespace. -/
structure ActAlike [Blake3] [Ed25519] (s s' : FsStore) (ns : NamespaceId) : Prop where
  reads : FsStore.AnswerAlike s s' ns
  getFirst : Store.getFirst (⟨s.tables, none⟩ : StoreInstance ns) = Store.getFirst (⟨s'.tables, none⟩ : StoreInstance ns)
  getRange : ∀ range, Store.getRange (⟨s.tables, none⟩ : StoreInstance ns) range =
    Store.getRange (⟨s'.tables, none⟩ : StoreInstance ns) range
  getFingerprint : ∀ range, Store.getFingerprint (⟨s.tables, none⟩ : StoreInstance ns) range =
    Store.getFingerprint (⟨s'.tables, none⟩ : StoreInstance ns) range
  put : ∀ e : SignedEntry, e.id.namespace = ns →
    (put (⟨s.tables, none⟩ : StoreInstance ns) e).1 = (put (⟨s'.tables, none⟩ : StoreInstance ns) e).1
  removePrefixFiltered : ∀ id p, id.namespace = ns →
    (StoreInstance.removePrefixFiltered (⟨s.tables, none⟩ : StoreInstance ns) id p).1 =
      (StoreInstance.removePrefixFiltered (⟨s'.tables, none⟩ : StoreInstance ns) id p).1
  retractEntry : ∀ author key upTo, (s.retractEntry ns author key upTo).2 = (s'.retractEntry ns author key upTo).2
  removeReplica : (s.removeReplica ns).2 = (s'.removeReplica ns).2
  importNamespace : ∀ capability : Capability, capability.id = ns →
    (s.importNamespace capability).2 = (s'.importNamespace capability).2
  loadReplicaInfo : (s.loadReplicaInfo ns).2 = (s'.loadReplicaInfo ns).2
  registerUsefulPeer : ∀ nanos peer, (s.registerUsefulPeer ns nanos peer).2 = (s'.registerUsefulPeer ns nanos peer).2
  setDownloadPolicy : ∀ policy, (s.setDownloadPolicy ns policy).2 = (s'.setDownloadPolicy ns policy).2

/-! ## Reads of the entries -/

namespace Tables

variable {t : Tables} {ns : NamespaceId}

theorem get?_records_slice {id : RecordsId} (h : id.ns = ns) : (t.slice ns).records.get? id = t.records.get? id :=
  SortedMap.get?_filter_eq_self fun _ => decide_eq_true h

theorem getExact_slice (author : AuthorId) (key : Bytes) (includeEmpty : Bool) :
    (t.slice ns).getExact ns author key includeEmpty = t.getExact ns author key includeEmpty := by
  have hget : (t.slice ns).records.get? ⟨ns, author, key⟩ = t.records.get? ⟨ns, author, key⟩ :=
    get?_records_slice rfl
  unfold getExact
  rw [hget]

theorem parents_slice (author : AuthorId) (key : Bytes) :
    (t.slice ns).parents ns author key = t.parents ns author key := by
  have hloop : ∀ n, (t.slice ns).parentsLoop ns author key n = t.parentsLoop ns author key n := by
    intro n
    induction n with
    | zero => rfl
    | succ n ih => rw [parentsLoop, parentsLoop, ih, getExact_slice]
  unfold parents
  rw [hloop]

/-- A part of the records table that lies in the namespace. -/
theorem filter_records_slice {p : RecordsId × RecordsValue → Bool} (h : ∀ r, p r = true → r.1.ns = ns) :
    (t.slice ns).records.toList.filter p = t.records.toList.filter p := by
  show (t.records.toList.filter _).filter p = _
  rw [List.filter_filter]
  refine List.filter_congr fun r _ => ?_
  cases hp : p r with
  | false => rfl
  | true => simp [h r hp]

/-- The entries of a namespace are those of its slice. -/
theorem entries_slice (t : Tables) (ns : NamespaceId) :
    (t.slice ns).entries.filter (fun e => e.id.namespace = ns) = t.entries.filter fun e => e.id.namespace = ns := by
  unfold entries
  rw [List.filter_map, List.filter_map]
  congr 1
  refine filter_records_slice fun r hr => ?_
  simpa [intoEntry, SignedEntry.id] using hr

end Tables

section Reads

variable {t : Tables} {ns : NamespaceId}

/-- A scan of the index looks the records of its rows up. -/
theorem lookup_slice {id : RecordsByKeyId} (h : id.ns = ns) :
    RecordsByKeyRange.lookup (t.slice ns).records id = RecordsByKeyRange.lookup t.records id := by
  unfold RecordsByKeyRange.lookup
  rw [Tables.get?_records_slice h]

theorem rows_withBounds_slice (filter : KeyFilter) :
    (RecordsByKeyRange.withBounds (t.slice ns) (.new ns filter)).rows =
      (RecordsByKeyRange.withBounds t (.new ns filter)).rows := by
  show ((t.recordsByKey.toList.filter _).map Prod.fst).filter _ = (t.recordsByKey.toList.map Prod.fst).filter _
  rw [List.filter_map, List.filter_map, List.filter_filter]
  congr 1
  refine List.filter_congr fun r _ => ?_
  cases hc : (ByKeyBounds.new ns filter).contains r.1 with
  | false => simp [hc]
  | true => simp [hc, ByKeyBounds.ns_of_contains hc]

theorem entries_withBounds_slice (direction : SortDirection) (keys : KeyFilter) (filter : RecordsByKeyId → Bool) :
    (RecordsByKeyRange.withBounds (t.slice ns) (.new ns keys)).entries direction filter =
      (RecordsByKeyRange.withBounds t (.new ns keys)).entries direction filter := by
  have hns : ∀ id ∈ direction.order (RecordsByKeyRange.withBounds t (.new ns keys)).rows, id.ns = ns := by
    intro id hid
    have hmem : id ∈ (RecordsByKeyRange.withBounds t (.new ns keys)).rows := by
      cases direction with
      | asc => exact hid
      | desc => exact List.mem_reverse.1 hid
    exact ByKeyBounds.ns_of_contains (List.mem_filter.1 hmem).2
  unfold RecordsByKeyRange.entries
  rw [rows_withBounds_slice]
  refine List.filterMap_congr fun id hid => ?_
  show (if filter id then RecordsByKeyRange.lookup (t.slice ns).records id else none) =
    if filter id then RecordsByKeyRange.lookup t.records id else none
  rw [lookup_slice (hns id hid)]

/-- **A query sees the slice alone.** -/
theorem getMany_slice (t : Tables) (ns : NamespaceId) (q : Query) : getMany (t.slice ns) ns q = getMany t ns q := by
  rw [getMany_eq, getMany_eq]
  congr 1
  unfold unpaged QueryRange.new
  cases q.indexKind with
  | authorKey range keys =>
    cases range with
    | any =>
      dsimp only
      rw [Tables.filter_records_slice fun r hr => RecordsBounds.contains_namespace.1 hr]
    | exact author =>
      dsimp only
      rw [Tables.filter_records_slice fun r hr => RecordsBounds.ns_of_contains hr]
  | keyAuthor range authors latestPerKey =>
    simp only [QueryRange.rest, keyAuthorRest, entries_withBounds_slice]

end Reads

/-! ## A replica of the namespace -/

section Replica

variable [Blake3] {t : Tables} {ns : NamespaceId}

omit [Blake3] in
theorem view_slice (t : Tables) (ns : NamespaceId) :
    (⟨t.slice ns, none⟩ : StoreInstance ns).view = (⟨t, none⟩ : StoreInstance ns).view := t.entries_slice ns

theorem getFirst_slice (t : Tables) (ns : NamespaceId) :
    Store.getFirst (⟨t.slice ns, none⟩ : StoreInstance ns) = Store.getFirst (⟨t, none⟩ : StoreInstance ns) := by
  rw [StoreInstance.lawfulReads.getFirst, StoreInstance.lawfulReads.getFirst, view_slice]

theorem getRange_slice (t : Tables) (ns : NamespaceId) (range : Range RecordIdentifier) :
    (⟨t.slice ns, none⟩ : StoreInstance ns).getRange range = (⟨t, none⟩ : StoreInstance ns).getRange range := by
  by_cases h : range.Within (StoreInstance.dom ns)
  · rw [StoreInstance.getRange_eq _ h, StoreInstance.getRange_eq _ h, view_slice]
  · rw [StoreInstance.getRange_foreign _ h, StoreInstance.getRange_foreign _ h]

theorem getFingerprint_slice (t : Tables) (ns : NamespaceId) (range : Range RecordIdentifier) :
    Store.getFingerprint (⟨t.slice ns, none⟩ : StoreInstance ns) range =
      Store.getFingerprint (⟨t, none⟩ : StoreInstance ns) range := by
  show (do let elements ← (⟨t.slice ns, none⟩ : StoreInstance ns).getRange range; .ok (fingerprint elements)) =
    do let elements ← (⟨t, none⟩ : StoreInstance ns).getRange range; .ok (fingerprint elements)
  rw [getRange_slice]

variable {e : SignedEntry} (hns : e.id.namespace = ns)
include hns

theorem wouldInsert_slice :
    wouldInsert (⟨t.slice ns, none⟩ : StoreInstance ns) e = wouldInsert (⟨t, none⟩ : StoreInstance ns) e := by
  have hparents : Store.prefixesOf (⟨t.slice ns, none⟩ : StoreInstance ns) (key e) =
      Store.prefixesOf (⟨t, none⟩ : StoreInstance ns) (key e) := by
    subst hns
    exact t.parents_slice e.id.author e.id.key
  unfold wouldInsert
  rw [hparents]

end Replica

/-! ## The writes to the entry tables -/

section Entries

variable {t : Tables} {ns ns' : NamespaceId} {id : RecordIdentifier} {e : SignedEntry} (p : RecordValue → Bool)

theorem ns_of_extracted {r : RecordsId × RecordsValue} (h : StoreInstance.extracted id p r = true) :
    r.1.ns = id.namespace := by
  simp only [StoreInstance.extracted, Bool.and_eq_true] at h
  exact (RecordsBounds.contains_authorPrefix.1 h.1).1

/-- A removal counts the same rows in the slice. -/
theorem removed_slice (hns : id.namespace = ns) :
    (StoreInstance.removePrefixFiltered (⟨t.slice ns, none⟩ : StoreInstance ns') id p).1 =
      (StoreInstance.removePrefixFiltered (⟨t, none⟩ : StoreInstance ns') id p).1 :=
  congrArg List.length (Tables.filter_records_slice fun _ hr => (ns_of_extracted p hr).trans hns)

theorem slice_removePrefixFiltered (t : Tables) (id : RecordIdentifier) :
    (StoreInstance.removePrefixFiltered (⟨t, none⟩ : StoreInstance ns') id p).2.tables.slice ns =
      (StoreInstance.removePrefixFiltered (⟨t.slice ns, none⟩ : StoreInstance ns') id p).2.tables :=
  congrArg (fun records => Tables.mk records _ _) (SortedMap.filter_comm _ _)

/-- It takes none out of the slice of another namespace. -/
theorem slice_removePrefixFiltered_of_ne (t : Tables) (hns : id.namespace ≠ ns) :
    (StoreInstance.removePrefixFiltered (⟨t, none⟩ : StoreInstance ns') id p).2.tables.slice ns = t.slice ns := by
  refine congrArg (fun records => Tables.mk records _ _) (SortedMap.filter_filter_of_imp fun r hr => ?_)
  rw [Bool.not_eq_true', ← Bool.not_eq_true]
  intro hext
  exact hns ((ns_of_extracted p hext).symm.trans (of_decide_eq_true hr))

theorem slice_entryPut (t : Tables) (hns : e.id.namespace = ns) :
    (StoreInstance.entryPut (⟨t, none⟩ : StoreInstance ns') e).tables.slice ns =
      (StoreInstance.entryPut (⟨t.slice ns, none⟩ : StoreInstance ns') e).tables := by
  show Tables.mk _ _ _ = Tables.mk _ _ _
  congr 1
  · exact SortedMap.filter_insert_of_pos (decide_eq_true hns)
  · exact SortedMap.filter_insert_of_pos (decide_eq_true hns)
  · exact SortedMap.filter_insert_of_pos (decide_eq_true hns)

theorem slice_entryPut_of_ne (t : Tables) (hns : e.id.namespace ≠ ns) :
    (StoreInstance.entryPut (⟨t, none⟩ : StoreInstance ns') e).tables.slice ns = t.slice ns := by
  show Tables.mk _ _ _ = Tables.mk _ _ _
  congr 1
  · exact SortedMap.filter_insert_of_neg fun _ => decide_eq_false hns
  · exact SortedMap.filter_insert_of_neg fun _ => decide_eq_false hns
  · exact SortedMap.filter_insert_of_neg fun _ => decide_eq_false hns

variable [Blake3]

theorem put_slice (t : Tables) (hns : e.id.namespace = ns) :
    (put (⟨t.slice ns, none⟩ : StoreInstance ns) e).1 = (put (⟨t, none⟩ : StoreInstance ns) e).1 ∧
    (put (⟨t, none⟩ : StoreInstance ns) e).2.tables.slice ns =
      (put (⟨t.slice ns, none⟩ : StoreInstance ns) e).2.tables := by
  cases hw : wouldInsert (⟨t, none⟩ : StoreInstance ns) e with
  | false =>
    rw [put_of_not_wouldInsert hw, put_of_not_wouldInsert ((wouldInsert_slice hns).trans hw)]
    exact ⟨rfl, rfl⟩
  | true =>
    rw [put_eq_of_wouldInsert hw, put_eq_of_wouldInsert ((wouldInsert_slice hns).trans hw)]
    refine ⟨congrArg InsertOutcome.inserted (removed_slice _ hns), ?_⟩
    exact (slice_entryPut _ hns).trans (congrArg
      (fun t => (StoreInstance.entryPut (⟨t, none⟩ : StoreInstance ns) e).tables)
      (slice_removePrefixFiltered _ t (key e)))

theorem slice_put_of_ne (t : Tables) (hns : e.id.namespace ≠ ns) :
    (put (⟨t, none⟩ : StoreInstance ns') e).2.tables.slice ns = t.slice ns := by
  cases hw : wouldInsert (⟨t, none⟩ : StoreInstance ns') e with
  | false => rw [put_of_not_wouldInsert hw]
  | true =>
    rw [put_eq_of_wouldInsert hw]
    exact (slice_entryPut_of_ne _ hns).trans (slice_removePrefixFiltered_of_ne _ t hns)

end Entries

/-! ## The other writes -/

namespace FsStore

variable {s : FsStore} {ns ns' : NamespaceId}

theorem get?_namespaces_slice (s : FsStore) (ns : NamespaceId) :
    (s.slice ns).namespaces.get? ns = s.namespaces.get? ns :=
  SortedMap.get?_filter_eq_self fun _ => decide_eq_true rfl

theorem retractEntry_slice (s : FsStore) (ns : NamespaceId) (author : AuthorId) (k : Bytes) (upTo : U64) :
    (s.slice ns).retractEntry ns author k upTo =
      ((s.retractEntry ns author k upTo).1.slice ns, (s.retractEntry ns author k upTo).2) := by
  have hget : (s.slice ns).tables.records.get? ⟨ns, author, k⟩ = s.tables.records.get? ⟨ns, author, k⟩ :=
    Tables.get?_records_slice rfl
  unfold retractEntry
  rw [hget]
  cases s.tables.records.get? ⟨ns, author, k⟩ with
  | none => rfl
  | some value =>
    dsimp only
    split
    · rfl
    · refine Prod.ext ?_ rfl
      show FsStore.mk (Tables.mk _ _ _) _ _ _ _ = FsStore.mk (Tables.mk _ _ _) _ _ _ _
      congr 2
      · exact SortedMap.filter_comm _ _
      · exact SortedMap.filter_comm _ _

theorem slice_retractEntry_of_ne (hns : ns' ≠ ns) (author : AuthorId) (k : Bytes) (upTo : U64) :
    (s.retractEntry ns' author k upTo).1.slice ns = s.slice ns := by
  unfold retractEntry
  repeat' split
  · rfl
  · rfl
  · show FsStore.mk (Tables.mk _ _ _) _ _ _ _ = FsStore.mk (Tables.mk _ _ _) _ _ _ _
    congr 2
    · refine SortedMap.filter_filter_of_imp fun r hr => decide_eq_true ?_
      rintro heq
      exact hns ((congrArg RecordsId.ns heq).symm.trans (of_decide_eq_true hr))
    · refine SortedMap.filter_filter_of_imp fun r hr => decide_eq_true ?_
      rintro heq
      exact hns ((congrArg RecordsByKeyId.ns heq).symm.trans (of_decide_eq_true hr))

theorem mem_openReplicas_slice (s : FsStore) (ns : NamespaceId) :
    ns ∈ (s.slice ns).openReplicas ↔ ns ∈ s.openReplicas := by
  show ns ∈ s.openReplicas.filter (· = ns) ↔ _
  simp

theorem removeReplica_slice (s : FsStore) (ns : NamespaceId) :
    (s.slice ns).removeReplica ns = ((s.removeReplica ns).1.slice ns, (s.removeReplica ns).2) := by
  unfold removeReplica
  by_cases hopen : ns ∈ s.openReplicas
  · rw [if_pos hopen, if_pos ((mem_openReplicas_slice s ns).2 hopen)]
  · rw [if_neg hopen, if_neg (mt (mem_openReplicas_slice s ns).1 hopen)]
    refine Prod.ext ?_ rfl
    show FsStore.mk (Tables.mk _ _ _) _ _ _ _ = FsStore.mk (Tables.mk _ _ _) _ _ _ _
    congr 1
    · congr 1
      · exact SortedMap.filter_comm _ _
      · exact SortedMap.filter_comm _ _
    · exact SortedMap.filter_comm _ _
    · exact SortedMap.filter_comm _ _
    · exact SortedMap.filter_comm _ _

theorem slice_removeReplica_of_ne (hns : ns' ≠ ns) : (s.removeReplica ns').1.slice ns = s.slice ns := by
  have hkeep : ∀ {m : NamespaceId}, m = ns → m ≠ ns' := fun h h' => hns (h'.symm.trans h)
  unfold removeReplica
  split
  · rfl
  · show FsStore.mk (Tables.mk _ _ _) _ _ _ _ = FsStore.mk (Tables.mk _ _ _) _ _ _ _
    congr 1
    · congr 1
      · refine SortedMap.filter_filter_of_imp fun r hr => ?_
        rw [Bool.not_eq_true', ← Bool.not_eq_true, RecordsBounds.contains_namespace]
        exact hkeep (of_decide_eq_true hr)
      · refine SortedMap.filter_filter_of_imp fun r hr => ?_
        rw [Bool.not_eq_true', ← Bool.not_eq_true, ByKeyBounds.contains_namespace]
        exact hkeep (of_decide_eq_true hr)
    · exact SortedMap.filter_filter_of_imp fun r hr => decide_eq_true (hkeep (of_decide_eq_true hr))
    · exact SortedMap.filter_filter_of_imp fun r hr => decide_eq_true (hkeep (of_decide_eq_true hr))
    · exact SortedMap.filter_filter_of_imp fun r hr => decide_eq_true (hkeep (of_decide_eq_true hr))

theorem peerRows_slice (s : FsStore) (ns : NamespaceId) : (s.slice ns).peerRows ns = s.peerRows ns := by
  show ((s.namespacePeers.toList.filter _).filter _).map _ = (s.namespacePeers.toList.filter _).map _
  rw [List.filter_filter]
  simp

theorem slice_insertPeer (s : FsStore) (ns : NamespaceId) (r : U64 × PeerIdBytes) :
    (s.insertPeer ns r).slice ns = (s.slice ns).insertPeer ns r :=
  congrArg (fun peers => { s.slice ns with namespacePeers := peers })
    (SortedMap.filter_insert_of_pos (decide_eq_true rfl))

theorem slice_removePeer (s : FsStore) (ns : NamespaceId) (r : U64 × PeerIdBytes) :
    (s.removePeer ns r).slice ns = (s.slice ns).removePeer ns r :=
  congrArg (fun peers => { s.slice ns with namespacePeers := peers }) (SortedMap.filter_comm _ _)

theorem registerUsefulPeer_slice (s : FsStore) (ns : NamespaceId) (nanos : U64) (peer : PeerIdBytes) :
    (s.slice ns).registerUsefulPeer ns nanos peer =
      ((s.registerUsefulPeer ns nanos peer).1.slice ns, (s.registerUsefulPeer ns nanos peer).2) := by
  unfold registerUsefulPeer
  rw [get?_namespaces_slice, peerRows_slice]
  repeat' split
  all_goals simp only [slice_insertPeer, slice_removePeer]

theorem slice_insertPeer_of_ne (hns : ns' ≠ ns) (s : FsStore) (r : U64 × PeerIdBytes) :
    (s.insertPeer ns' r).slice ns = s.slice ns :=
  congrArg (fun peers => { s.slice ns with namespacePeers := peers })
    (SortedMap.filter_insert_of_neg fun _ => decide_eq_false hns)

theorem slice_removePeer_of_ne (hns : ns' ≠ ns) (s : FsStore) (r : U64 × PeerIdBytes) :
    (s.removePeer ns' r).slice ns = s.slice ns := by
  have hpeers : (s.removePeer ns' r).namespacePeers.filter (fun q => (ofLex q.1).1 = ns) =
      s.namespacePeers.filter fun q => (ofLex q.1).1 = ns := by
    refine SortedMap.filter_filter_of_imp fun q hq => decide_eq_true ?_
    intro heq
    have hq : (ofLex q.1).1 = ns := of_decide_eq_true hq
    rw [heq] at hq
    exact hns hq
  exact congrArg (fun peers => { s.slice ns with namespacePeers := peers }) hpeers

theorem slice_registerUsefulPeer_of_ne (hns : ns' ≠ ns) (nanos : U64) (peer : PeerIdBytes) :
    (s.registerUsefulPeer ns' nanos peer).1.slice ns = s.slice ns := by
  unfold registerUsefulPeer
  repeat' split
  all_goals simp only [slice_insertPeer_of_ne hns, slice_removePeer_of_ne hns]

theorem setDownloadPolicy_slice (s : FsStore) (ns : NamespaceId) (policy : DownloadPolicy) :
    (s.slice ns).setDownloadPolicy ns policy =
      ((s.setDownloadPolicy ns policy).1.slice ns, (s.setDownloadPolicy ns policy).2) := by
  unfold setDownloadPolicy
  rw [get?_namespaces_slice]
  split
  · rfl
  · refine Prod.ext ?_ rfl
    show FsStore.mk _ _ _ _ _ = FsStore.mk _ _ _ _ _
    congr 1
    exact (SortedMap.filter_insert_of_pos (decide_eq_true rfl)).symm

theorem slice_setDownloadPolicy_of_ne (hns : ns' ≠ ns) (policy : DownloadPolicy) :
    (s.setDownloadPolicy ns' policy).1.slice ns = s.slice ns := by
  unfold setDownloadPolicy
  split
  · rfl
  · show FsStore.mk _ _ _ _ _ = FsStore.mk _ _ _ _ _
    congr 1
    exact SortedMap.filter_insert_of_neg fun _ => decide_eq_false hns

/-! ## Capabilities -/

variable [Ed25519]

theorem importNamespace_slice (hs : WellKeyed s) (capability : Capability) (hns : capability.id = ns) :
    (s.slice ns).importNamespace capability =
      ((s.importNamespace capability).1.slice ns, (s.importNamespace capability).2) := by
  subst hns
  have hinsert : ∀ raw, (s.namespaces.insert capability.id raw).filter (fun r => r.1 = capability.id) =
      (s.slice capability.id).namespaces.insert capability.id raw :=
    fun raw => SortedMap.filter_insert_of_pos (decide_eq_true rfl)
  have hget := get?_namespaces_slice s capability.id
  unfold importNamespace
  rw [hget]
  cases hold : s.namespaces.get? capability.id with
  | none =>
    refine Prod.ext ?_ rfl
    show FsStore.mk _ _ _ _ _ = FsStore.mk _ _ _ _ _
    congr 1
    exact (hinsert _).symm
  | some raw =>
    obtain ⟨old, rfl, hid⟩ := hs _ _ hold
    obtain ⟨changed, merged, hmerge⟩ := merge_ok hid.symm
    have hmerged : merged.id = capability.id := by
      rcases (merge_eq_ok hmerge).2 with ⟨-, rfl⟩ | ⟨-, -, -, -, -, rfl⟩
      · exact hid
      · rfl
    simp only [Capability.fromRaw_raw, hmerge, hmerged]
    refine Prod.ext ?_ rfl
    show FsStore.mk _ _ _ _ _ = FsStore.mk _ _ _ _ _
    congr 1
    exact (hinsert _).symm

theorem slice_importNamespace_of_ne (hs : WellKeyed s) (capability : Capability) (hns : capability.id ≠ ns) :
    (s.importNamespace capability).1.slice ns = s.slice ns := by
  obtain ⟨c, -, hnamespaces, -⟩ := namespaces_importNamespace hs capability
  rw [s.tables_importNamespace capability, hnamespaces]
  show FsStore.mk _ _ _ _ _ = FsStore.mk _ _ _ _ _
  congr 1
  exact SortedMap.filter_insert_of_neg fun _ => decide_eq_false hns

theorem loadReplicaInfo_slice (hs : WellKeyed s) (ns : NamespaceId) :
    (s.slice ns).loadReplicaInfo ns = ((s.loadReplicaInfo ns).1.slice ns, (s.loadReplicaInfo ns).2) := by
  unfold loadReplicaInfo
  rw [get?_namespaces_slice]
  cases hget : s.namespaces.get? ns with
  | none => rfl
  | some raw =>
    obtain ⟨c, rfl, rfl⟩ := hs _ _ hget
    simp only [Capability.fromRaw_raw]
    refine Prod.ext ?_ rfl
    show FsStore.mk _ _ _ _ _ = FsStore.mk _ _ _ _ _
    congr 1
    have hopen : (insert c.id s.openReplicas).filter (· = c.id) = insert c.id (s.openReplicas.filter (· = c.id)) := by
      rw [Finset.filter_insert, if_pos rfl]
    exact hopen.symm

theorem slice_loadReplicaInfo_of_ne (hs : WellKeyed s) (hns : ns' ≠ ns) :
    (s.loadReplicaInfo ns').1.slice ns = s.slice ns := by
  unfold loadReplicaInfo
  cases hget : s.namespaces.get? ns' with
  | none => rfl
  | some raw =>
    obtain ⟨c, rfl, rfl⟩ := hs _ _ hget
    simp only [Capability.fromRaw_raw]
    show FsStore.mk _ _ _ _ _ = FsStore.mk _ _ _ _ _
    congr 1
    exact (Finset.filter_insert ..).trans (if_neg hns)

omit [Ed25519] in
theorem slice_closeReplica (s : FsStore) (ns : NamespaceId) :
    (s.closeReplica ns).slice ns = (s.slice ns).closeReplica ns :=
  congrArg (fun opened => { s.slice ns with openReplicas := opened }) (Finset.filter_erase ..)

omit [Ed25519] in
theorem slice_closeReplica_of_ne (hns : ns' ≠ ns) : (s.closeReplica ns').slice ns = s.slice ns := by
  show FsStore.mk _ _ _ _ _ = FsStore.mk _ _ _ _ _
  congr 1
  ext m
  simp only [Finset.mem_filter, closeReplica, Finset.mem_erase]
  constructor
  · exact fun h => ⟨h.1.2, h.2⟩
  · exact fun h => ⟨⟨fun heq => hns (heq.symm.trans h.2), h.1⟩, h.2⟩

/-! ## Runs -/

variable [Blake3]

/-- A store that came about through writes. -/
structure Written (s : FsStore) : Prop where
  keyed : WellKeyed s
  heads : s.RecordsHaveHeads
  index : s.tables.IndexComplete

theorem Written.step (h : Written s) (op : Op) : Written (s.step op) :=
  ⟨h.keyed.step op, recordsHaveHeads_step h.heads op, indexComplete_step s op h.index⟩

theorem written_default : Written (default : FsStore) :=
  ⟨wellKeyed_run [], settled_default.heads, settled_default.index⟩

/-- A write of the namespace works on its slice. -/
theorem slice_step (h : Written s) (op : Op) (hns : op.concerns ns = true) :
    (s.step op).slice ns = (s.slice ns).step op := by
  cases op with
  | put e =>
    obtain rfl : e.id.namespace = ns := of_decide_eq_true hns
    exact congrArg (fun t => { s.slice _ with tables := t }) (put_slice s.tables rfl).2
  | removePrefixFiltered id p =>
    exact congrArg (fun t => { s.slice ns with tables := t }) (slice_removePrefixFiltered p s.tables id)
  | retractEntry ns' author k upTo =>
    obtain rfl : ns' = ns := of_decide_eq_true hns
    exact (congrArg Prod.fst (retractEntry_slice s ns' author k upTo)).symm
  | removeReplica ns' =>
    obtain rfl : ns' = ns := of_decide_eq_true hns
    exact (congrArg Prod.fst (removeReplica_slice s ns')).symm
  | importNamespace capability =>
    exact (congrArg Prod.fst (importNamespace_slice h.keyed capability (of_decide_eq_true hns))).symm
  | loadReplicaInfo ns' =>
    obtain rfl : ns' = ns := of_decide_eq_true hns
    exact (congrArg Prod.fst (loadReplicaInfo_slice h.keyed ns')).symm
  | closeReplica ns' =>
    obtain rfl : ns' = ns := of_decide_eq_true hns
    exact slice_closeReplica s ns'
  | registerUsefulPeer ns' nanos peer =>
    obtain rfl : ns' = ns := of_decide_eq_true hns
    exact (congrArg Prod.fst (registerUsefulPeer_slice s ns' nanos peer)).symm
  | setDownloadPolicy ns' policy =>
    obtain rfl : ns' = ns := of_decide_eq_true hns
    exact (congrArg Prod.fst (setDownloadPolicy_slice s ns' policy)).symm
  | migrateLatest => cases hns
  | migrateByKey => cases hns

/-- A write of another namespace, or a migration, leaves it alone. -/
theorem slice_step_of_ne (h : Written s) (op : Op) (hns : op.concerns ns = false) :
    (s.step op).slice ns = s.slice ns := by
  cases op with
  | put e =>
    exact congrArg (fun t => { s.slice ns with tables := t }) (slice_put_of_ne s.tables (of_decide_eq_false hns))
  | removePrefixFiltered id p =>
    exact congrArg (fun t => { s.slice ns with tables := t })
      (slice_removePrefixFiltered_of_ne p s.tables (of_decide_eq_false hns))
  | retractEntry ns' author k upTo => exact slice_retractEntry_of_ne (of_decide_eq_false hns) author k upTo
  | removeReplica ns' => exact slice_removeReplica_of_ne (of_decide_eq_false hns)
  | importNamespace capability => exact slice_importNamespace_of_ne h.keyed capability (of_decide_eq_false hns)
  | loadReplicaInfo ns' => exact slice_loadReplicaInfo_of_ne h.keyed (of_decide_eq_false hns)
  | closeReplica ns' => exact slice_closeReplica_of_ne (of_decide_eq_false hns)
  | registerUsefulPeer ns' nanos peer => exact slice_registerUsefulPeer_of_ne (of_decide_eq_false hns) nanos peer
  | setDownloadPolicy ns' policy => exact slice_setDownloadPolicy_of_ne (of_decide_eq_false hns) policy
  | migrateLatest =>
    show s.migrateLatest.slice ns = s.slice ns
    rw [migrateLatest_eq h.heads]
  | migrateByKey =>
    show s.migrateByKey.slice ns = s.slice ns
    rw [migrateByKey_eq h.index]

/-- Run: the slice is what the writes of the namespace make of it. -/
theorem slice_run (h : Written s) (ops : List Op) :
    (s.run ops).slice ns = (s.slice ns).run (ops.filter (·.concerns ns)) :=
  view_foldl (FsStore.slice · ns) (Op.concerns ns) (fun _ op h => Written.step h op) (fun _ op h => slice_step h op)
    (fun _ op h => slice_step_of_ne h op) h ops

omit [Ed25519] [Blake3] in
theorem getLatestForEachAuthor_slice (s : FsStore) (ns : NamespaceId) :
    (s.slice ns).getLatestForEachAuthor ns = s.getLatestForEachAuthor ns := by
  unfold getLatestForEachAuthor
  show ((s.tables.latestPerAuthor.toList.filter _).filter _).map _ = (s.tables.latestPerAuthor.toList.filter _).map _
  rw [List.filter_filter]
  congr 1
  refine List.filter_congr fun r _ => ?_
  rw [Bool.eq_iff_iff, Bool.and_eq_true, decide_eq_true_eq, decide_eq_true_eq, and_iff_left_iff_imp]
  exact fun h => ns_of_latestRange h.1 h.2

omit [Ed25519] [Blake3] in
theorem answerAlike_slice (s : FsStore) (ns : NamespaceId) : AnswerAlike s (s.slice ns) ns where
  getMany q := (getMany_slice s.tables ns q).symm
  getExact author key includeEmpty := (Tables.getExact_slice author key includeEmpty).symm
  getLatestForEachAuthor := (getLatestForEachAuthor_slice s ns).symm
  hasNewsForUs heads := by
    unfold hasNewsForUs
    rw [getLatestForEachAuthor_slice]
  getSyncPeers := by
    unfold getSyncPeers
    rw [peerRows_slice]
  getDownloadPolicy := by
    have hget : (s.slice ns).downloadPolicy.get? ns = s.downloadPolicy.get? ns :=
      SortedMap.get?_filter_eq_self fun _ => decide_eq_true rfl
    unfold getDownloadPolicy
    rw [hget]

/-- What is answered about a namespace is answered from its slice. -/
theorem actAlike_slice (h : WellKeyed s) (ns : NamespaceId) : ActAlike s (s.slice ns) ns where
  reads := answerAlike_slice s ns
  getFirst := (getFirst_slice s.tables ns).symm
  getRange range := (getRange_slice s.tables ns range).symm
  getFingerprint range := (getFingerprint_slice s.tables ns range).symm
  put _ hns := (put_slice s.tables hns).1.symm
  removePrefixFiltered _ p hns := (removed_slice p hns).symm
  retractEntry author k upTo := (congrArg Prod.snd (retractEntry_slice s ns author k upTo)).symm
  removeReplica := (congrArg Prod.snd (removeReplica_slice s ns)).symm
  importNamespace capability hns := (congrArg Prod.snd (importNamespace_slice h capability hns)).symm
  loadReplicaInfo := (congrArg Prod.snd (loadReplicaInfo_slice h ns)).symm
  registerUsefulPeer nanos peer := (congrArg Prod.snd (registerUsefulPeer_slice s ns nanos peer)).symm
  setDownloadPolicy policy := (congrArg Prod.snd (setDownloadPolicy_slice s ns policy)).symm

/-- **Namespaces are isolated.** -/
theorem namespaces_are_isolated (ops : List Op) (ns : NamespaceId) :
    ((default : FsStore).run ops).slice ns = (default : FsStore).run (ops.filter (·.concerns ns)) ∧
    ActAlike ((default : FsStore).run ops) ((default : FsStore).run (ops.filter (·.concerns ns))) ns := by
  have hslice : ((default : FsStore).run ops).slice ns = (default : FsStore).run (ops.filter (·.concerns ns)) :=
    slice_run written_default ops
  refine ⟨hslice, ?_⟩
  rw [← hslice]
  exact actAlike_slice (wellKeyed_run ops) ns

end FsStore

end PdnStore.Fs

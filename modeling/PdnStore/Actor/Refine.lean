import PdnStore.Actor.Books
import PdnStore.Sync.Ingest
import PdnStore.Store.Peers
import PdnStore.Store.Durable

/-!
# The actor over its store (actor.rs:941-1232)

All the actor does to its store it does through the operations of the store, and each of them it has to be
allowed to (`Licensed`): an entry is put only when it was written here under a capability to write, or came
from a peer and passed every check (`LetsIn`). A run of the actor is, for the store, a run of such operations
(`refines_run`). So every record was let in by some turn (`every_record_was_let_in`), and no row is without
its namespace (`no_orphan_rows`).
-/

namespace PdnStore.Actors

open Ranger Sync Fs Session

/-! ## What the actor may do to the store -/

section Licences

variable (verify : SignedEntry → Bool) (a : Actor)

/-- The actor, about to take the action, has checked what there is to check before it puts the entry. -/
inductive LetsIn : Action → SignedEntry → Prop
  /-- a record written here, under a capability to write -/
  | written {ns : NamespaceId} {state : OpenReplica} {secret : NamespaceSecret} {author : AuthorId}
      {sign : Entry → EntrySignature} {k : Bytes} {hash : Hash} {len created now : U64} {e : Entry}
      (hopen : a.states.get? ns = some state) (hwrite : state.capability = .write secret)
      (he : e = ⟨.new ns author k, ⟨len, hash, created⟩⟩) (hrecord : len ≠ 0 ∧ hash ≠ Hash.EMPTY)
      (hclock : created ≤ now + MAX_TIMESTAMP_FUTURE_SHIFT) :
      LetsIn (.replica ns (.insertLocal author (some sign) k hash len created now)) ⟨sign e, e⟩
  /-- a tombstone written here, under a capability to write -/
  | deleted {ns : NamespaceId} {state : OpenReplica} {secret : NamespaceSecret} {author : AuthorId}
      {sign : Entry → EntrySignature} {k : Bytes} {created now : U64} {e : Entry}
      (hopen : a.states.get? ns = some state) (hwrite : state.capability = .write secret)
      (he : e = ⟨.new ns author k, ⟨0, Hash.EMPTY, created⟩⟩)
      (hclock : created ≤ now + MAX_TIMESTAMP_FUTURE_SHIFT) :
      LetsIn (.replica ns (.deletePrefix author (some sign) k created now)) ⟨sign e, e⟩
  /-- an entry a peer announced -/
  | gossiped {ns : NamespaceId} {state : OpenReplica} {e : SignedEntry} {peer : PeerIdBytes}
      {status : ContentStatus} {now : U64} (hopen : a.states.get? ns = some state) (hsync : state.sync = true)
      (hns : e.id.namespace = ns) (hsigned : verify e = true)
      (hclock : e.record.timestamp ≤ now + MAX_TIMESTAMP_FUTURE_SHIFT) (hempty : e.validateEmpty = true)
      (hallowed : ∀ validate, a.callbacks.capabilityValidator = some validate → validate e peer = .accept) :
      LetsIn (.replica ns (.insertRemote e peer status now)) e
  /-- an entry a peer sent in a session of this actor -/
  | reconciled {ns : NamespaceId} {state : OpenReplica} {tables : Tables} {e : SignedEntry}
      {status : ContentStatus} {peer : PeerIdBytes} {m : SyncMessage} {outcome : SyncOutcome}
      {session : SyncSessionId} {filter : Option (SignedEntry → Bool)} {now : U64}
      (hopen : a.states.get? ns = some state) (hsync : state.sync = true)
      (hsession : a.sessions.get? session = some ⟨ns, tables⟩) (hsent : (e, status) ∈ m.values)
      (hns : e.id.namespace = ns) (hsigned : verify e = true)
      (hclock : e.record.timestamp ≤ now + MAX_TIMESTAMP_FUTURE_SHIFT)
      (hallowed : ∀ validate, a.callbacks.capabilityValidator = some validate → validate e peer = .accept) :
      LetsIn (.replica ns (.syncProcessMessage m peer outcome session filter now)) e

/-- What an action makes the actor do to its store. -/
inductive Licensed : Action → Op → Prop
  | put {action : Action} {e : SignedEntry} (h : LetsIn verify a action e) : Licensed action (.put e)
  | retractEntry {ns : NamespaceId} {state : OpenReplica} {author : AuthorId} {k : Bytes} {upTo : U64}
      (hopen : a.states.get? ns = some state) :
      Licensed (.replica ns (.retractEntry author k upTo)) (.retractEntry ns author k upTo)
  | registerUsefulPeer (ns : NamespaceId) (peer : PeerIdBytes) (nanos : U64) :
      Licensed (.replica ns (.registerUsefulPeer peer nanos)) (.registerUsefulPeer ns nanos peer)
  | setDownloadPolicy (ns : NamespaceId) (policy : DownloadPolicy) :
      Licensed (.replica ns (.setDownloadPolicy policy)) (.setDownloadPolicy ns policy)
  | importNamespace (capability : Capability) : Licensed (.importNamespace capability) (.importNamespace capability)
  | loadReplicaInfo {ns : NamespaceId} {sync : Bool} {subscribe : Option ChannelId}
      (hclosed : a.states.get? ns = none) : Licensed (.replica ns (.open sync subscribe)) (.loadReplicaInfo ns)
  | closeReplica (ns : NamespaceId) : Licensed (.replica ns .close) (.closeReplica ns)
  | closeDropped (ns : NamespaceId) : Licensed (.replica ns .dropReplica) (.closeReplica ns)
  | removeReplica (ns : NamespaceId) : Licensed (.replica ns .dropReplica) (.removeReplica ns)
  | closeAll (ns : NamespaceId) : Licensed .shutdown (.closeReplica ns)

end Licences

/-! ## Insertions -/

section Checks

variable {ns : NamespaceId} {verify : SignedEntry → Bool} {now : U64} {e : SignedEntry}

/-- What every entry is checked for. -/
theorem of_validateEntry {origin : InsertOrigin} (h : validateEntry verify now ns e origin validator = .ok ()) :
    e.id.namespace = ns ∧ (origin.isRemote = true → verify e = true) ∧
      e.record.timestamp ≤ now + MAX_TIMESTAMP_FUTURE_SHIFT ∧ checkCapability e validator origin = .ok () := by
  unfold validateEntry at h
  split at h
  · cases h
  split at h
  · cases h
  split at h
  · cases h
  rename_i hns hsigned hclock
  refine ⟨not_not.1 hns, fun hremote => ?_, not_lt.1 hclock, h⟩
  simpa [hremote] using hsigned

/-- What an entry from a peer is checked for. -/
theorem of_validateEntry_sync {peer : PeerIdBytes} {status : ContentStatus}
    (h : validateEntry verify now ns e (.sync peer status) validator = .ok ()) :
    e.id.namespace = ns ∧ verify e = true ∧ e.record.timestamp ≤ now + MAX_TIMESTAMP_FUTURE_SHIFT ∧
      ∀ validate, validator = some validate → validate e peer = .accept := by
  obtain ⟨hns, hsigned, hclock, hallowed⟩ := of_validateEntry h
  refine ⟨hns, hsigned rfl, hclock, ?_⟩
  rintro validate rfl
  unfold checkCapability at hallowed
  dsimp only at hallowed
  split at hallowed
  · assumption
  · cases hallowed
  · cases hallowed

variable [Blake3]

/-- An insertion puts the entry, or leaves the store. -/
theorem insertEntry_store (verify : SignedEntry → Bool) (now : U64) (e : SignedEntry) (r : Replica ns)
    (origin : InsertOrigin) :
    (insertEntry verify now r e origin).replica.store = r.store ∨
      (validateEntry verify now ns e origin r.info.capabilityValidator = .ok () ∧
        (insertEntry verify now r e origin).replica.store = (put r.store e).2) := by
  unfold insertEntry
  cases hv : validateEntry verify now ns e origin r.info.capabilityValidator with
  | error failure => exact .inl rfl
  | ok u =>
    right
    dsimp only
    split <;> rename_i heq <;> exact ⟨rfl, by rw [heq]⟩

end Checks

/-! ## Rows and their namespaces -/

/-- The store has a capability for the namespace. -/
def Hosts (s : FsStore) (ns : NamespaceId) : Prop := (s.namespaces.get? ns).isSome

/-- Every record, index row, peer and download policy is of a namespace the store has a capability for. -/
structure NoOrphans (s : FsStore) : Prop where
  records : ∀ r ∈ s.tables.records.toList, Hosts s r.1.ns
  recordsByKey : ∀ r ∈ s.tables.recordsByKey.toList, Hosts s r.1.ns
  namespacePeers : ∀ r ∈ s.namespacePeers.toList, Hosts s (ofLex r.1).1
  downloadPolicy : ∀ r ∈ s.downloadPolicy.toList, Hosts s r.1

theorem noOrphans_default : NoOrphans (default : FsStore) :=
  ⟨fun _ h => absurd h List.not_mem_nil, fun _ h => absurd h List.not_mem_nil,
    fun _ h => absurd h List.not_mem_nil, fun _ h => absurd h List.not_mem_nil⟩

/-- Fewer rows of the same namespaces. -/
theorem NoOrphans.mono {s s' : FsStore} (h : NoOrphans s) (hns : ∀ ns, Hosts s ns → Hosts s' ns)
    (hrecords : ∀ r ∈ s'.tables.records.toList, r ∈ s.tables.records.toList)
    (hindex : ∀ r ∈ s'.tables.recordsByKey.toList, r ∈ s.tables.recordsByKey.toList)
    (hpeers : ∀ r ∈ s'.namespacePeers.toList, r ∈ s.namespacePeers.toList)
    (hpolicy : ∀ r ∈ s'.downloadPolicy.toList, r ∈ s.downloadPolicy.toList) : NoOrphans s' :=
  ⟨fun r hr => hns _ (h.records r (hrecords r hr)), fun r hr => hns _ (h.recordsByKey r (hindex r hr)),
    fun r hr => hns _ (h.namespacePeers r (hpeers r hr)), fun r hr => hns _ (h.downloadPolicy r (hpolicy r hr))⟩

namespace Actor

variable {verify : SignedEntry → Bool} {a : Actor} {ns : NamespaceId}

theorem noOrphans_retractEntry {s : FsStore} (h : NoOrphans s) (ns : NamespaceId) (author : AuthorId) (k : Bytes)
    (upTo : U64) : NoOrphans (s.retractEntry ns author k upTo).1 := by
  unfold FsStore.retractEntry
  split
  · exact h
  split
  · exact h
  · exact h.mono (fun _ h => h) (fun r hr => (SortedMap.mem_filter.1 hr).1)
      (fun r hr => (SortedMap.mem_filter.1 hr).1) (fun _ hr => hr) fun _ hr => hr

/-- The rows of the namespace go with its capability. -/
theorem noOrphans_removeReplica {s : FsStore} (h : NoOrphans s) (ns : NamespaceId) :
    NoOrphans (s.removeReplica ns).1 := by
  have hkeep : ∀ ns', ns' ≠ ns → Hosts s ns' →
      ((s.namespaces.filter fun r => r.1 ≠ ns).get? ns').isSome := by
    intro ns' hne hhosts
    rw [SortedMap.get?_filter_eq_self (by simp [hne])]
    exact hhosts
  unfold FsStore.removeReplica
  split
  · exact h
  refine ⟨fun r hr => ?_, fun r hr => ?_, fun r hr => ?_, fun r hr => ?_⟩
  · obtain ⟨hr, hout⟩ := SortedMap.mem_filter.1 hr
    refine hkeep _ ?_ (h.records r hr)
    simpa only [Bool.not_eq_true', ← Bool.not_eq_true, RecordsBounds.contains_namespace] using hout
  · obtain ⟨hr, hout⟩ := SortedMap.mem_filter.1 hr
    refine hkeep _ ?_ (h.recordsByKey r hr)
    simpa only [Bool.not_eq_true', ← Bool.not_eq_true, ByKeyBounds.contains_namespace] using hout
  · obtain ⟨hr, hout⟩ := SortedMap.mem_filter.1 hr
    exact hkeep _ (by simpa using hout) (h.namespacePeers r hr)
  · obtain ⟨hr, hout⟩ := SortedMap.mem_filter.1 hr
    exact hkeep _ (by simpa using hout) (h.downloadPolicy r hr)

theorem noOrphans_registerUsefulPeer {s : FsStore} (h : NoOrphans s) (ns : NamespaceId) (nanos : U64)
    (peer : PeerIdBytes) : NoOrphans (s.registerUsefulPeer ns nanos peer).1 := by
  by_cases hnone : s.namespaces.get? ns = none
  · rwa [FsStore.registerUsefulPeer_missing hnone]
  have hhosts : Hosts s ns := Option.isSome_iff_ne_none.2 hnone
  refine (FsStore.registerUsefulPeer_keeps (P := fun t => NoOrphans t ∧ Hosts t ns) ⟨h, hhosts⟩ ?_ ?_).1
  · rintro t ⟨ht, hns⟩
    refine ⟨⟨ht.records, ht.recordsByKey, fun r hr => ?_, ht.downloadPolicy⟩, hns⟩
    rcases SortedMap.mem_insert.1 hr with rfl | ⟨hr, -⟩
    · exact hns
    · exact ht.namespacePeers r hr
  · rintro t row ⟨ht, hns⟩
    exact ⟨⟨ht.records, ht.recordsByKey, fun r hr => ht.namespacePeers r (SortedMap.mem_filter.1 hr).1,
      ht.downloadPolicy⟩, hns⟩

theorem noOrphans_setDownloadPolicy {s : FsStore} (h : NoOrphans s) (ns : NamespaceId) (policy : DownloadPolicy) :
    NoOrphans (s.setDownloadPolicy ns policy).1 := by
  unfold FsStore.setDownloadPolicy
  split
  · exact h
  · rename_i hget
    refine ⟨h.records, h.recordsByKey, h.namespacePeers, fun r hr => ?_⟩
    rcases SortedMap.mem_insert.1 hr with rfl | ⟨hr, -⟩
    · show (s.namespaces.get? ns).isSome
      rw [hget]
      rfl
    · exact h.downloadPolicy r hr

/-! ## Licences -/

theorem letsIn_of_licensed {action : Action} {e : SignedEntry} (h : Licensed verify a action (.put e)) :
    LetsIn verify a action e := by
  cases h with
  | put h => exact h

/-- The sweep over abandoned sessions before the action grants nothing. -/
theorem licensed_of_reclaim {now : Instant} {alive : SyncSessionId → Bool} {action : Action} {op : Op}
    (h : Licensed verify (a.reclaimAbandonedSessions now alive) action op) : Licensed verify a action op := by
  have hstates := a.states_reclaim now alive
  have hcallbacks : (a.reclaimAbandonedSessions now alive).callbacks = a.callbacks := by
    unfold reclaimAbandonedSessions
    repeat' split
    all_goals rfl
  have hsessions : ∀ {id s}, (a.reclaimAbandonedSessions now alive).sessions.get? id = some s →
      a.sessions.get? id = some s := by
    intro id s hget
    unfold reclaimAbandonedSessions at hget
    split at hget
    · exact hget
    split at hget
    · exact hget
    · exact (SortedMap.get?_filter_eq_some.1 hget).1
  cases h with
  | put h =>
    refine .put ?_
    cases h with
    | written hopen hwrite he hrecord hclock => exact .written (hstates ▸ hopen) hwrite he hrecord hclock
    | deleted hopen hwrite he hclock => exact .deleted (hstates ▸ hopen) hwrite he hclock
    | gossiped hopen hsync hns hsigned hclock hempty hallowed =>
      exact .gossiped (hstates ▸ hopen) hsync hns hsigned hclock hempty (hcallbacks ▸ hallowed)
    | reconciled hopen hsync hsession hsent hns hsigned hclock hallowed =>
      exact .reconciled (hstates ▸ hopen) hsync (hsessions hsession) hsent hns hsigned hclock
        (hcallbacks ▸ hallowed)
  | retractEntry hopen => exact .retractEntry (hstates ▸ hopen)
  | registerUsefulPeer ns peer nanos => exact .registerUsefulPeer ns peer nanos
  | setDownloadPolicy ns policy => exact .setDownloadPolicy ns policy
  | importNamespace c => exact .importNamespace c
  | loadReplicaInfo hclosed => exact .loadReplicaInfo (hstates ▸ hclosed)
  | closeReplica ns => exact .closeReplica ns
  | closeDropped ns => exact .closeDropped ns
  | removeReplica ns => exact .removeReplica ns
  | closeAll ns => exact .closeAll ns

/-- An entry is let in where its replica is open, and not while a replica is dropped. -/
theorem opened_of_letsIn {action : Action} {e : SignedEntry} (h : LetsIn verify a action e) :
    (a.states.get? e.id.namespace).isSome ∧ ∀ ns, action ≠ .replica ns .dropReplica := by
  cases h with
  | written hopen hwrite he hrecord hclock =>
    subst he
    exact ⟨by simp [SignedEntry.id, hopen], by simp⟩
  | deleted hopen hwrite he hclock =>
    subst he
    exact ⟨by simp [SignedEntry.id, hopen], by simp⟩
  | gossiped hopen hsync hns hsigned hclock hempty hallowed => exact ⟨by simp [hns, hopen], by simp⟩
  | reconciled hopen hsync hsession hsent hns hsigned hclock hallowed => exact ⟨by simp [hns, hopen], by simp⟩

/-! ## The run an action comes to -/

variable [Blake3] [Ed25519]

/-- A put through a replica is the store's. -/
theorem step_put {e : SignedEntry} (hns : e.id.namespace = ns) (s : FsStore) (snapshot : Option Tables) :
    (s.step (.put e)) = { s with tables := (put (⟨s.tables, snapshot⟩ : StoreInstance ns) e).2.tables } := by
  subst hns
  show { s with tables := (put (⟨s.tables, none⟩ : StoreInstance e.id.namespace) e).2.tables } = _
  congr 1
  unfold put
  have hw : wouldInsert (⟨s.tables, none⟩ : StoreInstance e.id.namespace) e =
    wouldInsert (⟨s.tables, snapshot⟩ : StoreInstance e.id.namespace) e := rfl
  rw [hw]
  split <;> rfl

/-- The store ends as operations that the action licenses leave it. -/
def RunsTo (verify : SignedEntry → Bool) (a : Actor) (action : Action) (s : FsStore) : Prop :=
  ∃ ops, s = a.store.run ops ∧ ∀ op ∈ ops, Licensed verify a action op

theorem runsTo_self (action : Action) : RunsTo verify a action a.store := ⟨[], rfl, by simp⟩

theorem runsTo_step {action : Action} {op : Op} (h : Licensed verify a action op) :
    RunsTo verify a action (a.store.step op) := ⟨[op], rfl, by simpa using h⟩

omit [Blake3] in
/-- An open replica works on its own namespace. -/
theorem id_of_open (h : Books a) {state : OpenReplica} (hget : a.states.get? ns = some state) :
    state.capability.id = ns := by
  obtain ⟨c, hraw, hid⟩ := h.keyed ns _ (h.stored ns state hget)
  rwa [raw_injective hraw]

/-- An insertion through an open replica puts the entry, if it passes the checks. -/
theorem runsTo_insertEntry {action : Action} {state : OpenReplica} {now : U64} {e : SignedEntry}
    {origin : InsertOrigin}
    (hlet : validateEntry verify now state.capability.id e origin a.callbacks.capabilityValidator = .ok () →
      LetsIn verify a action e) :
    RunsTo verify a action
      { a.store with tables := (insertEntry verify now (a.replicaOf state none) e origin).replica.store.tables } := by
  rcases insertEntry_store verify now e (a.replicaOf state none) origin with
    hsame | ⟨hvalid, hput⟩
  · rw [hsame]
    exact runsTo_self action
  · rw [hput]
    have hstep := step_put (of_validateEntry hvalid).1 a.store none
    exact ⟨[.put e], hstep.symm, by simpa using Licensed.put (hlet hvalid)⟩

/-- A round of a session puts entries of the message that pass the checks. -/
theorem runsTo_syncProcessMessage {action : Action} {state : OpenReplica} {snapshot : Option Tables} {now : U64}
    {m : SyncMessage} {peer : PeerIdBytes} {outcome : SyncOutcome} {filter : Option (SignedEntry → Bool)}
    (hlet : ∀ v ∈ m.values, validateEntry verify now state.capability.id v.1 (.sync peer v.2)
      a.callbacks.capabilityValidator = .ok () → LetsIn verify a action v.1) :
    RunsTo verify a action { a.store with
      tables :=
        (syncProcessMessage verify now (a.replicaOf state snapshot) m peer outcome filter).replica.store.tables } := by
  rw [(syncProcessMessage_open verify rfl).2]
  -- value by value: the tables so far are a run of puts
  refine processMessage_preserves (S := ReplicaSession state.capability.id)
    (P := fun s => RunsTo verify a action { a.store with tables := s.inner.tables }) _ _ _
    (s := ⟨(a.replicaOf state snapshot).store, filter⟩) (runsTo_self action) m fun s v hv haccept hs => ?_
  obtain ⟨ops, hops, hall⟩ := hs
  have hvalid := (validateCb_accept verify).1 haccept
  refine ⟨ops ++ [.put v.1], ?_, fun op hop => ?_⟩
  · have hstep := step_put (of_validateEntry hvalid).1 { a.store with tables := s.inner.tables }
      s.inner.sessionSnapshot
    rw [put_replicaSession_inner, FsStore.run, List.foldl_append]
    show _ = (a.store.run ops).step (.put v.1)
    rw [← hops, hstep]
  · rcases List.mem_append.1 hop with hop | hop
    · exact hall op hop
    · obtain rfl := List.mem_singleton.1 hop
      exact .put (hlet v hv hvalid)

omit [Blake3] in
/-- Only a capability to write is writable. -/
theorem exists_write {state : OpenReplica} (h : (a.replicaOf state none).info.writable = true) :
    ∃ secret, state.capability = .write secret := by
  unfold replicaOf at h
  cases hc : state.capability with
  | write secret => exact ⟨secret, rfl⟩
  | read id =>
    rw [hc] at h
    cases h

theorem runsTo_insert (h : Books a) {state : OpenReplica} (hget : a.states.get? ns = some state)
    (author : AuthorId) (sign : Entry → EntrySignature) (k : Bytes) (hash : Hash) (len created now : U64) :
    RunsTo verify a (.replica ns (.insertLocal author (some sign) k hash len created now)) { a.store with
      tables :=
        (insert verify sign created now (a.replicaOf state none) k author hash len).replica.store.tables } := by
  obtain rfl := id_of_open h hget
  unfold Sync.insert
  split
  · exact runsTo_self _
  rename_i hrecord
  split
  · exact runsTo_self _
  split
  · exact runsTo_self _
  rename_i hwritable
  obtain ⟨secret, hwrite⟩ := exists_write (a := a) (by simpa using hwritable)
  refine runsTo_insertEntry fun hvalid => ?_
  exact .written hget hwrite rfl (not_or.1 hrecord) (of_validateEntry hvalid).2.2.1

theorem runsTo_deletePrefix (h : Books a) {state : OpenReplica} (hget : a.states.get? ns = some state)
    (author : AuthorId) (sign : Entry → EntrySignature) (k : Bytes) (created now : U64) :
    RunsTo verify a (.replica ns (.deletePrefix author (some sign) k created now)) { a.store with
      tables :=
        (Sync.deletePrefix verify sign created now (a.replicaOf state none) k author).replica.store.tables } := by
  obtain rfl := id_of_open h hget
  unfold Sync.deletePrefix
  split
  · exact runsTo_self _
  split
  · exact runsTo_self _
  rename_i hwritable
  obtain ⟨secret, hwrite⟩ := exists_write (a := a) (by simpa using hwritable)
  refine runsTo_insertEntry fun hvalid => ?_
  exact .deleted hget hwrite rfl (of_validateEntry hvalid).2.2.1

theorem runsTo_insertRemote (h : Books a) {state : OpenReplica} (hget : a.states.get? ns = some state)
    (hsync : state.sync = true) (e : SignedEntry) (peer : PeerIdBytes) (status : ContentStatus) (now : U64) :
    RunsTo verify a (.replica ns (.insertRemote e peer status now)) { a.store with
      tables := (insertRemoteEntry verify now (a.replicaOf state none) e peer status).replica.store.tables } := by
  obtain rfl := id_of_open h hget
  unfold insertRemoteEntry
  split
  · exact runsTo_self _
  split
  · exact runsTo_self _
  rename_i hempty
  refine runsTo_insertEntry fun hvalid => ?_
  obtain ⟨hns, hsigned, hclock, hallowed⟩ := of_validateEntry_sync hvalid
  exact .gossiped hget hsync hns hsigned hclock (by simpa using hempty) hallowed

/-! ## Turns -/

theorem store_close (a : Actor) (ns : NamespaceId) :
    (a.close ns).1.store = a.store ∨ (a.close ns).1.store = a.store.step (.closeReplica ns) := by
  rcases a.close_cases ns with ⟨-, heq⟩ | ⟨state, -, -, heq⟩ | ⟨state, -, -, heq⟩
  · exact .inr (by rw [heq]; rfl)
  · exact .inr (by rw [heq]; rfl)
  · exact .inl (by rw [heq])

variable (verify) in
theorem runsTo_onReplicaAction (h : Books a) (closed : ChannelId → Bool) (ns : NamespaceId) (action : ReplicaAction) :
    RunsTo verify a (.replica ns action) (a.onReplicaAction verify closed ns action).1.store := by
  cases action with
  | «open» sync subscribe =>
    show RunsTo verify a _ (a.open ns sync subscribe).1.store
    unfold Actor.open
    cases hget : a.states.get? ns with
    | some state => exact runsTo_self _
    | none =>
      have hstep : RunsTo verify a (.replica ns (.open sync subscribe)) (a.store.loadReplicaInfo ns).1 :=
        runsTo_step (.loadReplicaInfo hget)
      rcases hload : a.store.loadReplicaInfo ns with ⟨store, res⟩
      rw [hload] at hstep
      cases res <;> exact hstep
  | close =>
    rcases a.store_close ns with heq | heq
    · exact heq ▸ runsTo_self _
    · exact heq ▸ runsTo_step (.closeReplica ns)
  | subscribe sender =>
    simp only [onReplicaAction]
    split <;> exact runsTo_self _
  | unsubscribe sender =>
    simp only [onReplicaAction]
    split <;> exact runsTo_self _
  | setSync sync =>
    rcases a.setSync_cases verify closed ns sync with ⟨err, heq⟩ | ⟨state, -, heq⟩
    · rw [heq]; exact runsTo_self _
    · rw [heq]; exact runsTo_self _
  | insertLocal author signer k hash len created now =>
    cases signer with
    | none => exact runsTo_self _
    | some sign =>
      simp only [onReplicaAction, OpenReplicas.get]
      cases hget : a.states.get? ns with
      | none => exact runsTo_self _
      | some state => exact runsTo_insert h hget author sign k hash len created now
  | deletePrefix author signer k created now =>
    cases signer with
    | none => exact runsTo_self _
    | some sign =>
      simp only [onReplicaAction, OpenReplicas.get]
      cases hget : a.states.get? ns with
      | none => exact runsTo_self _
      | some state => exact runsTo_deletePrefix h hget author sign k created now
  | insertRemote e peer status now =>
    simp only [onReplicaAction]
    cases hsync : OpenReplicas.ensureSyncing a.states ns with
    | error err => exact runsTo_self _
    | ok state =>
      obtain ⟨hget, hflag⟩ := of_ensureSyncing hsync
      exact runsTo_insertRemote h hget hflag e peer status now
  | syncSessionStart =>
    rcases a.syncSessionStart_cases verify closed ns with ⟨err, heq⟩ | ⟨-, heq⟩
    · rw [heq]; exact runsTo_self _
    · rw [heq]; exact runsTo_self _
  | syncInitialMessage session filter =>
    simp only [onReplicaAction]
    split <;> exact runsTo_self _
  | syncProcessMessage m peer outcome session filter now =>
    simp only [onReplicaAction]
    cases hreplica : a.sessionReplica ns session with
    | error err => exact runsTo_self _
    | ok r =>
      obtain ⟨tables, state, hsession, hget, hflag, rfl⟩ := of_sessionReplica hreplica
      refine runsTo_syncProcessMessage fun v hv hvalid => ?_
      obtain ⟨hns, hsigned, hclock, hallowed⟩ := of_validateEntry_sync hvalid
      exact .reconciled hget hflag hsession hv (hns.trans (id_of_open h hget)) hsigned hclock hallowed
  | registerUsefulPeer peer nanos => exact runsTo_step (.registerUsefulPeer ns peer nanos)
  | retractEntry author k upTo =>
    simp only [onReplicaAction, OpenReplicas.get]
    cases hget : a.states.get? ns with
    | none => exact runsTo_self _
    | some state => exact runsTo_step (.retractEntry hget)
  | dropReplica =>
    show RunsTo verify a _ ((a.close ns).1.store.removeReplica ns).1
    rcases a.store_close ns with heq | heq
    · rw [heq]
      exact runsTo_step (.removeReplica ns)
    · rw [heq]
      refine ⟨[.closeReplica ns, .removeReplica ns], rfl, fun op hop => ?_⟩
      rcases List.mem_pair.1 hop with rfl | rfl
      · exact .closeDropped ns
      · exact .removeReplica ns
  | setDownloadPolicy policy => exact runsTo_step (.setDownloadPolicy ns policy)

variable (verify) in
theorem runsTo_onAction (h : Books a) (closed : ChannelId → Bool) (action : Action) :
    RunsTo verify a action (a.onAction verify closed action).1.store := by
  cases action with
  | importNamespace c =>
    have hstep : RunsTo verify a (.importNamespace c) (a.store.importNamespace c).1 :=
      runsTo_step (.importNamespace c)
    have hstore : (a.importNamespace c).1.store = (a.store.importNamespace c).1 := by
      rcases importNamespace_eq h c with ⟨old, -, -, heq⟩ | ⟨state, -, -, heq⟩ <;> rw [heq]
    show RunsTo verify a _ (a.importNamespace c).1.store
    rwa [hstore]
  | flushStore => exact runsTo_self _
  | syncSessionEnd session => exact runsTo_self _
  | replica ns action => exact runsTo_onReplicaAction verify h closed ns action
  | shutdown =>
    refine ⟨a.states.toList.map fun r => .closeReplica r.1, ?_, fun op hop => ?_⟩
    · show a.states.toList.foldl _ a.store = _
      rw [FsStore.run, List.foldl_map]
      rfl
    · obtain ⟨r, -, rfl⟩ := List.mem_map.1 hop
      exact .closeAll r.1

variable (verify) in
/-- Step: a turn does to the store what its action licenses. -/
theorem runsTo_turn (h : Books a) (t : Turn) : RunsTo verify a t.action (a.turn verify t).1.store := by
  unfold turn
  split
  · exact runsTo_self _
  · obtain ⟨ops, hrun, hall⟩ := runsTo_onAction verify
      ((a.sameBooks_reclaim t.now t.alive).books h) t.closed t.action
    have hstore : (a.reclaimAbandonedSessions t.now t.alive).store = a.store := by
      unfold reclaimAbandonedSessions
      repeat' split
      all_goals rfl
    rw [hstore] at hrun
    exact ⟨ops, hrun, fun op hop => licensed_of_reclaim (hall op hop)⟩

variable (verify) in
/-- **Refinement.** A run of the actor is, for its store, a run of operations that its turns licensed. -/
theorem refines_run (h : Books a) (turns : List Turn) : ∃ ops, (a.run verify turns).store = a.store.run ops ∧
    ∀ op ∈ ops, ∃ before t after, turns = before ++ t :: after ∧
      Licensed verify (a.run verify before) t.action op := by
  induction turns generalizing a with
  | nil => exact ⟨[], rfl, by simp⟩
  | cons t turns ih =>
    obtain ⟨ops, hrun, hall⟩ := runsTo_turn verify h t
    obtain ⟨ops', hrun', hall'⟩ := ih (books_turn verify h t)
    refine ⟨ops ++ ops', ?_, fun op hop => ?_⟩
    · show ((a.turn verify t).1.run verify turns).store = _
      rw [hrun', hrun]
      exact List.foldl_append.symm
    · rcases List.mem_append.1 hop with hop | hop
      · exact ⟨[], t, turns, rfl, hall op hop⟩
      · obtain ⟨before, t', after, rfl, hlic⟩ := hall' op hop
        exact ⟨t :: before, t', after, rfl, hlic⟩

/-! ## Where records come from -/

/-- A licensed operation adds the record it puts, and no other. -/
theorem mem_records_licensed {action : Action} {op : Op} (h : Licensed verify a action op) {s : FsStore}
    {r : RecordsId × RecordsValue} (hr : r ∈ (s.step op).tables.records.toList) :
    r ∈ s.tables.records.toList ∨ ∃ e, op = .put e ∧ r = row e := by
  rcases s.step_tables op with hsame | hshrinks | ⟨e, rfl, -, hinserts⟩ | rfl | rfl
  · exact .inl (hsame ▸ hr)
  · exact .inl (hshrinks.records r hr)
  · rcases (hinserts.records r).1 hr with rfl | ⟨hr, -⟩
    · exact .inr ⟨e, rfl, rfl⟩
    · exact .inl hr
  · cases h
  · cases h

variable (verify) in
theorem mem_entries_run {ops : List Op} (hlic : ∀ op ∈ ops, ∃ (a : Actor) (action : Action),
    Licensed verify a action op) {s : FsStore} {e : SignedEntry} (he : e ∈ (s.run ops).tables.entries) :
    e ∈ s.tables.entries ∨ .put e ∈ ops := by
  induction ops generalizing s with
  | nil => exact .inl he
  | cons op ops ih =>
    rcases ih (fun op' h' => hlic op' (List.mem_cons_of_mem op h')) (s := s.step op) he with he | he
    · obtain ⟨a, action, h⟩ := hlic op List.mem_cons_self
      rcases mem_records_licensed h (Tables.mem_entries.1 he) with he | ⟨e', rfl, hrow⟩
      · exact .inl (Tables.mem_entries.2 he)
      · have heq : e = e' := by rw [← intoEntry_row e, hrow, intoEntry_row]
        exact .inr (heq ▸ List.mem_cons_self)
    · exact .inr (List.mem_cons_of_mem op he)

/-- The turn puts the entry: it was not there, and it is put among the operations that the action licenses. -/
structure Puts (verify : SignedEntry → Bool) (a : Actor) (t : Turn) (e : SignedEntry) : Prop where
  absent : e ∉ a.store.tables.entries
  present : e ∈ (a.turn verify t).1.store.tables.entries
  put : ∃ ops, (a.turn verify t).1.store = a.store.run ops ∧ .put e ∈ ops ∧
    ∀ op ∈ ops, Licensed verify a t.action op

theorem Puts.letsIn {t : Turn} {e : SignedEntry} (h : Puts verify a t e) : LetsIn verify a t.action e := by
  obtain ⟨ops, -, hput, hall⟩ := h.put
  exact letsIn_of_licensed (hall _ hput)

variable (verify) in
/-- Step: what a turn adds to the records, it puts. -/
theorem puts_turn (h : Books a) (t : Turn) {e : SignedEntry} (he : e ∈ (a.turn verify t).1.store.tables.entries) :
    e ∈ a.store.tables.entries ∨ Puts verify a t e := by
  obtain ⟨ops, hrun, hall⟩ := runsTo_turn verify h t
  by_cases hold : e ∈ a.store.tables.entries
  · exact .inl hold
  · have hmem := he
    rw [hrun] at hmem
    have hput := (mem_entries_run verify (fun op hop => ⟨a, t.action, hall op hop⟩) hmem).resolve_left hold
    exact .inr ⟨hold, he, ops, hrun, hput, hall⟩

variable (verify) in
/-- Run: what a run of the actor adds to the records, a turn of it put. -/
theorem puts_run (h : Books a) (turns : List Turn) {e : SignedEntry}
    (he : e ∈ (a.run verify turns).store.tables.entries) : e ∈ a.store.tables.entries ∨
      ∃ before t after, turns = before ++ t :: after ∧ Puts verify (a.run verify before) t e := by
  induction turns generalizing a with
  | nil => exact .inl he
  | cons t turns ih =>
    rcases ih (books_turn verify h t) he with hmem | ⟨before, t', after, rfl, hputs⟩
    · exact (puts_turn verify h t hmem).imp_right fun hputs => ⟨[], t, turns, rfl, hputs⟩
    · exact .inr ⟨t :: before, t', after, rfl, hputs⟩

/-! ## Namespaces of the rows -/

theorem noOrphans_put {s : FsStore} (h : NoOrphans s) {e : SignedEntry} (hns : Hosts s e.id.namespace) :
    NoOrphans (s.step (.put e)) := by
  cases hw : wouldInsert (⟨s.tables, none⟩ : StoreInstance e.id.namespace) e with
  | false =>
    have hsame : s.step (.put e) = s := by
      show { s with tables := (put (⟨s.tables, none⟩ : StoreInstance e.id.namespace) e).2.tables } = s
      rw [put_of_not_wouldInsert hw]
    rwa [hsame]
  | true =>
    have hinserts : Inserts e s.tables (s.step (.put e)).tables := FsStore.inserts_put hw
    refine ⟨fun r hr => ?_, fun r hr => ?_, h.namespacePeers, h.downloadPolicy⟩
    · rcases (hinserts.records r).1 hr with rfl | ⟨hr, -⟩
      · exact hns
      · exact h.records r hr
    · rw [hinserts.index, SortedMap.mem_insert] at hr
      rcases hr with rfl | ⟨hr, -⟩
      · exact hns
      · exact h.recordsByKey r hr

omit [Blake3] in
/-- An import takes no capability away. -/
theorem hosts_importNamespace {s : FsStore} (h : WellKeyed s) (c : Capability) {ns : NamespaceId}
    (hns : Hosts s ns) : Hosts (s.importNamespace c).1 ns := by
  obtain ⟨c', -, heq, -⟩ := namespaces_importNamespace h c
  unfold Hosts
  rw [heq]
  by_cases hid : ns = c.id
  · simp [hid]
  · rwa [SortedMap.get?_insert_of_ne hid]

/-- Only a drop takes a capability away. -/
theorem hosts_licensed {action : Action} {op : Op} (hlic : Licensed verify a action op)
    (hdrop : ∀ ns, action ≠ .replica ns .dropReplica) {s : FsStore} (hs : WellKeyed s) {ns : NamespaceId}
    (hns : Hosts s ns) : Hosts (s.step op) ns := by
  have hsame : ∀ {s' : FsStore}, s'.namespaces = s.namespaces → Hosts s' ns := fun h => by
    unfold Hosts
    rw [h]
    exact hns
  cases hlic with
  | put h => exact hsame rfl
  | retractEntry hopen =>
    refine hsame ?_
    simp only [FsStore.step, FsStore.retractEntry]
    repeat' split
    all_goals rfl
  | registerUsefulPeer ns peer nanos => exact hsame FsStore.registerUsefulPeer_namespaces
  | setDownloadPolicy ns policy =>
    refine hsame ?_
    simp only [FsStore.step, FsStore.setDownloadPolicy]
    split <;> rfl
  | importNamespace c => exact hosts_importNamespace hs c hns
  | loadReplicaInfo hclosed =>
    refine hsame ?_
    simp only [FsStore.step, FsStore.loadReplicaInfo]
    repeat' split
    all_goals rfl
  | closeReplica ns => exact hsame rfl
  | closeDropped ns => exact absurd rfl (hdrop ns)
  | removeReplica ns => exact absurd rfl (hdrop ns)
  | closeAll ns => exact hsame rfl

/-- Step: a licensed operation leaves no orphans. -/
theorem noOrphans_licensed {action : Action} {op : Op} (hlic : Licensed verify a action op) {s : FsStore}
    (hs : WellKeyed s) (h : NoOrphans s)
    (hopen : (∀ ns, action ≠ .replica ns .dropReplica) → ∀ ns, (a.states.get? ns).isSome → Hosts s ns) :
    NoOrphans (s.step op) := by
  cases hlic with
  | put hlet =>
    obtain ⟨hget, hdrop⟩ := opened_of_letsIn hlet
    exact noOrphans_put h (hopen hdrop _ hget)
  | retractEntry hget => exact noOrphans_retractEntry h _ _ _ _
  | registerUsefulPeer ns peer nanos => exact noOrphans_registerUsefulPeer h ns nanos peer
  | setDownloadPolicy ns policy => exact noOrphans_setDownloadPolicy h ns policy
  | importNamespace c =>
    have hrest := s.tables_importNamespace c
    refine h.mono (fun ns => hosts_importNamespace hs c) ?_ ?_ ?_ ?_ <;>
      exact fun r hr => by
        simp only [FsStore.step] at hr
        rw [hrest] at hr
        exact hr
  | loadReplicaInfo hclosed =>
    show NoOrphans (s.loadReplicaInfo _).1
    unfold FsStore.loadReplicaInfo
    split
    · exact h
    split
    · exact h
    · exact ⟨h.records, h.recordsByKey, h.namespacePeers, h.downloadPolicy⟩
  | closeReplica ns => exact ⟨h.records, h.recordsByKey, h.namespacePeers, h.downloadPolicy⟩
  | closeDropped ns => exact ⟨h.records, h.recordsByKey, h.namespacePeers, h.downloadPolicy⟩
  | removeReplica ns => exact noOrphans_removeReplica h ns
  | closeAll ns => exact ⟨h.records, h.recordsByKey, h.namespacePeers, h.downloadPolicy⟩

theorem noOrphans_ops {action : Action} {ops : List Op} (hall : ∀ op ∈ ops, Licensed verify a action op)
    {s : FsStore} (hs : WellKeyed s) (h : NoOrphans s)
    (hopen : (∀ ns, action ≠ .replica ns .dropReplica) → ∀ ns, (a.states.get? ns).isSome → Hosts s ns) :
    NoOrphans (s.run ops) := by
  induction ops generalizing s with
  | nil => exact h
  | cons op ops ih =>
    have hlic := hall op List.mem_cons_self
    exact ih (fun op' h' => hall op' (List.mem_cons_of_mem op h')) (hs.step op) (noOrphans_licensed hlic hs h hopen)
      fun hdrop ns hget => hosts_licensed hlic hdrop hs (hopen hdrop ns hget)

variable (verify) in
/-- Step: every turn. -/
theorem noOrphans_turn (hb : Books a) (h : NoOrphans a.store) (t : Turn) :
    NoOrphans (a.turn verify t).1.store := by
  obtain ⟨ops, hrun, hall⟩ := runsTo_turn verify hb t
  rw [hrun]
  refine noOrphans_ops hall hb.keyed h fun _ ns hget => ?_
  obtain ⟨state, hstate⟩ := Option.isSome_iff_exists.1 hget
  unfold Hosts
  rw [hb.stored ns state hstate]
  rfl

variable (verify) in
/-- Run: every sequence of turns. -/
theorem noOrphans_run (hb : Books a) (h : NoOrphans a.store) (turns : List Turn) :
    NoOrphans (a.run verify turns).store := by
  induction turns generalizing a with
  | nil => exact h
  | cons t turns ih => exact ih (books_turn verify hb t) (noOrphans_turn verify hb h t)

end Actor

/-! ## One process after the other -/

section Lifetimes

variable [Blake3] [Ed25519] (verify : SignedEntry → Bool)

/-- What a process spawns its actor with, and the turns the actor takes. -/
structure Lifetime where
  actorId : U64
  callbacks : Callbacks
  spawned : Instant
  turns : List Actor.Turn

/-- The actor of a process, over what is in the database. -/
def Lifetime.actor (p : Lifetime) (s : FsStore) : Actor := .spawn p.actorId s.reopen p.callbacks p.spawned

/-- The store, empty at first, as a sequence of processes leaves it. -/
def afterLifetimes (ps : List Lifetime) : FsStore :=
  ps.foldl (fun s p => ((p.actor s).run verify p.turns).store) default

theorem afterLifetimes_concat (ps : List Lifetime) (p : Lifetime) : afterLifetimes verify (ps ++ [p]) =
    ((p.actor (afterLifetimes verify ps)).run verify p.turns).store := List.foldl_append ..

/-- A store that came about through writes is opened as it was closed. -/
theorem reopen_run (ops : List Op) : ∃ ops', ((default : FsStore).run ops).reopen = (default : FsStore).run ops' ∧
    ((default : FsStore).run ops).reopen = ((default : FsStore).run ops).onDisk := by
  have hopen : ((default : FsStore).run ops).reopen = ((default : FsStore).run ops).onDisk :=
    FsStore.reopen_eq (FsStore.settled_onDisk_run settled_default ops)
  refine ⟨ops ++ ((default : FsStore).run ops).openReplicas.toList.map .closeReplica, ?_, hopen⟩
  rw [hopen, FsStore.onDisk_eq_run, run_append]

theorem books_actor (p : Lifetime) (ops : List Op) : Books (p.actor ((default : FsStore).run ops)) := by
  obtain ⟨ops', hrun, hdisk⟩ := reopen_run ops
  refine books_spawn (hrun ▸ wellKeyed_run ops') ?_ _ _ _
  rw [hdisk]
  rfl

/-- Every process leaves what a run of writes leaves. -/
theorem exists_run_afterLifetimes (ps : List Lifetime) :
    ∃ ops, afterLifetimes verify ps = (default : FsStore).run ops := by
  induction ps using List.reverseRecOn with
  | nil => exact ⟨[], rfl⟩
  | append_singleton ps p ih =>
    obtain ⟨ops, hops⟩ := ih
    obtain ⟨ops', hopen, -⟩ := reopen_run ops
    obtain ⟨more, hrun, -⟩ := Actor.refines_run verify (books_actor p ops) p.turns
    refine ⟨ops' ++ more, ?_⟩
    rw [afterLifetimes_concat, hops, hrun]
    show ((default : FsStore).run ops).reopen.run more = _
    rw [hopen, run_append]

/-- **No orphan rows.** Whatever the processes did, every record, index row, peer and download policy in the
store is of a namespace it has a capability for. -/
theorem no_orphan_rows (ps : List Lifetime) : NoOrphans (afterLifetimes verify ps) := by
  induction ps using List.reverseRecOn with
  | nil => exact noOrphans_default
  | append_singleton ps p ih =>
    obtain ⟨ops, hops⟩ := exists_run_afterLifetimes verify ps
    obtain ⟨-, -, hdisk⟩ := reopen_run ops
    rw [afterLifetimes_concat]
    refine Actor.noOrphans_run verify (hops ▸ books_actor p ops) ?_ p.turns
    show NoOrphans (afterLifetimes verify ps).reopen
    rw [hops] at ih ⊢
    rw [hdisk]
    exact ⟨ih.records, ih.recordsByKey, ih.namespacePeers, ih.downloadPolicy⟩

/-- **Every record was let in.** Whatever the processes did, a record that is in the store was put there by a turn
of one of them, which had checked all there is to check. -/
theorem every_record_was_let_in (ps : List Lifetime) {e : SignedEntry}
    (he : e ∈ (afterLifetimes verify ps).tables.entries) : ∃ before p after done t rest,
      ps = before ++ p :: after ∧ p.turns = done ++ t :: rest ∧
      LetsIn verify ((p.actor (afterLifetimes verify before)).run verify done) t.action e ∧
      Actor.Puts verify ((p.actor (afterLifetimes verify before)).run verify done) t e := by
  induction ps using List.reverseRecOn with
  | nil => cases he
  | append_singleton ps p ih =>
    obtain ⟨ops, hops⟩ := exists_run_afterLifetimes verify ps
    obtain ⟨-, -, hdisk⟩ := reopen_run ops
    rw [afterLifetimes_concat] at he
    have hbooks : Books (p.actor (afterLifetimes verify ps)) := hops ▸ books_actor p ops
    rcases Actor.puts_run verify hbooks p.turns he with he | ⟨done, t, rest, hsplit, hputs⟩
    · have hold : e ∈ (afterLifetimes verify ps).tables.entries := by
        change e ∈ (afterLifetimes verify ps).reopen.tables.entries at he
        rw [hops, hdisk] at he
        rw [hops]
        exact he
      obtain ⟨before, q, after, done, t, rest, heq, hrest⟩ := ih hold
      exact ⟨before, q, after ++ [p], done, t, rest, by simp [heq], hrest⟩
    · exact ⟨ps, p, [], done, t, rest, rfl, hsplit, hputs.letsIn, hputs⟩

end Lifetimes

section

local instance refineDigest : Blake3 := noDigest

/-- A scheme in which the public key is the secret one. -/
local instance refineKeys : Ed25519 := ⟨id⟩

/-- A record written under a capability to write, then taken over by the next process. -/
def sampleLifetimes : List Lifetime :=
  [⟨0, ⟨none, none, false⟩, 0, [.importNamespace (.write zeros32), .replica zeros32 (.open false none),
      .replica zeros32 (.insertLocal zeros32 (some fun _ => (sampleEntry [1] ⟨7, zeros32, 3⟩).signature) [1] zeros32
        7 3 5)].map fun action => ⟨0, fun _ => true, fun _ => false, action⟩⟩,
    ⟨1, ⟨none, none, false⟩, 0, []⟩]

/-- The first process let it in. -/
theorem every_record_was_let_in_sample : ∃ before p after done t rest,
    sampleLifetimes = before ++ p :: after ∧ p.turns = done ++ t :: rest ∧
    LetsIn (fun _ => false) ((p.actor (afterLifetimes (fun _ => false) before)).run (fun _ => false) done) t.action
      (sampleEntry [1] ⟨7, zeros32, 3⟩) ∧
    Actor.Puts (fun _ => false) ((p.actor (afterLifetimes (fun _ => false) before)).run (fun _ => false) done) t
      (sampleEntry [1] ⟨7, zeros32, 3⟩) :=
  every_record_was_let_in (fun _ => false) sampleLifetimes (by decide +kernel)

end

end PdnStore.Actors

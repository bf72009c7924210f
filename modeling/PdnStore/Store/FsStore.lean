import PdnStore.Store.Query
import PdnStore.Sync.Heads
import Mathlib.Data.Finset.Basic

/-!
# `store::fs::Store`: the tables of all replicas and the operations on them (store/fs.rs:318-700)

Every namespace shares the tables. Next to the three the entries are written to there are the capabilities,
the peers of each namespace and the download policies; `open_replicas` is kept in memory. An operation that
reports an error leaves the tables as they were: its checks come before its first write.

| here | there |
| --- | --- |
| `Ed25519`            | `ed25519-dalek`: the public key of a secret one |
| `Capability.raw`     | how a capability is stored: kind and key bytes (`sync.rs:259`) |
| `namespacePeers`     | a multimap: the rows of a namespace in ascending `(nanos, peer)` order |
| `downloadPolicy`     | the policies themselves; the source stores them postcard-encoded |
| `Op`, `FsStore.step` | the writes of the store as one transition function; puts come from replicas, reads do not change it |
-/

namespace PdnStore.Fs

open Ranger Sync

/-! ## Capabilities -/

abbrev NamespaceSecret := ByteArrayN 32

/-- The signature scheme: the id of a namespace is the public key of its secret. -/
class Ed25519 where
  publicKey : NamespaceSecret → NamespaceId

/-- `Capability` (sync.rs:225). -/
inductive Capability where
  | write (secret : NamespaceSecret)
  | read (id : NamespaceId)
deriving DecidableEq

namespace Capability

/-- `Capability::kind` (sync.rs:251) as stored (`CapabilityKind`, sync.rs:215). -/
def kind : Capability → Byte
  | write _ => 1
  | read _ => 2

/-- `Capability::raw` (sync.rs:259). -/
def raw (c : Capability) : Byte × ByteArrayN 32 :=
  (c.kind, match c with
    | write secret => secret
    | read id => id)

/-- `Capability::from_raw` (sync.rs:269), and `parse_capability` (fs.rs:697). -/
def fromRaw (r : Byte × ByteArrayN 32) : Except String Capability :=
  if r.1 = 1 then .ok (.write r.2)
  else if r.1 = 2 then .ok (.read r.2)
  else .error "No discriminant in enum `CapabilityKind` matches the value"

@[simp] theorem fromRaw_raw (c : Capability) : fromRaw c.raw = .ok c := by
  cases c <;> simp [fromRaw, raw, kind]

variable [Ed25519]

/-- `Capability::id` (sync.rs:234). -/
def id : Capability → NamespaceId
  | write secret => Ed25519.publicKey secret
  | read id => id

/-- `Capability::merge` (sync.rs:289): whether it changed, and the capability after. -/
def merge (self other : Capability) : Except String (Bool × Capability) :=
  if other.id ≠ self.id then .error "Namespaces are not the same"
  else match self, other with
    | .read _, .write secret => .ok (true, .write secret)
    | self, _ => .ok (false, self)

end Capability

/-- `ImportNamespaceOutcome` (store.rs:53). -/
inductive ImportNamespaceOutcome where
  | inserted
  | upgraded
  | noChange
deriving DecidableEq, Repr

/-- `OpenError` (store.rs:24). -/
inductive OpenError where
  | notFound
  | other (msg : String)
deriving DecidableEq, Repr

/-- `FilterKind` (store.rs:79). -/
inductive FilterKind where
  | withPrefix (key : Bytes)
  | exact (key : Bytes)
deriving DecidableEq

/-- `DownloadPolicy` (store.rs:64). -/
inductive DownloadPolicy where
  | nothingExcept (filters : List FilterKind)
  | everythingExcept (filters : List FilterKind)
deriving DecidableEq

/-- `DownloadPolicy::default` (store.rs:69). -/
instance : Inhabited DownloadPolicy := ⟨.everythingExcept []⟩

/-- `FilterKind::matches` (store.rs:141). -/
def FilterKind.matches : FilterKind → Bytes → Bool
  | .withPrefix pre, key => pre.isPrefixOf key
  | .exact expected, key => expected = key

/-- `DownloadPolicy::matches` (store.rs:151). -/
def DownloadPolicy.matches (policy : DownloadPolicy) (e : SignedEntry) : Bool :=
  match policy with
  | .nothingExcept patterns => patterns.any (·.matches e.id.key)
  | .everythingExcept patterns => patterns.all (!·.matches e.id.key)

/-- `PEERS_PER_DOC_CACHE_SIZE` (store.rs:17). -/
def PEERS_PER_DOC_CACHE_SIZE : Nat := 5

/-! ## The store -/

/-- `store::fs::Store` (fs.rs:55): the tables as the current transaction sees them, and the open replicas. -/
structure FsStore where
  tables : Tables
  namespaces : SortedMap NamespaceId (Byte × ByteArrayN 32)
  namespacePeers : SortedMap (NamespaceId ×ₗ (U64 ×ₗ PeerIdBytes)) Unit
  downloadPolicy : SortedMap NamespaceId DownloadPolicy
  openReplicas : Finset NamespaceId

/-- `Store::memory` (fs.rs:113): empty tables, nothing open. -/
instance : Inhabited FsStore := ⟨⟨default, ∅, ∅, ∅, ∅⟩⟩

namespace FsStore

variable (s : FsStore) (ns : NamespaceId)

/-- The writes of a replica, through a `StoreInstance` of its namespace. -/
def onTables (f : StoreInstance ns → StoreInstance ns) : FsStore :=
  { s with tables := (f ⟨s.tables, none⟩).tables }

section

variable [Ed25519]

/-- `Store::import_namespace` (fs.rs:444). -/
def importNamespace (capability : Capability) : FsStore × Except String ImportNamespaceOutcome :=
  match s.namespaces.get? capability.id with
  | none =>
    ({ s with namespaces := s.namespaces.insert capability.id capability.raw }, .ok .inserted)
  | some existing =>
    match Capability.fromRaw existing with
    | .error err => (s, .error err)
    | .ok existing =>
      match existing.merge capability with
      | .error err => (s, .error err)
      | .ok (changed, merged) =>
        ({ s with namespaces := s.namespaces.insert merged.id merged.raw },
          .ok (if changed then .upgraded else .noChange))

/-- `Store::load_replica_info` (fs.rs:366). -/
def loadReplicaInfo : FsStore × Except OpenError Capability :=
  match s.namespaces.get? ns with
  | none => (s, .error .notFound)
  | some raw =>
    match Capability.fromRaw raw with
    | .error err => (s, .error (.other err))
    | .ok capability =>
      ({ s with openReplicas := Insert.insert capability.id s.openReplicas }, .ok capability)

end

/-- `Store::close_replica` (fs.rs:385). -/
def closeReplica : FsStore := { s with openReplicas := s.openReplicas.erase ns }

/-- `Store::remove_replica` (fs.rs:477). -/
def removeReplica : FsStore × Except String Unit :=
  if ns ∈ s.openReplicas then (s, .error "replica is not closed")
  else
    ({ s with
      tables := { s.tables with
        records := s.tables.records.filter fun r => !(RecordsBounds.namespace ns).contains r.1
        recordsByKey := s.tables.recordsByKey.filter fun r => !(ByKeyBounds.namespace ns).contains r.1 }
      namespaces := s.namespaces.filter fun r => r.1 ≠ ns
      namespacePeers := s.namespacePeers.filter fun r => (ofLex r.1).1 ≠ ns
      downloadPolicy := s.downloadPolicy.filter fun r => r.1 ≠ ns }, .ok ())

/-- `Store::retract_entry` (fs.rs:530). -/
def retractEntry (author : AuthorId) (key : Bytes) (upToTimestamp : U64) : FsStore × Bool :=
  match s.tables.records.get? ⟨ns, author, key⟩ with
  | none => (s, false)
  | some value =>
    if value.timestamp > upToTimestamp then (s, false)
    else
      ({ s with tables := { s.tables with
        records := s.tables.records.filter fun r => r.1 ≠ ⟨ns, author, key⟩
        recordsByKey := s.tables.recordsByKey.filter fun r => r.1 ≠ ⟨ns, key, author⟩ } }, true)

/-- The rows of `namespace_peers` of a namespace, oldest first. -/
def peerRows : List (U64 × PeerIdBytes) :=
  (s.namespacePeers.toList.filter fun r => (ofLex r.1).1 = ns).map fun r => ofLex (ofLex r.1).2

def insertPeer (row : U64 × PeerIdBytes) : FsStore :=
  { s with namespacePeers := s.namespacePeers.insert (toLex (ns, toLex row)) () }

def removePeer (row : U64 × PeerIdBytes) : FsStore :=
  { s with namespacePeers := s.namespacePeers.filter fun r => r.1 ≠ toLex (ns, toLex row) }

/-- `Store::register_useful_peer` (fs.rs:569) at the clock reading `nanos`. -/
def registerUsefulPeer (nanos : U64) (peer : PeerIdBytes) : FsStore × Except String Unit :=
  match s.namespaces.get? ns with
  | none => (s, .error "document not created")
  | some _ =>
    match s.peerRows ns with
    | [] => (s.insertPeer ns (nanos, peer), .ok ())
    | oldest :: rest =>
      if oldest.2 = peer then ((s.removePeer ns oldest).insertPeer ns (nanos, peer), .ok ())
      else
        match rest.find? fun r => r.2 = peer with
        | some prev => ((s.removePeer ns prev).insertPeer ns (nanos, peer), .ok ())
        | none =>
          let s := s.insertPeer ns (nanos, peer)
          if 1 + rest.length + 1 > PEERS_PER_DOC_CACHE_SIZE then (s.removePeer ns oldest, .ok ())
          else (s, .ok ())

/-- `Store::set_download_policy` (fs.rs:671). -/
def setDownloadPolicy (policy : DownloadPolicy) : FsStore × Except String Unit :=
  match s.namespaces.get? ns with
  | none => (s, .error "document not created")
  | some _ => ({ s with downloadPolicy := s.downloadPolicy.insert ns policy }, .ok ())

/-! ## Reads -/

/-- `Store::get_sync_peers` (fs.rs:656): latest first. -/
def getSyncPeers : Option (List PeerIdBytes) :=
  let peers := (s.peerRows ns).reverse.map (·.2)
  if peers.isEmpty then none else some peers

/-- `Store::get_download_policy` (fs.rs:692). -/
def getDownloadPolicy : DownloadPolicy := (s.downloadPolicy.get? ns).getD default

/-- `Store::get_latest_for_each_author` (fs.rs:561): the rows from `(ns, [0; 32])` to `(ns, [255; 32])`. -/
def getLatestForEachAuthor : List (AuthorId × U64 × Bytes) :=
  (s.tables.latestPerAuthor.toList.filter fun r =>
    toLex (ns, zeros32) ≤ r.1 ∧ r.1 ≤ toLex (ns, ones32)).map fun r => ((ofLex r.1).2, r.2.1, r.2.2)

/-- `Store::has_news_for_us` (fs.rs:338). -/
def hasNewsForUs (heads : AuthorHeads) : Option Nat :=
  heads.hasNewsFor (.ofList ((s.getLatestForEachAuthor ns).map fun r => (r.1, r.2.1)))

/-! ## Migrations of the entry tables -/

/-- `migration_001_populate_latest_table` (migrations.rs:46). -/
def migrateLatest : FsStore :=
  if !s.tables.latestPerAuthor.toList.isEmpty || s.tables.records.toList.isEmpty then s
  else
    let heads := s.tables.records.toList.foldl
      (fun (heads : SortedMap (NamespaceId ×ₗ AuthorId) (U64 × Bytes)) r =>
        let key := toLex (r.1.ns, r.1.author)
        match heads.get? key with
        | some e => if r.2.timestamp ≥ e.1 then heads.insert key (r.2.timestamp, r.1.key) else heads
        | none => heads.insert key (r.2.timestamp, r.1.key)) ∅
    { s with tables := { s.tables with latestPerAuthor := heads } }

/-- `migration_004_populate_by_key_index` (migrations.rs:121). -/
def migrateByKey : FsStore :=
  if !s.tables.recordsByKey.toList.isEmpty then s
  else
    { s with tables := { s.tables with
      recordsByKey := s.tables.records.toList.foldl
        (fun index r => index.insert ⟨r.1.ns, r.1.key, r.1.author⟩ ()) s.tables.recordsByKey } }

end FsStore

/-! ## Runs -/

/-- The writes of a store. -/
inductive Op where
  /-- an entry accepted by a replica of its namespace, local or remote, tombstones included -/
  | put (e : SignedEntry)
  | removePrefixFiltered (id : RecordIdentifier) (predicate : RecordValue → Bool)
  | retractEntry (ns : NamespaceId) (author : AuthorId) (key : Bytes) (upToTimestamp : U64)
  | removeReplica (ns : NamespaceId)
  | importNamespace (capability : Capability)
  | loadReplicaInfo (ns : NamespaceId)
  | closeReplica (ns : NamespaceId)
  | registerUsefulPeer (ns : NamespaceId) (nanos : U64) (peer : PeerIdBytes)
  | setDownloadPolicy (ns : NamespaceId) (policy : DownloadPolicy)
  | migrateLatest
  | migrateByKey

section

variable [Blake3] [Ed25519]

/-- The store after a write, whether it reports success or not. -/
def FsStore.step (s : FsStore) : Op → FsStore
  | .put e => s.onTables e.id.namespace fun inst => (Ranger.put inst e).2
  | .removePrefixFiltered id p => s.onTables id.namespace fun inst => (inst.removePrefixFiltered id p).2
  | .retractEntry ns author key upTo => (s.retractEntry ns author key upTo).1
  | .removeReplica ns => (s.removeReplica ns).1
  | .importNamespace capability => (s.importNamespace capability).1
  | .loadReplicaInfo ns => (s.loadReplicaInfo ns).1
  | .closeReplica ns => s.closeReplica ns
  | .registerUsefulPeer ns nanos peer => (s.registerUsefulPeer ns nanos peer).1
  | .setDownloadPolicy ns policy => (s.setDownloadPolicy ns policy).1
  | .migrateLatest => s.migrateLatest
  | .migrateByKey => s.migrateByKey

/-- The store after a sequence of writes. -/
def FsStore.run (s : FsStore) (ops : List Op) : FsStore := ops.foldl FsStore.step s

/-- What every write keeps, a run keeps. -/
theorem FsStore.run_preserves {P : FsStore → Prop} (hstep : ∀ s op, P s → P (s.step op)) {s : FsStore} (hs : P s)
    (ops : List Op) : P (s.run ops) := by
  induction ops generalizing s with
  | nil => exact hs
  | cons op ops ih => exact ih (hstep s op hs)

end

/-! ## What a write does to the entry tables -/

/-- The index row of a record. -/
def RecordsId.byKey (id : RecordsId) : RecordsByKeyId := ⟨id.ns, id.key, id.author⟩

/-- Records go, and no index row of a record that stays. -/
structure Shrinks (t t' : Tables) : Prop where
  records : ∀ r ∈ t'.records.toList, r ∈ t.records.toList
  index : ∀ r ∈ t'.records.toList, (r.1.byKey, ()) ∈ t.recordsByKey.toList →
    (r.1.byKey, ()) ∈ t'.recordsByKey.toList
  latest : t'.latestPerAuthor = t.latestPerAuthor

/-- The tables after an insertion that happened. -/
structure Inserts (e : SignedEntry) (t t' : Tables) : Prop where
  records : ∀ r, r ∈ t'.records.toList ↔ r = row e ∨ (r ∈ t.records.toList ∧ r.1 ≠ (row e).1 ∧
    StoreInstance.extracted e.id (fun v => e.record.value ≥ v) r = false)
  index : t'.recordsByKey = t.recordsByKey.insert (row e).1.byKey ()
  latest : t'.latestPerAuthor = t.latestPerAuthor.insert (toLex (e.id.namespace, e.id.author))
    (e.record.timestamp, e.id.key)

namespace FsStore

theorem shrinks_removePrefixFiltered (s : FsStore) (id : RecordIdentifier) (p : RecordValue → Bool) :
    Shrinks s.tables (s.onTables id.namespace fun inst => (inst.removePrefixFiltered id p).2).tables where
  records _ hr := (SortedMap.mem_filter.1 hr).1
  index _ _ h := h
  latest := rfl

theorem shrinks_retractEntry (s : FsStore) (ns : NamespaceId) (author : AuthorId) (k : Bytes) (upTo : U64) :
    Shrinks s.tables (s.retractEntry ns author k upTo).1.tables := by
  have hself : Shrinks s.tables s.tables := ⟨fun _ h => h, fun _ _ h => h, rfl⟩
  unfold retractEntry
  split
  · exact hself
  · split
    · exact hself
    · refine ⟨fun r hr => (SortedMap.mem_filter.1 hr).1, ?_, rfl⟩
      intro r hr hindex
      refine SortedMap.mem_filter.2 ⟨hindex, ?_⟩
      have hne := (SortedMap.mem_filter.1 hr).2
      simp only [ne_eq, decide_not, Bool.not_eq_true', decide_eq_false_iff_not] at hne ⊢
      intro heq
      apply hne
      obtain ⟨h1, h2, h3⟩ := (RecordsByKeyId.mk.injEq ..).mp heq
      exact RecordsId.ext h1 h3 h2

theorem shrinks_removeReplica (s : FsStore) (ns : NamespaceId) :
    Shrinks s.tables (s.removeReplica ns).1.tables := by
  unfold removeReplica
  split
  · exact ⟨fun _ h => h, fun _ _ h => h, rfl⟩
  · refine ⟨fun r hr => (SortedMap.mem_filter.1 hr).1, ?_, rfl⟩
    intro r hr hindex
    refine SortedMap.mem_filter.2 ⟨hindex, ?_⟩
    have hne := (SortedMap.mem_filter.1 hr).2
    simp only [Bool.not_eq_true', ← Bool.not_eq_true, RecordsBounds.contains_namespace,
      ByKeyBounds.contains_namespace] at hne ⊢
    exact hne

theorem tables_registerUsefulPeer (s : FsStore) (ns : NamespaceId) (nanos : U64) (peer : PeerIdBytes) :
    (s.registerUsefulPeer ns nanos peer).1.tables = s.tables := by
  unfold registerUsefulPeer
  repeat' split
  all_goals rfl

theorem tables_setDownloadPolicy (s : FsStore) (ns : NamespaceId) (policy : DownloadPolicy) :
    (s.setDownloadPolicy ns policy).1.tables = s.tables := by
  unfold setDownloadPolicy
  split <;> rfl

variable [Blake3] in
theorem inserts_put {s : FsStore} {e : SignedEntry}
    (h : wouldInsert (⟨s.tables, none⟩ : StoreInstance e.id.namespace) e = true) :
    Inserts e s.tables (s.onTables e.id.namespace fun inst => (Ranger.put inst e).2).tables := by
  show Inserts e s.tables (put (⟨s.tables, none⟩ : StoreInstance e.id.namespace) e).2.tables
  rw [put_eq_of_wouldInsert h]
  refine ⟨?_, rfl, rfl⟩
  intro r
  show r ∈ (SortedMap.insert (SortedMap.filter _ _) _ _).toList ↔ _
  rw [SortedMap.mem_insert, SortedMap.mem_filter]
  simp only [Bool.not_eq_true', key, value]
  tauto

variable [Ed25519]

theorem tables_importNamespace (s : FsStore) (capability : Capability) :
    (s.importNamespace capability).1 =
      { s with namespaces := (s.importNamespace capability).1.namespaces } := by
  unfold importNamespace
  split
  · rfl
  · split
    · rfl
    · split <;> rfl

theorem tables_loadReplicaInfo (s : FsStore) (ns : NamespaceId) :
    (s.loadReplicaInfo ns).1.tables = s.tables := by
  unfold loadReplicaInfo
  split
  · rfl
  · split <;> rfl

variable [Blake3]

/-- **What a write can do to the entry tables**: nothing, take records out, put one in, or fill an index
that a migration finds empty. -/
theorem step_tables (s : FsStore) (op : Op) :
    (s.step op).tables = s.tables ∨ Shrinks s.tables (s.step op).tables ∨
    (∃ e, op = .put e ∧ wouldInsert (⟨s.tables, none⟩ : StoreInstance e.id.namespace) e = true ∧
      Inserts e s.tables (s.step op).tables) ∨
    op = .migrateLatest ∨ op = .migrateByKey := by
  cases op with
  | put e =>
    cases h : wouldInsert (⟨s.tables, none⟩ : StoreInstance e.id.namespace) e with
    | true => exact .inr (.inr (.inl ⟨e, rfl, h, inserts_put h⟩))
    | false =>
      left
      show ((put (⟨s.tables, none⟩ : StoreInstance e.id.namespace) e).2).tables = s.tables
      rw [put_of_not_wouldInsert h]
  | removePrefixFiltered id p => exact .inr (.inl (s.shrinks_removePrefixFiltered id p))
  | retractEntry ns author k upTo => exact .inr (.inl (s.shrinks_retractEntry ns author k upTo))
  | removeReplica ns => exact .inr (.inl (s.shrinks_removeReplica ns))
  | importNamespace capability =>
    left
    show (s.importNamespace capability).1.tables = _
    rw [tables_importNamespace]
  | loadReplicaInfo ns => exact .inl (s.tables_loadReplicaInfo ns)
  | closeReplica ns => exact .inl rfl
  | registerUsefulPeer ns nanos peer => exact .inl (s.tables_registerUsefulPeer ns nanos peer)
  | setDownloadPolicy ns policy => exact .inl (s.tables_setDownloadPolicy ns policy)
  | migrateLatest => simp
  | migrateByKey => simp

end FsStore

end PdnStore.Fs

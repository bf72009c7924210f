import PdnStore.Store.Put
import PdnStore.Session.Filter

/-!
# `Replica`: the write paths and a round of reconciliation (sync.rs:426-786)

| here | there |
| --- | --- |
| `verify`           | `SignedEntry::verify` (`sync.rs:908`), third-party cryptography: a fixed predicate |
| `validateEntry`    | `validate_entry` (`sync.rs:741`), the gate of both ingest paths |
| `insert`, `deletePrefix` | the local writes (`sync.rs:443`, `sync.rs:472`); `sign` is `Entry::sign` |
| `insertRemoteEntry`| `insert_remote_entry` (`sync.rs:498`), the ingest path of live gossip |
| `syncInitialMessage`, `syncProcessMessage` | the two ends of reconciliation (`sync.rs:594-717`) |

Subscribers receive the events in order; what they do with them is outside. The clock is read where the
source reads it, and handed in. The `debug_assert!` of `Record::new` is not modelled: the records here
are those of a release build.
-/

namespace PdnStore.Sync

open Ranger Fs Session

abbrev PeerIdBytes := ByteArrayN 32

/-- `MAX_TIMESTAMP_FUTURE_SHIFT` (sync.rs:50): ten minutes in microseconds. -/
def MAX_TIMESTAMP_FUTURE_SHIFT : U64 := 10 * 60 * 1000000

/-- `MAX_REJECTIONS_PER_MESSAGE` (sync.rs:58). -/
def MAX_REJECTIONS_PER_MESSAGE : Nat := 1024

/-- `InsertOrigin` (sync.rs:122). -/
inductive InsertOrigin where
  | «local»
  | sync («from» : PeerIdBytes) (remoteContentStatus : ContentStatus)

/-- `ValidationFailure` (sync.rs:825). -/
inductive ValidationFailure where
  | invalidNamespace
  | badSignature
  | tooFarInTheFuture
  | invalidEmptyEntry
  | unauthorized
  | notAdmitted
deriving DecidableEq, Repr

/-- `InsertError` (sync.rs:790), without the storage error. -/
inductive InsertError where
  | validation (failure : ValidationFailure)
  | newerEntryExists
  | entryIsEmpty
  | readOnly
  | closed
deriving DecidableEq, Repr

/-- `Event` (sync.rs:95). -/
inductive Event where
  | localInsert (ns : NamespaceId) (entry : SignedEntry)
  | remoteInsert (ns : NamespaceId) (entry : SignedEntry) («from» : PeerIdBytes) (shouldDownload : Bool)
      (remoteContentStatus : ContentStatus)

/-- An `async_channel::Sender<Event>`, up to `same_channel` (sync.rs:170). -/
abbrev ChannelId := Nat

/-- `CapabilityValidator` (sync.rs:80). -/
abbrev CapabilityValidator := SignedEntry → PeerIdBytes → ValidateOutcome

/-- `ReplicaInfo` (sync.rs:314), the parts the functions below read. -/
structure ReplicaInfo where
  /-- `Capability::Write` -/
  writable : Bool
  contentStatusCb : Option (Hash → ContentStatus)
  capabilityValidator : Option CapabilityValidator
  /-- `rejection_observer.is_some()` -/
  observesRejections : Bool
  closed : Bool

/-- `Replica` (sync.rs:433) of the namespace `ns`; `downloads` is `matches` of the stored download policy. -/
structure Replica (ns : NamespaceId) where
  store : StoreInstance ns
  info : ReplicaInfo
  downloads : SignedEntry → Bool

/-- `AuthorHeads` (heads.rs:13). -/
structure AuthorHeads where
  heads : SortedMap AuthorId U64

/-- `AuthorHeads::insert` (heads.rs:19). -/
def AuthorHeads.insert (h : AuthorHeads) (author : AuthorId) (timestamp : U64) : AuthorHeads :=
  ⟨h.heads.insert author (match h.heads.get? author with
    | some t => max t timestamp
    | none => timestamp)⟩

/-- `SyncOutcome` (sync.rs:149). -/
structure SyncOutcome where
  headsReceived : AuthorHeads
  numRecv : Nat
  numSent : Nat

section

variable {ns : NamespaceId} [Blake3] (verify : SignedEntry → Bool)

/-- `!matches!(origin, InsertOrigin::Local)`. -/
def InsertOrigin.isRemote : InsertOrigin → Bool
  | .local => false
  | .sync .. => true

/-- The capability check of `validate_entry` (sync.rs:769-784): remote entries only, and only with a validator. -/
def checkCapability (e : SignedEntry) (validator : Option CapabilityValidator) :
    InsertOrigin → Except ValidationFailure Unit
  | .local => .ok ()
  | .sync peer _ =>
    match validator with
    | none => .ok ()
    | some validate =>
      match validate e peer with
      | .accept => .ok ()
      | .drop => .error .notAdmitted
      | .reject => .error .unauthorized

/-- `validate_entry` (sync.rs:748). -/
def validateEntry (now : U64) (expectedNamespace : NamespaceId) (e : SignedEntry) (origin : InsertOrigin)
    (validator : Option CapabilityValidator) : Except ValidationFailure Unit :=
  if e.id.namespace ≠ expectedNamespace then .error .invalidNamespace
  else if origin.isRemote && !verify e then .error .badSignature
  else if e.record.timestamp > now + MAX_TIMESTAMP_FUTURE_SHIFT then .error .tooFarInTheFuture
  else checkCapability e validator origin

/-! ## Insertion -/

/-- The outcome of an insertion: the replica, the events sent, and the number of entries removed. -/
structure Insertion (ns : NamespaceId) where
  replica : Replica ns
  events : List Event
  result : Except InsertError Nat

/-- The event of an entry taken in (sync.rs:538-561). -/
def insertEvent (r : Replica ns) (e : SignedEntry) : InsertOrigin → Event
  | .local => .localInsert ns e
  | .sync peer status => .remoteInsert ns e peer (r.downloads e) status

/-- `Replica::insert_entry` (sync.rs:516). -/
def insertEntry (now : U64) (r : Replica ns) (e : SignedEntry) (origin : InsertOrigin) : Insertion ns :=
  match validateEntry verify now ns e origin r.info.capabilityValidator with
  | .error failure => ⟨r, [], .error (.validation failure)⟩
  | .ok () =>
    match put r.store e with
    | (.notInserted, store) => ⟨{ r with store := store }, [], .error .newerEntryExists⟩
    | (.inserted removed, store) => ⟨{ r with store := store }, [insertEvent r e origin], .ok removed⟩

/-- `Replica::insert_remote_entry` (sync.rs:498). -/
def insertRemoteEntry (now : U64) (r : Replica ns) (e : SignedEntry) (receivedFrom : PeerIdBytes)
    (contentStatus : ContentStatus) : Insertion ns :=
  if r.info.closed then ⟨r, [], .error .closed⟩
  else if !e.validateEmpty then ⟨r, [], .error (.validation .invalidEmptyEntry)⟩
  else insertEntry verify now r e (.sync receivedFrom contentStatus)

/-- `Replica::insert` (sync.rs:454); the record is stamped at `created`. -/
def insert (sign : Entry → EntrySignature) (created now : U64) (r : Replica ns) (key : Bytes)
    (author : AuthorId)
    (hash : Hash) (len : U64) : Insertion ns :=
  if len = 0 ∨ hash = Hash.EMPTY then ⟨r, [], .error .entryIsEmpty⟩
  else if r.info.closed then ⟨r, [], .error .closed⟩
  else if !r.info.writable then ⟨r, [], .error .readOnly⟩
  else
    let entry : Entry := ⟨.new ns author key, ⟨len, hash, created⟩⟩
    insertEntry verify now r ⟨sign entry, entry⟩ .local

/-- `Replica::delete_prefix` (sync.rs:479): a tombstone at the prefix. -/
def deletePrefix (sign : Entry → EntrySignature) (created now : U64) (r : Replica ns) (pre : Bytes)
    (author : AuthorId) : Insertion ns :=
  if r.info.closed then ⟨r, [], .error .closed⟩
  else if !r.info.writable then ⟨r, [], .error .readOnly⟩
  else
    let entry : Entry := ⟨.new ns author pre, ⟨0, Hash.EMPTY, created⟩⟩
    insertEntry verify now r ⟨sign entry, entry⟩ .local

/-! ## Reconciliation -/

/-- The store a session reads through: the replica's, narrowed by the session's filter. -/
abbrev ReplicaSession (ns : NamespaceId) := SessionStore (StoreInstance ns) SignedEntry

abbrev SyncMessage := Message SignedEntry RecordIdentifier RejectId

/-- `Replica::sync_initial_message` (sync.rs:594). -/
def syncInitialMessage (r : Replica ns) (filter : Option (SignedEntry → Bool)) : Except Fault SyncMessage :=
  if r.info.closed then .error (.error "replica is closed")
  else initialMessage (⟨r.store, filter⟩ : ReplicaSession ns)

/-- The validate callback (sync.rs:661-686): only a capability refusal is echoed. -/
def validateCb (now : U64) (r : Replica ns) (fromPeer : PeerIdBytes) :
    ReplicaSession ns → SignedEntry → ContentStatus → ValidateOutcome :=
  fun _ e status =>
    match validateEntry verify now ns e (.sync fromPeer status) r.info.capabilityValidator with
    | .ok () => .accept
    | .error .unauthorized => .reject
    | .error _ => .drop

/-- The content status callback (sync.rs:702-708). -/
def contentStatus (r : Replica ns) (e : SignedEntry) : ContentStatus :=
  match r.info.contentStatusCb with
  | some cb => cb e.record.hash
  | none => .missing

/-- The outcome of a `sync_process_message` call: the replica, the session's totals, the events sent, the
rejections handed to the observer, and the reply. -/
structure SyncRound (ns : NamespaceId) where
  replica : Replica ns
  state : SyncOutcome
  events : List Event
  observed : List RejectId
  reply : Except Fault (Option SyncMessage)

/-- `Replica::sync_process_message` (sync.rs:611). -/
def syncProcessMessage (now : U64) (r : Replica ns) (m : SyncMessage) (fromPeer : PeerIdBytes)
    (state : SyncOutcome)
    (filter : Option (SignedEntry → Bool)) : SyncRound ns :=
  if r.info.closed then ⟨r, state, [], [], .error (.error "replica is closed")⟩
  else
    let state := { state with
      numRecv := state.numRecv + m.values.length
      headsReceived := m.values.foldl (fun h v => h.insert v.1.id.author v.1.record.timestamp)
        state.headsReceived }
    let observed := if r.info.observesRejections then
      (rejections m.parts).take MAX_REJECTIONS_PER_MESSAGE else []
    let p := processMessage default (validateCb verify now r fromPeer) (contentStatus r)
      (⟨r.store, filter⟩ : ReplicaSession ns) m
    let state := match p.reply with
      | .ok (some reply) => { state with numSent := state.numSent + reply.values.length }
      | _ => state
    ⟨{ r with store := p.store.inner }, state,
      p.inserted.map fun v => .remoteInsert ns v.1 fromPeer (r.downloads v.1) v.2, observed, p.reply⟩

/-- What `process_message` makes of a round. -/
def processed (now : U64) (r : Replica ns) (m : SyncMessage) (fromPeer : PeerIdBytes)
    (filter : Option (SignedEntry → Bool)) :
      Processed (ReplicaSession ns) SignedEntry RecordIdentifier RejectId :=
  processMessage default (validateCb verify now r fromPeer) (contentStatus r) ⟨r.store, filter⟩ m

theorem syncProcessMessage_open {now : U64} {r : Replica ns} {m : SyncMessage} {peer : PeerIdBytes}
    {state : SyncOutcome} {filter : Option (SignedEntry → Bool)} (h : r.info.closed = false) :
    (syncProcessMessage verify now r m peer state filter).reply =
      (processed verify now r m peer filter).reply ∧
    (syncProcessMessage verify now r m peer state filter).replica =
      { r with store := (processed verify now r m peer filter).store.inner } := by
  unfold syncProcessMessage
  rw [h]
  exact ⟨rfl, rfl⟩

theorem syncProcessMessage_closed {now : U64} {r : Replica ns} {m : SyncMessage} {peer : PeerIdBytes}
    {state : SyncOutcome} {filter : Option (SignedEntry → Bool)} (h : r.info.closed = true) :
    syncProcessMessage verify now r m peer state filter =
      ⟨r, state, [], [], .error (.error "replica is closed")⟩ := by
  unfold syncProcessMessage
  rw [if_pos h]

end

end PdnStore.Sync

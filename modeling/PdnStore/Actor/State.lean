import PdnStore.Store.FsStore

/-!
# The sync actor: open replicas, sync sessions and their actions (actor.rs)

One thread owns the store and takes one action at a time off its queue. It keeps which replicas are open and
by how many handles, and a frozen snapshot for every running sync session. Before every action, and when it
idles, it drops the snapshots of sessions that nobody refers to any more.

| here | there |
| --- | --- |
| `OpenReplica`   | the entry of `OpenReplicas` (`actor.rs:262`); the callbacks of its info are the actor's |
| `alive`         | `SessionSnapshot::alive` has a strong reference: the caller's handle, or its release message |
| `signer`        | the author's key as `get_author` finds it in the store, and the signature it makes |
| `Reply`         | what is sent back; `none` where the action has no reply channel |
| `snapshot_owned`| the tables at that time: a flush, then a read transaction (`Store.Transaction`) |
| `closed`        | the channels whose receivers are gone when the action sends its last event |

Counters (`handles`, `next_session_id`, the actor ids) have 64 bits and wrap around; `usize` is taken to have as
many. Actions that only read and metrics are left out; what subscribers are sent is in `Sync.Events`.
-/

namespace PdnStore.Actors

open Ranger Sync Fs

/-! ## Counters -/

theorem sub_one_eq_zero {n : U64} : n - 1 = 0 ↔ n = 1 := by
  have hlt := n.isLt
  simp only [Fin.ext_iff, Fin.sub_def, Fin.val_zero, Fin.val_one]
  omega

theorem sub_one_ne (n : U64) : n - 1 ≠ n := by
  have hlt := n.isLt
  simp only [ne_eq, Fin.ext_iff, Fin.sub_def, Fin.val_one]
  omega

/-- `wrapping_sub` does not wrap above zero. -/
theorem val_sub_one {n : U64} (h : 1 ≤ n.val) : (n - 1).val = n.val - 1 := by
  have hlt := n.isLt
  simp only [Fin.sub_def, Fin.val_one]
  omega

/-- A counter does not wrap below its maximum. -/
theorem val_add_one {n : U64} (h : n.val + 1 < 2 ^ 64) : (n + 1).val = n.val + 1 := by
  simp only [Fin.add_def, Fin.val_one]
  omega

/-! ## State -/

/-- A reading of the clock, in milliseconds. -/
abbrev Instant := Nat

/-- `MAX_COMMIT_DELAY` (actor.rs:44): 500 ms. -/
def MAX_COMMIT_DELAY : Nat := 500

/-- `SyncSessionId` (actor.rs:275): the issuing actor is part of the identity. -/
@[ext] structure SyncSessionId where
  actor : U64
  seq : U64
deriving DecidableEq

instance : LinearOrder SyncSessionId :=
  LinearOrder.lift' (fun i => toLex (i.actor, i.seq)) fun a b h => by
    cases a; cases b; simp_all

/-- `SessionSnapshot` (actor.rs:331). -/
structure SessionSnapshot where
  ns : NamespaceId
  tables : Tables

/-- `OpenReplica` (actor.rs:262). -/
structure OpenReplica where
  /-- `info.capability` -/
  capability : Capability
  /-- `info.subscribers` -/
  subscribers : List ChannelId
  sync : Bool
  handles : U64

/-- The callbacks an actor is spawned with (actor.rs:392-394). -/
structure Callbacks where
  contentStatusCallback : Option (Hash → ContentStatus)
  capabilityValidator : Option CapabilityValidator
  /-- `rejection_observer.is_some()` -/
  observesRejections : Bool

/-- `Actor` (actor.rs:847). -/
structure Actor where
  actorId : U64
  store : FsStore
  states : SortedMap NamespaceId OpenReplica
  sessions : SortedMap SyncSessionId SessionSnapshot
  nextSessionId : U64
  lastSessionSweep : Instant
  callbacks : Callbacks
  /-- `run_async` has left its loop -/
  stopped : Bool

/-- `SyncHandle::spawn` (actor.rs:390). -/
def Actor.spawn (actorId : U64) (store : FsStore) (callbacks : Callbacks) (now : Instant) : Actor :=
  ⟨actorId, store, ∅, ∅, 0, now, callbacks, false⟩

/-- What an action may fail with. -/
inductive ActorError where
  | msg (text : String)
  | «open» (error : OpenError)
  | insert (error : InsertError)
  | fault (fault : Fault)
deriving DecidableEq, Repr

/-! ## Actions -/

/-- `ReplicaAction` (actor.rs:131), those that write, and the rounds of a sync session. -/
inductive ReplicaAction where
  | «open» (sync : Bool) (subscribe : Option ChannelId)
  | close
  | subscribe (sender : ChannelId)
  | unsubscribe (sender : ChannelId)
  | setSync (sync : Bool)
  | insertLocal (author : AuthorId) (signer : Option (Entry → EntrySignature)) (key : Bytes) (hash : Hash)
      (len : U64) (created now : U64)
  | deletePrefix (author : AuthorId) (signer : Option (Entry → EntrySignature)) (key : Bytes)
      (created now : U64)
  | insertRemote (entry : SignedEntry) (fromPeer : PeerIdBytes) (contentStatus : ContentStatus) (now : U64)
  | syncSessionStart
  | syncInitialMessage (session : SyncSessionId) (filter : Option (SignedEntry → Bool))
  | syncProcessMessage (message : SyncMessage) (fromPeer : PeerIdBytes) (state : SyncOutcome)
      (session : SyncSessionId) (filter : Option (SignedEntry → Bool)) (now : U64)
  | registerUsefulPeer (peer : PeerIdBytes) (nanos : U64)
  | retractEntry (author : AuthorId) (key : Bytes) (upToTimestamp : U64)
  | dropReplica
  | setDownloadPolicy (policy : DownloadPolicy)

/-- `Action` (actor.rs:51). -/
inductive Action where
  | importNamespace (capability : Capability)
  | flushStore
  | syncSessionEnd (session : SyncSessionId)
  | replica (ns : NamespaceId) (action : ReplicaAction)
  | shutdown

/-- What an action sends back. -/
inductive Reply where
  | unit (res : Except ActorError Unit)
  | imported (res : Except ActorError NamespaceId)
  | closed (res : Bool)
  | removed (res : Except ActorError Nat)
  | retracted (res : Except ActorError Bool)
  | session (res : Except ActorError SyncSessionId)
  | message (res : Except ActorError SyncMessage)
  | round (res : Except ActorError (Option SyncMessage × SyncOutcome))
  | none
  /-- the queue is closed: "sending to iroh_docs actor failed" -/
  | refused

/-! ## Open replicas -/

/-- `ReplicaInfo::subscribe` (sync.rs:345). -/
def OpenReplica.subscribe (state : OpenReplica) (sender : ChannelId) : OpenReplica :=
  { state with subscribers := state.subscribers ++ [sender] }

/-- `ReplicaInfo::unsubscribe` (sync.rs:354). -/
def OpenReplica.unsubscribe (state : OpenReplica) (sender : ChannelId) : OpenReplica :=
  { state with subscribers := state.subscribers.filter (· ≠ sender) }

/-- `opts.subscribe` of an open (actor.rs:1400, 1415). -/
def OpenReplica.subscribeOpt (state : OpenReplica) : Option ChannelId → OpenReplica
  | some sender => state.subscribe sender
  | none => state

/-- `Subscribers::send` (sync.rs:183), event after event: a sender whose receiver is gone is dropped. -/
def OpenReplica.announce (state : OpenReplica) (closed : ChannelId → Bool) (events : List Event) : OpenReplica :=
  if events.isEmpty then state else { state with subscribers := state.subscribers.filter fun ch => !closed ch }

namespace OpenReplicas

/-- `OpenReplicas::get_mut` (actor.rs:1377). -/
def get (states : SortedMap NamespaceId OpenReplica) (ns : NamespaceId) : Except ActorError OpenReplica :=
  match states.get? ns with
  | some state => .ok state
  | none => .error (.msg "replica not open")

/-- `OpenReplicas::ensure_syncing` (actor.rs:1371): the state of the replica if it may sync. -/
def ensureSyncing (states : SortedMap NamespaceId OpenReplica) (ns : NamespaceId) :
    Except ActorError OpenReplica := do
  let state ← get states ns
  if state.sync then .ok state else .error (.msg "sync is not enabled for replica")

/-- `OpenReplicas::close` (actor.rs:1422): whether the replica is closed now. -/
def close (states : SortedMap NamespaceId OpenReplica) (ns : NamespaceId) :
    SortedMap NamespaceId OpenReplica × Bool :=
  match states.get? ns with
  | none => (states, true)
  | some state =>
    -- `wrapping_sub(1)`
    let handles := state.handles - 1
    if handles = 0 then (states.filter fun r => r.1 ≠ ns, true)
    else (states.insert ns { state with handles := handles }, false)

end OpenReplicas

namespace Actor

variable (a : Actor) (ns : NamespaceId)

/-- `Actor::open` (actor.rs:1286) and `OpenReplicas::open_with` (actor.rs:1391). -/
def «open» [Ed25519] (sync : Bool) (subscribe : Option ChannelId) : Actor × Except ActorError Unit :=
  match a.states.get? ns with
  | none =>
    match a.store.loadReplicaInfo ns with
    | (store, .error err) => ({ a with store := store }, .error (.open err))
    | (store, .ok capability) =>
      ({ a with
        store := store
        states := a.states.insert ns ((⟨capability, [], sync, 1⟩ : OpenReplica).subscribeOpt subscribe) }, .ok ())
  | some state =>
    let state := { state with handles := state.handles + 1, sync := state.sync || sync }
    ({ a with states := a.states.insert ns (state.subscribeOpt subscribe) }, .ok ())

/-- `Actor::close` (actor.rs:1266). -/
def close : Actor × Bool :=
  match OpenReplicas.close a.states ns with
  | (states, true) =>
    ({ a with
      states := states
      sessions := a.sessions.filter fun s => s.2.ns ≠ ns
      store := a.store.closeReplica ns }, true)
  | (states, false) => ({ a with states := states }, false)

/-- `Actor::close_all` (actor.rs:1278). -/
def closeAll : Actor :=
  { a with
    sessions := ∅
    states := ∅
    store := a.states.toList.foldl (fun store r => store.closeReplica r.1) a.store }

/-- `Actor::reclaim_abandoned_sessions` (actor.rs:1239). -/
def reclaimAbandonedSessions (now : Instant) (alive : SyncSessionId → Bool) : Actor :=
  if a.sessions.toList.isEmpty then a
  else if now - a.lastSessionSweep < MAX_COMMIT_DELAY then a
  else { a with lastSessionSweep := now, sessions := a.sessions.filter fun s => alive s.1 }

/-! ## Replicas -/

/-- `session_snapshot` (actor.rs:1310). -/
def sessionSnapshot (session : SyncSessionId) : Except ActorError Tables :=
  if session.actor ≠ a.actorId then .error (.msg "sync session was issued by another actor")
  else match a.sessions.get? session with
    | none => .error (.msg "sync session not registered")
    | some entry =>
      if entry.ns ≠ ns then .error (.msg "sync session belongs to another namespace")
      else .ok entry.tables

/-- The replica of an open state, reading through `snapshot` if there is one (actor.rs:1334, 1353). -/
def replicaOf (state : OpenReplica) [Ed25519] (snapshot : Option Tables) : Replica state.capability.id where
  store := ⟨a.store.tables, snapshot⟩
  info := ⟨match state.capability with | .write _ => true | .read _ => false,
    a.callbacks.contentStatusCallback, a.callbacks.capabilityValidator, a.callbacks.observesRejections, false⟩
  downloads := fun e => (a.store.getDownloadPolicy state.capability.id).matches e

/-- `Actor::session_replica` (actor.rs:1013): egress reads through the snapshot the session registered. -/
def sessionReplica [Ed25519] (session : SyncSessionId) :
    Except ActorError ((state : OpenReplica) × Replica state.capability.id) := do
  let snapshot ← a.sessionSnapshot ns session
  let state ← OpenReplicas.ensureSyncing a.states ns
  .ok ⟨state, a.replicaOf state (some snapshot)⟩

/-- What a replica wrote. -/
def withTables (tables : Tables) : Actor := { a with store := { a.store with tables := tables } }

/-- The subscribers of an open replica after events were sent. -/
def withAnnounced (state : OpenReplica) (closed : ChannelId → Bool) (events : List Event) : Actor :=
  { a with states := a.states.insert ns (state.announce closed events) }

/-- The end of an insertion through an open replica. -/
def afterInsertion (state : OpenReplica) (closed : ChannelId → Bool) {id : NamespaceId} (i : Insertion id) :
    Actor × Except ActorError Nat :=
  ((a.withTables i.replica.store.tables).withAnnounced ns state closed i.events,
    match i.result with
    | .ok removed => .ok removed
    | .error err => .error (.insert err))

/-! ## Turns -/

variable [Blake3] [Ed25519] (verify : SignedEntry → Bool) (closed : ChannelId → Bool)

/-- `Actor::on_replica_action` (actor.rs:1023). -/
def onReplicaAction (a : Actor) (ns : NamespaceId) : ReplicaAction → Actor × Reply
  | .open sync subscribe =>
    let (a, res) := a.open ns sync subscribe
    (a, .unit res)
  | .close =>
    let (a, res) := a.close ns
    (a, .closed res)
  | .subscribe sender =>
    match OpenReplicas.get a.states ns with
    | .error err => (a, .unit (.error err))
    | .ok state => ({ a with states := a.states.insert ns (state.subscribe sender) }, .unit (.ok ()))
  | .unsubscribe sender =>
    match OpenReplicas.get a.states ns with
    | .error err => (a, .unit (.error err))
    | .ok state => ({ a with states := a.states.insert ns (state.unsubscribe sender) }, .unit (.ok ()))
  | .setSync sync =>
    match OpenReplicas.get a.states ns with
    | .error err => (a, .unit (.error err))
    | .ok state => ({ a with states := a.states.insert ns { state with sync := sync } }, .unit (.ok ()))
  | .insertLocal author signer key hash len created now =>
    match signer with
    | none => (a, .unit (.error (.msg "author not found")))
    | some sign =>
      match OpenReplicas.get a.states ns with
      | .error err => (a, .unit (.error err))
      | .ok state =>
        let (a, res) := a.afterInsertion ns state closed
          (insert verify sign created now (a.replicaOf state none) key author hash len)
        (a, .unit (res.map fun _ => ()))
  | .deletePrefix author signer key created now =>
    match signer with
    | none => (a, .removed (.error (.msg "author not found")))
    | some sign =>
      match OpenReplicas.get a.states ns with
      | .error err => (a, .removed (.error err))
      | .ok state =>
        let (a, res) := a.afterInsertion ns state closed
          (Sync.deletePrefix verify sign created now (a.replicaOf state none) key author)
        (a, .removed res)
  | .insertRemote entry fromPeer contentStatus now =>
    -- ingest reads live: an entry the peer sends is judged against current state
    match OpenReplicas.ensureSyncing a.states ns with
    | .error err => (a, .unit (.error err))
    | .ok state =>
      let (a, res) := a.afterInsertion ns state closed
        (insertRemoteEntry verify now (a.replicaOf state none) entry fromPeer contentStatus)
      (a, .unit (res.map fun _ => ()))
  | .syncSessionStart =>
    match OpenReplicas.ensureSyncing a.states ns with
    | .error err => (a, .session (.error err))
    | .ok _ =>
      let id : SyncSessionId := ⟨a.actorId, a.nextSessionId⟩
      ({ a with
        nextSessionId := a.nextSessionId + 1
        sessions := a.sessions.insert id ⟨ns, a.store.tables⟩ }, .session (.ok id))
  | .syncInitialMessage session filter =>
    match a.sessionReplica ns session with
    | .error err => (a, .message (.error err))
    | .ok replica => (a, .message ((syncInitialMessage replica.2 filter).mapError .fault))
  | .syncProcessMessage message fromPeer state session filter now =>
    match a.sessionReplica ns session with
    | .error err => (a, .round (.error err))
    | .ok replica =>
      let r := syncProcessMessage verify now replica.2 message fromPeer state filter
      ((a.withTables r.replica.store.tables).withAnnounced ns replica.1 closed r.events,
        .round ((r.reply.map fun reply => (reply, r.state)).mapError .fault))
  | .registerUsefulPeer peer nanos =>
    let (store, res) := a.store.registerUsefulPeer ns nanos peer
    ({ a with store := store }, .unit (res.mapError .msg))
  | .retractEntry author key upToTimestamp =>
    match OpenReplicas.get a.states ns with
    | .error err => (a, .retracted (.error err))
    | .ok _ =>
      let (store, res) := a.store.retractEntry ns author key upToTimestamp
      ({ a with store := store }, .retracted (.ok res))
  | .dropReplica =>
    let (a, _) := a.close ns
    let (store, res) := a.store.removeReplica ns
    ({ a with store := store }, .unit (res.mapError .msg))
  | .setDownloadPolicy policy =>
    let (store, res) := a.store.setDownloadPolicy ns policy
    ({ a with store := store }, .unit (res.mapError .msg))

/-- `Action::ImportNamespace` (actor.rs:960). -/
def importNamespace (a : Actor) (capability : Capability) : Actor × Except ActorError NamespaceId :=
  match a.store.importNamespace capability with
  | (store, .error err) => ({ a with store := store }, .error (.msg err))
  | (store, .ok outcome) =>
    let a := { a with store := store }
    match outcome, a.states.get? capability.id with
    | .upgraded, some state =>
      match state.capability.merge capability with
      | .error err => (a, .error (.msg err))
      | .ok (_, merged) =>
        ({ a with states := a.states.insert capability.id { state with capability := merged } },
          .ok capability.id)
    | _, _ => (a, .ok capability.id)

/-- `Actor::on_action` (actor.rs:941); shutting down is the end of `run_async` (actor.rs:930-940). -/
def onAction (a : Actor) : Action → Actor × Reply
  | .importNamespace capability =>
    let (a, res) := a.importNamespace capability
    (a, .imported res)
  | .flushStore => (a, .unit (.ok ()))
  | .syncSessionEnd session => ({ a with sessions := a.sessions.filter fun s => s.1 ≠ session }, .none)
  | .replica ns action => a.onReplicaAction verify closed ns action
  | .shutdown => ({ a.closeAll with stopped := true }, .none)

/-- What an actor takes a turn on: an action off its queue, when, which sessions are referred to then, and which
channels have lost their receivers. -/
structure Turn where
  now : Instant
  alive : SyncSessionId → Bool
  closed : ChannelId → Bool
  action : Action

/-- One turn of the loop of `run_async` (actor.rs:879-928). -/
def turn (a : Actor) (t : Turn) : Actor × Reply :=
  if a.stopped then (a, .refused)
  else (a.reclaimAbandonedSessions t.now t.alive).onAction verify t.closed t.action

/-- The actor after a sequence of turns. -/
def run (a : Actor) (turns : List Turn) : Actor := turns.foldl (fun a t => (a.turn verify t).1) a

end Actor

end PdnStore.Actors

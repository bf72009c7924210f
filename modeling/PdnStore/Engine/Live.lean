import PdnStore.Engine.State

/-!
# The live actor and its sync tasks (engine/live.rs)

| here | there |
| --- | --- |
| `Live.inbox`       | `inbox`, first in first out |
| `Live.dials`       | `running_sync_connect`: the dial tasks that have not been joined |
| `Live.accepts`     | `running_sync_accept`: the accept tasks that have not been joined |
| `Live.owner`       | not in the source: the exchange for which a slot was last set running |
| `Stage`            | how far the accept callback of a task has come (`live.rs:953-998`) |
| `Outside`          | what the sync actor, the gossip swarm and the downloader answer |
| `Action`           | one step of the environment, of a task, or one turn of the `select!` loop (`live.rs:262-313`) |

The `select!` is biased: a finished task is joined only when the inbox is empty. Which finished task is
joined first is left open. Subscribers, downloads and the broadcasts of a finished sync do not reach the
sync state and are left out; `queued` is `queued_hashes.contains_namespace`. `Shutdown` ends the run.
-/

namespace PdnStore.Engine

open Net

/-- Tells the tasks apart. -/
abbrev ExchangeId := Nat

/-- `SessionAccess` (filter.rs:37). -/
inductive SessionAccess where
  | full
  | filtered (filter : SignedEntry → Bool)
  | deny

/-- `ToLiveActor` (live.rs:60). The reply channel of an accept request is its task; messages that do not
reach the sync state are one constructor. -/
inductive ToLiveActor where
  | startSync (ns : NamespaceId) (peers : List EndpointId) (joinGossip : Bool)
  | leave (ns : NamespaceId)
  | handleConnection (peer : EndpointId)
  | acceptSyncRequest (task : ExchangeId) (ns : NamespaceId) (peer : EndpointId)
  | incomingSyncReport («from» : EndpointId) (ns : NamespaceId)
  | neighborUp (ns : NamespaceId) (peer : EndpointId)
  | other

/-- A dial (live.rs:391-434), and its result once it has ended. -/
structure DialTask where
  «namespace» : NamespaceId
  peer : EndpointId
  reason : SyncReason
  ended : Option (Except ConnectError SyncFinished)

inductive Stage where
  /-- the callback has not been called -/
  | connected
  /-- called; the request is not in the inbox yet -/
  | called (ns : NamespaceId)
  /-- the request was sent -/
  | requested (ns : NamespaceId)
  /-- the actor replied -/
  | replied (ns : NamespaceId) (outcome : AcceptOutcome)

/-- The calls of the callback so far. -/
def Stage.calls : Stage → List NamespaceId
  | .connected => []
  | .called ns | .requested ns | .replied ns _ => [ns]

/-- An accepted connection (live.rs:950-1006), and its result once it has ended. -/
structure AcceptTask where
  peer : EndpointId
  stage : Stage
  ended : Option AcceptRes

structure Live where
  states : NamespaceStates
  inbox : List ToLiveActor
  dials : ExchangeId → Option DialTask
  accepts : ExchangeId → Option AcceptTask
  owner : NamespaceId × EndpointId → Option ExchangeId
  nextId : ExchangeId

instance : Inhabited Live := ⟨⟨default, [], fun _ => none, fun _ => none, fun _ => none, 0⟩⟩

structure Outside where
  now : U64
  /-- `sync.open` succeeds -/
  opened : Bool
  /-- `sync.get_sync_peers` -/
  syncPeers : List EndpointId
  /-- `gossip.join` succeeds -/
  joined : Bool
  /-- the heads of a report decode, and `sync.has_news_for_us` finds news -/
  hasNews : Bool
  queued : Bool

/-! ## The accept callback -/

/-- The end of `accept_request_cb` (live.rs:975-994): the provider is asked only about an allowed request, and
`access` is its verdict, if there is a provider. -/
def acceptRequestCb (outcome : AcceptOutcome) (access : Option SessionAccess) : AcceptOutcome :=
  match outcome, access with
  | .allow _, some .full => .allow none
  | .allow _, some (.filtered filter) => .allow (some filter)
  | .allow _, some .deny => .reject .notFound
  | outcome, _ => outcome

/-- What a provider has come to. -/
inductive Verdict where
  | absent
  | pending
  | given (access : SessionAccess)

/-- What the callback has come back with at a stage; `none` when it is still running. -/
def Stage.answer (stage : Stage) (verdict : Verdict) : Option AcceptOutcome :=
  match stage, verdict with
  | .replied _ (.allow _), .pending => none
  | .replied _ outcome, .given access => some (acceptRequestCb outcome (some access))
  | .replied _ outcome, _ => some (acceptRequestCb outcome none)
  | _, _ => none

/-! ## The handlers of the actor -/

namespace Live

/-- The slot of a pair. -/
def slot (s : Live) (ns : NamespaceId) (peer : EndpointId) : SyncState := (s.states.peer ns peer).state

/-- `sync_with_peer` (live.rs:391). -/
def syncWithPeer (s : Live) (now : U64) (ns : NamespaceId) (peer : EndpointId) (reason : SyncReason) :
    Live :=
  match s.states.startConnect now ns peer reason with
  | (false, states) => { s with states := states }
  | (true, states) =>
    { s with
      states := states
      dials := Function.update s.dials s.nextId (some ⟨ns, peer, reason, none⟩)
      owner := Function.update s.owner (ns, peer) (some s.nextId)
      nextId := s.nextId + 1 }

/-- `join_peers` (live.rs:533). -/
def joinPeers (s : Live) (o : Outside) (ns : NamespaceId) (peers : List EndpointId)
    (joinGossip : Bool) : Live :=
  if joinGossip && !o.joined then s
  else peers.foldl (fun s peer => s.syncWithPeer o.now ns peer .directJoin) s

/-- `start_sync` (live.rs:455). -/
def startSync (s : Live) (o : Outside) (ns : NamespaceId) (peers : List EndpointId)
    (joinGossip : Bool) : Live :=
  if s.states.isSyncing ns then s.joinPeers o ns (peers ++ o.syncPeers) joinGossip
  else if o.opened then
    { s with states := s.states.insert ns }.joinPeers o ns (peers ++ o.syncPeers) joinGossip
  else s

/-- `handle_connection` (live.rs:950): the task is spawned. -/
def handleConnection (s : Live) (peer : EndpointId) : Live :=
  { s with
    accepts := Function.update s.accepts s.nextId (some ⟨peer, .connected, none⟩)
    nextId := s.nextId + 1 }

/-- The reply to a request reaches its task. -/
def reply (s : Live) (task : ExchangeId) (ns : NamespaceId) (outcome : AcceptOutcome) : Live :=
  { s with accepts := Function.update s.accepts task ((s.accepts task).map ({ · with stage := .replied ns outcome })) }

/-- `accept_sync_request` (live.rs:1008) and the reply (live.rs:376). -/
def acceptSyncRequest (s : Live) (me : EndpointId) (now : U64) (task : ExchangeId) (ns : NamespaceId)
    (peer : EndpointId) : Live :=
  match s.states.acceptRequest now me ns peer with
  | (.allow filter, states) =>
    { s with states := states, owner := Function.update s.owner (ns, peer) (some task) }.reply
      task ns (.allow filter)
  | (.reject reason, states) => { s with states := states }.reply task ns (.reject reason)

/-- `on_sync_report` (live.rs:832). -/
def onSyncReport (s : Live) (o : Outside) (peer : EndpointId) (ns : NamespaceId) : Live :=
  if !s.states.isSyncing ns then s
  else if o.hasNews then s.syncWithPeer o.now ns peer .syncReport
  else s

/-- `on_actor_message` (live.rs:318). -/
def onActorMessage (s : Live) (me : EndpointId) (o : Outside) : ToLiveActor → Live
  | .startSync ns peers joinGossip => s.startSync o ns peers joinGossip
  | .leave ns => { s with states := (s.states.remove ns).2 }
  | .handleConnection peer => s.handleConnection peer
  | .acceptSyncRequest task ns peer => s.acceptSyncRequest me o.now task ns peer
  | .incomingSyncReport peer ns => s.onSyncReport o peer ns
  | .neighborUp ns peer => s.syncWithPeer o.now ns peer .newNeighbor
  | .other => s

/-- `on_sync_finished` (live.rs:624), from the point where it reaches the sync state. -/
def onSyncFinished (s : Live) (o : Outside) (ns : NamespaceId) (peer : EndpointId) (origin : Origin)
    (result : SyncResult) : Live :=
  match s.states.finish o.now ns peer origin result with
  | (none, states) => { s with states := states }
  | (some (_, resync), states) =>
    let s := { s with states := states.setMayEmitReady ns o.queued }
    if resync then s.syncWithPeer o.now ns peer .resync else s

/-- `on_sync_via_connect_finished` (live.rs:569). -/
def onSyncViaConnectFinished (s : Live) (o : Outside) (ns : NamespaceId) (peer : EndpointId)
    (reason : SyncReason) :
    Except ConnectError SyncFinished → Live
  | .error (.remoteAbort .alreadySyncing) => { s with states := (s.states.abortConnect ns peer reason).2 }
  | .ok details => s.onSyncFinished o ns peer (.connect reason) (.ok details)
  | .error err => s.onSyncFinished o ns peer (.connect reason) (.error (.connect err))

/-- `on_sync_via_accept_finished` (live.rs:598). -/
def onSyncViaAcceptFinished (s : Live) (o : Outside) : AcceptRes → Live
  | .ok details => s.onSyncFinished o details.namespace details.peer .accept (.ok details)
  | .error (.abort _ _ .alreadySyncing) => s
  | .error err =>
    match err.peer, err.namespace with
    | some peer, some ns => s.onSyncFinished o ns peer .accept (.error (.accept err))
    | _, _ => s

end Live

/-! ## The steps -/

/-- The result of a dial (live.rs:401-431): the provider's denial, or what `connect_and_sync` returned. -/
def DialTask.result (t : DialTask) (access : SessionAccess) (res : Except ConnectError Sync.SyncOutcome) :
    Except ConnectError SyncFinished :=
  match access with
  | .deny => .error (.sync "session denied by the local access provider")
  | _ => res.map fun outcome => ⟨t.namespace, t.peer, outcome⟩

inductive Action where
  /-- somebody other than an accept task sends to the actor -/
  | send (msg : ToLiveActor)
  /-- the actor takes the next message -/
  | receive (o : Outside)
  /-- an accept task calls its callback -/
  | call (task : ExchangeId) (ns : NamespaceId)
  /-- the callback has sent its request -/
  | request (task : ExchangeId)
  | endDial (task : ExchangeId) (access : SessionAccess) (res : Except ConnectError Sync.SyncOutcome)
  | endAccept (task : ExchangeId) (verdict : Verdict) (script : Script)
  | joinDial (task : ExchangeId) (o : Outside)
  | joinAccept (task : ExchangeId) (o : Outside)

/-- One step; `none` when the action is not possible. -/
def step (me : EndpointId) (s : Live) : Action → Option Live
  | .send (.acceptSyncRequest ..) => none
  | .send msg => some { s with inbox := s.inbox ++ [msg] }
  | .receive o =>
    match s.inbox with
    | [] => none
    | msg :: inbox => some ({ s with inbox := inbox }.onActorMessage me o msg)
  | .call task ns =>
    match s.accepts task with
    | some ⟨peer, .connected, none⟩ =>
        some { s with accepts := Function.update s.accepts task (some ⟨peer, .called ns, none⟩) }
    | _ => none
  | .request task =>
    match s.accepts task with
    | some ⟨peer, .called ns, none⟩ =>
      some { s with
        accepts := Function.update s.accepts task (some ⟨peer, .requested ns, none⟩)
        inbox := s.inbox ++ [.acceptSyncRequest task ns peer] }
    | _ => none
  | .endDial task access res =>
    match s.dials task with
    | some ⟨ns, peer, reason, none⟩ =>
      let t : DialTask := ⟨ns, peer, reason, none⟩
      some { s with
        dials := Function.update s.dials task (some { t with ended := some (t.result access res) }) }
    | _ => none
  | .endAccept task verdict script =>
    match s.accepts task with
    | some ⟨peer, stage, none⟩ =>
      -- the script must have called the callback exactly as the task has
      let run := Net.handleConnection peer (fun _ => stage.answer verdict) script
      if run.1.called = stage.calls then
        some { s with accepts := Function.update s.accepts task (some ⟨peer, stage, some run.2⟩) }
      else none
    | _ => none
  | .joinDial task o =>
    match s.inbox, s.dials task with
    | [], some ⟨ns, peer, reason, some res⟩ =>
      some ({ s with dials := Function.update s.dials task none }.onSyncViaConnectFinished o
        ns peer reason res)
    | _, _ => none
  | .joinAccept task o =>
    match s.inbox, s.accepts task with
    | [], some ⟨_, _, some res⟩ =>
      some ({ s with accepts := Function.update s.accepts task none }.onSyncViaAcceptFinished o res)
    | _, _ => none

theorem Live.syncWithPeer_states {s : Live} {now : U64} {ns : NamespaceId} {peer : EndpointId} {reason : SyncReason} :
    (s.syncWithPeer now ns peer reason).states = (s.states.startConnect now ns peer reason).2 := by
  unfold Live.syncWithPeer
  split
  next hstart => rw [hstart]
  next hstart => rw [hstart]

section Join

variable {me : EndpointId} {s s' : Live} {task : ExchangeId} {o : Outside}

/-- What joining a dial does. -/
theorem step_joinDial (h : step me s (.joinDial task o) = some s') :
    ∃ t res, s.dials task = some t ∧ t.ended = some res ∧
      s' = { s with dials := Function.update s.dials task none }.onSyncViaConnectFinished o
        t.namespace t.peer t.reason res := by
  simp only [step] at h
  split at h
  next res _ ht => exact ⟨_, res, ht, rfl, (Option.some.inj h).symm⟩
  next => cases h

/-- What joining an accept task does. -/
theorem step_joinAccept (h : step me s (.joinAccept task o) = some s') :
    ∃ t res, s.inbox = [] ∧ s.accepts task = some t ∧ t.ended = some res ∧
      s' = { s with accepts := Function.update s.accepts task none }.onSyncViaAcceptFinished o res := by
  simp only [step] at h
  split at h
  next res hin ht => exact ⟨_, res, hin, ht, rfl, (Option.some.inj h).symm⟩
  next => cases h

end Join

end PdnStore.Engine

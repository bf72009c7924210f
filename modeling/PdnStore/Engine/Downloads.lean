import PdnStore.Engine.Live
import PdnStore.Engine.QueuedHashes
import PdnStore.Lib.Runs

/-!
# The downloads of the live actor (engine/live.rs)

A hash that a namespace wants is parked in `missing_hashes` or queued; one download serves all the namespaces
it is queued for, and ends under the name of the one that started it.

| here | there |
| --- | --- |
| `Downloads`       | the fields of `LiveActor` (`live.rs:175-196`) that the handlers below read or write |
| `downloadTasks`   | the `JoinSet`: the downloads spawned and not collected |
| `blobs`           | the blob store: the hashes that are complete; nothing is deleted |
| `sent`            | what went to `subscribers.send`, the latest first, with `contains_namespace` at that moment |
| `wanted`          | not in the source: the pairs that a `RemoteInsert` with `should_download` asked for |
| `fails`           | the hashes whose `status` the blob store fails to give |
| `reportDownload`, `retryDownload`, `emitReady` | `on_download_ready` (`live.rs:787`) in three parts |
| `StateCall`       | what the other handlers do to the sync state |

`fromBytes` is `PublicKey::from_bytes`. A set is a list without repetitions; the loops over sets go in the order
of the list. Registering the peer as useful and the messages to neighbors are left out.
-/

namespace PdnStore.Engine

open Net Ranger Sync

/-- `SyncEvent` (live.rs:1020); the result is not rendered. -/
structure SyncEvent where
  peer : EndpointId
  origin : Origin
  finished : U64
  started : U64
  result : SyncResult

/-- `Event` (live.rs:122), without the neighbors. -/
inductive Event where
  | contentReady (hash : Hash)
  | syncFinished (ev : SyncEvent)
  | pendingContentReady

structure Sent where
  «namespace» : NamespaceId
  event : Event
  queued : Bool

structure Downloads where
  states : NamespaceStates
  missingHashes : List (NamespaceId × Hash)
  retryAfterFailure : List (NamespaceId × Hash)
  queuedHashes : QueuedHashes
  hashProviders : Hash → List EndpointId
  downloadTasks : List (NamespaceId × Hash)
  blobs : List Hash
  sent : List Sent
  wanted : List (NamespaceId × Hash)

namespace Downloads

instance : Inhabited Downloads := ⟨⟨default, [], [], default, fun _ => [], [], [], [], []⟩⟩

variable (s : Downloads)

/-- `subscribers.send`. -/
def send (ns : NamespaceId) (event : Event) : Downloads :=
  { s with sent := ⟨ns, event, s.queuedHashes.containsNamespace ns⟩ :: s.sent }

/-- `blobs().status(hash)` answers `Complete`. -/
def complete (fails : Hash → Bool) (hash : Hash) : Bool := decide (hash ∈ s.blobs) && !fails hash

/-- `queue_download` (live.rs:921). -/
def queueDownload (fails : Hash → Bool) (ns : NamespaceId) (hash : Hash) (onlyIfMissing : Bool) : Downloads :=
  if s.complete fails hash then { s with missingHashes := s.missingHashes.filter (· != (ns, hash)) }
  else if s.queuedHashes.containsHash hash then { s with queuedHashes := s.queuedHashes.insert hash ns }
  else if onlyIfMissing = false ∨ (ns, hash) ∈ s.missingHashes then
    { s with
      queuedHashes := s.queuedHashes.insert hash ns
      missingHashes := s.missingHashes.filter (· != (ns, hash))
      downloadTasks := s.downloadTasks ++ [(ns, hash)] }
  else s

/-- `start_download` (live.rs:902). -/
def startDownload (fails : Hash → Bool) (ns : NamespaceId) (hash : Hash) (node : EndpointId)
    (onlyIfMissing : Bool) : Downloads :=
  { s with
    hashProviders := Function.update s.hashProviders hash ((s.hashProviders hash).insert node) }.queueDownload
      fails ns hash onlyIfMissing

/-- `on_neighbor_content_ready` (live.rs:822). -/
def onNeighborContentReady (fails : Hash → Bool) (ns : NamespaceId) (node : EndpointId) (hash : Hash) :
    Downloads :=
  s.startDownload fails ns hash node true

/-- `on_replica_event` (live.rs:858); a local insert is only announced. -/
def onReplicaEvent (fromBytes : PeerIdBytes → Option EndpointId) (fails : Hash → Bool) :
    Sync.Event → Downloads
  | .localInsert _ _ => s
  | .remoteInsert ns entry «from» shouldDownload remoteContentStatus =>
    if shouldDownload then
      match remoteContentStatus with
      | .complete =>
        match fromBytes «from» with
        | none => s
        | some node => s.startDownload fails ns entry.record.hash node false
      | _ => { s with missingHashes := s.missingHashes.insert (ns, entry.record.hash) }
    else s

/-- What a finished sync is answered: the clock, and the failures of the blob store in its two loops. -/
structure Answers where
  now : U64
  parked : Hash → Bool
  queued : Hash → Bool

/-- The retry of a successful sync (live.rs:663-683). -/
def retryMissing (o : Answers) (ns : NamespaceId) (peer : EndpointId) : Downloads :=
  let queued := s.queuedHashes.hashes ns
  let parked := (s.missingHashes.filter (·.1 == ns)).map (·.2)
  let s := parked.foldl (fun s hash => s.startDownload o.parked ns hash peer true) s
  queued.foldl (fun s hash =>
    { s with retryAfterFailure := s.retryAfterFailure.insert (ns, hash) }.startDownload
      o.queued ns hash peer true) s

/-- What `on_sync_finished` sends, and what it does to the flag (live.rs:713-736). -/
def reportSync (ns : NamespaceId) (ev : SyncEvent) : Downloads :=
  let s := s.send ns (.syncFinished ev)
  if s.queuedHashes.containsNamespace ns then { s with states := s.states.setMayEmitReady ns true }
  else
    let s := s.send ns .pendingContentReady
    { s with states := s.states.setMayEmitReady ns false }

/-- The end of the pair's sync (live.rs:709-741). -/
def finishSync (o : Answers) (ns : NamespaceId) (peer : EndpointId) (origin : Origin) (result : SyncResult) :
    Downloads :=
  match s.states.finish o.now ns peer origin result with
  | (none, states) => { s with states := states }
  | (some (started, resync), states) =>
    let s := { s with states := states }.reportSync ns ⟨peer, origin, o.now, started, result⟩
    if resync then { s with states := (s.states.startConnect o.now ns peer .resync).2 } else s

/-- `on_sync_finished` (live.rs:624). -/
def onSyncFinished (o : Answers) (ns : NamespaceId) (peer : EndpointId) (origin : Origin) (result : SyncResult) :
    Downloads :=
  match result with
  | .ok _ => (s.retryMissing o ns peer).finishSync o ns peer origin result
  | .error _ => s.finishSync o ns peer origin result

/-- The namespaces that have nothing queued any more, and the result (live.rs:793-804). -/
def reportDownload (ns : NamespaceId) (hash : Hash) (res : Except String Unit) : List NamespaceId × Downloads :=
  let (completed, queuedHashes) := s.queuedHashes.removeHash hash
  let s := { s with queuedHashes := queuedHashes }
  match res with
  | .ok _ => (completed,
      { s with retryAfterFailure := s.retryAfterFailure.filter (·.2 != hash) }.send ns (.contentReady hash))
  | .error _ => (completed, { s with missingHashes := s.missingHashes.insert (ns, hash) })

/-- A failed download that a provider was registered for meanwhile (live.rs:805-811). -/
def retryDownload (fails : Hash → Bool) (ns : NamespaceId) (hash : Hash) : Downloads :=
  if (ns, hash) ∈ s.retryAfterFailure then
    { s with retryAfterFailure := s.retryAfterFailure.filter (· != (ns, hash)) }.queueDownload fails ns hash true
  else s

/-- The body of the last loop (live.rs:813-819). -/
def emitReady (ns : NamespaceId) : Downloads :=
  match s.states.mayEmitReady ns with
  | (some true, states) => { s with states := states }.send ns .pendingContentReady
  | (_, states) => { s with states := states }

/-- `on_download_ready` (live.rs:787). -/
def onDownloadReady (fails : Hash → Bool) (ns : NamespaceId) (hash : Hash) (res : Except String Unit) :
    Downloads :=
  let (completed, s) := s.reportDownload ns hash res
  let s := match res with
    | .ok _ => s
    | .error _ => s.retryDownload fails ns hash
  completed.foldl emitReady s

/-! ## The steps -/

inductive StateCall where
  | insert (ns : NamespaceId)
  | remove (ns : NamespaceId)
  | startConnect (now : U64) (ns : NamespaceId) (node : EndpointId) (reason : SyncReason)
  | abortConnect (ns : NamespaceId) (node : EndpointId) (reason : SyncReason)
  | acceptRequest (now : U64) (me : EndpointId) (ns : NamespaceId) (node : EndpointId)

def StateCall.run (states : NamespaceStates) : StateCall → NamespaceStates
  | .insert ns => states.insert ns
  | .remove ns => (states.remove ns).2
  | .startConnect now ns node reason => (states.startConnect now ns node reason).2
  | .abortConnect ns node reason => (states.abortConnect ns node reason).2
  | .acceptRequest now me ns node => (states.acceptRequest now me ns node).2

inductive Action where
  | replicaEvent (ev : Sync.Event) (fails : Hash → Bool)
  | neighborContentReady (ns : NamespaceId) (node : EndpointId) (hash : Hash) (fails : Hash → Bool)
  | syncFinished (ns : NamespaceId) (peer : EndpointId) (origin : Origin) (result : SyncResult) (o : Answers)
  | downloadReady (ns : NamespaceId) (hash : Hash) (res : Except String Unit) (fails : Hash → Bool)
  | syncState (call : StateCall)
  /-- the blob store has all of a blob -/
  | stored (hash : Hash)

/-- What an event asks for. -/
def wants : Sync.Event → List (NamespaceId × Hash)
  | .localInsert _ _ => []
  | .remoteInsert ns entry _ shouldDownload _ => if shouldDownload then [(ns, entry.record.hash)] else []

/-- One step; a download ends once, and well only when its blob is complete. -/
def step (fromBytes : PeerIdBytes → Option EndpointId) (s : Downloads) : Action → Option Downloads
  | .replicaEvent ev fails => some ({ s with wanted := wants ev ++ s.wanted }.onReplicaEvent fromBytes fails ev)
  | .neighborContentReady ns node hash fails => some (s.onNeighborContentReady fails ns node hash)
  | .syncFinished ns peer origin result o => some (s.onSyncFinished o ns peer origin result)
  | .downloadReady ns hash res fails =>
    if (ns, hash) ∈ s.downloadTasks ∧ (res.isOk → hash ∈ s.blobs) then
      some ({ s with downloadTasks := s.downloadTasks.erase (ns, hash) }.onDownloadReady fails ns hash res)
    else none
  | .syncState call => some { s with states := call.run s.states }
  | .stored hash => some { s with blobs := s.blobs.insert hash }

/-! ## Parking and queueing -/

/-- The pair is parked, or queued. -/
def Held (ns : NamespaceId) (hash : Hash) : Prop :=
  (ns, hash) ∈ s.missingHashes ∨ ns ∈ s.queuedHashes.namespaces hash

/-- What is left as it is by all that only parks and queues. -/
structure Queues (s s' : Downloads) : Prop where
  states : s'.states = s.states
  sent : s'.sent = s.sent
  wanted : s'.wanted = s.wanted
  blobs : s'.blobs = s.blobs
  wf : s.queuedHashes.WF → s'.queuedHashes.WF
  held : ∀ {ns hash}, s.Held ns hash → hash ∉ s.blobs → s'.Held ns hash

section

variable {s s₁ s' : Downloads} {fails : Hash → Bool} {ns ns' : NamespaceId} {hash hash' : Hash}

theorem Queues.refl : Queues s s := ⟨rfl, rfl, rfl, rfl, id, fun h _ => h⟩

theorem Queues.trans (h : Queues s s₁) (h' : Queues s₁ s') : Queues s s' where
  states := h'.states.trans h.states
  sent := h'.sent.trans h.sent
  wanted := h'.wanted.trans h.wanted
  blobs := h'.blobs.trans h.blobs
  wf := h'.wf ∘ h.wf
  held hheld hblob := h'.held (h.held hheld hblob) (h.blobs ▸ hblob)

theorem queues_foldl {α : Type} {f : Downloads → α → Downloads} (h : ∀ s a, Queues s (f s a)) (l : List α) :
    Queues s (l.foldl f s) := by
  induction l generalizing s with
  | nil => exact .refl
  | cons a l ih => exact (h s a).trans ih

theorem mem_missing_filter : (ns', hash') ∈ s.missingHashes.filter (· != (ns, hash)) ↔
    (ns', hash') ∈ s.missingHashes ∧ ¬ (ns' = ns ∧ hash' = hash) := by
  simp

theorem complete_eq_true (h : s.complete fails hash = true) : hash ∈ s.blobs := by
  simp only [complete, Bool.and_eq_true, decide_eq_true_eq] at h
  exact h.1

theorem queues_queueDownload {onlyIfMissing : Bool} :
    Queues s (s.queueDownload fails ns hash onlyIfMissing) := by
  unfold queueDownload
  split
  next hcomplete =>
    refine ⟨rfl, rfl, rfl, rfl, id, fun {ns' hash'} hheld hblob => hheld.imp_left fun hmem => ?_⟩
    refine mem_missing_filter.2 ⟨hmem, ?_⟩
    rintro ⟨-, rfl⟩
    exact hblob (complete_eq_true hcomplete)
  next =>
    split
    next =>
      refine ⟨rfl, rfl, rfl, rfl, QueuedHashes.wf_insert, fun hheld _ => ?_⟩
      exact hheld.imp_right fun hmem => QueuedHashes.mem_namespaces_insert.2 (.inr hmem)
    next =>
      split
      next =>
        refine ⟨rfl, rfl, rfl, rfl, QueuedHashes.wf_insert, fun {ns' hash'} hheld _ => ?_⟩
        -- the pair itself moves from the parked ones to the queue
        by_cases hpair : ns' = ns ∧ hash' = hash
        · exact .inr (QueuedHashes.mem_namespaces_insert.2 (.inl ⟨hpair.2, hpair.1⟩))
        · obtain hmem | hmem := hheld
          · exact .inl (mem_missing_filter.2 ⟨hmem, hpair⟩)
          · exact .inr (QueuedHashes.mem_namespaces_insert.2 (.inr hmem))
      next => exact .refl

theorem queues_startDownload {node : EndpointId} {onlyIfMissing : Bool} :
    Queues s (s.startDownload fails ns hash node onlyIfMissing) := by
  have hprovider : Queues s { s with
      hashProviders := Function.update s.hashProviders hash ((s.hashProviders hash).insert node) } :=
    ⟨rfl, rfl, rfl, rfl, id, fun h _ => h⟩
  exact hprovider.trans queues_queueDownload

/-- A download that need not be missing is held afterwards, or it is complete. -/
theorem held_startDownload {node : EndpointId} (h : hash ∉ s.blobs) :
    (s.startDownload fails ns hash node false).Held ns hash := by
  unfold startDownload queueDownload
  split
  next hcomplete => exact absurd (complete_eq_true hcomplete) h
  next =>
    have hmem : ns ∈ (s.queuedHashes.insert hash ns).namespaces hash :=
      QueuedHashes.mem_namespaces_insert.2 (.inl ⟨rfl, rfl⟩)
    split
    next => exact .inr hmem
    next =>
      rw [if_pos (.inl rfl)]
      exact .inr hmem

theorem queues_park : Queues s { s with missingHashes := s.missingHashes.insert (ns, hash) } :=
  ⟨rfl, rfl, rfl, rfl, id, fun h _ => h.imp_left List.mem_insert_of_mem⟩

theorem queues_onReplicaEvent {fromBytes : PeerIdBytes → Option EndpointId} {ev : Sync.Event} :
    Queues s (s.onReplicaEvent fromBytes fails ev) := by
  unfold onReplicaEvent
  split
  · exact .refl
  · split
    · split
      · split
        · exact .refl
        · exact queues_startDownload
      · exact queues_park
    · exact .refl

theorem queues_retryMissing {o : Answers} {peer : EndpointId} : Queues s (s.retryMissing o ns peer) := by
  refine (queues_foldl (fun _ _ => queues_startDownload) _).trans (queues_foldl (fun s hash => ?_) _)
  have hretry : Queues s { s with retryAfterFailure := s.retryAfterFailure.insert (ns, hash) } :=
    ⟨rfl, rfl, rfl, rfl, id, fun h _ => h⟩
  exact hretry.trans queues_startDownload

theorem queues_retryDownload : Queues s (s.retryDownload fails ns hash) := by
  unfold retryDownload
  split
  · have hretry : Queues s { s with retryAfterFailure := s.retryAfterFailure.filter (· != (ns, hash)) } :=
      ⟨rfl, rfl, rfl, rfl, id, fun h _ => h⟩
    exact hretry.trans queues_queueDownload
  · exact .refl

/-! ## Reporting -/

/-- What is left as it is by all that only reports. -/
structure Reports (s s' : Downloads) : Prop where
  missing : s'.missingHashes = s.missingHashes
  queued : s'.queuedHashes = s.queuedHashes
  wanted : s'.wanted = s.wanted
  blobs : s'.blobs = s.blobs

theorem Reports.trans (h : Reports s s₁) (h' : Reports s₁ s') : Reports s s' :=
  ⟨h'.missing.trans h.missing, h'.queued.trans h.queued, h'.wanted.trans h.wanted, h'.blobs.trans h.blobs⟩

theorem Reports.held (h : Reports s s') : s'.Held ns hash ↔ s.Held ns hash := by
  rw [Held, Held, h.missing, h.queued]

theorem reports_reportSync {ev : SyncEvent} : Reports s (s.reportSync ns ev) := by
  unfold reportSync send
  dsimp only
  split <;> exact ⟨rfl, rfl, rfl, rfl⟩

theorem reports_finishSync {o : Answers} {peer : EndpointId} {origin : Origin} {result : SyncResult} :
    Reports s (s.finishSync o ns peer origin result) := by
  unfold finishSync
  split
  next states _ => exact ⟨rfl, rfl, rfl, rfl⟩
  next states _ =>
    have hfinish : Reports s { s with states := states } := ⟨rfl, rfl, rfl, rfl⟩
    dsimp only
    split
    · exact (hfinish.trans reports_reportSync).trans ⟨rfl, rfl, rfl, rfl⟩
    · exact hfinish.trans reports_reportSync

@[simp] theorem reportDownload_fst {res : Except String Unit} :
    (s.reportDownload ns hash res).1 = (s.queuedHashes.removeHash hash).1 := by
  cases res <;> rfl

@[simp] theorem reportDownload_queuedHashes {res : Except String Unit} :
    (s.reportDownload ns hash res).2.queuedHashes = (s.queuedHashes.removeHash hash).2 := by
  cases res <;> rfl

theorem reports_emitReady : Reports s (s.emitReady ns) := by
  unfold emitReady
  split <;> exact ⟨rfl, rfl, rfl, rfl⟩

theorem reports_foldl_emitReady (completed : List NamespaceId) : Reports s (completed.foldl emitReady s) := by
  induction completed generalizing s with
  | nil => exact ⟨rfl, rfl, rfl, rfl⟩
  | cons ns completed ih => exact reports_emitReady.trans ih

/-- The last loop of `on_download_ready` sends nothing but `PendingContentReady`. -/
theorem sent_foldl_emitReady (completed : List NamespaceId) :
    ∃ new, (completed.foldl emitReady s).sent = new ++ s.sent ∧ ∀ e ∈ new, e.event = .pendingContentReady := by
  induction completed generalizing s with
  | nil => exact ⟨[], rfl, by simp⟩
  | cons ns completed ih =>
    obtain ⟨new, hsent, hnew⟩ := ih (s := s.emitReady ns)
    rw [List.foldl_cons, hsent]
    unfold emitReady
    split
    next states _ =>
      refine ⟨new ++ [⟨ns, .pendingContentReady, s.queuedHashes.containsNamespace ns⟩], by simp [send], ?_⟩
      intro e he
      obtain he | he := List.mem_append.1 he
      · exact hnew e he
      · rw [List.mem_singleton.1 he]
    next => exact ⟨new, rfl, hnew⟩

/-! ## The sync state -/

theorem reportSync_states {ev : SyncEvent} : (s.reportSync ns ev).states =
    s.states.setMayEmitReady ns (s.queuedHashes.containsNamespace ns) := by
  unfold reportSync
  dsimp only [send]
  split
  next hqueued => rw [hqueued]
  next hqueued => rw [Bool.eq_false_iff.2 hqueued]

theorem finishSync_states {l : Live} {outside : Outside} {o : Answers} {peer : EndpointId} {origin : Origin}
    {result : SyncResult} (hstates : l.states = s.states) (hnow : outside.now = o.now)
    (hqueued : outside.queued = s.queuedHashes.containsNamespace ns) :
    (s.finishSync o ns peer origin result).states = (l.onSyncFinished outside ns peer origin result).states := by
  unfold finishSync Live.onSyncFinished
  rw [hstates, hnow, hqueued]
  rcases s.states.finish o.now ns peer origin result with ⟨_ | ⟨started, resync⟩, states⟩
  · rfl
  · cases resync with
    | false => exact reportSync_states
    | true => simp only [if_true, Live.syncWithPeer_states, reportSync_states]

end

/-- The sync state goes where the handler of the live actor takes it. -/
theorem onSyncFinished_states {l : Live} {outside : Outside} (o : Answers) (ns : NamespaceId) (peer : EndpointId)
    (origin : Origin) (result : SyncResult) (hstates : l.states = s.states) (hnow : outside.now = o.now)
    (hqueued : outside.queued = (s.onSyncFinished o ns peer origin result).queuedHashes.containsNamespace ns) :
    (s.onSyncFinished o ns peer origin result).states =
      (l.onSyncFinished outside ns peer origin result).states := by
  unfold onSyncFinished at hqueued ⊢
  cases result with
  | ok details =>
    rw [reports_finishSync.queued] at hqueued
    exact finishSync_states (hstates.trans queues_retryMissing.states.symm) hnow hqueued
  | error err =>
    rw [reports_finishSync.queued] at hqueued
    exact finishSync_states hstates hnow hqueued

end Downloads

end PdnStore.Engine

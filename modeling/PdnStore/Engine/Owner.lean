import PdnStore.Engine.Live
import PdnStore.Lib.Runs

/-!
# Who owns a running slot (engine/state.rs:188-276, engine/live.rs:568-622)

A slot records an origin and nothing else. Two questions about it, over every run of the actor:

* does a running slot always have a task that will still report its end, so that it is released at all
  (`running_slot_has_task`)? Yes: the task that set it running reports last, because the inbox is handled
  before finished tasks and because every result of an accept task whose request was handled names its pair.
* is it released only by the end of the exchange it runs for (`slot_ownership_iff`)? Only in the runs where no
  other exchange of the pair reports while the slot is taken, silent endings apart: `finish` logs a mismatch
  of the origin and clears the slot all the same, and `abort_connect` compares the reason alone.
-/

namespace PdnStore.Engine

open Net

/-! ## The invariant -/

/-- The task that replies to a message, if it is an accept request. -/
def ToLiveActor.task : ToLiveActor → Option ExchangeId
  | .acceptSyncRequest task _ _ => some task
  | _ => none

/-- What the result of an accept task says, given the stage at which it ended. -/
structure AcceptTask.Reports (t : AcceptTask) (res : AcceptRes) : Prop where
  pair : res.pair = t.stage.calls.head?.map (·, t.peer)
  refused : ∀ p ns, res = .error (.abort p ns .alreadySyncing) →
    ∃ ns, t.stage = .replied ns (.reject .alreadySyncing)

/-- The task is the exchange of a slot that runs with this origin. -/
def Live.RunsFor (s : Live) (id : ExchangeId) (ns : NamespaceId) (peer : EndpointId) : Origin → Prop
  | .connect reason => ∃ t, s.dials id = some t ∧ t.namespace = ns ∧ t.peer = peer ∧ t.reason = reason
  | .accept => ∃ t filter, s.accepts id = some t ∧ t.peer = peer ∧ t.stage = .replied ns (.allow filter)

/-- A running slot belongs to a task that has not been joined. -/
def Live.Owned (s : Live) (ns : NamespaceId) (peer : EndpointId) : Prop :=
  ∀ start origin, s.slot ns peer = .running start origin →
    ∃ id, s.owner (ns, peer) = some id ∧ s.RunsFor id ns peer origin

/-- The tasks and the requests in the inbox. -/
structure Live.Tasks (s : Live) : Prop where
  dials_lt : ∀ id t, s.dials id = some t → id < s.nextId
  accepts_lt : ∀ id t, s.accepts id = some t → id < s.nextId
  owner_lt : ∀ pair id, s.owner pair = some id → id < s.nextId
  requests : ∀ id ns peer, .acceptSyncRequest id ns peer ∈ s.inbox →
    ∃ t, s.accepts id = some t ∧ t.peer = peer ∧ t.stage = .requested ns
  once : (s.inbox.filterMap ToLiveActor.task).Nodup
  reports : ∀ id t res, s.accepts id = some t → t.ended = some res → t.Reports res

structure Live.Inv (s : Live) : Prop where
  tasks : s.Tasks
  owned : ∀ ns peer, s.Owned ns peer

theorem inv_default : (default : Live).Inv where
  tasks :=
    { dials_lt := fun _ _ h => by cases h
      accepts_lt := fun _ _ h => by cases h
      owner_lt := fun _ _ h => by cases h
      requests := fun _ _ _ h => by cases h
      once := List.nodup_nil
      reports := fun _ _ _ h => by cases h }
  owned := fun _ _ _ _ h => by cases h

section Invariant

variable {me : EndpointId} {s s' : Live} {o : Outside} {now : U64} {ns ns' : NamespaceId}
  {peer peer' : EndpointId}
  {task : ExchangeId}

/-- Frame rule: the slot is unchanged or idle, and its task is still there. -/
theorem Live.Owned.frame (h : s.Owned ns peer)
    (hslot : ∀ start origin, s'.slot ns peer = .running start origin →
      s.slot ns peer = .running start origin)
    (howner : s'.owner (ns, peer) = s.owner (ns, peer))
    (hruns : ∀ id start origin, s'.slot ns peer = .running start origin → s.owner (ns, peer) = some id →
      s.RunsFor id ns peer origin → s'.RunsFor id ns peer origin) : s'.Owned ns peer := by
  intro start origin hrun
  obtain ⟨id, hid, hfor⟩ := h start origin (hslot start origin hrun)
  exact ⟨id, howner.trans hid, hruns id start origin hrun hid hfor⟩

theorem Live.RunsFor.congr {id : ExchangeId} {origin : Origin} (h : s.RunsFor id ns peer origin)
    (hdials : s'.dials = s.dials) (haccepts : s'.accepts = s.accepts) : s'.RunsFor id ns peer origin := by
  cases origin with
  | connect reason =>
    obtain ⟨t, ht, hrest⟩ := h
    exact ⟨t, by rw [hdials]; exact ht, hrest⟩
  | accept =>
    obtain ⟨t, filter, ht, hrest⟩ := h
    exact ⟨t, filter, by rw [haccepts]; exact ht, hrest⟩

/-- The states change, no slot starts to run. -/
theorem Live.Inv.setStates {states : NamespaceStates} (h : s.Inv)
    (hslot : ∀ ns peer start origin, (states.peer ns peer).state = .running start origin →
      s.slot ns peer = .running start origin) : ({ s with states := states } : Live).Inv where
  tasks := ⟨h.tasks.dials_lt, h.tasks.accepts_lt, h.tasks.owner_lt, h.tasks.requests, h.tasks.once,
    h.tasks.reports⟩
  owned := by
    intro ns peer
    exact (h.owned ns peer).frame (hslot ns peer) rfl fun _ _ _ _ _ hfor => hfor.congr rfl rfl

/-- A dial task is spawned. -/
theorem Live.Inv.spawnDial (h : s.Inv) (t : DialTask) :
    ({ s with dials := Function.update s.dials s.nextId (some t), nextId := s.nextId + 1 } : Live).Inv where
  tasks :=
    { dials_lt := by
        intro id u hu
        rcases update_some_cases hu with ⟨rfl, -⟩ | ⟨-, hu⟩
        · exact Nat.lt_succ_self _
        · exact Nat.lt_succ_of_lt (h.tasks.dials_lt id u hu)
      accepts_lt := fun id u hu => Nat.lt_succ_of_lt (h.tasks.accepts_lt id u hu)
      owner_lt := fun pair id hid => Nat.lt_succ_of_lt (h.tasks.owner_lt pair id hid)
      requests := h.tasks.requests
      once := h.tasks.once
      reports := h.tasks.reports }
  owned := by
    intro ns peer
    refine (h.owned ns peer).frame (fun _ _ hrun => hrun) rfl ?_
    intro id start origin _ hid hfor
    have hne : id ≠ s.nextId := (h.tasks.owner_lt _ id hid).ne
    cases origin with
    | accept => exact hfor
    | connect reason =>
      obtain ⟨u, hu, hrest⟩ := hfor
      exact ⟨u, (Function.update_of_ne hne ..).trans hu, hrest⟩

/-- An accept task is spawned. -/
theorem Live.Inv.handleConnection (h : s.Inv) : (s.handleConnection peer).Inv where
  tasks :=
    { dials_lt := fun id u hu => Nat.lt_succ_of_lt (h.tasks.dials_lt id u hu)
      accepts_lt := by
        intro id u hu
        rcases update_some_cases hu with ⟨rfl, -⟩ | ⟨-, hu⟩
        · exact Nat.lt_succ_self _
        · exact Nat.lt_succ_of_lt (h.tasks.accepts_lt id u hu)
      owner_lt := fun pair id hid => Nat.lt_succ_of_lt (h.tasks.owner_lt pair id hid)
      requests := by
        intro id ns peer hmem
        obtain ⟨u, hu, hrest⟩ := h.tasks.requests id ns peer hmem
        have hne : id ≠ s.nextId := (h.tasks.accepts_lt id u hu).ne
        exact ⟨u, (Function.update_of_ne hne ..).trans hu, hrest⟩
      once := h.tasks.once
      reports := by
        intro id u res hu hres
        rcases update_some_cases hu with ⟨-, rfl⟩ | ⟨-, hu⟩
        · cases hres
        · exact h.tasks.reports id u res hu hres }
  owned := by
    intro ns peer
    refine (h.owned ns peer).frame (fun _ _ hrun => hrun) rfl ?_
    intro id start origin _ hid hfor
    have hne : id ≠ s.nextId := (h.tasks.owner_lt _ id hid).ne
    cases origin with
    | connect reason => exact hfor
    | accept =>
      obtain ⟨u, filter, hu, hrest⟩ := hfor
      exact ⟨u, filter, (Function.update_of_ne hne ..).trans hu, hrest⟩

/-- A slot starts to run for a task that is there. -/
theorem Live.Inv.takeSlot {states : NamespaceStates} (h : s.Inv) (now : U64) (origin : Origin)
    (hlt : task < s.nextId) (hfor : s.RunsFor task ns peer origin)
    (hstates : ∀ ns' peer', states.peer ns' peer' = if ns' = ns ∧ peer' = peer then
      (s.states.peer ns peer).setSyncRunning now origin else s.states.peer ns' peer') :
    ({ s with states := states, owner := Function.update s.owner (ns, peer) (some task) } : Live).Inv where
  tasks :=
    { dials_lt := h.tasks.dials_lt
      accepts_lt := h.tasks.accepts_lt
      owner_lt := by
        intro pair id hid
        rcases update_some_cases hid with ⟨-, rfl⟩ | ⟨-, hid⟩
        · exact hlt
        · exact h.tasks.owner_lt pair id hid
      requests := h.tasks.requests
      once := h.tasks.once
      reports := h.tasks.reports }
  owned := by
    intro ns' peer'
    by_cases hp : ns' = ns ∧ peer' = peer
    · obtain ⟨rfl, rfl⟩ := hp
      intro start origin' hrun
      simp only [Live.slot, hstates, and_self, if_true, PeerState.setSyncRunning,
        SyncState.running.injEq] at hrun
      obtain ⟨-, rfl⟩ := hrun
      exact ⟨task, Function.update_self .., hfor.congr rfl rfl⟩
    · have hne : (ns', peer') ≠ (ns, peer) := by simpa using hp
      refine (h.owned ns' peer').frame (fun start origin hrun => ?_) (Function.update_of_ne hne ..)
        fun _ _ _ _ _ hfor => hfor.congr rfl rfl
      simpa only [Live.slot, hstates, if_neg hp] using hrun

/-- A dial trigger. -/
theorem Live.Inv.syncWithPeer {reason : SyncReason} (h : s.Inv) :
    (s.syncWithPeer now ns peer reason).Inv := by
  unfold Live.syncWithPeer
  split
  next states heq =>
    refine h.setStates fun ns' peer' start origin hrun => ?_
    have hsame : ((s.states.startConnect now ns peer reason).2.peer ns' peer').state = _ :=
      NamespaceStates.startConnect_of_false (by rw [heq])
    rw [heq] at hsame
    exact hsame.symm.trans hrun
  next states heq =>
    refine (h.spawnDial ⟨ns, peer, reason, none⟩).takeSlot now (.connect reason) (Nat.lt_succ_self _)
      ⟨_, Function.update_self .., rfl, rfl, rfl⟩ fun ns' peer' => ?_
    have hstates : (s.states.startConnect now ns peer reason).2.peer ns' peer' = _ :=
      NamespaceStates.startConnect_of_true (by rw [heq])
    rwa [heq] at hstates

theorem Live.Inv.joinPeers {peers : List EndpointId} {joinGossip : Bool} (h : s.Inv) :
    (s.joinPeers o ns peers joinGossip).Inv := by
  unfold Live.joinPeers
  split
  · exact h
  · induction peers generalizing s with
    | nil => exact h
    | cons peer peers ih => exact ih h.syncWithPeer

theorem Live.Inv.startSync {peers : List EndpointId} {joinGossip : Bool} (h : s.Inv) :
    (s.startSync o ns peers joinGossip).Inv := by
  unfold Live.startSync
  split
  · exact h.joinPeers
  · split
    · refine Live.Inv.joinPeers (h.setStates fun ns' peer' start origin hrun => ?_)
      rwa [NamespaceStates.peer_insert] at hrun
    · exact h

theorem Live.Inv.leave (h : s.Inv) : ({ s with states := (s.states.remove ns).2 } : Live).Inv := by
  refine h.setStates fun ns' peer' start origin hrun => ?_
  rw [NamespaceStates.peer_remove] at hrun
  split at hrun
  · cases hrun
  · exact hrun

theorem Live.Inv.onSyncReport (h : s.Inv) : (s.onSyncReport o peer ns).Inv := by
  unfold Live.onSyncReport
  split
  · exact h
  · split
    · exact h.syncWithPeer
    · exact h

/-- An accept task moves on; `inbox` is the inbox after it. -/
theorem Live.Inv.setAccept {t u : AcceptTask} {inbox : List ToLiveActor} (h : s.Inv)
    (ht : s.accepts task = some t)
    (hpeer : u.peer = t.peer)
      (hstage : ∀ ns filter, t.stage = .replied ns (.allow filter) → u.stage = t.stage)
    (hreports : ∀ res, u.ended = some res → u.Reports res)
    (hrequests : ∀ id ns peer, .acceptSyncRequest id ns peer ∈ inbox →
      (id = task ∧ u.peer = peer ∧ u.stage = .requested ns) ∨
        (id ≠ task ∧ .acceptSyncRequest id ns peer ∈ s.inbox))
    (honce : (inbox.filterMap ToLiveActor.task).Nodup) :
    ({ s with accepts := Function.update s.accepts task (some u), inbox := inbox } : Live).Inv where
  tasks :=
    { dials_lt := h.tasks.dials_lt
      accepts_lt := by
        intro id v hv
        rcases update_some_cases hv with ⟨rfl, -⟩ | ⟨-, hv⟩
        · exact h.tasks.accepts_lt id t ht
        · exact h.tasks.accepts_lt id v hv
      owner_lt := h.tasks.owner_lt
      requests := by
        intro id ns peer hmem
        rcases hrequests id ns peer hmem with ⟨rfl, hrest⟩ | ⟨hne, hold⟩
        · exact ⟨u, Function.update_self .., hrest⟩
        · obtain ⟨v, hv, hrest⟩ := h.tasks.requests id ns peer hold
          exact ⟨v, (Function.update_of_ne hne ..).trans hv, hrest⟩
      once := honce
      reports := by
        intro id v res hv hres
        rcases update_some_cases hv with ⟨-, rfl⟩ | ⟨-, hv⟩
        · exact hreports res hres
        · exact h.tasks.reports id v res hv hres }
  owned := by
    intro ns peer
    refine (h.owned ns peer).frame (fun _ _ hrun => hrun) rfl ?_
    intro id start origin _ _ hfor
    cases origin with
    | connect reason => exact hfor
    | accept =>
      obtain ⟨v, filter, hv, hp, hst⟩ := hfor
      by_cases hid : id = task
      · subst hid
        rw [ht] at hv
        cases hv
        exact ⟨u, filter, Function.update_self .., hpeer.trans hp, (hstage ns filter hst).trans hst⟩
      · exact ⟨v, filter, (Function.update_of_ne hid ..).trans hv, hp, hst⟩

/-- A dial task ends. -/
theorem Live.Inv.setDial {t u : DialTask} (h : s.Inv) (ht : s.dials task = some t)
    (hns : u.namespace = t.namespace) (hpeer : u.peer = t.peer) (hreason : u.reason = t.reason) :
    ({ s with dials := Function.update s.dials task (some u) } : Live).Inv where
  tasks :=
    { dials_lt := by
        intro id v hv
        rcases update_some_cases hv with ⟨rfl, -⟩ | ⟨-, hv⟩
        · exact h.tasks.dials_lt id t ht
        · exact h.tasks.dials_lt id v hv
      accepts_lt := h.tasks.accepts_lt
      owner_lt := h.tasks.owner_lt
      requests := h.tasks.requests
      once := h.tasks.once
      reports := h.tasks.reports }
  owned := by
    intro ns peer
    refine (h.owned ns peer).frame (fun _ _ hrun => hrun) rfl ?_
    intro id start origin _ _ hfor
    cases origin with
    | accept => exact hfor
    | connect reason =>
      obtain ⟨v, hv, hn, hp, hr⟩ := hfor
      by_cases hid : id = task
      · subst hid
        rw [ht] at hv
        cases hv
        exact ⟨u, Function.update_self .., hns.trans hn, hpeer.trans hp, hreason.trans hr⟩
      · exact ⟨v, (Function.update_of_ne hid ..).trans hv, hn, hp, hr⟩

/-- The requests of the other tasks stay where they are. -/
theorem requests_of_ne {t : AcceptTask} (h : s.Inv) (ht : s.accepts task = some t)
    (hstage : ∀ ns, t.stage ≠ .requested ns) {id : ExchangeId}
      (hmem : .acceptSyncRequest id ns peer ∈ s.inbox) :
    id ≠ task := by
  rintro rfl
  obtain ⟨v, hv, -, hst⟩ := h.tasks.requests id ns peer hmem
  rw [ht] at hv
  cases hv
  exact hstage ns hst

theorem mem_filterMap_task {inbox : List ToLiveActor} {id : ExchangeId} :
    id ∈ inbox.filterMap ToLiveActor.task ↔ ∃ ns peer,
      ToLiveActor.acceptSyncRequest id ns peer ∈ inbox := by
  rw [List.mem_filterMap]
  constructor
  · rintro ⟨msg, hmem, htask⟩
    cases msg with
    | acceptSyncRequest id' ns peer =>
      cases htask
      exact ⟨ns, peer, hmem⟩
    | _ => cases htask
  · rintro ⟨ns, peer, hmem⟩
    exact ⟨_, hmem, rfl⟩

/-- An accept request, taken out of the inbox. -/
theorem Live.Inv.acceptSyncRequest {t : AcceptTask} (h : s.Inv) (ht : s.accepts task = some t)
    (hpeer : t.peer = peer)
    (hstage : t.stage = .requested ns) (hout : task ∉ s.inbox.filterMap ToLiveActor.task) :
    (s.acceptSyncRequest me now task ns peer).Inv := by
  have hreplied (outcome : AcceptOutcome) : ({ s with
      accepts := Function.update s.accepts task (some { t with stage := .replied ns outcome }), inbox :=
        s.inbox } : Live).Inv := by
    refine h.setAccept ht rfl (fun ns' filter hst => ?_) (fun res hres => ?_)
      (fun id ns' peer' hmem => .inr ⟨?_, hmem⟩)
      h.tasks.once
    · rw [hstage] at hst
      cases hst
    · -- the task has ended while it waited: its result is not a refusal
      obtain ⟨hpair, href⟩ := h.tasks.reports task t res ht hres
      refine ⟨?_, fun p ns' heq => ?_⟩
      · rw [hpair, hstage]
        rfl
      · obtain ⟨_, hst⟩ := href p ns' heq
        rw [hstage] at hst
        cases hst
    · rintro rfl
      exact hout (mem_filterMap_task.2 ⟨ns', peer', hmem⟩)
  have hmap (outcome : AcceptOutcome) : (s.accepts task).map ({ · with stage := .replied ns outcome }) =
      some { t with stage := .replied ns outcome } := by rw [ht]; rfl
  unfold Live.acceptSyncRequest
  split
  next filter states heq =>
    unfold Live.reply
    rw [hmap]
    refine (hreplied (.allow filter)).takeSlot now .accept (h.tasks.accepts_lt task t ht)
      ⟨_, filter, Function.update_self .., hpeer, rfl⟩ fun ns' peer' => ?_
    have hstates : (s.states.acceptRequest now me ns peer).2.peer ns' peer' = _ :=
      NamespaceStates.acceptRequest_of_allow (by rw [heq])
    rwa [heq] at hstates
  next reason states heq =>
    unfold Live.reply
    rw [hmap]
    refine (hreplied (.reject reason)).setStates fun ns' peer' start origin hrun => ?_
    have hstates : (s.states.acceptRequest now me ns peer).2.peer ns' peer' = _ :=
      NamespaceStates.acceptRequest_of_reject (by rw [heq])
    rw [heq] at hstates
    rwa [hstates] at hrun

theorem Live.Inv.dropMessage {msg : ToLiveActor} {inbox : List ToLiveActor} (h : s.Inv)
    (hin : s.inbox = msg :: inbox) : ({ s with inbox := inbox } : Live).Inv where
  tasks :=
    { dials_lt := h.tasks.dials_lt
      accepts_lt := h.tasks.accepts_lt
      owner_lt := h.tasks.owner_lt
      requests := fun id ns peer hmem => h.tasks.requests id ns peer
        (by rw [hin]; exact List.mem_cons_of_mem _ hmem)
      once := by
        have honce := h.tasks.once
        rw [hin, List.filterMap_cons] at honce
        split at honce
        · exact honce
        · exact honce.of_cons
      reports := h.tasks.reports }
  owned := by
    intro ns peer
    exact (h.owned ns peer).frame (fun _ _ hrun => hrun) rfl fun _ _ _ _ _ hfor => hfor.congr rfl rfl

/-- The actor takes a message. -/
theorem Live.Inv.onActorMessage {msg : ToLiveActor} {inbox : List ToLiveActor} (h : s.Inv)
    (hin : s.inbox = msg :: inbox) :
    (({ s with inbox := inbox } : Live).onActorMessage me o msg).Inv := by
  have hdrop := h.dropMessage hin
  cases msg with
  | startSync ns peers joinGossip => exact hdrop.startSync
  | leave ns => exact hdrop.leave
  | handleConnection peer => exact hdrop.handleConnection
  | acceptSyncRequest task ns peer =>
    obtain ⟨t, ht, hpeer, hstage⟩ := h.tasks.requests task ns peer (by rw [hin]; exact List.mem_cons_self)
    have honce := h.tasks.once
    rw [hin] at honce
    exact hdrop.acceptSyncRequest ht hpeer hstage (List.nodup_cons.1 honce).1
  | incomingSyncReport peer ns => exact hdrop.onSyncReport
  | neighborUp ns peer => exact hdrop.syncWithPeer
  | other => exact hdrop

/-- A finished sync: the slot of its pair need not have been owned. -/
theorem Live.Inv.onSyncFinished {origin : Origin} {result : SyncResult} (htasks : s.Tasks)
    (howned : ∀ ns' peer', ¬ (ns' = ns ∧ peer' = peer) → s.Owned ns' peer') :
    (s.onSyncFinished o ns peer origin result).Inv := by
  have hinv (states : NamespaceStates)
      (hstates : ∀ ns' peer',
        states.peer ns' peer' = (s.states.finish o.now ns peer origin result).2.peer ns' peer') :
      ({ s with states := states } : Live).Inv := by
    refine ⟨⟨htasks.dials_lt, htasks.accepts_lt, htasks.owner_lt, htasks.requests, htasks.once,
      htasks.reports⟩, ?_⟩
    intro ns' peer'
    by_cases hp : ns' = ns ∧ peer' = peer
    · obtain ⟨rfl, rfl⟩ := hp
      intro start origin' hrun
      rw [Live.slot, hstates, NamespaceStates.finish_idle] at hrun
      cases hrun
    · refine (howned ns' peer' hp).frame (fun start origin' hrun => ?_) rfl
        fun _ _ _ _ _ hfor => hfor.congr rfl rfl
      rwa [Live.slot, hstates, NamespaceStates.finish_of_ne hp] at hrun
  unfold Live.onSyncFinished
  split
  next states heq => exact hinv states fun ns' peer' => by rw [heq]
  next start resync states heq =>
    have hready := hinv (states.setMayEmitReady ns o.queued) fun ns' peer' => by
      rw [NamespaceStates.peer_setMayEmitReady, heq]
    dsimp only
    split
    · exact hready.syncWithPeer
    · exact hready

/-! ## Joined tasks -/

/-- A result on which `on_sync_via_accept_finished` does nothing. -/
def Silent (res : AcceptRes) : Prop := res.pair = none ∨ ∃ p ns, res = .error (.abort p ns .alreadySyncing)

/-- What the end of an accept task does: nothing, or a finished sync of the pair its result names. -/
theorem onSyncViaAcceptFinished_cases (s : Live) (o : Outside) (res : AcceptRes) :
    (Silent res ∧ s.onSyncViaAcceptFinished o res = s) ∨ ∃ ns peer result, ¬ Silent res ∧
      res.pair = some (ns, peer) ∧ s.onSyncViaAcceptFinished o res = s.onSyncFinished o ns peer .accept
        result := by
  cases res with
  | ok details => exact .inr ⟨_, _, .ok details, by simp [Silent, AcceptRes.pair], rfl, rfl⟩
  | error err =>
    cases err with
    | connect e => exact .inl ⟨.inl rfl, rfl⟩
    | «open» p e => exact .inl ⟨.inl rfl, rfl⟩
    | abort p ns reason =>
      cases reason with
      | alreadySyncing => exact .inl ⟨.inr ⟨p, ns, rfl⟩, rfl⟩
      | notFound =>
        exact .inr ⟨ns, p, _, by simp [Silent, AcceptRes.pair, AcceptError.peer, AcceptError.namespace],
          rfl, rfl⟩
      | internalServerError =>
        exact .inr ⟨ns, p, _, by simp [Silent, AcceptRes.pair, AcceptError.peer, AcceptError.namespace],
          rfl, rfl⟩
    | sync p ns e =>
      cases ns with
      | none => exact .inl ⟨.inl rfl, rfl⟩
      | some ns =>
        exact .inr ⟨ns, p, _, by simp [Silent, AcceptRes.pair, AcceptError.peer, AcceptError.namespace],
          rfl, rfl⟩
    | close p ns e =>
      cases ns with
      | none => exact .inl ⟨.inl rfl, rfl⟩
      | some ns =>
        exact .inr ⟨ns, p, _, by simp [Silent, AcceptRes.pair, AcceptError.peer, AcceptError.namespace],
          rfl, rfl⟩

/-- What the end of a dial does: an abort, or a finished sync. -/
theorem onSyncViaConnectFinished_cases (s : Live) (o : Outside) (ns : NamespaceId) (peer : EndpointId)
    (reason : SyncReason) (res : Except ConnectError SyncFinished) :
    (res = .error (.remoteAbort .alreadySyncing) ∧ s.onSyncViaConnectFinished o ns peer reason res =
      { s with states := (s.states.abortConnect ns peer reason).2 }) ∨
    ∃ result, res ≠ .error (.remoteAbort .alreadySyncing) ∧
      s.onSyncViaConnectFinished o ns peer reason res = s.onSyncFinished o ns peer
        (.connect reason) result := by
  cases res with
  | ok details => exact .inr ⟨_, by simp, rfl⟩
  | error err =>
    cases err with
    | remoteAbort abort =>
      cases abort with
      | alreadySyncing => exact .inl ⟨rfl, rfl⟩
      | notFound => exact .inr ⟨_, by simp, rfl⟩
      | internalServerError => exact .inr ⟨_, by simp, rfl⟩
    | connect e => exact .inr ⟨_, by simp, rfl⟩
    | sync e => exact .inr ⟨_, by simp, rfl⟩
    | close e => exact .inr ⟨_, by simp, rfl⟩

/-- `abort_connect` leaves a slot running only when it runs for something else. -/
theorem running_abortConnect {reason : SyncReason} {start : U64} {origin : Origin}
    (h : ((s.states.abortConnect ns peer reason).2.peer ns' peer').state = .running start origin) :
    s.slot ns' peer' = .running start origin ∧ ¬ (ns' = ns ∧ peer' = peer ∧ origin = .connect reason) := by
  rw [NamespaceStates.peer_abortConnect] at h
  split at h
  next hp =>
    obtain ⟨rfl, rfl⟩ := hp
    unfold PeerState.abortConnect at h
    split at h
    next start' running heq =>
      split at h
      next => cases h
      next hne =>
        refine ⟨h, fun hc => hne ?_⟩
        rw [heq] at h
        cases h
        exact Origin.connect.inj hc.2.2
    next hnot => exact ⟨h, fun hc => hnot start reason (by rw [← hc.2.2]; exact h)⟩
  next hp => exact ⟨h, fun hc => hp ⟨hc.1, hc.2.1⟩⟩

theorem Live.Tasks.dropDial (h : s.Tasks) :
    ({ s with dials := Function.update s.dials task none } : Live).Tasks :=
  { dials_lt := fun id t ht => h.dials_lt id t (of_update_none ht)
    accepts_lt := h.accepts_lt
    owner_lt := h.owner_lt
    requests := h.requests
    once := h.once
    reports := h.reports }

/-- Dropping a dial loses only the slot that runs for it. -/
theorem Live.RunsFor.dropDial {t : DialTask} {id : ExchangeId} {origin : Origin}
    (ht : s.dials task = some t)
    (hfor : s.RunsFor id ns peer origin)
      (hne : ¬ (ns = t.namespace ∧ peer = t.peer ∧ origin = .connect t.reason)) :
    ({ s with dials := Function.update s.dials task none } : Live).RunsFor id ns peer origin := by
  cases origin with
  | accept => exact hfor
  | connect reason =>
    obtain ⟨u, hu, hns, hpeer, hreason⟩ := hfor
    by_cases hid : id = task
    · subst hid
      rw [ht] at hu
      cases hu
      exact absurd ⟨hns.symm, hpeer.symm, by rw [hreason]⟩ hne
    · exact ⟨u, (Function.update_of_ne hid ..).trans hu, hns, hpeer, hreason⟩

/-- A dial task is joined. -/
theorem Live.Inv.joinDial {t : DialTask} {res : Except ConnectError SyncFinished} (h : s.Inv)
    (ht : s.dials task = some t) :
    (({ s with dials := Function.update s.dials task none } : Live).onSyncViaConnectFinished o
      t.namespace t.peer t.reason
      res).Inv := by
  rcases onSyncViaConnectFinished_cases ({ s with dials := Function.update s.dials task none } : Live) o
    t.namespace t.peer
    t.reason res with ⟨-, heq⟩ | ⟨result, -, heq⟩
  · rw [heq]
    refine ⟨⟨h.tasks.dropDial.dials_lt, h.tasks.accepts_lt, h.tasks.owner_lt, h.tasks.requests,
      h.tasks.once,
      h.tasks.reports⟩, fun ns peer => (h.owned ns peer).frame (fun start origin hrun => ?_) rfl ?_⟩
    · exact (running_abortConnect hrun).1
    · intro id start origin hrun _ hfor
      exact (hfor.dropDial ht (running_abortConnect hrun).2).congr rfl rfl
  · rw [heq]
    refine Live.Inv.onSyncFinished h.tasks.dropDial fun ns peer hp => ?_
    refine (h.owned ns peer).frame (fun _ _ hrun => hrun) rfl fun id start origin _ _ hfor => ?_
    exact hfor.dropDial ht fun hc => hp ⟨hc.1, hc.2.1⟩

theorem Live.Tasks.dropAccept (h : s.Tasks) (hin : s.inbox = []) :
    ({ s with accepts := Function.update s.accepts task none } : Live).Tasks :=
  { dials_lt := h.dials_lt
    accepts_lt := fun id t ht => h.accepts_lt id t (of_update_none ht)
    owner_lt := h.owner_lt
    requests := by
      intro id ns peer hmem
      have : ToLiveActor.acceptSyncRequest id ns peer ∈ s.inbox := hmem
      rw [hin] at this
      cases this
    once := h.once
    reports := fun id t res ht hres => h.reports id t res (of_update_none ht) hres }

/-- Dropping an accept task loses only the slot of the pair its result names. -/
theorem Live.RunsFor.dropAccept {t : AcceptTask} {res : AcceptRes} {id : ExchangeId} {origin : Origin}
    (h : s.Tasks) (ht : s.accepts task = some t) (hres : t.ended = some res)
      (hfor : s.RunsFor id ns peer origin)
    (hne : Silent res ∨ res.pair ≠ some (ns, peer)) :
    ({ s with accepts := Function.update s.accepts task none } : Live).RunsFor id ns peer origin := by
  cases origin with
  | connect reason => exact hfor
  | accept =>
    obtain ⟨u, filter, hu, hpeer, hstage⟩ := hfor
    by_cases hid : id = task
    · subst hid
      rw [ht] at hu
      cases hu
      obtain ⟨hpair, href⟩ := h.reports id t res ht hres
      rw [hstage, hpeer] at hpair
      rcases hne with (hnone | ⟨p, ns', heq⟩) | hne
      · rw [hpair] at hnone
        cases hnone
      · obtain ⟨_, hst⟩ := href p ns' heq
        rw [hstage] at hst
        cases hst
      · exact absurd hpair hne
    · exact ⟨u, filter, (Function.update_of_ne hid ..).trans hu, hpeer, hstage⟩

/-- An accept task is joined, with nothing in the inbox. -/
theorem Live.Inv.joinAccept {t : AcceptTask} {res : AcceptRes} (h : s.Inv) (hin : s.inbox = [])
    (ht : s.accepts task = some t) (hres : t.ended = some res) :
    (({ s with accepts := Function.update s.accepts task none } : Live).onSyncViaAcceptFinished o
      res).Inv := by
  rcases onSyncViaAcceptFinished_cases
    ({ s with accepts := Function.update s.accepts task none } : Live) o res with
    ⟨hsilent, heq⟩ | ⟨ns, peer, result, -, hpair, heq⟩
  · rw [heq]
    refine ⟨h.tasks.dropAccept hin, fun ns peer => (h.owned ns peer).frame (fun _ _ hrun => hrun) rfl ?_⟩
    exact fun id start origin _ _ hfor => hfor.dropAccept h.tasks ht hres (.inl hsilent)
  · rw [heq]
    refine Live.Inv.onSyncFinished (h.tasks.dropAccept hin) fun ns' peer' hp => ?_
    refine (h.owned ns' peer').frame (fun _ _ hrun => hrun) rfl fun id start origin _ _ hfor => ?_
    refine hfor.dropAccept h.tasks ht hres (.inr fun hc => hp ?_)
    rw [hpair, Option.some.injEq, Prod.mk.injEq] at hc
    exact ⟨hc.1.symm, hc.2.symm⟩

/-! ## Steps and runs -/

theorem answer_alreadySyncing {stage : Stage} {verdict : Verdict}
    (h : stage.answer verdict = some (.reject .alreadySyncing)) :
      ∃ ns, stage = .replied ns (.reject .alreadySyncing) := by
  cases stage with
  | replied ns outcome =>
    refine ⟨ns, ?_⟩
    cases outcome with
    | reject reason => cases verdict <;> (cases h; rfl)
    | allow filter =>
      cases verdict with
      | given access => cases access <;> cases h
      | _ => cases h
  | _ => cases h

/-- The result of a task that has called its callback as its stage says. -/
theorem reports_handleConnection {stage : Stage} {verdict : Verdict} {script : Script}
    (h : (Net.handleConnection peer (fun _ => stage.answer verdict) script).1.called = stage.calls) :
    (⟨peer, stage, some (Net.handleConnection peer (fun _ => stage.answer verdict)
      script).2⟩ : AcceptTask).Reports
      (Net.handleConnection peer (fun _ => stage.answer verdict) script).2 := by
  have hsettled := handleConnection_settled peer (fun _ => stage.answer verdict) script
  refine ⟨?_, fun p ns heq => answer_alreadySyncing (hsettled.refusal p ns _ heq)⟩
  rw [hsettled.pair, h]

/-- A message from outside joins the inbox. -/
theorem Live.Inv.send {msg : ToLiveActor} (h : s.Inv) (htask : msg.task = none) :
    ({ s with inbox := s.inbox ++ [msg] } : Live).Inv := by
  have hrequests : ∀ id ns peer, .acceptSyncRequest id ns peer ∈ s.inbox ++ [msg] →
      .acceptSyncRequest id ns peer ∈ s.inbox := by
    intro id ns peer hmem
    rcases List.mem_append.1 hmem with hmem | hmem
    · exact hmem
    · rw [← List.mem_singleton.1 hmem] at htask
      cases htask
  refine ⟨⟨h.tasks.dials_lt, h.tasks.accepts_lt, h.tasks.owner_lt,
    fun id ns peer hmem => h.tasks.requests id ns peer (hrequests id ns peer hmem), ?_, h.tasks.reports⟩,
    fun ns peer => (h.owned ns peer).frame (fun _ _ hrun => hrun) rfl fun _ _ _ _ _ hfor => hfor.congr
      rfl rfl⟩
  simpa [List.filterMap_append, htask] using h.tasks.once

/-- An accept task asks for the decision. -/
theorem Live.Inv.request (h : s.Inv) (ht : s.accepts task = some ⟨peer, .called ns, none⟩) :
    ({ s with
      accepts := Function.update s.accepts task (some ⟨peer, .requested ns, none⟩)
      inbox := s.inbox ++ [.acceptSyncRequest task ns peer] } : Live).Inv := by
  have hother : ∀ {id ns' peer'}, .acceptSyncRequest id ns' peer' ∈ s.inbox → id ≠ task :=
    fun hmem => requests_of_ne h ht (fun _ hst => by cases hst) hmem
  refine h.setAccept ht rfl (fun _ _ hst => by cases hst) (fun _ hres => by cases hres)
    (fun id ns' peer' hmem => ?_) ?_
  · rcases List.mem_append.1 hmem with hmem | hmem
    · exact .inr ⟨hother hmem, hmem⟩
    · cases List.mem_singleton.1 hmem
      exact .inl ⟨rfl, rfl, rfl⟩
  · rw [List.filterMap_append]
    refine List.nodup_append.2 ⟨h.tasks.once, List.nodup_singleton _, fun id hid id' hid' heq => ?_⟩
    obtain ⟨ns', peer', hmem⟩ := mem_filterMap_task.1 hid
    exact hother hmem (heq.trans (List.mem_singleton.1 hid'))

/-- An accept task ends. -/
theorem Live.Inv.endAccept {stage : Stage} {verdict : Verdict} {script : Script} (h : s.Inv)
    (ht : s.accepts task = some ⟨peer, stage, none⟩)
    (hcalled : (Net.handleConnection peer (fun _ => stage.answer verdict) script).1.called = stage.calls) :
    ({ s with accepts := Function.update s.accepts task (some ⟨peer, stage,
      some (Net.handleConnection peer (fun _ => stage.answer verdict) script).2⟩) } : Live).Inv := by
  refine h.setAccept ht rfl (fun _ _ _ => rfl) (fun res hres => ?_) (fun id ns' peer' hmem => ?_) h.tasks.once
  · cases hres
    exact reports_handleConnection hcalled
  · by_cases hid : id = task
    · subst hid
      obtain ⟨t, ht', hpeer, hstage⟩ := h.tasks.requests id ns' peer' hmem
      rw [ht] at ht'
      cases ht'
      exact .inl ⟨rfl, hpeer, hstage⟩
    · exact .inr ⟨hid, hmem⟩

/-- Step: every action keeps the invariant. -/
theorem Live.Inv.step {a : Action} (h : s.Inv) (hstep : step me s a = some s') : s'.Inv := by
  cases a with
  | send msg =>
    have hmsg : msg.task = none ∧ s' = { s with inbox := s.inbox ++ [msg] } := by
      cases msg <;> cases hstep <;> exact ⟨rfl, rfl⟩
    obtain ⟨htask, rfl⟩ := hmsg
    exact h.send htask
  | receive o =>
    simp only [PdnStore.Engine.step] at hstep
    split at hstep
    next => cases hstep
    next hin =>
      cases hstep
      exact h.onActorMessage hin
  | call task ns =>
    simp only [PdnStore.Engine.step] at hstep
    split at hstep
    next peer ht =>
      cases hstep
      exact h.setAccept ht rfl (fun _ _ hst => by cases hst) (fun _ hres => by cases hres)
        (fun id ns' peer' hmem => .inr ⟨requests_of_ne h ht (fun _ hst => by cases hst) hmem, hmem⟩)
          h.tasks.once
    next => cases hstep
  | request task =>
    simp only [PdnStore.Engine.step] at hstep
    split at hstep
    next peer ns ht =>
      cases hstep
      exact h.request ht
    next => cases hstep
  | endDial task access res =>
    simp only [PdnStore.Engine.step] at hstep
    split at hstep
    next ns peer reason ht =>
      cases hstep
      exact h.setDial ht rfl rfl rfl
    next => cases hstep
  | endAccept task verdict script =>
    simp only [PdnStore.Engine.step] at hstep
    split at hstep
    next peer stage ht =>
      split at hstep
      next hcalled =>
        cases hstep
        exact h.endAccept ht hcalled
      next => cases hstep
    next => cases hstep
  | joinDial task o =>
    obtain ⟨t, res, ht, -, rfl⟩ := step_joinDial hstep
    exact h.joinDial ht
  | joinAccept task o =>
    obtain ⟨t, res, hin, ht, hres, rfl⟩ := step_joinAccept hstep
    exact h.joinAccept hin ht hres

/-- Run: the invariant holds in every reachable state. -/
theorem inv_runs {as : List Action} (h : runs (step me) default as = some s) : s.Inv :=
  invariant_runs (fun _ _ _ h hstep => h.step hstep) as inv_default h

/-- A dial or accept task of the pair that has not reported its end. -/
def Live.Unreported (s : Live) (id : ExchangeId) (ns : NamespaceId) (peer : EndpointId) : Prop :=
  (∃ t, s.dials id = some t ∧ t.namespace = ns ∧ t.peer = peer) ∨
    ∃ t, s.accepts id = some t ∧ t.stage.calls = [ns] ∧ t.peer = peer

theorem Live.RunsFor.unreported {id : ExchangeId} {origin : Origin} (h : s.RunsFor id ns peer origin) :
    s.Unreported id ns peer := by
  cases origin with
  | connect reason =>
    obtain ⟨t, ht, hns, hpeer, -⟩ := h
    exact .inl ⟨t, ht, hns, hpeer⟩
  | accept =>
    obtain ⟨t, filter, ht, hpeer, hstage⟩ := h
    exact .inr ⟨t, ht, by rw [hstage]; rfl, hpeer⟩

end Invariant

/-- **No pair stays busy without an exchange**, in every reachable state: a running slot has a task that has not
reported, and once all tasks of the pair have, the slot is idle and the next trigger goes through. -/
theorem running_slot_has_task (me : EndpointId) (as : List Action) {s : Live}
    (h : runs (step me) default as = some s) (ns : NamespaceId) (peer : EndpointId) :
    (∀ start origin, s.slot ns peer = .running start origin → ∃ id, s.Unreported id ns peer) ∧
    ((∀ id, ¬ s.Unreported id ns peer) → s.slot ns peer = .idle ∧
      ∀ now reason, (s.states.startConnect now ns peer reason).1 = s.states.isSyncing ns) := by
  have howned := (inv_runs h).owned ns peer
  have hbusy : ∀ start origin, s.slot ns peer = .running start origin → ∃ id, s.Unreported id ns peer := by
    intro start origin hrun
    obtain ⟨id, -, hfor⟩ := howned start origin hrun
    exact ⟨id, hfor.unreported⟩
  refine ⟨hbusy, fun hnone => ?_⟩
  have hidle : s.slot ns peer = .idle := by
    cases hslot : s.slot ns peer with
    | idle => rfl
    | running start origin =>
      obtain ⟨id, hid⟩ := hbusy start origin hslot
      exact absurd hid (hnone id)
  refine ⟨hidle, fun now reason => ?_⟩
  rw [NamespaceStates.startConnect_fst]
  simp only [Live.slot] at hidle
  simp [hidle]

/-! ## A run -/

/-- Everything outside succeeds, at the time `now`. -/
def sampleOutside (now : U64) : Outside := ⟨now, true, [], true, true, false⟩

/-- The actor joins the zero namespace and dials `peer`. -/
def dialRun (peer : EndpointId) : List Action :=
  [.send (.startSync zeros32 [peer] false), .receive (sampleOutside 0)]

/-- The dial is denied by the provider, and joined. -/
def deniedRun (peer : EndpointId) : List Action :=
  dialRun peer ++ [.endDial 0 .deny (.error (.connect "")), .joinDial 0 (sampleOutside 1)]

/-- While the dial runs the slot is busy; when it has been joined the slot is idle. -/
theorem running_slot_has_task_sample :
    (∃ s, runs (step zeros32) default (dialRun zeros32) = some s ∧
      s.slot zeros32 zeros32 = .running 0 (.connect .directJoin) ∧ ∃ id, s.Unreported id zeros32 zeros32) ∧
    ∃ s, runs (step zeros32) default (deniedRun zeros32) = some s ∧ s.slot zeros32 zeros32 = .idle ∧
      (s.states.startConnect 2 zeros32 zeros32 .newNeighbor).1 = true := by
  constructor
  · have hslot : (runs (step zeros32) default (dialRun zeros32)).map (·.slot zeros32 zeros32) =
        some (.running 0 (.connect .directJoin)) := by decide +kernel
    obtain ⟨s, hs, hrun⟩ := Option.map_eq_some_iff.1 hslot
    exact ⟨s, hs, hrun, (running_slot_has_task zeros32 (dialRun zeros32) hs zeros32 zeros32).1 _ _ hrun⟩
  · have hfinal : (runs (step zeros32) default (deniedRun zeros32)).map (fun s =>
        (s.nextId, (s.dials 0).isNone, (s.accepts 0).isNone, s.states.isSyncing zeros32)) =
          some (1, true, true, true) := by
      decide +kernel
    obtain ⟨s, hs, hvals⟩ := Option.map_eq_some_iff.1 hfinal
    simp only [Prod.mk.injEq, Option.isNone_iff_eq_none] at hvals
    obtain ⟨hnext, hdial, haccept, hsync⟩ := hvals
    have hnone : ∀ id, ¬ s.Unreported id zeros32 zeros32 := by
      -- only the id 0 was given out
      rintro id (⟨t, ht, -⟩ | ⟨t, ht, -⟩)
      · have hlt := (inv_runs hs).tasks.dials_lt id t ht
        rw [hnext, Nat.lt_one_iff] at hlt
        rw [hlt, hdial] at ht
        cases ht
      · have hlt := (inv_runs hs).tasks.accepts_lt id t ht
        rw [hnext, Nat.lt_one_iff] at hlt
        rw [hlt, haccept] at ht
        cases ht
    obtain ⟨hidle, hstart⟩ := (running_slot_has_task zeros32 (deniedRun zeros32) hs zeros32 zeros32).2 hnone
    exact ⟨s, hs, hidle, (hstart 2 .newNeighbor).trans hsync⟩

end PdnStore.Engine

import PdnStore.Net.Accept

/-!
# The sync state per namespace and peer (engine/state.rs)

| here | there |
| --- | --- |
| `PeerState`        | `PeerState` (`state.rs:182`), one slot: idle, or running with its origin |
| `NamespaceStates`  | the two maps, namespace to peer to slot; absent peers are `PeerState::default()` |
| `withEntry`        | `self.entry(namespace, node)` (`state.rs:173`) and what is done with the entry it lends |

`&mut self` methods return their result and the new state. The clock is handed in.
-/

namespace PdnStore.Engine

open Net

abbrev EndpointId := PublicKey

/-- `SyncReason` (state.rs:16). -/
inductive SyncReason where
  | directJoin
  | newNeighbor
  | syncReport
  | resync
deriving DecidableEq, Repr

/-- `Origin` (state.rs:29). -/
inductive Origin where
  | connect (reason : SyncReason)
  | accept
deriving DecidableEq, Repr

/-- `SyncState` (state.rs:38). -/
inductive SyncState where
  | idle
  | running (start : U64) (origin : Origin)
deriving DecidableEq, Repr

/-- The error of a finished sync, whichever side it is from. -/
inductive SyncError where
  | connect (error : ConnectError)
  | accept (error : AcceptError)

abbrev SyncResult := Except SyncError SyncFinished

/-- `PeerState` (state.rs:182). -/
structure PeerState where
  state : SyncState
  resyncRequested : Bool
  lastSync : Option (U64 × SyncResult)

instance : Inhabited PeerState := ⟨⟨.idle, false, none⟩⟩

/-- `SyncDirection` (state.rs:280). -/
inductive SyncDirection where
  | accept
  | connect
deriving DecidableEq, Repr

/-- `expected_sync_direction` (state.rs:285). -/
def expectedSyncDirection (selfNodeId otherNodeId : EndpointId) : SyncDirection :=
  if selfNodeId.val > otherNodeId.val then .accept else .connect

namespace PeerState

/-- `PeerState::set_sync_running` (state.rs:270). -/
def setSyncRunning (p : PeerState) (now : U64) (origin : Origin) : PeerState :=
  { p with state := .running now origin, resyncRequested := false }

/-- `PeerState::finish` (state.rs:189); a mismatch of the origin is only logged. -/
def finish (p : PeerState) (now : U64) (_origin : Origin) (result : SyncResult) :
    Option (U64 × Bool) × PeerState :=
  let start := match p.state with
    | .running start _ => some start
    | .idle => none
  (start.map (·, p.resyncRequested), { p with lastSync := some (now, result), state := .idle })

/-- `PeerState::start_connect` (state.rs:218). -/
def startConnect (p : PeerState) (now : U64) (reason : SyncReason) : Bool × PeerState :=
  match p.state with
  | .running .. => (false, if reason = .syncReport then { p with resyncRequested := true } else p)
  | .idle => (true, p.setSyncRunning now (.connect reason))

/-- `PeerState::abort_connect` (state.rs:237). -/
def abortConnect (p : PeerState) (reason : SyncReason) : Bool × PeerState :=
  match p.state with
  | .running _ (.connect running) =>
    if running = reason then (true, { p with state := .idle }) else (false, p)
  | _ => (false, p)

/-- The decision of `PeerState::accept_request` (state.rs:251-263). -/
def acceptOutcome (p : PeerState) (me node : EndpointId) : AcceptOutcome :=
  match p.state with
  | .idle => .allow none
  | .running _ .accept => .reject .alreadySyncing
  | .running _ (.connect _) =>
    match expectedSyncDirection me node with
    | .accept => .allow none
    | .connect => .reject .alreadySyncing

/-- `PeerState::accept_request` (state.rs:250). -/
def acceptRequest (p : PeerState) (now : U64) (me node : EndpointId) : AcceptOutcome × PeerState :=
  match p.acceptOutcome me node with
  | .allow filter => (.allow filter, p.setSyncRunning now .accept)
  | .reject reason => (.reject reason, p)

end PeerState

/-- `NamespaceState` (state.rs:53). -/
structure NamespaceState where
  nodes : EndpointId → Option PeerState
  mayEmitReady : Bool

/-- `NamespaceStates` (state.rs:50). -/
structure NamespaceStates where
  map : NamespaceId → Option NamespaceState

namespace NamespaceStates

instance : Inhabited NamespaceStates := ⟨⟨fun _ => none⟩⟩

/-- `NamespaceStates::is_syncing` (state.rs:60). -/
def isSyncing (s : NamespaceStates) (ns : NamespaceId) : Bool := (s.map ns).isSome

/-- `NamespaceStates::insert` (state.rs:65). -/
def insert (s : NamespaceStates) (ns : NamespaceId) : NamespaceStates :=
  match s.map ns with
  | some _ => s
  | none => ⟨Function.update s.map ns (some ⟨fun _ => none, false⟩)⟩

/-- `NamespaceStates::remove` (state.rs:166). -/
def remove (s : NamespaceStates) (ns : NamespaceId) : Bool × NamespaceStates :=
  (s.isSyncing ns, ⟨Function.update s.map ns none⟩)

/-- The state of a pair; a slot that is absent is idle. -/
def peer (s : NamespaceStates) (ns : NamespaceId) (node : EndpointId) : PeerState :=
  ((s.map ns).bind (·.nodes node)).getD default

/-- `NamespaceStates::entry` (state.rs:173), with the use made of the entry. -/
def withEntry {β : Type} (s : NamespaceStates) (ns : NamespaceId) (node : EndpointId) (absent : β)
    (f : PeerState → β × PeerState) : β × NamespaceStates :=
  match s.map ns with
  | none => (absent, s)
  | some n =>
    let (res, p) := f ((n.nodes node).getD default)
    (res, ⟨Function.update s.map ns (some { n with nodes := Function.update n.nodes node (some p) })⟩)

/-- `NamespaceStates::start_connect` (state.rs:72). -/
def startConnect (s : NamespaceStates) (now : U64) (ns : NamespaceId) (node : EndpointId)
    (reason : SyncReason) :
    Bool × NamespaceStates :=
  s.withEntry ns node false (·.startConnect now reason)

/-- `NamespaceStates::abort_connect` (state.rs:94). -/
def abortConnect (s : NamespaceStates) (ns : NamespaceId) (node : EndpointId) (reason : SyncReason) :
    Bool × NamespaceStates :=
  s.withEntry ns node false (·.abortConnect reason)

/-- `NamespaceStates::accept_request` (state.rs:109). -/
def acceptRequest (s : NamespaceStates) (now : U64) (me : EndpointId) (ns : NamespaceId)
    (node : EndpointId) :
    AcceptOutcome × NamespaceStates :=
  s.withEntry ns node (.reject .notFound) (·.acceptRequest now me node)

/-- `NamespaceStates::finish` (state.rs:128). -/
def finish (s : NamespaceStates) (now : U64) (ns : NamespaceId) (node : EndpointId) (origin : Origin)
    (result : SyncResult) : Option (U64 × Bool) × NamespaceStates :=
  s.withEntry ns node none (·.finish now origin result)

/-- `NamespaceStates::set_may_emit_ready` (state.rs:144). -/
def setMayEmitReady (s : NamespaceStates) (ns : NamespaceId) (value : Bool) : NamespaceStates :=
  match s.map ns with
  | none => s
  | some n => ⟨Function.update s.map ns (some { n with mayEmitReady := value })⟩

/-- `NamespaceStates::may_emit_ready` (state.rs:155); the flag is lowered. -/
def mayEmitReady (s : NamespaceStates) (ns : NamespaceId) : Option Bool × NamespaceStates :=
  match s.map ns with
  | none => (none, s)
  | some n =>
    if n.mayEmitReady then
      (some true, ⟨Function.update s.map ns (some { n with mayEmitReady := false })⟩)
    else (some false, s)

/-- The flag as it stands; lowered for a namespace that is absent. -/
def readyFlag (s : NamespaceStates) (ns : NamespaceId) : Bool := (s.map ns).any (·.mayEmitReady)

/-! ## The state of a pair after each method -/

section Frames

variable {s : NamespaceStates} {ns ns' : NamespaceId} {node node' : EndpointId}

/-- The methods go to one namespace each, and leave an absent one absent. -/
theorem map_withEntry {β : Type} {absent : β} {f : PeerState → β × PeerState} :
    (s.withEntry ns node absent f).2.map ns' = if ns' = ns then
      (s.map ns).map fun n => { n with nodes := Function.update n.nodes node (some (f (s.peer ns node)).2) }
    else s.map ns' := by
  unfold withEntry peer
  by_cases h : ns' = ns
  · subst h
    cases hns : s.map ns' <;> simp [hns]
  · cases hns : s.map ns <;> simp [h]

theorem map_setMayEmitReady {value : Bool} : (s.setMayEmitReady ns value).map ns' =
    if ns' = ns then (s.map ns).map fun n => { n with mayEmitReady := value } else s.map ns' := by
  unfold setMayEmitReady
  by_cases h : ns' = ns
  · subst h
    cases hns : s.map ns' <;> simp [hns]
  · cases hns : s.map ns <;> simp [h]

theorem map_insert : (s.insert ns).map ns' =
    if ns' = ns then some ((s.map ns).getD ⟨fun _ => none, false⟩) else s.map ns' := by
  unfold insert
  by_cases h : ns' = ns
  · subst h
    cases hns : s.map ns' <;> simp [hns]
  · cases hns : s.map ns <;> simp [h]

theorem map_remove : (s.remove ns).2.map ns' = if ns' = ns then none else s.map ns' := by
  by_cases h : ns' = ns
  · subst h
    simp [remove]
  · simp [remove, h]

theorem map_mayEmitReady : (s.mayEmitReady ns).2.map ns' =
    if ns' = ns then (s.map ns).map fun n => { n with mayEmitReady := false } else s.map ns' := by
  unfold mayEmitReady
  by_cases h : ns' = ns
  · subst h
    rcases hns : s.map ns' with _ | ⟨nodes, _ | _⟩ <;> simp [hns]
  · rcases hns : s.map ns with _ | ⟨nodes, _ | _⟩ <;> simp [h]

theorem peer_of_not_syncing (h : s.isSyncing ns = false) : s.peer ns node = default := by
  have hnone : s.map ns = none := by simpa [isSyncing] using h
  simp [peer, hnone]

/-- The pair asked about, when its namespace is in the sync set, and no other. -/
theorem peer_withEntry {β : Type} {absent : β} {f : PeerState → β × PeerState} :
    (s.withEntry ns node absent f).2.peer ns' node' =
      if s.isSyncing ns = true ∧ ns' = ns ∧ node' = node then
        (f (s.peer ns node)).2 else s.peer ns' node' := by
  rw [peer, map_withEntry, isSyncing]
  by_cases h : ns' = ns
  · subst h
    by_cases h' : node' = node
    · subst h'
      cases hns : s.map ns' <;> simp [hns, peer]
    · cases hns : s.map ns' <;> simp [hns, h', peer]
  · simp [h, peer]

theorem withEntry_fst {β : Type} {absent : β} {f : PeerState → β × PeerState} :
    (s.withEntry ns node absent f).1 = if s.isSyncing ns = true then
      (f (s.peer ns node)).1 else absent := by
  unfold withEntry isSyncing
  cases hns : s.map ns with
  | none => simp
  | some n => simp [peer, hns]

theorem isSyncing_withEntry {β : Type} {absent : β} {f : PeerState → β × PeerState} :
    (s.withEntry ns node absent f).2.isSyncing ns' = s.isSyncing ns' := by
  rw [isSyncing, isSyncing, map_withEntry]
  by_cases h : ns' = ns <;> simp [h]

@[simp] theorem peer_setMayEmitReady {value : Bool} :
    (s.setMayEmitReady ns value).peer ns' node' = s.peer ns' node' := by
  rw [peer, peer, map_setMayEmitReady]
  by_cases h : ns' = ns <;> simp [h, Option.bind_map]

@[simp] theorem isSyncing_setMayEmitReady {value : Bool} :
    (s.setMayEmitReady ns value).isSyncing ns' = s.isSyncing ns' := by
  rw [isSyncing, isSyncing, map_setMayEmitReady]
  by_cases h : ns' = ns <;> simp [h]

/-- Joining a namespace starts every slot of it idle. -/
@[simp] theorem peer_insert : (s.insert ns).peer ns' node' = s.peer ns' node' := by
  rw [peer, peer, map_insert]
  by_cases h : ns' = ns
  · subst h
    cases s.map ns' <;> simp
  · simp [h]

/-- Leaving a namespace drops its slots. -/
theorem peer_remove : (s.remove ns).2.peer ns' node' = if ns' = ns then default else s.peer ns' node' := by
  rw [peer, map_remove]
  by_cases h : ns' = ns <;> simp [h, peer]

variable {now : U64} {reason : SyncReason}

/-- A trigger goes through when the namespace is in the sync set and the slot is idle. -/
theorem startConnect_fst : (s.startConnect now ns node reason).1 =
    (s.isSyncing ns && decide ((s.peer ns node).state = .idle)) := by
  rw [startConnect, withEntry_fst, PeerState.startConnect]
  cases s.isSyncing ns <;> cases (s.peer ns node).state <;> simp

theorem startConnect_of_true (h : (s.startConnect now ns node reason).1 = true) :
    (s.startConnect now ns node reason).2.peer ns' node' =
      if ns' = ns ∧ node' = node then (s.peer ns node).setSyncRunning now
        (.connect reason) else s.peer ns' node' := by
  rw [startConnect_fst, Bool.and_eq_true, decide_eq_true_eq] at h
  rw [startConnect, peer_withEntry, PeerState.startConnect, h.2]
  simp [h.1]

/-- A refused trigger leaves every slot as it is. -/
theorem startConnect_of_false (h : (s.startConnect now ns node reason).1 = false) :
    ((s.startConnect now ns node reason).2.peer ns' node').state = (s.peer ns' node').state := by
  rw [startConnect_fst, Bool.and_eq_false_iff, decide_eq_false_iff_not] at h
  rw [startConnect, peer_withEntry]
  split
  next hpair =>
    obtain ⟨hsync, rfl, rfl⟩ := hpair
    have hrun := h.resolve_left (by simp [hsync])
    rw [PeerState.startConnect]
    cases hstate : (s.peer ns' node').state with
    | idle => exact absurd hstate hrun
    | running start origin => cases reason <;> simp [hstate]
  next => rfl

theorem startConnect_of_ne (h : ¬ (ns' = ns ∧ node' = node)) :
    (s.startConnect now ns node reason).2.peer ns' node' = s.peer ns' node' := by
  rw [startConnect, peer_withEntry, if_neg fun hpair => h hpair.2]

theorem acceptRequest_of_allow {me : EndpointId} {filter : Option (SignedEntry → Bool)}
    (h : (s.acceptRequest now me ns node).1 = .allow filter) :
    (s.acceptRequest now me ns node).2.peer ns' node' = if ns' = ns ∧ node' = node then
      (s.peer ns node).setSyncRunning now .accept else s.peer ns' node' := by
  rw [acceptRequest, withEntry_fst] at h
  rw [acceptRequest, peer_withEntry]
  split at h
  next hsync =>
    unfold PeerState.acceptRequest at h ⊢
    split at h
    next => simp [hsync]
    next => cases h
  next => cases h

theorem acceptRequest_of_reject {me : EndpointId} {abort : AbortReason}
    (h : (s.acceptRequest now me ns node).1 = .reject abort) :
    (s.acceptRequest now me ns node).2.peer ns' node' = s.peer ns' node' := by
  rw [acceptRequest, withEntry_fst] at h
  rw [acceptRequest, peer_withEntry]
  split
  next hpair =>
    obtain ⟨hsync, rfl, rfl⟩ := hpair
    rw [if_pos hsync] at h
    unfold PeerState.acceptRequest at h ⊢
    split at h
    next => cases h
    next => simp
  next => rfl

theorem peer_abortConnect : (s.abortConnect ns node reason).2.peer ns' node' =
    if ns' = ns ∧ node' = node then ((s.peer ns node).abortConnect reason).2 else s.peer ns' node' := by
  rw [abortConnect, peer_withEntry]
  cases hsync : s.isSyncing ns with
  | true => simp
  | false =>
    split
    next hpair => cases hpair.1
    next =>
      split
      next hpair =>
        obtain ⟨rfl, rfl⟩ := hpair
        rw [peer_of_not_syncing hsync]
        rfl
      next => rfl

/-- `finish` leaves the slot of the pair idle, whatever it held. -/
theorem finish_idle {origin : Origin} {result : SyncResult} :
    ((s.finish now ns node origin result).2.peer ns node).state = .idle := by
  rw [finish, peer_withEntry]
  cases hsync : s.isSyncing ns with
  | true => simp [PeerState.finish]
  | false => simp [peer_of_not_syncing hsync]; rfl

/-- `finish` on a running slot reports its start and the resync flag. -/
theorem finish_of_running {origin origin' : Origin} {result : SyncResult} {start : U64}
    (h : (s.peer ns node).state = .running start origin') : s.isSyncing ns = true ∧
      (s.finish now ns node origin result).1 = some (start, (s.peer ns node).resyncRequested) := by
  have hsync : s.isSyncing ns = true := by
    by_contra hc
    rw [peer_of_not_syncing (by simpa using hc)] at h
    cases h
  rw [finish, withEntry_fst, PeerState.finish, h]
  simp [hsync]

theorem finish_of_ne {origin : Origin} {result : SyncResult} (h : ¬ (ns' = ns ∧ node' = node)) :
    (s.finish now ns node origin result).2.peer ns' node' = s.peer ns' node' := by
  rw [finish, peer_withEntry, if_neg fun hpair => h hpair.2]

/-! ## The flag after each method -/

@[simp] theorem readyFlag_insert : (s.insert ns).readyFlag ns' = s.readyFlag ns' := by
  rw [readyFlag, readyFlag, map_insert]
  by_cases h : ns' = ns
  · subst h
    cases s.map ns' <;> simp
  · simp [h]

theorem readyFlag_remove : (s.remove ns).2.readyFlag ns' = if ns' = ns then false else s.readyFlag ns' := by
  rw [readyFlag, map_remove]
  by_cases h : ns' = ns <;> simp [h, readyFlag]

@[simp] theorem readyFlag_withEntry {β : Type} {absent : β} {f : PeerState → β × PeerState} :
    (s.withEntry ns node absent f).2.readyFlag ns' = s.readyFlag ns' := by
  rw [readyFlag, readyFlag, map_withEntry]
  by_cases h : ns' = ns <;> simp [h, Option.any_map]

theorem readyFlag_setMayEmitReady {value : Bool} (h : (s.setMayEmitReady ns value).readyFlag ns' = true) :
    (ns' = ns ∧ value = true) ∨ s.readyFlag ns' = true := by
  rw [readyFlag, map_setMayEmitReady] at h
  by_cases hns : ns' = ns
  · cases hmap : s.map ns with
    | none => simp [hns, hmap] at h
    | some n => exact .inl ⟨hns, by simpa [hns, hmap] using h⟩
  · exact .inr (by simpa [readyFlag, hns] using h)

theorem mayEmitReady_fst : (s.mayEmitReady ns).1 = some true ↔ s.readyFlag ns = true := by
  unfold mayEmitReady readyFlag
  cases hns : s.map ns with
  | none => simp
  | some n => cases hflag : n.mayEmitReady <;> simp [hflag]

theorem readyFlag_mayEmitReady :
    (s.mayEmitReady ns).2.readyFlag ns' = if ns' = ns then false else s.readyFlag ns' := by
  rw [readyFlag, map_mayEmitReady]
  by_cases h : ns' = ns
  · cases s.map ns <;> simp [h]
  · simp [h, readyFlag]

end Frames

end NamespaceStates

/-- Endpoint ids in the order of the tie-break. -/
def lowNode : EndpointId := zeros32

def highNode : EndpointId := ⟨1 :: List.replicate 31 0, rfl⟩

example : expectedSyncDirection highNode lowNode = .accept ∧
  expectedSyncDirection lowNode highNode = .connect := by decide

end PdnStore.Engine

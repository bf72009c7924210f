import PdnStore.Actor.Books

/-!
# What a turn does to the sync sessions of an actor (actor.rs:1106-1160, 1233-1284)

A session start registers a snapshot under a fresh id. Three things take a registration out again: its
release message, the sweep over registrations nobody refers to, and the close of the replica. `turn_cases`
says so for whole turns: every invariant of the sessions is read off it.
-/

namespace PdnStore.Actors

open Ranger Sync Fs

/-- No session is new, and one that goes is released, abandoned, or closed with its replica. -/
structure KeepsSessions (a a' : Actor) (released : SyncSessionId → Prop) : Prop where
  actorId : a'.actorId = a.actorId
  nextSessionId : a'.nextSessionId = a.nextSessionId
  sub : ∀ id s, a'.sessions.get? id = some s → a.sessions.get? id = some s
  kept : ∀ id s, a.sessions.get? id = some s →
    a'.sessions.get? id = some s ∨ released id ∨ a'.states.get? s.ns = none
  /-- a session that stays keeps its replica open -/
  opened : ∀ id s, a'.sessions.get? id = some s → (a.states.get? s.ns).isSome → (a'.states.get? s.ns).isSome

theorem KeepsSessions.mono {a a' : Actor} {released released' : SyncSessionId → Prop}
    (h : KeepsSessions a a' released) (himp : ∀ id, released id → released' id) :
    KeepsSessions a a' released' where
  actorId := h.actorId
  nextSessionId := h.nextSessionId
  sub := h.sub
  kept id s hs := (h.kept id s hs).imp_right (Or.imp_left (himp id))
  opened := h.opened

namespace Actor

variable {a : Actor} {released : SyncSessionId → Prop}

/-- The sessions are as they were, and no replica was closed. -/
theorem keepsSessions_of_eq {a' : Actor} (hid : a'.actorId = a.actorId)
    (hnext : a'.nextSessionId = a.nextSessionId) (hsessions : a'.sessions = a.sessions)
    (hopen : ∀ ns, (a.states.get? ns).isSome → (a'.states.get? ns).isSome) : KeepsSessions a a' released where
  actorId := hid
  nextSessionId := hnext
  sub id s h := by rwa [hsessions] at h
  kept id s h := .inl (by rwa [hsessions])
  opened id s _ h := hopen s.ns h

theorem isSome_insert {states : SortedMap NamespaceId OpenReplica} {ns ns' : NamespaceId} (state : OpenReplica)
    (h : (states.get? ns').isSome) : ((states.insert ns state).get? ns').isSome := by
  by_cases hns : ns' = ns
  · simp [hns]
  · rwa [SortedMap.get?_insert_of_ne hns]

/-- Closing a replica for good takes its sessions, and no other. -/
theorem keepsSessions_closed (a : Actor) (ns : NamespaceId) {a' : Actor} (hid : a'.actorId = a.actorId)
    (hnext : a'.nextSessionId = a.nextSessionId) (hstates : a'.states.get? ns = none)
    (hother : ∀ ns', ns' ≠ ns → a'.states.get? ns' = a.states.get? ns')
    (hsessions : a'.sessions = a.sessions.filter fun s => s.2.ns ≠ ns) : KeepsSessions a a' released where
  actorId := hid
  nextSessionId := hnext
  sub id s h := by
    rw [hsessions] at h
    exact (SortedMap.get?_filter_eq_some.1 h).1
  kept id s h := by
    by_cases hns : s.ns = ns
    · exact .inr (.inr (by rw [hns]; exact hstates))
    · refine .inl ?_
      rw [hsessions]
      exact SortedMap.get?_filter_eq_some.2 ⟨h, by simpa using hns⟩
  opened id s h hopen := by
    rw [hsessions] at h
    have hns : s.ns ≠ ns := by simpa using (SortedMap.get?_filter_eq_some.1 h).2
    rwa [hother s.ns hns]

theorem keepsSessions_close (a : Actor) (ns : NamespaceId) : KeepsSessions a (a.close ns).1 released := by
  rcases a.close_cases ns with ⟨hnone, heq⟩ | ⟨state, -, -, heq⟩ | ⟨state, hget, -, heq⟩
  · rw [heq]
    exact a.keepsSessions_closed ns rfl rfl hnone (fun _ _ => rfl) rfl
  · rw [heq]
    refine a.keepsSessions_closed ns rfl rfl (SortedMap.get?_filter_eq_none (by simp)) ?_ rfl
    intro ns' hns
    exact SortedMap.get?_filter_eq_self (by simp [hns])
  · rw [heq]
    exact keepsSessions_of_eq rfl rfl rfl fun _ => isSome_insert _

theorem keepsSessions_contentsOnly {r : Actor × Reply} (h : ContentsOnly a r) :
    KeepsSessions a r.1 released ∧ ∀ id, r.2 ≠ .session (.ok id) := by
  refine ⟨?_, h.reply⟩
  obtain ⟨store, states, heq, -, -, hstates⟩ := h.actor
  rw [heq]
  exact keepsSessions_of_eq rfl rfl rfl fun ns h => (hstates.isSome ns).trans h

/-! ## The sweep -/

theorem reclaim_cases (a : Actor) (now : Instant) (alive : SyncSessionId → Bool) :
    a.reclaimAbandonedSessions now alive = a ∨ a.reclaimAbandonedSessions now alive =
      { a with lastSessionSweep := now, sessions := a.sessions.filter fun s => alive s.1 } := by
  unfold reclaimAbandonedSessions
  split
  · exact .inl rfl
  · split
    · exact .inl rfl
    · exact .inr rfl

theorem store_reclaim (a : Actor) (now : Instant) (alive : SyncSessionId → Bool) :
    (a.reclaimAbandonedSessions now alive).store = a.store := by
  rcases a.reclaim_cases now alive with heq | heq <;> rw [heq]

theorem get?_reclaim_of_alive (a : Actor) {now : Instant} {alive : SyncSessionId → Bool} {id : SyncSessionId}
    {s : SessionSnapshot} (hs : a.sessions.get? id = some s) (halive : alive id = true) :
    (a.reclaimAbandonedSessions now alive).sessions.get? id = some s := by
  rcases a.reclaim_cases now alive with heq | heq
  · rwa [heq]
  · rw [heq]
    exact SortedMap.get?_filter_eq_some.2 ⟨hs, halive⟩

/-- The sweep spares what someone refers to. -/
theorem keepsSessions_reclaim (a : Actor) (now : Instant) (alive : SyncSessionId → Bool) :
    KeepsSessions a (a.reclaimAbandonedSessions now alive) fun id => alive id = false := by
  rcases a.reclaim_cases now alive with heq | heq
  · rw [heq]
    exact keepsSessions_of_eq rfl rfl rfl fun _ h => h
  · rw [heq]
    refine ⟨rfl, rfl, ?_, ?_, fun _ _ _ h => h⟩
    · intro id s hs
      exact (SortedMap.get?_filter_eq_some.1 hs).1
    · intro id s hs
      cases halive : alive id with
      | false => exact .inr (.inl rfl)
      | true => exact .inl (SortedMap.get?_filter_eq_some.2 ⟨hs, halive⟩)

/-! ## Actions and whole turns -/

variable [Blake3] [Ed25519] (verify : SignedEntry → Bool) (closed : ChannelId → Bool)

omit [Blake3] in
theorem keepsSessions_open (a : Actor) (ns : NamespaceId) (sync : Bool) (subscribe : Option ChannelId) :
    KeepsSessions a (a.open ns sync subscribe).1 released := by
  rcases a.open_cases ns sync subscribe with ⟨err, -, heq⟩ | ⟨raw, capability, -, -, -, heq⟩ | ⟨state, -, heq⟩
  · rw [heq]
    exact keepsSessions_of_eq rfl rfl rfl fun _ h => h
  · rw [heq]
    exact keepsSessions_of_eq rfl rfl rfl fun _ => isSome_insert _
  · rw [heq]
    exact keepsSessions_of_eq rfl rfl rfl fun _ => isSome_insert _

omit [Blake3] in
theorem keepsSessions_importNamespace (a : Actor) (c : Capability) :
    KeepsSessions a (a.importNamespace c).1 released := by
  unfold importNamespace
  split
  · exact keepsSessions_of_eq rfl rfl rfl fun _ h => h
  · dsimp only
    split
    · split
      · exact keepsSessions_of_eq rfl rfl rfl fun _ h => h
      · exact keepsSessions_of_eq rfl rfl rfl fun _ => isSome_insert _
    · exact keepsSessions_of_eq rfl rfl rfl fun _ h => h

/-- Every other action starts no session. -/
theorem keepsSessions_onAction (a : Actor) {action : Action} (h : ∀ ns, action ≠ .replica ns .syncSessionStart) :
    KeepsSessions a (a.onAction verify closed action).1 (fun id => action = .syncSessionEnd id) ∧
      ∀ id, (a.onAction verify closed action).2 ≠ .session (.ok id) := by
  cases action with
  | importNamespace c => exact ⟨a.keepsSessions_importNamespace c, by simp [onAction]⟩
  | flushStore => exact ⟨keepsSessions_of_eq rfl rfl rfl fun _ h => h, by simp [onAction]⟩
  | syncSessionEnd session =>
    refine ⟨⟨rfl, rfl, ?_, ?_, fun _ _ _ h => h⟩, by simp [onAction]⟩
    · intro id s hs
      exact (SortedMap.get?_filter_eq_some.1 hs).1
    · intro id s hs
      by_cases hid : id = session
      · exact .inr (.inl (by rw [hid]))
      · exact .inl (SortedMap.get?_filter_eq_some.2 ⟨hs, by simpa using hid⟩)
  | shutdown =>
    refine ⟨⟨rfl, rfl, ?_, ?_, ?_⟩, by simp [onAction]⟩
    · intro id s hs
      cases hs
    · intro id s _
      exact .inr (.inr rfl)
    · intro id s hs
      cases hs
  | replica ns action =>
    show KeepsSessions a (a.onReplicaAction verify closed ns action).1 _ ∧
      ∀ id, (a.onReplicaAction verify closed ns action).2 ≠ _
    cases action with
    | syncSessionStart => exact absurd rfl (h ns)
    | «open» sync subscribe => exact ⟨a.keepsSessions_open ns sync subscribe, by simp [onReplicaAction]⟩
    | close => exact ⟨a.keepsSessions_close ns, by simp [onReplicaAction]⟩
    | dropReplica =>
      -- the store is written after the close, the sessions are not
      have hclose : KeepsSessions a (a.close ns).1 fun id => Action.replica ns .dropReplica = .syncSessionEnd id :=
        a.keepsSessions_close ns
      exact ⟨⟨hclose.actorId, hclose.nextSessionId, hclose.sub, hclose.kept, hclose.opened⟩,
        by simp [onReplicaAction]⟩
    | setSync sync =>
      rcases a.setSync_cases verify closed ns sync with ⟨err, heq⟩ | ⟨state, -, heq⟩
      · rw [heq]
        exact ⟨keepsSessions_of_eq rfl rfl rfl fun _ h => h, by simp⟩
      · rw [heq]
        exact ⟨keepsSessions_of_eq rfl rfl rfl fun _ => isSome_insert _, by simp⟩
    | _ => exact keepsSessions_contentsOnly (a.contentsOnly_onReplicaAction verify closed ns rfl)

/-- **What a turn does to the sessions**: it starts one under a fresh id, over the tables of the store, on an
open replica; or it starts none. -/
theorem turn_cases (a : Actor) (t : Turn) :
    (∃ ns, t.action = .replica ns .syncSessionStart ∧ (a.states.get? ns).isSome ∧
      a.turn verify t = ({ a.reclaimAbandonedSessions t.now t.alive with
        nextSessionId := a.nextSessionId + 1
        sessions := (a.reclaimAbandonedSessions t.now t.alive).sessions.insert ⟨a.actorId, a.nextSessionId⟩
          ⟨ns, a.store.tables⟩ }, .session (.ok ⟨a.actorId, a.nextSessionId⟩))) ∨
    (KeepsSessions a (a.turn verify t).1 (fun id => t.alive id = false ∨ t.action = .syncSessionEnd id) ∧
      ∀ id, (a.turn verify t).2 ≠ .session (.ok id)) := by
  have hb := a.keepsSessions_reclaim t.now t.alive
  have hstates := a.states_reclaim t.now t.alive
  have hstore := a.store_reclaim t.now t.alive
  unfold turn
  split
  · exact .inr ⟨keepsSessions_of_eq rfl rfl rfl fun _ h => h, by simp⟩
  · by_cases hstart : ∃ ns, t.action = .replica ns .syncSessionStart
    · obtain ⟨ns, haction⟩ := hstart
      simp only [haction, onAction]
      rcases syncSessionStart_cases verify t.closed (a.reclaimAbandonedSessions t.now t.alive) ns with
        ⟨err, heq⟩ | ⟨hopen, heq⟩
      · rw [heq]
        exact .inr ⟨hb.mono fun _ => .inl, by simp⟩
      · rw [hstates] at hopen
        rw [heq, hb.actorId, hb.nextSessionId, hstore]
        exact .inl ⟨ns, rfl, hopen, rfl⟩
    · obtain ⟨hkeep, hreply⟩ := keepsSessions_onAction verify t.closed (a.reclaimAbandonedSessions t.now t.alive)
        (fun ns h => hstart ⟨ns, h⟩)
      refine .inr ⟨⟨hkeep.actorId.trans hb.actorId, hkeep.nextSessionId.trans hb.nextSessionId, ?_, ?_, ?_⟩,
        hreply⟩
      · intro id s hs
        exact hb.sub id s (hkeep.sub id s hs)
      · intro id s hs
        cases halive : t.alive id with
        | false => exact .inr (.inl (.inl rfl))
        | true =>
          have hkept : (a.reclaimAbandonedSessions t.now t.alive).sessions.get? id = some s :=
            a.get?_reclaim_of_alive hs halive
          exact (hkeep.kept id s hkept).imp_right (Or.imp_left .inr)
      · intro id s hs hopen
        rw [← hstates] at hopen
        exact hkeep.opened id s hs hopen

end Actor

end PdnStore.Actors

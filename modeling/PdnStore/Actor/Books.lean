import PdnStore.Store.Capability
import PdnStore.Actor.State

/-!
# Open replicas: three records of the same facts (actor.rs:1266-1302, 1391-1446)

Which replicas are open is kept by the store (`open_replicas`, which guards `remove_replica`) and by the
actor (`states`, which counts the handles); what a replica may do is kept on disk (`namespaces`) and in the
actor's `states`. The actions that write them have early returns: `drop_replica` gives up a handle before it
finds the replica still open, an import that upgrades a capability patches the open replica after the table,
an open may fail after the store was asked. `Books` says the records agree, and every turn keeps it.
Subscribers are nobody's business but the channels' (`SameReplicas`).
-/

namespace PdnStore.Actors

open Ranger Sync Fs

/-! ## The same replicas, the same books -/

/-- An open replica but for its subscribers. -/
def OpenReplica.unwatched (state : OpenReplica) : OpenReplica := { state with subscribers := [] }

/-- The same replicas are open, whoever subscribes to them. -/
def SameReplicas (states states' : SortedMap NamespaceId OpenReplica) : Prop :=
  ∀ ns, (states'.get? ns).map OpenReplica.unwatched = (states.get? ns).map OpenReplica.unwatched

theorem capability_subscribeOpt (state : OpenReplica) (subscribe : Option ChannelId) :
    (state.subscribeOpt subscribe).capability = state.capability := by
  cases subscribe <;> rfl

theorem handles_subscribeOpt (state : OpenReplica) (subscribe : Option ChannelId) :
    (state.subscribeOpt subscribe).handles = state.handles := by
  cases subscribe <;> rfl

theorem unwatched_announce (state : OpenReplica) (closed : ChannelId → Bool) (events : List Event) :
    (state.announce closed events).unwatched = state.unwatched := by
  unfold OpenReplica.announce
  split <;> rfl

namespace SameReplicas

variable {states states' : SortedMap NamespaceId OpenReplica} {ns : NamespaceId}

theorem refl (states : SortedMap NamespaceId OpenReplica) : SameReplicas states states := fun _ => rfl

theorem isSome (h : SameReplicas states states') (ns : NamespaceId) :
    (states'.get? ns).isSome = (states.get? ns).isSome := by
  rw [← Option.isSome_map (f := OpenReplica.unwatched), h ns, Option.isSome_map]

theorem exists_get? (h : SameReplicas states states') {state' : OpenReplica} (hget : states'.get? ns = some state') :
    ∃ state, states.get? ns = some state ∧ state'.unwatched = state.unwatched := by
  have hmap := h ns
  rw [hget, Option.map_some] at hmap
  obtain ⟨state, hstate, heq⟩ := Option.map_eq_some_iff.1 hmap.symm
  exact ⟨state, hstate, heq.symm⟩

theorem insert {state state' : OpenReplica} (hget : states.get? ns = some state)
    (hsame : state'.unwatched = state.unwatched) : SameReplicas states (states.insert ns state') := by
  intro ns'
  by_cases hns : ns' = ns
  · subst hns
    rw [SortedMap.get?_insert_self, hget, Option.map_some, Option.map_some, hsame]
  · rw [SortedMap.get?_insert_of_ne hns]

end SameReplicas

/-- Two actors with the same books. -/
structure SameBooks (a a' : Actor) : Prop where
  states : SameReplicas a.states a'.states
  openReplicas : a'.store.openReplicas = a.store.openReplicas
  namespaces : a'.store.namespaces = a.store.namespaces

theorem SameBooks.refl (a : Actor) : SameBooks a a := ⟨.refl _, rfl, rfl⟩

namespace Actor

variable {a : Actor} {ns : NamespaceId}

theorem states_reclaim (a : Actor) (now : Instant) (alive : SyncSessionId → Bool) :
    (a.reclaimAbandonedSessions now alive).states = a.states := by
  unfold reclaimAbandonedSessions
  split
  · rfl
  · split <;> rfl

theorem sameBooks_reclaim (a : Actor) (now : Instant) (alive : SyncSessionId → Bool) :
    SameBooks a (a.reclaimAbandonedSessions now alive) := by
  unfold reclaimAbandonedSessions
  split
  · exact .refl a
  · split
    · exact .refl a
    · exact ⟨.refl _, rfl, rfl⟩

/-! ## What a call finds, and what a close does -/

theorem of_get {states : SortedMap NamespaceId OpenReplica} {state : OpenReplica}
    (h : OpenReplicas.get states ns = .ok state) : states.get? ns = some state := by
  unfold OpenReplicas.get at h
  cases hget : states.get? ns with
  | none =>
    rw [hget] at h
    cases h
  | some found =>
    rw [hget] at h
    rw [Except.ok.inj h]

/-- A replica that may sync is open. -/
theorem of_ensureSyncing {states : SortedMap NamespaceId OpenReplica} {state : OpenReplica}
    (h : OpenReplicas.ensureSyncing states ns = .ok state) : states.get? ns = some state ∧ state.sync = true := by
  obtain ⟨found, hget, h⟩ := bind_eq_ok.1 h
  split at h
  · cases h
    exact ⟨of_get hget, by assumption⟩
  · cases h

/-- `close` finds the replica closed, gives up its last handle, or another one. -/
theorem close_cases (a : Actor) (ns : NamespaceId) :
    (a.states.get? ns = none ∧ a.close ns = ({ a with
      sessions := a.sessions.filter fun s => s.2.ns ≠ ns
      store := a.store.closeReplica ns }, true)) ∨
    (∃ state, a.states.get? ns = some state ∧ state.handles = 1 ∧ a.close ns = ({ a with
      states := a.states.filter fun r => r.1 ≠ ns
      sessions := a.sessions.filter fun s => s.2.ns ≠ ns
      store := a.store.closeReplica ns }, true)) ∨
    (∃ state, a.states.get? ns = some state ∧ state.handles ≠ 1 ∧ a.close ns = ({ a with
      states := a.states.insert ns { state with handles := state.handles - 1 } }, false)) := by
  unfold close OpenReplicas.close
  cases hget : a.states.get? ns with
  | none => exact .inl ⟨rfl, rfl⟩
  | some state =>
    by_cases hone : state.handles = 1
    · exact .inr (.inl ⟨state, rfl, hone, by simp [hone]⟩)
    · have hleft : state.handles - 1 ≠ 0 := fun h => hone (sub_one_eq_zero.1 h)
      exact .inr (.inr ⟨state, rfl, hone, by simp [hleft]⟩)

theorem filter_ne_of_get?_none (h : a.states.get? ns = none) :
    (a.states.filter fun r => r.1 ≠ ns) = a.states := by
  have hall : a.states.toList.filter (fun r => decide (r.1 ≠ ns)) = a.states.toList := by
    rw [List.filter_eq_self]
    intro r hr
    simpa using SortedMap.get?_eq_none.1 h r hr
  cases hst : a.states
  rw [hst] at hall
  simp only [SortedMap.filter, hall]

theorem closeReplica_foldl (l : List (NamespaceId × OpenReplica)) (s : FsStore) :
    (l.foldl (fun store r => store.closeReplica r.1) s).namespaces = s.namespaces ∧
    ∀ ns, ns ∈ (l.foldl (fun store r => store.closeReplica r.1) s).openReplicas ↔
      ns ∈ s.openReplicas ∧ ∀ r ∈ l, r.1 ≠ ns := by
  induction l generalizing s with
  | nil => simp
  | cons q l ih =>
    obtain ⟨hns, hopen⟩ := ih (s.closeReplica q.1)
    refine ⟨hns, ?_⟩
    intro ns
    rw [List.foldl_cons, hopen]
    simp only [FsStore.closeReplica, Finset.mem_erase, List.mem_cons, forall_eq_or_imp]
    constructor
    · rintro ⟨⟨hne, hmem⟩, hall⟩
      exact ⟨hmem, Ne.symm hne, hall⟩
    · rintro ⟨hmem, hne, hall⟩
      exact ⟨⟨Ne.symm hne, hmem⟩, hall⟩

/-! ## Reading a replica, and writing what it holds -/

/-- The actions that read, or write the contents of a replica and what is kept beside them. -/
def writesContents : ReplicaAction → Bool
  | .open .. | .close | .setSync _ | .dropReplica | .syncSessionStart => false
  | _ => true

/-- What such an action leaves alone: all but the store and the subscribers, and of the store the books. -/
structure ContentsOnly (a : Actor) (r : Actor × Reply) : Prop where
  actor : ∃ store states, r.1 = { a with store := store, states := states } ∧
    store.openReplicas = a.store.openReplicas ∧ store.namespaces = a.store.namespaces ∧
    SameReplicas a.states states
  reply : ∀ id, r.2 ≠ .session (.ok id)

/-- A refusal. -/
theorem contentsOnly_self {reply : Reply} (h : ∀ id, reply ≠ .session (.ok id)) : ContentsOnly a (a, reply) :=
  ⟨⟨a.store, a.states, rfl, rfl, rfl, .refl _⟩, h⟩

/-- What is written through an open replica, and announced. -/
theorem contentsOnly_written (closed : ChannelId → Bool) {state : OpenReplica} (hget : a.states.get? ns = some state)
    (tables : Tables) (events : List Event) {reply : Reply} (h : ∀ id, reply ≠ .session (.ok id)) :
    ContentsOnly a ((a.withTables tables).withAnnounced ns state closed events, reply) :=
  ⟨⟨_, _, rfl, rfl, rfl, .insert hget (unwatched_announce state closed events)⟩, h⟩

theorem ContentsOnly.sameBooks {a : Actor} {r : Actor × Reply} (h : ContentsOnly a r) : SameBooks a r.1 := by
  obtain ⟨store, states, heq, hopen, hns, hstates⟩ := h.actor
  rw [heq]
  exact ⟨hstates, hopen, hns⟩

end Actor

/-! ## The books -/

variable [Ed25519]

/-- The three records agree. -/
structure Books (a : Actor) : Prop where
  /-- the store's set of open replicas is the actor's -/
  opened : ∀ ns, ns ∈ a.store.openReplicas ↔ (a.states.get? ns).isSome
  /-- what an open replica may do is what is stored -/
  stored : ∀ ns state, a.states.get? ns = some state → a.store.namespaces.get? ns = some state.capability.raw
  keyed : WellKeyed a.store

theorem SameBooks.books {a a' : Actor} (hsame : SameBooks a a') (h : Books a) : Books a' := by
  obtain ⟨hstates, hopen, hnamespaces⟩ := hsame
  refine ⟨?_, ?_, ?_⟩
  · intro ns
    rw [hstates.isSome, hopen]
    exact h.opened ns
  · intro ns state' hget
    obtain ⟨state, hstate, hsame⟩ := hstates.exists_get? hget
    have hcap : state'.unwatched.capability = state.unwatched.capability := by rw [hsame]
    rw [hnamespaces, show state'.capability = state.capability from hcap]
    exact h.stored ns state hstate
  · intro ns raw
    rw [hnamespaces]
    exact h.keyed ns raw

theorem books_spawn {store : FsStore} (hkeyed : WellKeyed store) (hclosed : store.openReplicas = ∅) (id : U64)
    (callbacks : Callbacks) (now : Instant) : Books (.spawn id store callbacks now) where
  opened ns := by simp [Actor.spawn, hclosed]
  stored ns state h := by cases h
  keyed := hkeyed

namespace Actor

variable {a : Actor} {ns : NamespaceId}

/-- The replica of a session reads through the snapshot the session registered. -/
theorem of_sessionReplica {session : SyncSessionId} {r : (state : OpenReplica) × Replica state.capability.id}
    (h : a.sessionReplica ns session = .ok r) : ∃ tables state, a.sessions.get? session = some ⟨ns, tables⟩ ∧
      a.states.get? ns = some state ∧ state.sync = true ∧ r = ⟨state, a.replicaOf state (some tables)⟩ := by
  obtain ⟨tables, hsnap, h⟩ := bind_eq_ok.1 h
  obtain ⟨state, hsync, h⟩ := bind_eq_ok.1 h
  cases h
  obtain ⟨hget, hflag⟩ := of_ensureSyncing hsync
  refine ⟨tables, state, ?_, hget, hflag, rfl⟩
  unfold sessionSnapshot at hsnap
  split at hsnap
  · cases hsnap
  split at hsnap
  · cases hsnap
  split at hsnap
  · cases hsnap
  rename_i entry hentry hns
  cases hsnap
  obtain rfl := not_not.1 hns
  exact hentry

/-! ## What each action does to the books -/

/-- `open` fails and changes nothing, opens the replica, or takes one more handle. -/
theorem open_cases (a : Actor) (ns : NamespaceId) (sync : Bool) (subscribe : Option ChannelId) :
    (∃ err, a.states.get? ns = none ∧ a.open ns sync subscribe = (a, .error err)) ∨
    (∃ raw capability, a.states.get? ns = none ∧ a.store.namespaces.get? ns = some raw ∧
      Capability.fromRaw raw = .ok capability ∧ a.open ns sync subscribe = ({ a with
        store := { a.store with openReplicas := Insert.insert capability.id a.store.openReplicas }
        states := a.states.insert ns ((⟨capability, [], sync, 1⟩ : OpenReplica).subscribeOpt subscribe) }, .ok ())) ∨
    (∃ state, a.states.get? ns = some state ∧ a.open ns sync subscribe = ({ a with
      states := a.states.insert ns (({ state with
        handles := state.handles + 1, sync := state.sync || sync } : OpenReplica).subscribeOpt subscribe) },
        .ok ())) := by
  unfold Actor.open FsStore.loadReplicaInfo
  cases hget : a.states.get? ns with
  | some state => exact .inr (.inr ⟨state, rfl, rfl⟩)
  | none =>
    cases hraw : a.store.namespaces.get? ns with
    | none => exact .inl ⟨_, rfl, rfl⟩
    | some raw =>
      cases hcap : Capability.fromRaw raw with
      | error err => exact .inl ⟨.open (.other err), rfl, by simp [hcap]⟩
      | ok capability => exact .inr (.inl ⟨raw, capability, rfl, rfl, hcap, by simp [hcap]⟩)

/-- An open replica is changed, not in what it may do. -/
theorem books_update (h : Books a) {state state' : OpenReplica} (hget : a.states.get? ns = some state)
    (hcap : state'.capability = state.capability) : Books { a with states := a.states.insert ns state' } := by
  refine ⟨?_, ?_, h.keyed⟩
  · intro ns'
    rw [h.opened]
    by_cases hns : ns' = ns
    · simp [hns, hget]
    · simp [SortedMap.get?_insert_of_ne hns]
  · intro ns' st hst
    rcases SortedMap.get?_insert_cases hst with ⟨rfl, rfl⟩ | ⟨-, hst⟩
    · rw [hcap]
      exact h.stored ns' state hget
    · exact h.stored ns' st hst

/-- A replica that is closed, or becomes so, is so in all records. -/
theorem books_closed (h : Books a) (ns : NamespaceId) (sessions : SortedMap SyncSessionId SessionSnapshot) :
    Books { a with
      states := a.states.filter fun r => r.1 ≠ ns
      sessions := sessions
      store := a.store.closeReplica ns } := by
  refine ⟨?_, ?_, h.keyed⟩
  · intro ns'
    show ns' ∈ a.store.openReplicas.erase ns ↔ ((a.states.filter fun r => r.1 ≠ ns).get? ns').isSome
    rw [Finset.mem_erase, h.opened]
    by_cases hns : ns' = ns
    · subst hns
      rw [SortedMap.get?_filter_eq_none (by simp)]
      simp
    · rw [SortedMap.get?_filter_eq_self (by simp [hns])]
      simp [hns]
  · intro ns' st hst
    exact h.stored ns' st (SortedMap.get?_filter_eq_some.1 hst).1

theorem books_close (h : Books a) (ns : NamespaceId) : Books (a.close ns).1 := by
  rcases a.close_cases ns with ⟨hnone, heq⟩ | ⟨state, -, -, heq⟩ | ⟨state, hget, hpos, heq⟩
  · have hb := books_closed h ns (a.sessions.filter fun s => s.2.ns ≠ ns)
    rw [filter_ne_of_get?_none hnone] at hb
    rwa [heq]
  · rw [heq]
    exact books_closed h ns _
  · rw [heq]
    exact books_update h hget rfl

theorem books_open (h : Books a) (ns : NamespaceId) (sync : Bool) (subscribe : Option ChannelId) :
    Books (a.open ns sync subscribe).1 := by
  rcases a.open_cases ns sync subscribe with ⟨err, -, heq⟩ | ⟨raw, capability, hnone, hraw, hcap, heq⟩ |
    ⟨state, hget, heq⟩
  · rwa [heq]
  · -- the row is a capability for this namespace, so the store marks the right one open
    obtain ⟨c, rfl, rfl⟩ := h.keyed ns raw hraw
    rw [Capability.fromRaw_raw] at hcap
    obtain rfl : capability = c := (Except.ok.inj hcap).symm
    rw [heq]
    refine ⟨?_, ?_, h.keyed⟩
    · intro ns'
      rw [Finset.mem_insert, h.opened]
      by_cases hns : ns' = capability.id
      · simp [hns]
      · simp [hns, SortedMap.get?_insert_of_ne hns]
    · intro ns' st hst
      rcases SortedMap.get?_insert_cases hst with ⟨rfl, rfl⟩ | ⟨-, hst⟩
      · rw [capability_subscribeOpt]
        exact hraw
      · exact h.stored ns' st hst
  · rw [heq]
    exact books_update h hget (capability_subscribeOpt _ _)

/-- Only a closed replica is removed, so no open one loses its capability. -/
theorem books_removeReplica (h : Books a) (ns : NamespaceId) :
    Books { a with store := (a.store.removeReplica ns).1 } := by
  refine ⟨?_, ?_, h.keyed.removeReplica ns⟩
  · intro ns'
    rw [← h.opened]
    unfold FsStore.removeReplica
    split <;> rfl
  · intro ns' st hst
    have hstored := h.stored ns' st hst
    unfold FsStore.removeReplica
    split
    · exact hstored
    · rename_i hclosed
      have hns : ns' ≠ ns := by
        rintro rfl
        exact hclosed ((h.opened ns').2 (by rw [hst]; rfl))
      show (a.store.namespaces.filter _).get? ns' = _
      rw [SortedMap.get?_filter_eq_self (by simp [hns])]
      exact hstored

/-- The capability of an import goes to the table and, on an upgrade, to the open replica. -/
theorem importNamespace_eq (h : Books a) (c : Capability) :
    (∃ old : Capability, (a.store.importNamespace c).1.namespaces = a.store.namespaces.insert c.id old.raw ∧
      (∀ state, a.states.get? c.id = some state → state.capability = old) ∧
      (a.importNamespace c).1 = { a with store := (a.store.importNamespace c).1 }) ∨
    (∃ state, a.states.get? c.id = some state ∧
      (a.store.importNamespace c).1.namespaces = a.store.namespaces.insert c.id c.raw ∧
      (a.importNamespace c).1 = { a with
        store := (a.store.importNamespace c).1
        states := a.states.insert c.id { state with capability := c } }) := by
  unfold importNamespace
  rcases importNamespace_cases h.keyed c with ⟨hnone, heq⟩ | ⟨old, hold, hid, heq⟩ |
    ⟨id, secret, hread, rfl, hmerge, heq⟩
  · rw [heq]
    refine .inl ⟨c, rfl, ?_, rfl⟩
    intro state hst
    have := h.stored _ _ hst
    rw [hnone] at this
    cases this
  · rw [heq]
    refine .inl ⟨old, rfl, ?_, rfl⟩
    intro state hst
    have := h.stored _ _ hst
    rw [hold] at this
    exact (raw_injective (Option.some.inj this)).symm
  · rw [heq]
    cases hst : a.states.get? (Capability.write secret).id with
    | none =>
      refine .inl ⟨_, rfl, ?_, by simp [hst]⟩
      intro state hst'
      cases hst'
    | some state =>
      have hstored := h.stored _ _ hst
      rw [hread] at hstored
      have hcap : state.capability = .read id := (raw_injective (Option.some.inj hstored)).symm
      refine .inr ⟨state, rfl, rfl, ?_⟩
      simp [hst, hcap, hmerge]

theorem openReplicas_importNamespace (s : FsStore) (c : Capability) :
    (s.importNamespace c).1.openReplicas = s.openReplicas := by
  rw [FsStore.tables_importNamespace]

theorem books_importNamespace (h : Books a) (c : Capability) : Books (a.importNamespace c).1 := by
  have hopen := openReplicas_importNamespace a.store c
  have hkeyed := h.keyed.importNamespace c
  rcases importNamespace_eq h c with ⟨old, hns, hcap, heq⟩ | ⟨state, hget, hns, heq⟩
  · rw [heq]
    refine ⟨?_, ?_, hkeyed⟩
    · intro ns
      rw [hopen]
      exact h.opened ns
    · intro ns st hst
      rw [hns]
      by_cases hid : ns = c.id
      · subst hid
        rw [SortedMap.get?_insert_self, hcap st hst]
      · rw [SortedMap.get?_insert_of_ne hid]
        exact h.stored ns st hst
  · rw [heq]
    refine ⟨?_, ?_, hkeyed⟩
    · intro ns
      rw [hopen, h.opened]
      by_cases hid : ns = c.id
      · simp [hid, hget]
      · simp [SortedMap.get?_insert_of_ne hid]
    · intro ns st hst
      rw [hns]
      rcases SortedMap.get?_insert_cases hst with ⟨rfl, rfl⟩ | ⟨hid, hst⟩
      · exact SortedMap.get?_insert_self
      · rw [SortedMap.get?_insert_of_ne hid]
        exact h.stored ns st hst

theorem books_closeAll (h : Books a) (stopped : Bool) : Books { a.closeAll with stopped := stopped } := by
  obtain ⟨hns, hopen⟩ := closeReplica_foldl a.states.toList a.store
  refine ⟨?_, ?_, ?_⟩
  · intro ns
    show ns ∈ (a.states.toList.foldl _ a.store).openReplicas ↔ _
    rw [hopen, h.opened]
    constructor
    · rintro ⟨hsome, hall⟩
      obtain ⟨state, hst⟩ := Option.isSome_iff_exists.1 hsome
      exact absurd rfl (hall _ (SortedMap.get?_eq_some.1 hst))
    · intro hsome
      cases hsome
  · intro ns st hst
    cases hst
  · intro ns raw hget
    change (a.states.toList.foldl _ a.store).namespaces.get? ns = some raw at hget
    rw [hns] at hget
    exact h.keyed ns raw hget

/-! ## Turns -/

/-- The actions that write the books. -/
def writesBooks : Action → Bool
  | .importNamespace _ => true
  | .replica _ (.open ..) => true
  | .replica _ .close => true
  | .replica _ (.setSync _) => true
  | .replica _ .dropReplica => true
  | .shutdown => true
  | _ => false

variable [Blake3] (verify : SignedEntry → Bool) (closed : ChannelId → Bool)

theorem contentsOnly_onReplicaAction (a : Actor) (ns : NamespaceId) {action : ReplicaAction}
    (h : writesContents action = true) : ContentsOnly a (a.onReplicaAction verify closed ns action) := by
  cases action with
  | «open» sync subscribe => cases h
  | close => cases h
  | setSync sync => cases h
  | dropReplica => cases h
  | syncSessionStart => cases h
  | subscribe sender =>
    simp only [onReplicaAction]
    cases hget : OpenReplicas.get a.states ns with
    | error err => exact contentsOnly_self (by simp)
    | ok state => exact ⟨⟨_, _, rfl, rfl, rfl, .insert (of_get hget) rfl⟩, by simp⟩
  | unsubscribe sender =>
    simp only [onReplicaAction]
    cases hget : OpenReplicas.get a.states ns with
    | error err => exact contentsOnly_self (by simp)
    | ok state => exact ⟨⟨_, _, rfl, rfl, rfl, .insert (of_get hget) rfl⟩, by simp⟩
  | registerUsefulPeer peer nanos =>
    simp only [onReplicaAction, FsStore.registerUsefulPeer]
    repeat' split
    all_goals exact ⟨⟨_, _, rfl, rfl, rfl, .refl _⟩, by simp⟩
  | retractEntry author key upTo =>
    simp only [onReplicaAction, FsStore.retractEntry]
    repeat' split
    all_goals exact ⟨⟨_, _, rfl, rfl, rfl, .refl _⟩, by simp⟩
  | setDownloadPolicy policy =>
    simp only [onReplicaAction, FsStore.setDownloadPolicy]
    split
    all_goals exact ⟨⟨_, _, rfl, rfl, rfl, .refl _⟩, by simp⟩
  | insertLocal author signer key hash len created now =>
    simp only [onReplicaAction]
    cases signer with
    | none => exact contentsOnly_self (by simp)
    | some sign =>
      cases hget : OpenReplicas.get a.states ns with
      | error err => exact contentsOnly_self (by simp)
      | ok state => exact contentsOnly_written closed (of_get hget) _ _ (by simp)
  | deletePrefix author signer key created now =>
    simp only [onReplicaAction]
    cases signer with
    | none => exact contentsOnly_self (by simp)
    | some sign =>
      cases hget : OpenReplicas.get a.states ns with
      | error err => exact contentsOnly_self (by simp)
      | ok state => exact contentsOnly_written closed (of_get hget) _ _ (by simp)
  | insertRemote entry fromPeer contentStatus now =>
    simp only [onReplicaAction]
    cases hsync : OpenReplicas.ensureSyncing a.states ns with
    | error err => exact contentsOnly_self (by simp)
    | ok state => exact contentsOnly_written closed (of_ensureSyncing hsync).1 _ _ (by simp)
  | syncInitialMessage session filter =>
    simp only [onReplicaAction]
    split
    all_goals exact contentsOnly_self (by simp)
  | syncProcessMessage message fromPeer state session filter now =>
    simp only [onReplicaAction]
    cases hreplica : a.sessionReplica ns session with
    | error err => exact contentsOnly_self (by simp)
    | ok r =>
      obtain ⟨tables, state, -, hget, -, rfl⟩ := of_sessionReplica hreplica
      exact contentsOnly_written closed hget _ _ (by simp)

/-- A session start fails and changes nothing, or registers the tables of the store under a fresh id. -/
theorem syncSessionStart_cases (a : Actor) (ns : NamespaceId) :
    (∃ err, a.onReplicaAction verify closed ns .syncSessionStart = (a, .session (.error err))) ∨
    ((a.states.get? ns).isSome ∧ a.onReplicaAction verify closed ns .syncSessionStart = ({ a with
      nextSessionId := a.nextSessionId + 1
      sessions := a.sessions.insert ⟨a.actorId, a.nextSessionId⟩ ⟨ns, a.store.tables⟩ },
        .session (.ok ⟨a.actorId, a.nextSessionId⟩))) := by
  simp only [onReplicaAction]
  cases hsync : OpenReplicas.ensureSyncing a.states ns with
  | error err => exact .inl ⟨err, rfl⟩
  | ok state =>
    refine .inr ⟨?_, rfl⟩
    cases hget : a.states.get? ns with
    | none => simp [OpenReplicas.ensureSyncing, OpenReplicas.get, hget, bind, Except.bind] at hsync
    | some state => rfl

theorem sameBooks_onAction (a : Actor) {action : Action} (h : writesBooks action = false) :
    SameBooks a (a.onAction verify closed action).1 := by
  cases action with
  | importNamespace c => cases h
  | flushStore => exact .refl a
  | syncSessionEnd session => exact ⟨.refl _, rfl, rfl⟩
  | shutdown => cases h
  | replica ns action =>
    show SameBooks a (a.onReplicaAction verify closed ns action).1
    cases action with
    | «open» sync subscribe => cases h
    | close => cases h
    | setSync sync => cases h
    | dropReplica => cases h
    | syncSessionStart =>
      rcases a.syncSessionStart_cases verify closed ns with ⟨err, heq⟩ | ⟨-, heq⟩
      · rw [heq]
        exact .refl a
      · rw [heq]
        exact ⟨.refl _, rfl, rfl⟩
    | _ => exact (a.contentsOnly_onReplicaAction verify closed ns rfl).sameBooks

/-- `set_sync` on a replica that is open, or an error. -/
theorem setSync_cases (a : Actor) (ns : NamespaceId) (sync : Bool) :
    (∃ err, a.onReplicaAction verify closed ns (.setSync sync) = (a, .unit (.error err))) ∨
    (∃ state, a.states.get? ns = some state ∧ a.onReplicaAction verify closed ns (.setSync sync) =
      ({ a with states := a.states.insert ns { state with sync := sync } }, .unit (.ok ()))) := by
  simp only [onReplicaAction, OpenReplicas.get]
  cases hget : a.states.get? ns with
  | none => exact .inl ⟨_, rfl⟩
  | some state => exact .inr ⟨state, rfl, rfl⟩

theorem books_onAction (h : Books a) (action : Action) : Books (a.onAction verify closed action).1 := by
  by_cases hw : writesBooks action = true
  · cases action with
    | importNamespace c => exact books_importNamespace h c
    | shutdown => exact books_closeAll h true
    | replica ns action =>
      cases action with
      | «open» sync subscribe => exact books_open h ns sync subscribe
      | close => exact books_close h ns
      | dropReplica => exact books_removeReplica (books_close h ns) ns
      | setSync sync =>
        show Books (a.onReplicaAction verify closed ns (.setSync sync)).1
        rcases a.setSync_cases verify closed ns sync with ⟨err, heq⟩ | ⟨state, hget, heq⟩
        · rwa [heq]
        · rw [heq]
          exact books_update h hget rfl
      | _ => cases hw
    | _ => cases hw
  · exact (a.sameBooks_onAction verify closed (by simpa using hw)).books h

/-- Step: every turn keeps the books. -/
theorem books_turn (h : Books a) (t : Turn) : Books (a.turn verify t).1 := by
  unfold turn
  split
  · exact h
  · exact books_onAction verify t.closed ((a.sameBooks_reclaim t.now t.alive).books h) t.action

/-- Run: every sequence of turns does. -/
theorem books_run (h : Books a) (turns : List Turn) : Books (a.run verify turns) := by
  induction turns generalizing a with
  | nil => exact h
  | cons t turns ih => exact ih (books_turn verify h t)

end Actor

end PdnStore.Actors

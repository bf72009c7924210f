import PdnStore.Actor.Handles

/-!
# Dropping a replica that others hold open (actor.rs:1198-1201)

`DropReplica` gives up a handle first and looks at neither the answer of `close` nor what it would leave
behind; then it asks the store, which refuses to remove a replica that is still open. So it fails exactly on
a replica with a second handle, and there the first one is gone (`dropReplica_cases`).

| here | there |
| --- | --- |
| `DropReplica`'s two calls | `close` (`actor.rs:1266`), whose answer is discarded, and `remove_replica` (`fs.rs:477`) |
| `LeavesReplica`           | the open replica with its handles, sync flag and subscribers, the sessions, and the store's `open_replicas` |
-/

namespace PdnStore.Actors

open Ranger Sync Fs

/-- An action left the open replica, the sessions and the store's open replicas as they were. -/
structure LeavesReplica (ns : NamespaceId) (a a' : Actor) : Prop where
  entry : a'.states.get? ns = a.states.get? ns
  sessions : a'.sessions = a.sessions
  openReplicas : a'.store.openReplicas = a.store.openReplicas

namespace Actor

section Drop

variable [Blake3] [Ed25519] (verify : SignedEntry → Bool) (closed : ChannelId → Bool) {a : Actor}
  {ns : NamespaceId}

/-- `drop_replica` succeeds; or the replica has another handle than the one it takes, and it fails with one handle
less. -/
theorem dropReplica_cases (h : Books a) (ns : NamespaceId) :
    ((¬ ∃ state, a.states.get? ns = some state ∧ state.handles ≠ 1) ∧
      (a.onReplicaAction verify closed ns .dropReplica).2 = .unit (.ok ())) ∨
    (∃ state, a.states.get? ns = some state ∧ state.handles ≠ 1 ∧
      a.onReplicaAction verify closed ns .dropReplica =
        ({ a with states := a.states.insert ns { state with handles := state.handles - 1 } },
          .unit (.error (.msg "replica is not closed")))) := by
  simp only [onReplicaAction, FsStore.removeReplica]
  rcases a.close_cases ns with ⟨hnone, heq⟩ | ⟨state, hget, hone, heq⟩ | ⟨state, hget, hmore, heq⟩
  · -- nobody holds it
    refine .inl ⟨?_, ?_⟩
    · rintro ⟨state, hget, -⟩
      rw [hnone] at hget
      cases hget
    · simp [heq, FsStore.closeReplica, Except.mapError]
  · -- the last handle
    refine .inl ⟨?_, ?_⟩
    · rintro ⟨state', hget', hmore⟩
      obtain rfl : state = state' := Option.some.inj (hget.symm.trans hget')
      exact hmore hone
    · simp [heq, FsStore.closeReplica, Except.mapError]
  · -- the store still counts it open
    have hopen : ns ∈ a.store.openReplicas := (h.opened ns).2 (by rw [hget]; rfl)
    refine .inr ⟨state, hget, hmore, ?_⟩
    simp [heq, hopen, Except.mapError]

omit [Blake3] [Ed25519] in
/-- With one handle less the replica is not as it was. -/
theorem not_leavesReplica_of_handle {state : OpenReplica} (hget : a.states.get? ns = some state) :
    ¬ LeavesReplica ns a { a with states := a.states.insert ns { state with handles := state.handles - 1 } } := by
  intro hleaves
  have hentry := congrArg (Option.map OpenReplica.handles) hleaves.entry
  rw [SortedMap.get?_insert_self, hget, Option.map_some, Option.map_some] at hentry
  exact sub_one_ne _ (Option.some.inj hentry)

/-- **When a failing drop leaves the replica as it was**: never, since it fails only where it has taken a handle that
was not the only one. -/
theorem failing_drop_leaves_replica_iff (ops : List Op)
    (hclosed : ((default : FsStore).run ops).openReplicas = ∅) (id : U64) (callbacks : Callbacks)
    (now : Instant) (turns : List Turn) (ns : NamespaceId) :
    let a := (spawn id ((default : FsStore).run ops) callbacks now).run verify turns
    ((∀ err, (a.onReplicaAction verify closed ns .dropReplica).2 = .unit (.error err) →
      LeavesReplica ns a (a.onReplicaAction verify closed ns .dropReplica).1) ↔
        ¬ ∃ state, a.states.get? ns = some state ∧ state.handles ≠ 1) := by
  intro a
  have hbooks : Books a := books_run verify (books_spawn (wellKeyed_run ops) hclosed id callbacks now) turns
  rcases dropReplica_cases verify closed hbooks ns with ⟨hno, hok⟩ | ⟨state, hget, hmore, heq⟩
  · refine iff_of_true ?_ hno
    intro err herr
    rw [hok] at herr
    cases herr
  · refine iff_of_false ?_ (not_not.2 ⟨state, hget, hmore⟩)
    intro hleaves
    rw [heq] at hleaves
    exact not_leavesReplica_of_handle hget (hleaves _ rfl)

end Drop

section

local instance dropDigest : Blake3 := noDigest

local instance dropKeys : Ed25519 := ⟨id⟩

/-- Opened and watched by one, dropped: it succeeds. -/
theorem failing_drop_leaves_replica_iff_sample :
    let turns := [⟨0, fun _ => true, fun _ => false, .replica zeros32 (.open false (some 0))⟩]
    ∀ err, ((sampleActor.run (fun _ => true) turns).onReplicaAction (fun _ => true) (fun _ => false) zeros32
        .dropReplica).2 = .unit (.error err) →
      LeavesReplica zeros32 (sampleActor.run (fun _ => true) turns)
        ((sampleActor.run (fun _ => true) turns).onReplicaAction (fun _ => true) (fun _ => false) zeros32
          .dropReplica).1 := by
  intro turns
  refine (failing_drop_leaves_replica_iff (fun _ => true) (fun _ => false) [.importNamespace (.read zeros32)]
    (by decide +kernel) 0 ⟨none, none, false⟩ 0 turns zeros32).2 ?_
  rintro ⟨state, hget, hmore⟩
  have hone : ((sampleActor.run (fun _ => true) turns).states.get? zeros32).map (·.handles) = some 1 := by
    decide +kernel
  change (sampleActor.run (fun _ => true) turns).states.get? zeros32 = some state at hget
  rw [hget] at hone
  exact hmore (Option.some.inj hone)

/-- Two handles: the drop is refused, and one of them is gone. -/
theorem failing_drop_takes_a_handle :
    let turns := [Action.replica zeros32 (.open false none), .replica zeros32 (.open true (some 0))].map
      fun action => Turn.mk 0 (fun _ => true) (fun _ => false) action
    let a := sampleActor.run (fun _ => true) turns
    let dropped := a.onReplicaAction (fun _ => true) (fun _ => false) zeros32 .dropReplica
    dropped.2 = .unit (.error (.msg "replica is not closed")) ∧
    (a.states.get? zeros32).map (fun state => (state.handles, state.subscribers)) = some (2, [0]) ∧
    (dropped.1.states.get? zeros32).map (fun state => (state.handles, state.subscribers)) = some (1, [0]) ∧
    ¬ LeavesReplica zeros32 a dropped.1 := by
  intro turns a dropped
  have hbooks : Books a := books_run _ (books_spawn (wellKeyed_run [.importNamespace (.read zeros32)])
    (by decide +kernel) 0 ⟨none, none, false⟩ 0) turns
  have htwo : (a.states.get? zeros32).map (fun state => (state.handles, state.subscribers)) = some (2, [0]) := by
    decide +kernel
  obtain ⟨state, hget, hstate⟩ := Option.map_eq_some_iff.1 htwo
  obtain ⟨hhandles, hsubscribers⟩ := Prod.mk.inj hstate
  rcases dropReplica_cases (fun _ => true) (fun _ => false) hbooks zeros32 with ⟨hno, -⟩ | ⟨state', hget', -, heq⟩
  · exact absurd ⟨state, hget, by rw [hhandles]; decide⟩ hno
  · obtain rfl : state = state' := Option.some.inj (hget.symm.trans hget')
    show (a.onReplicaAction _ _ _ _).2 = _ ∧ _ ∧ ((a.onReplicaAction _ _ _ _).1.states.get? _).map _ = _ ∧
      ¬ LeavesReplica _ a (a.onReplicaAction _ _ _ _).1
    rw [heq]
    refine ⟨rfl, htwo, ?_, not_leavesReplica_of_handle hget⟩
    rw [SortedMap.get?_insert_self, Option.map_some, hhandles, hsubscribers]
    rfl

end

end Actor

end PdnStore.Actors

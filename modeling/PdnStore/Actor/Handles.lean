import PdnStore.Actor.Books

/-!
# Handles and stored capabilities along the life of an actor (actor.rs:1391-1446)

A replica is open while someone holds a handle. `Tally` counts, from what was asked and answered, the opens
that succeeded and the closes that took a handle; as long as the counter has room for the opens, the `handles` of an
open replica are that count, so `wrapping_sub` never wraps and a close never closes a replica under another user.
What is stored as a capability to write stays one until the replica is removed.
-/

namespace PdnStore.Actors

open Ranger Sync Fs

section Bookkeeping

/-! ## Handles -/

/-- The opens of a namespace that succeeded and the closes that took a handle, since it was last closed. -/
structure Tally where
  opens : Nat
  closes : Nat
deriving DecidableEq, Repr

namespace Tally

/-- A close takes a handle if there is one; with the last one the replica is closed. -/
def close (t : Tally) : Tally :=
  if t.closes < t.opens then
    if t.closes + 1 = t.opens then ⟨0, 0⟩ else ⟨t.opens, t.closes + 1⟩
  else t

/-- The tally of `ns` after an action and its reply. -/
def note (ns : NamespaceId) (t : Tally) : Action → Reply → Tally
  | .replica ns' (.open ..), .unit (.ok ()) => if ns' = ns then ⟨t.opens + 1, t.closes⟩ else t
  | .replica ns' .close, .closed _ => if ns' = ns then t.close else t
  -- gives up a handle whether or not the replica is removed after it
  | .replica ns' .dropReplica, .unit _ => if ns' = ns then t.close else t
  | .shutdown, .none => ⟨0, 0⟩
  | _, _ => t

/-- An open replica has as many handles as were opened and not closed, and one at least. -/
def Counts (t : Tally) : Option OpenReplica → Prop
  | some state => t.closes < t.opens ∧ state.handles.val = t.opens - t.closes
  | none => t = ⟨0, 0⟩

theorem note_of_not_writesBooks {action : Action} (h : Actor.writesBooks action = false) (ns : NamespaceId)
    (t : Tally) (reply : Reply) : t.note ns action reply = t := by
  cases action with
  | replica ns' action =>
    cases action with
    | «open» sync => cases h
    | close => cases h
    | dropReplica => cases h
    | _ => rfl
  | shutdown => cases h
  | _ => rfl

/-- The count only looks at the handles. -/
theorem Counts.of_handles {t : Tally} {state state' : OpenReplica} (h : t.Counts (some state))
    (hh : state'.handles = state.handles) : t.Counts (some state') :=
  ⟨h.1, hh ▸ h.2⟩

theorem opens_close_le (t : Tally) : t.close.opens ≤ t.opens := by
  unfold close
  split
  · split
    · exact Nat.zero_le _
    · exact le_rfl
  · exact le_rfl

end Tally

/-- The action asks for a replica to be opened. -/
def opensReplica : Action → Bool
  | .replica _ (.open ..) => true
  | _ => false

/-- Only an open adds to the opens. -/
theorem Tally.opens_note_le (ns : NamespaceId) (t : Tally) (action : Action) (reply : Reply) :
    (t.note ns action reply).opens ≤ t.opens + (opensReplica action).toNat := by
  unfold Tally.note
  split
  · split <;> simp [opensReplica]
  · split
    · exact t.opens_close_le
    · exact le_rfl
  · split
    · exact t.opens_close_le
    · exact le_rfl
  · exact Nat.zero_le _
  · exact Nat.le_add_right _ _

namespace Actor

variable {a : Actor} {ns : NamespaceId} {t : Tally}

theorem counts_close (ht : t.Counts (a.states.get? ns)) : t.close.Counts ((a.close ns).1.states.get? ns) := by
  rcases a.close_cases ns with ⟨hnone, heq⟩ | ⟨state, hget, hone, heq⟩ | ⟨state, hget, hmore, heq⟩
  · rw [heq]
    rw [hnone] at ht
    obtain rfl : t = ⟨0, 0⟩ := ht
    show Tally.Counts _ (a.states.get? ns)
    rw [hnone]
    rfl
  · rw [hget] at ht
    obtain ⟨hlt, hh⟩ := ht
    rw [hone, Fin.val_one] at hh
    rw [heq]
    show Tally.Counts _ ((a.states.filter _).get? ns)
    rw [SortedMap.get?_filter_eq_none (by simp)]
    simp only [Tally.close, hlt, if_true]
    rw [if_pos (by omega)]
    rfl
  · rw [hget] at ht
    obtain ⟨hlt, hh⟩ := ht
    rw [ne_eq, Fin.ext_iff, Fin.val_one] at hmore
    rw [heq]
    show Tally.Counts _ ((a.states.insert ns _).get? ns)
    rw [SortedMap.get?_insert_self]
    simp only [Tally.close, hlt, if_true]
    rw [if_neg (by omega)]
    show t.closes + 1 < t.opens ∧ (state.handles - 1).val = t.opens - (t.closes + 1)
    rw [val_sub_one (by omega)]
    omega

theorem close_elsewhere {ns' : NamespaceId} (h : ns ≠ ns') :
    (a.close ns').1.states.get? ns = a.states.get? ns := by
  rcases a.close_cases ns' with ⟨-, heq⟩ | ⟨state, -, -, heq⟩ | ⟨state, -, -, heq⟩
  · rw [heq]
  · rw [heq]
    exact SortedMap.get?_filter_eq_self (by simp [h])
  · rw [heq]
    exact SortedMap.get?_insert_of_ne h

/-- A state with as many handles is put in place of another. -/
theorem counts_insert {ns' : NamespaceId} {state state' : OpenReplica} (ht : t.Counts (a.states.get? ns))
    (hget : a.states.get? ns' = some state) (hh : state'.handles = state.handles) :
    t.Counts ((a.states.insert ns' state').get? ns) := by
  by_cases hns : ns = ns'
  · subst hns
    rw [hget] at ht
    rw [SortedMap.get?_insert_self]
    exact ht.of_handles hh
  · rw [SortedMap.get?_insert_of_ne hns]
    exact ht

/-- Closing, by either action. -/
theorem counts_note_close (ht : t.Counts (a.states.get? ns)) (ns' : NamespaceId) :
    (if ns' = ns then t.close else t).Counts ((a.close ns').1.states.get? ns) := by
  by_cases hns : ns' = ns
  · subst hns
    simpa using counts_close ht
  · rw [close_elsewhere (Ne.symm hns)]
    simpa [hns] using ht

/-- Who subscribes does not count. -/
theorem counts_sameReplicas {a' : Actor} (h : SameReplicas a.states a'.states) (ht : t.Counts (a.states.get? ns)) :
    t.Counts (a'.states.get? ns) := by
  cases hget' : a'.states.get? ns with
  | none =>
    have hnone := h.isSome ns
    rw [hget', Option.isSome_none, eq_comm, Option.isSome_eq_false_iff, Option.isNone_iff_eq_none] at hnone
    rwa [hnone] at ht
  | some state' =>
    obtain ⟨state, hget, hsame⟩ := h.exists_get? hget'
    rw [hget] at ht
    have hhandles : state'.unwatched.handles = state.unwatched.handles := by rw [hsame]
    exact ht.of_handles hhandles

variable [Ed25519]

theorem counts_open (ht : t.Counts (a.states.get? ns)) (hroom : t.opens + 1 < 2 ^ 64) (ns' : NamespaceId)
    (sync : Bool) (subscribe : Option ChannelId) :
    (t.note ns (.replica ns' (.open sync subscribe)) (.unit (a.open ns' sync subscribe).2)).Counts
      ((a.open ns' sync subscribe).1.states.get? ns) := by
  rcases a.open_cases ns' sync subscribe with ⟨err, -, heq⟩ | ⟨raw, capability, hnone, -, -, heq⟩ | ⟨state, hget, heq⟩
  · rw [heq]
    exact ht
  · rw [heq]
    by_cases hns : ns' = ns
    · subst hns
      rw [hnone] at ht
      obtain rfl : t = ⟨0, 0⟩ := ht
      simp [Tally.note, Tally.Counts, handles_subscribeOpt]
    · simp only [Tally.note, hns, if_false]
      rw [SortedMap.get?_insert_of_ne (Ne.symm hns)]
      exact ht
  · rw [heq]
    by_cases hns : ns' = ns
    · subst hns
      rw [hget] at ht
      obtain ⟨hlt, hh⟩ := ht
      simp only [Tally.note, if_true, SortedMap.get?_insert_self, Tally.Counts, handles_subscribeOpt]
      rw [val_add_one (by omega)]
      omega
    · simp only [Tally.note, hns, if_false]
      rw [SortedMap.get?_insert_of_ne (Ne.symm hns)]
      exact ht

theorem counts_importNamespace (h : Books a) (ht : t.Counts (a.states.get? ns)) (c : Capability) :
    t.Counts ((a.importNamespace c).1.states.get? ns) := by
  rcases importNamespace_eq h c with ⟨old, -, -, heq⟩ | ⟨state, hget, -, heq⟩
  · rw [heq]
    exact ht
  · rw [heq]
    exact counts_insert ht hget rfl

variable [Blake3] (verify : SignedEntry → Bool) (closed : ChannelId → Bool)

theorem counts_setSync (ht : t.Counts (a.states.get? ns)) (ns' : NamespaceId) (sync : Bool) :
    t.Counts ((a.onReplicaAction verify closed ns' (.setSync sync)).1.states.get? ns) := by
  rcases a.setSync_cases verify closed ns' sync with ⟨err, heq⟩ | ⟨state, hget, heq⟩
  · rw [heq]
    exact ht
  · rw [heq]
    exact counts_insert ht hget rfl

theorem counts_onAction (h : Books a) (ht : t.Counts (a.states.get? ns)) (action : Action)
    (hroom : t.opens + (opensReplica action).toNat < 2 ^ 64) :
    (t.note ns action (a.onAction verify closed action).2).Counts
      ((a.onAction verify closed action).1.states.get? ns) := by
  by_cases hw : writesBooks action = true
  · cases action with
    | importNamespace c => exact counts_importNamespace h ht c
    | shutdown => exact rfl
    | replica ns' action =>
      cases action with
      | «open» sync subscribe => exact counts_open ht hroom ns' sync subscribe
      | setSync sync => exact counts_setSync verify closed ht ns' sync
      | close => exact counts_note_close ht ns'
      | dropReplica => exact counts_note_close ht ns'
      | _ => cases hw
    | _ => cases hw
  · rw [Tally.note_of_not_writesBooks (by simpa using hw)]
    exact counts_sameReplicas (a.sameBooks_onAction verify closed (by simpa using hw)).states ht

/-- Step: a turn changes the handles as its reply says. -/
theorem counts_turn (h : Books a) (ht : t.Counts (a.states.get? ns)) (turn : Turn)
    (hroom : t.opens + (opensReplica turn.action).toNat < 2 ^ 64) :
    (t.note ns turn.action (a.turn verify turn).2).Counts ((a.turn verify turn).1.states.get? ns) := by
  unfold Actor.turn
  split
  · have hrefused : t.note ns turn.action .refused = t := by
      cases turn.action with
      | replica ns' action => cases action <;> rfl
      | _ => rfl
    rw [hrefused]
    exact ht
  · have hsame := a.sameBooks_reclaim turn.now turn.alive
    exact counts_onAction verify turn.closed (hsame.books h) (counts_sameReplicas hsame.states ht) turn.action hroom

/-- The tally of a namespace along a run. -/
def tally (a : Actor) (ns : NamespaceId) (t : Tally) : List Turn → Tally
  | [] => t
  | turn :: turns => (a.turn verify turn).1.tally ns (t.note ns turn.action (a.turn verify turn).2) turns

/-- The opens asked for. -/
def opensAsked (turns : List Turn) : Nat := turns.countP fun turn => opensReplica turn.action

/-- Run: the handles are the tally. -/
theorem counts_run (h : Books a) (ht : t.Counts (a.states.get? ns)) (turns : List Turn)
    (hroom : t.opens + opensAsked turns < 2 ^ 64) :
    (a.tally verify ns t turns).Counts ((a.run verify turns).states.get? ns) := by
  induction turns generalizing a t with
  | nil => exact ht
  | cons turn turns ih =>
    have hasked : opensAsked (turn :: turns) = opensAsked turns + (opensReplica turn.action).toNat := by
      unfold opensAsked
      rw [List.countP_cons]
      cases opensReplica turn.action <;> rfl
    have hnoted := t.opens_note_le ns turn.action (a.turn verify turn).2
    exact ih (books_turn verify h turn) (counts_turn verify h ht turn (by omega)) (by omega)

/-! ## Capabilities on disk -/

/-- The stored capability to write stays, unless the replica is removed. -/
def KeepsWrite (a a' : Actor) (action : Action) : Prop :=
  ∀ ns secret, a.store.namespaces.get? ns = some (Capability.write secret).raw →
    a'.store.namespaces.get? ns = some (Capability.write secret).raw ∨
      (a'.store.namespaces.get? ns = none ∧ action = .replica ns .dropReplica)

omit [Blake3] [Ed25519] in
theorem namespaces_close (a : Actor) (ns : NamespaceId) :
    (a.close ns).1.store.namespaces = a.store.namespaces := by
  rcases a.close_cases ns with ⟨-, heq⟩ | ⟨state, -, -, heq⟩ | ⟨state, -, -, heq⟩ <;> rw [heq] <;> rfl

omit [Blake3] in
theorem namespaces_open (a : Actor) (ns : NamespaceId) (sync : Bool) (subscribe : Option ChannelId) :
    (a.open ns sync subscribe).1.store.namespaces = a.store.namespaces := by
  rcases a.open_cases ns sync subscribe with ⟨err, -, heq⟩ | ⟨raw, capability, -, -, -, heq⟩ | ⟨state, -, heq⟩ <;>
    rw [heq]

omit [Ed25519] [Blake3] in
theorem keepsWrite_of_eq {a a' : Actor} (h : a'.store.namespaces = a.store.namespaces) (action : Action) :
    KeepsWrite a a' action := by
  intro ns secret hget
  rw [h]
  exact .inl hget

theorem keepsWrite_onAction (h : Books a) (action : Action) :
    KeepsWrite a (a.onAction verify closed action).1 action := by
  by_cases hw : writesBooks action = true
  · cases action with
    | importNamespace c =>
      intro ns secret hget
      left
      have hstore : (a.importNamespace c).1.store = (a.store.importNamespace c).1 := by
        rcases importNamespace_eq h c with ⟨old, -, -, heq⟩ | ⟨state, -, -, heq⟩ <;> rw [heq]
      show (a.importNamespace c).1.store.namespaces.get? ns = _
      obtain ⟨c', -, hns, hwrite⟩ := namespaces_importNamespace h.keyed c
      rw [hstore, hns]
      by_cases hid : ns = c.id
      · subst hid
        rw [SortedMap.get?_insert_self, hwrite secret hget]
      · rw [SortedMap.get?_insert_of_ne hid, hget]
    | shutdown => exact keepsWrite_of_eq (closeReplica_foldl a.states.toList a.store).1 _
    | replica ns action =>
      cases action with
      | «open» sync subscribe => exact keepsWrite_of_eq (a.namespaces_open ns sync subscribe) _
      | close => exact keepsWrite_of_eq (a.namespaces_close ns) _
      | setSync sync =>
        refine keepsWrite_of_eq ?_ _
        show (a.onReplicaAction verify closed ns (.setSync sync)).1.store.namespaces = _
        rcases a.setSync_cases verify closed ns sync with ⟨err, heq⟩ | ⟨state, -, heq⟩ <;> rw [heq]
      | dropReplica =>
        intro ns' secret hget
        show ((a.close ns).1.store.removeReplica ns).1.namespaces.get? ns' = _ ∨
          (((a.close ns).1.store.removeReplica ns).1.namespaces.get? ns' = none ∧ _)
        rw [← a.namespaces_close ns] at hget
        unfold FsStore.removeReplica
        split
        · exact .inl hget
        · by_cases hns : ns' = ns
          · subst hns
            exact .inr ⟨SortedMap.get?_filter_eq_none (by simp), rfl⟩
          · left
            show (SortedMap.filter _ _).get? ns' = _
            rw [SortedMap.get?_filter_eq_self (by simp [hns])]
            exact hget
      | _ => cases hw
    | _ => cases hw
  · exact keepsWrite_of_eq (a.sameBooks_onAction verify closed (by simpa using hw)).namespaces _

theorem keepsWrite_turn (h : Books a) (turn : Turn) : KeepsWrite a (a.turn verify turn).1 turn.action := by
  unfold Actor.turn
  split
  · exact keepsWrite_of_eq rfl _
  · have hsame := a.sameBooks_reclaim turn.now turn.alive
    intro ns secret hget
    rw [← hsame.namespaces] at hget
    exact keepsWrite_onAction verify turn.closed (hsame.books h) turn.action ns secret hget

/-! ## From the spawn on -/

/-- **The records of open replicas agree in every reachable state** of an actor that was spawned on a store
without open replicas: the store and the actor hold the same replicas open, each with the capability that is on disk
and, unless the counter of its handles has wrapped, with as many handles as were opened and not given up, one at
least; and no capability to write is lost but by removing the replica. -/
theorem open_replica_bookkeeping (ops : List Op) (hclosed : ((default : FsStore).run ops).openReplicas = ∅)
    (id : U64) (callbacks : Callbacks) (now : Instant) (turns : List Turn) :
    Books ((spawn id ((default : FsStore).run ops) callbacks now).run verify turns) ∧
    (opensAsked turns < 2 ^ 64 → ∀ ns,
      ((spawn id ((default : FsStore).run ops) callbacks now).tally verify ns ⟨0, 0⟩ turns).Counts
        (((spawn id ((default : FsStore).run ops) callbacks now).run verify turns).states.get? ns)) ∧
    ∀ done turn rest, turns = done ++ turn :: rest →
      KeepsWrite ((spawn id ((default : FsStore).run ops) callbacks now).run verify done)
        (((spawn id ((default : FsStore).run ops) callbacks now).run verify done).turn verify turn).1
        turn.action := by
  have hbooks := books_spawn (wellKeyed_run ops) hclosed id callbacks now
  refine ⟨books_run verify hbooks turns, ?_, ?_⟩
  · intro hroom ns
    exact counts_run verify hbooks rfl turns (by simpa using hroom)
  · intro done turn rest _
    exact keepsWrite_turn verify (books_run verify hbooks done) turn

end Actor

end Bookkeeping

section

local instance openDigest : Blake3 := noDigest

/-- A scheme in which the public key is the secret one. -/
local instance openKeys : Ed25519 := ⟨id⟩

/-- A replica opened twice to read, dropped while a handle is left, and upgraded. -/
def sampleTurns : List Actor.Turn :=
  [.replica zeros32 (.open false none), .replica zeros32 (.open true (some 0)), .replica zeros32 .dropReplica,
    .importNamespace (.write zeros32)].map fun action => ⟨0, fun _ => true, fun _ => false, action⟩

/-- An actor over a store with one namespace, to read. -/
def sampleActor : Actor :=
  .spawn 0 ((default : FsStore).run [.importNamespace (.read zeros32)]) ⟨none, none, false⟩ 0

/-- One handle is left after the failed drop, and the capability to write is in memory and on disk. -/
theorem open_replica_bookkeeping_sample :
    ((sampleActor.run (fun _ => true) sampleTurns).states.get? zeros32).map (·.handles) = some 1 ∧
    sampleActor.tally (fun _ => true) zeros32 ⟨0, 0⟩ sampleTurns = ⟨2, 1⟩ ∧
    Books (sampleActor.run (fun _ => true) sampleTurns) ∧
    (sampleActor.tally (fun _ => true) zeros32 ⟨0, 0⟩ sampleTurns).Counts
      ((sampleActor.run (fun _ => true) sampleTurns).states.get? zeros32) := by
  obtain ⟨hbooks, hcounts, -⟩ := Actor.open_replica_bookkeeping (fun _ => true)
    [.importNamespace (.read zeros32)] (by decide +kernel) 0 ⟨none, none, false⟩ 0 sampleTurns
  exact ⟨by decide +kernel, by decide +kernel, hbooks, hcounts (by decide) zeros32⟩

end

end PdnStore.Actors

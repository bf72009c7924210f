import PdnStore.Lib.Runs
import PdnStore.Actor.Sessions
import PdnStore.Store.Put

/-!
# Sync sessions: an id names one frozen view (actor.rs:1304-1328)

A process runs any number of actors. A caller of a session start gets a handle, and the dropped handle sends
a release message. Messages may be lost, late or never read, and an id may be presented to any actor, under
any namespace, at any time. Ids come from two counters of 64 bits: an id stands for one session start as long as
neither has wrapped around (`Process.Unwrapped`), and for no other view than one frozen under it in any case.

| here | there |
| --- | --- |
| `Ref`             | who holds a strong reference to a registration: the handle (or the reply it travels in), its release message, nobody |
| `Process.issued`  | not in the source: every session start that succeeded, with the tables it froze |
| `Step.turn`       | an actor takes an action off its queue; `received`: the caller still waits for the reply |
| `Step.dropSession`| `Drop for SyncSession` (`actor.rs:318`): the message is sent, or lost to a full queue |
-/

namespace PdnStore.Actors

open Ranger Sync Fs

/-! ## The process -/

/-- Who holds a strong reference to a registration. -/
inductive Ref where
  | held
  | queued
  | gone
deriving DecidableEq, Repr

/-- A session start that succeeded. -/
structure Issue where
  /-- which of the actors took it -/
  actor : Nat
  id : SyncSessionId
  ns : NamespaceId
  tables : Tables

/-- The actors of a process, and the references to their sessions. -/
structure Process where
  /-- `NEXT_ACTOR_ID` (actor.rs:50) -/
  nextActorId : U64
  /-- in the order they were spawned -/
  actors : List Actor
  refs : SyncSessionId → Ref
  issued : List Issue

/-- Before the first actor. -/
instance : Inhabited Process := ⟨⟨0, [], fun _ => .gone, []⟩⟩

/-- What may happen next. -/
inductive Step where
  | spawn (store : FsStore) (callbacks : Callbacks) (now : Instant)
  | turn (actor : Nat) (now : Instant) (closed : ChannelId → Bool) (action : Action) (received : Bool)
  /-- the timeout of an idle actor -/
  | tick (actor : Nat) (now : Instant)
  | dropSession (session : SyncSessionId) (sent : Bool)

namespace Process

variable (p : Process)

/-- `alive.strong_count() > 0`. -/
def alive (id : SyncSessionId) : Bool := p.refs id ≠ .gone

/-- A release message is on the queue of the actor that issued the id, once the handle has sent it. -/
def mayTake (a : Actor) : Action → Bool
  | .syncSessionEnd id => id.actor = a.actorId ∧ p.refs id = .queued
  | _ => true

/-- The references after an action: a start makes one, if its reply is received; a release gives one up. -/
def refsAfter (received : Bool) : Action → Reply → SyncSessionId → Ref
  | .syncSessionEnd id, _ => Function.update p.refs id .gone
  | _, .session (.ok id) => Function.update p.refs id (if received then .held else .gone)
  | _, _ => p.refs

/-- What a turn issued, over the tables of the store it started with. -/
def issuedBy (actor : Nat) (a : Actor) : Action → Reply → List Issue
  | .replica ns .syncSessionStart, .session (.ok id) => [⟨actor, id, ns, a.store.tables⟩]
  | _, _ => []

variable [Blake3] [Ed25519] (verify : SignedEntry → Bool)

/-- One step of the process; `none` where it cannot happen. -/
def step : Step → Option Process
  | .spawn store callbacks now =>
    some { p with
      nextActorId := p.nextActorId + 1
      actors := p.actors ++ [.spawn p.nextActorId store callbacks now] }
  | .turn actor now closed action received =>
    match p.actors[actor]? with
    | none => none
    | some a =>
      if p.mayTake a action then
        let (a', reply) := a.turn verify ⟨now, p.alive, closed, action⟩
        some { p with
          actors := p.actors.set actor a'
          refs := p.refsAfter received action reply
          issued := p.issued ++ issuedBy actor a action reply }
      else none
  | .tick actor now =>
    match p.actors[actor]? with
    | none => none
    | some a => some { p with actors := p.actors.set actor (a.reclaimAbandonedSessions now p.alive) }
  | .dropSession session sent =>
    if p.refs session = .held then
      some { p with refs := Function.update p.refs session (if sent then .queued else .gone) }
    else none

/-- No counter has wrapped around: fewer than 2^64 actors were spawned and sessions started. -/
def Unwrapped : Prop := p.actors.length < 2 ^ 64 ∧ p.issued.length < 2 ^ 64

end Process

/-! ## Invariants -/

section Lists

variable {α : Type} {l : List α} {i j : Nat} {x y : α}

theorem getElem?_set_some_cases (h : (l.set i x)[j]? = some y) : (j = i ∧ y = x) ∨ (j ≠ i ∧ l[j]? = some y) := by
  by_cases hij : i = j
  · subst hij
    obtain ⟨hlt, heq⟩ := List.getElem?_eq_some_iff.1 h
    exact .inl ⟨rfl, by rw [← heq, List.getElem_set_self]⟩
  · rw [List.getElem?_set_ne hij] at h
    exact .inr ⟨Ne.symm hij, h⟩

theorem getElem?_concat_some_cases (h : (l ++ [x])[j]? = some y) : l[j]? = some y ∨ (j = l.length ∧ y = x) := by
  rcases Nat.lt_trichotomy j l.length with hlt | rfl | hgt
  · rw [List.getElem?_append_left hlt] at h
    exact .inl h
  · rw [List.getElem?_concat_length, Option.some.injEq] at h
    exact .inr ⟨rfl, h.symm⟩
  · rw [List.getElem?_eq_none (by rw [List.length_append, List.length_singleton]; exact hgt)] at h
    cases h

theorem getElem?_set_of_some (h : l[i]? = some y) : (l.set i x)[i]? = some x := by
  rw [List.getElem?_set_self (List.getElem?_eq_some_iff.1 h).1]

end Lists

/-- Every registration is as issued, and its replica is open. -/
def Registered (p : Process) : Prop :=
  ∀ (i : Nat) (a : Actor), p.actors[i]? = some a → ∀ id s, a.sessions.get? id = some s →
    ⟨i, id, s.ns, s.tables⟩ ∈ p.issued ∧ id.actor = a.actorId ∧ (a.states.get? s.ns).isSome

theorem registered_init : Registered default := fun i a h => by cases h

/-- The counters are what they count. -/
structure Counted (p : Process) : Prop where
  nextActorId : p.nextActorId.val = p.actors.length
  actorId : ∀ (i : Nat) (a : Actor), p.actors[i]? = some a → a.actorId.val = i
  nextSessionId : ∀ (i : Nat) (a : Actor), p.actors[i]? = some a → a.nextSessionId.val ≤ p.issued.length
  /-- every issued id is below the counter of its actor -/
  below : ∀ x ∈ p.issued, ∃ a, p.actors[x.actor]? = some a ∧ x.id.actor = a.actorId ∧
    x.id.seq.val < a.nextSessionId.val
  once : (p.issued.map Issue.id).Nodup

theorem counted_init : Counted default where
  nextActorId := rfl
  actorId i a h := by cases h
  nextSessionId i a h := by cases h
  below x h := by cases h
  once := List.nodup_nil

namespace Registered

variable {p : Process} {i : Nat} {a a' : Actor}

/-- An actor does something that starts no session. -/
theorem set (h : Registered p) (ha : p.actors[i]? = some a) {released : SyncSessionId → Prop}
    (hk : KeepsSessions a a' released) (refs : SyncSessionId → Ref) :
    Registered { p with actors := p.actors.set i a', refs := refs } := by
  intro j b hb id s hs
  rcases getElem?_set_some_cases hb with ⟨rfl, rfl⟩ | ⟨-, hb⟩
  · obtain ⟨hmem, hactor, hopen⟩ := h j a ha id s (hk.sub id s hs)
    exact ⟨hmem, hactor.trans hk.actorId.symm, hk.opened id s hs hopen⟩
  · exact h j b hb id s hs

/-- An actor starts a session. -/
theorem issue (h : Registered p) (ha : p.actors[i]? = some a) {ns : NamespaceId} {b : Actor}
    {released : SyncSessionId → Prop} (hk : KeepsSessions a b released) (hstates : b.states = a.states)
    (hopen : (a.states.get? ns).isSome) (tables : Tables) (refs : SyncSessionId → Ref) :
    Registered { p with
      actors := p.actors.set i { b with
        nextSessionId := a.nextSessionId + 1
        sessions := b.sessions.insert ⟨a.actorId, a.nextSessionId⟩ ⟨ns, tables⟩ }
      refs := refs
      issued := p.issued ++ [⟨i, ⟨a.actorId, a.nextSessionId⟩, ns, tables⟩] } := by
  intro j c hc id s hs
  rcases getElem?_set_some_cases hc with ⟨rfl, rfl⟩ | ⟨-, hc⟩
  · rcases SortedMap.get?_insert_cases hs with ⟨rfl, rfl⟩ | ⟨-, hs⟩
    · refine ⟨List.mem_append_right _ (List.mem_singleton.2 rfl), hk.actorId.symm, ?_⟩
      show (b.states.get? ns).isSome
      rwa [hstates]
    · obtain ⟨hmem, hactor, hop⟩ := h.set ha hk refs j b (getElem?_set_of_some ha) id s hs
      exact ⟨List.mem_append_left _ hmem, hactor, hop⟩
  · obtain ⟨hmem, hactor, hop⟩ := h j c hc id s hs
    exact ⟨List.mem_append_left _ hmem, hactor, hop⟩

end Registered

namespace Counted

variable {p : Process} {i : Nat} {a a' : Actor}

/-- No registration is under an id still to come. -/
theorem ne_next (h : Counted p) (hr : Registered p) (ha : p.actors[i]? = some a) {id : SyncSessionId}
    {s : SessionSnapshot} (hs : a.sessions.get? id = some s) : id ≠ ⟨a.actorId, a.nextSessionId⟩ := by
  rintro rfl
  obtain ⟨b, hb, -, hlt⟩ := h.below _ (hr i a ha _ s hs).1
  obtain rfl : a = b := Option.some.inj (ha.symm.trans hb)
  exact lt_irrefl _ hlt

/-- No issued id is still to come. -/
theorem ne_next_of_issued (h : Counted p) (ha : p.actors[i]? = some a) {x : Issue} (hx : x ∈ p.issued) :
    x.id ≠ ⟨a.actorId, a.nextSessionId⟩ := by
  intro heq
  obtain ⟨b, hb, hactor, hlt⟩ := h.below x hx
  have hsame : x.actor = i := by
    rw [← h.actorId _ b hb, ← h.actorId i a ha, ← hactor, heq]
  rw [hsame] at hb
  obtain rfl : a = b := Option.some.inj (ha.symm.trans hb)
  rw [heq] at hlt
  exact lt_irrefl _ hlt

/-- An actor keeps its number, and its counter does not go back. -/
theorem below_set (h : Counted p) (ha : p.actors[i]? = some a) (hid : a'.actorId = a.actorId)
    (hnext : a.nextSessionId.val ≤ a'.nextSessionId.val) {x : Issue} (hx : x ∈ p.issued) :
    ∃ b, (p.actors.set i a')[x.actor]? = some b ∧ x.id.actor = b.actorId ∧
      x.id.seq.val < b.nextSessionId.val := by
  obtain ⟨b, hb, hactor, hlt⟩ := h.below x hx
  by_cases hi : x.actor = i
  · rw [hi] at hb ⊢
    obtain rfl : a = b := Option.some.inj (ha.symm.trans hb)
    exact ⟨a', getElem?_set_of_some ha, hactor.trans hid.symm, hlt.trans_le hnext⟩
  · rw [List.getElem?_set_ne (Ne.symm hi)]
    exact ⟨b, hb, hactor, hlt⟩

/-- An actor does something that starts no session. -/
theorem set (h : Counted p) (ha : p.actors[i]? = some a) (hid : a'.actorId = a.actorId)
    (hnext : a'.nextSessionId = a.nextSessionId) (refs : SyncSessionId → Ref) :
    Counted { p with actors := p.actors.set i a', refs := refs } where
  nextActorId := by rw [List.length_set]; exact h.nextActorId
  actorId j b hb := by
    rcases getElem?_set_some_cases hb with ⟨rfl, rfl⟩ | ⟨-, hb⟩
    · rw [hid]
      exact h.actorId j a ha
    · exact h.actorId j b hb
  nextSessionId j b hb := by
    rcases getElem?_set_some_cases hb with ⟨rfl, rfl⟩ | ⟨-, hb⟩
    · rw [hnext]
      exact h.nextSessionId j a ha
    · exact h.nextSessionId j b hb
  below _ hx := h.below_set ha hid (by rw [hnext]) hx
  once := h.once

/-- An actor starts a session, and neither counter wraps. -/
theorem issue (h : Counted p) (ha : p.actors[i]? = some a) {b : Actor} (hid : b.actorId = a.actorId)
    (hroom : p.issued.length + 1 < 2 ^ 64) (sessions : SortedMap SyncSessionId SessionSnapshot) (ns : NamespaceId)
    (tables : Tables) (refs : SyncSessionId → Ref) :
    Counted { p with
      actors := p.actors.set i { b with nextSessionId := a.nextSessionId + 1, sessions := sessions }
      refs := refs
      issued := p.issued ++ [⟨i, ⟨a.actorId, a.nextSessionId⟩, ns, tables⟩] } := by
  have hle := h.nextSessionId i a ha
  have hnext : (a.nextSessionId + 1).val = a.nextSessionId.val + 1 := val_add_one (by omega)
  refine ⟨by rw [List.length_set]; exact h.nextActorId, ?_, ?_, ?_, ?_⟩
  · intro j c hc
    rcases getElem?_set_some_cases hc with ⟨rfl, rfl⟩ | ⟨-, hc⟩
    · show b.actorId.val = j
      rw [hid]
      exact h.actorId j a ha
    · exact h.actorId j c hc
  · intro j c hc
    rw [List.length_append, List.length_singleton]
    rcases getElem?_set_some_cases hc with ⟨rfl, rfl⟩ | ⟨-, hc⟩
    · show (a.nextSessionId + 1).val ≤ _
      omega
    · exact (h.nextSessionId j c hc).trans (Nat.le_succ _)
  · intro x hx
    rcases List.mem_append.1 hx with hx | hx
    · let started : Actor := { b with nextSessionId := a.nextSessionId + 1, sessions := sessions }
      have hle' : a.nextSessionId.val ≤ started.nextSessionId.val := hnext.symm ▸ Nat.le_succ _
      have hid' : started.actorId = a.actorId := hid
      exact h.below_set ha hid' hle' hx
    · obtain rfl := List.mem_singleton.1 hx
      exact ⟨_, getElem?_set_of_some ha, hid.symm, hnext.symm ▸ Nat.lt_succ_self _⟩
  · rw [List.map_append, List.nodup_append]
    refine ⟨h.once, List.nodup_singleton _, ?_⟩
    intro id hmem id' hmem'
    obtain rfl := List.mem_singleton.1 hmem'
    obtain ⟨x, hx, rfl⟩ := List.mem_map.1 hmem
    exact h.ne_next_of_issued ha hx

/-- An actor is spawned. -/
theorem spawn (h : Counted p) (hroom : p.actors.length + 1 < 2 ^ 64) (store : FsStore) (callbacks : Callbacks)
    (now : Instant) : Counted { p with
      nextActorId := p.nextActorId + 1
      actors := p.actors ++ [.spawn p.nextActorId store callbacks now] } := by
  have hnext := h.nextActorId
  refine ⟨?_, ?_, ?_, ?_, h.once⟩
  · show (p.nextActorId + 1).val = _
    rw [val_add_one (by omega), List.length_append, List.length_singleton, hnext]
  · intro j c hc
    rcases getElem?_concat_some_cases hc with hc | ⟨rfl, rfl⟩
    · exact h.actorId j c hc
    · exact hnext
  · intro j c hc
    rcases getElem?_concat_some_cases hc with hc | ⟨rfl, rfl⟩
    · exact h.nextSessionId j c hc
    · exact Nat.zero_le _
  · intro x hx
    obtain ⟨c, hc, hx⟩ := h.below x hx
    refine ⟨c, ?_, hx⟩
    show (p.actors ++ _)[x.actor]? = some c
    rw [List.getElem?_append_left (List.getElem?_eq_some_iff.1 hc).1, hc]

end Counted

/-! ## Steps -/

section Steps

variable [Blake3] [Ed25519] (verify : SignedEntry → Bool) {p p' : Process}

omit [Blake3] [Ed25519] in
theorem issuedBy_eq_nil {i : Nat} {a : Actor} {action : Action} {reply : Reply}
    (h : ∀ id, reply ≠ .session (.ok id)) : Process.issuedBy i a action reply = [] := by
  unfold Process.issuedBy
  split
  · rename_i id
    exact absurd rfl (h id)
  · rfl

/-- **What a step of the process does**: it adds an actor, drops a reference, or one actor starts a session or
does something that starts none. -/
theorem step_cases {step : Step} (h : p.step verify step = some p') :
    (∃ store callbacks now, p' = { p with
      nextActorId := p.nextActorId + 1
      actors := p.actors ++ [.spawn p.nextActorId store callbacks now] }) ∨
    (∃ refs, p' = { p with refs := refs }) ∨
    (∃ i a b ns refs, p.actors[i]? = some a ∧ (a.states.get? ns).isSome ∧ b.states = a.states ∧
      KeepsSessions a b (fun id => p.alive id = false) ∧
      (∀ id s, a.sessions.get? id = some s → p.alive id = true → b.sessions.get? id = some s) ∧
      p' = { p with
        actors := p.actors.set i { b with
          nextSessionId := a.nextSessionId + 1
          sessions := b.sessions.insert ⟨a.actorId, a.nextSessionId⟩ ⟨ns, a.store.tables⟩ }
        refs := refs
        issued := p.issued ++ [⟨i, ⟨a.actorId, a.nextSessionId⟩, ns, a.store.tables⟩] }) ∨
    (∃ i a a' refs, p.actors[i]? = some a ∧
      KeepsSessions a a' (fun id => p.alive id = false ∨ p.refs id = .queued) ∧
      p' = { p with actors := p.actors.set i a', refs := refs }) := by
  cases step with
  | spawn store callbacks now =>
    cases h
    exact .inl ⟨store, callbacks, now, rfl⟩
  | dropSession session sent =>
    simp only [Process.step] at h
    split at h
    · cases h
      exact .inr (.inl ⟨_, rfl⟩)
    · cases h
  | tick i now =>
    cases ha : p.actors[i]? with
    | none => simp [Process.step, ha] at h
    | some a =>
      simp only [Process.step, ha, Option.some.injEq] at h
      subst h
      have hk := a.keepsSessions_reclaim now p.alive
      exact .inr (.inr (.inr ⟨i, a, _, p.refs, ha, hk.mono fun _ => .inl, rfl⟩))
  | turn i now closed action received =>
    cases ha : p.actors[i]? with
    | none => simp [Process.step, ha] at h
    | some a =>
      by_cases hmay : p.mayTake a action = true
      · simp only [Process.step, ha, hmay, if_true, Option.some.injEq] at h
        subst h
        rcases a.turn_cases verify ⟨now, p.alive, closed, action⟩ with ⟨ns, haction, hopen, heq⟩ | ⟨hk, hreply⟩
        · change action = .replica ns .syncSessionStart at haction
          subst haction
          refine .inr (.inr (.inl ⟨i, a, a.reclaimAbandonedSessions now p.alive, ns,
            p.refsAfter received (.replica ns .syncSessionStart) (.session (.ok ⟨a.actorId, a.nextSessionId⟩)),
            ha, hopen, a.states_reclaim now p.alive, a.keepsSessions_reclaim now p.alive,
            fun id s hs halive => a.get?_reclaim_of_alive hs halive, ?_⟩))
          rw [heq]
          rfl
        · refine .inr (.inr (.inr ⟨i, a, (a.turn verify ⟨now, p.alive, closed, action⟩).1,
            p.refsAfter received action (a.turn verify ⟨now, p.alive, closed, action⟩).2, ha, ?_, ?_⟩))
          · refine hk.mono ?_
            rintro id (hgone | hend)
            · exact .inl hgone
            · -- a release message is taken once it was sent
              change action = .syncSessionEnd id at hend
              subst hend
              simp only [Process.mayTake, decide_eq_true_eq] at hmay
              exact .inr hmay.2
          · rw [issuedBy_eq_nil hreply, List.append_nil]
      · simp [Process.step, ha, hmay] at h

/-- Step: the registrations stay as issued. -/
theorem registered_step {step : Step} (h : Registered p) (hstep : p.step verify step = some p') : Registered p' := by
  rcases step_cases verify hstep with ⟨store, callbacks, now, rfl⟩ | ⟨refs, rfl⟩ |
    ⟨i, a, b, ns, refs, ha, hopen, hstates, hk, -, rfl⟩ | ⟨i, a, a', refs, ha, hk, rfl⟩
  · intro j c hc id s hs
    rcases getElem?_concat_some_cases hc with hc | ⟨rfl, rfl⟩
    · exact h j c hc id s hs
    · cases hs
  · exact h
  · exact h.issue ha hk hstates hopen a.store.tables refs
  · exact h.set ha hk refs

/-- Step: the counters stay what they count, until one of them wraps. -/
theorem counted_step {step : Step} (h : p.Unwrapped → Counted p) (hstep : p.step verify step = some p')
    (hp' : p'.Unwrapped) : Counted p' := by
  obtain ⟨hactors, hissued⟩ := hp'
  rcases step_cases verify hstep with ⟨store, callbacks, now, rfl⟩ | ⟨refs, rfl⟩ |
    ⟨i, a, b, ns, refs, ha, -, -, hk, -, rfl⟩ | ⟨i, a, a', refs, ha, hk, rfl⟩
  · rw [List.length_append, List.length_singleton] at hactors
    exact (h ⟨by omega, hissued⟩).spawn hactors store callbacks now
  · have hc := h ⟨hactors, hissued⟩
    exact ⟨hc.nextActorId, hc.actorId, hc.nextSessionId, hc.below, hc.once⟩
  · rw [List.length_set] at hactors
    rw [List.length_append, List.length_singleton] at hissued
    exact (h ⟨hactors, by omega⟩).issue ha hk.actorId hissued _ ns a.store.tables refs
  · rw [List.length_set] at hactors
    exact (h ⟨hactors, hissued⟩).set ha hk.actorId hk.nextSessionId refs

/-- A registration whose handle is alive goes only when its replica, open before, is closed. -/
def RemovedOnlyByClose (p p' : Process) : Prop :=
  ∀ (i : Nat) (a : Actor), p.actors[i]? = some a → ∀ id s, a.sessions.get? id = some s → p.refs id = .held →
    ∃ a', p'.actors[i]? = some a' ∧ (a'.sessions.get? id = some s ∨
      ((a.states.get? s.ns).isSome ∧ a'.states.get? s.ns = none))

theorem removedOnlyByClose_step {step : Step} (hr : Registered p) (h : Counted p)
    (hstep : p.step verify step = some p') : RemovedOnlyByClose p p' := by
  intro i a ha id s hs hheld
  have halive : p.alive id = true := by simp [Process.alive, hheld]
  rcases step_cases verify hstep with ⟨store, callbacks, now, rfl⟩ | ⟨refs, rfl⟩ |
    ⟨j, c, b, ns, refs, hc, -, -, -, hkept, rfl⟩ | ⟨j, c, c', refs, hc, hk, rfl⟩
  · refine ⟨a, ?_, .inl hs⟩
    show (p.actors ++ _)[i]? = some a
    rw [List.getElem?_append_left (List.getElem?_eq_some_iff.1 ha).1, ha]
  · exact ⟨a, ha, .inl hs⟩
  · by_cases hij : i = j
    · subst hij
      obtain rfl : a = c := Option.some.inj (ha.symm.trans hc)
      refine ⟨_, getElem?_set_of_some ha, .inl ?_⟩
      rw [SortedMap.get?_insert_of_ne (h.ne_next hr ha hs)]
      exact hkept id s hs halive
    · refine ⟨a, ?_, .inl hs⟩
      show (p.actors.set j _)[i]? = some a
      rw [List.getElem?_set_ne (Ne.symm hij), ha]
  · by_cases hij : i = j
    · subst hij
      obtain rfl : a = c := Option.some.inj (ha.symm.trans hc)
      refine ⟨c', getElem?_set_of_some ha, ?_⟩
      rcases hk.kept id s hs with hreg | (hgone | hqueued) | hclosed
      · exact .inl hreg
      · rw [halive] at hgone
        cases hgone
      · rw [hheld] at hqueued
        cases hqueued
      · exact .inr ⟨(hr i a ha id s hs).2.2, hclosed⟩
    · refine ⟨a, ?_, .inl hs⟩
      show (p.actors.set j _)[i]? = some a
      rw [List.getElem?_set_ne (Ne.symm hij), ha]

/-! ## Rounds -/

/-- The reply is an error. -/
def Reply.fails : Reply → Bool
  | .message (.error _) => true
  | .round (.error _) => true
  | .refused => true
  | _ => false

/-- A session id presented to the actor with a namespace: both kinds of message fail, or run on the replica
over the tables that were frozen when the id was issued for that namespace by that actor. -/
def NamesOneView (p : Process) (i : Nat) (a : Actor) (ns : NamespaceId) (id : SyncSessionId) (now : Instant)
    (closed : ChannelId → Bool) : Prop :=
  ((∀ filter, (a.turn verify ⟨now, p.alive, closed, .replica ns (.syncInitialMessage id filter)⟩).2.fails) ∧
    ∀ m peer state filter clock,
      (a.turn verify ⟨now, p.alive, closed, .replica ns (.syncProcessMessage m peer state id filter clock)⟩).2.fails) ∨
  ∃ tables slot, id.actor = a.actorId ∧ ⟨i, id, ns, tables⟩ ∈ p.issued ∧ a.states.get? ns = some slot ∧
    (∀ filter, (a.turn verify ⟨now, p.alive, closed, .replica ns (.syncInitialMessage id filter)⟩).2 =
      .message ((syncInitialMessage (a.replicaOf slot (some tables)) filter).mapError .fault)) ∧
    ∀ m peer state filter clock,
      (a.turn verify ⟨now, p.alive, closed, .replica ns (.syncProcessMessage m peer state id filter clock)⟩).2 =
        .round (((syncProcessMessage verify clock (a.replicaOf slot (some tables)) m peer state filter).reply.map
          fun reply => (reply,
            (syncProcessMessage verify clock (a.replicaOf slot (some tables)) m peer state filter).state)).mapError
              .fault)

theorem namesOneView (h : Registered p) {i : Nat} {a : Actor} (ha : p.actors[i]? = some a) (ns : NamespaceId)
    (id : SyncSessionId) (now : Instant) (closed : ChannelId → Bool) :
    NamesOneView verify p i a ns id now closed := by
  unfold NamesOneView Actor.turn
  by_cases hstopped : a.stopped = true
  · simp only [hstopped, if_true]
    exact .inl ⟨fun _ => rfl, fun _ _ _ _ _ => rfl⟩
  · have hk := a.keepsSessions_reclaim now p.alive
    simp only [hstopped, Bool.false_eq_true, if_false, Actor.onAction, Actor.onReplicaAction]
    cases hr : (a.reclaimAbandonedSessions now p.alive).sessionReplica ns id with
    | error err => exact .inl ⟨fun _ => rfl, fun _ _ _ _ _ => rfl⟩
    | ok r =>
      obtain ⟨tables, slot, hs, hslot, -, rfl⟩ := Actor.of_sessionReplica hr
      obtain ⟨hmem, hactor, -⟩ := h i a ha id _ (hk.sub id _ hs)
      have hreplica : (a.reclaimAbandonedSessions now p.alive).replicaOf slot (some tables) =
          a.replicaOf slot (some tables) := by
        rcases a.reclaim_cases now p.alive with heq | heq
        · rw [heq]
        · rw [heq]
          rfl
      rw [a.states_reclaim now p.alive] at hslot
      refine .inr ⟨tables, slot, hactor, hmem, hslot, ?_, ?_⟩
      · intro filter
        rw [hreplica]
      · intro m peer st filter clock
        rw [hreplica]

/-- **A session id always means the same frozen view**, along every run of a process and whichever
actor, namespace and id a message names. A message either fails or runs on the tables a session start froze under
that id, and a replica that is not open has no session. Until a counter wraps around, no id is issued twice, and a
registration whose handle is alive goes only with its replica. -/
theorem session_id_names_one_view (steps : List Step)
    (hrun : runs (fun q step => Process.step q verify step) default steps = some p) :
    (p.Unwrapped → (p.issued.map Issue.id).Nodup) ∧
    (∀ (i : Nat) (a : Actor), p.actors[i]? = some a → ∀ ns id now closed, NamesOneView verify p i a ns id now closed) ∧
    (∀ step p', p.step verify step = some p' → p.Unwrapped → RemovedOnlyByClose p p') ∧
    ∀ (i : Nat) (a : Actor), p.actors[i]? = some a → ∀ ns, a.states.get? ns = none →
      ∀ id s, a.sessions.get? id = some s → s.ns ≠ ns := by
  have hregistered : Registered p :=
    invariant_runs (fun _ _ _ hq hstep => registered_step verify hq hstep) steps registered_init hrun
  have hcounted : p.Unwrapped → Counted p :=
    invariant_runs (I := fun q => q.Unwrapped → Counted q) (fun _ _ _ hq hstep => counted_step verify hq hstep) steps
      (fun _ => counted_init) hrun
  refine ⟨fun hp => (hcounted hp).once, ?_, ?_, ?_⟩
  · intro i a ha ns id now closed
    exact namesOneView verify hregistered ha ns id now closed
  · intro step p' hp' hp
    exact removedOnlyByClose_step verify hregistered (hcounted hp) hp'
  · rintro i a ha ns hnone id s hs rfl
    have hopen := (hregistered i a ha id s hs).2.2
    rw [hnone] at hopen
    cases hopen

end Steps

section

local instance sessionDigest : Blake3 := noDigest

/-- A scheme in which the public key is the secret one. -/
local instance sessionKeys : Ed25519 := ⟨id⟩

/-- Two sessions, with an entry written in between. The release of the second is lost, and it is swept. -/
def sampleSteps : List Step :=
  [.spawn ((default : FsStore).run [.importNamespace (.write zeros32)]) ⟨none, none, false⟩ 0,
    .turn 0 10 (fun _ => false) (.replica zeros32 (.open true none)) true,
    .turn 0 20 (fun _ => false) (.replica zeros32 .syncSessionStart) true,
    .turn 0 30 (fun _ => false) (.replica zeros32 (.insertLocal zeros32
      (some fun _ => (sampleEntry [1] ⟨7, zeros32, 3⟩).signature) [1] zeros32 7 3 5)) true,
    .turn 0 40 (fun _ => false) (.replica zeros32 .syncSessionStart) true, .dropSession ⟨0, 1⟩ false, .tick 0 600]

theorem sampleSteps_possible :
    (runs (fun q step => Process.step q (fun _ => true) step) default sampleSteps).isSome := by
  decide +kernel

/-- Two ids were issued. The second one is no longer registered; the first one still means the empty tables of its
start, though there is an entry now. -/
theorem session_id_names_one_view_sample :
    ∃ p a, runs (fun q step => Process.step q (fun _ => true) step) default sampleSteps = some p ∧
      p.actors[0]? = some a ∧ p.issued.map Issue.id = [⟨0, 0⟩, ⟨0, 1⟩] ∧ (p.issued.map Issue.id).Nodup ∧
      a.sessions.toList.map Prod.fst = [⟨0, 0⟩] ∧ a.store.tables.records.toList.length = 1 ∧
      ∃ tables slot, tables.records.toList = [] ∧
        (a.turn (fun _ => true) ⟨700, p.alive, fun _ => false,
          .replica zeros32 (.syncInitialMessage ⟨0, 0⟩ none)⟩).2 =
            .message ((syncInitialMessage (a.replicaOf slot (some tables)) none).mapError .fault) := by
  obtain ⟨p, hp⟩ := Option.isSome_iff_exists.1 sampleSteps_possible
  obtain ⟨honce, hview, -, -⟩ := session_id_names_one_view (fun _ => true) sampleSteps hp
  have hissued : (runs (fun q step => Process.step q (fun _ => true) step) default sampleSteps).map (fun p =>
      (p.actors.length, p.issued.map fun x => (x.id, x.tables.records.toList.length))) =
        some (1, [(⟨0, 0⟩, 0), (⟨0, 1⟩, 1)]) := by decide +kernel
  have hactor : ((runs (fun q step => Process.step q (fun _ => true) step) default sampleSteps).bind fun p =>
      p.actors[0]?.map fun a => (a.sessions.toList.map Prod.fst, a.store.tables.records.toList.length,
        (a.turn (fun _ => true) ⟨700, p.alive, fun _ => false,
          .replica zeros32 (.syncInitialMessage ⟨0, 0⟩ none)⟩).2.fails)) = some ([⟨0, 0⟩], 1, false) := by
    decide +kernel
  rw [hp] at hissued hactor
  obtain ⟨hone, hids⟩ := Prod.mk.inj (Option.some.inj hissued)
  obtain ⟨a, ha, hfacts⟩ := Option.map_eq_some_iff.1 hactor
  obtain ⟨hsessions, hrest⟩ := Prod.mk.inj hfacts
  obtain ⟨hrecords, hlive⟩ := Prod.mk.inj hrest
  have hid : p.issued.map Issue.id = [⟨0, 0⟩, ⟨0, 1⟩] := by
    have := congrArg (List.map Prod.fst) hids
    rwa [List.map_map] at this
  have htwo : p.issued.length = 2 := by simpa using congrArg List.length hid
  refine ⟨p, a, hp, ha, hid, honce ⟨by rw [hone]; decide, by rw [htwo]; decide⟩, hsessions, hrecords, ?_⟩
  rcases hview 0 a ha zeros32 ⟨0, 0⟩ 700 fun _ => false with ⟨hfails, -⟩ | ⟨tables, slot, -, hmem, -, hinitial, -⟩
  · have hdead := hfails none
    rw [hlive] at hdead
    cases hdead
  · have hempty : ((⟨0, 0⟩ : SyncSessionId), tables.records.toList.length) ∈
        [((⟨0, 0⟩ : SyncSessionId), 0), (⟨0, 1⟩, 1)] := hids ▸ List.mem_map_of_mem hmem
    exact ⟨tables, slot, by simpa using hempty, hinitial none⟩

end

end PdnStore.Actors

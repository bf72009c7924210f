import PdnStore.Lib.Runs
import PdnStore.Store.Put
import Mathlib.Data.Finset.Insert

/-!
# Protecting the blobs of documents from garbage collection (engine.rs:97-124, 530-590, fs.rs:554-558)

The garbage collector of the blob store asks a callback which hashes are live. The callback hands the
protect task of the engine a oneshot sender, gets the receiving end of a channel back, inserts every hash
that comes through it, and reports `Continue` when the channel closes. The task takes a snapshot of the
store and sends its content hashes one by one; it lives in an `AbortOnDropHandle`, so dropping the engine
ends it at any of its await points.

The channel closes when the task has sent everything, and also when the task is aborted. The callback
cannot tell the two apart, so it reports `Continue` with hashes missing exactly when the task is aborted
while it owes some to a callback that still listens (`protect_all_or_nothing_iff`).

| here | there |
| --- | --- |
| `Task`      | where the protect task stands (`engine.rs:98-124`), `gone` when it has returned or was aborted |
| `Callback`  | one call of the `ProtectCb` (`engine.rs:560-588`); a channel whose receiving end is still in the oneshot counts as received |
| `System.queue` | the start channel of capacity 4: the oneshot senders of the calls not yet taken up |
| `Snapshot`  | the table a `ContentHashesIterator` runs over; an item is an error where a row cannot be read |
-/

namespace PdnStore.Engine.Protect

open Fs

/-! ## The task, the callbacks and their channels -/

/-- An item of `ContentHashesIterator` (fs.rs:1082). -/
abbrev Item := Except String Hash

/-- The store as a `content_hashes` call froze it (fs.rs:555), and the rows that fail to read. -/
structure Snapshot where
  tables : Tables
  unreadable : RecordsId → Option String

/-- What the iterator yields for a row. -/
def Snapshot.item (s : Snapshot) (r : RecordsId × RecordsValue) : Item :=
  match s.unreadable r.1 with
  | some err => .error err
  | none => .ok r.2.hash

/-- The items of `ContentHashesIterator::all` (fs.rs:1076). -/
def Snapshot.items (s : Snapshot) : List Item := s.tables.records.toList.map s.item

/-- `ProtectOutcome` of iroh-blobs. -/
inductive ProtectOutcome where
  | «continue»
  | abort
deriving DecidableEq, Repr

/-- A call of the protect callback, with the `live` set it was given. -/
inductive Callback where
  | absent
  /-- in `start_tx.send(tx).await` -/
  | starting (live : Finset Hash)
  /-- in `rx.await` on the oneshot -/
  | waiting (live : Finset Hash)
  /-- in `rx.recv().await`, with what the channel holds -/
  | receiving (live : Finset Hash) (buffer : List Item)
  | returned (outcome : ProtectOutcome) (live : Finset Hash)
  /-- the future was dropped by its caller -/
  | dropped
deriving DecidableEq

/-- The protect task. -/
inductive Task where
  /-- in `protect_handler.0.recv().await` -/
  | idle
  /-- holds the oneshot sender of a request -/
  | received (r : Nat)
  /-- has handed the channel over, in `sync2.content_hashes().await` -/
  | handed (r : Nat)
  /-- in `tx.send(Err(err)).await` -/
  | failing (r : Nat) (err : String)
  /-- in the loop over the hashes -/
  | sending (r : Nat) (rest : List Item)
  | gone
deriving DecidableEq

structure System where
  task : Task
  queue : List Nat
  cb : Nat → Callback
  /-- the snapshot taken for a request -/
  snapshot : Nat → Option Snapshot

/-- The engine has just been spawned. -/
instance : Inhabited System := ⟨⟨.idle, [], fun _ => .absent, fun _ => none⟩⟩

def System.setCb (s : System) (r : Nat) (c : Callback) : System := { s with cb := Function.update s.cb r c }

/-- The oneshot sender of the request still exists. -/
def System.oneshotAlive (s : System) (r : Nat) : Bool := r ∈ s.queue || s.task = .received r

/-- The sending end of the request's channel still exists. -/
def Task.holds (r : Nat) : Task → Bool
  | .handed q | .failing q _ | .sending q _ => q = r
  | _ => false

/-! ## Steps -/

inductive Action where
  /-- the garbage collector calls the callback -/
  | call (r : Nat) (live : Finset Hash)
  /-- `start_tx.send(tx).await` completes -/
  | start (r : Nat)
  /-- the task receives a request -/
  | take
  /-- the task hands the channel over -/
  | hand
  /-- `content_hashes` answers -/
  | fetch (res : Except String Snapshot)
  /-- the task sends one item, or ends the loop -/
  | forward
  /-- the task is aborted, or returns -/
  | abort
  /-- the callback finds the oneshot sender dropped -/
  | poll (r : Nat)
  /-- the callback receives from its channel -/
  | recv (r : Nat)
  /-- the callback is dropped -/
  | cancel (r : Nat)

/-- `tx.send(item).await` to the callback of `r` on the channel of capacity 64 (engine.rs:103-118); a send to
a dropped receiver fails, and the task goes back for the next request. -/
def System.deliver (s : System) (r : Nat) (item : Item) (next : Task) : Option System :=
  match s.cb r with
  | .receiving live buffer =>
    if buffer.length < 64 then some { s.setCb r (.receiving live (buffer ++ [item])) with task := next }
    else none
  | _ => some { s with task := .idle }

/-- One step of the task (engine.rs:102-122) or of a callback (engine.rs:563-587); `none` where it would
have to wait. -/
def step (s : System) : Action → Option System
  | .call r live =>
    match s.cb r with
    | .absent => some (s.setCb r (.starting live))
    | _ => none
  | .start r =>
    match s.cb r with
    | .starting live =>
      if s.task = .gone then some (s.setCb r (.returned .abort live))
      else if s.queue.length < 4 then some { s.setCb r (.waiting live) with queue := s.queue ++ [r] }
      else none
    | _ => none
  | .take =>
    match s.task, s.queue with
    | .idle, r :: queue => some { s with task := .received r, queue := queue }
    | _, _ => none
  | .hand =>
    match s.task with
    | .received r =>
      match s.cb r with
      | .waiting live => some { s.setCb r (.receiving live []) with task := .handed r }
      | _ => some { s with task := .idle }
    | _ => none
  | .fetch res =>
    match s.task with
    | .handed r =>
      match res with
      | .ok snap =>
        some { s with task := .sending r snap.items, snapshot := Function.update s.snapshot r (some snap) }
      | .error err => some { s with task := .failing r err }
    | _ => none
  | .forward =>
    match s.task with
    | .failing r err => s.deliver r (.error err) .idle
    | .sending _ [] => some { s with task := .idle }
    | .sending r (item :: rest) => s.deliver r item (.sending r rest)
    | _ => none
  | .abort =>
    match s.task with
    | .gone => none
    | _ => some { s with task := .gone, queue := [] }
  | .poll r =>
    match s.cb r with
    | .waiting live => if s.oneshotAlive r then none else some (s.setCb r (.returned .abort live))
    | _ => none
  | .recv r =>
    match s.cb r with
    | .receiving live (.ok hash :: buffer) => some (s.setCb r (.receiving (insert hash live) buffer))
    | .receiving live (.error _ :: _) => some (s.setCb r (.returned .abort live))
    | .receiving live [] => if s.task.holds r then none else some (s.setCb r (.returned .continue live))
    | _ => none
  | .cancel r =>
    match s.cb r with
    | .starting _ | .waiting _ | .receiving _ _ => some (s.setCb r .dropped)
    | _ => none

/-! ## The property and the condition -/

/-- Every row of the snapshot was read, and its hash is in `live`. -/
def Snapshot.Protected (snap : Snapshot) (live : Finset Hash) : Prop :=
  ∀ row ∈ snap.tables.records.toList, snap.unreadable row.1 = none ∧ row.2.hash ∈ live

/-- A callback that has returned `Continue` has protected the snapshot taken for it. -/
def AllOrNothing (s : System) : Prop :=
  ∀ r live, s.cb r = .returned .continue live → ∃ snap, s.snapshot r = some snap ∧ snap.Protected live

/-- The item is a hash that is inserted, or about to be. -/
def Passed (live : Finset Hash) (buffer : List Item) (item : Item) : Prop :=
  ∃ hash, item = .ok hash ∧ (hash ∈ live ∨ .ok hash ∈ buffer)

def Failed (buffer : List Item) : Prop := ∃ err, .error err ∈ buffer

/-- Aborting the task here owes nothing to a callback that still listens: either nobody listens, or an
error is already on its way, or every hash that is left has been passed on before. -/
def SafeAbort (s : System) : Prop :=
  match s.task with
  | .handed r | .failing r _ => ∀ live buffer, s.cb r ≠ .receiving live buffer
  | .sending r rest => ∀ live buffer, s.cb r = .receiving live buffer →
      Failed buffer ∨ ∀ item ∈ rest, Passed live buffer item
  | _ => True

/-- The condition on a step: an abort is safe. -/
def Meets (s : System) (a : Action) (_ : System) : Prop := a = .abort → SafeAbort s

/-! ## The invariant -/

/-- Where the task stands with a request: it holds the sending end of its channel before the hashes are
known or while `rest` is still to be sent, or it does not hold it. -/
inductive Role where
  | fetching
  | sending (rest : List Item)
  | away

def Task.role (r : Nat) : Task → Role
  | .handed q => if q = r then .fetching else .away
  | .failing q _ => if q = r then .fetching else .away
  | .sending q rest => if q = r then .sending rest else .away
  | _ => .away

/-- What the task, the callback and the snapshot of a request have to do with each other: a listening
callback has been passed every item that is not still to be sent, or an error. -/
def Good (role : Role) (c : Callback) (snapshot : Option Snapshot) : Prop :=
  match role with
  | .fetching => snapshot = none ∧ ((∃ live, c = .receiving live []) ∨ c = .dropped)
  | .sending rest => ∃ snap, snapshot = some snap ∧ (∀ item ∈ rest, item ∈ snap.items) ∧
      (c = .dropped ∨ (∃ live, c = .returned .abort live) ∨ ∃ live buffer, c = .receiving live buffer ∧
        (Failed buffer ∨ ∀ item ∈ snap.items, item ∈ rest ∨ Passed live buffer item))
  | .away =>
    match c with
    | .absent | .starting _ | .waiting _ => snapshot = none
    | .receiving live buffer =>
      Failed buffer ∨ ∃ snap, snapshot = some snap ∧ ∀ item ∈ snap.items, Passed live buffer item
    | .returned .continue live => ∃ snap, snapshot = some snap ∧ snap.Protected live
    | .returned .abort _ | .dropped => True

def Inv (s : System) : Prop := ∀ r, Good (s.task.role r) (s.cb r) (s.snapshot r)

theorem inv_default : Inv default := by
  intro r
  exact rfl

/-- Before the hashes are known the task may go if nobody listens. -/
theorem Good.away_of_fetching {c : Callback} {snapshot : Option Snapshot} (h : Good .fetching c snapshot)
    (hsafe : ∀ live buffer, c ≠ .receiving live buffer) : Good .away c snapshot := by
  obtain ⟨-, ⟨live, rfl⟩ | rfl⟩ := h
  · exact absurd rfl (hsafe live [])
  · trivial

/-- Before the hashes are known a listener has been passed nothing. -/
theorem Good.fetching_receiving {live : Finset Hash} {buffer : List Item} {snapshot : Option Snapshot}
    (h : Good .fetching (.receiving live buffer) snapshot) : snapshot = none ∧ buffer = [] := by
  obtain ⟨hsnap, ⟨live', hcb⟩ | hcb⟩ := h
  · cases hcb
    exact ⟨hsnap, rfl⟩
  · cases hcb

theorem Inv.allOrNothing {s : System} (h : Inv s) : AllOrNothing s := by
  intro r live hr
  have hg := h r
  rw [hr] at hg
  cases hrole : s.task.role r with
  | fetching => simp [hrole, Good] at hg
  | sending rest => simp [hrole, Good] at hg
  | away =>
    rw [hrole] at hg
    exact hg

/-- Only the request `r` is concerned by the step. -/
theorem Inv.update {s : System} (h : Inv s) (r : Nat) (task : Task) (queue : List Nat) (c : Callback)
    (hrole : ∀ q, q ≠ r → task.role q = s.task.role q) (hself : Good (task.role r) c (s.snapshot r)) :
    Inv ⟨task, queue, Function.update s.cb r c, s.snapshot⟩ := by
  intro q
  by_cases hq : q = r
  · subst hq
    simpa using hself
  · simpa [hrole q hq, hq] using h q

/-- The task alone moves, from or to the request `r`. -/
theorem Inv.move {s : System} (h : Inv s) (r : Nat) (task : Task) (queue : List Nat)
    (hrole : ∀ q, q ≠ r → task.role q = s.task.role q)
    (hself : Good (task.role r) (s.cb r) (s.snapshot r)) : Inv ⟨task, queue, s.cb, s.snapshot⟩ := by
  have := h.update r task queue (s.cb r) hrole hself
  rwa [Function.update_eq_self] at this

theorem role_away {task : Task} {r : Nat} (h : task.holds r = false) : task.role r = .away := by
  cases task <;> simp_all [Task.holds, Task.role]

theorem Passed.insert {live : Finset Hash} {hash : Hash} {buffer : List Item} {item : Item}
    (h : Passed live (.ok hash :: buffer) item) : Passed (insert hash live) buffer item := by
  obtain ⟨hash', rfl, hl | hb⟩ := h
  · exact ⟨hash', rfl, .inl (Finset.mem_insert_of_mem hl)⟩
  · rcases List.mem_cons.1 hb with heq | hb
    · cases heq
      exact ⟨hash, rfl, .inl (Finset.mem_insert_self hash live)⟩
    · exact ⟨hash', rfl, .inr hb⟩

theorem Passed.snoc {live : Finset Hash} {buffer : List Item} {item : Item} (x : Item)
    (h : Passed live buffer item) : Passed live (buffer ++ [x]) item := by
  obtain ⟨hash, rfl, hl | hb⟩ := h
  · exact ⟨hash, rfl, .inl hl⟩
  · exact ⟨hash, rfl, .inr (List.mem_append_left _ hb)⟩

theorem Failed.snoc {buffer : List Item} (x : Item) (h : Failed buffer) : Failed (buffer ++ [x]) := by
  obtain ⟨err, herr⟩ := h
  exact ⟨err, List.mem_append_left _ herr⟩

theorem Failed.tail {hash : Hash} {buffer : List Item} (h : Failed (.ok hash :: buffer)) :
    Failed buffer := by
  obtain ⟨err, herr⟩ := h
  exact ⟨err, by simpa using herr⟩

theorem protected_of_passed {snap : Snapshot} {live : Finset Hash}
    (h : ∀ item ∈ snap.items, Passed live [] item) : snap.Protected live := by
  intro row hrow
  obtain ⟨hash, hitem, hl⟩ := h _ (List.mem_map_of_mem hrow)
  unfold Snapshot.item at hitem
  split at hitem
  · cases hitem
  · cases hitem
    exact ⟨‹_›, by simpa using hl⟩

/-- A send keeps the invariant: the item is passed on, or nobody listens. -/
theorem Inv.deliver {s s' : System} (h : Inv s) {r : Nat} {item : Item} {next : Task}
    (hrole : ∀ q, q ≠ r → next.role q = s.task.role q ∧ Task.role q .idle = s.task.role q)
    (hidle : (∀ live buffer, s.cb r ≠ .receiving live buffer) →
      Good .away (s.cb r) (s.snapshot r))
    (hsend : ∀ live buffer, s.cb r = .receiving live buffer →
      Good (next.role r) (.receiving live (buffer ++ [item])) (s.snapshot r))
    (hstep : s.deliver r item next = some s') : Inv s' := by
  unfold System.deliver at hstep
  split at hstep
  next live buffer heq =>
    split at hstep
    · cases hstep
      exact h.update r next s.queue _ (fun q hq => (hrole q hq).1) (hsend live buffer heq)
    · cases hstep
  next hne =>
    cases hstep
    exact h.move r .idle s.queue (fun q hq => (hrole q hq).2) (hidle hne)

theorem inv_forward {s s' : System} (h : Inv s) (hstep : step s .forward = some s') : Inv s' := by
  have hg := h
  cases htask : s.task with
  | failing r err =>
    simp only [step, htask] at hstep
    have hself := h r
    simp only [htask, Task.role, if_true, Good] at hself
    refine h.deliver (fun q hq => ?_) (fun hne => ?_) (fun live buffer hcb => ?_) hstep
    · simp [htask, Task.role, Ne.symm hq]
    · rcases hself.2 with ⟨live, hcb⟩ | hcb
      · exact absurd hcb (hne live [])
      · simp [hcb, Good]
    · exact .inl ⟨err, by simp⟩
  | sending r rest =>
    have hself := h r
    simp only [htask, Task.role, if_true, Good] at hself
    obtain ⟨snap, hsnap, hrest, hcb⟩ := hself
    cases rest with
    | nil =>
      simp only [step, htask, Option.some.injEq] at hstep
      subst hstep
      refine h.move r .idle s.queue (fun q hq => ?_) ?_
      · simp [htask, Task.role, Ne.symm hq]
      · rcases hcb with hcb | ⟨live, hcb⟩ | ⟨live, buffer, hcb, hpass⟩
        · simp [hcb, Task.role, Good]
        · simp [hcb, Task.role, Good]
        · rw [hcb]
          refine hpass.imp_right fun hpass => ⟨snap, hsnap, fun item hitem => ?_⟩
          simpa using hpass item hitem
    | cons item rest =>
      simp only [step, htask] at hstep
      refine h.deliver (fun q hq => ?_) (fun hne => ?_) (fun live buffer hrecv => ?_) hstep
      · simp [htask, Task.role, Ne.symm hq]
      · rcases hcb with hcb | ⟨live, hcb⟩ | ⟨live, buffer, hcb, -⟩
        · simp [hcb, Good]
        · simp [hcb, Good]
        · exact absurd hcb (hne live buffer)
      · simp only [Task.role, if_true]
        refine ⟨snap, hsnap, fun x hx => hrest x (List.mem_cons_of_mem item hx), .inr (.inr ?_)⟩
        refine ⟨live, buffer ++ [item], rfl, ?_⟩
        rcases hcb with hcb | ⟨live', hcb⟩ | ⟨live', buffer', hcb, hpass⟩
        · rw [hcb] at hrecv; cases hrecv
        · rw [hcb] at hrecv; cases hrecv
        · rw [hcb] at hrecv
          cases hrecv
          rcases hpass with hf | hpass
          · exact .inl (hf.snoc item)
          · -- an item that is an error fails the buffer, a hash is passed
            cases item with
            | error err => exact .inl ⟨err, by simp⟩
            | ok hash =>
              refine .inr fun x hx => ?_
              rcases hpass x hx with hmem | hp
              · rcases List.mem_cons.1 hmem with rfl | hmem
                · exact .inr ⟨hash, rfl, .inr (by simp)⟩
                · exact .inl hmem
              · exact .inr (hp.snoc _)
  | idle => simp [step, htask] at hstep
  | received r => simp [step, htask] at hstep
  | handed r => simp [step, htask] at hstep
  | gone => simp [step, htask] at hstep

/-- An abort drops what the task holds, and the requests it has not taken up. -/
theorem abort_eq {s s' : System} (hstep : step s .abort = some s') :
    s' = { s with task := .gone, queue := [] } := by
  simp only [step] at hstep
  split at hstep
  · cases hstep
  · cases hstep
    rfl

theorem inv_abort {s s' : System} (h : Inv s) (hsafe : SafeAbort s) (hstep : step s .abort = some s') :
    Inv s' := by
  obtain rfl := abort_eq hstep
  intro r
  have hself := h r
  show Good .away (s.cb r) (s.snapshot r)
  by_cases hholds : s.task.holds r = false
  · rwa [role_away hholds] at hself
  · cases htask : s.task with
    | handed q =>
      obtain rfl : q = r := by simpa [htask, Task.holds] using hholds
      simp only [htask, Task.role, if_true] at hself
      simp only [SafeAbort, htask] at hsafe
      exact hself.away_of_fetching hsafe
    | failing q err =>
      obtain rfl : q = r := by simpa [htask, Task.holds] using hholds
      simp only [htask, Task.role, if_true] at hself
      simp only [SafeAbort, htask] at hsafe
      exact hself.away_of_fetching hsafe
    | sending q rest =>
      obtain rfl : q = r := by simpa [htask, Task.holds] using hholds
      simp only [htask, Task.role, if_true, Good] at hself
      simp only [SafeAbort, htask] at hsafe
      obtain ⟨snap, hsnap, hrest, hcb | ⟨live, hcb⟩ | ⟨live, buffer, hcb, hpass⟩⟩ := hself
      · simp [hcb, Good]
      · simp [hcb, Good]
      · rw [hcb]
        rcases hsafe live buffer hcb with hf | hall
        · exact .inl hf
        · refine hpass.imp_right fun hpass => ⟨snap, hsnap, fun item hitem => ?_⟩
          rcases hpass item hitem with hmem | hp
          · exact hall item hmem
          · exact hp
    | idle => simp [htask, Task.holds] at hholds
    | received q => simp [htask, Task.holds] at hholds
    | gone => simp [htask, Task.holds] at hholds

theorem inv_recv {s s' : System} (h : Inv s) {r : Nat} (hstep : step s (.recv r) = some s') : Inv s' := by
  have hself := h r
  simp only [step] at hstep
  split at hstep
  next live hash buffer hcb =>
    cases hstep
    refine h.update r s.task s.queue _ (fun _ _ => rfl) ?_
    rw [hcb] at hself
    cases hrole : s.task.role r with
    | fetching => simp [hrole, Good] at hself
    | sending rest =>
      simp only [hrole, Good] at hself
      obtain ⟨snap, hsnap, hrest, hc | ⟨_, hc⟩ | ⟨live', buffer', hc, hpass⟩⟩ := hself
      · cases hc
      · cases hc
      · cases hc
        refine ⟨snap, hsnap, hrest, .inr (.inr ⟨_, _, rfl, ?_⟩)⟩
        exact hpass.imp Failed.tail fun hpass item hitem => (hpass item hitem).imp_right Passed.insert
    | away =>
      simp only [hrole, Good] at hself
      refine hself.imp Failed.tail ?_
      rintro ⟨snap, hsnap, hpass⟩
      exact ⟨snap, hsnap, fun item hitem => (hpass item hitem).insert⟩
  next live err buffer hcb =>
    cases hstep
    refine h.update r s.task s.queue _ (fun _ _ => rfl) ?_
    rw [hcb] at hself
    cases hrole : s.task.role r with
    | fetching => simp [hrole, Good] at hself
    | sending rest =>
      simp only [hrole, Good] at hself
      obtain ⟨snap, hsnap, hrest, -⟩ := hself
      exact ⟨snap, hsnap, hrest, .inr (.inl ⟨live, rfl⟩)⟩
    | away => trivial
  next live hcb =>
    split at hstep
    · cases hstep
    · rename_i hholds
      cases hstep
      have haway := role_away (by simpa using hholds)
      refine h.update r s.task s.queue _ (fun _ _ => rfl) ?_
      rw [hcb, haway] at hself
      rw [haway]
      rcases hself with ⟨err, herr⟩ | ⟨snap, hsnap, hpass⟩
      · cases herr
      · exact ⟨snap, hsnap, protected_of_passed hpass⟩
  next => cases hstep

/-- A callback that has not received its channel yet. -/
def Callback.Fresh : Callback → Prop
  | .absent | .starting _ | .waiting _ => True
  | _ => False

/-- The task does not hold the channel of a fresh callback, and there is no snapshot for it. -/
theorem good_fresh_iff {role : Role} {c : Callback} {snapshot : Option Snapshot} (hc : c.Fresh) :
    Good role c snapshot ↔ role = .away ∧ snapshot = none := by
  cases c with
  | absent => cases role <;> simp [Good]
  | starting live => cases role <;> simp [Good]
  | waiting live => cases role <;> simp [Good]
  | receiving live buffer => cases hc
  | returned outcome live => cases hc
  | dropped => cases hc

theorem Inv.fresh {s : System} (h : Inv s) {r : Nat} (hc : (s.cb r).Fresh) :
    s.task.role r = .away ∧ s.snapshot r = none :=
  (good_fresh_iff hc).1 (h r)

theorem inv_hand {s s' : System} (h : Inv s) (hstep : step s .hand = some s') : Inv s' := by
  simp only [step] at hstep
  split at hstep
  next r htask =>
    split at hstep
    next live hcb =>
      cases hstep
      refine h.update r (.handed r) s.queue _ (fun q hq => ?_) ?_
      · simp [htask, Task.role, Ne.symm hq]
      · simp only [Task.role, if_true]
        exact ⟨(h.fresh (hcb ▸ trivial)).2, .inl ⟨live, rfl⟩⟩
    next =>
      cases hstep
      refine h.move r .idle s.queue (fun q _ => by simp [htask, Task.role]) ?_
      have hself := h r
      rwa [htask] at hself
  next => cases hstep

theorem inv_fetch {s s' : System} (h : Inv s) {res : Except String Snapshot}
    (hstep : step s (.fetch res) = some s') : Inv s' := by
  simp only [step] at hstep
  split at hstep
  next r htask =>
    have hself := h r
    simp only [htask, Task.role, if_true, Good] at hself
    cases res with
    | error err =>
      cases hstep
      refine h.move r (.failing r err) s.queue (fun q hq => ?_) ?_
      · simp [htask, Task.role, Ne.symm hq]
      · simpa [Task.role, Good] using hself
    | ok snap =>
      cases hstep
      intro q
      by_cases hq : q = r
      · subst hq
        simp only [Task.role, if_true, Function.update_self]
        refine ⟨snap, rfl, fun item hitem => hitem, ?_⟩
        rcases hself.2 with ⟨live, hcb⟩ | hcb
        · exact .inr (.inr ⟨live, [], hcb, .inr fun item hitem => .inl hitem⟩)
        · exact .inl hcb
      · have := h q
        simp only [htask, Task.role, Ne.symm hq, if_false] at this
        simpa [Task.role, Ne.symm hq, hq] using this
  next => cases hstep

/-- The callback of `r` moves without reading its channel. -/
theorem Inv.setCb {s : System} (h : Inv s) {r : Nat} {c : Callback} (queue : List Nat)
    (hself : Good (s.task.role r) (s.cb r) (s.snapshot r) → Good (s.task.role r) c (s.snapshot r)) :
    Inv ⟨s.task, queue, Function.update s.cb r c, s.snapshot⟩ :=
  h.update r s.task queue c (fun _ _ => rfl) (hself (h r))

/-- A fresh callback goes on, and stays fresh or gives up. -/
theorem Inv.setFresh {s : System} (h : Inv s) {r : Nat} {c : Callback} (queue : List Nat) (hold : (s.cb r).Fresh)
    (hc : c.Fresh ∨ ∃ live, c = .returned .abort live) :
    Inv ⟨s.task, queue, Function.update s.cb r c, s.snapshot⟩ := by
  obtain ⟨hrole, hsnap⟩ := h.fresh hold
  refine h.setCb queue fun _ => ?_
  rw [hrole, hsnap]
  obtain hc | ⟨live, rfl⟩ := hc
  · exact (good_fresh_iff hc).2 ⟨rfl, rfl⟩
  · trivial

theorem inv_call {s s' : System} (h : Inv s) {r : Nat} {live : Finset Hash}
    (hstep : step s (.call r live) = some s') : Inv s' := by
  simp only [step] at hstep
  split at hstep
  next hcb =>
    cases hstep
    exact h.setFresh s.queue (hcb ▸ trivial) (.inl trivial)
  next => cases hstep

theorem inv_start {s s' : System} (h : Inv s) {r : Nat} (hstep : step s (.start r) = some s') : Inv s' := by
  simp only [step] at hstep
  split at hstep
  next live hcb =>
    split at hstep
    · cases hstep
      exact h.setFresh s.queue (hcb ▸ trivial) (.inr ⟨live, rfl⟩)
    · split at hstep
      · cases hstep
        exact h.setFresh (s.queue ++ [r]) (hcb ▸ trivial) (.inl trivial)
      · cases hstep
  next => cases hstep

theorem inv_take {s s' : System} (h : Inv s) (hstep : step s .take = some s') : Inv s' := by
  simp only [step] at hstep
  split at hstep
  next r queue htask _ =>
    cases hstep
    have hself := h r
    rw [htask] at hself
    exact h.move r (.received r) queue (fun q _ => by simp [htask, Task.role]) hself
  next => cases hstep

theorem inv_poll {s s' : System} (h : Inv s) {r : Nat} (hstep : step s (.poll r) = some s') : Inv s' := by
  simp only [step] at hstep
  split at hstep
  next live hcb =>
    split at hstep
    · cases hstep
    · cases hstep
      exact h.setFresh s.queue (hcb ▸ trivial) (.inr ⟨live, rfl⟩)
  next => cases hstep

/-- A dropped callback is owed nothing. -/
theorem Good.dropped {role : Role} {c : Callback} {snapshot : Option Snapshot} (h : Good role c snapshot) :
    Good role .dropped snapshot := by
  cases role with
  | fetching => exact ⟨h.1, .inr rfl⟩
  | sending rest =>
    obtain ⟨snap, hsnap, hrest, -⟩ := h
    exact ⟨snap, hsnap, hrest, .inl rfl⟩
  | away => trivial

theorem inv_cancel {s s' : System} (h : Inv s) {r : Nat} (hstep : step s (.cancel r) = some s') : Inv s' := by
  have hdrop : Inv ⟨s.task, s.queue, Function.update s.cb r .dropped, s.snapshot⟩ := h.setCb s.queue Good.dropped
  simp only [step] at hstep
  split at hstep
  · cases hstep
    exact hdrop
  · cases hstep
    exact hdrop
  · cases hstep
    exact hdrop
  · cases hstep

/-- Step: with safe aborts, every step keeps the invariant. -/
theorem inv_step {s s' : System} {a : Action} (h : Inv s) (hstep : step s a = some s') (hmeets : Meets s a s') :
    Inv s' := by
  cases a with
  | call r live => exact inv_call h hstep
  | start r => exact inv_start h hstep
  | take => exact inv_take h hstep
  | hand => exact inv_hand h hstep
  | fetch res => exact inv_fetch h hstep
  | forward => exact inv_forward h hstep
  | abort => exact inv_abort h (hmeets rfl) hstep
  | poll r => exact inv_poll h hstep
  | recv r => exact inv_recv h hstep
  | cancel r => exact inv_cancel h hstep

/-! ## After the task is gone -/

theorem gone_step {s s' : System} {a : Action} (h : s.task = .gone) (hstep : step s a = some s') :
    s'.task = .gone := by
  cases a <;> simp only [step, h, System.setCb] at hstep
  case take => cases hstep
  case hand => cases hstep
  case fetch => cases hstep
  case forward => cases hstep
  case abort => cases hstep
  all_goals
    repeat' split at hstep
    all_goals cases hstep
    all_goals rfl

/-- A callback whose sender is gone and that has no error ahead returns `Continue`, with what it was passed. -/
theorem drain {r : Nat} (buffer : List Item) {s : System} {live : Finset Hash}
    (hcb : s.cb r = .receiving live buffer) (hgone : s.task = .gone) (hok : ¬ Failed buffer) :
    ∃ as s', runs step s as = some s' ∧ s'.snapshot = s.snapshot ∧ ∃ live',
      s'.cb r = .returned .continue live' ∧ ∀ hash ∈ live', hash ∈ live ∨ .ok hash ∈ buffer := by
  induction buffer generalizing s live with
  | nil =>
    refine ⟨[.recv r], s.setCb r (.returned .continue live), ?_, rfl, live, ?_, fun hash h => .inl h⟩
    · simp [runs, step, hcb, hgone, Task.holds]
    · simp [System.setCb]
  | cons item buffer ih =>
    cases item with
    | error err => exact absurd ⟨err, List.mem_cons_self⟩ hok
    | ok hash =>
      have hstep : step s (.recv r) = some (s.setCb r (.receiving (insert hash live) buffer)) := by
        simp [step, hcb]
      have hok' : ¬ Failed buffer := by
        rintro ⟨err, herr⟩
        exact hok ⟨err, List.mem_cons_of_mem _ herr⟩
      obtain ⟨as, s', hrun, hsnap, live', hret, hlive⟩ :=
        ih (s := s.setCb r (.receiving (insert hash live) buffer)) (Function.update_self ..) hgone hok'
      refine ⟨.recv r :: as, s', by simp [runs, hstep, hrun], hsnap, live', hret, ?_⟩
      intro h hh
      rcases hlive h hh with hl | hb
      · rcases Finset.mem_insert.1 hl with rfl | hl
        · exact .inr List.mem_cons_self
        · exact .inl hl
      · exact .inr (List.mem_cons_of_mem _ hb)

/-- An abort that is not safe: some callback goes on to report `Continue` without its hashes. -/
theorem abort_owing {s s' : System} (h : Inv s) (howes : ¬ SafeAbort s) (hstep : step s .abort = some s') :
    ∃ as s'', runs step s' as = some s'' ∧ ¬ AllOrNothing s'' := by
  have hs' := abort_eq hstep
  -- a listening callback without a snapshot
  have hnone : ∀ r live, s.cb r = .receiving live [] → s.snapshot r = none →
      ∃ as s'', runs step s' as = some s'' ∧ ¬ AllOrNothing s'' := by
    intro r live hcb hsnap
    obtain ⟨as, s'', hrun, hsnap', live', hret, -⟩ :=
      drain (r := r) [] (s := s') (by rw [hs']; exact hcb) (by rw [hs']) (by simp [Failed])
    refine ⟨as, s'', hrun, fun hall => ?_⟩
    obtain ⟨snap, hsome, -⟩ := hall r live' hret
    rw [hsnap', hs'] at hsome
    simp [hsnap] at hsome
  cases htask : s.task with
  | idle => simp [SafeAbort, htask] at howes
  | received r => simp [SafeAbort, htask] at howes
  | gone => simp [SafeAbort, htask] at howes
  | handed r =>
    simp only [SafeAbort, htask, ne_eq, not_forall, not_not] at howes
    obtain ⟨live, buffer, hcb⟩ := howes
    have hself := h r
    simp only [htask, Task.role, if_true, hcb] at hself
    obtain ⟨hsnap, rfl⟩ := hself.fetching_receiving
    exact hnone r live hcb hsnap
  | failing r err =>
    simp only [SafeAbort, htask, ne_eq, not_forall, not_not] at howes
    obtain ⟨live, buffer, hcb⟩ := howes
    have hself := h r
    simp only [htask, Task.role, if_true, hcb] at hself
    obtain ⟨hsnap, rfl⟩ := hself.fetching_receiving
    exact hnone r live hcb hsnap
  | sending r rest =>
    simp only [SafeAbort, htask, not_forall, not_or] at howes
    obtain ⟨live, buffer, hcb, hok, item, hitem, hmissing⟩ := howes
    have hself := h r
    simp only [htask, Task.role, if_true, Good] at hself
    obtain ⟨snap, hsnap, hrest, -⟩ := hself
    obtain ⟨as, s'', hrun, hsnap', live', hret, hlive⟩ :=
      drain (r := r) buffer (s := s') (by rw [hs']; exact hcb) (by rw [hs']) hok
    refine ⟨as, s'', hrun, fun hall => hmissing ?_⟩
    obtain ⟨snap', hsome, hprot⟩ := hall r live' hret
    rw [hsnap', hs'] at hsome
    obtain rfl : snap = snap' := Option.some.inj (hsnap.symm.trans hsome)
    obtain ⟨row, hrow, rfl⟩ := List.mem_map.1 (hrest item hitem)
    obtain ⟨hread, hmem⟩ := hprot row hrow
    exact ⟨row.2.hash, by simp [Snapshot.item, hread], hlive _ hmem⟩

/-! ## Whole runs -/

/-- **Protection is all or nothing as long as aborts are safe**, and an abort is safe exactly when nothing
that can follow it breaks the property. -/
theorem protect_all_or_nothing_iff (as : List Action) {s : System} (hrun : runs step default as = some s)
    (hmeets : EveryStep step Meets default as) :
    AllOrNothing s ∧ ∀ s', step s .abort = some s' →
      (SafeAbort s ↔ ∀ as' s'', runs step s' as' = some s'' → AllOrNothing s'') := by
  have hinv : Inv s := invariant_of_everyStep (fun _ _ _ => inv_step) as inv_default hmeets hrun
  refine ⟨hinv.allOrNothing, ?_⟩
  intro s' hstep
  constructor
  · intro hsafe as' s'' hrun'
    have hstart : Inv s' ∧ s'.task = .gone := ⟨inv_abort hinv hsafe hstep, by rw [abort_eq hstep]⟩
    refine (invariant_runs (I := fun s => Inv s ∧ s.task = .gone) ?_ as' hstart hrun').1.allOrNothing
    rintro s₁ a s₂ ⟨hinv₁, hgone₁⟩ hstep₁
    refine ⟨inv_step hinv₁ hstep₁ ?_, gone_step hgone₁ hstep₁⟩
    intro _
    simp [SafeAbort, hgone₁]
  · intro hall
    by_contra howes
    obtain ⟨as', s'', hrun', hbad⟩ := abort_owing hinv howes hstep
    exact hbad (hall as' s'' hrun')

/-- A store with one document entry. -/
def sampleSnapshot : Snapshot where
  tables := { (default : Tables) with
    records := (∅ : SortedMap RecordsId RecordsValue).insert (row (sampleEntry [1] ⟨7, zeros32, 3⟩)).1
      (row (sampleEntry [1] ⟨7, zeros32, 3⟩)).2 }
  unreadable := fun _ => none

/-- A request whose only hash has been sent. -/
def sampleRun : List Action := [.call 0 ∅, .start 0, .take, .hand, .fetch (.ok sampleSnapshot), .forward]

/-- Dropping the engine then is safe: the callback reports `Continue`, and has the hash. -/
theorem protect_all_or_nothing_sample :
    ∃ s, runs step default (sampleRun ++ [.abort, .recv 0, .recv 0]) = some s ∧
      s.cb 0 = .returned .continue {zeros32} ∧ AllOrNothing s := by
  have hout : (runs step default (sampleRun ++ [.abort, .recv 0, .recv 0])).map (fun s => s.cb 0) =
      some (.returned .continue {zeros32}) := by decide +kernel
  obtain ⟨s, hrun, hcb⟩ := Option.map_eq_some_iff.1 hout
  refine ⟨s, hrun, hcb, (protect_all_or_nothing_iff _ hrun (everyStep_append.2 ⟨?_, fun s₁ hs₁ => ?_⟩)).1⟩
  · simp [sampleRun, EveryStep, Meets]
  · have htask : (runs step default sampleRun).map System.task = some (.sending 0 []) := by decide +kernel
    rw [hs₁] at htask
    have hsafe : SafeAbort s₁ := by
      unfold SafeAbort
      rw [Option.some.inj htask]
      exact fun _ _ _ => .inr fun _ hitem => absurd hitem List.not_mem_nil
    simp [EveryStep, Meets, hsafe]

/-- The engine is dropped after the hashes are fetched and before the first one is sent. -/
theorem aborted_task_reports_continue :
    ¬ ∀ as s, runs step default as = some s → AllOrNothing s := by
  intro hall
  let as : List Action :=
    [.call 0 ∅, .start 0, .take, .hand, .fetch (.ok sampleSnapshot), .abort, .recv 0]
  have hout : (runs step default as).map (fun s => s.cb 0) = some (.returned .continue ∅) := by
    decide +kernel
  obtain ⟨s, hrun, hcb⟩ := Option.map_eq_some_iff.1 hout
  have hsnap : s.snapshot 0 = some sampleSnapshot := by
    cases hrun
    rfl
  obtain ⟨snap, hsome, hprot⟩ := hall as s hrun 0 ∅ hcb
  obtain rfl : sampleSnapshot = snap := Option.some.inj (hsnap.symm.trans hsome)
  have hmem := (hprot (row (sampleEntry [1] ⟨7, zeros32, 3⟩)) (by decide +kernel)).2
  simp at hmem

end PdnStore.Engine.Protect

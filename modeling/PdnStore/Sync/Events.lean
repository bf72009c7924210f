import PdnStore.Sync.Ingest
import PdnStore.Store.FsStore

/-!
# Events and their subscribers (sync.rs:94-119, 183-207, 516-566, 636-709)

What a replica takes in it announces, entry by entry and in the order it took them in: entries written here,
entries gossiped, and entries found among the values of a sync message, also of one that fails half way. A
retraction (`actor.rs:1179`) goes to the store behind the replica's back and is announced to nobody, so a
subscriber that puts what it is sent, one entry after the other, has the tables of the replica only if it takes
back what was retracted meanwhile (`subscribers_can_replay`).

| here | there |
| --- | --- |
| `ChannelId`            | the identity that `same_channel` compares |
| `Watched.send`         | `Subscribers::send` and `send_with`: a full channel is waited for, so an event arrives or the receiver is gone |
| `Watched.closed`       | the channels whose receivers are gone |
| `Watched.inbox`        | what arrived on a channel, received or not |
-/

namespace PdnStore.Sync

open Ranger Fs Session

/-! ## The model -/

/-- The entry an event tells of. -/
def Event.entry : Event → SignedEntry
  | .localInsert _ entry => entry
  | .remoteInsert _ entry _ _ _ => entry

/-- The namespace an event tells of. -/
def Event.namespace : Event → NamespaceId
  | .localInsert ns _ => ns
  | .remoteInsert ns _ _ _ _ => ns

/-- A replica with its `Subscribers` (sync.rs:186), and the channels they send on. -/
structure Watched (ns : NamespaceId) where
  replica : Replica ns
  subscribers : List ChannelId
  closed : List ChannelId
  inbox : ChannelId → List Event

/-- What can happen to them; `retract` is the action `RetractEntry` on the open replica (actor.rs:1179). -/
inductive Happening where
  | write (op : WriteOp)
  | retract (author : AuthorId) (key : Bytes) (upTo : U64)
  | subscribe (ch : ChannelId)
  | unsubscribe (ch : ChannelId)
  | dropReceiver (ch : ChannelId)

/-- It is about the channel itself. -/
def Happening.concerns (ch : ChannelId) : Happening → Bool
  | .write _ | .retract .. => false
  | .subscribe ch' | .unsubscribe ch' | .dropReceiver ch' => ch' = ch

/-- What `retract_entry` leaves of the tables (fs.rs:530). -/
def retracted (ns : NamespaceId) (author : AuthorId) (key : Bytes) (upTo : U64) (t : Tables) : Tables :=
  (FsStore.retractEntry { (default : FsStore) with tables := t } ns author key upTo).1.tables

/-- Whatever else is in the store. -/
theorem retractEntry_tables (s : FsStore) (ns : NamespaceId) (author : AuthorId) (key : Bytes) (upTo : U64) :
    (s.retractEntry ns author key upTo).1.tables = retracted ns author key upTo s.tables := by
  unfold retracted FsStore.retractEntry
  dsimp only
  cases s.tables.records.get? ⟨ns, author, key⟩ with
  | none => rfl
  | some value => dsimp only; split <;> rfl

namespace Watched

variable {ns : NamespaceId}

/-- `Subscribers::send` (sync.rs:183): senders whose receivers are gone are dropped. -/
def send (w : Watched ns) (event : Event) : Watched ns :=
  let reached := w.subscribers.filter (· ∉ w.closed)
  { w with
    subscribers := reached
    inbox := fun ch => w.inbox ch ++ List.replicate (reached.count ch) event }

variable [Blake3] (verify : SignedEntry → Bool) (sign : Entry → EntrySignature)

/-- The events of a write, in the order they are sent. -/
def eventsOf (r : Replica ns) : WriteOp → List Event
  | .insert created now key author hash len => (insert verify sign created now r key author hash len).events
  | .deletePrefix created now pre author => (deletePrefix verify sign created now r pre author).events
  | .insertRemote now e peer status => (insertRemoteEntry verify now r e peer status).events
  | .reconcile now m peer state filter => (syncProcessMessage verify now r m peer state filter).events
  | .configure _ _ => []

def step (w : Watched ns) : Happening → Watched ns
  | .write op => (eventsOf verify sign w.replica op).foldl send { w with replica := applyOp verify sign w.replica op }
  | .retract author key upTo =>
    { w with replica := { w.replica with store := { w.replica.store with
      tables := retracted ns author key upTo w.replica.store.tables } } }
  | .subscribe ch => { w with subscribers := w.subscribers ++ [ch] }
  | .unsubscribe ch => { w with subscribers := w.subscribers.filter (· ≠ ch) }
  | .dropReceiver ch => { w with closed := ch :: w.closed }

def run (w : Watched ns) (happenings : List Happening) : Watched ns := happenings.foldl (step verify sign) w

end Watched

/-! ## Replaying a log -/

/-- What a replica's tables go through. -/
inductive Change where
  | put (e : SignedEntry)
  | retract (author : AuthorId) (key : Bytes) (upTo : U64)

/-- The entries put, in order. -/
def putsOf (log : List Change) : List SignedEntry := log.filterMap fun | .put e => some e | .retract .. => none

/-- The retractions of a log, in order. -/
def retractionsOf (log : List Change) : List (AuthorId × Bytes × U64) :=
  log.filterMap fun | .put _ => none | .retract author key upTo => some (author, key, upTo)

/-- The retractions among what happens, in order. -/
def Happening.retractions (happenings : List Happening) : List (AuthorId × Bytes × U64) :=
  happenings.filterMap fun | .retract author key upTo => some (author, key, upTo) | _ => none

section Replays

variable {ns : NamespaceId} [Blake3]

/-- The changes, one after the other, lead from `t` to `t'`, and each entry put is taken in at its turn. -/
def Replays (ns : NamespaceId) : Tables → List Change → Tables → Prop
  | t, [], t' => t' = t
  | t, .put e :: l, t' => wouldInsert (⟨t, none⟩ : StoreInstance ns) e = true ∧
      Replays ns (put (⟨t, none⟩ : StoreInstance ns) e).2.tables l t'
  | t, .retract author key upTo :: l, t' => Replays ns (retracted ns author key upTo t) l t'

theorem Replays.append {l l' : List Change} {t t' t'' : Tables} (h : Replays ns t l t')
    (h' : Replays ns t' l' t'') : Replays ns t (l ++ l') t'' := by
  induction l generalizing t with
  | nil =>
    obtain rfl : t' = t := h
    exact h'
  | cons change l ih =>
    cases change with
    | put e => exact ⟨h.1, ih h.2⟩
    | retract author key upTo => exact ih h

/-- A put reads the live tables and writes them. -/
theorem put_tables (s : StoreInstance ns) (e : SignedEntry) :
    (put s e).2.tables = (put (⟨s.tables, none⟩ : StoreInstance ns) e).2.tables := by
  unfold put
  have hw : wouldInsert s e = wouldInsert (⟨s.tables, none⟩ : StoreInstance ns) e := rfl
  rw [hw]
  split <;> rfl

/-- One entry taken in. -/
theorem replays_put {s : StoreInstance ns} {e : SignedEntry} (h : wouldInsert s e = true) :
    Replays ns s.tables [.put e] (put s e).2.tables := ⟨h, put_tables s e⟩

/-- Value by value: what a message makes of the store and of the values it reports, on whatever path it ends. -/
theorem processMessage_inserted {S E K V R : Type} [LinearOrder K] [LinearOrder V] [RangeEntry E K V R]
    [Store S E K V] {P : S → List (E × ContentStatus) → Prop} (config : SyncConfig)
    (validate : S → E → ContentStatus → ValidateOutcome) (status : E → ContentStatus) {s : S} (m : Message E K R)
    (hput : ∀ s l v, wouldInsert s v.1 = true → P s l → P (put s v.1).2 (l ++ [v])) (h : P s []) :
    P (processMessage config validate status s m).store (processMessage config validate status s m).inserted := by
  have hvalue : ∀ (st : Round S E K R) (v : E × ContentStatus), P st.store st.inserted →
      P (storeValue validate st v).store (storeValue validate st v).inserted := by
    intro st v hst
    have hfst := put_fst st.store v.1
    unfold storeValue
    cases validate st.store v.1 v.2 with
    | accept =>
      cases hw : wouldInsert st.store v.1 with
      | false => simpa [put, hw] using hst
      | true =>
        have := hput st.store st.inserted v hw hst
        simpa [put, hw] using this
    | drop => exact hst
    | reject =>
      dsimp only
      split <;> exact hst
  have hvalues : ∀ (vs : List (E × ContentStatus)) (st : Round S E K R), P st.store st.inserted →
      P (vs.foldl (storeValue validate) st).store (vs.foldl (storeValue validate) st).inserted := by
    intro vs
    induction vs with
    | nil => exact fun _ h => h
    | cons v vs ih => exact fun st h => ih _ (hvalue st v h)
  have hitem : ∀ (st : Round S E K R) (item : RangeItem E K), item ∈ items m.parts → P st.store st.inserted →
      P (itemStep validate status st item).1.store (itemStep validate status st item).1.inserted := by
    intro st item _ hst
    unfold itemStep
    cases itemDiff status st.store item with
    | error fault => exact hst
    | ok diff => rcases diff with _ | _ | _ <;> exact hvalues item.values st hst
  have hloop := tryFold_preserves (P := fun st : Round S E K R => P st.store st.inserted) hitem
    (show P (⟨s, [], []⟩ : Round S E K R).store (⟨s, [], []⟩ : Round S E K R).inserted from h)
  unfold processMessage
  split <;> rename_i heq <;> rw [heq] at hloop <;> exact hloop

end Replays

section Events

variable {ns : NamespaceId}

/-- The puts that events tell of. -/
def announced (events : List Event) : List Change := events.map fun event => .put event.entry

theorem putsOf_announced (events : List Event) : putsOf (announced events) = events.map Event.entry := by
  rw [putsOf, announced, List.filterMap_map]
  exact congrFun (List.filterMap_eq_map (f := Event.entry)) events

theorem retractionsOf_announced (events : List Event) : retractionsOf (announced events) = [] := by
  rw [retractionsOf, announced, List.filterMap_map]
  exact List.filterMap_eq_nil_iff.2 fun _ _ => rfl

theorem entry_insertEvent (r : Replica ns) (e : SignedEntry) (origin : InsertOrigin) :
    (insertEvent r e origin).entry = e := by
  cases origin <;> rfl

/-! ## What arrives on a channel -/

namespace Watched

/-- How many times a channel is sent each event. -/
def listening (w : Watched ns) (ch : ChannelId) : Nat := (w.subscribers.filter (· ∉ w.closed)).count ch

theorem listening_eq_zero {w : Watched ns} {ch : ChannelId} (h : ch ∉ w.subscribers ∨ ch ∈ w.closed) :
    w.listening ch = 0 := by
  refine List.count_eq_zero.2 fun hmem => ?_
  rw [List.mem_filter, decide_eq_true_eq] at hmem
  exact h.elim (absurd hmem.1) hmem.2

theorem listening_send (w : Watched ns) (event : Event) (ch : ChannelId) :
    (w.send event).listening ch = w.listening ch := by
  show ((w.subscribers.filter (· ∉ w.closed)).filter (· ∉ w.closed)).count ch = w.listening ch
  rw [List.filter_filter]
  simp only [Bool.and_self]
  rfl

/-- All events of a write arrive, in their order, as often as the channel subscribed. -/
theorem inbox_foldl_send (w : Watched ns) (events : List Event) (ch : ChannelId) :
    (events.foldl send w).inbox ch = w.inbox ch ++ events.flatMap (List.replicate (w.listening ch)) ∧
    (events.foldl send w).listening ch = w.listening ch ∧ (events.foldl send w).replica = w.replica := by
  induction events generalizing w with
  | nil => exact ⟨(List.append_nil _).symm, rfl, rfl⟩
  | cons event events ih =>
    obtain ⟨hinbox, hlistening, hreplica⟩ := ih (w.send event)
    rw [listening_send] at hinbox hlistening
    refine ⟨?_, hlistening, hreplica⟩
    rw [List.foldl_cons, hinbox, List.flatMap_cons, ← List.append_assoc]
    rfl

/-- The channel is sent nothing any more: it is not subscribed, or its receiver is gone. -/
def Deaf (w : Watched ns) (ch : ChannelId) : Prop := ch ∉ w.subscribers ∨ ch ∈ w.closed

theorem subscribers_foldl_send (w : Watched ns) (events : List Event) :
    (events.foldl send w).closed = w.closed ∧ ∀ ch ∈ (events.foldl send w).subscribers, ch ∈ w.subscribers := by
  induction events generalizing w with
  | nil => exact ⟨rfl, fun _ h => h⟩
  | cons event events ih =>
    obtain ⟨hclosed, hsub⟩ := ih (w.send event)
    exact ⟨hclosed, fun ch h => List.mem_of_mem_filter (hsub ch h)⟩

end Watched

/-! ## What a happening announces -/

variable [Blake3] (verify : SignedEntry → Bool) (sign : Entry → EntrySignature)

/-- An insertion tells of the entry it took in. -/
theorem replays_insertEntry (now : U64) (r : Replica ns) (e : SignedEntry) (origin : InsertOrigin) :
    Replays ns r.store.tables (announced (insertEntry verify now r e origin).events)
      (insertEntry verify now r e origin).replica.store.tables := by
  unfold insertEntry
  split
  · exact rfl
  cases hw : wouldInsert r.store e with
  | false =>
    rw [put_of_not_wouldInsert hw]
    exact rfl
  | true =>
    rw [put_eq_of_wouldInsert hw]
    dsimp only
    rw [announced, List.map_singleton, entry_insertEvent]
    have hput := replays_put hw
    rwa [put_eq_of_wouldInsert hw] at hput

/-- The events of a write lead from the tables it finds to those it leaves. -/
theorem replays_eventsOf (r : Replica ns) (op : WriteOp) :
    Replays ns r.store.tables (announced (Watched.eventsOf verify sign r op))
      (applyOp verify sign r op).store.tables := by
  cases op with
  | insert created now key author hash len =>
    simp only [Watched.eventsOf, applyOp]
    unfold insert
    repeat' split
    all_goals first
      | exact rfl
      | exact replays_insertEntry verify _ _ _ _
  | deletePrefix created now pre author =>
    simp only [Watched.eventsOf, applyOp]
    unfold deletePrefix
    repeat' split
    all_goals first
      | exact rfl
      | exact replays_insertEntry verify _ _ _ _
  | insertRemote now e peer status =>
    simp only [Watched.eventsOf, applyOp]
    unfold insertRemoteEntry
    repeat' split
    all_goals first
      | exact rfl
      | exact replays_insertEntry verify _ _ _ _
  | reconcile now m peer state filter =>
    simp only [Watched.eventsOf, applyOp]
    unfold syncProcessMessage
    split
    · exact rfl
    dsimp only
    rw [announced, List.map_map]
    exact processMessage_inserted (S := ReplicaSession ns) (E := SignedEntry) (s := ⟨r.store, filter⟩)
      (P := fun s l => Replays ns r.store.tables (l.map fun v => Change.put v.1) s.inner.tables) _ _ _ m
      (fun s l v hw hl => by
        rw [List.map_append, put_replicaSession_inner]
        exact hl.append (replays_put (wouldInsert_replicaSession s v.1 ▸ hw)))
      (show Replays ns r.store.tables [] r.store.tables from rfl)
  | configure info snapshot => exact rfl

/-- The events of a write are of the replica's namespace. -/
theorem namespace_eventsOf {r : Replica ns} {op : WriteOp} {event : Event}
    (h : event ∈ Watched.eventsOf verify sign r op) : event.namespace = ns := by
  have hentry : ∀ {now : U64} {e : SignedEntry} {origin : InsertOrigin},
      event ∈ (insertEntry verify now r e origin).events → event.namespace = ns := by
    intro now e origin hmem
    unfold insertEntry at hmem
    repeat' split at hmem
    · cases hmem
    · cases hmem
    · obtain rfl := List.mem_singleton.1 hmem
      cases origin <;> rfl
  cases op with
  | insert created now key author hash len =>
    simp only [Watched.eventsOf] at h
    unfold insert at h
    repeat' split at h
    all_goals first
      | exact hentry h
      | cases h
  | deletePrefix created now pre author =>
    simp only [Watched.eventsOf] at h
    unfold deletePrefix at h
    repeat' split at h
    all_goals first
      | exact hentry h
      | cases h
  | insertRemote now e peer status =>
    simp only [Watched.eventsOf] at h
    unfold insertRemoteEntry at h
    repeat' split at h
    all_goals first
      | exact hentry h
      | cases h
  | reconcile now m peer state filter =>
    simp only [Watched.eventsOf] at h
    unfold syncProcessMessage at h
    split at h
    · cases h
    · obtain ⟨v, -, rfl⟩ := List.mem_map.1 h
      rfl
  | configure info snapshot => cases h

namespace Watched

/-- Step: what is about other channels sends this one the events of a write, if it listens. -/
theorem step_of_not_concerns (w : Watched ns) {h : Happening} {ch : ChannelId} (hch : h.concerns ch = false) :
    (w.step verify sign h).listening ch = w.listening ch ∧ ∃ (events : List Event) (log : List Change),
      (w.step verify sign h).inbox ch = w.inbox ch ++ events.flatMap (List.replicate (w.listening ch)) ∧
      putsOf log = events.map Event.entry ∧ retractionsOf log = Happening.retractions [h] ∧
      Replays ns w.replica.store.tables log (w.step verify sign h).replica.store.tables ∧
      ∀ event ∈ events, event.namespace = ns := by
  cases h with
  | write op =>
    obtain ⟨hinbox, hlistening, hreplica⟩ := inbox_foldl_send
      { w with replica := applyOp verify sign w.replica op } (eventsOf verify sign w.replica op) ch
    refine ⟨hlistening, eventsOf verify sign w.replica op, announced (eventsOf verify sign w.replica op), hinbox,
      putsOf_announced _, retractionsOf_announced _, ?_, fun event he => namespace_eventsOf verify sign he⟩
    show Replays ns _ _ ((eventsOf verify sign w.replica op).foldl send _).replica.store.tables
    rw [hreplica]
    exact replays_eventsOf verify sign w.replica op
  | retract author key upTo =>
    exact ⟨rfl, [], [.retract author key upTo], (List.append_nil _).symm, rfl, rfl, rfl,
      fun _ he => absurd he List.not_mem_nil⟩
  | subscribe ch' =>
    have hne : ch' ≠ ch := of_decide_eq_false hch
    refine ⟨?_, [], [], (List.append_nil _).symm, rfl, rfl, rfl, fun _ he => absurd he List.not_mem_nil⟩
    have hnone : ([ch'].filter (· ∉ w.closed)).count ch = 0 :=
      List.count_eq_zero.2 fun hmem => hne (List.mem_singleton.1 (List.mem_of_mem_filter hmem)).symm
    show ((w.subscribers ++ [ch']).filter (· ∉ w.closed)).count ch = w.listening ch
    rw [List.filter_append, List.count_append, hnone]
    rfl
  | unsubscribe ch' =>
    have hne : ch' ≠ ch := of_decide_eq_false hch
    refine ⟨?_, [], [], (List.append_nil _).symm, rfl, rfl, rfl, fun _ he => absurd he List.not_mem_nil⟩
    show ((w.subscribers.filter (· ≠ ch')).filter (· ∉ w.closed)).count ch = w.listening ch
    rw [List.filter_comm, List.count_filter (by simpa using hne.symm)]
    rfl
  | dropReceiver ch' =>
    have hne : ch' ≠ ch := of_decide_eq_false hch
    refine ⟨?_, [], [], (List.append_nil _).symm, rfl, rfl, rfl, fun _ he => absurd he List.not_mem_nil⟩
    show (w.subscribers.filter (· ∉ ch' :: w.closed)).count ch = (w.subscribers.filter (· ∉ w.closed)).count ch
    by_cases hin : ch ∈ w.closed
    · rw [List.count_eq_zero.2, List.count_eq_zero.2] <;>
        · intro hmem
          simp [hin] at hmem
    · rw [List.count_filter (by simp [hin, hne.symm]), List.count_filter (by simpa using hin)]

/-- Step: a channel that is sent nothing stays so until it subscribes. -/
theorem step_of_deaf {w : Watched ns} {h : Happening} {ch : ChannelId} (hd : w.Deaf ch) (hh : h ≠ .subscribe ch) :
    (w.step verify sign h).Deaf ch ∧ (w.step verify sign h).inbox ch = w.inbox ch := by
  cases h with
  | write op =>
    have hsilent : ({ w with replica := applyOp verify sign w.replica op } : Watched ns).listening ch = 0 :=
      listening_eq_zero hd
    obtain ⟨hinbox, -, -⟩ := inbox_foldl_send
      { w with replica := applyOp verify sign w.replica op } (eventsOf verify sign w.replica op) ch
    obtain ⟨hclosed, hsub⟩ := subscribers_foldl_send
      { w with replica := applyOp verify sign w.replica op } (eventsOf verify sign w.replica op)
    refine ⟨hd.imp (fun hn hmem => hn (hsub ch hmem)) fun hc => ?_, ?_⟩
    · show ch ∈ ((eventsOf verify sign w.replica op).foldl send _).closed
      rw [hclosed]
      exact hc
    · show ((eventsOf verify sign w.replica op).foldl send _).inbox ch = w.inbox ch
      rw [hinbox, hsilent]
      simp
  | retract author key upTo => exact ⟨hd, rfl⟩
  | subscribe ch' =>
    refine ⟨hd.imp (fun hn hmem => ?_) id, rfl⟩
    rcases List.mem_append.1 hmem with hmem | hmem
    · exact hn hmem
    · exact hh (by rw [List.mem_singleton.1 hmem])
  | unsubscribe ch' => exact ⟨hd.imp (fun hn hmem => hn (List.mem_of_mem_filter hmem)) id, rfl⟩
  | dropReceiver ch' => exact ⟨hd.imp id (List.mem_cons_of_mem _), rfl⟩

/-- Run of what is about other channels, while this one listens once. -/
theorem run_of_not_concerns {ch : ChannelId} (happenings : List Happening) (w : Watched ns)
    (hch : ∀ h ∈ happenings, h.concerns ch = false) (hone : w.listening ch = 1) :
    ∃ (events : List Event) (log : List Change), (w.run verify sign happenings).inbox ch = w.inbox ch ++ events ∧
      putsOf log = events.map Event.entry ∧ retractionsOf log = Happening.retractions happenings ∧
      Replays ns w.replica.store.tables log (w.run verify sign happenings).replica.store.tables ∧
      ∀ event ∈ events, event.namespace = ns := by
  induction happenings generalizing w with
  | nil => exact ⟨[], [], (List.append_nil _).symm, rfl, rfl, rfl, fun _ he => absurd he List.not_mem_nil⟩
  | cons h happenings ih =>
    obtain ⟨hlistening, events, log, hinbox, hputs, hretractions, hreplays, hns⟩ :=
      step_of_not_concerns verify sign w (hch h List.mem_cons_self)
    obtain ⟨events', log', hinbox', hputs', hretractions', hreplays', hns'⟩ := ih (w.step verify sign h)
      (fun h' hh' => hch h' (List.mem_cons_of_mem _ hh')) (hlistening.trans hone)
    refine ⟨events ++ events', log ++ log', ?_, ?_, ?_, hreplays.append hreplays',
      fun event he => (List.mem_append.1 he).elim (hns event) (hns' event)⟩
    · have hsingle : events.flatMap (List.replicate 1) = events := List.flatMap_singleton' events
      rw [hone, hsingle] at hinbox
      show ((w.step verify sign h).run verify sign happenings).inbox ch = _
      rw [hinbox', hinbox, List.append_assoc]
    · rw [putsOf, List.filterMap_append, List.map_append, ← hputs, ← hputs']
      rfl
    · show _ = Happening.retractions ([h] ++ happenings)
      rw [retractionsOf, List.filterMap_append, Happening.retractions, List.filterMap_append]
      exact congrArg₂ (· ++ ·) hretractions hretractions'

/-- Run after the channel has left. -/
theorem run_of_deaf {ch : ChannelId} (happenings : List Happening) {w : Watched ns} (hd : w.Deaf ch)
    (hh : .subscribe ch ∉ happenings) : (w.run verify sign happenings).inbox ch = w.inbox ch := by
  induction happenings generalizing w with
  | nil => rfl
  | cons h happenings ih =>
    rw [List.mem_cons, not_or] at hh
    obtain ⟨hdeaf, hinbox⟩ := step_of_deaf verify sign hd (Ne.symm hh.1)
    exact (ih hdeaf hh.2).trans hinbox

/-- **A subscriber can replay the store**, but for what is retracted. What a channel gets between subscribing and
leaving, put entry after entry on the tables it subscribed at, with the retractions of that time in between, gives the
tables at any later point; and it gets nothing after. -/
theorem subscribers_can_replay (w : Watched ns) {ch : ChannelId} (hnew : ch ∉ w.subscribers) (hopen : ch ∉ w.closed)
    (happenings : List Happening) (hkeep : ∀ h ∈ happenings, h.concerns ch = false) :
    (∃ (events : List Event) (log : List Change),
      (w.run verify sign (.subscribe ch :: happenings)).inbox ch = w.inbox ch ++ events ∧
      putsOf log = events.map Event.entry ∧ retractionsOf log = Happening.retractions happenings ∧
      Replays ns w.replica.store.tables log
        (w.run verify sign (.subscribe ch :: happenings)).replica.store.tables ∧
      ∀ event ∈ events, event.namespace = ns) ∧
    ∀ leave ∈ [Happening.unsubscribe ch, .dropReceiver ch], ∀ later : List Happening, .subscribe ch ∉ later →
      (w.run verify sign (.subscribe ch :: happenings ++ leave :: later)).inbox ch =
        (w.run verify sign (.subscribe ch :: happenings)).inbox ch := by
  have hone : (w.step verify sign (.subscribe ch)).listening ch = 1 := by
    show ((w.subscribers ++ [ch]).filter (· ∉ w.closed)).count ch = 1
    rw [List.count_filter (by simpa using hopen), List.count_append, List.count_eq_zero.2 hnew]
    simp
  refine ⟨run_of_not_concerns verify sign happenings (w.step verify sign (.subscribe ch)) hkeep hone,
    fun leave hleave later hlater => ?_⟩
  have hsplit : w.run verify sign (.subscribe ch :: happenings ++ leave :: later) =
      ((w.run verify sign (.subscribe ch :: happenings)).step verify sign leave).run verify sign later := by
    unfold run
    rw [List.foldl_append, List.foldl_cons]
  rw [hsplit]
  rcases List.mem_pair.1 hleave with rfl | rfl
  · exact run_of_deaf verify sign later (.inl fun hmem => by simp [step] at hmem) hlater
  · exact run_of_deaf verify sign later (.inr List.mem_cons_self) hlater

end Watched

end Events

section

local instance eventsDigest : Blake3 := noDigest

/-- One entry reaches an empty replica by gossip and is retracted, another one by reconciliation. -/
def sampleHappenings : List Happening :=
  [.write (.insertRemote 5 sampleHeld zeros32 .complete), .retract zeros32 sampleHeld.id.key 9,
    .write (.reconcile 5 (sampleOffer sampleTombstone) zeros32 ⟨⟨∅⟩, 0, 0⟩ none)]

/-- The subscriber is told of both entries, and of the retraction it has to know otherwise. -/
theorem subscribers_can_replay_sample :
    ∃ log : List Change, putsOf log = [sampleHeld, sampleTombstone] ∧
      retractionsOf log = [(zeros32, sampleHeld.id.key, 9)] ∧
      Replays zeros32 default log
        (Watched.run (fun _ => true) (fun _ => sampleTombstone.signature) ⟨emptyReplica, [], [], fun _ => []⟩
          (.subscribe 0 :: sampleHappenings)).replica.store.tables := by
  obtain ⟨⟨events, log, hinbox, hputs, hretractions, hreplays, -⟩, -⟩ := Watched.subscribers_can_replay
    (fun _ => true) (fun _ => sampleTombstone.signature) (⟨emptyReplica, [], [], fun _ => []⟩ : Watched zeros32)
    (List.not_mem_nil : (0 : ChannelId) ∉ []) List.not_mem_nil sampleHappenings (by decide)
  have hentries : events.map Event.entry = [sampleHeld, sampleTombstone] := by
    rw [List.nil_append] at hinbox
    rw [← hinbox]
    decide +kernel
  exact ⟨log, hputs.trans hentries, hretractions, hreplays⟩

end

end PdnStore.Sync

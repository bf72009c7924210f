import PdnStore.Lib.CommitLog
import PdnStore.Actor.State

/-!
# Batched transactions (store/fs.rs:172-316, store/fs/tables.rs:80-124)

The store keeps at most one transaction open, to read or to write, in one field that every entry point takes
out and puts back. Writes are batched: `modify` goes on in the open write transaction until it is too old.
Reads of the tables open a write transaction too, so most write transactions are clean, and a clean one is
dropped instead of committed.

| here | there |
| --- | --- |
| `D`                    | the contents of all tables |
| `CommitLog`            | redb: transactions are atomic, a read transaction keeps reading the version it began at |
| `TransactionAndTables` | `tables.rs:84`; `base` is the version the transaction began at, `writes` is what redb holds for the open transaction |
| `Call`                 | one call of an entry point at a reading of the clock; a closure's writes stay also where it fails |
| `snapshotOwned`        | `none` where the `assert!` fails |
-/

namespace PdnStore.Fs

open Actors

variable {D : Type*}

/-! ## State -/

/-- `TransactionAndTables` (tables.rs:84). -/
structure TransactionAndTables (D : Type*) where
  base : Nat
  writes : List (D → D)
  since : Instant
  dirty : Bool

/-- `CurrentTransaction` (fs.rs:86); a read transaction is the version it reads. -/
inductive CurrentTransaction (D : Type*) where
  | none
  | read (version : Nat)
  | write (w : TransactionAndTables D)

/-- The fields of `Store` (fs.rs:55) that transactions go through. -/
structure TxStore (D : Type*) where
  db : CommitLog D
  transaction : CurrentTransaction D

namespace TransactionAndTables

/-- `TransactionAndTables::new` (tables.rs:92) of `db.begin_write()`. -/
def new (base : Nat) (now : Instant) : TransactionAndTables D := ⟨base, [], now, false⟩

/-- `TransactionAndTables::with_tables_mut` (tables.rs:113). -/
def withTablesMut (w : TransactionAndTables D) (f : D → D) : TransactionAndTables D :=
  { w with dirty := true, writes := w.writes ++ [f] }

end TransactionAndTables

namespace TxStore

variable (s : TxStore D)

/-- What the open write transaction reads: the version it began at, and its own writes. -/
def readThrough (w : TransactionAndTables D) : D := applyWrites w.writes (s.db.contentAt w.base)

/-- `Store::finish_write` (fs.rs:192). -/
def finishWrite (w : TransactionAndTables D) : TxStore D :=
  if !w.dirty then s else { s with db := s.db.commit w.writes }

/-- `std::mem::take(&mut self.transaction)`. -/
def take : TxStore D := { s with transaction := .none }

/-- `Store::flush` (fs.rs:175). -/
def flush : TxStore D :=
  match s.transaction with
  | .write w => s.take.finishWrite w
  | _ => s.take

/-- `Store::snapshot` (fs.rs:226): the version it reads. -/
def snapshot : Nat × TxStore D :=
  let (version, s) := match s.transaction with
    | .none => (s.db.version, s.take)
    | .write w =>
      let s := s.take.finishWrite w
      (s.db.version, s)
    | .read version => (version, s.take)
  (version, { s with transaction := .read version })

/-- `Store::snapshot_owned` (fs.rs:253). -/
def snapshotOwned : Option (Nat × TxStore D) :=
  let s := s.flush
  match s.transaction with
  | .none => some (s.db.version, s)
  | _ => none

/-- `Store::current_write_transaction` (fs.rs:283). -/
def currentWriteTransaction (now : Instant) : TransactionAndTables D × TxStore D :=
  match s.transaction with
  | .write w =>
    if now - w.since ≤ MAX_COMMIT_DELAY then (w, s.take)
    else
      let s := s.take.finishWrite w
      (.new s.db.version now, s)
  | _ => (.new s.db.version now, s.take)

/-- `Store::tables` (fs.rs:272): what the tables hold. -/
def tables (now : Instant) : D × TxStore D :=
  let (w, s) := s.currentWriteTransaction now
  (s.readThrough w, { s with transaction := .write w })

/-- `Store::modify` (fs.rs:307). -/
def modify (now : Instant) (f : D → D) : TxStore D :=
  let (w, s) := s.currentWriteTransaction now
  { s with transaction := .write (w.withTablesMut f) }

end TxStore

/-! ## Calls -/

/-- A call of one of the five entry points. -/
inductive Call (D : Type*) where
  | modify (f : D → D)
  | tables
  | snapshot
  | snapshotOwned
  | flush

namespace TxStore

/-- The store after a call at `now`. -/
def call (s : TxStore D) (c : Instant × Call D) : TxStore D :=
  match c.2 with
  | .modify f => s.modify c.1 f
  | .tables => (s.tables c.1).2
  | .snapshot => s.snapshot.2
  | .snapshotOwned => (s.snapshotOwned.map Prod.snd).getD s
  | .flush => s.flush

/-- The store after a sequence of calls. -/
def run (s : TxStore D) (calls : List (Instant × Call D)) : TxStore D := calls.foldl call s

/-- A store as it is opened on a database. -/
def new (d : D) : TxStore D := ⟨⟨d, []⟩, .none⟩

/-- What is written in the open transaction. -/
def pending (s : TxStore D) : List (D → D) :=
  match s.transaction with
  | .write w => w.writes
  | _ => []

end TxStore

/-- The writes of the `modify` calls, in order. -/
def modifies (calls : List (Instant × Call D)) : List (D → D) :=
  calls.filterMap fun c => match c.2 with
    | .modify f => some f
    | _ => none

/-! ## Invariant -/

/-- The calls so far made the writes `ws`: each is committed or pending, and nothing else is. -/
structure Batched (s : TxStore D) (d : D) (ws : List (D → D)) : Prop where
  start : s.db.init = d
  /-- no write is lost, made twice or out of order -/
  all : s.db.committed.flatten ++ s.pending = ws
  /-- no transaction without a write was committed -/
  noneClean : ∀ t ∈ s.db.committed, t ≠ []
  /-- a write transaction is dirty when something was written through it -/
  dirty : ∀ w, s.transaction = .write w → (w.dirty = true ↔ w.writes ≠ [])
  /-- the open transaction began at the latest version -/
  based : ∀ w, s.transaction = .write w → w.base = s.db.version
  current : ∀ v, s.transaction = .read v → v = s.db.version

theorem batched_new (d : D) : Batched (.new d) d [] where
  start := rfl
  all := rfl
  noneClean t h := by cases h
  dirty w h := by cases h
  based w h := by cases h
  current v h := by cases h

namespace TxStore

variable {s : TxStore D} {d : D} {ws : List (D → D)}

/-! ## One call -/

/-- With no write open, everything is committed. -/
theorem latest_of_pending_nil (h : Batched s d ws) (hp : s.pending = []) : s.db.latest = applyWrites ws d := by
  have hall := h.all
  rw [hp, List.append_nil] at hall
  rw [CommitLog.latest, h.start, hall]

/-- What the open write transaction reads is the effect of all writes. -/
theorem readThrough_eq (h : Batched s d ws) {w : TransactionAndTables D} (hw : s.transaction = .write w) :
    s.readThrough w = applyWrites ws d := by
  have hpending : s.pending = w.writes := by simp [pending, hw]
  rw [readThrough, h.based w hw, CommitLog.contentAt_version, CommitLog.latest, h.start, ← applyWrites_append,
    ← hpending, h.all]

/-- A clean transaction is dropped and a dirty one committed: no write is lost. -/
theorem batched_finishWrite (h : Batched s d ws) {w : TransactionAndTables D} (hw : s.transaction = .write w) :
    Batched (s.take.finishWrite w) d ws ∧ (s.take.finishWrite w).transaction = .none := by
  have hall := h.all
  have hpending : s.pending = w.writes := by simp [pending, hw]
  rw [hpending] at hall
  unfold finishWrite
  cases hdirty : w.dirty with
  | false =>
    have hnil : w.writes = [] := by
      by_contra hne
      rw [(h.dirty w hw).2 hne] at hdirty
      cases hdirty
    rw [hnil] at hall
    exact ⟨⟨h.start, hall, h.noneClean, by simp [take], by simp [take], by simp [take]⟩, rfl⟩
  | true =>
    have hne := (h.dirty w hw).1 hdirty
    refine ⟨⟨h.start, ?_, ?_, by simp [take], by simp [take], by simp [take]⟩, rfl⟩
    · simpa [take, CommitLog.commit, pending] using hall
    · intro t ht
      rcases List.mem_append.1 ht with ht | ht
      · exact h.noneClean t ht
      · rw [List.mem_singleton.1 ht]
        exact hne

/-- With no write open, the transaction may be dropped. -/
theorem batched_take (h : Batched s d ws) (hp : s.pending = []) : Batched s.take d ws := by
  have hall := h.all
  rw [hp] at hall
  exact ⟨h.start, hall, h.noneClean, by simp [take], by simp [take], by simp [take]⟩

theorem batched_flush (h : Batched s d ws) : Batched s.flush d ws ∧ s.flush.transaction = .none := by
  unfold flush
  cases ht : s.transaction with
  | none => exact ⟨batched_take h (by simp [pending, ht]), rfl⟩
  | read v => exact ⟨batched_take h (by simp [pending, ht]), rfl⟩
  | write w => exact batched_finishWrite h ht

/-- A fresh write transaction holds no writes. -/
theorem batched_begin (h : Batched s d ws) (ht : s.transaction = .none) (now : Instant) :
    Batched { s with transaction := .write (.new s.db.version now) } d ws := by
  have hall := h.all
  rw [pending, ht] at hall
  refine ⟨h.start, hall, h.noneClean, ?_, ?_, by simp⟩
  · rintro w hw
    cases hw
    simp [TransactionAndTables.new]
  · rintro w hw
    cases hw
    rfl

/-- The write transaction to work in, once it is put back. -/
theorem batched_currentWriteTransaction (h : Batched s d ws) (now : Instant) :
    Batched { (s.currentWriteTransaction now).2 with
      transaction := .write (s.currentWriteTransaction now).1 } d ws := by
  unfold currentWriteTransaction
  cases ht : s.transaction with
  | none => exact batched_begin (batched_take h (by simp [pending, ht])) rfl now
  | read v => exact batched_begin (batched_take h (by simp [pending, ht])) rfl now
  | write w =>
    dsimp only
    split
    · -- young enough: the store is as it was
      have hsame : ({ s.take with transaction := .write w } : TxStore D) = s := by
        cases s
        cases ht
        rfl
      dsimp only
      rwa [hsame]
    · obtain ⟨hb, hnone⟩ := batched_finishWrite h ht
      exact batched_begin hb hnone now

theorem tables_eq (h : Batched s d ws) (now : Instant) :
    (s.tables now).1 = applyWrites ws d ∧ Batched (s.tables now).2 d ws := by
  have hb := batched_currentWriteTransaction h now
  exact ⟨readThrough_eq hb rfl, hb⟩

theorem batched_modify (h : Batched s d ws) (now : Instant) (f : D → D) :
    Batched (s.modify now f) d (ws ++ [f]) := by
  have hb := batched_currentWriteTransaction h now
  have hall := hb.all
  refine ⟨hb.start, ?_, hb.noneClean, ?_, ?_, by simp [modify]⟩
  · rw [← hall]
    simp [modify, pending, TransactionAndTables.withTablesMut]
  · rintro w hw
    cases hw
    simp [TransactionAndTables.withTablesMut]
  · rintro w hw
    cases hw
    exact hb.based (s.currentWriteTransaction now).1 rfl

theorem snapshot_eq (h : Batched s d ws) :
    s.snapshot.2.db.contentAt s.snapshot.1 = applyWrites ws d ∧ Batched s.snapshot.2 d ws := by
  -- a store with no write open, reading its latest version
  have hread : ∀ s' : TxStore D, Batched s' d ws → s'.pending = [] →
      s'.db.contentAt s'.db.version = applyWrites ws d ∧
        Batched { s' with transaction := .read s'.db.version } d ws := by
    intro s' hs' hp
    have hall := hs'.all
    rw [hp] at hall
    refine ⟨by rw [CommitLog.contentAt_version, latest_of_pending_nil hs' hp], ?_⟩
    refine ⟨hs'.start, hall, hs'.noneClean, by simp, by simp, ?_⟩
    rintro v hv
    cases hv
    rfl
  unfold snapshot
  cases ht : s.transaction with
  | none =>
    have hp : s.pending = [] := by simp [pending, ht]
    exact hread s.take (batched_take h hp) rfl
  | read v =>
    have hp : s.pending = [] := by simp [pending, ht]
    obtain rfl := h.current v ht
    exact hread s.take (batched_take h hp) rfl
  | write w =>
    obtain ⟨hb, hnone⟩ := batched_finishWrite h ht
    exact hread (s.take.finishWrite w) hb (by simp [pending, hnone])

/-- The assertion in `snapshot_owned` holds. -/
theorem snapshotOwned_eq (h : Batched s d ws) : s.snapshotOwned = some (s.flush.db.version, s.flush) := by
  simp only [snapshotOwned, (batched_flush h).2]

/-! ## Runs -/

/-- Step: a call adds the write it makes, if it makes one. -/
theorem batched_call (h : Batched s d ws) (c : Instant × Call D) : Batched (s.call c) d (ws ++ modifies [c]) := by
  obtain ⟨now, c⟩ := c
  cases c with
  | modify f => exact batched_modify h now f
  | tables =>
    rw [show modifies [(now, Call.tables)] = ([] : List (D → D)) from rfl, List.append_nil]
    exact (tables_eq h now).2
  | snapshot =>
    rw [show modifies [(now, Call.snapshot)] = ([] : List (D → D)) from rfl, List.append_nil]
    exact (snapshot_eq h).2
  | snapshotOwned =>
    rw [show modifies [(now, Call.snapshotOwned)] = ([] : List (D → D)) from rfl, List.append_nil]
    show Batched ((s.snapshotOwned.map Prod.snd).getD s) d ws
    rw [snapshotOwned_eq h]
    exact (batched_flush h).1
  | flush =>
    rw [show modifies [(now, Call.flush)] = ([] : List (D → D)) from rfl, List.append_nil]
    exact (batched_flush h).1

/-- Run: after any calls every write is committed or pending. -/
theorem batched_run (h : Batched s d ws) (calls : List (Instant × Call D)) :
    Batched (s.run calls) d (ws ++ modifies calls) := by
  induction calls generalizing s ws with
  | nil =>
    rw [show modifies ([] : List (Instant × Call D)) = [] from rfl, List.append_nil]
    exact h
  | cons c calls ih =>
    have hcons : modifies (c :: calls) = modifies [c] ++ modifies calls :=
      List.filterMap_append (l := [c])
    rw [hcons, ← List.append_assoc]
    exact ih (batched_call h c)

/-! ## Versions -/

/-- A database and what at most one more commit makes of it. -/
def Grows (db db' : CommitLog D) : Prop := db' = db ∨ ∃ writes, db' = db.commit writes

theorem grows_finishWrite (s : TxStore D) (w : TransactionAndTables D) : Grows s.db (s.finishWrite w).db := by
  unfold finishWrite
  split
  · exact .inl rfl
  · exact .inr ⟨w.writes, rfl⟩

theorem grows_flush (s : TxStore D) : Grows s.db s.flush.db := by
  unfold flush
  split
  · exact s.take.grows_finishWrite _
  · exact .inl rfl

theorem grows_currentWriteTransaction (s : TxStore D) (now : Instant) :
    Grows s.db (s.currentWriteTransaction now).2.db := by
  unfold currentWriteTransaction
  split
  · split
    · exact .inl rfl
    · exact s.take.grows_finishWrite _
  · exact .inl rfl

theorem grows_call (s : TxStore D) (c : Instant × Call D) : Grows s.db (s.call c).db := by
  obtain ⟨now, c⟩ := c
  cases c with
  | modify f => exact s.grows_currentWriteTransaction now
  | tables => exact s.grows_currentWriteTransaction now
  | flush => exact s.grows_flush
  | snapshot =>
    show Grows s.db s.snapshot.2.db
    unfold snapshot
    split
    next heq =>
      split at heq
      · cases heq
        exact .inl rfl
      · cases heq
        exact s.take.grows_finishWrite _
      · cases heq
        exact .inl rfl
  | snapshotOwned =>
    show Grows s.db ((s.snapshotOwned.map Prod.snd).getD s).db
    simp only [snapshotOwned]
    split
    · exact s.grows_flush
    · exact .inl rfl

theorem Grows.contentAt {db db' : CommitLog D} (h : Grows db db') {v : Nat} (hv : v ≤ db.version) :
    db'.contentAt v = db.contentAt v ∧ v ≤ db'.version := by
  rcases h with rfl | ⟨writes, rfl⟩
  · exact ⟨rfl, hv⟩
  · refine ⟨CommitLog.contentAt_commit writes hv, ?_⟩
    simp only [CommitLog.commit, CommitLog.version, List.length_append] at hv ⊢
    omega

/-- A version reads the same after any calls. -/
theorem contentAt_run (s : TxStore D) {v : Nat} (hv : v ≤ s.db.version) (calls : List (Instant × Call D)) :
    (s.run calls).db.contentAt v = s.db.contentAt v := by
  induction calls generalizing s with
  | nil => rfl
  | cons c calls ih =>
    obtain ⟨hsame, hle⟩ := (s.grows_call c).contentAt hv
    exact (ih (s.call c) hle).trans hsame

/-! ## Transparency -/

/-- **Batching is transparent.** After any calls at any clock readings, the tables and either kind of snapshot
read the effect of the `modify` calls made so far and of no other, an owned snapshot whatever is called
after it; every write is committed or pending, once and in order; and no commit was of a transaction without
a write. -/
theorem batching_is_transparent (d : D) (calls : List (Instant × Call D)) :
    (∀ now, (((new d).run calls).tables now).1 = applyWrites (modifies calls) d) ∧
    ((new d).run calls).snapshot.2.db.contentAt ((new d).run calls).snapshot.1 =
      applyWrites (modifies calls) d ∧
    (∃ version s, ((new d).run calls).snapshotOwned = some (version, s) ∧
      ∀ later, (s.run later).db.contentAt version = applyWrites (modifies calls) d) ∧
    ((new d).run calls).db.committed.flatten ++ ((new d).run calls).pending = modifies calls ∧
    ∀ writes ∈ ((new d).run calls).db.committed, writes ≠ [] := by
  have h : Batched ((new d).run calls) d (modifies calls) := batched_run (batched_new d) calls
  refine ⟨fun now => (tables_eq h now).1, (snapshot_eq h).1, ?_, h.all, h.noneClean⟩
  obtain ⟨hflush, hnone⟩ := batched_flush h
  refine ⟨_, _, snapshotOwned_eq h, ?_⟩
  intro later
  rw [contentAt_run _ le_rfl, CommitLog.contentAt_version]
  exact latest_of_pending_nil hflush (by simp [pending, hnone])

/-- The writes of a store, each in a `modify` of its own: whenever the tables are read, they are as the run of
writes leaves them. -/
theorem tables_run_ops [Blake3] [Ed25519] (s₀ : FsStore) (ops : List (Instant × Op)) (now : Instant) :
    (((new s₀).run (ops.map fun op => (op.1, .modify fun s => s.step op.2))).tables now).1 =
      s₀.run (ops.map Prod.snd) := by
  have hmods : modifies (ops.map fun op => (op.1, Call.modify fun s : FsStore => s.step op.2)) =
      ops.map fun op => fun s : FsStore => s.step op.2 := by
    induction ops with
    | nil => rfl
    | cons op ops ih => exact congrArg (_ :: ·) ih
  have h := batched_run (batched_new s₀) (ops.map fun op => (op.1, Call.modify fun s => s.step op.2))
  rw [(tables_eq h now).1, List.nil_append, hmods, applyWrites, FsStore.run, List.foldl_map, List.foldl_map]

end TxStore

end PdnStore.Fs

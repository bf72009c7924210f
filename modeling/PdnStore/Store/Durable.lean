import PdnStore.Store.Transaction
import PdnStore.Store.Index
import PdnStore.Store.Latest

/-!
# What a crash leaves (store/fs.rs:119-315, ranger.rs:620-656)

A write is durable once its transaction is committed, and a transaction is committed by `flush`, by either
kind of snapshot, or by the next access that finds it older than `MAX_COMMIT_DELAY`. A crash loses what is
pending. A commit takes everything written before it (`durable_run`), so what is left is the effect of the
first writes; and every operation is one write, except `put`, which is two: it removes what the entry
supersedes, and then stores the entry. A commit by age can fall between the two (`crash_consistent`): then
the superseded entries are gone, and the entry that supersedes them is not there.

| here | there |
| --- | --- |
| `onDisk`    | the tables of the database; `open_replicas` is in memory |
| `Access`    | a call of a method of `Store`, with the readings of the clock its accesses find |
| `reopen`    | `new_impl` (`:153`): `Tables::new` finds the tables, then the migrations that touch entries |
| `restart`   | a process that dies after some of its accesses, and the next start |
-/

namespace PdnStore.Fs

open Ranger Sync Actors

/-! ## Commits -/

/-- A call that commits whatever is written. -/
def Call.persists {D : Type*} : Call D → Bool
  | .snapshot | .snapshotOwned | .flush => true
  | _ => false

namespace TxStore

variable {D : Type*} {s : TxStore D} {d : D} {ws : List (D → D)}

/-- What is left after a crash. -/
def durable (s : TxStore D) : D := s.db.latest

/-- After a call that persists nothing is pending. -/
theorem pending_call (h : Batched s d ws) {c : Instant × Call D} (hc : c.2.persists = true) :
    (s.call c).pending = [] := by
  obtain ⟨now, c⟩ := c
  cases c with
  | modify f => cases hc
  | tables => cases hc
  | snapshot => rfl
  | snapshotOwned =>
    show ((s.snapshotOwned.map Prod.snd).getD s).pending = []
    rw [snapshotOwned_eq h]
    show s.flush.pending = []
    simp [pending, (batched_flush h).2]
  | flush =>
    show s.flush.pending = []
    simp [pending, (batched_flush h).2]

/-- A call that persists commits everything written before it. -/
theorem durable_of_persists (h : Batched s d ws) {c : Instant × Call D} (hc : c.2.persists = true) :
    (s.call c).durable = applyWrites ws d := by
  have hnone : modifies [c] = [] := by
    obtain ⟨now, c⟩ := c
    cases c with
    | modify f => cases hc
    | tables => rfl
    | snapshot => rfl
    | snapshotOwned => rfl
    | flush => rfl
  have hb := batched_call h c
  rw [hnone, List.append_nil] at hb
  exact latest_of_pending_nil hb (pending_call h hc)

/-- The write transaction to work in is the open one, unless that is too old and is committed. -/
theorem db_currentWriteTransaction (h : Batched s d ws) (now : Instant) :
    (s.currentWriteTransaction now).2.db = s.db ∨
      ((s.currentWriteTransaction now).2.db.latest = applyWrites ws d ∧
        ∃ w, s.transaction = .write w ∧ MAX_COMMIT_DELAY < now - w.since) := by
  unfold currentWriteTransaction
  cases ht : s.transaction with
  | none => exact .inl rfl
  | read v => exact .inl rfl
  | write w =>
    dsimp only
    split
    · exact .inl rfl
    · rename_i hold
      right
      obtain ⟨hb, hnone⟩ := batched_finishWrite h ht
      exact ⟨latest_of_pending_nil hb (by simp [pending, hnone]), w, rfl, not_le.1 hold⟩

/-- **A call commits everything written before it, or nothing.** -/
theorem durable_call (h : Batched s d ws) (c : Instant × Call D) :
    (s.call c).durable = s.durable ∨ (s.call c).durable = applyWrites ws d ∧
      (c.2.persists = true ∨ ∃ w, s.transaction = .write w ∧ MAX_COMMIT_DELAY < c.1 - w.since) := by
  cases hc : c.2.persists with
  | true => exact .inr ⟨durable_of_persists h hc, .inl rfl⟩
  | false =>
    obtain ⟨now, c⟩ := c
    have hdb : (s.call (now, c)).db = (s.currentWriteTransaction now).2.db := by
      cases c with
      | modify f => rfl
      | tables => rfl
      | snapshot => cases hc
      | snapshotOwned => cases hc
      | flush => cases hc
    unfold durable
    rw [hdb]
    rcases db_currentWriteTransaction h now with hsame | ⟨hall, hold⟩
    · rw [hsame]
      exact .inl rfl
    · exact .inr ⟨hall, .inr hold⟩

/-- Run: what is durable is the effect of the writes made before one of the calls, which committed them;
and no call that persists comes later. -/
theorem durable_run (d : D) (calls : List (Instant × Call D)) : ∃ done rest, calls = done ++ rest ∧
    ((new d).run calls).durable = applyWrites (modifies done) d ∧
    (done = [] ∨ ∃ c later, rest = c :: later ∧ (c.2.persists = true ∨
      ∃ w, ((new d).run done).transaction = .write w ∧ MAX_COMMIT_DELAY < c.1 - w.since)) ∧
    ∀ before c later, calls = before ++ c :: later → c.2.persists = true → before.length ≤ done.length := by
  -- the calls from the last one back
  induction calls using List.reverseRecOn with
  | nil => exact ⟨[], [], rfl, rfl, .inl rfl, by simp⟩
  | append_singleton calls c ih =>
    have hb : Batched ((new d).run calls) d (modifies calls) := batched_run (batched_new d) calls
    have hrun : (new d).run (calls ++ [c]) = ((new d).run calls).call c := by simp [run, List.foldl_append]
    have hearlier : ∀ {before c' later}, calls ++ [c] = before ++ c' :: later →
        before.length ≤ calls.length := by
      intro before c' later heq
      have := congrArg List.length heq
      simp only [List.length_append, List.length_cons, List.length_nil] at this
      omega
    rw [hrun]
    cases hc : c.2.persists with
    | true =>
      exact ⟨calls, [c], rfl, durable_of_persists hb hc, .inr ⟨c, [], rfl, .inl hc⟩,
        fun before c' later heq _ => hearlier heq⟩
    | false =>
      rcases durable_call hb c with hsame | ⟨hall, hwhy⟩
      · obtain ⟨done, rest, heq, hdur, hwhy, hpersist⟩ := ih
        refine ⟨done, rest ++ [c], by rw [heq, List.append_assoc], hsame.trans hdur, ?_, ?_⟩
        · rcases hwhy with hnil | ⟨c', later, hrest, hwhy⟩
          · exact .inl hnil
          · exact .inr ⟨c', later ++ [c], by rw [hrest]; rfl, hwhy⟩
        · intro before c' later hsplit hc'
          rcases List.eq_nil_or_concat later with rfl | ⟨later', last, rfl⟩
          · obtain ⟨-, hlast⟩ := List.append_inj' hsplit rfl
            obtain rfl : c = c' := by simpa using hlast
            rw [hc] at hc'
            cases hc'
          · rw [List.concat_eq_append, ← List.cons_append, ← List.append_assoc] at hsplit
            exact hpersist before c' later' (List.append_inj' hsplit rfl).1 hc'
      · exact ⟨calls, [c], rfl, hall, .inr ⟨c, [], rfl, hwhy⟩, fun before c' later heq _ => hearlier heq⟩

end TxStore

/-! ## The accesses of the operations -/

section

variable [Blake3] [Ed25519]

namespace FsStore

/-- What of a store is in the database. -/
def onDisk (s : FsStore) : FsStore := { s with openReplicas := ∅ }

/-- The first write of `put`: what the entry supersedes goes (ranger.rs:633). -/
def removeSuperseded (e : SignedEntry) (d : FsStore) : FsStore :=
  d.onTables e.id.namespace fun inst => (Store.removePrefixFiltered inst (key e) fun v => value e ≥ v).2

/-- The second write of `put`: the entry itself (ranger.rs:637). -/
def storeEntry (e : SignedEntry) (d : FsStore) : FsStore :=
  d.onTables e.id.namespace fun inst => Store.entryPut inst e

/-- The accesses of a write at the readings `t` of the clock. A migration runs in a transaction of its own. -/
def callsOf (s : FsStore) (t : Nat → Instant) : Op → List (Instant × Call FsStore)
  | .put e =>
    if wouldInsert (⟨s.tables, none⟩ : StoreInstance e.id.namespace) e then
      [(t 0, .tables), (t 1, .modify (removeSuperseded e)), (t 2, .modify (storeEntry e))]
    else [(t 0, .tables)]
  | .removePrefixFiltered id p =>
    [(t 0, .modify fun d => d.onTables id.namespace fun inst => (inst.removePrefixFiltered id p).2)]
  | .retractEntry ns author key upTo => [(t 0, .modify fun d => (d.retractEntry ns author key upTo).1)]
  | .removeReplica ns => if ns ∈ s.openReplicas then [] else [(t 0, .modify fun d => (d.removeReplica ns).1)]
  | .importNamespace capability => [(t 0, .modify fun d => (d.importNamespace capability).1)]
  | .loadReplicaInfo _ => [(t 0, .tables)]
  | .closeReplica _ => []
  | .registerUsefulPeer ns nanos peer => [(t 0, .modify fun d => (d.registerUsefulPeer ns nanos peer).1)]
  | .setDownloadPolicy ns policy => [(t 0, .modify fun d => (d.setDownloadPolicy ns policy).1)]
  | .migrateLatest => [(t 0, .flush), (t 0, .modify migrateLatest), (t 0, .flush)]
  | .migrateByKey => [(t 0, .flush), (t 0, .modify migrateByKey), (t 0, .flush)]

end FsStore

/-- A write of the store, or an access that writes nothing: a read of the tables, a snapshot, a flush. -/
inductive Access where
  | write (op : Op) (t : Nat → Instant)
  | tables (now : Instant)
  | snapshot (now : Instant)
  | snapshotOwned (now : Instant)
  | flush (now : Instant)

namespace Access

/-- The calls of an access to the store `s`. -/
def calls (s : FsStore) : Access → List (Instant × Call FsStore)
  | .write op t => s.callsOf t op
  | .tables now => [(now, .tables)]
  | .snapshot now => [(now, .snapshot)]
  | .snapshotOwned now => [(now, .snapshotOwned)]
  | .flush now => [(now, .flush)]

/-- The write of an access, if it makes one. -/
def op? : Access → Option Op
  | .write op _ => some op
  | _ => none

/-- The store after an access. -/
def after (s : FsStore) (a : Access) : FsStore := s.run a.op?.toList

end Access

/-- The writes of a sequence of accesses. -/
def opsOf (as : List Access) : List Op := as.filterMap Access.op?

/-- The calls of a sequence of accesses. -/
def traceOf (s : FsStore) : List Access → List (Instant × Call FsStore)
  | [] => []
  | a :: as => a.calls s ++ traceOf (a.after s) as

end

/-! ## One write -/

theorem opsOf_cons (a : Access) (as : List Access) : opsOf (a :: as) = a.op?.toList ++ opsOf as := by
  cases a <;> rfl

theorem modifies_append {D : Type*} (cs cs' : List (Instant × Call D)) :
    modifies (cs ++ cs') = modifies cs ++ modifies cs' := List.filterMap_append

namespace FsStore

theorem onDisk_tables (s : FsStore) : s.onDisk.tables = s.tables := rfl

theorem onDisk_namespaces (s : FsStore) : s.onDisk.namespaces = s.namespaces := rfl

theorem onDisk_retractEntry (s : FsStore) (ns : NamespaceId) (author : AuthorId) (k : Bytes) (upTo : U64) :
    (s.retractEntry ns author k upTo).1.onDisk = (s.onDisk.retractEntry ns author k upTo).1 := by
  unfold retractEntry
  rw [onDisk_tables]
  repeat' split
  all_goals rfl

theorem onDisk_removeReplica {s : FsStore} {ns : NamespaceId} (h : ns ∉ s.openReplicas) :
    (s.removeReplica ns).1.onDisk = (s.onDisk.removeReplica ns).1 := by
  have hdisk : ns ∉ s.onDisk.openReplicas := Finset.notMem_empty ns
  unfold removeReplica
  rw [if_neg h, if_neg hdisk]
  rfl

theorem onDisk_registerUsefulPeer (s : FsStore) (ns : NamespaceId) (nanos : U64) (peer : PeerIdBytes) :
    (s.registerUsefulPeer ns nanos peer).1.onDisk = (s.onDisk.registerUsefulPeer ns nanos peer).1 := by
  have hrows : s.onDisk.peerRows ns = s.peerRows ns := rfl
  unfold registerUsefulPeer
  rw [hrows, onDisk_namespaces]
  repeat' split
  all_goals rfl

theorem onDisk_setDownloadPolicy (s : FsStore) (ns : NamespaceId) (policy : DownloadPolicy) :
    (s.setDownloadPolicy ns policy).1.onDisk = (s.onDisk.setDownloadPolicy ns policy).1 := by
  unfold setDownloadPolicy
  rw [onDisk_namespaces]
  repeat' split
  all_goals rfl

theorem onDisk_migrateLatest (s : FsStore) : s.migrateLatest.onDisk = s.onDisk.migrateLatest := by
  unfold migrateLatest
  rw [onDisk_tables]
  repeat' split
  all_goals rfl

theorem onDisk_migrateByKey (s : FsStore) : s.migrateByKey.onDisk = s.onDisk.migrateByKey := by
  unfold migrateByKey
  rw [onDisk_tables]
  repeat' split
  all_goals rfl

theorem prefix_one {α : Type*} {x : α} {done : List α} (h : done <+: [x]) (hne : done ≠ [x]) : done = [] := by
  rcases List.prefix_cons_iff.1 h with rfl | ⟨t, rfl, ht⟩
  · rfl
  · exact absurd (by rw [List.prefix_nil.1 ht]) hne

theorem prefix_three {α : Type*} {x y z : α} {done : List α} (h : done <+: [x, y, z]) (hne : done ≠ [x, y, z]) :
    done = [] ∨ done = [x] ∨ done = [x, y] := by
  rcases List.prefix_cons_iff.1 h with rfl | ⟨t, rfl, ht⟩
  · exact .inl rfl
  rcases List.prefix_cons_iff.1 ht with rfl | ⟨t', rfl, ht'⟩
  · exact .inr (.inl rfl)
  · rw [prefix_one ht' fun heq => hne (by rw [heq])]
    exact .inr (.inr rfl)

end FsStore

section Crash

variable [Blake3] [Ed25519]

namespace FsStore

omit [Blake3] in
theorem onDisk_importNamespace (s : FsStore) (capability : Capability) :
    (s.importNamespace capability).1.onDisk = (s.onDisk.importNamespace capability).1 := by
  unfold importNamespace
  rw [onDisk_namespaces]
  repeat' split
  all_goals rfl

omit [Blake3] in
theorem onDisk_loadReplicaInfo (s : FsStore) (ns : NamespaceId) :
    (s.loadReplicaInfo ns).1.onDisk = s.onDisk := by
  unfold loadReplicaInfo
  repeat' split
  all_goals rfl

/-- A put that happens is its two writes. -/
theorem step_put_of_wouldInsert {s : FsStore} {e : SignedEntry}
    (h : wouldInsert (⟨s.tables, none⟩ : StoreInstance e.id.namespace) e = true) :
    s.step (.put e) = storeEntry e (removeSuperseded e s) := by
  show ({ s with tables := (Ranger.put (⟨s.tables, none⟩ : StoreInstance e.id.namespace) e).2.tables } : FsStore) = _
  rw [put_eq_of_wouldInsert h]
  rfl

theorem step_put_of_not_wouldInsert {s : FsStore} {e : SignedEntry}
    (h : wouldInsert (⟨s.tables, none⟩ : StoreInstance e.id.namespace) e = false) : s.step (.put e) = s := by
  show ({ s with tables := (Ranger.put (⟨s.tables, none⟩ : StoreInstance e.id.namespace) e).2.tables } : FsStore) = _
  rw [put_of_not_wouldInsert h]

/-- The accesses of a write have its effect on the database. -/
theorem applyWrites_callsOf (s : FsStore) (t : Nat → Instant) (op : Op) :
    applyWrites (modifies (s.callsOf t op)) s.onDisk = (s.step op).onDisk := by
  cases op with
  | put e =>
    cases hw : wouldInsert (⟨s.tables, none⟩ : StoreInstance e.id.namespace) e with
    | true =>
      rw [show s.callsOf t (.put e) = _ from if_pos hw, step_put_of_wouldInsert hw]
      rfl
    | false =>
      rw [show s.callsOf t (.put e) = [(t 0, .tables)] from if_neg (by simp [hw]), step_put_of_not_wouldInsert hw]
      rfl
  | removePrefixFiltered id p => rfl
  | retractEntry ns author k upTo => exact (s.onDisk_retractEntry ns author k upTo).symm
  | removeReplica ns =>
    by_cases hopen : ns ∈ s.openReplicas
    · rw [show s.callsOf t (.removeReplica ns) = [] from if_pos hopen]
      show s.onDisk = (s.removeReplica ns).1.onDisk
      rw [show s.removeReplica ns = (s, _) from if_pos hopen]
    · rw [show s.callsOf t (.removeReplica ns) = _ from if_neg hopen]
      exact (onDisk_removeReplica hopen).symm
  | importNamespace capability => exact (s.onDisk_importNamespace capability).symm
  | loadReplicaInfo ns => exact (s.onDisk_loadReplicaInfo ns).symm
  | closeReplica ns => rfl
  | registerUsefulPeer ns nanos peer => exact (s.onDisk_registerUsefulPeer ns nanos peer).symm
  | setDownloadPolicy ns policy => exact (s.onDisk_setDownloadPolicy ns policy).symm
  | migrateLatest => exact s.onDisk_migrateLatest.symm
  | migrateByKey => exact s.onDisk_migrateByKey.symm

/-- Cut short, a write has had no effect yet, or its whole effect; or it is a put that has removed what the
entry supersedes, and not stored the entry. -/
theorem prefix_callsOf (s : FsStore) (t : Nat → Instant) (op : Op) {done : List (Instant × Call FsStore)}
    (h : done <+: s.callsOf t op) (hne : done ≠ s.callsOf t op) :
    applyWrites (modifies done) s.onDisk = s.onDisk ∨
    applyWrites (modifies done) s.onDisk = (s.step op).onDisk ∨
    ∃ e, op = .put e ∧ applyWrites (modifies done) s.onDisk = removeSuperseded e s.onDisk ∧
      done ≠ [] ∧ s.callsOf t op = done ++ [(t 2, .modify (storeEntry e))] := by
  have hfirst : done = [] → applyWrites (modifies done) s.onDisk = s.onDisk := by
    rintro rfl
    rfl
  cases op with
  | put e =>
    cases hw : wouldInsert (⟨s.tables, none⟩ : StoreInstance e.id.namespace) e with
    | true =>
      rw [show s.callsOf t (.put e) = _ from if_pos hw] at h hne ⊢
      rcases prefix_three h hne with rfl | rfl | rfl
      · exact .inl rfl
      · exact .inl rfl
      · exact .inr (.inr ⟨e, rfl, rfl, by simp, rfl⟩)
    | false =>
      rw [show s.callsOf t (.put e) = [(t 0, .tables)] from if_neg (by simp [hw])] at h hne
      exact .inl (hfirst (prefix_one h hne))
  | removeReplica ns =>
    by_cases hopen : ns ∈ s.openReplicas
    · rw [show s.callsOf t (.removeReplica ns) = [] from if_pos hopen] at h
      exact .inl (hfirst (List.prefix_nil.1 h))
    · rw [show s.callsOf t (.removeReplica ns) = _ from if_neg hopen] at h hne
      exact .inl (hfirst (prefix_one h hne))
  | closeReplica ns => exact .inl (hfirst (List.prefix_nil.1 h))
  | migrateLatest =>
    rcases prefix_three h hne with rfl | rfl | rfl
    · exact .inl rfl
    · exact .inl rfl
    · exact .inr (.inl s.onDisk_migrateLatest.symm)
  | migrateByKey =>
    rcases prefix_three h hne with rfl | rfl | rfl
    · exact .inl rfl
    · exact .inl rfl
    · exact .inr (.inl s.onDisk_migrateByKey.symm)
  | removePrefixFiltered id p => exact .inl (hfirst (prefix_one h hne))
  | retractEntry ns author k upTo => exact .inl (hfirst (prefix_one h hne))
  | importNamespace capability => exact .inl (hfirst (prefix_one h hne))
  | loadReplicaInfo ns => exact .inl (hfirst (prefix_one h hne))
  | registerUsefulPeer ns nanos peer => exact .inl (hfirst (prefix_one h hne))
  | setDownloadPolicy ns policy => exact .inl (hfirst (prefix_one h hne))

end FsStore

/-! ## A crash -/

theorem applyWrites_calls (s : FsStore) (a : Access) :
    applyWrites (modifies (a.calls s)) s.onDisk = (a.after s).onDisk := by
  cases a with
  | write op t => exact s.applyWrites_callsOf t op
  | tables now => rfl
  | snapshot now => rfl
  | snapshotOwned now => rfl
  | flush now => rfl

theorem run_append (s : FsStore) (ops ops' : List Op) : s.run (ops ++ ops') = (s.run ops).run ops' :=
  List.foldl_append

/-- An access that did not make all its calls. -/
theorem prefix_calls (s : FsStore) (a : Access) {done : List (Instant × Call FsStore)} (h : done <+: a.calls s)
    (hne : done ≠ a.calls s) : applyWrites (modifies done) s.onDisk = s.onDisk ∨
    applyWrites (modifies done) s.onDisk = (a.after s).onDisk ∨
    ∃ e t, a.op? = some (.put e) ∧ applyWrites (modifies done) s.onDisk = FsStore.removeSuperseded e s.onDisk ∧
      done ≠ [] ∧ a.calls s = done ++ [(t, .modify (FsStore.storeEntry e))] := by
  cases a with
  | write op t =>
    rcases s.prefix_callsOf t op h hne with h | h | ⟨e, rfl, h, hdone, hcalls⟩
    · exact .inl h
    · exact .inr (.inl h)
    · exact .inr (.inr ⟨e, t 2, rfl, h, hdone, hcalls⟩)
  | tables now => exact .inl (by rw [FsStore.prefix_one h hne]; rfl)
  | snapshot now => exact .inl (by rw [FsStore.prefix_one h hne]; rfl)
  | snapshotOwned now => exact .inl (by rw [FsStore.prefix_one h hne]; rfl)
  | flush now => exact .inl (by rw [FsStore.prefix_one h hne]; rfl)

/-- The database after `j` writes, or in the middle of the put that comes next. -/
structure Landed (s : FsStore) (as : List Access) (done : List (Instant × Call FsStore)) (j : Nat) : Prop where
  /-- the writes of the accesses that are done are in -/
  complete : ∀ k, traceOf s (as.take k) <+: done → (opsOf (as.take k)).length ≤ j
  content : applyWrites (modifies done) s.onDisk = (s.run ((opsOf as).take j)).onDisk ∨
    ∃ e t later, (opsOf as)[j]? = some (.put e) ∧
      applyWrites (modifies done) s.onDisk = FsStore.removeSuperseded e (s.run ((opsOf as).take j)).onDisk ∧
      done ≠ [] ∧ traceOf s as = done ++ (t, .modify (FsStore.storeEntry e)) :: later

/-- The first calls of a trace have the effect of the first writes. -/
theorem landed_of_prefix (as : List Access) {s : FsStore} {done : List (Instant × Call FsStore)}
    (h : done <+: traceOf s as) : ∃ j, Landed s as done j := by
  induction as generalizing s done with
  | nil =>
    obtain rfl := List.prefix_nil.1 h
    exact ⟨0, fun k _ => by simp [opsOf], .inl rfl⟩
  | cons a as ih =>
    have hops : (opsOf (a :: as)).take a.op?.toList.length = a.op?.toList := by
      rw [opsOf_cons, List.take_left' rfl]
    have htrace : traceOf s (a :: as) = a.calls s ++ traceOf (a.after s) as := rfl
    rw [htrace] at h
    by_cases hall : a.calls s <+: done
    · -- the access is done: the rest is about the others
      obtain ⟨done', rfl⟩ := hall
      obtain ⟨j, hdone, hcontent⟩ := ih ((List.prefix_append_right_inj _).1 h)
      have hstart : applyWrites (modifies (a.calls s ++ done')) s.onDisk =
          applyWrites (modifies done') (a.after s).onDisk := by
        rw [modifies_append, applyWrites_append, applyWrites_calls]
      have hrun : s.run ((opsOf (a :: as)).take (a.op?.toList.length + j)) =
          (a.after s).run ((opsOf as).take j) := by
        rw [opsOf_cons, List.take_length_add_append, run_append]
        rfl
      refine ⟨a.op?.toList.length + j, fun k hk => ?_, ?_⟩
      · cases k with
        | zero => simp [opsOf]
        | succ k =>
          have := hdone k ((List.prefix_append_right_inj (a.calls s)).1 hk)
          rw [List.take_succ_cons, opsOf_cons, List.length_append]
          omega
      · rw [hstart, hrun]
        rcases hcontent with h | ⟨e, t, later, hop, h, hsome, hlater⟩
        · exact .inl h
        · refine .inr ⟨e, t, later, ?_, h, by simp [hsome], ?_⟩
          · rw [opsOf_cons, List.getElem?_append_right (Nat.le_add_right _ _), Nat.add_sub_cancel_left]
            exact hop
          · rw [htrace, hlater, List.append_assoc]
    · -- it is not: nothing after it is
      have hsub : done <+: a.calls s :=
        (List.prefix_or_prefix_of_prefix h (List.prefix_append _ _)).resolve_right hall
      have hne : done ≠ a.calls s := fun heq => hall (heq ▸ List.prefix_refl _)
      have hdone : ∀ j k, traceOf s ((a :: as).take k) <+: done → (opsOf ((a :: as).take k)).length ≤ j := by
        intro j k hk
        cases k with
        | zero => simp [opsOf]
        | succ k => exact absurd ((List.prefix_append _ _).trans hk) hall
      rcases prefix_calls s a hsub hne with h | h | ⟨e, t, hop, h, hsome, hcalls⟩
      · exact ⟨0, hdone 0, .inl h⟩
      · refine ⟨a.op?.toList.length, hdone _, .inl ?_⟩
        rw [hops, h]
        rfl
      · refine ⟨0, hdone 0, .inr ⟨e, t, traceOf (a.after s) as, ?_, h, hsome, ?_⟩⟩
        · rw [opsOf_cons, hop]
          rfl
        · rw [htrace, hcalls, List.append_assoc]
          rfl

/-- What a put that was cut short leaves: what the entry supersedes is gone, the entry is not there. -/
def superseding (e : SignedEntry) : Op := .removePrefixFiltered e.id fun v => e.record.value ≥ v

theorem onDisk_superseding (s : FsStore) (e : SignedEntry) :
    (s.step (superseding e)).onDisk = FsStore.removeSuperseded e s.onDisk := rfl

/-- **What a crash leaves.** Of the calls of a sequence of accesses the first few, `made`, were made before the
process died. The database holds the effect of the first writes, among them all that a persisting call was
made after; or of the first writes and half of a put, whose two parts a commit by age fell between. -/
theorem crash_consistent (s : FsStore) (as : List Access) {made : List (Instant × Call FsStore)}
    (hmade : made <+: traceOf s as) : ∃ j,
    (∀ k before c after, made = before ++ c :: after → c.2.persists = true →
      traceOf s (as.take k) <+: before → (opsOf (as.take k)).length ≤ j) ∧
    (((TxStore.new s.onDisk).run made).durable = (s.run ((opsOf as).take j)).onDisk ∨
      ∃ e, (opsOf as)[j]? = some (.put e) ∧
        ((TxStore.new s.onDisk).run made).durable = (s.run ((opsOf as).take j ++ [superseding e])).onDisk ∧
        ∃ before t after w, made = before ++ (t, .modify (FsStore.storeEntry e)) :: after ∧
          ((TxStore.new s.onDisk).run before).transaction = .write w ∧ MAX_COMMIT_DELAY < t - w.since) := by
  obtain ⟨done, rest, hsplit, hdurable, hwhy, hpersist⟩ := TxStore.durable_run s.onDisk made
  have hsub : done <+: made := ⟨rest, hsplit.symm⟩
  obtain ⟨j, hdone, hcontent⟩ := landed_of_prefix as (hsub.trans hmade)
  refine ⟨j, fun k before c after heq hc hk => ?_, ?_⟩
  · -- what was written before the persisting call is among what is durable
    have hbefore : before <+: done := by
      have hmade' : before <+: made := ⟨c :: after, heq.symm⟩
      exact List.prefix_of_prefix_length_le hmade' hsub (hpersist before c after heq hc)
    exact hdone k (hk.trans hbefore)
  · rw [hdurable]
    rcases hcontent with h | ⟨e, t, later, hop, h, hsome, hlater⟩
    · exact .inl h
    · -- the next call is the second write of the put, and it is the one that committed the first
      refine .inr ⟨e, hop, ?_, ?_⟩
      · rw [h, run_append]
        exact (onDisk_superseding _ e).symm
      · obtain ⟨c, after, rfl, hcommit⟩ := hwhy.resolve_left hsome
        have hnext : c = (t, .modify (FsStore.storeEntry e)) := by
          rw [hlater, hsplit] at hmade
          have htail := (List.prefix_append_right_inj done).1 hmade
          obtain ⟨_, hc, -⟩ := (List.prefix_cons_iff.1 htail).resolve_left (by simp)
          exact (List.cons.inj hc).1
        subst hnext
        obtain ⟨w, hw, hold⟩ := hcommit.resolve_left (by simp [Call.persists])
        exact ⟨done, t, after, w, hsplit, hw, hold⟩

end Crash

section

local instance durableDigest : Blake3 := noDigest

local instance durableKeys : Ed25519 := ⟨id⟩

/-- An entry at clock 0 and a newer one at its key, whose second write finds the transaction too old. -/
def sampleTorn : List Access :=
  [.write (.put (sampleEntry [1] ⟨7, zeros32, 3⟩)) fun _ => 0,
    .write (.put (sampleEntry [1] ⟨7, ones32, 4⟩)) fun i => if i = 2 then MAX_COMMIT_DELAY + 1 else 0]

/-- The process dies before the next commit: the old entry is gone, and the new one is not there. -/
theorem crash_consistent_sampleTorn :
    ((TxStore.new (default : FsStore).onDisk).run (traceOf default sampleTorn)).durable.tables.entries = [] ∧
    ∃ j, (∀ k before c after, traceOf default sampleTorn = before ++ c :: after → c.2.persists = true →
        traceOf default (sampleTorn.take k) <+: before → (opsOf (sampleTorn.take k)).length ≤ j) ∧
      (((TxStore.new (default : FsStore).onDisk).run (traceOf default sampleTorn)).durable =
          ((default : FsStore).run ((opsOf sampleTorn).take j)).onDisk ∨
        ∃ e, (opsOf sampleTorn)[j]? = some (.put e) ∧
          ((TxStore.new (default : FsStore).onDisk).run (traceOf default sampleTorn)).durable =
            ((default : FsStore).run ((opsOf sampleTorn).take j ++ [superseding e])).onDisk ∧
          ∃ before t after w, traceOf default sampleTorn =
              before ++ (t, .modify (FsStore.storeEntry e)) :: after ∧
            ((TxStore.new (default : FsStore).onDisk).run before).transaction = .write w ∧
            MAX_COMMIT_DELAY < t - w.since) :=
  ⟨by decide +kernel, crash_consistent default sampleTorn (List.prefix_refl _)⟩

end

/-! ## Crashes and restarts -/

namespace FsStore

/-- `Store::new_impl` (fs.rs:153) on what is in the database. -/
def reopen (d : FsStore) : FsStore := d.onDisk.migrateLatest.migrateByKey

end FsStore

/-- A store that a process can open: no migration is due. -/
structure Settled (s : FsStore) : Prop where
  closed : s.openReplicas = ∅
  heads : s.RecordsHaveHeads
  index : s.tables.IndexComplete

theorem settled_default : Settled (default : FsStore) where
  closed := rfl
  heads _ hr := absurd hr List.not_mem_nil
  index _ hr := absurd hr List.not_mem_nil

namespace FsStore

variable {s : FsStore}

theorem onDisk_eq (h : s.openReplicas = ∅) : s.onDisk = s := by
  unfold onDisk
  rw [← h]

/-- Where the index is empty and complete there are no records to index. -/
theorem migrateByKey_eq (h : s.tables.IndexComplete) : s.migrateByKey = s := by
  unfold migrateByKey
  split
  · rfl
  · rename_i hcond
    have hindex : s.tables.recordsByKey.toList = [] := by simpa using hcond
    have hrecords : s.tables.records.toList = [] := by
      refine List.eq_nil_iff_forall_not_mem.2 fun r hr => ?_
      have hrow := h r hr
      rw [hindex] at hrow
      cases hrow
    rw [hrecords]
    rfl

/-- Opening the database changes nothing in it. -/
theorem reopen_eq (h : Settled s) : s.reopen = s := by
  unfold reopen
  rw [onDisk_eq h.closed, migrateLatest_eq h.heads, migrateByKey_eq h.index]

end FsStore

section Lives

variable [Blake3] [Ed25519]

/-- What a process does with the store, and after how many calls it dies. -/
structure Life where
  accesses : List Access
  calls : Nat

/-- The store that the next process opens. -/
def FsStore.restart (s : FsStore) (life : Life) : FsStore :=
  ((TxStore.new s).run ((traceOf s life.accesses).take life.calls)).durable.reopen

/-- What the writes of a life come to when it is cut short: the first ones, and perhaps half of a put. -/
def Life.Leaves (life : Life) (ops : List Op) : Prop :=
  ∃ j, ops = (opsOf life.accesses).take j ∨
    ∃ e, (opsOf life.accesses)[j]? = some (.put e) ∧ ops = (opsOf life.accesses).take j ++ [superseding e]

namespace FsStore

variable {s : FsStore}

/-- Closing all replicas is a run. -/
theorem onDisk_eq_run (s : FsStore) : s.onDisk = s.run (s.openReplicas.toList.map .closeReplica) := by
  have hclose : ∀ (l : List NamespaceId) (s : FsStore), s.run (l.map .closeReplica) =
      { s with openReplicas := s.openReplicas.filter (· ∉ l) } := by
    intro l
    induction l with
    | nil => intro s; simp [run]
    | cons ns l ih =>
      intro s
      show (s.closeReplica ns).run (l.map .closeReplica) = _
      rw [ih]
      unfold closeReplica
      congr 1
      ext ns'
      simp only [Finset.mem_filter, Finset.mem_erase, List.mem_cons]
      tauto
  rw [hclose]
  unfold onDisk
  congr 1
  ext ns
  simp

theorem settled_onDisk_run (h : Settled s) (ops : List Op) : Settled (s.run ops).onDisk where
  closed := rfl
  heads := run_preserves (P := RecordsHaveHeads) (fun _ op h => recordsHaveHeads_step h op) h.heads ops
  index := run_preserves (P := fun s => s.tables.IndexComplete) indexComplete_step h.index ops

end FsStore

/-- Step: a life that is cut short and the next start are a run of whole writes, and the close of what was
open. -/
theorem restart_eq_run {s : FsStore} (h : Settled s) (life : Life) :
    ∃ (ops : List Op) (closed : List NamespaceId), life.Leaves ops ∧
    s.restart life = s.run (ops ++ closed.map .closeReplica) ∧ Settled (s.restart life) := by
  obtain ⟨done, rest, hsplit, hdurable, -, -⟩ :=
    TxStore.durable_run s ((traceOf s life.accesses).take life.calls)
  obtain ⟨j, -, hcontent⟩ := landed_of_prefix life.accesses
    ((show done <+: _ from ⟨rest, hsplit.symm⟩).trans (List.take_prefix life.calls _))
  rw [FsStore.onDisk_eq h.closed, ← hdurable] at hcontent
  have hfrom : ∀ ops, life.Leaves ops →
      ((TxStore.new s).run ((traceOf s life.accesses).take life.calls)).durable = (s.run ops).onDisk →
      ∃ (ops : List Op) (closed : List NamespaceId), life.Leaves ops ∧
        s.restart life = s.run (ops ++ closed.map .closeReplica) ∧ Settled (s.restart life) := by
    intro ops hleaves heq
    have hsettled : Settled (s.run ops).onDisk := FsStore.settled_onDisk_run h ops
    have hrestart : s.restart life = (s.run ops).onDisk := by
      unfold FsStore.restart
      rw [heq, FsStore.reopen_eq hsettled]
    refine ⟨ops, (s.run ops).openReplicas.toList, hleaves, ?_, hrestart ▸ hsettled⟩
    rw [hrestart, run_append]
    exact FsStore.onDisk_eq_run _
  rcases hcontent with heq | ⟨e, -, -, hop, heq, -⟩
  · exact hfrom _ ⟨j, .inl rfl⟩ heq
  · refine hfrom _ ⟨j, .inr ⟨e, hop, rfl⟩⟩ (heq.trans ?_)
    rw [run_append]
    rfl

/-- **However often the process dies and starts again, the store is one that a run of whole writes leaves**,
so what every write keeps, crashes keep too. Of each life the run has the first writes, then, where a put was
cut in two, the removal of what its entry supersedes, and last the close of every replica. No migration runs
again. -/
theorem crashes_leave_a_run (lives : List Life) : ∃ kept : List (List Op × List NamespaceId),
    List.Forall₂ (fun life k => life.Leaves k.1) lives kept ∧
    lives.foldl FsStore.restart default =
      (default : FsStore).run (kept.flatMap fun k => k.1 ++ k.2.map .closeReplica) ∧
    (lives.foldl FsStore.restart default).reopen = lives.foldl FsStore.restart default := by
  suffices h : ∀ s : FsStore, Settled s → ∃ kept : List (List Op × List NamespaceId),
      List.Forall₂ (fun life k => life.Leaves k.1) lives kept ∧
      lives.foldl FsStore.restart s = s.run (kept.flatMap fun k => k.1 ++ k.2.map .closeReplica) ∧
      Settled (lives.foldl FsStore.restart s) by
    obtain ⟨kept, hkept, hrun, hsettled⟩ := h default settled_default
    exact ⟨kept, hkept, hrun, FsStore.reopen_eq hsettled⟩
  induction lives with
  | nil => exact fun s hs => ⟨[], .nil, rfl, hs⟩
  | cons life lives ih =>
    intro s hs
    obtain ⟨ops, closed, hleaves, hrun, hsettled⟩ := restart_eq_run hs life
    obtain ⟨kept, hkept, hrest, hend⟩ := ih _ hsettled
    refine ⟨(ops, closed) :: kept, .cons hleaves hkept, ?_, hend⟩
    rw [List.foldl_cons, hrest, hrun, List.flatMap_cons]
    exact (run_append s _ _).symm

end Lives

end PdnStore.Fs

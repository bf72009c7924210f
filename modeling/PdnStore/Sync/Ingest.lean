import PdnStore.Sync.Reject

/-!
# The two remote ingest paths (sync.rs:498-566, 654-709)

Gossip hands entries to `insert_remote_entry`, which checks `validate_empty` before the shared gate
`validate_entry`; reconciliation goes through `sync_process_message`, whose callback only asks
`validate_entry`. A malformed entry (length zero without the empty hash, or the empty hash with a
length) that passes the gate is therefore stored by one path and refused by the other, and nothing else
tells the paths apart (`ingest_paths_agree`). With such entries kept out of reconciliation, every write
path keeps every record well formed.
-/

namespace PdnStore.Sync

open Ranger Fs Session

section Ingest

variable {ns : NamespaceId} [Blake3] (verify : SignedEntry → Bool)

/-! ## One entry -/

/-- Reconciliation takes the value of a judgement in. -/
def takenBySync (now : U64) (r : Replica ns) (peer : PeerIdBytes)
    (j : ReplicaSession ns × SignedEntry × ContentStatus) :
    Prop :=
  r.info.closed = false ∧ taken (validateCb verify now r peer) j = true

/-- `insert_remote_entry` takes the same entry in, on the store of the judgement. -/
def takenByInsert (now : U64) (r : Replica ns) (peer : PeerIdBytes)
    (j : ReplicaSession ns × SignedEntry × ContentStatus) :
    Prop :=
  ∃ removed,
    (insertRemoteEntry verify now { r with store := j.1.inner } j.2.1 peer j.2.2).result = .ok removed

omit [Blake3] in
theorem validateCb_accept {now : U64} {r : Replica ns} {peer : PeerIdBytes} {s : ReplicaSession ns}
    {e : SignedEntry} {status : ContentStatus} : validateCb verify now r peer s e status = .accept ↔
      validateEntry verify now ns e (.sync peer status) r.info.capabilityValidator = .ok () := by
  unfold validateCb
  cases validateEntry verify now ns e (.sync peer status) r.info.capabilityValidator with
  | ok u => simp
  | error f => cases f <;> simp

/-- When an insertion reports success. -/
theorem insertEntry_ok {now : U64} {r : Replica ns} {e : SignedEntry} {origin : InsertOrigin} :
    (∃ removed, (insertEntry verify now r e origin).result = .ok removed) ↔
      validateEntry verify now ns e origin r.info.capabilityValidator = .ok () ∧
        wouldInsert r.store e = true := by
  unfold insertEntry
  cases hv : validateEntry verify now ns e origin r.info.capabilityValidator with
  | error f => simp
  | ok u =>
    have hput := put_fst r.store e
    dsimp only
    split <;> rename_i heq <;> rw [heq] at hput <;> simp_all

theorem takenByInsert_iff {now : U64} {r : Replica ns} {peer : PeerIdBytes}
    {j : ReplicaSession ns × SignedEntry × ContentStatus} : takenByInsert verify now r peer j ↔
      r.info.closed = false ∧ j.2.1.validateEmpty = true ∧
        validateEntry verify now ns j.2.1 (.sync peer j.2.2) r.info.capabilityValidator = .ok () ∧
        wouldInsert j.1.inner j.2.1 = true := by
  unfold takenByInsert insertRemoteEntry
  cases hc : r.info.closed with
  | true => simp
  | false =>
    cases he : j.2.1.validateEmpty with
    | false => simp
    | true =>
      have hok : (∃ removed,
        (insertEntry verify now { r with store := j.1.inner } j.2.1 (.sync peer j.2.2)).result = .ok removed) ↔ _ :=
        insertEntry_ok verify
      simpa using hok

theorem takenBySync_iff {now : U64} {r : Replica ns} {peer : PeerIdBytes}
    {j : ReplicaSession ns × SignedEntry × ContentStatus} : takenBySync verify now r peer j ↔
      r.info.closed = false ∧
        validateEntry verify now ns j.2.1 (.sync peer j.2.2) r.info.capabilityValidator = .ok () ∧
        wouldInsert j.1.inner j.2.1 = true := by
  simp only [takenBySync, taken, Bool.and_eq_true, decide_eq_true_eq, validateCb_accept,
    wouldInsert_replicaSession]

/-! ## Runs of writes -/

/-- Every stored record is well formed. -/
def WellFormed (s : StoreInstance ns) : Prop := ∀ e ∈ s.tables.entries, e.validateEmpty = true

/-- What can happen to a replica. -/
inductive WriteOp where
  | insert (created now : U64) (key : Bytes) (author : AuthorId) (hash : Hash) (len : U64)
  | deletePrefix (created now : U64) (pre : Bytes) (author : AuthorId)
  | insertRemote (now : U64) (e : SignedEntry) (peer : PeerIdBytes) (status : ContentStatus)
  | reconcile (now : U64) (m : SyncMessage) (peer : PeerIdBytes) (state : SyncOutcome)
      (filter : Option (SignedEntry → Bool))
  | configure (info : ReplicaInfo) (sessionSnapshot : Option Tables)

variable (sign : Entry → EntrySignature)

def applyOp (r : Replica ns) : WriteOp → Replica ns
  | .insert created now key author hash len =>
      (insert verify sign created now r key author hash len).replica
  | .deletePrefix created now pre author => (deletePrefix verify sign created now r pre author).replica
  | .insertRemote now e peer status => (insertRemoteEntry verify now r e peer status).replica
  | .reconcile now m peer state filter => (syncProcessMessage verify now r m peer state filter).replica
  | .configure info snapshot =>
      { r with info := info, store := { r.store with sessionSnapshot := snapshot } }

/-- No malformed entry passes the gate of reconciliation. -/
def OpMeets (r : Replica ns) : WriteOp → Prop
  | .reconcile now m peer _ _ => ∀ v ∈ m.values,
      validateEntry verify now ns v.1 (.sync peer v.2) r.info.capabilityValidator = .ok () →
        v.1.validateEmpty = true
  | _ => True

/-- Every operation of a run meets the condition in the state it finds. -/
def OpsMeet (r : Replica ns) : List WriteOp → Prop
  | [] => True
  | op :: ops => OpMeets verify r op ∧ OpsMeet (applyOp verify sign r op) ops

theorem wellFormed_put {s : StoreInstance ns} {e : SignedEntry} (h : WellFormed s)
    (he : e.validateEmpty = true) : WellFormed (put s e).2 := by
  intro e' he'
  cases hw : wouldInsert s e with
  | false =>
    rw [put_of_not_wouldInsert hw] at he'
    exact h e' he'
  | true =>
    rcases (mem_put hw).1 he' with rfl | ⟨hmem, -⟩
    · exact he
    · exact h e' hmem

theorem wellFormed_insertEntry {now : U64} {r : Replica ns} {e : SignedEntry} {origin : InsertOrigin}
    (h : WellFormed r.store) (he : e.validateEmpty = true) :
      WellFormed (insertEntry verify now r e origin).replica.store := by
  have hput := wellFormed_put h he
  unfold insertEntry
  split
  · exact h
  · split <;> rename_i heq <;> rw [heq] at hput <;> exact hput

theorem put_replicaSession_inner (s : ReplicaSession ns) (e : SignedEntry) :
    (put s e).2.inner = (put s.inner e).2 := by
  unfold put
  rw [wouldInsert_replicaSession]
  split <;> rfl

/-- Step: each operation that meets the condition keeps the records well formed. -/
theorem wellFormed_applyOp {r : Replica ns} {op : WriteOp} (hop : OpMeets verify r op)
    (h : WellFormed r.store) : WellFormed (applyOp verify sign r op).store := by
  cases op with
  | insert created now key author hash len =>
    show WellFormed (insert verify sign created now r key author hash len).replica.store
    unfold insert
    split
    · exact h
    · rename_i hne
      push Not at hne
      split
      · exact h
      · split
        · exact h
        · refine wellFormed_insertEntry verify h ?_
          simp [SignedEntry.validateEmpty, SignedEntry.record, hne]
  | deletePrefix created now pre author =>
    show WellFormed (deletePrefix verify sign created now r pre author).replica.store
    unfold deletePrefix
    split
    · exact h
    · split
      · exact h
      · refine wellFormed_insertEntry verify h ?_
        simp [SignedEntry.validateEmpty, SignedEntry.record]
  | insertRemote now e peer status =>
    show WellFormed (insertRemoteEntry verify now r e peer status).replica.store
    unfold insertRemoteEntry
    split
    · exact h
    · split
      · exact h
      · exact wellFormed_insertEntry verify h (by simp_all)
  | reconcile now m peer state filter =>
    show WellFormed (syncProcessMessage verify now r m peer state filter).replica.store
    cases hc : r.info.closed with
    | true => rw [syncProcessMessage_closed verify hc]; exact h
    | false =>
      rw [(syncProcessMessage_open verify hc).2]
      refine processMessage_preserves (P := fun s : ReplicaSession ns => WellFormed s.inner) _ _ _
        (s := ⟨r.store, filter⟩) h m fun s v hv hacc hs => ?_
      rw [put_replicaSession_inner]
      exact wellFormed_put hs (hop v hv ((validateCb_accept verify).1 hacc))
  | configure info snapshot => exact h

/-- Run: from an empty store on. -/
theorem wellFormed_run {r : Replica ns} (ops : List WriteOp) (hops : OpsMeet verify sign r ops)
    (h : WellFormed r.store) : WellFormed (ops.foldl (applyOp verify sign) r).store := by
  induction ops generalizing r with
  | nil => exact h
  | cons op ops ih => exact ih hops.2 (wellFormed_applyOp verify sign hops.1 h)

/-- **When the two ingest paths admit the same entries**, and what follows for whole runs. -/
theorem ingest_paths_agree (now : U64) (r : Replica ns) (m : SyncMessage) (peer : PeerIdBytes)
    (filter : Option (SignedEntry → Bool)) :
    (∀ j ∈ roundJudgements verify now r m peer filter,
      ((takenBySync verify now r peer j ↔ takenByInsert verify now r peer j) ↔
        r.info.closed = true ∨ j.2.1.validateEmpty = true ∨
          validateEntry verify now ns j.2.1 (.sync peer j.2.2) r.info.capabilityValidator ≠ .ok () ∨
          wouldInsert j.1.inner j.2.1 = false)) ∧
    (∀ reply, (processed verify now r m peer filter).reply = .ok reply →
      (processed verify now r m peer filter).inserted =
        ((roundJudgements verify now r m peer filter).filter (taken (validateCb verify now r peer))).map
          Prod.snd) ∧
    (∀ (r₀ : Replica ns) (ops : List WriteOp), r₀.store.tables.entries = [] → OpsMeet verify sign r₀ ops →
      ∀ e ∈ (ops.foldl (applyOp verify sign) r₀).store.tables.entries, e.validateEmpty = true) := by
  refine ⟨fun j _ => ?_, fun reply h => inserted_eq _ _ h, fun r₀ ops h₀ hops => ?_⟩
  · rw [takenBySync_iff, takenByInsert_iff]
    cases r.info.closed <;> cases j.2.1.validateEmpty <;> cases wouldInsert j.1.inner j.2.1 <;> simp
  · exact wellFormed_run verify sign ops hops fun e he => by rw [h₀] at he; cases he

end Ingest

/-! ## A malformed entry -/

section

local instance ingestDigest : Blake3 := noDigest

/-- Length zero, but not the empty hash. -/
def sampleMalformed : SignedEntry := sampleEntry [1] ⟨0, zeros32, 3⟩

/-- An empty replica without a validator. -/
def emptyReplica : Replica zeros32 := ⟨⟨default, none⟩, ⟨true, none, none, false, false⟩, fun _ => true⟩

/-- Reconciliation stores it; `insert_remote_entry` refuses it. -/
theorem ingest_paths_differ :
    sampleMalformed.validateEmpty = false ∧
    sampleMalformed ∈ (syncProcessMessage (fun _ => true) 5 emptyReplica (sampleOffer sampleMalformed)
      zeros32
      ⟨⟨∅⟩, 0, 0⟩ none).replica.store.tables.entries ∧
    (insertRemoteEntry (fun _ => true) 5 emptyReplica sampleMalformed zeros32 .complete).result =
      .error (.validation .invalidEmptyEntry) ∧
    sampleMalformed ∉ (insertRemoteEntry (fun _ => true) 5 emptyReplica sampleMalformed zeros32
      .complete).replica.store.tables.entries := by
  refine ⟨?_, ?_, ?_, ?_⟩ <;> decide +kernel

/-- A tombstone goes in by either path, and a run that reconciles it keeps the records well formed. -/
theorem ingest_paths_agree_sample :
    (∀ j ∈ roundJudgements (fun _ => true) 5 emptyReplica (sampleOffer sampleTombstone) zeros32 none,
      (takenBySync (fun _ => true) 5 emptyReplica zeros32 j ↔
        takenByInsert (fun _ => true) 5 emptyReplica zeros32 j)) ∧
    ∀ e ∈ (applyOp (fun _ => true) (fun _ => sampleTombstone.signature) emptyReplica
        (.reconcile 5 (sampleOffer sampleTombstone) zeros32 ⟨⟨∅⟩, 0, 0⟩ none)).store.tables.entries,
      e.validateEmpty = true := by
  obtain ⟨hagree, -, hrun⟩ := ingest_paths_agree (fun _ => true)
    (fun _ => sampleTombstone.signature) 5 emptyReplica
    (sampleOffer sampleTombstone) zeros32 none
  constructor
  · intro j hj
    refine (hagree j hj).2 (.inr (.inl ?_))
    have hjudged : roundJudgements (fun _ => true) 5 emptyReplica
      (sampleOffer sampleTombstone) zeros32 none =
        [(⟨emptyReplica.store, none⟩, sampleTombstone, .complete)] := rfl
    rw [hjudged, List.mem_singleton] at hj
    rw [hj]
    decide +kernel
  · refine hrun emptyReplica [.reconcile 5 (sampleOffer sampleTombstone) zeros32 ⟨⟨∅⟩, 0, 0⟩ none] rfl
      ⟨?_, trivial⟩
    intro v hv _
    have hvals : (sampleOffer sampleTombstone).values = [(sampleTombstone, .complete)] := rfl
    rw [hvals, List.mem_singleton] at hv
    rw [hv]
    decide +kernel

end

end PdnStore.Sync

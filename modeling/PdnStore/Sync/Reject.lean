import PdnStore.Sync.Replica
import PdnStore.Ranger.Judge

/-!
# What a rejection names (ranger.rs:439-463, sync.rs:957-978)

"A rejection names an entry the refusing replica does not hold." The gate is `would_insert`, which looks
for the entry through `parents` and so misses a copy that is a tombstone or lies at the empty key. A
refused value that is held only in such a copy, with no visible entry superseding it, is echoed to its
sender; every other held value is not.
-/

namespace PdnStore.Sync

open Ranger Fs Session

section Reject

variable {ns : NamespaceId} [Blake3]

/-- The live records of the replica hold the entry a rejection names. -/
def Holds (s : ReplicaSession ns) (id : RejectId) : Prop :=
  ∃ e ∈ s.inner.tables.entries, e.id.namespace = ns ∧ rejectId e = id

/-- The values of a round, each with the store it is judged against. -/
def roundJudgements (verify : SignedEntry → Bool) (now : U64) (r : Replica ns) (m : SyncMessage)
    (peer : PeerIdBytes)
    (filter : Option (SignedEntry → Bool)) : List (ReplicaSession ns × SignedEntry × ContentStatus) :=
  judgements (validateCb verify now r peer) ⟨r.store, filter⟩ m.values

/-- The judgements of a round that write a rejection. -/
def roundEchoes (verify : SignedEntry → Bool) (now : U64) (r : Replica ns) (m : SyncMessage)
    (peer : PeerIdBytes)
    (filter : Option (SignedEntry → Bool)) : List (ReplicaSession ns × SignedEntry × ContentStatus) :=
  echoes (validateCb verify now r peer) ⟨r.store, filter⟩ m.values

omit [Blake3] in
/-- A refusal of the validator, past the checks before it. -/
theorem namespace_of_reject {verify : SignedEntry → Bool} {now : U64} {r : Replica ns} {peer : PeerIdBytes}
    {s : ReplicaSession ns} {e : SignedEntry} {status : ContentStatus}
    (h : validateCb verify now r peer s e status = .reject) : e.id.namespace = ns := by
  by_contra hne
  simp [validateCb, validateEntry, hne] at h

/-- Entries with the same id in a rejection have the same identifier and value. -/
theorem eq_of_rejectId {e e' : SignedEntry} (hns : e.id.namespace = e'.id.namespace)
    (h : rejectId e = rejectId e') : e.id = e'.id ∧ e.record.value = e'.record.value := by
  simp only [rejectId, RejectId.mk.injEq] at h
  exact ⟨RecordIdentifier.ext hns h.1 h.2.1, by simp [Record.value, h.2.2]⟩

/-- A session inserts where its live store does. -/
theorem wouldInsert_replicaSession (s : ReplicaSession ns) (e : SignedEntry) :
    wouldInsert s e = wouldInsert s.inner e := rfl

/-- A held value is echoed only when every copy that could refuse it is hidden. -/
theorem echoed_held_iff {validate : ReplicaSession ns → SignedEntry → ContentStatus → ValidateOutcome}
    {j : ReplicaSession ns × SignedEntry × ContentStatus} (hrej : validate j.1 j.2.1 j.2.2 = .reject) :
    echoed validate j = false ↔ ∃ p ∈ j.1.inner.tables.entries, supersedes p j.2.1 = true ∧ Visible p := by
  rw [echoed, hrej, wouldInsert_replicaSession, ← wouldInsert_eq_false]
  simp

/-- **When no rejection names an entry the replica holds.** -/
theorem rejections_unheld_iff (verify : SignedEntry → Bool) (now : U64) (r : Replica ns) (m : SyncMessage)
    (peer : PeerIdBytes) (state : SyncOutcome) (filter : Option (SignedEntry → Bool))
      (hopen : r.info.closed = false)
    {reply : Option SyncMessage}
      (hreply : (syncProcessMessage verify now r m peer state filter).reply = .ok reply) :
    rejections (replyParts? reply) = (roundEchoes verify now r m peer filter).map
      (fun j => rejectId j.2.1) ∧
    ((∀ j ∈ roundEchoes verify now r m peer filter, ¬ Holds j.1 (rejectId j.2.1)) ↔
      ∀ j ∈ roundJudgements verify now r m peer filter,
        validateCb verify now r peer j.1 j.2.1 j.2.2 = .reject →
        ∀ e ∈ j.1.inner.tables.entries, e.id.namespace = ns → rejectId e = rejectId j.2.1 →
          (e.record.isEmpty = true ∨ e.id.key = []) →
            ∃ p ∈ j.1.inner.tables.entries, supersedes p j.2.1 = true ∧ Visible p) := by
  rw [(syncProcessMessage_open verify hopen).1] at hreply
  refine ⟨rejections_reply_eq _ _ hreply, ?_⟩
  constructor
  · intro hunheld j hj hrej e he hns hid _
    -- not echoed: then `would_insert` found something
    by_contra hnone
    have hecho : echoed (validateCb verify now r peer) j = true := by
      by_contra hc
      exact hnone ((echoed_held_iff hrej).1 (by simpa using hc))
    exact hunheld j (List.mem_filter.2 ⟨hj, hecho⟩) ⟨e, he, hns, hid⟩
  · rintro hcond j hj ⟨e, he, hns, hid⟩
    obtain ⟨hmem, hecho⟩ := List.mem_filter.1 hj
    have hrej : validateCb verify now r peer j.1 j.2.1 j.2.2 = .reject := by
      simp only [echoed, Bool.and_eq_true, decide_eq_true_eq] at hecho
      exact hecho.1
    have hseen : ∃ p ∈ j.1.inner.tables.entries, supersedes p j.2.1 = true ∧ Visible p := by
      by_cases hvis : Visible e
      · -- the held copy itself
        obtain ⟨hide, hval⟩ := eq_of_rejectId (hns.trans (namespace_of_reject hrej).symm) hid
        refine ⟨e, he, ?_, hvis⟩
        simp only [supersedes, hide, hval, le_refl, decide_true, Bool.and_true]
        exact RangeKey.prefix_refl _
      · refine hcond j hmem hrej e he hns hid ?_
        by_contra hc
        push Not at hc
        exact hvis ⟨by simpa using hc.1, hc.2⟩
    rw [(echoed_held_iff hrej).2 hseen] at hecho
    cases hecho

end Reject

/-! ## A held tombstone is rejected -/

section

local instance rejectDigest : Blake3 := noDigest

/-- The tombstone at `[1]`. -/
def sampleTombstone : SignedEntry := sampleEntry [1] ⟨0, Hash.EMPTY, 5⟩

/-- A replica that holds `held` and whose validator refuses everything. -/
def refusingReplica (held : List SignedEntry) : Replica zeros32 :=
  ⟨puts ⟨default, none⟩ held, ⟨true, none, some fun _ _ => .reject, false, false⟩, fun _ => true⟩

/-- One value, offered under the identity range. -/
def sampleOffer (e : SignedEntry) : SyncMessage :=
    ⟨[.rangeItem ⟨⟨default, default⟩, [(e, .complete)], true⟩]⟩

/-- The replica holds the tombstone it is offered, and still rejects it. -/
theorem rejection_names_held_tombstone :
    (syncProcessMessage (fun _ => true) 5 (refusingReplica [sampleTombstone])
      (sampleOffer sampleTombstone) zeros32
      ⟨⟨∅⟩, 0, 0⟩ none).reply = .ok (some ⟨[.rejected (rejectId sampleTombstone)]⟩) ∧
    sampleTombstone ∈ (refusingReplica [sampleTombstone]).store.tables.entries := by
  constructor <;> decide +kernel

/-- An entry that is not a tombstone. -/
def sampleHeld : SignedEntry := sampleEntry [1] ⟨7, zeros32, 3⟩

/-- A held entry that is not a tombstone is refused without an echo. -/
theorem rejections_unheld_sample :
    (syncProcessMessage (fun _ => true) 5 (refusingReplica [sampleHeld]) (sampleOffer sampleHeld) zeros32
      ⟨⟨∅⟩, 0, 0⟩ none).reply = .ok none ∧
    ∀ j ∈ roundEchoes (fun _ => true) 5 (refusingReplica [sampleHeld])
      (sampleOffer sampleHeld) zeros32 none,
      ¬ Holds j.1 (rejectId j.2.1) := by
  have hreply : (syncProcessMessage (fun _ => true) 5 (refusingReplica [sampleHeld])
    (sampleOffer sampleHeld) zeros32
      ⟨⟨∅⟩, 0, 0⟩ none).reply = .ok none := by decide +kernel
  have hentries : (refusingReplica [sampleHeld]).store.tables.entries = [sampleHeld] := by decide +kernel
  have hjudged : roundJudgements (fun _ => true) 5 (refusingReplica [sampleHeld])
    (sampleOffer sampleHeld) zeros32 none =
      [(⟨(refusingReplica [sampleHeld]).store, none⟩, sampleHeld, .complete)] := rfl
  refine ⟨hreply, (rejections_unheld_iff (fun _ => true) 5 (refusingReplica [sampleHeld])
    (sampleOffer sampleHeld)
    zeros32 ⟨⟨∅⟩, 0, 0⟩ none rfl hreply).2.2 ?_⟩
  intro j hj _ e he _ _ hhidden
  rw [hjudged, List.mem_singleton] at hj
  rw [hj, hentries, List.mem_singleton] at he
  subst he
  exact absurd hhidden (by decide)

end

end PdnStore.Sync

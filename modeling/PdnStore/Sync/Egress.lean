import PdnStore.Sync.Replica
import PdnStore.Session.Egress

/-!
# Egress of a filtered session (filter.rs:1-17, sync.rs:594-717)

"No unadmitted entry can leak through a fingerprint, a split boundary, or an item transmission." A
session reads its snapshot through its filter, so its reads are a function of the admitted entries of
the snapshot (`sameReads_of_view`), refusals of foreign boundaries included. What a whole session sends
apart from rejections is then the same for any two snapshots with the same admitted entries, and the
same as that of an unfiltered session over the admitted entries alone. The live tables may change under
a session between rounds, in any way.
-/

namespace PdnStore.Sync

open Ranger Fs Session

section Egress

variable {ns : NamespaceId} [Blake3]

/-! ## Reads of a session -/

/-- What a session serves. -/
def sessionView (s : ReplicaSession ns) : List SignedEntry := s.inner.view.filter (admitted s.filter)

theorem getRange_session_foreign (s : ReplicaSession ns) {r : Range RecordIdentifier}
    (hr : ¬ r.Within (StoreInstance.dom ns)) :
    Store.getRange s r = .error (.error "sync range boundary names another namespace") := by
  show (do let l ← s.inner.getRange r; .ok (l.filter _)) = _
  rw [s.inner.getRange_foreign hr]
  rfl

theorem getFingerprint_session_foreign (s : ReplicaSession ns) {r : Range RecordIdentifier}
    (hr : ¬ r.Within (StoreInstance.dom ns)) :
    Store.getFingerprint s r = .error (.error "sync range boundary names another namespace") := by
  obtain ⟨inner, filter⟩ := s
  cases filter with
  | none =>
    show (do let l ← inner.getRange r; .ok (fingerprint l)) = _
    rw [inner.getRange_foreign hr]
    rfl
  | some f =>
    show (do let l ← Store.getRange (⟨inner, some f⟩ : ReplicaSession ns) r; .ok (fingerprint l)) = _
    rw [getRange_session_foreign _ hr]
    rfl

/-- The reads of a session are a function of what it serves. -/
theorem sameReads_of_view {s s' : ReplicaSession ns} (h : sessionView s = sessionView s') :
    SameReads s s' := by
  have hl : LawfulReads (ReplicaSession ns) (StoreInstance.dom ns) fun s => s.inner.view.filter
    (admitted s.filter) :=
    SessionStore.lawfulReads StoreInstance.lawfulReads
  refine ⟨?_, fun r => ?_, fun r => ?_⟩
  · rw [hl.getFirst s, hl.getFirst s']
    exact congrArg (fun l : List SignedEntry => Except.ok ((l.head?.map key).getD default)) h
  · by_cases hr : r.Within (StoreInstance.dom ns)
    · rw [hl.getRange s r hr, hl.getRange s' r hr]
      exact congrArg (fun l : List SignedEntry => Except.ok (inRange r l)) h
    · rw [getRange_session_foreign s hr, getRange_session_foreign s' hr]
  · by_cases hr : r.Within (StoreInstance.dom ns)
    · rw [hl.getFingerprint s r hr, hl.getFingerprint s' r hr]
      exact congrArg (fun l : List SignedEntry => Except.ok (fingerprint (inRange r l))) h
    · rw [getFingerprint_session_foreign s hr, getFingerprint_session_foreign s' hr]

/-- Writes leave the snapshot and the filter alone. -/
theorem put_frozen (s : ReplicaSession ns) (e : SignedEntry) :
    (put s e).2.inner.sessionSnapshot = s.inner.sessionSnapshot ∧ (put s e).2.filter = s.filter := by
  unfold put
  split <;> exact ⟨rfl, rfl⟩

/-- Two sessions over snapshots that serve the same. -/
structure ServeAlike (s s' : ReplicaSession ns) : Prop where
  left : s.inner.sessionSnapshot.isSome
  right : s'.inner.sessionSnapshot.isSome
  view : sessionView s = sessionView s'

omit [Blake3] in
theorem sessionView_of_frozen {s s' : ReplicaSession ns} (hs : s.inner.sessionSnapshot.isSome)
    (hsnap : s'.inner.sessionSnapshot = s.inner.sessionSnapshot) (hf : s'.filter = s.filter) :
    sessionView s' = sessionView s := by
  obtain ⟨t, ht⟩ := Option.isSome_iff_exists.1 hs
  simp only [sessionView, StoreInstance.view, StoreInstance.source, hsnap, hf, ht, Option.getD_some]

theorem serveAlike_put_left (s s' : ReplicaSession ns) (e : SignedEntry) (h : ServeAlike s s') :
    ServeAlike (put s e).2 s' := by
  obtain ⟨hsnap, hf⟩ := put_frozen s e
  exact ⟨hsnap ▸ h.left, h.right, (sessionView_of_frozen h.left hsnap hf).trans h.view⟩

theorem serveAlike_put_right (s s' : ReplicaSession ns) (e : SignedEntry) (h : ServeAlike s s') :
    ServeAlike s (put s' e).2 := by
  obtain ⟨hsnap, hf⟩ := put_frozen s' e
  exact ⟨h.left, hsnap ▸ h.right, h.view.trans (sessionView_of_frozen h.right hsnap hf).symm⟩

/-! ## Whole sessions -/

/-- One round of a session: the clock, the peer's message, and what else happened to the live tables before it. -/
structure PeerRound where
  now : U64
  message : SyncMessage
  fromPeer : PeerIdBytes
  interfere : Tables → Tables

/-- The live tables as another writer leaves them. -/
def Replica.interfered (r : Replica ns) (f : Tables → Tables) : Replica ns :=
  { r with store := { r.store with tables := f r.store.tables } }

/-- The range parts of the replies of a session, round by round. -/
def servedRounds (verify : SignedEntry → Bool) (filter : Option (SignedEntry → Bool)) (r : Replica ns)
    (state : SyncOutcome) :
      List PeerRound → List (Except Fault (List (MessagePart SignedEntry RecordIdentifier RejectId)))
  | [] => []
  | round :: rounds =>
    let res := syncProcessMessage verify round.now
      (r.interfered round.interfere) round.message round.fromPeer state filter
    replyRangeParts res.reply :: servedRounds verify filter res.replica res.state rounds

/-- All that a session sends apart from rejections: the initial message, and the replies. -/
def egress (verify : SignedEntry → Bool) (filter : Option (SignedEntry → Bool)) (r : Replica ns)
    (state : SyncOutcome) (rounds : List PeerRound) :
    Except Fault SyncMessage × List
      (Except Fault (List (MessagePart SignedEntry RecordIdentifier RejectId))) :=
  (syncInitialMessage r filter, servedRounds verify filter r state rounds)

/-- Two replicas in sessions that serve the same and report content alike. -/
structure SessionsAlike (filter filter' : Option (SignedEntry → Bool)) (r r' : Replica ns) : Prop where
  serve : ServeAlike (⟨r.store, filter⟩ : ReplicaSession ns) ⟨r'.store, filter'⟩
  status : r.info.contentStatusCb = r'.info.contentStatusCb
  closed : r.info.closed = r'.info.closed

variable {verify verify' : SignedEntry → Bool} {filter filter' : Option (SignedEntry → Bool)}

omit [Blake3] in
theorem SessionsAlike.interfered {r r' : Replica ns} (h : SessionsAlike filter filter' r r')
    (f f' : Tables → Tables) : SessionsAlike filter filter' (r.interfered f) (r'.interfered f') where
  serve := ⟨h.serve.left, h.serve.right, by
    have hl : sessionView (⟨(r.interfered f).store, filter⟩ : ReplicaSession ns) = sessionView
      ⟨r.store, filter⟩ :=
      sessionView_of_frozen h.serve.left rfl rfl
    have hr : sessionView (⟨(r'.interfered f').store, filter'⟩ : ReplicaSession ns) = sessionView
      ⟨r'.store, filter'⟩ :=
      sessionView_of_frozen h.serve.right rfl rfl
    rw [hl, hr, h.serve.view]⟩
  status := h.status
  closed := h.closed

/-- The filter of a session is the one it began with. -/
theorem store_processed (now : U64) (r : Replica ns) (m : SyncMessage) (peer : PeerIdBytes) :
    (processed verify now r m peer filter).store =
      ⟨(processed verify now r m peer filter).store.inner, filter⟩ := by
  have hf : (processed verify now r m peer filter).store.filter = filter :=
    processMessage_preserves (P := fun s : ReplicaSession ns => s.filter = filter)
      (validateCb verify now r peer)
      default (contentStatus r) (s := ⟨r.store, filter⟩) rfl m fun s v _ _ hs =>
        (put_frozen s v.1).2.trans hs
  generalize (processed verify now r m peer filter).store = st at hf
  obtain ⟨inner, f⟩ := st
  rw [← hf]

/-- Step: one round keeps the sessions alike and sends the same range parts. -/
theorem sessionsAlike_process (verify verify' : SignedEntry → Bool) {r r' : Replica ns}
    (h : SessionsAlike filter filter' r r') (m : SyncMessage)
    (now now' : U64) (peer peer' : PeerIdBytes) (state state' : SyncOutcome) :
    SessionsAlike filter filter' (syncProcessMessage verify now r m peer state filter).replica
      (syncProcessMessage verify' now' r' m peer' state' filter').replica ∧
    replyRangeParts (syncProcessMessage verify now r m peer state filter).reply =
      replyRangeParts (syncProcessMessage verify' now' r' m peer' state' filter').reply := by
  have hstatus : contentStatus r = contentStatus r' := by
    funext e
    simp only [contentStatus, h.status]
  obtain ⟨hstore, hreply⟩ := processMessage_rangeParts (fun _ _ => sameReads_of_view ∘ ServeAlike.view)
    serveAlike_put_left serveAlike_put_right (validateCb verify now r peer)
      (validateCb verify' now' r' peer')
    (contentStatus r) default h.serve m
  cases hc : r.info.closed with
  | true =>
    rw [syncProcessMessage_closed verify hc, syncProcessMessage_closed verify' (h.closed ▸ hc)]
    exact ⟨h, rfl⟩
  | false =>
    obtain ⟨hr, hs⟩ := syncProcessMessage_open verify (m := m) hc
    obtain ⟨hr', hs'⟩ := syncProcessMessage_open verify' (m := m) (h.closed ▸ hc)
    have hstore : ServeAlike (processed verify now r m peer filter).store
      (processed verify' now' r' m peer' filter').store := by
      simpa only [processed, ← hstatus] using hstore
    have hstore : ServeAlike
      (⟨(processed verify now r m peer filter).store.inner, filter⟩ : ReplicaSession ns)
        ⟨(processed verify' now' r' m peer' filter').store.inner, filter'⟩ := by
      rw [← store_processed, ← store_processed]
      exact hstore
    rw [hr, hs, hr', hs']
    refine ⟨⟨hstore, h.status, h.closed⟩, ?_⟩
    simpa only [processed, ← hstatus] using hreply

/-- Run: two sessions that serve alike send alike, over any sequence of the peer's messages. -/
theorem servedRounds_eq {r r' : Replica ns} (h : SessionsAlike filter filter' r r')
    (state state' : SyncOutcome)
    {rounds rounds' : List PeerRound} (hm : rounds.map (·.message) = rounds'.map (·.message)) :
    servedRounds verify filter r state rounds = servedRounds verify' filter' r' state' rounds' := by
  induction rounds generalizing r r' state state' rounds' with
  | nil =>
    obtain rfl := List.map_eq_nil_iff.1 hm.symm
    rfl
  | cons round rounds ih =>
    obtain ⟨round', rest', rfl, hmsg, hrest⟩ := List.map_eq_cons_iff.1 hm.symm
    obtain ⟨hnext, hreply⟩ := sessionsAlike_process verify verify'
      (h.interfered round.interfere round'.interfere) round.message round.now round'.now round.fromPeer
      round'.fromPeer state state'
    simp only [servedRounds, hmsg]
    rw [hreply, ih hnext _ _ hrest.symm]

theorem egress_eq {r r' : Replica ns} (h : SessionsAlike filter filter' r r') (state state' : SyncOutcome)
    {rounds rounds' : List PeerRound} (hm : rounds.map (·.message) = rounds'.map (·.message)) :
    egress verify filter r state rounds = egress verify' filter' r' state' rounds' := by
  unfold egress
  rw [servedRounds_eq h state state' hm]
  congr 1
  unfold syncInitialMessage
  rw [h.closed, initialMessage_eq (sameReads_of_view h.serve.view)]

/-- Snapshots with the same admitted entries, in the order of their tables. -/
theorem sessionView_eq {s s' : StoreInstance ns} {t t' : Tables} (hs : s.sessionSnapshot = some t)
    (hs' : s'.sessionSnapshot = some t')
    (h : ∀ e : SignedEntry, e.id.namespace = ns →
      ((e ∈ t.entries ∧ admitted filter e = true) ↔ (e ∈ t'.entries ∧ admitted filter' e = true))) :
    sessionView (⟨s, filter⟩ : ReplicaSession ns) = sessionView (⟨s', filter'⟩ : ReplicaSession ns) := by
  have hsource : s.source = t := by rw [StoreInstance.source, hs, Option.getD_some]
  have hsource' : s'.source = t' := by rw [StoreInstance.source, hs', Option.getD_some]
  refine SortedBy.ext (f := key) (s.sorted_view.filter _) (s'.sorted_view.filter _) fun e => ?_
  simp only [sessionView, StoreInstance.view, hsource, hsource', List.mem_filter, decide_eq_true_eq]
  by_cases hns : e.id.namespace = ns
  · simpa [hns] using h e hns
  · simp [hns]

/-- **Egress noninterference.** Two sessions over snapshots `t` and `t'` with the same entries admitted by `f`,
and an unfiltered one over a snapshot `t₀` that holds just these. -/
theorem egress_noninterference (verify verify' verify₀ : SignedEntry → Bool) (f : SignedEntry → Bool)
    {t t' t₀ : Tables}
    (hsame : ∀ e, e.id.namespace = ns → f e = true → (e ∈ t.entries ↔ e ∈ t'.entries))
    (honly : ∀ e, e.id.namespace = ns → (e ∈ t₀.entries ↔ e ∈ t.entries ∧ f e = true))
    {r r' r₀ : Replica ns} (hr : r.store.sessionSnapshot = some t)
      (hr' : r'.store.sessionSnapshot = some t')
    (hr₀ : r₀.store.sessionSnapshot = some t₀)
    (hstatus : r.info.contentStatusCb = r'.info.contentStatusCb)
      (hstatus₀ : r.info.contentStatusCb = r₀.info.contentStatusCb)
    (hclosed : r.info.closed = r'.info.closed) (hclosed₀ : r.info.closed = r₀.info.closed)
    (state state' state₀ : SyncOutcome) {rounds rounds' rounds₀ : List PeerRound}
    (hm : rounds.map (·.message) = rounds'.map (·.message))
      (hm₀ : rounds.map (·.message) = rounds₀.map (·.message)) :
    egress verify (some f) r state rounds = egress verify' (some f) r' state' rounds' ∧
    egress verify (some f) r state rounds = egress verify₀ none r₀ state₀ rounds₀ := by
  have hview : sessionView (⟨r.store, some f⟩ : ReplicaSession ns) = sessionView
    (⟨r'.store, some f⟩ : ReplicaSession ns) :=
    sessionView_eq hr hr' fun e hns => and_congr_left fun hf => hsame e hns hf
  have hview₀ : sessionView (⟨r.store, some f⟩ : ReplicaSession ns) = sessionView
    (⟨r₀.store, none⟩ : ReplicaSession ns) :=
    sessionView_eq hr hr₀ fun e hns => by
      rw [honly e hns]
      simp [admitted]
  have hsome : r.store.sessionSnapshot.isSome := by rw [hr]; rfl
  exact ⟨egress_eq ⟨⟨hsome, by rw [hr']; rfl, hview⟩, hstatus, hclosed⟩ state state' hm,
    egress_eq ⟨⟨hsome, by rw [hr₀]; rfl, hview₀⟩, hstatus₀, hclosed₀⟩ state state₀ hm₀⟩

end Egress

/-! ## An instance -/

section

local instance egressDigest : Blake3 := noDigest

/-- The tables of the zero namespace with entries at these keys. -/
def sampleTables (keys : List Bytes) : Tables :=
  (puts (⟨default, none⟩ : StoreInstance zeros32) (keys.map fun k => sampleEntry k ⟨7, zeros32, 3⟩)).tables

/-- A replica without validator or callbacks, in a session over the snapshot `t` with live tables `live`. -/
def sampleReplica (live t : Tables) : Replica zeros32 :=
  ⟨⟨live, some t⟩, ⟨true, none, none, false, false⟩, fun _ => true⟩

theorem sampleReplica_snapshot (live t : Tables) :
    (sampleReplica live t).store.sessionSnapshot = some t := rfl

theorem sampleReplica_info (live t : Tables) :
    (sampleReplica live t).info = ⟨true, none, none, false, false⟩ := rfl

theorem entries_sampleTables_one : (sampleTables [[1]]).entries = [sampleEntry [1] ⟨7, zeros32, 3⟩] := by
  decide +kernel

theorem entries_sampleTables_two {k : Bytes} (hk : k = [7] ∨ k = [9]) :
    (sampleTables [[1], k]).entries = [sampleEntry [1] ⟨7, zeros32, 3⟩, sampleEntry k ⟨7, zeros32, 3⟩] := by
  rcases hk with rfl | rfl <;> decide +kernel

/-- The peer opens with a fingerprint of everything. -/
def sampleRound (now : U64) (interfere : Tables → Tables) : PeerRound :=
  ⟨now, ⟨[.rangeFingerprint ⟨⟨default, default⟩, 1⟩]⟩, zeros32, interfere⟩

/-- Only `[1]` is admitted; one snapshot also holds `[7]`, the other `[9]`, and the live tables differ too. -/
theorem egress_noninterference_sample :
    egress (fun _ => true) (some fun e => e.id.key = [1]) (sampleReplica default (sampleTables [[1], [7]]))
        ⟨⟨∅⟩, 0, 0⟩ [sampleRound 0 id] =
      egress (fun _ => false) (some fun e => e.id.key = [1])
        (sampleReplica (sampleTables [[1]]) (sampleTables [[1], [9]]))
        ⟨⟨∅⟩, 0, 0⟩ [sampleRound 5 fun _ => default] ∧
    egress (fun _ => true) (some fun e => e.id.key = [1]) (sampleReplica default (sampleTables [[1], [7]]))
        ⟨⟨∅⟩, 0, 0⟩ [sampleRound 0 id] =
      egress (fun _ => true) none (sampleReplica default (sampleTables [[1]]))
        ⟨⟨∅⟩, 0, 0⟩ [sampleRound 0 id] := by
  have hsame : ∀ e : SignedEntry, e.id.namespace = zeros32 → decide (e.id.key = [1]) = true →
      (e ∈ (sampleTables [[1], [7]]).entries ↔ e ∈ (sampleTables [[1], [9]]).entries) := by
    intro e _ hf
    have hk : e.id.key = [1] := by simpa using hf
    rw [entries_sampleTables_two (.inl rfl), entries_sampleTables_two (.inr rfl), List.mem_pair,
      List.mem_pair]
    constructor
    · rintro (h | rfl)
      · exact .inl h
      · exact absurd hk (by decide)
    · rintro (h | rfl)
      · exact .inl h
      · exact absurd hk (by decide)
  have honly : ∀ e : SignedEntry, e.id.namespace = zeros32 →
      (e ∈ (sampleTables [[1]]).entries ↔ e ∈ (sampleTables [[1], [7]]).entries ∧
        decide (e.id.key = [1]) = true) := by
    intro e _
    rw [entries_sampleTables_one, entries_sampleTables_two (.inl rfl), List.mem_pair, List.mem_singleton]
    constructor
    · rintro rfl
      exact ⟨.inl rfl, by decide⟩
    · rintro ⟨h | rfl, hk⟩
      · exact h
      · exact absurd hk (by decide)
  exact egress_noninterference _ _ _ _ hsame honly (sampleReplica_snapshot ..) (sampleReplica_snapshot ..)
    (sampleReplica_snapshot ..) (by rw [sampleReplica_info, sampleReplica_info])
    (by rw [sampleReplica_info, sampleReplica_info]) (by rw [sampleReplica_info, sampleReplica_info])
    (by rw [sampleReplica_info, sampleReplica_info]) _ _ _ rfl rfl

end

end PdnStore.Sync

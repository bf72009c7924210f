import PdnStore.Engine.Downloads

/-!
# Wanted content is remembered (engine/live.rs:787-829, 858-947)

A pair that is wanted and not complete has to be parked or queued, or nothing will ever ask for it again. A
download takes the hash out of the queue for every namespace it is queued for (`live.rs:793`); the result is
reported, and the pair parked again, for the one namespace the task was started under (`live.rs:798`, `804`).
The others are forgotten unless they happen to be parked as well.
-/

namespace PdnStore.Engine.Downloads

open Net Ranger Sync

variable (fromBytes : PeerIdBytes → Option EndpointId)

/-- What is wanted and not complete is parked or queued. -/
def Remembered (s : Downloads) : Prop := ∀ ns hash, (ns, hash) ∈ s.wanted → hash ∉ s.blobs → s.Held ns hash

/-- The end of a download reaches every namespace the hash is queued for: `ContentReady` is sent to it; or its
pair is parked again, from where a retry of the download takes it. -/
def Delivered : Downloads → Action → Downloads → Prop
  | s, .downloadReady _ hash (.ok _) _, s' => ∀ ns' ∈ s.queuedHashes.namespaces hash,
    ∃ new, s'.sent = new ++ s.sent ∧ ∃ e ∈ new, e.namespace = ns' ∧ e.event = .contentReady hash
  | s, .downloadReady ns hash (.error err) _, _ => ∀ ns' ∈ s.queuedHashes.namespaces hash,
    (ns', hash) ∈ (s.reportDownload ns hash (.error err)).2.missingHashes
  | _, _, _ => True

structure WantedKept (as : List Action) : Prop where
  remembered : ∀ done rest s, as = done ++ rest → runs (step fromBytes) default done = some s → s.Remembered
  delivered : EveryStep (step fromBytes) Delivered default as

/-- No download ends well while the hash is queued for a second namespace, and none fails while it is queued
for a second one whose pair is not parked too; and the peer of an event about complete content has a key, or the
pair is held already. -/
def Unshared : Downloads → Action → Downloads → Prop
  | s, .downloadReady ns hash (.ok _) _, _ => ∀ ns' ∈ s.queuedHashes.namespaces hash, ns' = ns
  | s, .downloadReady ns hash (.error _) _, _ => ∀ ns' ∈ s.queuedHashes.namespaces hash,
    ns' = ns ∨ (ns', hash) ∈ s.missingHashes
  | s, .replicaEvent (.remoteInsert ns entry «from» true .complete) _, _ => fromBytes «from» = none →
    entry.record.hash ∈ s.blobs ∨ s.Held ns entry.record.hash
  | _, _, _ => True

section

variable {fromBytes} {s s' : Downloads} {ns : NamespaceId} {hash : Hash} {fails : Hash → Bool}

theorem Queues.remembered (h : Queues s s') (hs : s.Remembered) : s'.Remembered := by
  intro ns hash hwanted hblob
  rw [h.wanted] at hwanted
  rw [h.blobs] at hblob
  exact h.held (hs ns hash hwanted hblob) hblob

theorem Reports.remembered (h : Reports s s') (hs : s.Remembered) : s'.Remembered := by
  intro ns hash hwanted hblob
  rw [h.wanted] at hwanted
  rw [h.blobs] at hblob
  exact h.held.2 (hs ns hash hwanted hblob)

theorem remembered_onSyncFinished (h : s.Remembered) (o : Answers) (peer : EndpointId) (origin : Origin)
    (result : SyncResult) : (s.onSyncFinished o ns peer origin result).Remembered := by
  unfold onSyncFinished
  split
  · exact reports_finishSync.remembered (queues_retryMissing.remembered h)
  · exact reports_finishSync.remembered h

/-! ## The end of a download -/

/-- A download that ended well: its blob needs no remembering. -/
theorem remembered_onDownloadReady_ok (h : s.Remembered) (hblob : hash ∈ s.blobs) (v : Unit) :
    (s.onDownloadReady fails ns hash (.ok v)).Remembered := by
  have hreport : (s.reportDownload ns hash (.ok v)).2.Remembered := by
    intro ns' hash' hwanted hblob'
    have hne : hash' ≠ hash := by
      rintro rfl
      exact hblob' hblob
    refine (h ns' hash' hwanted hblob').imp id fun hmem => ?_
    rw [reportDownload_queuedHashes, QueuedHashes.namespaces_removeHash, if_neg hne]
    exact hmem
  exact (reports_foldl_emitReady _).remembered hreport

/-- A download that failed: what it took from the queue has to be parked. -/
theorem remembered_onDownloadReady_error (h : s.Remembered) (err : String)
    (hparked : ∀ ns' ∈ s.queuedHashes.namespaces hash, ns' = ns ∨ (ns', hash) ∈ s.missingHashes) :
    (s.onDownloadReady fails ns hash (.error err)).Remembered := by
  have hreport : (s.reportDownload ns hash (.error err)).2.Remembered := by
    intro ns' hash' hwanted hblob
    obtain hmem | hmem := h ns' hash' hwanted hblob
    · exact .inl (List.mem_insert_of_mem hmem)
    · by_cases hhash : hash' = hash
      · subst hhash
        obtain rfl | hmissing := hparked ns' hmem
        · exact .inl List.mem_insert_self
        · exact .inl (List.mem_insert_of_mem hmissing)
      · refine .inr ?_
        rw [reportDownload_queuedHashes, QueuedHashes.namespaces_removeHash, if_neg hhash]
        exact hmem
  exact (reports_foldl_emitReady _).remembered (queues_retryDownload.remembered hreport)

/-- `ContentReady` goes to the namespace of the task only. -/
theorem contentReady_onDownloadReady (s : Downloads) (fails : Hash → Bool) (hash : Hash) (ns' : NamespaceId)
    (v : Unit) :
    (∃ new, (s.onDownloadReady fails ns hash (.ok v)).sent = new ++ s.sent ∧
      ∃ e ∈ new, e.namespace = ns' ∧ e.event = .contentReady hash) ↔ ns' = ns := by
  obtain ⟨pending, hsent, hpending⟩ := sent_foldl_emitReady (s := (s.reportDownload ns hash (.ok v)).2)
    (s.reportDownload ns hash (.ok v)).1
  obtain ⟨q, hreport⟩ : ∃ q, (s.reportDownload ns hash (.ok v)).2.sent = ⟨ns, .contentReady hash, q⟩ :: s.sent :=
    ⟨_, rfl⟩
  have hall : (s.onDownloadReady fails ns hash (.ok v)).sent =
      (pending ++ [⟨ns, .contentReady hash, q⟩]) ++ s.sent := by
    refine hsent.trans ?_
    rw [hreport, List.append_assoc, List.singleton_append]
  rw [hall]
  constructor
  · rintro ⟨new, hnew, e, he, rfl, hevent⟩
    rw [← List.append_cancel_right hnew] at he
    obtain he | he := List.mem_append.1 he
    · rw [hpending e he] at hevent
      cases hevent
    · rw [List.mem_singleton.1 he]
  · rintro rfl
    exact ⟨_, rfl, _, List.mem_append_right _ (List.mem_singleton_self _), rfl, rfl⟩

/-- Only the namespace of the task is parked by its failure. -/
theorem mem_missing_reportDownload {ns' : NamespaceId} (err : String) :
    (ns', hash) ∈ (s.reportDownload ns hash (.error err)).2.missingHashes ↔
      ns' = ns ∨ (ns', hash) ∈ s.missingHashes := by
  simp [reportDownload, List.mem_insert_iff]

/-! ## Remote inserts -/

/-- A pair that is wanted from now on is remembered when it is held, or complete. -/
theorem remembered_cons {queued : Downloads}
    (hqueues : Queues { s with wanted := (ns, hash) :: s.wanted } queued) (h : s.Remembered)
    (hheld : hash ∉ s.blobs → queued.Held ns hash) : queued.Remembered := by
  intro ns' hash' hwanted hblob
  rw [hqueues.wanted, List.mem_cons] at hwanted
  rw [hqueues.blobs] at hblob
  obtain heq | hwanted := hwanted
  · cases heq
    exact hheld hblob
  · exact hqueues.held (h ns' hash' hwanted hblob) hblob

/-- An event that wants a pair: it is held afterwards, unless the peer of complete content has no key. -/
theorem remembered_replicaEvent_iff (h : s.Remembered) (ev : Sync.Event) :
    ({ s with wanted := wants ev ++ s.wanted }.onReplicaEvent fromBytes fails ev).Remembered ↔
      Unshared fromBytes s (.replicaEvent ev fails) s' := by
  cases ev with
  | localInsert => exact iff_of_true h trivial
  | remoteInsert ns entry «from» shouldDownload status =>
    cases shouldDownload with
    | false => exact iff_of_true h trivial
    | true =>
      have hpark : ({ s with wanted := (ns, entry.record.hash) :: s.wanted } : Downloads).Queues
          { s with
            wanted := (ns, entry.record.hash) :: s.wanted
            missingHashes := s.missingHashes.insert (ns, entry.record.hash) } := queues_park
      have hparked : ({ s with
          wanted := (ns, entry.record.hash) :: s.wanted
          missingHashes := s.missingHashes.insert (ns, entry.record.hash) } : Downloads).Remembered :=
        remembered_cons hpark h fun _ => .inl List.mem_insert_self
      cases status with
      | missing => exact iff_of_true hparked trivial
      | incomplete => exact iff_of_true hparked trivial
      | complete =>
        cases hfrom : fromBytes «from» with
        | some node =>
          refine iff_of_true ?_ (by simp [Unshared, hfrom])
          simp only [wants, onReplicaEvent, hfrom, if_true, List.singleton_append]
          exact remembered_cons queues_startDownload h fun hblob => held_startDownload hblob
        | none =>
          simp only [wants, onReplicaEvent, hfrom, if_true, List.singleton_append, Unshared, forall_const]
          constructor
          · intro hs'
            exact or_iff_not_imp_left.2 fun hblob => hs' ns _ (.head _) hblob
          · intro hheld
            exact remembered_cons .refl h hheld.resolve_left

theorem step_remembered_iff {a : Action} (h : s.Remembered) (hstep : step fromBytes s a = some s') :
    s'.Remembered ∧ Delivered s a s' ↔ Unshared fromBytes s a s' := by
  cases a with
  | replicaEvent ev fails =>
    cases hstep
    exact (and_iff_left trivial).trans (remembered_replicaEvent_iff h ev)
  | neighborContentReady ns node hash fails =>
    cases hstep
    exact iff_of_true ⟨queues_startDownload.remembered h, trivial⟩ trivial
  | syncFinished ns peer origin result o =>
    cases hstep
    exact iff_of_true ⟨remembered_onSyncFinished h o peer origin result, trivial⟩ trivial
  | downloadReady ns hash res fails =>
    simp only [step] at hstep
    split at hstep
    next henabled =>
      cases hstep
      have hs : ({ s with downloadTasks := s.downloadTasks.erase (ns, hash) } : Downloads).Remembered := h
      cases res with
      | ok v =>
        refine (and_iff_right (remembered_onDownloadReady_ok hs (henabled.2 rfl) v)).trans ?_
        exact forall₂_congr fun ns' _ => contentReady_onDownloadReady
          { s with downloadTasks := s.downloadTasks.erase (ns, hash) } fails hash ns' v
      | error err =>
        have hdelivered : ∀ s₁, Delivered s (.downloadReady ns hash (.error err) fails) s₁ ↔
            Unshared fromBytes s (.downloadReady ns hash (.error err) fails) s₁ :=
          fun _ => forall₂_congr fun _ _ => mem_missing_reportDownload err
        refine ⟨fun hboth => (hdelivered _).1 hboth.2, fun hparked => ⟨?_, (hdelivered _).2 hparked⟩⟩
        exact remembered_onDownloadReady_error hs err hparked
    next => cases hstep
  | syncState call =>
    cases hstep
    exact iff_of_true ⟨h, trivial⟩ trivial
  | stored hash =>
    cases hstep
    refine iff_of_true ⟨fun ns' hash' hwanted hblob => ?_, trivial⟩ trivial
    exact h ns' hash' hwanted fun hmem => hblob (List.mem_insert_of_mem hmem)

end

/-- **When wanted content is never forgotten** (live.rs:787): if downloads are not shared when they end. -/
theorem wanted_kept_iff (as : List Action) :
    WantedKept fromBytes as ↔ EveryStep (step fromBytes) (Unshared fromBytes) default as := by
  have hinit : (default : Downloads).Remembered := fun _ _ hwanted => by cases hwanted
  have hall : (∀ done rest s, as = done ++ rest → runs (step fromBytes) default done = some s → s.Remembered) ∧
      EveryStep (step fromBytes) Delivered default as ↔
        EveryStep (step fromBytes) (Unshared fromBytes) default as :=
    forall_runs_and_everyStep_iff (J := fun _ => True) (fun _ _ _ _ _ => trivial)
      (fun _ a _ _ h hstep => step_remembered_iff (a := a) h hstep) as trivial hinit
  exact ⟨fun h => hall.1 ⟨h.remembered, h.delivered⟩, fun h => ⟨(hall.2 h).1, (hall.2 h).2⟩⟩

def otherNamespace : NamespaceId := highNode

/-- A remote insert into the document, of an entry whose content the peer has. -/
def sampleInsert (ns : NamespaceId) : Sync.Event :=
  .remoteInsert ns
    ⟨(Fs.sampleEntry [] ⟨0, Hash.EMPTY, 0⟩).signature, ⟨.new ns zeros32 [1], ⟨7, zeros32, 3⟩⟩⟩ zeros32 true .complete

/-- Two documents want one blob, and the download that serves both fails: the pair of the second document is
neither parked nor queued any more. -/
theorem failed_download_forgets_a_document :
    let as : List Action := [.replicaEvent (sampleInsert zeros32) (fun _ => false),
      .replicaEvent (sampleInsert otherNamespace) (fun _ => false),
      .downloadReady zeros32 zeros32 (.error "no provider") (fun _ => false)]
    ¬ WantedKept some as ∧ ∃ s, runs (step some) default as = some s ∧ (otherNamespace, zeros32) ∈ s.wanted ∧
      zeros32 ∉ s.blobs ∧ s.missingHashes = [(zeros32, zeros32)] ∧ s.queuedHashes.containsHash zeros32 = false := by
  intro as
  obtain ⟨s, hrun, hwanted, hblob, hmissing, hqueued⟩ : ∃ s, runs (step some) default as = some s ∧
      (otherNamespace, zeros32) ∈ s.wanted ∧ zeros32 ∉ s.blobs ∧ s.missingHashes = [(zeros32, zeros32)] ∧
      s.queuedHashes.containsHash zeros32 = false :=
    ⟨_, rfl, by decide +kernel, by decide +kernel, by decide +kernel, by decide +kernel⟩
  refine ⟨fun h => ?_, s, hrun, hwanted, hblob, hmissing, hqueued⟩
  obtain hheld | hheld := h.remembered as [] s rfl hrun otherNamespace zeros32 hwanted hblob
  · rw [hmissing] at hheld
    exact absurd hheld (by decide +kernel)
  · have hnone : s.queuedHashes.byHash zeros32 = none := by simpa [QueuedHashes.containsHash] using hqueued
    rw [QueuedHashes.namespaces, hnone] at hheld
    cases hheld

end PdnStore.Engine.Downloads

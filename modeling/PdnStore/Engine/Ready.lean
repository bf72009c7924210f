import PdnStore.Engine.Downloads

/-!
# `PendingContentReady` is truthful (engine/live.rs:704-741, 787-820)

"It signals that all currently pending downloads have been completed", and that a sync has finished before
(`live.rs:136-137`). After a download the namespaces that have nothing queued any more are listed first
(`live.rs:793`); the retry of a failed download queues its hash again (`live.rs:810`); the event goes out to
those on the list (`live.rs:813`).
-/

namespace PdnStore.Engine.Downloads

open Net Ranger Sync

/-- A finished sync of the namespace was reported. -/
def Announced (log : List Sent) (ns : NamespaceId) : Prop :=
  ∃ e ∈ log, e.namespace = ns ∧ ∃ ev, e.event = .syncFinished ev

/-- Each `PendingContentReady` of the log, the latest first, came after a `SyncFinished` of its namespace and when
nothing was queued for it. -/
def Truthful : List Sent → Prop
  | [] => True
  | e :: log => (e.event = .pendingContentReady → Announced log e.namespace ∧ e.queued = false) ∧ Truthful log

/-- The flag is raised only for namespaces that a finished sync was reported of. -/
structure ReadyInv (s : Downloads) : Prop where
  wf : s.queuedHashes.WF
  announced : ∀ ns, s.states.readyFlag ns = true → Announced s.sent ns

/-- No failed download is retried that was the last of a namespace whose flag is raised. -/
def NotRetriedAsLast : Downloads → Action → Downloads → Prop
  | s, .downloadReady ns hash (.error _) fails, _ => (ns, hash) ∈ s.retryAfterFailure →
    s.complete fails hash = false → s.states.readyFlag ns = true →
    ¬ ∀ hash', hash' ∈ s.queuedHashes.hashes ns ↔ hash' = hash
  | _, _, _ => True

section

variable {fromBytes : PeerIdBytes → Option EndpointId} {s s' : Downloads} {ns ns' : NamespaceId} {hash : Hash}
  {fails : Hash → Bool}

theorem Announced.cons {log : List Sent} (h : Announced log ns) (e : Sent) : Announced (e :: log) ns :=
  h.imp fun _ he => ⟨.tail _ he.1, he.2⟩

theorem announced_cons_syncFinished {log : List Sent} {ev : SyncEvent} {q : Bool} :
    Announced (⟨ns, .syncFinished ev, q⟩ :: log) ns := ⟨_, .head _, rfl, ev, rfl⟩

theorem Queues.readyInv (h : Queues s s') (hs : s.ReadyInv) : s'.ReadyInv where
  wf := h.wf hs.wf
  announced := by
    rw [h.states, h.sent]
    exact hs.announced

theorem Queues.truthful (h : Queues s s') : Truthful s'.sent ↔ Truthful s.sent := by rw [h.sent]

/-! ## A finished sync -/

theorem readyInv_reportSync (h : s.ReadyInv) (ns : NamespaceId) (ev : SyncEvent) :
    (s.reportSync ns ev).ReadyInv where
  wf := (reports_reportSync (s := s)).queued.symm ▸ h.wf
  announced := by
    intro ns' hflag
    rw [reportSync_states] at hflag
    have hsent : ns' = ns ∨ Announced s.sent ns' :=
      (NamespaceStates.readyFlag_setMayEmitReady hflag).imp And.left (h.announced ns')
    have hfinished : Announced (s.send ns (.syncFinished ev)).sent ns' := by
      obtain rfl | hold := hsent
      · exact announced_cons_syncFinished
      · exact hold.cons _
    unfold reportSync
    dsimp only
    split
    · exact hfinished
    · exact hfinished.cons _

theorem truthful_reportSync (ns : NamespaceId) (ev : SyncEvent) :
    Truthful (s.reportSync ns ev).sent ↔ Truthful s.sent := by
  have hfinished : Truthful (s.send ns (.syncFinished ev)).sent ↔ Truthful s.sent := by simp [send, Truthful]
  unfold reportSync
  dsimp only
  split
  next => exact hfinished
  next hqueued =>
    refine Iff.trans (and_iff_right fun _ => ?_) hfinished
    exact ⟨announced_cons_syncFinished, Bool.eq_false_iff.2 hqueued⟩

theorem finishSync_ready (h : s.ReadyInv) (o : Answers) (peer : EndpointId) (origin : Origin)
    (result : SyncResult) : (s.finishSync o ns peer origin result).ReadyInv ∧
      (Truthful (s.finishSync o ns peer origin result).sent ↔ Truthful s.sent) := by
  have hflag : ∀ ns', (s.states.finish o.now ns peer origin result).2.readyFlag ns' = s.states.readyFlag ns' :=
    fun _ => NamespaceStates.readyFlag_withEntry
  unfold finishSync
  split
  next states hfinish =>
    rw [hfinish] at hflag
    exact ⟨⟨h.wf, fun ns' hns' => h.announced ns' (hflag ns' ▸ hns')⟩, Iff.rfl⟩
  next started resync states hfinish =>
    rw [hfinish] at hflag
    have hstates : ({ s with states := states } : Downloads).ReadyInv :=
      ⟨h.wf, fun ns' hns' => h.announced ns' (hflag ns' ▸ hns')⟩
    have hinv := readyInv_reportSync hstates ns ⟨peer, origin, o.now, started, result⟩
    have hsent := truthful_reportSync (s := { s with states := states }) ns
      ⟨peer, origin, o.now, started, result⟩
    dsimp only
    split
    · refine ⟨⟨hinv.wf, fun ns' hns' => hinv.announced ns' ?_⟩, hsent⟩
      exact NamespaceStates.readyFlag_withEntry ▸ hns'
    · exact ⟨hinv, hsent⟩

theorem onSyncFinished_ready (h : s.ReadyInv) (o : Answers) (peer : EndpointId) (origin : Origin)
    (result : SyncResult) : (s.onSyncFinished o ns peer origin result).ReadyInv ∧
      (Truthful (s.onSyncFinished o ns peer origin result).sent ↔ Truthful s.sent) := by
  unfold onSyncFinished
  split
  next details =>
    obtain ⟨hinv, hsent⟩ := finishSync_ready (queues_retryMissing.readyInv h) o peer origin (.ok details)
    exact ⟨hinv, hsent.trans queues_retryMissing.truthful⟩
  next => exact finishSync_ready h o peer origin _

/-! ## The last loop of `on_download_ready` -/

theorem emitReady_states : (s.emitReady ns).states = (s.states.mayEmitReady ns).2 := by
  unfold emitReady
  split
  next hmay => rw [hmay]; rfl
  next hmay => rw [hmay]

theorem emitReady_sent : (s.emitReady ns).sent = if s.states.readyFlag ns = true then
    ⟨ns, .pendingContentReady, s.queuedHashes.containsNamespace ns⟩ :: s.sent else s.sent := by
  have hfst := @NamespaceStates.mayEmitReady_fst s.states ns
  unfold emitReady
  split
  next hmay =>
    rw [hmay] at hfst
    rw [if_pos (hfst.1 rfl)]
    rfl
  next hne hmay =>
    rw [hmay] at hfst
    rw [if_neg fun hflag => hne (hfst.2 hflag)]

/-- Sending takes the flag down. -/
theorem readyFlag_emitReady :
    (s.emitReady ns).states.readyFlag ns' = if ns' = ns then false else s.states.readyFlag ns' := by
  rw [emitReady_states, NamespaceStates.readyFlag_mayEmitReady]

theorem readyInv_emitReady (h : s.ReadyInv) (ns : NamespaceId) : (s.emitReady ns).ReadyInv where
  wf := (reports_emitReady (s := s)).queued.symm ▸ h.wf
  announced := by
    intro ns' hflag
    rw [readyFlag_emitReady] at hflag
    split at hflag
    · cases hflag
    · rw [emitReady_sent]
      split
      · exact (h.announced ns' hflag).cons _
      · exact h.announced ns' hflag

theorem truthful_emitReady (h : s.ReadyInv) : Truthful (s.emitReady ns).sent ↔
    Truthful s.sent ∧ (s.states.readyFlag ns = true → s.queuedHashes.containsNamespace ns = false) := by
  rw [emitReady_sent]
  by_cases hflag : s.states.readyFlag ns = true
  · simp [Truthful, hflag, h.announced ns hflag, and_comm]
  · simp [hflag]

/-- What the loop sends is true when nothing is queued for the namespaces on the list whose flag is raised. -/
theorem foldl_emitReady (h : s.ReadyInv) (completed : List NamespaceId) :
    (completed.foldl emitReady s).ReadyInv ∧ (Truthful (completed.foldl emitReady s).sent ↔ Truthful s.sent ∧
      ∀ ns ∈ completed, s.states.readyFlag ns = true → s.queuedHashes.containsNamespace ns = false) := by
  induction completed generalizing s with
  | nil => exact ⟨h, by simp⟩
  | cons n completed ih =>
    obtain ⟨hinv, htrue⟩ := ih (readyInv_emitReady h n)
    refine ⟨hinv, ?_⟩
    rw [List.foldl_cons, htrue, truthful_emitReady h, and_assoc, List.forall_mem_cons, reports_emitReady.queued]
    refine and_congr_right fun _ => and_congr_right fun hn => forall₂_congr fun ns _ => ?_
    -- a second turn for the namespace just served finds the flag down
    rw [readyFlag_emitReady]
    by_cases hns : ns = n
    · subst hns
      simpa using hn
    · rw [if_neg hns]

/-! ## The end of a download -/

/-- After a failure the hash is queued again exactly when it is retried and not complete. -/
theorem queued_retryDownload (hgone : s.queuedHashes.containsHash hash = false)
    (hmissing : (ns, hash) ∈ s.missingHashes) : (s.retryDownload fails ns hash).queuedHashes =
      if (ns, hash) ∈ s.retryAfterFailure ∧ s.complete fails hash = false then s.queuedHashes.insert hash ns
      else s.queuedHashes := by
  unfold retryDownload queueDownload
  by_cases hretry : (ns, hash) ∈ s.retryAfterFailure
  · have hcomplete : ({ s with retryAfterFailure := s.retryAfterFailure.filter (· != (ns, hash)) } :
        Downloads).complete fails hash = s.complete fails hash := rfl
    rw [if_pos hretry, hcomplete]
    cases s.complete fails hash <;> simp [hretry, hgone, hmissing]
  · simp [hretry]

/-- A failed download keeps the log truthful, unless it is queued again for a namespace that is told it has
nothing queued. -/
theorem onDownloadReady_error_ready (h : s.ReadyInv) (err : String) (s' : Downloads) :
    (s.onDownloadReady fails ns hash (.error err)).ReadyInv ∧
      (Truthful (s.onDownloadReady fails ns hash (.error err)).sent ↔
        Truthful s.sent ∧ NotRetriedAsLast s (.downloadReady ns hash (.error err) fails) s') := by
  have hreport : (s.reportDownload ns hash (.error err)).2.ReadyInv :=
    ⟨QueuedHashes.wf_removeHash h.wf, h.announced⟩
  have hretry : ((s.reportDownload ns hash (.error err)).2.retryDownload fails ns hash).ReadyInv :=
    queues_retryDownload.readyInv hreport
  have hqueued : ((s.reportDownload ns hash (.error err)).2.retryDownload fails ns hash).queuedHashes =
      if (ns, hash) ∈ s.retryAfterFailure ∧ s.complete fails hash = false then
        (s.queuedHashes.removeHash hash).2.insert hash ns else (s.queuedHashes.removeHash hash).2 :=
    queued_retryDownload QueuedHashes.containsHash_removeHash_self List.mem_insert_self
  have hstates : ((s.reportDownload ns hash (.error err)).2.retryDownload fails ns hash).states = s.states :=
    queues_retryDownload.states
  have hlog : ((s.reportDownload ns hash (.error err)).2.retryDownload fails ns hash).sent = s.sent :=
    queues_retryDownload.sent
  obtain ⟨hinv, hsent⟩ := foldl_emitReady hretry (s.queuedHashes.removeHash hash).1
  refine ⟨hinv, hsent.trans ?_⟩
  rw [hqueued, hstates, hlog]
  refine and_congr_right fun _ => ?_
  by_cases hagain : (ns, hash) ∈ s.retryAfterFailure ∧ s.complete fails hash = false
  · rw [if_pos hagain]
    constructor
    · intro hquiet _ _ hflag hlast
      have hgone := hquiet ns ((QueuedHashes.mem_removed_iff h.wf).2 hlast) hflag
      rw [QueuedHashes.containsNamespace_insert_self] at hgone
      cases hgone
    · intro hnot ns' hmem hflag
      have hne : ns' ≠ ns := by
        rintro rfl
        exact hnot hagain.1 hagain.2 hflag ((QueuedHashes.mem_removed_iff h.wf).1 hmem)
      rw [QueuedHashes.containsNamespace_insert_of_ne hne]
      exact QueuedHashes.containsNamespace_of_mem_removed hmem
  · rw [if_neg hagain]
    refine iff_of_true (fun ns' hmem _ => QueuedHashes.containsNamespace_of_mem_removed hmem) ?_
    exact fun hretry hcomplete => absurd ⟨hretry, hcomplete⟩ hagain

theorem onDownloadReady_ok_ready (h : s.ReadyInv) (v : Unit) :
    (s.onDownloadReady fails ns hash (.ok v)).ReadyInv ∧
      (Truthful (s.onDownloadReady fails ns hash (.ok v)).sent ↔ Truthful s.sent) := by
  have hreport : (s.reportDownload ns hash (.ok v)).2.ReadyInv :=
    ⟨QueuedHashes.wf_removeHash h.wf, fun ns' hflag => (h.announced ns' hflag).cons _⟩
  have hlog : Truthful (s.reportDownload ns hash (.ok v)).2.sent ↔ Truthful s.sent :=
    and_iff_right fun hevent => by cases hevent
  obtain ⟨hinv, hsent⟩ := foldl_emitReady hreport (s.queuedHashes.removeHash hash).1
  refine ⟨hinv, hsent.trans ((and_iff_left ?_).trans hlog)⟩
  exact fun ns' hmem _ => QueuedHashes.containsNamespace_of_mem_removed hmem

/-! ## The steps -/

theorem readyFlag_run (call : StateCall) (h : (call.run s.states).readyFlag ns = true) :
    s.states.readyFlag ns = true := by
  cases call with
  | insert ns' => exact NamespaceStates.readyFlag_insert ▸ h
  | remove ns' =>
    rw [StateCall.run, NamespaceStates.readyFlag_remove] at h
    split at h
    · cases h
    · exact h
  | startConnect now ns' node reason => exact NamespaceStates.readyFlag_withEntry ▸ h
  | abortConnect ns' node reason => exact NamespaceStates.readyFlag_withEntry ▸ h
  | acceptRequest now me ns' node => exact NamespaceStates.readyFlag_withEntry ▸ h

theorem step_ready {a : Action} (h : s.ReadyInv) (hstep : step fromBytes s a = some s') :
    s'.ReadyInv ∧ (Truthful s'.sent ↔ Truthful s.sent ∧ NotRetriedAsLast s a s') := by
  cases a with
  | replicaEvent ev fails =>
    cases hstep
    have hwanted : ({ s with wanted := wants ev ++ s.wanted } : Downloads).ReadyInv := ⟨h.wf, h.announced⟩
    exact ⟨queues_onReplicaEvent.readyInv hwanted,
      queues_onReplicaEvent.truthful.trans (and_iff_left trivial).symm⟩
  | neighborContentReady ns node hash fails =>
    cases hstep
    exact ⟨queues_startDownload.readyInv h, queues_startDownload.truthful.trans (and_iff_left trivial).symm⟩
  | syncFinished ns peer origin result o =>
    cases hstep
    obtain ⟨hinv, hsent⟩ := onSyncFinished_ready h o peer origin result
    exact ⟨hinv, hsent.trans (and_iff_left trivial).symm⟩
  | downloadReady ns hash res fails =>
    simp only [step] at hstep
    split at hstep
    next =>
      cases hstep
      have hs : ({ s with downloadTasks := s.downloadTasks.erase (ns, hash) } : Downloads).ReadyInv :=
        ⟨h.wf, h.announced⟩
      cases res with
      | ok v =>
        obtain ⟨hinv, hsent⟩ := onDownloadReady_ok_ready hs v
        exact ⟨hinv, hsent.trans (and_iff_left trivial).symm⟩
      | error err => exact onDownloadReady_error_ready hs err s
    next => cases hstep
  | syncState call =>
    cases hstep
    exact ⟨⟨h.wf, fun ns hflag => h.announced ns (readyFlag_run call hflag)⟩, (and_iff_left trivial).symm⟩
  | stored hash =>
    cases hstep
    exact ⟨⟨h.wf, h.announced⟩, (and_iff_left trivial).symm⟩

end

/-- **When `PendingContentReady` is truthful** (live.rs:787): if no failed download that was the
last of a namespace is retried. -/
theorem ready_truthful_iff (fromBytes : PeerIdBytes → Option EndpointId) (as : List Action) :
    (∀ done rest s, as = done ++ rest → runs (step fromBytes) default done = some s → Truthful s.sent) ↔
      EveryStep (step fromBytes) NotRetriedAsLast default as := by
  have hinit : (default : Downloads).ReadyInv := ⟨QueuedHashes.wf_default, fun ns hflag => by cases hflag⟩
  have hempty : Truthful (default : Downloads).sent := trivial
  refine forall_runs_iff (J := ReadyInv) (I := fun s => Truthful s.sent) (fun _ _ _ h hs => (step_ready h hs).1)
    (fun s a s' h htrue hs => ?_) as hinit hempty
  exact (step_ready h hs).2.trans (and_iff_right htrue)

/-- A sync that finishes while a download runs marks it for a retry; the download fails, and the namespace is told
that nothing is pending just after the retry was queued. -/
theorem retried_download_is_reported_done :
    let as : List Action := [.syncState (.insert zeros32),
      .replicaEvent (.remoteInsert zeros32 (Fs.sampleEntry [1] ⟨7, zeros32, 3⟩) zeros32 true .complete)
        (fun _ => false),
      .syncState (.startConnect 0 zeros32 zeros32 .directJoin),
      .syncFinished zeros32 zeros32 (.connect .directJoin) (.ok ⟨zeros32, zeros32, ⟨⟨∅⟩, 1, 0⟩⟩)
        ⟨0, fun _ => false, fun _ => false⟩,
      .downloadReady zeros32 zeros32 (.error "no provider") (fun _ => false)]
    ¬ (∀ done rest s, as = done ++ rest → runs (step some) default done = some s → Truthful s.sent) ∧
      ∃ s e log, runs (step some) default as = some s ∧ s.sent = e :: log ∧
        e.event = .pendingContentReady ∧ e.queued = true := by
  intro as
  obtain ⟨s, e, log, hrun, hsent, hevent, hqueued⟩ : ∃ s e log, runs (step some) default as = some s ∧
      s.sent = e :: log ∧ e.event = .pendingContentReady ∧ e.queued = true :=
    ⟨_, _, _, rfl, rfl, rfl, by decide +kernel⟩
  refine ⟨fun h => ?_, s, e, log, hrun, hsent, hevent, hqueued⟩
  have htrue := h as [] s rfl hrun
  rw [hsent] at htrue
  rw [(htrue.1 hevent).2] at hqueued
  cases hqueued

end PdnStore.Engine.Downloads

import PdnStore.Engine.Owner

/-!
# Who releases a running slot (engine/state.rs:188-276, engine/live.rs:568-622)

The end of an exchange should release the slot only if it is the exchange the slot runs for. `finish` does
not check this: a mismatch of the origin is logged and the slot cleared, and two exchanges of one origin
are not told apart. `abort_connect` compares the reason alone. So the property holds of a run exactly when
no exchange reports while the slot of its pair runs for another one, except with a silent ending: a request
refused as already syncing, a connection that ended before its init, or a dial aborted as already syncing
that has another reason than the one running.
-/

namespace PdnStore.Engine

open Net

/-- The exchange whose end the actor handles in this step. -/
def Action.reporter : Action → Option ExchangeId
  | .joinDial task _ | .joinAccept task _ => some task
  | _ => none

/-- An ending leaves every slot that runs for another exchange as it is. -/
def Respects (s : Live) (a : Action) (s' : Live) : Prop :=
  ∀ id, a.reporter = some id → ∀ ns peer start origin, s.slot ns peer = .running start origin →
    s.owner (ns, peer) ≠ some id →
      s'.states.peer ns peer = s.states.peer ns peer ∧ s'.owner (ns, peer) = s.owner (ns, peer)

/-- The slot of the pair is idle, or runs for this exchange. -/
def Live.FreeFor (s : Live) (id : ExchangeId) (ns : NamespaceId) (peer : EndpointId) : Prop :=
  s.slot ns peer = .idle ∨ s.owner (ns, peer) = some id

/-- The condition on an ending, in the state that it finds. -/
def Meets (s : Live) : Action → Prop
  | .joinDial id _ => ∀ t, s.dials id = some t → s.FreeFor id t.namespace t.peer ∨
      (t.ended = some (.error (.remoteAbort .alreadySyncing)) ∧
        ∀ start, s.slot t.namespace t.peer ≠ .running start (.connect t.reason))
  | .joinAccept id _ => ∀ t res ns peer, s.accepts id = some t → t.ended = some res →
      res.pair = some (ns, peer) →
      s.FreeFor id ns peer ∨ res = .error (.abort peer ns .alreadySyncing)
  | _ => True

section Release

variable {me : EndpointId} {s s' : Live} {o : Outside} {ns ns' : NamespaceId} {peer peer' : EndpointId}
  {origin : Origin} {result : SyncResult}

theorem syncWithPeer_of_ne {now : U64} {reason : SyncReason} (h : ¬ (ns' = ns ∧ peer' = peer)) :
    (s.syncWithPeer now ns peer reason).states.peer ns' peer' = s.states.peer ns' peer' ∧
      (s.syncWithPeer now ns peer reason).owner (ns', peer') = s.owner (ns', peer') := by
  have hstates : (s.states.startConnect now ns peer reason).2.peer ns' peer' = s.states.peer ns' peer' :=
    NamespaceStates.startConnect_of_ne h
  unfold Live.syncWithPeer
  split <;> rename_i heq <;> rw [heq] at hstates
  · exact ⟨hstates, rfl⟩
  · exact ⟨hstates, Function.update_of_ne (by simpa using h) ..⟩

/-- A finished sync touches the slot of its own pair only. -/
theorem onSyncFinished_of_ne (h : ¬ (ns' = ns ∧ peer' = peer)) :
    (s.onSyncFinished o ns peer origin result).states.peer ns' peer' = s.states.peer ns' peer' ∧
      (s.onSyncFinished o ns peer origin result).owner (ns', peer') = s.owner (ns', peer') := by
  have hstates : (s.states.finish o.now ns peer origin result).2.peer ns' peer' = s.states.peer ns' peer' :=
    NamespaceStates.finish_of_ne h
  unfold Live.onSyncFinished
  split <;> rename_i heq <;> rw [heq] at hstates
  · exact ⟨hstates, rfl⟩
  · rename_i states
    have hready : (states.setMayEmitReady ns o.queued).peer ns' peer' = s.states.peer ns' peer' :=
      NamespaceStates.peer_setMayEmitReady.trans hstates
    dsimp only
    split
    · exact ⟨(syncWithPeer_of_ne h).1.trans hready, (syncWithPeer_of_ne h).2⟩
    · exact ⟨hready, rfl⟩

/-- A finished sync never leaves a running slot as it was: it is idle, or a resync has taken it. -/
theorem onSyncFinished_self (h : s.Tasks) {start : U64} {origin' : Origin}
    (hrun : s.slot ns peer = .running start origin') :
    ¬ ((s.onSyncFinished o ns peer origin result).states.peer ns peer = s.states.peer ns peer ∧
      (s.onSyncFinished o ns peer origin result).owner (ns, peer) = s.owner (ns, peer)) := by
  obtain ⟨hsync, hfst⟩ : s.states.isSyncing ns = true ∧
    (s.states.finish o.now ns peer origin result).1 = _ :=
    NamespaceStates.finish_of_running hrun
  have hidle : ((s.states.finish o.now ns peer origin result).2.peer ns peer).state = .idle :=
    NamespaceStates.finish_idle
  have hsync' : (s.states.finish o.now ns peer origin result).2.isSyncing ns = true :=
    NamespaceStates.isSyncing_withEntry.trans hsync
  unfold Live.onSyncFinished
  rcases hfin : s.states.finish o.now ns peer origin result with ⟨res, states⟩
  rw [hfin] at hfst hidle hsync'
  subst hfst
  dsimp only at hidle hsync' ⊢
  split
  · -- the resync dial takes the slot under a new id
    rintro ⟨-, howner⟩
    have htrue : ((states.setMayEmitReady ns o.queued).startConnect o.now ns peer .resync).1 = true := by
      rw [NamespaceStates.startConnect_fst]
      simp [hidle, hsync']
    unfold Live.syncWithPeer at howner
    split at howner
    next heq =>
      rw [heq] at htrue
      cases htrue
    next =>
      have hnew : s.owner (ns, peer) = some s.nextId := howner.symm.trans (Function.update_self ..)
      exact absurd (h.owner_lt _ _ hnew) (lt_irrefl _)
  · rintro ⟨hpeer, -⟩
    have hslot := congrArg PeerState.state hpeer
    rw [NamespaceStates.peer_setMayEmitReady, hidle] at hslot
    exact absurd (hslot.trans hrun) (by simp)

/-- `abort_connect` clears a dial of the same reason and touches nothing else. -/
theorem abortConnect_cases (p : PeerState) (reason : SyncReason) :
    ((∃ start, p.state = .running start (.connect reason)) ∧ (p.abortConnect reason).2.state = .idle) ∨
      ((∀ start, p.state ≠ .running start (.connect reason)) ∧ (p.abortConnect reason).2 = p) := by
  unfold PeerState.abortConnect
  split
  next start running heq =>
    by_cases h : running = reason
    · subst h
      exact .inl ⟨⟨start, heq⟩, by simp⟩
    · refine .inr ⟨fun start' hc => h ?_, by simp [h]⟩
      rw [heq] at hc
      cases hc
      rfl
  next hnot => exact .inr ⟨fun start hc => hnot start reason hc, rfl⟩

/-- A slot is free for the exchange, or runs for another one. -/
theorem Live.freeFor_or (s : Live) (id : ExchangeId) (ns : NamespaceId) (peer : EndpointId) :
    s.FreeFor id ns peer ∨ ∃ start origin, s.slot ns peer = .running start origin ∧
      s.owner (ns, peer) ≠ some id := by
  cases hslot : s.slot ns peer with
  | idle => exact .inl (.inl hslot)
  | running start origin =>
    by_cases howner : s.owner (ns, peer) = some id
    · exact .inl (.inr howner)
    · exact .inr ⟨start, origin, rfl, howner⟩

theorem Live.FreeFor.elim {id : ExchangeId} {start : U64} (h : s.FreeFor id ns peer)
    (hrun : s.slot ns peer = .running start origin) (howner : s.owner (ns, peer) ≠ some id) : False := by
  rcases h with h | h
  · rw [hrun] at h
    cases h
  · exact howner h

/-- A finished sync of the pair respects the slots exactly when the slot of the pair is free for it. -/
theorem onSyncFinished_respects {s₀ : Live} {a : Action} {id : ExchangeId} (ha : a.reporter = some id)
    (htasks : s₀.Tasks) (hstates : s₀.states = s.states) (howner : s₀.owner = s.owner) :
    Respects s a (s₀.onSyncFinished o ns peer origin result) ↔ s.FreeFor id ns peer := by
  constructor
  · intro h
    refine (s.freeFor_or id ns peer).resolve_right ?_
    rintro ⟨start, origin', hrun, hne⟩
    have hrun₀ : s₀.slot ns peer = .running start origin' := by rw [Live.slot, hstates]; exact hrun
    have hsame := h id ha ns peer start origin' hrun hne
    rw [← hstates, ← howner] at hsame
    exact onSyncFinished_self htasks hrun₀ hsame
  · intro hfree id' ha' ns' peer' start origin' hrun hne
    rw [ha, Option.some.injEq] at ha'
    subst ha'
    by_cases hp : ns' = ns ∧ peer' = peer
    · obtain ⟨rfl, rfl⟩ := hp
      exact (hfree.elim hrun hne).elim
    · rw [← hstates, ← howner]
      exact onSyncFinished_of_ne hp

/-- The end of a dial. -/
theorem respects_joinDial {id : ExchangeId} (h : s.Inv) (hstep : step me s (.joinDial id o) = some s') :
    Respects s (.joinDial id o) s' ↔ Meets s (.joinDial id o) := by
  obtain ⟨t, res, ht, hres, rfl⟩ := step_joinDial hstep
  have hmeets : Meets s (.joinDial id o) ↔ (s.FreeFor id t.namespace t.peer ∨
      (res = .error (.remoteAbort .alreadySyncing) ∧
        ∀ start, s.slot t.namespace t.peer ≠ .running start (.connect t.reason))) := by
    simp [Meets, ht, hres]
  rw [hmeets]
  rcases onSyncViaConnectFinished_cases ({ s with dials := Function.update s.dials id none } : Live) o
    t.namespace t.peer
    t.reason res with ⟨hres, heq⟩ | ⟨result, hres, heq⟩
  · rw [heq]
    have hcases := abortConnect_cases (s.states.peer t.namespace t.peer) t.reason
    constructor
    · intro hresp
      rcases s.freeFor_or id t.namespace t.peer with hfree | ⟨start, origin', hrun, hne⟩
      · exact .inl hfree
      · refine .inr ⟨hres, fun start' hc => ?_⟩
        rcases hcases with ⟨-, hidle⟩ | ⟨hnot, -⟩
        · have hsame := (hresp id rfl _ _ start origin' hrun hne).1
          rw [NamespaceStates.peer_abortConnect, if_pos ⟨rfl, rfl⟩] at hsame
          rw [hsame] at hidle
          exact absurd (hidle.symm.trans hrun) (by simp)
        · exact hnot start' hc
    · rintro hcond id' ha ns peer start origin' hrun hne
      cases ha
      refine ⟨?_, rfl⟩
      rw [NamespaceStates.peer_abortConnect]
      split
      next hp =>
        obtain ⟨rfl, rfl⟩ := hp
        rcases hcond with hfree | ⟨-, hnot⟩
        · exact (hfree.elim hrun hne).elim
        · rcases hcases with ⟨⟨start', hc⟩, -⟩ | ⟨-, hsame⟩
          · exact absurd hc (hnot start')
          · exact hsame
      next => rfl
  · rw [heq]
    refine Iff.trans (onSyncFinished_respects rfl h.tasks.dropDial rfl rfl) ?_
    simp [hres]

/-- The end of an accept task. -/
theorem respects_joinAccept {id : ExchangeId} (h : s.Inv) (hstep : step me s (.joinAccept id o) = some s') :
    Respects s (.joinAccept id o) s' ↔ Meets s (.joinAccept id o) := by
  obtain ⟨t, res, hin, ht, hres, rfl⟩ := step_joinAccept hstep
  have hmeets : Meets s (.joinAccept id o) ↔ ∀ ns peer, res.pair = some (ns, peer) →
      (s.FreeFor id ns peer ∨ res = .error (.abort peer ns .alreadySyncing)) := by
    refine ⟨fun hm ns peer hpair => hm t res ns peer ht hres hpair,
      fun hm t' res' ns peer ht' hres' hpair => ?_⟩
    rw [ht] at ht'
    cases ht'
    rw [hres] at hres'
    cases hres'
    exact hm ns peer hpair
  rw [hmeets]
  rcases onSyncViaAcceptFinished_cases ({ s with accepts := Function.update s.accepts id none } : Live)
    o res with
    ⟨hsilent, heq⟩ | ⟨ns, peer, result, hloud, hpair, heq⟩
  · rw [heq]
    refine iff_of_true (fun _ _ _ _ _ _ _ _ => ⟨rfl, rfl⟩) fun ns peer hpair => ?_
    rcases hsilent with hnone | ⟨p, ns', rfl⟩
    · rw [hnone] at hpair
      cases hpair
    · cases hpair
      exact .inr rfl
  · rw [heq]
    refine Iff.trans (onSyncFinished_respects rfl (h.tasks.dropAccept hin) rfl rfl) ?_
    constructor
    · intro hfree ns' peer' hpair'
      rw [hpair] at hpair'
      cases hpair'
      exact .inl hfree
    · intro hcond
      exact (hcond ns peer hpair).resolve_right fun hc => hloud (.inr ⟨peer, ns, hc⟩)

/-- Step: an action respects the slots exactly when it meets the condition. -/
theorem respects_iff_meets {a : Action} (h : s.Inv) (hstep : step me s a = some s') :
    Respects s a s' ↔ Meets s a := by
  cases a with
  | joinDial id o => exact respects_joinDial h hstep
  | joinAccept id o => exact respects_joinAccept h hstep
  | _ => exact iff_of_true (fun _ hid => by cases hid) trivial

end Release

/-- **Slot ownership**: in a run of the actor every ending respects the slots of the other exchanges exactly when
every ending meets the condition. -/
theorem slot_ownership_iff (me : EndpointId) (as : List Action) :
    EveryStep (step me) Respects default as ↔ EveryStep (step me) (fun s a _ => Meets s a) default as :=
  everyStep_congr (I := Live.Inv) (fun _ _ _ h hstep => h.step hstep)
    (fun _ _ _ h hstep => respects_iff_meets h hstep) as
    inv_default

/-! ## Three endings that release another exchange's slot -/

/-- The peer connects, and its request is decided. -/
def acceptRun (peer : EndpointId) : List Action :=
  [.send (.handleConnection peer), .receive (sampleOutside 1), .call 1 zeros32, .request 1,
    .receive (sampleOutside 2)]

/-- A mutual dial that the incoming request takes over; then the connection of the dial is lost. -/
def takenOverRun : List Action :=
  dialRun lowNode ++ acceptRun lowNode ++ [.endDial 0 .full (.error (.close "connection lost"))]

/-- The namespace is left and joined again, so that it is dialed twice; the first dial comes back aborted. -/
def olderDialRun : List Action :=
  dialRun lowNode ++ [.send (.leave zeros32), .receive (sampleOutside 1)] ++ dialRun lowNode ++
    [.endDial 0 .full (.error (.remoteAbort .alreadySyncing))]

/-- An init whose refusal cannot be written. -/
def unwritable : Script where
  acceptBi := .ok ()
  reads := [.frame (.init zeros32 ⟨[]⟩) ⟨.err "stream closed", .ok (), .elapsed, .ok ()⟩]
  terminalSent := .err "stream closed"
  finish := .ok ()
  stopped := .ok ()
  readToEnd := .ok ()

/-- A request refused because of our own dial, with the refusal unwritable. -/
def refusedRun : List Action := dialRun highNode ++ acceptRun highNode ++ [.endAccept 1 .absent unwritable]

/-- The slot and its owner at the end of a run. -/
def slotAfter (me peer : EndpointId) (as : List Action) : Option (SyncState × Option ExchangeId) :=
  (runs (step me) default as).map fun s => (s.slot zeros32 peer, s.owner (zeros32, peer))

/-- In each run the slot runs for another exchange, and joining the ended task clears it. -/
theorem endings_release_other_slots :
    (slotAfter highNode lowNode takenOverRun = some (.running 2 .accept, some 1) ∧
      slotAfter highNode lowNode (takenOverRun ++ [.joinDial 0 (sampleOutside 3)]) = some (.idle, some 1)) ∧
    (slotAfter highNode lowNode olderDialRun = some (.running 0 (.connect .directJoin), some 1) ∧
      slotAfter highNode lowNode (olderDialRun ++ [.joinDial 0 (sampleOutside 3)]) = some (.idle, some 1)) ∧
    (slotAfter lowNode highNode refusedRun = some (.running 0 (.connect .directJoin), some 0) ∧
      slotAfter lowNode highNode
        (refusedRun ++ [.joinAccept 1 (sampleOutside 3)]) = some (.idle, some 0)) := by
  refine ⟨⟨?_, ?_⟩, ⟨?_, ?_⟩, ⟨?_, ?_⟩⟩ <;> decide +kernel

end PdnStore.Engine

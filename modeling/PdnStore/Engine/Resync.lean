import PdnStore.Engine.State

/-!
# A queued resync (engine/state.rs:189-276)

A sync report that arrives while an exchange runs sets `resync_requested`, and `finish` hands the flag to
`on_sync_finished`, which then dials again ("run again afterwards"). Two transitions in between lose it:
`set_sync_running` of an incoming request that takes a dial over resets the flag, and `abort_connect`
releases the slot without reading it; its caller (`live.rs:588`) starts nothing.
-/

namespace PdnStore.Engine

open Net

/-- A transition of one slot. -/
inductive PeerOp where
  | startConnect (now : U64) (reason : SyncReason)
  | acceptRequest (now : U64) (me node : EndpointId)
  | abortConnect (reason : SyncReason)
  | finish (now : U64) (origin : Origin) (result : SyncResult)

namespace PeerState

def isRunning (p : PeerState) : Bool :=
  match p.state with
  | .running .. => true
  | .idle => false

/-- The slot after a transition. -/
def apply (p : PeerState) : PeerOp → PeerState
  | .startConnect now reason => (p.startConnect now reason).2
  | .acceptRequest now me node => (p.acceptRequest now me node).2
  | .abortConnect reason => (p.abortConnect reason).2
  | .finish now origin result => (p.finish now origin result).2

/-- The caller is told to start another sync: only `finish` can say so. -/
def tells (p : PeerState) : PeerOp → Bool
  | .finish now origin result =>
    match (p.finish now origin result).1 with
    | some (_, resync) => resync
    | none => false
  | _ => false

/-- The transition moves the slot from running to idle. -/
def releases (p : PeerState) (op : PeerOp) : Bool := p.isRunning && !(p.apply op).isRunning

/-- An incoming request wins the tie-break against the dial that is running. -/
def takesOver (p : PeerState) : PeerOp → Bool
  | .acceptRequest _ me node =>
    match p.state with
    | .running _ (.connect _) => expectedSyncDirection me node = .accept
    | _ => false
  | _ => false

end PeerState

def PeerOp.isFinish : PeerOp → Bool
  | .finish .. => true
  | _ => false

def PeerOp.isAbortConnect : PeerOp → Bool
  | .abortConnect _ => true
  | _ => false

/-- `start_connect` with `SyncReason::SyncReport`. -/
def PeerOp.isSyncReport : PeerOp → Bool
  | .startConnect _ .syncReport => true
  | _ => false

/-- No transition of the list releases the slot. -/
def Busy (p : PeerState) (ops : List PeerOp) : Prop :=
  ∀ done rest, ops = done ++ rest → (done.foldl PeerState.apply p).isRunning = true

/-- Every take-over is followed by another sync report. -/
def Renewed (p : PeerState) (ops : List PeerOp) : Prop :=
  ∀ done op rest, ops = done ++ op :: rest → (done.foldl PeerState.apply p).takesOver op = true →
    ∃ report ∈ rest, report.isSyncReport = true

section Flag

variable {p : PeerState} {op : PeerOp} {ops : List PeerOp}

/-- Step: what a transition that leaves the slot running does to the flag. -/
theorem resyncRequested_apply (hrun : p.isRunning = true) (hbusy : (p.apply op).isRunning = true) :
    (p.apply op).resyncRequested = (op.isSyncReport || (!p.takesOver op && p.resyncRequested)) := by
  obtain ⟨state, flag, last⟩ := p
  cases state with
  | idle => cases hrun
  | running start origin =>
    cases op with
    | startConnect now reason =>
      cases reason <;>
        simp [PeerState.apply, PeerState.startConnect, PeerOp.isSyncReport, PeerState.takesOver]
    | acceptRequest now me node =>
      cases origin with
      | accept => simp [PeerState.apply, PeerState.acceptRequest, PeerState.acceptOutcome,
          PeerOp.isSyncReport, PeerState.takesOver]
      | connect reason =>
        cases hdir : expectedSyncDirection me node <;>
          simp [PeerState.apply, PeerState.acceptRequest, PeerState.acceptOutcome, PeerOp.isSyncReport,
            PeerState.takesOver,
            PeerState.setSyncRunning, hdir]
    | abortConnect reason =>
      cases origin with
      | accept => rfl
      | connect running =>
        simp only [PeerState.apply, PeerState.abortConnect, PeerOp.isSyncReport, PeerState.takesOver]
        split <;> rfl
    | finish now origin result => cases hbusy

theorem Busy.init (h : Busy p (ops ++ [op])) : Busy p ops := by
  intro done rest heq
  exact h done (rest ++ [op]) (by rw [heq, List.append_assoc])

theorem Busy.last (h : Busy p ops) : (ops.foldl PeerState.apply p).isRunning = true :=
  h ops [] (List.append_nil ops).symm

theorem takesOver_of_isSyncReport (h : op.isSyncReport = true) : p.takesOver op = false := by
  cases op <;> first | rfl | cases h

/-- One more transition: a report renews the request, a take-over ends it. -/
theorem renewed_snoc : Renewed p (ops ++ [op]) ↔
    op.isSyncReport = true ∨ ((ops.foldl PeerState.apply p).takesOver op = false ∧ Renewed p ops) := by
  constructor
  · intro h
    by_cases hop : op.isSyncReport = true
    · exact .inl hop
    · refine .inr ⟨?_, fun done t rest heq ht => ?_⟩
      · by_contra hc
        obtain ⟨report, hmem, -⟩ := h ops op [] rfl (by simpa using hc)
        cases hmem
      · obtain ⟨report, hmem, hrep⟩ := h done t (rest ++ [op]) (by simp [heq]) ht
        rcases List.mem_append.1 hmem with hmem | hmem
        · exact ⟨report, hmem, hrep⟩
        · rw [List.mem_singleton.1 hmem] at hrep
          exact absurd hrep hop
  · intro h done t rest heq ht
    rcases List.eq_nil_or_concat rest with rfl | ⟨rest, last, rfl⟩
    · -- the take-over would be the last transition
      obtain ⟨hinit, hlast⟩ := List.append_inj' heq rfl
      cases hlast
      subst hinit
      rcases h with h | ⟨h, -⟩
      · rw [takesOver_of_isSyncReport h] at ht
        cases ht
      · rw [h] at ht
        cases ht
    · have heq' : ops ++ [op] = (done ++ t :: rest) ++ [last] := by simpa using heq
      obtain ⟨hinit, hlast⟩ := List.append_inj' heq' rfl
      cases hlast
      rcases h with h | ⟨-, h⟩
      · exact ⟨op, by simp, h⟩
      · obtain ⟨report, hmem, hrep⟩ := h done t rest hinit ht
        exact ⟨report, by simp [hmem], hrep⟩

/-- Run: the flag survives exactly when every take-over is followed by another report. -/
theorem resyncRequested_foldl (hflag : p.resyncRequested = true) (hbusy : Busy p ops) :
    (ops.foldl PeerState.apply p).resyncRequested = true ↔ Renewed p ops := by
  induction ops using List.reverseRecOn with
  | nil => simp [hflag, Renewed]
  | append_singleton ops op ih =>
    have hlast := hbusy.last
    rw [List.foldl_append] at hlast ⊢
    rw [List.foldl_cons, List.foldl_nil] at hlast ⊢
    rw [resyncRequested_apply hbusy.init.last hlast, renewed_snoc, ← ih hbusy.init]
    simp

/-- The two ways a slot is released. -/
theorem releases_cases (h : p.releases op = true) : op.isFinish = true ∨ op.isAbortConnect = true := by
  obtain ⟨hrun, hidle⟩ := (Bool.and_eq_true _ _).mp h
  obtain ⟨state, flag, last⟩ := p
  cases state with
  | idle => cases hrun
  | running start origin =>
    cases op with
    | finish => exact .inl rfl
    | abortConnect => exact .inr rfl
    | startConnect now reason => cases reason <;> cases hidle
    | acceptRequest now me node =>
      cases origin with
      | accept => cases hidle
      | connect reason =>
        simp only [PeerState.apply, PeerState.acceptRequest, PeerState.acceptOutcome] at hidle
        cases hdir : expectedSyncDirection me node <;> rw [hdir] at hidle <;> cases hidle

/-- `finish` says so when the flag is set. -/
theorem tells_of_running (hrun : p.isRunning = true) : p.tells op = (op.isFinish && p.resyncRequested) := by
  obtain ⟨state, flag, last⟩ := p
  cases state with
  | idle => cases hrun
  | running start origin => cases op <;> rfl

/-- **When a queued resync is told at the next release**: a report refused while an exchange runs, any
transitions that leave the slot running, then the transition that releases it. -/
theorem queued_resync_told_iff (p : PeerState) (now : U64) (hrun : p.isRunning = true) (ops : List PeerOp)
    (hbusy : Busy (p.startConnect now .syncReport).2 ops) (op : PeerOp)
    (hrel : (ops.foldl PeerState.apply (p.startConnect now .syncReport).2).releases op = true) :
    (p.startConnect now .syncReport).1 = false ∧ (op.isFinish = true ∨ op.isAbortConnect = true) ∧
    ((ops.foldl PeerState.apply (p.startConnect now .syncReport).2).tells op = true ↔
      op.isFinish = true ∧ Renewed (p.startConnect now .syncReport).2 ops) := by
  have hrefused : (p.startConnect now .syncReport).1 = false ∧
      (p.startConnect now .syncReport).2.resyncRequested = true := by
    unfold PeerState.isRunning at hrun
    unfold PeerState.startConnect
    split at hrun
    next heq => simp [heq]
    next => cases hrun
  refine ⟨hrefused.1, releases_cases hrel, ?_⟩
  rw [tells_of_running hbusy.last, Bool.and_eq_true, resyncRequested_foldl hrefused.2 hbusy]

end Flag

/-! ## Two ways to lose it -/

/-- A dial of `reason` running since the epoch. -/
def dialing (reason : SyncReason) : PeerState := (default : PeerState).apply (.startConnect 0 reason)

/-- The report is refused; then an incoming request takes the dial over and finishes, or the remote aborts the
dial. Nobody is told. -/
theorem queued_resync_lost :
    ((dialing .directJoin).startConnect 1 .syncReport).1 = false ∧
    ([.startConnect 1 .syncReport, .acceptRequest 2 highNode lowNode].foldl PeerState.apply
      (dialing .directJoin)).releases (.finish 3 .accept (.error (.accept (.connect "")))) = true ∧
    ([.startConnect 1 .syncReport, .acceptRequest 2 highNode lowNode].foldl PeerState.apply
      (dialing .directJoin)).tells (.finish 3 .accept (.error (.accept (.connect "")))) = false ∧
    ([.startConnect 1 .syncReport].foldl PeerState.apply (dialing .directJoin)).releases
      (.abortConnect .directJoin) = true ∧
    ([.startConnect 1 .syncReport].foldl PeerState.apply (dialing .directJoin)).tells
      (.abortConnect .directJoin) = false := by
  decide +kernel

/-- A request takes the dial over, and another report is refused after it. -/
def renewedOps : List PeerOp := [.acceptRequest 2 highNode lowNode, .startConnect 3 .syncReport]

/-- Then `finish` tells. -/
theorem queued_resync_told_sample :
    ((dialing .directJoin).startConnect 1 .syncReport).2.takesOver (.acceptRequest 2 highNode lowNode) = true ∧
    (renewedOps.foldl PeerState.apply ((dialing .directJoin).startConnect 1 .syncReport).2).tells
      (.finish 4 .accept (.error (.accept (.connect "")))) = true := by
  refine ⟨by decide +kernel, ?_⟩
  refine ((queued_resync_told_iff (dialing .directJoin) 1 (by decide) renewedOps ?_ _ (by decide +kernel)).2.2).2
    ⟨rfl, ?_⟩
  · intro done rest heq
    have hbusy : ∀ done ∈ renewedOps.inits,
        (done.foldl PeerState.apply ((dialing .directJoin).startConnect 1 .syncReport).2).isRunning = true := by
      decide +kernel
    exact hbusy done ((List.mem_inits done renewedOps).2 ⟨rest, heq.symm⟩)
  · show Renewed _ ([.acceptRequest 2 highNode lowNode] ++ [.startConnect 3 .syncReport])
    exact renewed_snoc.2 (.inl rfl)

end PdnStore.Engine

import PdnStore.Engine.State
import PdnStore.Lib.Runs

/-!
# The gossip topics of the engine (engine/gossip.rs)

Joining a topic spawns a receive loop and registers its sender and abort handle under the namespace; quitting
takes the registration out and aborts the loop. A loop that ends by itself is collected later, by `progress`,
and matched back by its namespace: what is registered there by then may belong to another loop, which goes on
without a registration, so that no later `quit` finds it.

| here | there |
| --- | --- |
| `ActiveState` | the sender and the abort handle (`gossip.rs:20`), each by the number of the subscription it came from |
| `activeTasks` | the `JoinSet`: the loops spawned and not collected, with what has become of them |
| `collect`     | one turn of the loop of `progress` (`gossip.rs:106`), on any loop that has ended |
| `shutdown`    | what it does before `progress` (`gossip.rs:80`) |

What `subscribe_with_opts` and `join_peers` answer is handed in. An aborted loop may still end by itself.
-/

namespace PdnStore.Engine

/-- How a receive loop ended, as `join_next` reports it. -/
inductive LoopEnd where
  | returned (res : Except String Unit)
  | cancelled
  | panicked

inductive LoopStatus where
  | running (aborted : Bool)
  | ended (how : LoopEnd)

structure ReceiveLoop where
  «namespace» : NamespaceId
  status : LoopStatus

/-- `AbortHandle::abort`. -/
def ReceiveLoop.abort (l : ReceiveLoop) : ReceiveLoop :=
  match l.status with
  | .running _ => { l with status := .running true }
  | .ended _ => l

/-- `ActiveState` (gossip.rs:21). -/
@[ext] structure ActiveState where
  sender : Nat
  abortHandle : Nat
deriving DecidableEq

/-- `GossipState` (gossip.rs:27). -/
structure GossipState where
  active : SortedMap NamespaceId ActiveState
  activeTasks : Nat → Option ReceiveLoop
  nextTask : Nat

namespace GossipState

/-- `GossipState::new` (gossip.rs:34). -/
instance : Inhabited GossipState := ⟨⟨∅, fun _ => none, 0⟩⟩

variable (s : GossipState)

/-- Abort the loops behind the handles. -/
def abortAll (handles : List Nat) : Nat → Option ReceiveLoop := fun t =>
  (s.activeTasks t).map fun l => if t ∈ handles then l.abort else l

/-- `GossipState::join` (gossip.rs:44). -/
def join (ns : NamespaceId) (bootstrap : List EndpointId) (answer : Except String Unit) :
    GossipState × Except String Unit :=
  match s.active.get? ns with
  | some _ => (s, if bootstrap = [] then .ok () else answer)
  | none =>
    match answer with
    | .error err => (s, .error err)
    | .ok () =>
      ({ active := s.active.insert ns ⟨s.nextTask, s.nextTask⟩
         activeTasks := Function.update s.activeTasks s.nextTask (some ⟨ns, .running false⟩)
         nextTask := s.nextTask + 1 }, .ok ())

/-- `GossipState::quit` (gossip.rs:73). -/
def quit (topic : NamespaceId) : GossipState :=
  match s.active.get? topic with
  | some state => { s with
      active := s.active.filter fun r => r.1 ≠ topic
      activeTasks := s.abortAll [state.abortHandle] }
  | none => s

/-- `GossipState::shutdown` (gossip.rs:79), up to the call of `progress`. -/
def shutdown : GossipState :=
  { s with active := ∅, activeTasks := s.abortAll (s.active.toList.map fun r => r.2.abortHandle) }

/-- What `progress` does with a loop that has ended (gossip.rs:106-118). -/
def collect (t : Nat) : Option GossipState :=
  match s.activeTasks t with
  | some ⟨ns, .ended how⟩ =>
    let s := { s with activeTasks := Function.update s.activeTasks t none }
    match how with
    | .cancelled => some s
    | .panicked => some s
    | .returned _ => some { s with active := s.active.filter fun r => r.1 ≠ ns }
  | _ => none

/-- A receive loop ends; only an aborted one is cancelled. -/
def ends (t : Nat) (how : LoopEnd) : Option GossipState :=
  match s.activeTasks t, how with
  | some ⟨_, .running false⟩, .cancelled => none
  | some ⟨ns, .running _⟩, how =>
    some { s with activeTasks := Function.update s.activeTasks t (some ⟨ns, .ended how⟩) }
  | _, _ => none

inductive Action where
  | join (ns : NamespaceId) (bootstrap : List EndpointId) (answer : Except String Unit)
  | quit (topic : NamespaceId)
  | shutdown
  | ends (t : Nat) (how : LoopEnd)
  | collect (t : Nat)

def step (s : GossipState) : Action → Option GossipState
  | .join ns bootstrap answer => some (s.join ns bootstrap answer).1
  | .quit topic => some (s.quit topic)
  | .shutdown => some s.shutdown
  | .ends t how => s.ends t how
  | .collect t => s.collect t

/-! ## The property -/

/-- A receive loop of the namespace is running and was not aborted. -/
def Running (t : Nat) (ns : NamespaceId) : Prop := s.activeTasks t = some ⟨ns, .running false⟩

/-- Such a loop has its sender and abort handle registered under its namespace. -/
def Registered : Prop := ∀ t ns, s.Running t ns → s.active.get? ns = some ⟨t, t⟩

/-- The result of a loop is collected while no other loop of its namespace runs. -/
def SafeCollect (s : GossipState) (a : Action) (_ : GossipState) : Prop :=
  ∀ t ns res, a = .collect t → s.activeTasks t = some ⟨ns, .ended (.returned res)⟩ → ∀ t', ¬ s.Running t' ns

section Steps

variable {s s' : GossipState} {t t' : Nat} {ns ns' : NamespaceId}

theorem running_abortAll {handles : List Nat} {active : SortedMap NamespaceId ActiveState} :
    (⟨active, s.abortAll handles, s.nextTask⟩ : GossipState).Running t ns ↔ s.Running t ns ∧ t ∉ handles := by
  unfold Running abortAll
  rw [Option.map_eq_some_iff]
  constructor
  · rintro ⟨⟨ns', status⟩, hl, heq⟩
    by_cases ht : t ∈ handles
    · cases status <;> simp [ht, ReceiveLoop.abort] at heq
    · rw [if_neg ht] at heq
      exact ⟨heq ▸ hl, ht⟩
  · rintro ⟨hl, ht⟩
    exact ⟨_, hl, if_neg ht⟩

theorem running_update {tasks : Nat → Option ReceiveLoop} {l : Option ReceiveLoop} {n : Nat}
    {active : SortedMap NamespaceId ActiveState} (hl : ∀ ns, l ≠ some ⟨ns, .running false⟩) :
    (⟨active, Function.update tasks t' l, n⟩ : GossipState).Running t ns ↔
      t ≠ t' ∧ tasks t = some ⟨ns, .running false⟩ := by
  unfold Running
  by_cases ht : t = t'
  · subst ht
    simp [hl]
  · simp [ht]

/-- Joining: the only loop of the namespace is the new one. -/
theorem registered_join (h : s.Registered) (ns : NamespaceId) (bootstrap : List EndpointId)
    (answer : Except String Unit) : (s.join ns bootstrap answer).1.Registered := by
  unfold join
  cases hns : s.active.get? ns with
  | some state => exact h
  | none =>
    cases answer with
    | error err => exact h
    | ok _ =>
      intro t ns' hrun
      by_cases ht : t = s.nextTask
      · subst ht
        simp only [Running, Function.update_self, Option.some.injEq, ReceiveLoop.mk.injEq, and_true] at hrun
        subst hrun
        exact SortedMap.get?_insert_self
      · have hold : s.Running t ns' := by simpa [Running, ht] using hrun
        have hreg := h t ns' hold
        have hne : ns' ≠ ns := by
          rintro rfl
          rw [hreg] at hns
          cases hns
        exact (SortedMap.get?_insert_of_ne hne).trans hreg

/-- Quitting aborts the loop it takes out. -/
theorem registered_quit (h : s.Registered) (topic : NamespaceId) : (s.quit topic).Registered := by
  unfold quit
  cases htopic : s.active.get? topic with
  | none => exact h
  | some state =>
    intro t ns hrun
    obtain ⟨hrun, ht⟩ := running_abortAll.1 hrun
    have hreg := h t ns hrun
    have hne : ns ≠ topic := by
      rintro rfl
      obtain rfl : state = ⟨t, t⟩ := Option.some.inj (htopic.symm.trans hreg)
      simp at ht
    exact (SortedMap.get?_filter_eq_self (by simp [hne])).trans hreg

theorem registered_shutdown (h : s.Registered) : s.shutdown.Registered := by
  intro t ns hrun
  obtain ⟨hrun, ht⟩ := running_abortAll.1 hrun
  have hrow := SortedMap.get?_eq_some.1 (h t ns hrun)
  exact absurd (List.mem_map.2 ⟨_, hrow, rfl⟩) ht

theorem registered_ends (h : s.Registered) {how : LoopEnd} (hends : s.ends t how = some s') : s'.Registered := by
  unfold ends at hends
  split at hends
  · cases hends
  · cases hends
    intro t' ns' hrun
    exact h t' ns' ((running_update (by simp)).1 hrun).2
  · cases hends

theorem safeCollect_collect_iff {how : LoopEnd} (htask : s.activeTasks t = some ⟨ns, .ended how⟩) :
    s.SafeCollect (.collect t) s' ↔ ∀ res, how = .returned res → ∀ t', ¬ s.Running t' ns := by
  constructor
  · rintro hsafe res rfl
    exact hsafe t ns res rfl htask
  · intro hsafe t₁ ns₁ res heq htask₁
    cases heq
    rw [htask] at htask₁
    cases htask₁
    exact hsafe res rfl

/-- Collecting the result of a loop takes out whatever is registered under its namespace. -/
theorem registered_collect_iff (h : s.Registered) (hcollect : s.collect t = some s') :
    s'.Registered ↔ s.SafeCollect (.collect t) s' := by
  unfold collect at hcollect
  split at hcollect
  next ns how htask =>
    rw [safeCollect_collect_iff htask]
    have hafter : ∀ {active : SortedMap NamespaceId ActiveState} {t' : Nat} {ns' : NamespaceId},
        (⟨active, Function.update s.activeTasks t none, s.nextTask⟩ : GossipState).Running t' ns' ↔
          s.Running t' ns' := by
      intro active t' ns'
      rw [running_update (by simp)]
      refine and_iff_right_of_imp ?_
      rintro hrun rfl
      rw [htask] at hrun
      cases hrun
    cases how with
    | cancelled =>
      cases hcollect
      exact iff_of_true (fun t' ns' hrun => h t' ns' (hafter.1 hrun)) (by simp)
    | panicked =>
      cases hcollect
      exact iff_of_true (fun t' ns' hrun => h t' ns' (hafter.1 hrun)) (by simp)
    | returned res =>
      cases hcollect
      have hgone : (s.active.filter fun r => r.1 ≠ ns).get? ns = none := SortedMap.get?_filter_eq_none (by simp)
      constructor
      · intro hreg _ _ t' hrun
        have hsome : (s.active.filter fun r => r.1 ≠ ns).get? ns = some ⟨t', t'⟩ := hreg t' ns (hafter.2 hrun)
        rw [hgone] at hsome
        cases hsome
      · intro hsafe t' ns' hrun
        have hold : s.Running t' ns' := hafter.1 hrun
        have hne : ns' ≠ ns := by
          rintro rfl
          exact hsafe res rfl t' hold
        exact (SortedMap.get?_filter_eq_self (by simp [hne])).trans (h t' ns' hold)
  next => cases hcollect

/-- Step: what keeps every running loop registered. -/
theorem registered_step (h : s.Registered) {a : Action} (hstep : step s a = some s') :
    s'.Registered ↔ s.SafeCollect a s' := by
  cases a with
  | join ns bootstrap answer =>
    cases hstep
    exact iff_of_true (registered_join h ns bootstrap answer) (by simp [SafeCollect])
  | quit topic =>
    cases hstep
    exact iff_of_true (registered_quit h topic) (by simp [SafeCollect])
  | shutdown =>
    cases hstep
    exact iff_of_true (registered_shutdown h) (by simp [SafeCollect])
  | ends t how => exact iff_of_true (registered_ends h hstep) (by simp [SafeCollect])
  | collect t => exact registered_collect_iff h hstep

/-! ## After quitting -/

/-- Nothing but a join registers a namespace. -/
theorem get?_active_step (hnone : s.active.get? ns = none) {a : Action} (hstep : step s a = some s')
    (hjoin : ∀ bootstrap answer, a ≠ .join ns bootstrap answer) : s'.active.get? ns = none := by
  cases a with
  | join ns' bootstrap answer =>
    have hne : ns ≠ ns' := by
      rintro rfl
      exact hjoin bootstrap answer rfl
    cases hstep
    unfold join
    split
    · exact hnone
    · split
      · exact hnone
      · exact (SortedMap.get?_insert_of_ne hne).trans hnone
  | quit topic =>
    cases hstep
    unfold quit
    split
    · exact SortedMap.get?_filter_of_none _ hnone
    · exact hnone
  | shutdown =>
    cases hstep
    rfl
  | ends t how =>
    simp only [step, ends] at hstep
    split at hstep
    · cases hstep
    · cases hstep
      exact hnone
    · cases hstep
  | collect t =>
    simp only [step, collect] at hstep
    split at hstep
    · split at hstep
      · cases hstep
        exact hnone
      · cases hstep
        exact hnone
      · cases hstep
        exact SortedMap.get?_filter_of_none _ hnone
    · cases hstep

theorem get?_active_runs {as : List Action} (hnone : s.active.get? ns = none) (h : runs step s as = some s')
    (hjoin : ∀ bootstrap answer, .join ns bootstrap answer ∉ as) : s'.active.get? ns = none := by
  induction as generalizing s with
  | nil =>
    cases h
    exact hnone
  | cons a as ih =>
    unfold runs at h
    split at h
    next s₁ hs₁ =>
      refine ih (get?_active_step hnone hs₁ ?_) h fun bootstrap answer hmem => hjoin _ _ (.tail _ hmem)
      rintro bootstrap answer rfl
      exact hjoin _ _ (.head _)
    next => cases h

theorem get?_active_quit (s : GossipState) (ns : NamespaceId) : (s.quit ns).active.get? ns = none := by
  unfold quit
  cases hns : s.active.get? ns with
  | none => exact hns
  | some state => exact SortedMap.get?_filter_eq_none (by simp)

/-- Joining a topic that is registered keeps its sender, whatever is answered. -/
theorem get?_active_join {state : ActiveState} (hstate : s.active.get? ns = some state)
    (bootstrap : List EndpointId) (answer : Except String Unit) :
    (s.join ns bootstrap answer).1.active.get? ns = some state := by
  unfold join
  rw [hstate]
  exact hstate

end Steps

/-! ## Whole runs -/

/-- Along the run, running loops are registered; after a quit none runs until the next join; and a join never
takes the sender of a registered topic. -/
structure LeavesTopics (as : List Action) : Prop where
  registered : ∀ done rest s, as = done ++ rest → runs step default done = some s → s.Registered
  left : ∀ done ns mid rest s, as = done ++ .quit ns :: mid ++ rest →
    (∀ bootstrap answer, .join ns bootstrap answer ∉ mid) →
    runs step default (done ++ .quit ns :: mid) = some s → ∀ t, ¬ s.Running t ns
  joined : ∀ done rest s ns state bootstrap answer, as = done ++ rest → runs step default done = some s →
    s.active.get? ns = some state → (s.join ns bootstrap answer).1.active.get? ns = some state

/-- **When leaving a topic leaves it** (gossip.rs:74, 106): if no loop's result is collected while another
loop of its namespace runs. -/
theorem leaves_topics_iff (as : List Action) : LeavesTopics as ↔ EveryStep step SafeCollect default as := by
  have hinit : (default : GossipState).Registered := fun t ns hrun => by cases hrun
  have hall : (∀ done rest s, as = done ++ rest → runs step default done = some s → s.Registered) ↔
    EveryStep step SafeCollect default as :=
    forall_runs_iff (J := fun _ => True) (fun _ _ _ _ _ => trivial)
      (fun _ a _ _ h hstep => registered_step (a := a) h hstep) as trivial hinit
  refine ⟨fun h => hall.1 h.registered, fun hsafe => ⟨hall.2 hsafe, ?_, ?_⟩⟩
  · intro done ns mid rest s hsplit hjoin hrun t hrunning
    have hreg : s.Registered := hall.2 hsafe _ rest s hsplit hrun
    obtain ⟨s₁, -, hmid⟩ := runs_append_eq_some.1 hrun
    have hnone := get?_active_runs (get?_active_quit s₁ ns) hmid hjoin
    rw [hreg t ns hrunning] at hnone
    cases hnone
  · intro done rest s ns state bootstrap answer _ _ hstate
    exact get?_active_join hstate bootstrap answer

/-- A topic is left and joined again before the end of its first loop is collected; then it is left for good,
and the second loop goes on. -/
theorem collected_loop_unregisters_another :
    let as : List Action := [.join zeros32 [] (.ok ()), .ends 0 (.returned (.ok ())), .quit zeros32,
      .join zeros32 [] (.ok ()), .collect 0, .quit zeros32]
    ¬ LeavesTopics as ∧ ∃ s, runs step default as = some s ∧ s.Running 1 zeros32 ∧ s.active.get? zeros32 = none := by
  intro as
  obtain ⟨s, hrun, hrunning, hnone⟩ :
      ∃ s, runs step default as = some s ∧ s.Running 1 zeros32 ∧ s.active.get? zeros32 = none :=
    ⟨_, rfl, rfl, rfl⟩
  refine ⟨fun h => ?_, s, hrun, hrunning, hnone⟩
  exact h.left (as.take 5) zeros32 [] [] s rfl (fun _ _ hmem => by cases hmem) hrun 1 hrunning

end GossipState

end PdnStore.Engine

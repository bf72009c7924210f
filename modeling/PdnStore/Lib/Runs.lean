import Mathlib.Logic.Basic
import Mathlib.Data.List.Induction
import Mathlib.Logic.Function.Basic

/-!
# Runs of a transition function

`runs step s as` takes the actions of `as` in order and is `none` when one of them is not possible.
`EveryStep` speaks about each step of such a run. The rules below carry an invariant along a run; where no
action is refused, a run is the left fold of the transition function. A run of steps that undo nothing may
be cut short and started again (`Restartable`), and a part of the state that only some actions touch has runs
of its own (`view_foldl`). `Consumed` carries an invariant along one loop that takes its input item by item.
-/

section Runs

variable {σ α : Type*} {step : σ → α → Option σ} {I J : σ → Prop} {P Q : σ → α → σ → Prop} {s s' : σ}

/-- Take the actions in order. -/
def runs (step : σ → α → Option σ) (s : σ) : List α → Option σ
  | [] => some s
  | a :: as =>
    match step s a with
    | some s' => runs step s' as
    | none => none

/-- Every step the run takes, up to the first refused action, satisfies `P`. -/
def EveryStep (step : σ → α → Option σ) (P : σ → α → σ → Prop) (s : σ) : List α → Prop
  | [] => True
  | a :: as => ∀ s', step s a = some s' → P s a s' ∧ EveryStep step P s' as

/-- A run in two parts. -/
theorem runs_append_eq_some {as bs : List α} : runs step s (as ++ bs) = some s' ↔
    ∃ s₁, runs step s as = some s₁ ∧ runs step s₁ bs = some s' := by
  induction as generalizing s with
  | nil => simp [runs]
  | cons a as ih =>
    simp only [List.cons_append, runs]
    cases step s a with
    | none => simp
    | some s₁ => exact ih

/-- The steps of a run in two parts. -/
theorem everyStep_append {as bs : List α} : EveryStep step P s (as ++ bs) ↔
    EveryStep step P s as ∧ ∀ s₁, runs step s as = some s₁ → EveryStep step P s₁ bs := by
  induction as generalizing s with
  | nil => simp [EveryStep, runs]
  | cons a as ih =>
    simp only [List.cons_append, EveryStep, runs]
    cases step s a with
    | none => simp
    | some s₁ => simp [ih, and_assoc]

/-- Invariant rule. -/
theorem invariant_runs (hstep : ∀ s a s', I s → step s a = some s' → I s') (as : List α) (hs : I s)
    (h : runs step s as = some s') : I s' := by
  induction as generalizing s with
  | nil =>
    cases h
    exact hs
  | cons a as ih =>
    unfold runs at h
    split at h
    next s₁ heq => exact ih (hstep _ _ _ hs heq) h
    next => cases h

/-- Invariant rule for the runs whose steps all satisfy `P`. -/
theorem invariant_of_everyStep (hstep : ∀ s a s', I s → step s a = some s' → P s a s' → I s') (as : List α)
    (hs : I s) (hP : EveryStep step P s as) (h : runs step s as = some s') : I s' := by
  induction as generalizing s with
  | nil =>
    cases h
    exact hs
  | cons a as ih =>
    unfold runs at h
    split at h
    next s₁ heq =>
      obtain ⟨hPa, hPas⟩ := hP s₁ heq
      exact ih (hstep _ _ _ hs heq hPa) hPas h
    next => cases h

/-- What an invariant gives of one step, it gives of every step of a run. -/
theorem everyStep_congr (hstep : ∀ s a s', I s → step s a = some s' → I s')
    (hPQ : ∀ s a s', I s → step s a = some s' → (P s a s' ↔ Q s a s')) (as : List α) (hs : I s) :
    EveryStep step P s as ↔ EveryStep step Q s as := by
  induction as generalizing s with
  | nil => exact Iff.rfl
  | cons a as ih =>
    refine forall_congr' fun s' => forall_congr' fun heq => ?_
    rw [hPQ _ _ _ hs heq, ih (hstep _ _ _ hs heq)]

/-- Where a step raises a flag exactly when it breaks `P`, and no step lowers it, the flag tells whether
every step of the run satisfied `P`. -/
theorem flag_iff_everyStep {flag : σ → Prop}
    (hstep : ∀ s a s', I s → step s a = some s' → I s' ∧ (flag s' ↔ flag s ∨ ¬ P s a s')) (as : List α)
    (hs : I s) (h : runs step s as = some s') : flag s' ↔ flag s ∨ ¬ EveryStep step P s as := by
  induction as generalizing s with
  | nil =>
    cases h
    simp [EveryStep]
  | cons a as ih =>
    unfold runs at h
    split at h
    next s₁ heq =>
      obtain ⟨hs₁, hflag⟩ := hstep _ _ _ hs heq
      have hevery : EveryStep step P s (a :: as) ↔ P s a s₁ ∧ EveryStep step P s₁ as := by
        simp [EveryStep, heq]
      rw [ih hs₁ h, hflag, hevery, not_and_or, or_assoc]
    next => cases h

/-- Where a step keeps `I` and satisfies `Q` exactly when it satisfies `P`, a run stays inside `I` with all its
steps satisfying `Q` exactly when every step of it satisfies `P`. `J` is an invariant in any case. -/
theorem forall_runs_and_everyStep_iff (hinv : ∀ s a s', J s → step s a = some s' → J s')
    (hstep : ∀ s a s', J s → I s → step s a = some s' → (I s' ∧ Q s a s' ↔ P s a s')) (as : List α)
    (hJ : J s) (hI : I s) :
    (∀ done rest s', as = done ++ rest → runs step s done = some s' → I s') ∧ EveryStep step Q s as ↔
      EveryStep step P s as := by
  induction as generalizing s with
  | nil =>
    refine iff_of_true ⟨fun done rest s' hsplit h => ?_, trivial⟩ trivial
    obtain ⟨rfl, -⟩ := List.append_eq_nil_iff.1 hsplit.symm
    cases h
    exact hI
  | cons a as ih =>
    constructor
    · rintro ⟨h, hQ⟩ s₁ hs₁
      have hI₁ : I s₁ := h [a] as s₁ rfl (by simp [runs, hs₁])
      obtain ⟨hQ₁, hrest⟩ := hQ s₁ hs₁
      refine ⟨(hstep s a s₁ hJ hI hs₁).1 ⟨hI₁, hQ₁⟩, (ih (hinv s a s₁ hJ hs₁) hI₁).1 ⟨?_, hrest⟩⟩
      intro done rest s' hsplit hdone
      exact h (a :: done) rest s' (by rw [hsplit, List.cons_append]) (by simpa [runs, hs₁] using hdone)
    · intro h
      have hnext : ∀ s₁, step s a = some s₁ → (I s₁ ∧ Q s a s₁) ∧
          (∀ done rest s', as = done ++ rest → runs step s₁ done = some s' → I s') ∧ EveryStep step Q s₁ as := by
        intro s₁ hs₁
        obtain ⟨hP, hrest⟩ := h s₁ hs₁
        have hIQ := (hstep s a s₁ hJ hI hs₁).2 hP
        exact ⟨hIQ, (ih (hinv s a s₁ hJ hs₁) hIQ.1).2 hrest⟩
      refine ⟨fun done rest s' hsplit hdone => ?_, fun s₁ hs₁ => ⟨(hnext s₁ hs₁).1.2, (hnext s₁ hs₁).2.2⟩⟩
      cases done with
      | nil =>
        cases hdone
        exact hI
      | cons b done =>
        rw [List.cons_append, List.cons.injEq] at hsplit
        obtain ⟨rfl, hsplit⟩ := hsplit
        unfold runs at hdone
        split at hdone
        next s₁ hs₁ => exact (hnext s₁ hs₁).2.1 done rest s' hsplit hdone
        next => cases hdone

theorem everyStep_true (as : List α) : EveryStep step (fun _ _ _ => True) s as := by
  induction as generalizing s with
  | nil => trivial
  | cons a as ih => exact fun s' _ => ⟨trivial, ih⟩

/-- Where a step keeps `I` exactly when it satisfies `P`, a run stays inside `I` exactly when every step of it
satisfies `P`. -/
theorem forall_runs_iff (hinv : ∀ s a s', J s → step s a = some s' → J s')
    (hstep : ∀ s a s', J s → I s → step s a = some s' → (I s' ↔ P s a s')) (as : List α) (hJ : J s) (hI : I s) :
    (∀ done rest s', as = done ++ rest → runs step s done = some s' → I s') ↔ EveryStep step P s as := by
  rw [← forall_runs_and_everyStep_iff (Q := fun _ _ _ => True) hinv ?_ as hJ hI]
  · exact (and_iff_left (everyStep_true as)).symm
  · intro s a s' hJ hI hs'
    rw [and_true]
    exact hstep s a s' hJ hI hs'

/-- Where a step keeps `I` exactly under the condition `C`, a run stays inside `I` exactly when every step
of it meets `C`. -/
theorem forall_reached_iff {next : σ → α → σ} {C : σ → α → Prop}
    (hstep : ∀ s a, I s → (I (next s a) ↔ C s a)) (as : List α) (hs : I s) :
    (∀ done rest, as = done ++ rest → I (done.foldl next s)) ↔
      ∀ done a rest, as = done ++ a :: rest → C (done.foldl next s) a := by
  constructor
  · intro h done a rest heq
    have hbefore : I (done.foldl next s) := h done (a :: rest) heq
    have hafter := h (done ++ [a]) rest (by simp [heq])
    rw [List.foldl_append] at hafter
    exact (hstep _ a hbefore).1 hafter
  · intro h done
    -- on the steps taken, from the last one back
    induction done using List.reverseRecOn with
    | nil => exact fun _ _ => hs
    | append_singleton done a ih =>
      intro rest heq
      have heq' : as = done ++ a :: rest := by simp [heq]
      rw [List.foldl_append]
      exact (hstep _ a (ih _ heq')).2 (h done a rest heq')

end Runs

/-! ## Views -/

/-- A part of the state that some actions work on as they do on the whole, and the others leave alone, is
what its own actions make of it. -/
theorem view_foldl {σ τ α : Type*} {next : σ → α → σ} {next' : τ → α → τ} (view : σ → τ) (mine : α → Bool)
    {I : σ → Prop} (hI : ∀ s a, I s → I (next s a))
    (hmine : ∀ s a, I s → mine a = true → view (next s a) = next' (view s) a)
    (hothers : ∀ s a, I s → mine a = false → view (next s a) = view s) {s : σ} (hs : I s) (as : List α) :
    view (as.foldl next s) = (as.filter mine).foldl next' (view s) := by
  induction as generalizing s with
  | nil => rfl
  | cons a as ih =>
    rw [List.foldl_cons, ih (hI s a hs)]
    cases ha : mine a with
    | true => rw [List.filter_cons_of_pos ha, List.foldl_cons, hmine s a hs ha]
    | false => rw [List.filter_cons_of_neg (by simp [ha]), hothers s a hs ha]

/-! ## Restarts -/

section Restarts

variable {σ α : Type*} {next : σ → α → σ} {steps : List α} {s : σ}

/-- A step has nothing to do when it is taken again, and no step undoes an earlier one. -/
structure Restartable (next : σ → α → σ) (steps : List α) : Prop where
  again : ∀ a ∈ steps, ∀ s, next (next s a) a = next s a
  keeps : steps.Pairwise fun a b => ∀ s, next s a = s → next (next s b) a = next s b

/-- Steps that have nothing to do. -/
theorem foldl_of_fixed (h : ∀ a ∈ steps, next s a = s) : steps.foldl next s = s := by
  induction steps with
  | nil => rfl
  | cons a steps ih =>
    rw [List.foldl_cons, h a (.head _)]
    exact ih fun b hb => h b (.tail _ hb)

namespace Restartable

theorem take (h : Restartable next steps) (k : Nat) : Restartable next (steps.take k) :=
  ⟨fun a ha => h.again a (List.mem_of_mem_take ha), h.keeps.sublist (List.take_sublist k steps)⟩

/-- What was done stays done. -/
theorem done (h : Restartable next steps) (s : σ) :
    ∀ a ∈ steps, next (steps.foldl next s) a = steps.foldl next s := by
  -- the last step is done by itself, and keeps what was done before it
  induction steps using List.reverseRecOn with
  | nil => exact fun _ ha => absurd ha List.not_mem_nil
  | append_singleton steps b ih =>
    have hbefore : Restartable next steps :=
      ⟨fun a ha => h.again a (List.mem_append_left _ ha), (List.pairwise_append.1 h.keeps).1⟩
    intro a ha
    rw [List.foldl_append, List.foldl_cons, List.foldl_nil]
    rcases List.mem_append.1 ha with ha | hb
    · exact (List.pairwise_append.1 h.keeps).2.2 a ha b (List.mem_singleton_self b) _ (ih hbefore a ha)
    · rw [List.mem_singleton.1 hb]
      exact h.again b (List.mem_append_right _ (List.mem_singleton_self b)) _

/-- Taking the first steps and starting again comes to taking all of them. -/
theorem restart (h : Restartable next steps) (k : Nat) (s : σ) :
    steps.foldl next ((steps.take k).foldl next s) = steps.foldl next s := by
  have hsplit : ∀ s, steps.foldl next s = (steps.drop k).foldl next ((steps.take k).foldl next s) := by
    intro s
    rw [← List.foldl_append, List.take_append_drop]
  rw [hsplit, foldl_of_fixed ((h.take k).done s), ← hsplit]

/-- However often it is cut short. -/
theorem restarts (h : Restartable next steps) (stops : List Nat) (s : σ) :
    steps.foldl next (stops.foldl (fun s k => (steps.take k).foldl next s) s) = steps.foldl next s := by
  induction stops generalizing s with
  | nil => rfl
  | cons k stops ih => rw [List.foldl_cons, ih, h.restart]

/-- Once more changes nothing. -/
theorem foldl_foldl (h : Restartable next steps) (s : σ) :
    steps.foldl next (steps.foldl next s) = steps.foldl next s := foldl_of_fixed (h.done s)

end Restartable

end Restarts

/-! ## States that are maps -/

section Maps

variable {α β : Type*} [DecidableEq α] {f : α → Option β} {a b : α} {u v : β}

/-- Reading a map after one entry was set. -/
theorem update_some_cases (h : Function.update f a (some v) b = some u) :
    (b = a ∧ u = v) ∨ (b ≠ a ∧ f b = some u) := by
  by_cases hb : b = a
  · subst hb
    rw [Function.update_self] at h
    exact .inl ⟨rfl, (Option.some.inj h).symm⟩
  · rw [Function.update_of_ne hb] at h
    exact .inr ⟨hb, h⟩

/-- Reading a map after one entry was taken out. -/
theorem of_update_none (h : Function.update f a none b = some u) : f b = some u := by
  by_cases hb : b = a
  · subst hb
    rw [Function.update_self] at h
    cases h
  · rwa [Function.update_of_ne hb] at h

end Maps

/-! ## Loops that read -/

section Consumed

variable {σ ρ τ : Type*} {loop : σ → List ρ → τ} {s₀ s s' : σ} {reads : List ρ}

/-- On its way from `s₀` to `s` the loop has read `reads`. -/
def Consumed (loop : σ → List ρ → τ) (s₀ s : σ) (reads : List ρ) : Prop :=
  ∀ rest, loop s₀ (reads ++ rest) = loop s rest

theorem consumed_nil : Consumed loop s s [] := fun _ => rfl

/-- One more iteration. -/
theorem Consumed.snoc {r : ρ} (h : Consumed loop s₀ s reads) (hr : ∀ rest, loop s (r :: rest) = loop s' rest) :
    Consumed loop s₀ s' (reads ++ [r]) := by
  intro rest
  rw [List.append_assoc, h, List.singleton_append, hr]

/-- The last iteration. -/
theorem Consumed.last {r : ρ} (h : Consumed loop s₀ s reads) : loop s₀ (reads ++ [r]) = loop s [r] := h [r]

/-- Nothing more to read. -/
theorem Consumed.ended (h : Consumed loop s₀ s reads) : loop s₀ reads = loop s [] := by
  have hnil := h []
  rwa [List.append_nil] at hnil

end Consumed

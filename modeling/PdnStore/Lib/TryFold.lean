import Mathlib.Order.Basic

/-!
# Loops that stop at the first failure

`tryFold step s l` is `for a in l { step(&mut s, a)? }`: the state is threaded through, and a failing
step ends the loop with the state it had reached. `List.mapM` in `Except` is the same loop when
nothing is written.
-/

section TryFold

variable {σ α φ : Type*} {step : σ → α → σ × Option φ} {s s' : σ} {l : List α}

/-- Run `step` along the list; stop at the first failure, keeping the state reached. -/
def tryFold (step : σ → α → σ × Option φ) (s : σ) : List α → σ × Option φ
  | [] => (s, none)
  | a :: l =>
    match step s a with
    | (s, none) => tryFold step s l
    | (s, some e) => (s, some e)

/-- What every step keeps, failing or not, the loop keeps. -/
theorem tryFold_preserves {P : σ → Prop} (hstep : ∀ s, ∀ a ∈ l, P s → P (step s a).1) (hs : P s) :
    P (tryFold step s l).1 := by
  induction l generalizing s with
  | nil => exact hs
  | cons a l ih =>
    have h1 := hstep s a List.mem_cons_self hs
    simp only [tryFold]
    split
    next heq => rw [heq] at h1; exact ih (fun s b hb => hstep s b (List.mem_cons_of_mem a hb)) h1
    next heq => rw [heq] at h1; exact h1

/-- Loop rule: an invariant on the elements done so far, kept by steps that do not fail. -/
theorem tryFold_invariant {I : List α → σ → Prop} (done : List α)
    (hstep : ∀ done a rest s, done ++ a :: rest = l → I done s → ∃ s', step s a = (s', none) ∧
      I (done ++ [a]) s')
    (rest : List α) (hl : done ++ rest = l) (hs : I done s) :
    ∃ s', tryFold step s rest = (s', none) ∧ I l s' := by
  induction rest generalizing done s with
  | nil =>
    rw [List.append_nil] at hl
    exact ⟨s, rfl, hl ▸ hs⟩
  | cons a rest ih =>
    obtain ⟨s', heq, hs'⟩ := hstep done a rest s hl hs
    obtain ⟨s'', htail, hI⟩ := ih (done ++ [a]) (by simpa using hl) hs'
    exact ⟨s'', by simp only [tryFold, heq, htail], hI⟩

/-- Loop rule for a loop known to have run to its end: an invariant on the elements done so far. -/
theorem tryFold_done {I : List α → σ → Prop}
    (hstep : ∀ done a s s', step s a = (s', none) → I done s → I (done ++ [a]) s')
    (done : List α) (hs : I done s) (h : tryFold step s l = (s', none)) : I (done ++ l) s' := by
  induction l generalizing done s with
  | nil =>
    cases h
    rwa [List.append_nil]
  | cons a l ih =>
    rcases hs₁ : step s a with ⟨s₁, o⟩
    simp only [tryFold, hs₁] at h
    cases o with
    | none =>
      have := ih (done ++ [a]) (hstep done a s s₁ hs₁ hs) h
      rwa [List.append_assoc] at this
    | some e => cases h

/-- A failed loop failed at one of its steps. -/
theorem exists_step_of_tryFold_error {e : φ} (h : (tryFold step s l).2 = some e) :
    ∃ s', ∃ a ∈ l, (step s' a).2 = some e := by
  induction l generalizing s with
  | nil => cases h
  | cons a l ih =>
    rcases hs₁ : step s a with ⟨s₁, o⟩
    simp only [tryFold, hs₁] at h
    cases o with
    | none =>
      obtain ⟨s', b, hb, hfail⟩ := ih h
      exact ⟨s', b, List.mem_cons_of_mem a hb, hfail⟩
    | some e' => exact ⟨s, a, List.mem_cons_self, by rw [hs₁]; exact h⟩

/-- Simulation: two loops whose steps keep a relation and fail alike. -/
theorem tryFold_rel {σ' : Type*} {step' : σ' → α → σ' × Option φ} {P : σ → σ' → Prop} {t : σ'}
    (hstep : ∀ s t, P s t → ∀ a ∈ l, P (step s a).1 (step' t a).1 ∧ (step s a).2 = (step' t a).2)
      (hs : P s t) :
    P (tryFold step s l).1 (tryFold step' t l).1 ∧ (tryFold step s l).2 = (tryFold step' t l).2 := by
  induction l generalizing s t with
  | nil => exact ⟨hs, rfl⟩
  | cons a l ih =>
    obtain ⟨h1, h2⟩ := hstep s t hs a List.mem_cons_self
    rcases hs₁ : step s a with ⟨s₁, o₁⟩
    rcases ht₁ : step' t a with ⟨t₁, o₂⟩
    rw [hs₁, ht₁] at h1 h2
    cases o₁ <;> cases h2 <;> simp only [tryFold, hs₁, ht₁]
    · exact ih (fun s t hst b hb => hstep s t hst b (List.mem_cons_of_mem a hb)) h1
    · exact ⟨h1, trivial⟩

end TryFold

section MapM

universe u

variable {ε : Type*} {α β : Type u} {f : α → Except ε β} {l : List α}

theorem mapM_ok {g : α → β} (h : ∀ a ∈ l, f a = .ok (g a)) : l.mapM f = .ok (l.map g) := by
  induction l with
  | nil => rfl
  | cons a l ih =>
    rw [List.mapM_cons, h a List.mem_cons_self, ih fun b hb => h b (List.mem_cons_of_mem a hb)]
    rfl

theorem bind_eq_ok {x : Except ε α} {b : β} : (x >>= f) = .ok b ↔ ∃ a, x = .ok a ∧ f a = .ok b := by
  cases x with
  | error e =>
    constructor
    · intro h; cases h
    · rintro ⟨_, ⟨⟩, _⟩
  | ok a =>
    constructor
    · intro h; exact ⟨a, rfl, h⟩
    · rintro ⟨_, ⟨⟩, hf⟩; exact hf

theorem mem_of_mapM_ok {bs : List β} (h : l.mapM f = .ok bs) : ∀ b ∈ bs, ∃ a ∈ l, f a = .ok b := by
  induction l generalizing bs with
  | nil => cases h; simp
  | cons a l ih =>
    rw [List.mapM_cons] at h
    obtain ⟨b, hb, h⟩ := bind_eq_ok.1 h
    obtain ⟨bs', hbs', h⟩ := bind_eq_ok.1 h
    cases h
    intro b' hb'
    rcases List.mem_cons.1 hb' with rfl | hb'
    · exact ⟨a, List.mem_cons_self, hb⟩
    · obtain ⟨a', ha', hf⟩ := ih hbs' b' hb'
      exact ⟨a', List.mem_cons_of_mem a ha', hf⟩

theorem exists_of_mapM_error {e : ε} (h : l.mapM f = .error e) : ∃ a ∈ l, f a = .error e := by
  induction l with
  | nil => cases h
  | cons a l ih =>
    rw [List.mapM_cons] at h
    cases ha : f a with
    | error e' =>
      rw [ha] at h
      cases h
      exact ⟨a, List.mem_cons_self, ha⟩
    | ok b =>
      cases hl : l.mapM f with
      | error e' =>
        rw [ha, hl] at h
        cases h
        obtain ⟨a', ha', hf⟩ := ih hl
        exact ⟨a', List.mem_cons_of_mem a ha', hf⟩
      | ok bs =>
        rw [ha, hl] at h
        cases h

theorem ok_of_mapM_ok {bs : List β} (h : l.mapM f = .ok bs) : ∀ a ∈ l, ∃ b ∈ bs, f a = .ok b := by
  induction l generalizing bs with
  | nil => simp
  | cons a l ih =>
    rw [List.mapM_cons] at h
    obtain ⟨b, hb, h⟩ := bind_eq_ok.1 h
    obtain ⟨bs', hbs', h⟩ := bind_eq_ok.1 h
    cases h
    intro a' ha'
    rcases List.mem_cons.1 ha' with rfl | ha'
    · exact ⟨b, List.mem_cons_self, hb⟩
    · obtain ⟨b', hb', hf⟩ := ih hbs' a' ha'
      exact ⟨b', List.mem_cons_of_mem b hb', hf⟩

end MapM

import Mathlib.Data.List.Lex
import Mathlib.Order.Cover
import Mathlib.Order.BoundedOrder.Basic

/-!
# Intervals of the lexicographic order on lists

Two facts about `List` over a linear order. Strings that begin with blocks of equal length compare
block by block (`append_lt_append_iff`). And the interval from `q c ⊤ … ⊤` up to `q d ⊥ … ⊥`, where
`d` covers `c`, is the strings that extend its lower end, and besides them the proper initial
segments of its upper end that still reach past `q` (`between_iff`): "increment the last digit that
can be incremented" is not the least string above all extensions when digits after it were reset.
-/

namespace LexOrder

variable {α : Type*} [LinearOrder α]

theorem append_lt_append_iff {p p' r r' : List α} (h : p.length = p'.length) :
    p ++ r < p' ++ r' ↔ p < p' ∨ (p = p' ∧ r < r') := by
  induction p generalizing p' with
  | nil =>
    obtain rfl := List.eq_nil_of_length_eq_zero h.symm
    simp
  | cons a p ih =>
    cases p' with
    | nil => cases h
    | cons b p' =>
      have ih := ih (Nat.succ.inj h)
      simp only [List.cons_append, List.cons_lt_cons_iff, ih, List.cons.injEq]
      tauto

/-- Between two pairs with the same first component. -/
theorem sandwich {a x : α} {P Q : Prop} :
    ((a < x ∨ (a = x ∧ P)) ∧ (x < a ∨ (x = a ∧ Q))) ↔ x = a ∧ P ∧ Q := by
  rcases lt_trichotomy a x with h | rfl | h
  · simp [h.asymm, h.ne']
  · simp
  · simp [h.asymm, h.ne, h.ne']

theorem cons_le_cons_iff {a b : α} {l l' : List α} : a :: l ≤ b :: l' ↔ a < b ∨ (a = b ∧ l ≤ l') := by
  rw [← not_lt, List.cons_lt_cons_iff, ← not_lt (a := l') (b := l)]
  rcases lt_trichotomy a b with h | rfl | h
  · simp [h, h.asymm, h.ne']
  · simp
  · simp [h, h.asymm, h.ne']

theorem not_cons_le_nil {a : α} {l : List α} : ¬ a :: l ≤ [] := by
  rw [not_le]
  exact List.nil_lt_cons a l

section Bounded

variable [BoundedOrder α] {k : List α} {m : ℕ}

theorem replicate_top_le_iff : List.replicate m ⊤ ≤ k ↔ List.replicate m ⊤ <+: k := by
  induction m generalizing k with
  | zero => exact ⟨fun _ => List.nil_prefix, fun _ => not_lt.1 (List.not_lt_nil k)⟩
  | succ m ih =>
    cases k with
    | nil => simp [List.replicate_succ, not_cons_le_nil]
    | cons b k =>
      rw [List.replicate_succ, cons_le_cons_iff, List.cons_prefix_cons, ih]
      simp [not_top_lt]

theorem lt_replicate_bot_iff : k < List.replicate m ⊥ ↔ ∃ j < m, k = List.replicate j ⊥ := by
  induction m generalizing k with
  | zero => simp
  | succ m ih =>
    cases k with
    | nil => exact ⟨fun _ => ⟨0, m.succ_pos, rfl⟩, fun _ => by simp [List.replicate_succ]⟩
    | cons b k =>
      rw [List.replicate_succ, List.cons_lt_cons_iff, ih]
      constructor
      · rintro (h | ⟨rfl, j, hj, rfl⟩)
        · exact absurd h not_lt_bot
        · exact ⟨j + 1, Nat.succ_lt_succ hj, rfl⟩
      · rintro ⟨j, hj, heq⟩
        cases j with
        | zero => cases heq
        | succ j =>
          rw [List.replicate_succ, List.cons.injEq] at heq
          exact .inr ⟨heq.1, j, Nat.lt_of_succ_lt_succ hj, heq.2⟩

theorem between_iff {q : List α} {c d : α} (hcd : c ⋖ d) :
    (q ++ c :: List.replicate m ⊤ ≤ k ∧ k < q ++ d :: List.replicate m ⊥) ↔
      q ++ c :: List.replicate m ⊤ <+: k ∨ ∃ j < m, k = q ++ d :: List.replicate j ⊥ := by
  induction q generalizing k with
  | nil =>
    cases k with
    | nil => simp [not_cons_le_nil]
    | cons b k =>
      simp only [List.nil_append, cons_le_cons_iff, List.cons_lt_cons_iff, List.cons_prefix_cons,
        replicate_top_le_iff, lt_replicate_bot_iff, List.cons.injEq]
      constructor
      · rintro ⟨hcb | ⟨rfl, hpre⟩, hbd⟩
        · rcases hbd with hbd | ⟨rfl, j, hj, rfl⟩
          · exact absurd hbd (hcd.2 hcb)
          · exact .inr ⟨j, hj, rfl, rfl⟩
        · exact .inl ⟨rfl, hpre⟩
      · rintro (⟨rfl, hpre⟩ | ⟨j, hj, rfl, rfl⟩)
        · exact ⟨.inr ⟨rfl, hpre⟩, .inl hcd.1⟩
        · exact ⟨.inl hcd.1, .inr ⟨rfl, j, hj, rfl⟩⟩
  | cons a q ih =>
    cases k with
    | nil => simp [not_cons_le_nil]
    | cons b k =>
      have ih := ih (k := k)
      simp only [List.cons_append, cons_le_cons_iff, List.cons_lt_cons_iff, List.cons_prefix_cons,
        List.cons.injEq]
      constructor
      · rintro ⟨hab | ⟨rfl, hle⟩, hba | ⟨heq, hlt⟩⟩
        · exact absurd hba hab.asymm
        · exact absurd heq hab.ne'
        · exact absurd hba (lt_irrefl _)
        · rcases ih.1 ⟨hle, hlt⟩ with h | ⟨j, hj, rfl⟩
          · exact .inl ⟨rfl, h⟩
          · exact .inr ⟨j, hj, rfl, rfl⟩
      · rintro (⟨rfl, h⟩ | ⟨j, hj, rfl, rfl⟩)
        · obtain ⟨hle, hlt⟩ := ih.2 (.inl h)
          exact ⟨.inr ⟨rfl, hle⟩, .inr ⟨rfl, hlt⟩⟩
        · obtain ⟨hle, hlt⟩ := ih.2 (.inr ⟨j, hj, rfl⟩)
          exact ⟨.inr ⟨rfl, hle⟩, .inr ⟨rfl, hlt⟩⟩

end Bounded

end LexOrder

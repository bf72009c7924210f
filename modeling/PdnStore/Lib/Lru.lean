import Mathlib.Data.List.Dedup

/-!
# The most recently used

`distinct l` lists the elements of a history, each once, latest first. `lruTouch n` is what a cache of `n`
does with a use: an element it holds moves to the front, a new one is put in front and, if the cache is full,
the last one goes. A cache that starts empty holds the first `n` of `distinct` (`take_distinct_concat`).
-/

section Lru

variable {α : Type*} [DecidableEq α] {l : List α} {a : α}

/-- The elements of a history that starts with the oldest, each once, the latest use first. -/
def distinct (l : List α) : List α := l.dedup.reverse

/-- Use an element. -/
def lruTouch (n : Nat) (l : List α) (a : α) : List α :=
  if a ∈ l then a :: l.filter (· ≠ a)
  else if l.length < n then a :: l
  else a :: l.dropLast

theorem dedup_concat (l : List α) (a : α) : (l ++ [a]).dedup = l.dedup.filter (· ≠ a) ++ [a] := by
  induction l with
  | nil => rfl
  | cons b l ih =>
    by_cases hb : b ∈ l
    · rw [List.cons_append, List.dedup_cons_of_mem (List.mem_append_left _ hb), ih, List.dedup_cons_of_mem hb]
    · by_cases hba : b = a
      · subst hba
        rw [List.cons_append, List.dedup_cons_of_mem (by simp), ih, List.dedup_cons_of_notMem hb]
        simp
      · rw [List.cons_append, List.dedup_cons_of_notMem (by simp [hb, hba]), ih, List.dedup_cons_of_notMem hb]
        simp [hba]

theorem distinct_concat (l : List α) (a : α) : distinct (l ++ [a]) = a :: (distinct l).filter (· ≠ a) := by
  simp [distinct, dedup_concat, List.filter_reverse]

theorem nodup_distinct (l : List α) : (distinct l).Nodup := List.nodup_reverse.2 l.nodup_dedup

omit [DecidableEq α] in
theorem dropLast_take_succ {n : Nat} (h : n < l.length) : (l.take (n + 1)).dropLast = l.take n := by
  rw [List.dropLast_eq_take, List.length_take, List.take_take]
  congr 1
  omega

/-- **A cache holds the most recently used.** -/
theorem take_distinct_concat (n : Nat) (l : List α) (a : α) :
    (distinct (l ++ [a])).take (n + 1) = lruTouch (n + 1) ((distinct l).take (n + 1)) a := by
  rw [distinct_concat, List.take_succ_cons]
  have hnodup := nodup_distinct l
  generalize distinct l = d at hnodup
  by_cases ha : a ∈ d
  · obtain ⟨x, y, rfl⟩ := List.append_of_mem ha
    have hx : a ∉ x := fun h => (List.nodup_append.1 hnodup).2.2 a h a (.head _) rfl
    have hy : a ∉ y := (List.nodup_cons.1 (List.nodup_append.1 hnodup).2.1).1
    have hx' : x.filter (· ≠ a) = x := List.filter_eq_self.2 fun b hb => by
      simpa using fun h : b = a => hx (h ▸ hb)
    have hy' : ∀ k, (y.take k).filter (· ≠ a) = y.take k := fun k => List.filter_eq_self.2 fun b hb => by
      simpa using fun h : b = a => hy (h ▸ List.mem_of_mem_take hb)
    have hyall : y.filter (· ≠ a) = y := List.filter_eq_self.2 fun b hb => by
      simpa using fun h : b = a => hy (h ▸ hb)
    have hleft : (x ++ a :: y).filter (· ≠ a) = x ++ y := by
      rw [List.filter_append, hx', List.filter_cons_of_neg (by simp), hyall]
    rw [hleft]
    rcases Nat.lt_or_ge n x.length with hlong | hshort
    · -- the last use of `a` is out of the cache
      have htake : (x ++ a :: y).take (n + 1) = x.take (n + 1) := List.take_append_of_le_length (by omega)
      have hnot : a ∉ x.take (n + 1) := fun h => hx (List.mem_of_mem_take h)
      have hfull : ¬ (x.take (n + 1)).length < n + 1 := by rw [List.length_take]; omega
      rw [htake, lruTouch, if_neg hnot, if_neg hfull, dropLast_take_succ hlong,
        List.take_append_of_le_length (by omega)]
    · obtain ⟨k, rfl⟩ : ∃ k, n = x.length + k := ⟨n - x.length, by omega⟩
      have htake : (x ++ a :: y).take (x.length + k + 1) = x ++ a :: y.take k := by
        rw [Nat.add_assoc, List.take_length_add_append, List.take_succ_cons]
      rw [htake, lruTouch, if_pos (by simp), List.filter_append, hx', List.filter_cons_of_neg (by simp), hy',
        List.take_length_add_append]
  · have hall : d.filter (· ≠ a) = d := List.filter_eq_self.2 fun b hb => by
      simpa using fun h : b = a => ha (h ▸ hb)
    have hnot : a ∉ d.take (n + 1) := fun h => ha (List.mem_of_mem_take h)
    rw [hall, lruTouch, if_neg hnot]
    split
    next hroom =>
      rw [List.length_take] at hroom
      rw [List.take_of_length_le (by omega), List.take_of_length_le (by omega)]
    next hfull =>
      rw [List.length_take] at hfull
      rw [dropLast_take_succ (by omega)]

end Lru

import Mathlib.Data.List.Basic

/-!
# Scans of an ordered table from either end

A cursor over the rows of a table is the list of rows it has not passed yet. `nextFilterMap` takes rows
from one end until the callback yields something. Draining a cursor that way, always from the same end,
yields the callback's results in that end's order (`drain_eq`), and an exhausted cursor stays exhausted.

`Yields next rest` speaks of any iterator: from each state, `next` takes the head off the list `rest` of what
is left. An iterator built on another is verified by computing its list from the other's.
-/

/-- The end rows are taken from. -/
inductive Direction where
  | asc
  | desc
deriving DecidableEq, Repr

section Scan

variable {α β : Type*}

/-- The rows in the order they are taken. -/
def Direction.order : Direction → List α → List α
  | .asc, l => l
  | .desc, l => l.reverse

@[simp] theorem Direction.order_nil (d : Direction) : d.order ([] : List α) = [] := by cases d <;> rfl

@[simp] theorem Direction.order_order (d : Direction) (l : List α) : d.order (d.order l) = l := by
  cases d <;> simp [Direction.order]

@[simp] theorem Direction.length_order (d : Direction) (l : List α) : (d.order l).length = l.length := by
  cases d <;> simp [Direction.order]

theorem Direction.filterMap_order (d : Direction) (f : α → Option β) (l : List α) :
    (d.order l).filterMap f = d.order (l.filterMap f) := by
  cases d <;> simp [Direction.order]

theorem Direction.filter_order (d : Direction) (p : α → Bool) (l : List α) :
    (d.order l).filter p = d.order (l.filter p) := by
  cases d <;> simp [Direction.order]

/-- Take rows from the front until the callback yields. -/
def popFilterMap (f : α → Option β) : List α → Option β × List α
  | [] => (none, [])
  | a :: l =>
    match f a with
    | some b => (some b, l)
    | none => popFilterMap f l

/-- The next result from that end, and the cursor after it. -/
def nextFilterMap (d : Direction) (f : α → Option β) (l : List α) : Option β × List α :=
  let (res, rest) := popFilterMap f (d.order l)
  (res, d.order rest)

/-- Call `next` until it yields nothing, at most `n` times. -/
def drain (d : Direction) (f : α → Option β) : Nat → List α → List β
  | 0, _ => []
  | n + 1, l =>
    match nextFilterMap d f l with
    | (some b, rest) => b :: drain d f n rest
    | (none, _) => []

variable {d : Direction} {f : α → Option β} {l : List α}

theorem popFilterMap_eq (l : List α) :
    (∃ b, (popFilterMap f l).1 = some b ∧ l.filterMap f = b :: (popFilterMap f l).2.filterMap f ∧
      (popFilterMap f l).2.length < l.length) ∨
    (popFilterMap f l = (none, []) ∧ l.filterMap f = []) := by
  induction l with
  | nil => exact .inr ⟨rfl, rfl⟩
  | cons a l ih =>
    cases ha : f a with
    | some b => exact .inl ⟨b, by simp [popFilterMap, ha], by simp [popFilterMap, ha], by simp [popFilterMap, ha]⟩
    | none =>
      simp only [popFilterMap, ha, List.filterMap_cons, List.length_cons]
      rcases ih with ⟨b, hb, hrest, hlen⟩ | ⟨hp, hl⟩
      · exact .inl ⟨b, hb, hrest, by omega⟩
      · exact .inr ⟨hp, hl⟩

/-- Enough calls yield everything, in order. -/
theorem drain_eq {n : Nat} (h : l.length < n) : drain d f n l = (d.order l).filterMap f := by
  induction n generalizing l with
  | zero => omega
  | succ n ih =>
    simp only [drain, nextFilterMap]
    rcases popFilterMap_eq (f := f) (d.order l) with ⟨b, hb, hrest, hlen⟩ | ⟨hp, hl⟩
    · rw [d.length_order] at hlen
      simp only [hb, hrest]
      rw [ih (by rw [d.length_order]; omega), d.order_order]
    · simp only [hp, hl]

/-- A scan that filters and maps has the results of the rows left. -/
theorem nextFilterMap_eq : (nextFilterMap d f l).1 = ((d.order l).filterMap f).head? ∧
    (d.order (nextFilterMap d f l).2).filterMap f = ((d.order l).filterMap f).tail := by
  simp only [nextFilterMap, d.order_order]
  rcases popFilterMap_eq (f := f) (d.order l) with ⟨b, hb, hrest, -⟩ | ⟨hp, hl⟩
  · simp [hb, hrest]
  · simp [hp, hl]

/-- A result costs a row. -/
theorem length_nextFilterMap {b : β} (h : (nextFilterMap d f l).1 = some b) :
    (nextFilterMap d f l).2.length < l.length := by
  simp only [nextFilterMap, d.length_order] at h ⊢
  rcases popFilterMap_eq (f := f) (d.order l) with ⟨-, -, -, hlen⟩ | ⟨hp, -⟩
  · rwa [d.length_order] at hlen
  · rw [hp] at h
    cases h

theorem nextFilterMap_of_none (h : (nextFilterMap d f l).1 = none) : (nextFilterMap d f l).2 = [] := by
  simp only [nextFilterMap] at h ⊢
  rcases popFilterMap_eq (f := f) (d.order l) with ⟨b, hb, -, -⟩ | ⟨hp, -⟩
  · rw [hb] at h
    cases h
  · rw [hp, d.order_nil]

end Scan

section Yields

variable {σ β : Type*} {next : σ → Option β × σ} {rest : σ → List β} {s : σ}

/-- From each state the iterator takes the head off the list of what is left. -/
def Yields (next : σ → Option β × σ) (rest : σ → List β) : Prop :=
  ∀ s, (next s).1 = (rest s).head? ∧ rest (next s).2 = (rest s).tail

/-- The state after `k` calls. -/
def afterCalls (next : σ → Option β × σ) : Nat → σ → σ
  | 0, s => s
  | k + 1, s => afterCalls next k (next s).2

theorem rest_afterCalls (h : Yields next rest) (k : Nat) (s : σ) : rest (afterCalls next k s) = (rest s).drop k := by
  induction k generalizing s with
  | zero => rfl
  | succ k ih => rw [afterCalls, ih, (h s).2, List.drop_tail]

/-- The `k`-th call yields the `k`-th element of the list. -/
theorem next_afterCalls (h : Yields next rest) (k : Nat) (s : σ) :
    (next (afterCalls next k s)).1 = (rest s)[k]? := by
  rw [(h _).1, rest_afterCalls h, List.head?_drop]

/-- An iterator that has ended stays so. -/
theorem next_of_ended (h : Yields next rest) {k m : Nat} (hkm : k ≤ m)
    (hended : (next (afterCalls next k s)).1 = none) : (next (afterCalls next m s)).1 = none := by
  rw [next_afterCalls h, List.getElem?_eq_none_iff] at hended ⊢
  omega

end Yields

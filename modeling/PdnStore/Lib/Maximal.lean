import Mathlib.Order.Minimal
import Mathlib.Order.Antichain
import Mathlib.Order.UpperLower.Closure

/-!
# Keeping the maximal elements of a stream

A set that is fed one element at a time and keeps only the elements nothing else
supersedes. `≤` is read as "is superseded by". The insertion both refuses (something held is
already at least as great) and evicts (everything at most the newcomer), and the order of
arrivals decides which of the two runs.

`Reduct S T` is the invariant that makes the result order-free: `S` is an antichain inside `T`
that dominates `T`. There is at most one such `S` (`Reduct.eq_maximals`), and the insertion keeps
it (`Reduct.insertMax`).
-/

namespace MaxSet

variable {α : Type*} [PartialOrder α] {S T : Set α} {a b : α}

/-- The elements of `T` that no other element of `T` supersedes. -/
def maximals (T : Set α) : Set α := {a | Maximal (· ∈ T) a}

open Classical in
/-- Refuse `a` if something held is at least as great; otherwise evict everything at most `a`. -/
noncomputable def insertMax (S : Set α) (a : α) : Set α :=
  if a ∈ lowerClosure S then S else insert a {x ∈ S | ¬ x ≤ a}

theorem insertMax_of_mem (h : a ∈ lowerClosure S) : insertMax S a = S := if_pos h

theorem insertMax_of_notMem (h : a ∉ lowerClosure S) :
    insertMax S a = insert a {x ∈ S | ¬ x ≤ a} := if_neg h

theorem insertMax_subset : insertMax S a ⊆ insert a S := by
  intro x hx
  by_cases h : a ∈ lowerClosure S
  · rw [insertMax_of_mem h] at hx
    exact Set.mem_insert_of_mem a hx
  · rw [insertMax_of_notMem h] at hx
    rcases hx with rfl | ⟨hx, -⟩
    · exact Set.mem_insert x S
    · exact Set.mem_insert_of_mem a hx

/-- Nothing stops being dominated by an insertion, and the newcomer becomes dominated. -/
theorem lowerClosure_insertMax : lowerClosure (insertMax S a) = lowerClosure (insert a S) := by
  apply le_antisymm (lowerClosure_mono insertMax_subset)
  rw [lowerClosure_le]
  by_cases h : a ∈ lowerClosure S
  · rw [insertMax_of_mem h]
    rintro x (rfl | hx)
    · exact h
    · exact subset_lowerClosure hx
  · rw [insertMax_of_notMem h]
    rintro x (rfl | hx)
    · exact subset_lowerClosure (Set.mem_insert x _)
    · by_cases hxa : x ≤ a
      · exact ⟨a, Set.mem_insert a _, hxa⟩
      · exact subset_lowerClosure (Set.mem_insert_of_mem a ⟨hx, hxa⟩)

theorem self_mem_lowerClosure_insertMax : a ∈ lowerClosure (insertMax S a) := by
  rw [lowerClosure_insertMax]
  exact subset_lowerClosure (Set.mem_insert a S)

theorem lowerClosure_le_insertMax : lowerClosure S ≤ lowerClosure (insertMax S a) := by
  rw [lowerClosure_insertMax]
  exact lowerClosure_mono (Set.subset_insert a S)

/-- An insertion keeps a set free of superseded elements. -/
theorem isAntichain_insertMax (h : IsAntichain (· ≤ ·) S) : IsAntichain (· ≤ ·) (insertMax S a) := by
  by_cases ha : a ∈ lowerClosure S
  · rwa [insertMax_of_mem ha]
  · rw [insertMax_of_notMem ha]
    refine (h.subset fun x hx => hx.1).insert ?_ ?_
    · rintro b ⟨-, hb⟩ -
      exact hb
    · rintro b ⟨hb, -⟩ - hab
      exact ha ⟨b, hb, hab⟩

/-- `S` is an antichain inside `T` that dominates `T`. -/
structure Reduct (S T : Set α) : Prop where
  antichain : IsAntichain (· ≤ ·) S
  subset : S ⊆ T
  cofinal : T ⊆ lowerClosure S

theorem Reduct.empty : Reduct (∅ : Set α) ∅ :=
  ⟨IsAntichain.empty, Set.Subset.rfl, Set.empty_subset _⟩

/-- A reduct is determined by the set it reduces: it is the set of maximal elements. -/
theorem Reduct.eq_maximals (h : Reduct S T) : S = maximals T := by
  ext x
  constructor
  · intro hx
    refine ⟨h.subset hx, fun y hy hxy => ?_⟩
    obtain ⟨z, hz, hyz⟩ := h.cofinal hy
    have hxz : x = z := h.antichain.eq hx hz (hxy.trans hyz)
    exact hxz ▸ hyz
  · rintro ⟨hx, hmax⟩
    obtain ⟨z, hz, hxz⟩ := h.cofinal hx
    rwa [hxz.antisymm (hmax (h.subset hz) hxz)]

theorem Reduct.insertMax (h : Reduct S T) (a : α) : Reduct (insertMax S a) (insert a T) where
  antichain := isAntichain_insertMax h.antichain
  subset := insertMax_subset.trans (Set.insert_subset_insert h.subset)
  cofinal := by
    rintro x (rfl | hx)
    · exact self_mem_lowerClosure_insertMax
    · exact lowerClosure_le_insertMax (h.cofinal hx)

end MaxSet

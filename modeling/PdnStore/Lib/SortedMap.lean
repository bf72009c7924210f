import Mathlib.Order.Lattice
import Mathlib.Data.List.Sort

/-!
# Lists sorted by a key, and finite maps built on them

`SortedBy f l`: the keys `f a` strictly ascend along `l`. Such a list holds each key once, is
determined by its members (`SortedBy.ext`), and stays sorted under filtering; a scan of an ordered
table is a filter of it.

`SortedMap K V` is an ordered table: at most one value per key, iterated in ascending key order. The
sortedness is a field, so a table out of order or with a key twice cannot be built.
-/

section SortedBy

variable {α K : Type*} [LinearOrder K] {f : α → K} {l l' : List α}

/-- The keys strictly ascend along the list. -/
def SortedBy (f : α → K) (l : List α) : Prop := l.Pairwise fun a b => f a < f b

namespace SortedBy

theorem filter (p : α → Bool) (h : SortedBy f l) : SortedBy f (l.filter p) := List.Pairwise.filter p h

theorem nodup_map (h : SortedBy f l) : (l.map f).Nodup :=
  List.pairwise_map.2 (h.imp ne_of_lt)

theorem nodup (h : SortedBy f l) : l.Nodup := List.Nodup.of_map f h.nodup_map

/-- A key occurs once. -/
theorem eq_of_key (h : SortedBy f l) {a b : α} (ha : a ∈ l) (hb : b ∈ l) (hk : f a = f b) : a = b :=
  List.inj_on_of_nodup_map h.nodup_map ha hb hk

/-- A sorted list is determined by its members. -/
theorem ext (h : SortedBy f l) (h' : SortedBy f l') (hm : ∀ a, a ∈ l ↔ a ∈ l') : l = l' := by
  have : Std.Antisymm fun a b => f a < f b := ⟨fun a b hab hba => absurd hab hba.asymm⟩
  have : Std.Irrefl fun a b => f a < f b := ⟨fun a => lt_irrefl (f a)⟩
  exact List.Pairwise.eq_of_mem_iff (r := fun a b => f a < f b) h h' hm

/-- Fewer members, shorter list. -/
theorem length_le (h : SortedBy f l) (hm : l ⊆ l') : l.length ≤ l'.length :=
  h.nodup.length_le_of_subset hm

end SortedBy

end SortedBy

/-- A finite map, listed in strictly ascending key order. -/
structure SortedMap (K V : Type*) [LinearOrder K] where
  toList : List (K × V)
  sorted : SortedBy Prod.fst toList

namespace SortedMap

variable {K V : Type*} [LinearOrder K] {m m' : SortedMap K V} {k k' : K} {v v' : V} {r : K × V}

instance [DecidableEq V] : DecidableEq (SortedMap K V) := fun a b =>
  decidable_of_iff (a.toList = b.toList) ⟨fun h => by cases a; cases b; cases h; rfl, fun h => h ▸ rfl⟩

instance : EmptyCollection (SortedMap K V) := ⟨⟨[], .nil⟩⟩

def get? (m : SortedMap K V) (k : K) : Option V := (m.toList.find? (·.1 = k)).map (·.2)

/-- Keep the rows that satisfy `p`. -/
def filter (m : SortedMap K V) (p : K × V → Bool) : SortedMap K V :=
  ⟨m.toList.filter p, m.sorted.filter p⟩

theorem sortedBy_insert (m : SortedMap K V) (k : K) (v : V) :
    SortedBy Prod.fst (m.toList.filter (·.1 < k) ++ (k, v) :: m.toList.filter (k < ·.1)) := by
  refine List.pairwise_append.2 ⟨m.sorted.filter _, List.pairwise_cons.2 ⟨?_, m.sorted.filter _⟩, ?_⟩
  · intro b hb
    simpa using (List.mem_filter.1 hb).2
  · intro a ha b hb
    have hak : a.1 < k := by simpa using (List.mem_filter.1 ha).2
    rcases List.mem_cons.1 hb with rfl | hb
    · exact hak
    · have hkb : k < b.1 := by simpa using (List.mem_filter.1 hb).2
      exact hak.trans hkb

/-- Insert or overwrite the row of `k`. -/
def insert (m : SortedMap K V) (k : K) (v : V) : SortedMap K V :=
  ⟨m.toList.filter (·.1 < k) ++ (k, v) :: m.toList.filter (k < ·.1), sortedBy_insert m k v⟩

/-! ## Rows -/

theorem mem_filter {p : K × V → Bool} : r ∈ (m.filter p).toList ↔ r ∈ m.toList ∧ p r = true :=
  List.mem_filter

theorem mem_insert : r ∈ (m.insert k v).toList ↔ r = (k, v) ∨ (r ∈ m.toList ∧ r.1 ≠ k) := by
  simp only [insert, List.mem_append, List.mem_cons, List.mem_filter, decide_eq_true_eq]
  constructor
  · rintro (⟨h, hlt⟩ | rfl | ⟨h, hlt⟩)
    · exact .inr ⟨h, hlt.ne⟩
    · exact .inl rfl
    · exact .inr ⟨h, hlt.ne'⟩
  · rintro (rfl | ⟨h, hne⟩)
    · exact .inr (.inl rfl)
    · rcases lt_or_gt_of_ne hne with hlt | hlt
      · exact .inl ⟨h, hlt⟩
      · exact .inr (.inr ⟨h, hlt⟩)

/-- An index, a map without values, only grows by an insertion. -/
theorem mem_insert_unit {m : SortedMap K Unit} : (k', ()) ∈ (m.insert k ()).toList ↔
    k' = k ∨ (k', ()) ∈ m.toList := by
  rw [mem_insert, Prod.mk.injEq]
  by_cases h : k' = k
  · simp [h]
  · simp [h]

/-! ## Lookups -/

theorem get?_eq_some : m.get? k = some v ↔ (k, v) ∈ m.toList := by
  simp only [get?, Option.map_eq_some_iff]
  constructor
  · rintro ⟨⟨k', v'⟩, hf, rfl⟩
    obtain rfl : k' = k := by simpa using List.find?_some hf
    exact List.mem_of_find?_eq_some hf
  · intro h
    cases hf : m.toList.find? (·.1 = k) with
    | none => simpa using List.find?_eq_none.1 hf _ h
    | some r =>
      have hk : r.1 = k := by simpa using List.find?_some hf
      exact ⟨r, rfl, by rw [m.sorted.eq_of_key (List.mem_of_find?_eq_some hf) h hk]⟩

theorem get?_eq_none : m.get? k = none ↔ ∀ r ∈ m.toList, r.1 ≠ k := by
  constructor
  · intro h r hr hk
    subst hk
    rw [get?_eq_some.2 hr] at h
    cases h
  · intro h
    cases hg : m.get? k with
    | none => rfl
    | some v => exact absurd rfl (h _ (get?_eq_some.1 hg))

@[simp] theorem get?_insert_self : (m.insert k v).get? k = some v := by
  rw [get?_eq_some, mem_insert]
  exact .inl rfl

theorem get?_insert_of_ne (h : k' ≠ k) : (m.insert k v).get? k' = m.get? k' := by
  apply Option.ext
  intro w
  rw [get?_eq_some, get?_eq_some, mem_insert]
  simp [h]

/-- Reading a map after a row was inserted. -/
theorem get?_insert_cases {w : V} (h : (m.insert k v).get? k' = some w) :
    (k' = k ∧ w = v) ∨ (k' ≠ k ∧ m.get? k' = some w) := by
  by_cases hk : k' = k
  · rw [hk, get?_insert_self] at h
    exact .inl ⟨hk, (Option.some.inj h).symm⟩
  · rw [get?_insert_of_ne hk] at h
    exact .inr ⟨hk, h⟩

theorem get?_filter_eq_some {p : K × V → Bool} :
    (m.filter p).get? k = some v ↔ m.get? k = some v ∧ p (k, v) = true := by
  rw [get?_eq_some, get?_eq_some, mem_filter]

theorem get?_filter_eq_none {p : K × V → Bool} (h : ∀ v, p (k, v) = false) : (m.filter p).get? k = none := by
  rw [get?_eq_none]
  rintro ⟨k', v⟩ hr rfl
  have := (mem_filter.1 hr).2
  rw [h v] at this
  cases this

theorem get?_filter_eq_self {p : K × V → Bool} (h : ∀ v, p (k, v) = true) : (m.filter p).get? k = m.get? k := by
  apply Option.ext
  intro w
  simp [get?_filter_eq_some, h]

/-- A key that is not there is in no part of the map. -/
theorem get?_filter_of_none (p : K × V → Bool) (h : m.get? k = none) : (m.filter p).get? k = none := by
  rw [get?_eq_none] at h ⊢
  exact fun r hr => h r (mem_filter.1 hr).1

@[simp] theorem get?_empty : (∅ : SortedMap K V).get? k = none := rfl

/-! ## Equality, and inserting many rows -/

/-- A map is its rows. -/
theorem ext_rows (h : ∀ r, r ∈ m.toList ↔ r ∈ m'.toList) : m = m' := by
  have hrows : m.toList = m'.toList := m.sorted.ext m'.sorted h
  cases m
  cases m'
  cases hrows
  rfl

/-- An inserted row that is kept. -/
theorem filter_insert_of_pos {p : K × V → Bool} (h : p (k, v) = true) :
    (m.insert k v).filter p = (m.filter p).insert k v := by
  refine ext_rows fun r => ?_
  rw [mem_filter, mem_insert, mem_insert, mem_filter]
  constructor
  · rintro ⟨rfl | ⟨hr, hk⟩, hp⟩
    · exact .inl rfl
    · exact .inr ⟨⟨hr, hp⟩, hk⟩
  · rintro (rfl | ⟨⟨hr, hp⟩, hk⟩)
    · exact ⟨.inl rfl, h⟩
    · exact ⟨.inr ⟨hr, hk⟩, hp⟩

/-- An inserted row of a key of which nothing is kept. -/
theorem filter_insert_of_neg {p : K × V → Bool} (h : ∀ v, p (k, v) = false) :
    (m.insert k v).filter p = m.filter p := by
  refine ext_rows fun ⟨k', v'⟩ => ?_
  rw [mem_filter, mem_insert, mem_filter]
  constructor
  · rintro ⟨heq | ⟨hr, -⟩, hp⟩
    · rw [heq, h] at hp
      cases hp
    · exact ⟨hr, hp⟩
  · rintro ⟨hr, hp⟩
    refine ⟨.inr ⟨hr, ?_⟩, hp⟩
    rintro rfl
    rw [h] at hp
    cases hp

theorem filter_comm (p q : K × V → Bool) : (m.filter p).filter q = (m.filter q).filter p := by
  refine ext_rows fun r => ?_
  simp only [mem_filter]
  exact and_right_comm

/-- What is kept anyway is not affected by an earlier filter that keeps it. -/
theorem filter_filter_of_imp {p q : K × V → Bool} (h : ∀ r, q r = true → p r = true) :
    (m.filter p).filter q = m.filter q := by
  refine ext_rows fun r => ?_
  simp only [mem_filter]
  exact ⟨fun hr => ⟨hr.1.1, hr.2⟩, fun hr => ⟨⟨hr.1, h r hr.2⟩, hr.2⟩⟩

/-- Or what it maps its keys to. -/
theorem ext_get? (h : ∀ k, m.get? k = m'.get? k) : m = m' := by
  refine ext_rows fun ⟨k, v⟩ => ?_
  rw [← get?_eq_some, ← get?_eq_some, h]

/-- Insert the rows one after the other: a later row of a key overwrites an earlier one. -/
def insertAll (m : SortedMap K V) (rows : List (K × V)) : SortedMap K V :=
  rows.foldl (fun m r => m.insert r.1 r.2) m

theorem mem_of_mem_insertAll {rows : List (K × V)} (h : r ∈ (m.insertAll rows).toList) :
    r ∈ rows ∨ r ∈ m.toList := by
  induction rows generalizing m with
  | nil => exact .inr h
  | cons q rows ih =>
    rcases ih h with h | h
    · exact .inl (.tail _ h)
    · rcases mem_insert.1 h with rfl | ⟨h, -⟩
      · exact .inl (.head _)
      · exact .inr h

/-- No key gets lost. -/
theorem exists_mem_insertAll {rows : List (K × V)} (h : r ∈ rows ∨ r ∈ m.toList) :
    ∃ v, (r.1, v) ∈ (m.insertAll rows).toList := by
  induction rows generalizing m r with
  | nil => exact ⟨r.2, h.resolve_left List.not_mem_nil⟩
  | cons q rows ih =>
    by_cases hk : r.1 = q.1
    · obtain ⟨v, hv⟩ := ih (m := m.insert q.1 q.2) (.inr (mem_insert.2 (.inl rfl)))
      exact ⟨v, hk ▸ hv⟩
    · refine ih (m := m.insert q.1 q.2) ?_
      rcases h with h | h
      · exact .inl ((List.mem_cons.1 h).resolve_left fun heq => hk (by rw [heq]))
      · exact .inr (mem_insert.2 (.inr ⟨h, hk⟩))

/-- A key that is in none of the rows is left alone. -/
theorem get?_insertAll_of_not_mem {rows : List (K × V)} (h : k ∉ rows.map Prod.fst) :
    (m.insertAll rows).get? k = m.get? k := by
  induction rows generalizing m with
  | nil => rfl
  | cons q rows ih =>
    rw [List.map_cons, List.mem_cons, not_or] at h
    show ((m.insert q.1 q.2).insertAll rows).get? k = m.get? k
    rw [ih h.2, get?_insert_of_ne h.1]

/-- A key that is in one has its value from them, whatever the map held. -/
theorem get?_insertAll_of_mem {rows : List (K × V)} (h : k ∈ rows.map Prod.fst) :
    ∃ v, (k, v) ∈ rows ∧ ∀ m : SortedMap K V, (m.insertAll rows).get? k = some v := by
  induction rows with
  | nil => cases h
  | cons q rows ih =>
    by_cases hk : k ∈ rows.map Prod.fst
    · obtain ⟨v, hv, hget⟩ := ih hk
      exact ⟨v, .tail _ hv, fun m => hget _⟩
    · obtain rfl : k = q.1 := (List.mem_cons.1 h).resolve_right hk
      refine ⟨q.2, .head _, fun m => ?_⟩
      show ((m.insert q.1 q.2).insertAll rows).get? q.1 = some q.2
      rw [get?_insertAll_of_not_mem hk, get?_insert_self]

/-- Inserting the same rows again changes nothing. -/
@[simp] theorem insertAll_insertAll (m : SortedMap K V) (rows : List (K × V)) :
    (m.insertAll rows).insertAll rows = m.insertAll rows := by
  refine ext_get? fun k => ?_
  by_cases hk : k ∈ rows.map Prod.fst
  · obtain ⟨v, -, hget⟩ := get?_insertAll_of_mem hk
    rw [hget, hget]
  · rw [get?_insertAll_of_not_mem hk]

/-- The rows of a map may be inserted in any order. -/
theorem insertAll_of_perm {rows : List (K × V)} (m : SortedMap K V) (h : rows.Perm m'.toList) :
    m.insertAll rows = m.insertAll m'.toList := by
  have hkeys : (rows.map Prod.fst).Perm (m'.toList.map Prod.fst) := h.map Prod.fst
  refine ext_get? fun k => ?_
  by_cases hk : k ∈ rows.map Prod.fst
  · obtain ⟨v, hv, hget⟩ := get?_insertAll_of_mem hk
    obtain ⟨v', hv', hget'⟩ := get?_insertAll_of_mem (hkeys.mem_iff.1 hk)
    have heq : (k, v) = (k, v') := m'.sorted.eq_of_key (h.mem_iff.1 hv) hv' rfl
    rw [hget, hget', (Prod.mk.inj heq).2]
  · rw [get?_insertAll_of_not_mem hk, get?_insertAll_of_not_mem fun hk' => hk (hkeys.mem_iff.2 hk')]

/-- The rows of a map, inserted into an empty one, give it back. -/
theorem insertAll_toList (m : SortedMap K V) : (∅ : SortedMap K V).insertAll m.toList = m := by
  have hsub : ∀ r, r ∈ ((∅ : SortedMap K V).insertAll m.toList).toList → r ∈ m.toList := fun r hr =>
    (mem_of_mem_insertAll hr).resolve_right List.not_mem_nil
  refine ext_rows fun r => ⟨hsub r, fun hr => ?_⟩
  obtain ⟨v, hv⟩ := exists_mem_insertAll (m := ∅) (.inl hr)
  have heq : (r.1, v) = r := m.sorted.eq_of_key (hsub _ hv) hr rfl
  exact heq ▸ hv

end SortedMap

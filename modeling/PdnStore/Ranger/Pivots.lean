import PdnStore.Ranger.Put
import Mathlib.Data.List.Pairwise
import Mathlib.Data.List.Rotate
import Mathlib.Data.List.TakeWhile

/-!
# The pivots of a split (ranger.rs:500-569)

The local entries of a range, read from its start `x` on and wrapping around, are the list rotated by
`start_index`; `pivot` indexes that rotation. Each entry of the rotation lies in `[x, b)` for every later entry
`b` (`pairwise_rotate`), which is all the arithmetic of a split comes down to: the pivots follow each other in
the order in which the range is read (`exists_pivots`), so each cuts what the one before left over
(`partition_successive`), and a repeated one is skipped.

| here | there |
| --- | --- |
| `Pivots`  | what the `pivot` closure answers (`:519-533`); `m` is `split_factor - 2` |
| `pieces`  | `ranges`, in the order they are pushed (`:534-569`) |
-/

namespace PdnStore.Ranger

open Store

/-! ## Ranges -/

namespace Range

variable {K : Type} [LinearOrder K] {r : Range K} {p q t : K}

theorem contains_iff : r.contains t = true ↔
    r.x = r.y ∨ (r.x < r.y ∧ r.x ≤ t ∧ t < r.y) ∨ (r.y < r.x ∧ (r.x ≤ t ∨ t < r.y)) := by
  unfold contains
  rcases lt_trichotomy r.x r.y with h | h | h
  · simp [h, h.ne, h.asymm]
  · simp [h]
  · simp [h, h.ne', h.asymm]

theorem contains_start : r.contains r.x = true := by
  rw [contains_iff]
  rcases lt_trichotomy r.x r.y with h | h | h <;> simp [h]

/-- No key lies in both. -/
def Disjoint (r r' : Range K) : Prop := ∀ t, r.contains t = true → r'.contains t = false

theorem Disjoint.symm {r r' : Range K} (h : Disjoint r r') : Disjoint r' r := by
  intro t ht
  by_contra hc
  rw [h t (by simpa using hc)] at ht
  cases ht

/-- A key strictly inside a range splits it in two. -/
theorem split_at (hxy : r.x ≠ r.y) (hp : r.contains p = true) (hpx : p ≠ r.x) :
    p ≠ r.y ∧
    (∀ t, r.contains t = true ↔ (Range.mk r.x p).contains t = true ∨ (Range.mk p r.y).contains t = true) ∧
    Disjoint ⟨r.x, p⟩ ⟨p, r.y⟩ := by
  simp only [Disjoint, ← Bool.not_eq_true, contains_iff] at *
  grind

/-- Two keys split the whole set in two. -/
theorem split_all (hpq : p ≠ q) :
    (∀ t, (Range.mk p q).contains t = true ∨ (Range.mk q p).contains t = true) ∧
      Disjoint ⟨p, q⟩ ⟨q, p⟩ := by
  simp only [Disjoint, ← Bool.not_eq_true, contains_iff] at *
  grind

/-! ## Cutting a range -/

variable {qs qs' : List (Range K)} {x y a b c : K} {f : Nat → K}

/-- The ranges of `qs` make up `r`: each key of it lies in exactly one of them and no other key in any, and none of
them is the identity range. -/
structure Partition (r : Range K) (qs : List (Range K)) : Prop where
  cover : ∀ t, r.contains t = true ↔ ∃ q ∈ qs, q.contains t = true
  disjoint : qs.Pairwise Disjoint
  proper : ∀ q ∈ qs, q.isAll = false

theorem Partition.single (h : r.x ≠ r.y) : Partition r [r] := by
  refine ⟨fun t => ?_, List.pairwise_singleton _ _, fun q hq => ?_⟩
  · simp
  · rw [List.mem_singleton.1 hq]
    simpa [isAll] using h

/-- A key of a range other than its start cuts it in two, also if it is the whole set. -/
theorem cut_at (hp : r.contains p = true) (hpx : p ≠ r.x) : p ≠ r.y ∧
    (∀ t, r.contains t = true ↔ (Range.mk r.x p).contains t = true ∨ (Range.mk p r.y).contains t = true) ∧
    Disjoint ⟨r.x, p⟩ ⟨p, r.y⟩ := by
  by_cases hall : r.x = r.y
  · obtain ⟨hcover, hdisjoint⟩ := split_all hpx.symm
    rw [← hall]
    exact ⟨hpx, fun t => iff_of_true (contains_iff.2 (.inl hall)) (hcover t), hdisjoint⟩
  · exact split_at hall hp hpx

/-- Cut off the first piece, partition the rest. -/
theorem Partition.cons (hp : r.contains p = true) (hpx : p ≠ r.x) (h : Partition ⟨p, r.y⟩ qs) :
    Partition r (⟨r.x, p⟩ :: qs) := by
  obtain ⟨-, hcover, hdisjoint⟩ := cut_at hp hpx
  refine ⟨fun t => ?_, List.pairwise_cons.2 ⟨fun q hq t ht => ?_, h.disjoint⟩, fun q hq => ?_⟩
  · rw [hcover t, h.cover t]
    simp
  · by_contra hc
    have hrest : (Range.mk p r.y).contains t = true := (h.cover t).2 ⟨q, hq, by simpa using hc⟩
    rw [hdisjoint t ht] at hrest
    cases hrest
  · rcases List.mem_cons.1 hq with rfl | hq
    · simpa [isAll] using hpx.symm
    · exact h.proper q hq

theorem Partition.perm (h : Partition r qs) (hqs : qs.Perm qs') : Partition r qs' := by
  refine ⟨fun t => ?_, (hqs.pairwise_iff fun h => h.symm).1 h.disjoint, fun q hq => h.proper q (hqs.mem_iff.2 hq)⟩
  rw [h.cover t]
  simp only [hqs.mem_iff]

/-- The ranges between successive keys, where they differ. -/
def successive (f : Nat → K) (m : Nat) : List (Range K) :=
  ((List.range m).map fun i => Range.mk (f i) (f (i + 1))).filter fun q => q.x ≠ q.y

theorem successive_succ_left (f : Nat → K) (m : Nat) : successive f (m + 1) =
    (if f 0 ≠ f 1 then [⟨f 0, f 1⟩] else []) ++ successive (fun i => f (i + 1)) m := by
  unfold successive
  rw [List.range_succ_eq_map, List.map_cons, List.map_map, List.filter_cons]
  by_cases h : f 0 = f 1
  · simp [h, Function.comp_def]
  · simp [h, Function.comp_def]

theorem successive_succ (f : Nat → K) (m : Nat) : successive f (m + 1) =
    successive f m ++ if f m ≠ f (m + 1) then [⟨f m, f (m + 1)⟩] else [] := by
  unfold successive
  rw [List.range_succ, List.map_append, List.filter_append]
  by_cases h : f m = f (m + 1) <;> simp [h]

/-- Keys that follow each other in a range cut it into the ranges between them. -/
theorem partition_successive (m : Nat) (hnext : ∀ i < m, (Range.mk (f i) y).contains (f (i + 1)) = true)
    (hlast : f m ≠ y) : Partition ⟨f 0, y⟩ (successive f m ++ [⟨f m, y⟩]) := by
  induction m generalizing f with
  | zero => exact .single hlast
  | succ m ih =>
    have hrest : Partition ⟨f 1, y⟩ (successive (fun i => f (i + 1)) m ++ [⟨f (m + 1), y⟩]) :=
      ih (fun i hi => hnext (i + 1) (Nat.succ_lt_succ hi)) hlast
    rw [successive_succ_left]
    by_cases h : f 0 = f 1
    · simpa [h] using hrest
    · simpa [h] using Partition.cons (hnext 0 (Nat.succ_pos m)) (Ne.symm h) hrest

/-- Of two keys, read from `x` on and around, `a` comes first. -/
def Before (x a b : K) : Prop := (Range.mk x b).contains a = true ∧ a ≠ b ∧ b ≠ x

/-- A later key of a range is in what is left of it. -/
theorem Before.next (h : Before x a b) (hxy : x ≠ y) (hb : (Range.mk x y).contains b = true) :
    (Range.mk a y).contains b = true := by
  obtain ⟨ha, hab, hbx⟩ := h
  simp only [contains_iff] at *
  grind

/-- A later key is on the way around to the first. -/
theorem Before.around (hab : Before x a b) (hca : a = c ∨ Before x c a) : (Range.mk a c).contains b = true := by
  rcases hca with rfl | hca
  · exact contains_iff.2 (.inl rfl)
  · simp only [Before, contains_iff] at *
    grind

end Range

open Range

variable {S E K V R : Type} [LinearOrder K] [RangeEntry E K V R]
  [Store S E K V]

/-! ## Reading around -/

section Rotate

variable {l : List E} (hs : SortedBy key l) (x : K)

include hs

omit hs in
theorem rotate_startIndex :
    l.rotate (startIndex x l) = (l.dropWhile fun e => key e < x) ++ (l.takeWhile fun e => key e < x) := by
  have h := List.rotate_append_length_eq (l.takeWhile fun e => key e < x) (l.dropWhile fun e => key e < x)
  rwa [List.takeWhile_append_dropWhile] at h

/-- From `x` on and around: every entry lies in `[x, b)` for each later entry `b`, which is not `x`. -/
theorem pairwise_rotate :
    (l.rotate (startIndex x l)).Pairwise fun a b =>
      (Range.mk x (key b)).contains (key a) = true ∧ key a ≠ key b ∧ key b ≠ x := by
  rw [rotate_startIndex x]
  have hsplit : SortedBy key ((l.takeWhile fun e => key e < x) ++ l.dropWhile fun e => key e < x) := by
    rwa [List.takeWhile_append_dropWhile]
  obtain ⟨hlo, hhi, hcross⟩ := List.pairwise_append.1 hsplit
  have hlt : ∀ a ∈ l.takeWhile fun e => key e < x, key a < x := fun a ha => by
    simpa using List.mem_takeWhile_imp ha
  have hge : ∀ a ∈ l.dropWhile fun e => key e < x, x ≤ key a := by
    intro a ha
    cases hd : l.dropWhile fun e => key e < x with
    | nil => rw [hd] at ha; cases ha
    | cons b rest =>
      have hb : ¬ key b < x := by
        have := List.head_dropWhile_not (fun e => decide (key e < x)) (l := l) (by simp [hd])
        simpa [hd] using this
      rw [hd] at ha hhi
      rcases List.mem_cons.1 ha with rfl | ha
      · exact not_lt.1 hb
      · exact (not_lt.1 hb).trans ((List.pairwise_cons.1 hhi).1 a ha).le
  refine List.pairwise_append.2 ⟨hhi.imp_of_mem ?_, hlo.imp_of_mem ?_, ?_⟩
  · intro a b ha _ hab
    have hxb : x < key b := (hge a ha).trans_lt hab
    exact ⟨Range.contains_iff.2 (.inr (.inl ⟨hxb, hge a ha, hab⟩)), hab.ne, hxb.ne'⟩
  · intro a b _ hb hab
    exact ⟨Range.contains_iff.2 (.inr (.inr ⟨hlt b hb, .inr hab⟩)), hab.ne, (hlt b hb).ne⟩
  · intro a ha b hb
    have hba : key b < key a := (hlt b hb).trans_le (hge a ha)
    exact ⟨Range.contains_iff.2 (.inr (.inr ⟨hlt b hb, .inl (hge a ha)⟩)), hba.ne', (hlt b hb).ne⟩

end Rotate

/-! ## The pivots -/

section Offsets

variable {k n i j : Nat}

/-- Only the last pivot is the whole way around. -/
theorem offset_lt (hn : 0 < n) (hi : i + 1 < k) : n * (i + 1) / k < n :=
  Nat.div_lt_of_lt_mul (by rw [Nat.mul_comm k n]; exact Nat.mul_lt_mul_of_pos_left hi hn)

theorem offset_mono (hij : i ≤ j) : n * (i + 1) / k ≤ n * (j + 1) / k :=
  Nat.div_le_div_right (Nat.mul_le_mul_left n (Nat.succ_le_succ hij))

/-- The last pivot but one is not at the start. -/
theorem offset_pos (hn : 2 ≤ n) (i : Nat) : 0 < n * (i + 1) / (i + 2) := by
  refine Nat.div_pos ?_ (Nat.succ_pos _)
  calc i + 2 ≤ 2 * (i + 1) := by omega
    _ ≤ n * (i + 1) := Nat.mul_le_mul_right _ hn

/-- The first pivot is at the start when there are more pieces to make than entries. -/
theorem offset_zero (hk : 0 < k) : n * (0 + 1) / k = 0 ↔ n < k := by
  rw [Nat.zero_add, Nat.mul_one, Nat.div_eq_zero_iff]
  omega

end Offsets

/-- The pivots `f` of a split into `m + 2` pieces of the local entries `l`; `c` is the first key from `x` on. -/
structure Pivots (config : SyncConfig) (x : K) (l : List E) (m : Nat) (c : K) (f : Nat → K) : Prop where
  factor : config.splitFactor = m + 2
  eval : ∀ i, pivot config x l i = .ok (f i)
  mem : ∀ i, ∃ e ∈ l, key e = f i
  ascending : ∀ i < m, f i = f (i + 1) ∨ Before x (f i) (f (i + 1))
  ahead : ∀ i ≤ m, f i = c ∨ Before x c (f i)
  last : Before x c (f m)
  around : f (m + 1) = c
  again : f (m + 2) = f 0
  short : f 0 = c ↔ l.length < config.splitFactor
  start : c = x ↔ ∃ e ∈ l, key e = x

variable {config : SyncConfig} {r : Range K} {l : List E} {x c : K} {f : Nat → K} {m : Nat}

/-- The `pivot` closure reads the entries from `x` on and around. -/
theorem pivot_eq_ok (x : K) (i : Nat) (hk : config.splitFactor ≠ 0) (hn : l.length ≠ 0)
    (h : l.length * (i % config.splitFactor + 1) / config.splitFactor % l.length <
      (l.rotate (startIndex x l)).length) :
    pivot config x l i = .ok (key ((l.rotate (startIndex x l)).get ⟨_, h⟩)) := by
  have hidx : (startIndex x l + l.length * (i % config.splitFactor + 1) / config.splitFactor) % l.length <
      l.length := Nat.mod_lt _ (Nat.pos_of_ne_zero hn)
  unfold pivot
  rw [if_neg (not_or.2 ⟨hk, hn⟩)]
  simp only [List.getElem?_eq_getElem hidx]
  simp only [List.get_eq_getElem, List.getElem_rotate, Nat.mod_add_mod, Nat.add_comm]

/-- What the `pivot` closure computes. -/
theorem exists_pivots (hs : SortedBy key l) (x : K) (hm : config.splitFactor = m + 2) (hn : 2 ≤ l.length) :
    ∃ c f, Pivots config x l m c f := by
  have hlen : (l.rotate (startIndex x l)).length = l.length := List.length_rotate ..
  have hlt (j : Nat) : j % l.length < (l.rotate (startIndex x l)).length := by
    rw [hlen]
    exact Nat.mod_lt _ (by omega)
  -- the key `j` places from the start on
  let g (j : Nat) : K := key ((l.rotate (startIndex x l)).get ⟨j % l.length, hlt j⟩)
  have hg (j : Nat) : ∃ e ∈ l, key e = g j := ⟨_, List.mem_rotate.1 (List.get_mem _ _), rfl⟩
  have hbefore {i j : Nat} (hij : i < j) (hj : j < l.length) : Before x (g i) (g j) := by
    have hpair := (List.pairwise_iff_getElem.1 (pairwise_rotate hs x)) i j (by omega) (by omega) hij
    simpa only [Before, g, List.get_eq_getElem, Nat.mod_eq_of_lt hj, Nat.mod_eq_of_lt (hij.trans hj)] using hpair
  have hle {i j : Nat} (hij : i ≤ j) (hj : j < l.length) : g i = g j ∨ Before x (g i) (g j) := by
    rcases hij.eq_or_lt with rfl | hij
    · exact .inl rfl
    · exact .inr (hbefore hij hj)
  have hwrap : g l.length = g 0 := by simp only [g, Nat.mod_self, Nat.zero_mod]
  have hmod {i : Nat} (hi : i < m + 2) : i % config.splitFactor = i := by rw [hm, Nat.mod_eq_of_lt hi]
  have hpos : 0 < l.length := by omega
  refine ⟨g 0, fun i => g (l.length * (i % config.splitFactor + 1) / config.splitFactor), hm, fun i => ?_,
    fun i => hg _, fun i hi => ?_, fun i hi => ?_, ?_, ?_, ?_, ?_, ?_⟩
  · exact pivot_eq_ok x i (by omega) (by omega) (hlt _)
  · rw [hmod (by omega), hmod (by omega)]
    exact hle (offset_mono (by omega)) (offset_lt hpos (by omega))
  · rw [hmod (by omega)]
    exact (hle (Nat.zero_le _) (offset_lt hpos (by omega))).imp Eq.symm id
  · rw [hmod (by omega), hm]
    exact hbefore (offset_pos hn m) (offset_lt hpos (by omega))
  · show g _ = g 0
    rw [hmod (by omega), hm, Nat.mul_div_cancel _ (by omega), hwrap]
  · simp only [hm, Nat.mod_self, Nat.zero_mod]
  · show g _ = g 0 ↔ _
    rw [Nat.zero_mod, ← offset_zero (show 0 < config.splitFactor by omega)]
    constructor
    · intro h
      by_contra hne
      exact (hbefore (Nat.pos_of_ne_zero hne) (offset_lt hpos (by omega))).2.1 h.symm
    · intro h
      rw [h]
  · constructor
    · intro h
      exact h ▸ hg 0
    · rintro ⟨e, he, hex⟩
      obtain ⟨j, hj, rfl⟩ := List.getElem_of_mem (List.mem_rotate.2 he : e ∈ l.rotate (startIndex x l))
      have hgj : g j = x := by
        rw [← hex]
        simp only [g, List.get_eq_getElem, Nat.mod_eq_of_lt (hlen ▸ hj)]
      rcases Nat.eq_zero_or_pos j with rfl | hj0
      · exact hgj
      · exact absurd hgj (hbefore hj0 (hlen ▸ hj)).2.2

/-! ## The sub-ranges -/

theorem Range.not_contains_stop (h : r.x ≠ r.y) : r.contains r.y = false := by
  rw [← Bool.not_eq_true, contains_iff]
  grind

/-- The sub-ranges of a split with the pivots `f`. -/
def pieces (r : Range K) (m : Nat) (f : Nat → K) : List (Range K) :=
  if r.isAll then successive f (m + 2) else ⟨r.x, f 0⟩ :: successive f m ++ [⟨f m, r.y⟩]

namespace Pivots

theorem splitRanges_eq (h : Pivots config r.x l m c f) : splitRanges config r l = .ok (pieces r m f) := by
  have hpivot (i : Nat) : pivotRange config r.x l i = .ok ⟨f i, f (i + 1)⟩ := by
    simp [pivotRange, h.eval, bind, Except.bind]
  have hmap (n : Nat) : (List.range n).mapM (pivotRange config r.x l) =
      .ok ((List.range n).map fun i => ⟨f i, f (i + 1)⟩) := mapM_ok fun i _ => hpivot i
  unfold splitRanges pieces
  by_cases hall : r.isAll = true
  · simp [hall, hmap, h.factor, successive, bind, Except.bind]
  · simp [hall, hmap, h.factor, h.eval, successive, bind, Except.bind]

/-- The pieces of the whole set, the one from the first entry on at the end. -/
theorem pieces_all (h : Pivots config r.x l m c f) (hall : r.isAll = true) :
    pieces r m f = successive f m ++ [⟨f m, c⟩] ++ if c ≠ f 0 then [⟨c, f 0⟩] else [] := by
  unfold pieces
  rw [if_pos hall, successive_succ, successive_succ, h.around, h.again, if_pos h.last.2.1.symm]

/-- Read around from the first entry, the pivots make up the whole set. -/
theorem partition_all (h : Pivots config r.x l m c f) (hall : r.isAll = true) : Partition r (pieces r m f) := by
  have hnext : ∀ i < m, (Range.mk (f i) c).contains (f (i + 1)) = true := by
    intro i hi
    rcases h.ascending i hi with heq | hlt
    · rw [← heq]
      exact contains_start
    · exact hlt.around (h.ahead i hi.le)
  have hfrom : Partition ⟨f 0, c⟩ (successive f m ++ [⟨f m, c⟩]) :=
    partition_successive m hnext h.last.2.1.symm
  have hwhole : ∀ t, r.contains t = true := fun t => contains_iff.2 (.inl (by simpa [isAll] using hall))
  have hset : Partition ⟨c, c⟩ (pieces r m f) := by
    rw [h.pieces_all hall]
    by_cases hc : c = f 0
    · rw [← hc] at hfrom
      simpa [hc] using hfrom
    · rw [if_pos hc]
      exact (Partition.cons (r := ⟨c, c⟩) (contains_iff.2 (.inl rfl)) (Ne.symm hc) hfrom).perm
        (List.perm_append_singleton _ _).symm
  refine ⟨fun t => ?_, hset.disjoint, hset.proper⟩
  rw [← hset.cover t]
  exact iff_of_true (hwhole t) (contains_iff.2 (.inl rfl))

/-- A proper range is cut at the pivots, unless the first of them is its start. -/
theorem partition_proper (h : Pivots config r.x l m c f) (hin : ∀ e ∈ l, r.contains (key e) = true)
    (hxy : r.isAll = false) : Partition r (pieces r m f) ↔ f 0 ≠ r.x := by
  have hne : r.x ≠ r.y := by simpa [isAll] using hxy
  have hmem (i : Nat) : r.contains (f i) = true := by
    obtain ⟨e, he, hkey⟩ := h.mem i
    exact hkey ▸ hin e he
  have hnext : ∀ i < m, (Range.mk (f i) r.y).contains (f (i + 1)) = true := by
    intro i hi
    rcases h.ascending i hi with heq | hlt
    · rw [← heq]
      exact contains_start
    · exact hlt.next hne (hmem _)
  have hlast : f m ≠ r.y := by
    intro heq
    have hstop := hmem m
    rw [heq, not_contains_stop hne] at hstop
    cases hstop
  have hpieces : pieces r m f = ⟨r.x, f 0⟩ :: (successive f m ++ [⟨f m, r.y⟩]) := by
    unfold pieces
    rw [hxy]
    rfl
  rw [hpieces]
  constructor
  · intro hpart heq
    have hfirst := hpart.proper _ (.head _)
    simp [isAll, heq] at hfirst
  · intro hstart
    exact (partition_successive m hnext hlast).cons (hmem 0) hstart

/-- The first pivot is the start of the range when an entry lies there and the entries are too few. -/
theorem first_eq_start_iff (h : Pivots config r.x l m c f) :
    f 0 = r.x ↔ l.length < config.splitFactor ∧ ∃ e ∈ l, key e = r.x := by
  rw [← h.short, ← h.start]
  constructor
  · intro heq
    rcases h.ahead 0 (Nat.zero_le m) with hc | hc
    · exact ⟨hc, hc.symm.trans heq⟩
    · exact absurd heq hc.2.2
  · rintro ⟨hc, hx⟩
    exact hc.trans hx

/-- The last piece of the way around starts at the last pivot and does not reach the first entry. -/
theorem exists_last_piece (h : Pivots config r.x l m c f) (hin : ∀ e ∈ l, r.contains (key e) = true) :
    ∃ q ∈ pieces r m f, q.contains (f m) = true ∧ q.contains c = false := by
  by_cases hall : r.isAll = true
  · refine ⟨⟨f m, c⟩, ?_, contains_start, not_contains_stop h.last.2.1.symm⟩
    rw [h.pieces_all hall]
    simp
  · obtain ⟨e, he, hkey⟩ := h.mem m
    obtain ⟨-, -, hdisjoint⟩ := cut_at (hkey ▸ hin e he) h.last.2.2
    refine ⟨⟨f m, r.y⟩, ?_, contains_start, hdisjoint c h.last.1⟩
    unfold pieces
    rw [if_neg hall]
    simp

/-- Some piece holds the first entry. -/
theorem exists_first_piece (h : Pivots config r.x l m c f) (hin : ∀ e ∈ l, r.contains (key e) = true) :
    ∃ q ∈ pieces r m f, q.contains c = true := by
  obtain ⟨e, he, hkey⟩ : ∃ e ∈ l, key e = c := h.around ▸ h.mem (m + 1)
  have hc : r.contains c = true := hkey ▸ hin e he
  cases hall : r.isAll with
  | true => exact ((h.partition_all hall).cover c).1 hc
  | false =>
    by_cases hstart : f 0 = r.x
    · -- the identity range
      refine ⟨⟨r.x, f 0⟩, ?_, contains_iff.2 (.inl hstart.symm)⟩
      unfold pieces
      rw [hall]
      simp
    · exact (((h.partition_proper hin hall).2 hstart).cover c).1 hc

theorem within {dom : Set K} (h : Pivots config r.x l m c f) (hdom : ∀ e ∈ l, key e ∈ dom) (hr : r.Within dom) :
    ∀ q ∈ pieces r m f, q.Within dom := by
  have hf (i : Nat) : f i ∈ dom := by
    obtain ⟨e, he, hkey⟩ := h.mem i
    exact hkey ▸ hdom e he
  have hsuccessive (n : Nat) : ∀ q ∈ successive f n, q.Within dom := by
    intro q hq
    obtain ⟨i, -, rfl⟩ := List.mem_map.1 (List.mem_filter.1 hq).1
    exact .inr ⟨hf i, hf (i + 1)⟩
  unfold pieces
  split
  · exact hsuccessive (m + 2)
  · rename_i hall
    have hends : r.x ∈ dom ∧ r.y ∈ dom := hr.resolve_left (by simpa [isAll] using hall)
    intro q hq
    rcases List.mem_cons.1 hq with rfl | hq
    · exact .inr ⟨hends.1, hf 0⟩
    · rcases List.mem_append.1 hq with hq | hq
      · exact hsuccessive m q hq
      · rw [List.mem_singleton.1 hq]
        exact .inr ⟨hf m, hends.2⟩

end Pivots

end PdnStore.Ranger

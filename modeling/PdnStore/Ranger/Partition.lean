import PdnStore.Ranger.Split
import PdnStore.Ranger.SimpleStore

/-!
# Splitting a range by any factor (ranger.rs:500-602)

The sub-ranges of the recursion case run from the start of the range over the pivots to its end; for the whole
set they run around, from the first entry to the first entry.

The first piece of a proper range is pushed without a comparison. It ends at the first pivot, which the comments
take to differ from `x` (`:518`, `:546`). With more pieces than local entries the first offset is zero, and the
first pivot is the first entry from `x` on: `x` itself if an entry lies there. The piece is then
`Range { x, x }`, the whole set. `recursion_partitions_iff` says exactly when the sub-ranges partition the range;
with the default split factor they always do, as the recursion is only reached with two local entries.

Offsets are computed on unbounded numbers: a product of entries and pieces that does not fit into a `usize` is
beyond what `Vec::with_capacity(split_factor)` and a store can hold.
-/

namespace PdnStore.Ranger

open Store

open Range

section

variable {S E K V R : Type} [LinearOrder K] [RangeEntry E K V R] [Store S E K V]

/-! ## The recursion case -/

/-- The sub-ranges make up the range, and each holds fewer of the entries. -/
structure Splits (view : List E) (r : Range K) (qs : List (Range K)) : Prop extends Partition r qs where
  fewer : ∀ q ∈ qs, count q view < count r view

/-- The range is the whole set, or it holds an entry for each piece to make, or none lies at its start. -/
def Splittable (config : SyncConfig) (view : List E) (r : Range K) : Prop :=
  r.isAll = true ∨ config.splitFactor ≤ count r view ∨ ∀ e ∈ view, key e ≠ r.x

variable {view : List E}

theorem Pivots.splits_iff (h : Pivots config r.x (inRange r view) m c f) :
    Splits view r (pieces r m f) ↔ Splittable config view r := by
  have hin : ∀ e ∈ inRange r view, r.contains (key e) = true := fun e he => (mem_inRange.1 he).2
  have hpart : Partition r (pieces r m f) ↔ Splittable config view r := by
    cases hall : r.isAll with
    | true => exact iff_of_true (h.partition_all hall) (.inl hall)
    | false =>
      have hstart : (∃ e ∈ inRange r view, key e = r.x) ↔ ∃ e ∈ view, key e = r.x := by
        constructor
        · rintro ⟨e, he, hkey⟩
          exact ⟨e, (mem_inRange.1 he).1, hkey⟩
        · rintro ⟨e, he, hkey⟩
          exact ⟨e, mem_inRange.2 ⟨he, hkey ▸ contains_start⟩, hkey⟩
      rw [h.partition_proper hin hall, Ne, h.first_eq_start_iff, hstart, not_and_or, not_lt]
      simp [Splittable, hall, count]
  refine ⟨fun hs => hpart.1 hs.toPartition, fun hs => ⟨hpart.2 hs, fun q hq => ?_⟩⟩
  have hp := hpart.2 hs
  have hsub : ∀ t, q.contains t = true → r.contains t = true := fun t ht => (hp.cover t).2 ⟨q, hq, ht⟩
  obtain ⟨q₂, hq₂, hlast, hfirst⟩ := h.exists_last_piece hin
  by_cases hc : q.contains c = true
  · -- the piece of the first entry does not hold the last pivot
    have hne : q ≠ q₂ := by
      rintro rfl
      rw [hc] at hfirst
      cases hfirst
    have : Std.Symm (Range.Disjoint (K := K)) := ⟨fun _ _ => Range.Disjoint.symm⟩
    have hdisjoint : q₂.Disjoint q := hp.disjoint.forall hq₂ hq hne.symm
    obtain ⟨e, he, hkey⟩ := h.mem m
    exact count_lt hsub ⟨e, he, hkey ▸ hdisjoint (f m) hlast⟩
  · obtain ⟨e, he, hkey⟩ : ∃ e ∈ inRange r view, key e = c := h.around ▸ h.mem (m + 1)
    exact count_lt hsub ⟨e, he, by simpa [hkey] using hc⟩

variable [Blake3]

/-- The part a sub-range is answered with. -/
def chunkWith (config : SyncConfig) (status : E → ContentStatus) (view : List E) (q : Range K) :
    MessagePart E K R :=
  if config.maxSetSize < count q view then .rangeFingerprint ⟨q, fingerprint (inRange q view)⟩
  else .rangeItem ⟨q, (inRange q view).map fun e => (e, status e), false⟩

theorem ranges_map_chunkWith (config : SyncConfig) (status : E → ContentStatus) (view : List E)
    (qs : List (Range K)) : ranges (qs.map (chunkWith (R := R) config status view)) = qs := by
  have hrange (q : Range K) : (chunkWith (R := R) config status view q).range? = some q := by
    unfold chunkWith
    split <;> rfl
  unfold ranges
  rw [List.filterMap_map]
  exact (List.filterMap_congr fun q _ => hrange q).trans List.filterMap_some

section

variable [Inhabited K] {dom : Set K} {view : S → List E} (hr : LawfulReads S dom view)

include hr

theorem chunkPart_eq_ok (config : SyncConfig) (status : E → ContentStatus) (s : S) {q : Range K}
    (hq : q.Within dom) : chunkPart (R := R) config status s q =
      .ok (chunkWith config status (view s) q, !(inRange q (view s)).isEmpty) := by
  simp only [chunkPart, hr.getRange s q hq, hr.getFingerprint s q hq, bind, Except.bind, chunkWith, count]
  rfl

/-- The recursion case answers with the pieces, and its assertion holds. -/
theorem processFingerprint_recurse (config : SyncConfig) (status : E → ContentStatus) (s : S)
    (rf : RangeFingerprint K) (hin : rf.range.Within dom) (hn : 2 ≤ count rf.range (view s))
    (hmiss : fingerprint (inRange rf.range (view s)) ≠ rf.fingerprint) (hne : rf.fingerprint ≠ Fingerprint.empty)
    (h : Pivots config rf.range.x (inRange rf.range (view s)) m c f) :
    processFingerprint (R := R) config status s rf =
      .ok ((pieces rf.range m f).map (chunkWith config status (view s))) := by
  have hin' : ∀ e ∈ inRange rf.range (view s), rf.range.contains (key e) = true := fun e he => (mem_inRange.1 he).2
  have hdom : ∀ e ∈ inRange rf.range (view s), key e ∈ dom := fun e he => hr.mem_dom s e (mem_inRange.1 he).1
  have hchunks : (pieces rf.range m f).mapM (chunkPart (R := R) config status s) =
      .ok ((pieces rf.range m f).map fun q =>
        (chunkWith config status (view s) q, !(inRange q (view s)).isEmpty)) :=
    mapM_ok fun q hq => chunkPart_eq_ok hr config status s (h.within hdom hin q hq)
  have hanchor : ¬ ((inRange rf.range (view s)).length ≤ 1 ∨ rf.fingerprint = Fingerprint.empty) := by
    rintro (hle | hempty)
    · exact absurd hn (by unfold count; omega)
    · exact hne hempty
  unfold processFingerprint
  simp only [hr.getFingerprint s _ hin, hr.getRange s _ hin, bind, Except.bind, if_neg hmiss, if_neg hanchor,
    h.splitRanges_eq, hchunks]
  have hnonempty : ∀ {q : Range K} {t : K}, (∃ e ∈ inRange rf.range (view s), key e = t) → q.contains t = true →
      (!(inRange q (view s)).isEmpty) = true := by
    rintro q t ⟨e, he, rfl⟩ hq
    have hmem : e ∈ inRange q (view s) := mem_inRange.2 ⟨(mem_inRange.1 he).1, hq⟩
    simpa using List.ne_nil_of_mem hmem
  obtain ⟨q₁, hq₁, hfirst⟩ := h.exists_first_piece hin'
  obtain ⟨q₂, hq₂, hlast, hnot⟩ := h.exists_last_piece hin'
  have hne : q₁ ≠ q₂ := by
    rintro rfl
    rw [hfirst] at hnot
    cases hnot
  have htwo : 1 < ((pieces rf.range m f).filter fun q => !(inRange q (view s)).isEmpty).length := by
    refine (List.nodup_cons.2 ⟨?_, List.nodup_singleton q₂⟩ : [q₁, q₂].Nodup).length_le_of_subset ?_
    · simpa using hne
    · intro q hq
      rcases List.mem_pair.1 hq with rfl | rfl
      · exact List.mem_filter.2 ⟨hq₁, hnonempty (h.around ▸ h.mem (m + 1)) hfirst⟩
      · exact List.mem_filter.2 ⟨hq₂, hnonempty (h.mem m) hlast⟩
  rw [List.filter_map, List.length_map, if_neg (by simpa [Function.comp_def] using htwo), List.map_map]
  rfl

/-- **When the recursion case partitions the range** (ranger.rs:500-602): for a range of at least two local
entries and any split factor from 2 on, the sub-ranges are pairwise disjoint, make up the range, none is the
identity range and each holds fewer entries, exactly if the range is the whole set, or holds at least as many
entries as pieces are to be made, or does not start at an entry. -/
theorem recursion_partitions_iff (config : SyncConfig) (hk : 2 ≤ config.splitFactor)
    (status : E → ContentStatus) (s : S) (rf : RangeFingerprint K) (hin : rf.range.Within dom)
    (hn : 2 ≤ count rf.range (view s))
    (hmiss : fingerprint (inRange rf.range (view s)) ≠ rf.fingerprint) (hne : rf.fingerprint ≠ Fingerprint.empty) :
    ∃ parts : List (MessagePart E K R), processFingerprint config status s rf = .ok parts ∧
      (Splits (view s) rf.range (ranges parts) ↔ Splittable config (view s) rf.range) := by
  obtain ⟨m, hm⟩ : ∃ m, config.splitFactor = m + 2 := ⟨config.splitFactor - 2, by omega⟩
  obtain ⟨c, f, h⟩ := exists_pivots ((hr.sorted s).filter _) rf.range.x hm hn
  refine ⟨_, processFingerprint_recurse hr config status s rf hin hn hmiss hne h, ?_⟩
  rw [ranges_map_chunkWith]
  exact h.splits_iff

end

end

section

/-- A digest that tells nothing apart. -/
local instance splitDigest : Blake3 := ⟨fun _ => 0⟩

/-- Three entries. -/
def sampleSplit : SimpleStore Bytes Nat := puts default [([1], 4), ([2], 3), ([3], 5)]

/-- Three pieces of a range around the end that holds two entries, neither of them at its start. -/
theorem recursion_partitions_iff_wrapAround : ∃ parts : List (MessagePart (Bytes × Nat) Bytes Unit),
    processFingerprint ⟨1, 3⟩ (fun _ => .complete) sampleSplit ⟨⟨[2, 5], [2]⟩, 1⟩ = .ok parts ∧
    Splits sampleSplit.entries ⟨[2, 5], [2]⟩ (ranges parts) := by
  obtain ⟨parts, hparts, hiff⟩ := recursion_partitions_iff SimpleStore.lawfulReads ⟨1, 3⟩ (by decide)
    (fun _ => .complete) sampleSplit ⟨⟨[2, 5], [2]⟩, 1⟩ (.inr ⟨Set.mem_univ _, Set.mem_univ _⟩) (by decide +kernel)
    (by decide +kernel) (by decide)
  exact ⟨parts, hparts, hiff.2 (.inr (.inr (by decide +kernel)))⟩

/-- Three pieces of a range that holds two entries and starts at the first of them: one is the identity range. -/
theorem small_range_splits_off_everything : ∃ parts : List (MessagePart (Bytes × Nat) Bytes Unit),
    processFingerprint ⟨1, 3⟩ (fun _ => .complete) sampleSplit ⟨⟨[1], [3]⟩, 1⟩ = .ok parts ∧
    count ⟨[1], [3]⟩ sampleSplit.entries = 2 ∧
    ranges parts = [⟨[1], [1]⟩, ⟨[1], [2]⟩, ⟨[2], [3]⟩] ∧
    ¬ Splits sampleSplit.entries ⟨[1], [3]⟩ (ranges parts) := by
  refine ⟨[.rangeFingerprint ⟨⟨[1], [1]⟩, 0⟩, .rangeItem ⟨⟨[1], [2]⟩, [(([1], 4), .complete)], false⟩,
    .rangeItem ⟨⟨[2], [3]⟩, [(([2], 3), .complete)], false⟩], by decide +kernel, by decide +kernel, rfl, ?_⟩
  intro h
  have hfirst : (⟨[1], [1]⟩ : Range Bytes).isAll = false := h.proper _ (.head _)
  simp [Range.isAll] at hfirst

end

end PdnStore.Ranger

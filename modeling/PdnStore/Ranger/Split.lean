import PdnStore.Ranger.Pivots

/-!
# Splitting a range in two (ranger.rs:500-602)

With the default split factor the two sub-ranges meet at the middle entry, neither is the identity range, both
hold an entry, and so both hold fewer than the range itself.

`Answers` collects what one fingerprint part is answered with.
-/

namespace PdnStore.Ranger

open Store

variable {S E K V R : Type} [LinearOrder K] [RangeEntry E K V R]
  [Store S E K V]

/-- How many entries lie in a range. -/
def count (r : Range K) (l : List E) : Nat := (inRange r l).length

theorem inRange_inRange {r q : Range K} {l : List E} (h : ∀ t, q.contains t = true → r.contains t = true) :
    inRange q (inRange r l) = inRange q l := by
  simp only [inRange, List.filter_filter]
  apply List.filter_congr
  intro e _
  cases hq : q.contains (key e) with
  | false => rfl
  | true => simp [h _ hq]

/-- What the recursion case needs of the two halves of a range with local entries `l`. -/
structure Halves (dom : Set K) (r : Range K) (l : List E) (q₁ q₂ : Range K) : Prop where
  cover : ∀ t, r.contains t = true ↔ q₁.contains t = true ∨ q₂.contains t = true
  disjoint : q₁.Disjoint q₂
  left : ∃ e ∈ l, q₁.contains (key e) = true
  right : ∃ e ∈ l, q₂.contains (key e) = true
  within₁ : q₁.Within dom
  within₂ : q₂.Within dom

/-- The default split of a range that holds at least two local entries. -/
theorem splitRanges_default {dom : Set K} {r : Range K} {l : List E} (hs : SortedBy key l)
    (hin : ∀ e ∈ l, r.contains (key e) = true) (hdom : ∀ e ∈ l, key e ∈ dom) (hr : r.Within dom)
    (hn : 2 ≤ l.length) : ∃ q₁ q₂, splitRanges default r l = .ok [q₁, q₂] ∧ Halves dom r l q₁ q₂ := by
  obtain ⟨c, f, h⟩ : ∃ c f, Pivots default r.x l 0 c f := exists_pivots hs r.x rfl hn
  obtain ⟨p, hp, hpf⟩ := h.mem 0
  obtain ⟨e, he, hec⟩ : ∃ e ∈ l, key e = c := h.around ▸ h.mem 1
  have hne : f 0 ≠ c := h.last.2.1.symm
  have hsplit : ∀ q₁ q₂ : Range K, pieces r 0 f = [q₁, q₂] → Range.Partition r (pieces r 0 f) →
      (∃ e ∈ l, q₁.contains (key e) = true) → (∃ e ∈ l, q₂.contains (key e) = true) →
      ∃ q₁ q₂, splitRanges default r l = .ok [q₁, q₂] ∧ Halves dom r l q₁ q₂ := by
    intro q₁ q₂ hpieces hpart hleft hright
    have hwithin := h.within hdom hr
    rw [hpieces] at hpart hwithin
    refine ⟨q₁, q₂, hpieces ▸ h.splitRanges_eq, fun t => ?_, ?_, hleft, hright, hwithin q₁ (by simp),
      hwithin q₂ (by simp)⟩
    · simpa using hpart.cover t
    · simpa using hpart.disjoint
  cases hall : r.isAll with
  | true =>
    -- the whole set: from the middle entry around to the first, and from the first to the middle
    refine hsplit ⟨f 0, c⟩ ⟨c, f 0⟩ ?_ (h.partition_all hall)
      ⟨p, hp, hpf ▸ Range.contains_start⟩ ⟨e, he, hec ▸ Range.contains_start⟩
    rw [h.pieces_all hall, if_pos hne.symm]
    rfl
  | false =>
    -- a proper range: the two halves meet at the middle entry, which is not `x`
    exact hsplit ⟨r.x, f 0⟩ ⟨f 0, r.y⟩ (by simp [pieces, hall, Range.successive])
      ((h.partition_proper hin hall).2 h.last.2.2) ⟨e, he, hec ▸ h.last.1⟩ ⟨p, hp, hpf ▸ Range.contains_start⟩

theorem count_lt {r q : Range K} {l : List E} (hsub : ∀ t, q.contains t = true → r.contains t = true)
    (h : ∃ e ∈ inRange r l, q.contains (key e) = false) : count q l < count r l := by
  unfold count
  rw [← inRange_inRange hsub]
  obtain ⟨e, he, hq⟩ := h
  exact List.length_filter_lt_length_iff_exists.2 ⟨e, he, by simp [hq]⟩

/-! ## Answering a fingerprint -/

/-- The range a part speaks about. -/
def MessagePart.range? : MessagePart E K R → Option (Range K)
  | .rangeFingerprint fp => some fp.range
  | .rangeItem item => some item.range
  | .rejected _ => none

/-- The ranges of a list of parts, in order. -/
def ranges (parts : List (MessagePart E K R)) : List (Range K) := parts.filterMap MessagePart.range?

variable [Blake3]

/-- What the parts answering a fingerprint of `rf.range` are like when `view` is what we serve. -/
structure Answers (dom : Set K) (status : E → ContentStatus) (view : List E) (rf : RangeFingerprint K)
    (parts : List (MessagePart E K R)) : Prop where
  covers : (parts = [] ∧ fingerprint (inRange rf.range view) = rf.fingerprint) ∨
    ∀ t, rf.range.contains t = true → ∃ q ∈ ranges parts, q.contains t = true
  plain : rejections parts = []
  inside : ∀ q ∈ ranges parts, ∀ t, q.contains t = true → rf.range.contains t = true
  disjoint : (ranges parts).Pairwise Range.Disjoint
  within : ∀ q ∈ ranges parts, q.Within dom
  fingerprintOk : ∀ fp ∈ fingerprints parts, fp.fingerprint = fingerprint (inRange fp.range view) ∧
    count fp.range view < count rf.range view
  itemOk : ∀ it ∈ items parts, it.haveLocal = false ∧
    it.values = (inRange it.range view).map fun e => (e, status e)

/-- Outside the range answered, no part of the answer speaks. -/
theorem Answers.outside {dom : Set K} {status : E → ContentStatus} {view : List E} {rf : RangeFingerprint K}
    {parts : List (MessagePart E K R)} (h : Answers dom status view rf parts) {q : Range K}
      (hq : q ∈ ranges parts)
    {t : K} (ht : rf.range.contains t = false) : q.contains t = false := by
  by_contra hc
  rw [h.inside q hq t (by simpa using hc)] at ht
  cases ht

/-- The part a sub-range is answered with. -/
def chunk (status : E → ContentStatus) (view : List E) (q : Range K) : MessagePart E K R :=
  if 1 < count q view then .rangeFingerprint ⟨q, fingerprint (inRange q view)⟩
  else .rangeItem ⟨q, (inRange q view).map fun e => (e, status e), false⟩

variable (status : E → ContentStatus)

theorem range?_chunk (l : List E) (q : Range K) : (chunk status l q).range? = some q := by
  unfold chunk; split <;> rfl

theorem mem_fingerprints_chunk {l : List E} {q : Range K} {fp : RangeFingerprint K}
    (h : chunk status l q = .rangeFingerprint fp) : fp = ⟨q, fingerprint (inRange q l)⟩ := by
  unfold chunk at h
  split at h
  · cases h; rfl
  · cases h

theorem mem_items_chunk {l : List E} {q : Range K} {it : RangeItem E K}
    (h : chunk status l q = .rangeItem it) : it = ⟨q, (inRange q l).map fun e => (e, status e), false⟩ := by
  unfold chunk at h
  split at h
  · cases h
  · cases h; rfl

omit [LinearOrder K] [Blake3] in
theorem mem_fingerprints {parts : List (MessagePart E K R)} {fp : RangeFingerprint K} :
    fp ∈ fingerprints parts ↔ .rangeFingerprint fp ∈ parts := by
  simp only [fingerprints, List.mem_filterMap]
  constructor
  · rintro ⟨a, ha, h⟩
    cases a <;> simp_all
  · intro h; exact ⟨_, h, rfl⟩

omit [LinearOrder K] [Blake3] in
theorem mem_items {parts : List (MessagePart E K R)} {it : RangeItem E K} :
    it ∈ items parts ↔ .rangeItem it ∈ parts := by
  simp only [items, List.mem_filterMap]
  constructor
  · rintro ⟨a, ha, h⟩
    cases a <;> simp_all
  · intro h; exact ⟨_, h, rfl⟩

/-- Splitting answers the fingerprint. -/
theorem answers_halves {dom : Set K} (l : List E) (rf : RangeFingerprint K) {q₁ q₂ : Range K}
    (h : Halves dom rf.range (inRange rf.range l) q₁ q₂) :
    Answers (R := R) dom status l rf [chunk status l q₁, chunk status l q₂] := by
  have hranges : ranges (R := R) [chunk status l q₁, chunk status l q₂] = [q₁, q₂] := by
    simp [ranges, range?_chunk]
  have hlt₁ : count q₁ l < count rf.range l := by
    obtain ⟨e, he, hq⟩ := h.right
    exact count_lt (fun t ht => (h.cover t).2 (.inl ht)) ⟨e, he, h.disjoint.symm _ hq⟩
  have hlt₂ : count q₂ l < count rf.range l := by
    obtain ⟨e, he, hq⟩ := h.left
    exact count_lt (fun t ht => (h.cover t).2 (.inr ht)) ⟨e, he, h.disjoint _ hq⟩
  have hplain : rejections (R := R) [chunk status l q₁, chunk status l q₂] = [] := by
    unfold chunk
    split <;> split <;> rfl
  refine ⟨.inr fun t ht => ?_, hplain, ?_, ?_, ?_, ?_, ?_⟩
  · rw [hranges]
    rcases (h.cover t).1 ht with hq | hq
    · exact ⟨q₁, by simp, hq⟩
    · exact ⟨q₂, by simp, hq⟩
  · rw [hranges]
    intro q hq t ht
    rcases List.mem_pair.1 hq with rfl | rfl
    · exact (h.cover t).2 (.inl ht)
    · exact (h.cover t).2 (.inr ht)
  · rw [hranges]; simpa using h.disjoint
  · rw [hranges]
    intro q hq
    rcases List.mem_pair.1 hq with rfl | rfl
    · exact h.within₁
    · exact h.within₂
  · intro fp hfp
    rcases List.mem_pair.1 (mem_fingerprints.1 hfp) with heq | heq
    · rw [mem_fingerprints_chunk status heq.symm]; exact ⟨rfl, hlt₁⟩
    · rw [mem_fingerprints_chunk status heq.symm]; exact ⟨rfl, hlt₂⟩
  · intro it hit
    rcases List.mem_pair.1 (mem_items.1 hit) with heq | heq
    · rw [mem_items_chunk status heq.symm]; exact ⟨rfl, rfl⟩
    · rw [mem_items_chunk status heq.symm]; exact ⟨rfl, rfl⟩

section

variable [Inhabited K] {dom : Set K} {view : S → List E} (hr : LawfulReads S dom view)

include hr

theorem chunkPart_default (s : S) {q : Range K} (hq : q.Within dom) :
    chunkPart default status s q = .ok (chunk status (view s) q, !(inRange q (view s)).isEmpty) := by
  simp only [chunkPart, hr.getRange s q hq, hr.getFingerprint s q hq, bind, Except.bind, chunk, count]
  rfl

/-- Every fingerprint of a range within the domain is answered, without error or panic. -/
theorem processFingerprint_default (s : S) (rf : RangeFingerprint K) (hin : rf.range.Within dom) :
    ∃ parts : List (MessagePart E K R), processFingerprint default status s rf = .ok parts ∧
      Answers dom status (view s) rf parts := by
  unfold processFingerprint
  rw [hr.getFingerprint s _ hin, hr.getRange s _ hin]
  simp only [bind, Except.bind]
  by_cases hmatch : fingerprint (inRange rf.range (view s)) = rf.fingerprint
  · rw [if_pos hmatch]
    exact ⟨[], rfl, .inl ⟨rfl, hmatch⟩, rfl, by simp [ranges], by simp [ranges], by simp [ranges],
      by simp [fingerprints], by simp [items]⟩
  rw [if_neg hmatch]
  by_cases hanchor : (inRange rf.range (view s)).length ≤ 1 ∨ rf.fingerprint = Fingerprint.empty
  · rw [if_pos hanchor]
    refine ⟨_, rfl, .inr fun t ht => ⟨rf.range, by simp [ranges, MessagePart.range?], ht⟩, rfl, ?_, ?_,
      ?_, ?_, ?_⟩
    · simp [ranges, MessagePart.range?]
    · simp [ranges, MessagePart.range?]
    · simpa [ranges, MessagePart.range?] using hin
    · simp [fingerprints]
    · simp [items]
  rw [if_neg hanchor]
  have hn : 2 ≤ (inRange rf.range (view s)).length := by omega
  have hsl : SortedBy key (inRange rf.range (view s)) := (hr.sorted s).filter _
  obtain ⟨q₁, q₂, hsplit, hh⟩ := splitRanges_default hsl
    (fun e he => (mem_inRange.1 he).2) (fun e he => hr.mem_dom s e (mem_inRange.1 he).1) hin hn
  have hne : ∀ q, (∃ e ∈ inRange rf.range (view s), q.contains (key e) = true) →
      (!(inRange q (view s)).isEmpty) = true := by
    rintro q ⟨e, he, hq⟩
    have : e ∈ inRange q (view s) := mem_inRange.2 ⟨(mem_inRange.1 he).1, hq⟩
    simpa using List.ne_nil_of_mem this
  have hchunks : [q₁, q₂].mapM (chunkPart (R := R) default status s) =
      .ok [(chunk status (view s) q₁, true), (chunk status (view s) q₂, true)] := by
    rw [List.mapM_cons, List.mapM_cons, chunkPart_default status hr s hh.within₁,
      chunkPart_default status hr s hh.within₂, hne q₁ hh.left, hne q₂ hh.right]
    rfl
  rw [hsplit]
  dsimp only
  rw [hchunks]
  exact ⟨_, rfl, answers_halves status _ rf hh⟩

end

end PdnStore.Ranger

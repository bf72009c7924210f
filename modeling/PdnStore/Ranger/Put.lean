import PdnStore.Ranger.Process

/-!
# The `Store` contract, and what `put` does under it

The trait's comments as laws. `LawfulReads` speaks about the entries a store *serves* and
`LawfulWrites` about the entries it *holds*; the two are one list for a store that reads live and
differ for a session that reads a snapshot. `dom` is the set of keys the store reconciles (for a
replica: the identifiers of its namespace); a range with a boundary outside it may be refused.

`put` under the contract is `MaxSet.insertMax` on the stamps held (`stamps_put`), so folding any
sequence into the empty store leaves the entries of the sequence that no other one supersedes,
whatever the order and the repetitions.
-/

namespace PdnStore.Ranger

open Store MaxSet

variable {S E K V R : Type} [LinearOrder K] [RangeKey K] [LinearOrder V] [RangeEntry E K V R]
  [Store S E K V]

/-! ## The contract -/

/-- A range the store must serve: the identity range, or one whose boundaries it reconciles. -/
def Range.Within (dom : Set K) (r : Range K) : Prop := r.x = r.y ∨ (r.x ∈ dom ∧ r.y ∈ dom)

/-- The entries of `l` whose key lies in the range. -/
def inRange (r : Range K) (l : List E) : List E := l.filter fun e => r.contains (key e)

omit [RangeKey K] [LinearOrder V] in
theorem mem_inRange {r : Range K} {l : List E} {e : E} :
    e ∈ inRange r l ↔ e ∈ l ∧ r.contains (key e) := List.mem_filter

/-- The reads answer from `view s`: in key order, once per key, by `Range::contains`. -/
structure LawfulReads (S : Type) [Store S E K V] [Blake3] [Inhabited K] (dom : Set K)
    (view : S → List E) : Prop where
  sorted : ∀ s, SortedBy key (view s)
  mem_dom : ∀ s, ∀ e ∈ view s, key e ∈ dom
  getFirst : ∀ s, getFirst s = .ok (((view s).head?.map key).getD default)
  getRange : ∀ s r, r.Within dom → getRange s r = .ok (inRange r (view s))
  getFingerprint : ∀ s r, r.Within dom → getFingerprint s r = .ok (fingerprint (inRange r (view s)))

/-- The writes act on `live s`. -/
structure LawfulWrites (S : Type) [Store S E K V] (dom : Set K) (live : S → List E) : Prop where
  sorted : ∀ s, SortedBy key (live s)
  mem_dom : ∀ s, ∀ e ∈ live s, key e ∈ dom
  /-- "all entries that share a prefix with `key`, including the entry for `key` itself" (ranger.rs:322) -/
  prefixesOf : ∀ s k, k ∈ dom → ∀ e, e ∈ prefixesOf s k ↔ e ∈ live s ∧ isPrefixOf (key e) k
  /-- "all entries whose key start with a prefix and for which the predicate returns true" (ranger.rs:337) -/
  remove : ∀ s k p, k ∈ dom → ∀ e,
    e ∈ live (removePrefixFiltered s k p).2 ↔ e ∈ live s ∧ ¬ (isPrefixOf k (key e) ∧ p (value e))
  removed : ∀ s k p, k ∈ dom →
    (removePrefixFiltered s k p).1 = ((live s).filter fun e => isPrefixOf k (key e) && p (value e)).length
  /-- "replace just the existing entry" (ranger.rs:301) -/
  entryPut : ∀ s e, key e ∈ dom → ∀ e',
    e' ∈ live (entryPut s e) ↔ e' = e ∨ (e' ∈ live s ∧ key e' ≠ key e)

/-! ## `put` -/

section Put

variable {dom : Set K} {live : S → List E}

omit [LinearOrder K] [RangeKey K] in
theorem put_of_not_wouldInsert {s : S} {e : E} (h : wouldInsert s e = false) :
    put s e = (.notInserted, s) := by
  simp [put, h]

variable (hw : LawfulWrites S dom live)
include hw

/-- `would_insert` sees every superseding entry. -/
theorem wouldInsert_iff {s : S} {e : E} (he : key e ∈ dom) :
    wouldInsert s e = true ↔ stamp e ∉ lowerClosure (stamps (live s)) := by
  simp only [wouldInsert, Bool.not_eq_true', List.any_eq_false, decide_eq_true_eq, mem_lowerClosure,
    not_exists, not_and]
  constructor
  · rintro h _ ⟨p, hp, rfl⟩ ⟨hk, hv⟩
    exact h p ((hw.prefixesOf s _ he p).2 ⟨hp, hk⟩) hv
  · intro h p hp hv
    obtain ⟨hp, hk⟩ := (hw.prefixesOf s _ he p).1 hp
    exact h _ (stamp_mem_stamps hp) ⟨hk, hv⟩

/-- The entries held after an insertion that happened. -/
theorem mem_live_put {s : S} {e : E} (he : key e ∈ dom) (h : wouldInsert s e = true) {e' : E} :
    e' ∈ live (put s e).2 ↔ e' = e ∨ (e' ∈ live s ∧ ¬ stamp e' ≤ stamp e) := by
  have hp : (put s e).2 = entryPut (removePrefixFiltered s (key e) fun v => value e ≥ v).2 e := by
    simp [put, h]
  rw [hp, hw.entryPut _ _ he, hw.remove _ _ _ he]
  constructor
  · rintro (rfl | ⟨⟨hl, hn⟩, -⟩)
    · exact .inl rfl
    · exact .inr ⟨hl, fun hle => hn (by simpa [stamp_le_iff] using hle)⟩
  · rintro (rfl | ⟨hl, hn⟩)
    · exact .inl rfl
    · refine .inr ⟨⟨hl, fun h => hn (by simpa [stamp_le_iff] using h)⟩, fun hk => ?_⟩
      -- same key and not superseded by `e`: then it supersedes `e`, which was not refused
      refine (wouldInsert_iff hw he).1 h ⟨stamp e', stamp_mem_stamps hl, ?_, ?_⟩
      · show isPrefixOf (key e') (key e)
        rw [hk]; exact RangeKey.prefix_refl _
      · by_contra hv
        exact hn ⟨by show isPrefixOf (key e) (key e'); rw [hk]; exact RangeKey.prefix_refl _,
          (not_le.1 hv).le⟩

/-- `put` keeps the maximal stamps of what was held and the new entry. -/
theorem stamps_put {s : S} {e : E} (he : key e ∈ dom) :
    stamps (live (put s e).2) = insertMax (stamps (live s)) (stamp e) := by
  cases h : wouldInsert s e with
  | false =>
    have hc : stamp e ∈ lowerClosure (stamps (live s)) := by
      by_contra hc
      rw [(wouldInsert_iff hw he).2 hc] at h
      cases h
    rw [insertMax_of_mem hc, put_of_not_wouldInsert h]
  | true =>
    rw [insertMax_of_notMem ((wouldInsert_iff hw he).1 h)]
    ext x
    constructor
    · rintro ⟨e', he', rfl⟩
      rcases (mem_live_put hw he h).1 he' with rfl | ⟨hl, hn⟩
      · exact Set.mem_insert _ _
      · exact Set.mem_insert_of_mem _ ⟨stamp_mem_stamps hl, hn⟩
    · rintro (rfl | ⟨⟨e', hl, rfl⟩, hn⟩)
      · exact stamp_mem_stamps ((mem_live_put hw he h).2 (.inl rfl))
      · exact stamp_mem_stamps ((mem_live_put hw he h).2 (.inr ⟨hl, hn⟩))

/-- `put` brings in nothing but the entry itself. -/
theorem mem_of_mem_live_put {s : S} {e : E} (he : key e ∈ dom) {e' : E} (h : e' ∈ live (put s e).2) :
    e' = e ∨ e' ∈ live s := by
  cases hi : wouldInsert s e with
  | false => rw [put_of_not_wouldInsert hi] at h; exact .inr h
  | true => exact ((mem_live_put hw he hi).1 h).imp_right And.left

/-- A second `put` of the same entry is refused and changes nothing. -/
theorem put_put {s : S} {e : E} (he : key e ∈ dom) : put (put s e).2 e = (.notInserted, (put s e).2) := by
  apply put_of_not_wouldInsert
  have hc : stamp e ∈ lowerClosure (stamps (live (put s e).2)) := by
    rw [stamps_put hw he]; exact self_mem_lowerClosure_insertMax
  by_contra h
  exact (wouldInsert_iff hw he).1 (by simpa using h) hc

end Put

/-! ## Sequences of insertions -/

/-- Fold a sequence of entries into a store. -/
def puts (s : S) (l : List E) : S := l.foldl (fun s e => (put s e).2) s

/-- The states reachable by `put` from an empty store. -/
inductive ReachableByPut (dom : Set K) (live : S → List E) : S → Prop
  | empty {s} : live s = [] → ReachableByPut dom live s
  | put {s} (e : E) : ReachableByPut dom live s → key e ∈ dom → ReachableByPut dom live (put s e).2

omit [LinearOrder K] [RangeKey K] in
theorem reachable_puts {dom : Set K} {live : S → List E} {s : S} (h : ReachableByPut dom live s)
    (l : List E) (hl : ∀ e ∈ l, key e ∈ dom) : ReachableByPut dom live (puts s l) := by
  induction l generalizing s with
  | nil => exact h
  | cons e l ih => exact ih (h.put e (hl e List.mem_cons_self)) fun e' he' => hl e' (List.mem_cons_of_mem e he')

section Puts

variable {dom : Set K} {live : S → List E} (hw : LawfulWrites S dom live)
include hw

/-- Step and run in one: a reduct of what was fed stays one along the sequence. -/
theorem reduct_puts {s : S} {T : Set (Stamp K V)} (h : Reduct (stamps (live s)) T) (l : List E)
    (hl : ∀ e ∈ l, key e ∈ dom) : Reduct (stamps (live (puts s l))) (T ∪ stamps l) := by
  induction l generalizing s T with
  | nil => rwa [stamps_nil, Set.union_empty]
  | cons e l ih =>
    have hstep : Reduct (stamps (live (put s e).2)) (insert (stamp e) T) := by
      rw [stamps_put hw (hl e List.mem_cons_self)]
      exact h.insertMax (stamp e)
    rw [stamps_cons, Set.union_insert, ← Set.insert_union]
    exact ih hstep fun e' he' => hl e' (List.mem_cons_of_mem e he')

theorem antichain_of_reachable {s : S} (h : ReachableByPut dom live s) :
    IsAntichain (· ≤ ·) (stamps (live s)) := by
  induction h with
  | empty h0 => rw [h0, stamps_nil]; exact IsAntichain.empty
  | put e _ he ih => rw [stamps_put hw he]; exact isAntichain_insertMax ih

/-- Folding a sequence into the empty store keeps its maximal stamps. -/
theorem stamps_puts {s : S} (h0 : live s = []) (l : List E) (hl : ∀ e ∈ l, key e ∈ dom) :
    stamps (live (puts s l)) = maximals (stamps l) := by
  have h : Reduct (stamps (live s)) ∅ := by rw [h0, stamps_nil]; exact Reduct.empty
  have := (reduct_puts hw h l hl).eq_maximals
  rwa [Set.empty_union] at this

end Puts

/-- **Confluence of insertion.** -/
theorem put_confluent {dom : Set K} {live : S → List E} (hw : LawfulWrites S dom live) {s : S}
    (h0 : live s = []) (l : List E) (hl : ∀ e ∈ l, key e ∈ dom) :
    (∀ x, x ∈ stamps (live (puts s l)) ↔
      x ∈ stamps l ∧ ∀ e ∈ l, isPrefixOf (key e) x.key → x.value ≤ value e → stamp e = x) ∧
    (∀ l' : List E, (∀ x : Stamp K V, x ∈ stamps l' ↔ x ∈ stamps l) →
      stamps (live (puts s l')) = stamps (live (puts s l))) ∧
    (∀ s' e, key e ∈ dom → put (put (S := S) s' e).2 e = (.notInserted, (put s' e).2)) ∧
    (∀ s', ReachableByPut dom live s' → IsAntichain (· ≤ ·) (stamps (live s'))) := by
  refine ⟨fun x => ?_, fun l' hl' => ?_, fun s' e he => put_put hw he,
    fun s' hs' => antichain_of_reachable hw hs'⟩
  · rw [stamps_puts hw h0 l hl]
    constructor
    · rintro ⟨hx, hmax⟩
      refine ⟨hx, fun e he hk hv => ?_⟩
      have hle : x ≤ stamp e := ⟨hk, hv⟩
      exact (hle.antisymm (hmax (stamp_mem_stamps he) hle)).symm
    · rintro ⟨hx, hno⟩
      refine ⟨hx, ?_⟩
      rintro _ ⟨e, he, rfl⟩ hle
      exact (hno e he hle.1 hle.2).le
  · have hdom' : ∀ e ∈ l', key e ∈ dom := by
      intro e he
      obtain ⟨e', he', heq⟩ := (hl' _).1 (stamp_mem_stamps he)
      have hkey : key e' = key e := congrArg Stamp.key heq
      exact hkey ▸ hl e' he'
    rw [stamps_puts hw h0 l' hdom', stamps_puts hw h0 l hl, Set.ext hl']

end PdnStore.Ranger

import PdnStore.Store.Query

/-!
# What the bounds of a key filter select (store/fs/bounds.rs)

A query turns its key filter into bounds on the table it scans. The bounds of `Any` and `Exact` select
what `KeyFilter::matches` accepts, on both tables, and so do those of most prefixes: of the empty one, of
any that ends in a byte other than 255, and of any that is 255s throughout. A prefix that ends in 255s after
some other byte also selects the keys it overshoots to (`bounds_select_exactly_iff`), of which the shortest
is its increment cut off before the zeros.

| here | there |
| --- | --- |
| `KeyFilter.Carries` | the prefixes on which `increment_by_one` resets a byte and still succeeds (`bounds.rs:164-173`) |
| `SelectsExactly`    | bounds and `KeyFilter::matches` (`store.rs:368`) agree, with the namespace bounds of both tables |
-/

namespace PdnStore.Fs

/-! ## Prefixes that overshoot -/

/-- A prefix that ends in 255, with a byte before that which is not 255. -/
def KeyFilter.Carries : KeyFilter → Prop
  | .withPrefix p => p.getLast? = some 255 ∧ ∃ b ∈ p, b ≠ 255
  | _ => False

/-- What the bounds of a filter select besides the keys that match it. -/
def KeyFilter.Overshoots : KeyFilter → Bytes → Prop
  | .withPrefix p, k => Fs.Overshoots p k
  | _, _ => False

/-- An overshot key is shorter than the prefix. -/
theorem length_of_overshoots {p k : Bytes} (h : Overshoots p k) : k.length < p.length := by
  obtain ⟨q, c, m, j, rfl, -, hj, rfl⟩ := h
  simp only [List.length_append, List.length_cons, List.length_replicate]
  omega

theorem KeyFilter.not_matches_of_overshoots {f : KeyFilter} {k : Bytes} (h : f.Overshoots k) :
    f.matches k = false := by
  cases f with
  | any => cases h
  | exact key => cases h
  | withPrefix p =>
    have hlen := length_of_overshoots h
    by_contra hpre
    have hle := (List.isPrefixOf_iff_prefix.1 (eq_true_of_ne_false hpre)).length_le
    omega

/-- The shortest of them: the increment, cut off before its zeros. -/
theorem KeyFilter.exists_overshoots_iff {f : KeyFilter} : (∃ k, f.Overshoots k) ↔ f.Carries := by
  cases f with
  | any => simp [Overshoots, Carries]
  | exact key => simp [Overshoots, Carries]
  | withPrefix p =>
    constructor
    · rintro ⟨k, q, c, m, j, rfl, hc, hj, rfl⟩
      obtain ⟨m, rfl⟩ := Nat.exists_eq_succ_of_ne_zero (Nat.ne_zero_of_lt hj)
      refine ⟨?_, c, by simp, hc⟩
      rw [List.replicate_succ', ← List.cons_append, ← List.append_assoc, List.getLast?_concat]
    · rintro ⟨hlast, b, hb, hne⟩
      cases hinc : incrementByOne p with
      | none =>
        rw [incrementByOne_eq_none] at hinc
        rw [hinc] at hb
        exact absurd (List.eq_of_mem_replicate hb) hne
      | some w =>
        obtain ⟨q, c, m, rfl, hc, -⟩ := incrementByOne_eq_some.1 hinc
        cases m with
        | zero =>
          -- the last byte is the one that was incremented
          rw [List.replicate_zero, List.getLast?_concat] at hlast
          exact absurd (Option.some.inj hlast) hc
        | succ m => exact ⟨_, q, c, m + 1, 0, rfl, hc, m.succ_pos, rfl⟩

/-! ## Both tables -/

namespace RecordsBounds

variable {ns : NamespaceId} {author : AuthorId} {id : RecordsId}

/-- The prefix `[]` is any key. -/
theorem contains_authorKey_any : (authorKey ns author .any).contains id = true ↔
    id.ns = ns ∧ id.author = author := by
  have hnil : authorKey ns author .any = authorPrefix ns author [] := rfl
  have hno : ¬ Overshoots [] id.key := fun h => Nat.not_lt_zero _ (length_of_overshoots h)
  rw [hnil, contains_authorPrefix]
  simp [hno]

theorem contains_authorKey_exact {key : Bytes} : (authorKey ns author (.exact key)).contains id = true ↔
    id.ns = ns ∧ id.author = author ∧ id.key = key := by
  simp only [contains, authorKey, if_true, Bool.and_eq_true, decide_eq_true_eq]
  constructor
  · rintro ⟨hlo, hhi⟩
    have heq := le_antisymm hhi hlo
    exact ⟨by rw [heq], by rw [heq], by rw [heq]⟩
  · rintro ⟨rfl, rfl, rfl⟩
    exact ⟨le_rfl, le_rfl⟩

/-- The bounds of an author and a key filter. -/
theorem contains_authorKey {f : KeyFilter} : (authorKey ns author f).contains id = true ↔
    id.ns = ns ∧ id.author = author ∧ (f.matches id.key = true ∨ f.Overshoots id.key) := by
  cases f with
  | any => simp [contains_authorKey_any, KeyFilter.matches, KeyFilter.Overshoots]
  | exact key =>
    rw [contains_authorKey_exact]
    simp only [KeyFilter.matches, KeyFilter.Overshoots, or_false, decide_eq_true_eq, eq_comm (a := key)]
  | withPrefix p =>
    have hpre : (authorKey ns author (.withPrefix p)).contains id = true ↔ _ := contains_authorPrefix
    rw [hpre, KeyFilter.matches, KeyFilter.Overshoots, List.isPrefixOf_iff_prefix]

end RecordsBounds

namespace ByKeyBounds

variable {ns : NamespaceId} {id : RecordsByKeyId} {key : Bytes}

/-- At or after the first row of a key. -/
theorem key_start_le : (⟨ns, key, zeros32⟩ : RecordsByKeyId) ≤ id ↔
    ns < id.ns ∨ (ns = id.ns ∧ key ≤ id.key) := by
  rw [RecordsByKeyId.le_iff, le_iff_lt_or_eq (a := key)]
  simp [zeros32_le]

theorem lt_key_start : id < (⟨ns, key, zeros32⟩ : RecordsByKeyId) ↔
    id.ns < ns ∨ (id.ns = ns ∧ id.key < key) := by
  rw [RecordsByKeyId.lt_iff]
  simp [not_lt.2 (zeros32_le id.author)]

theorem le_key_end : id ≤ (⟨ns, key, ones32⟩ : RecordsByKeyId) ↔
    id.ns < ns ∨ (id.ns = ns ∧ id.key ≤ key) := by
  rw [RecordsByKeyId.le_iff, le_iff_lt_or_eq (a := id.key)]
  simp [le_ones32]

/-- The bounds of a key filter over all authors. -/
theorem contains_new {f : KeyFilter} : (new ns f).contains id = true ↔
    id.ns = ns ∧ (f.matches id.key = true ∨ f.Overshoots id.key) := by
  cases f with
  | any => simp [new, contains_namespace, KeyFilter.matches, KeyFilter.Overshoots]
  | exact key =>
    simp only [contains, new, before, Bool.and_eq_true, decide_eq_true_eq, key_start_le, le_key_end,
      LexOrder.sandwich, KeyFilter.matches, KeyFilter.Overshoots, or_false]
    exact and_congr_right fun _ => antisymm_iff
  | withPrefix p =>
    simp only [contains, new, Bool.and_eq_true, decide_eq_true_eq, key_start_le, KeyFilter.matches,
      KeyFilter.Overshoots, List.isPrefixOf_iff_prefix]
    cases hk : incrementByOne p with
    | some keyEnd =>
      simp only [before, decide_eq_true_eq, lt_key_start, LexOrder.sandwich, between_increment hk]
    | none =>
      -- nothing of the namespace lies after the last key that extends `p`
      have hno := RecordsBounds.not_overshoots_of_none (k := id.key) hk
      simp only [hno, or_false, ← le_of_increment_none hk]
      constructor
      · rintro ⟨hlo, hhi⟩
        have hns : id.ns = ns := ns_of_before_next (a := ⟨ns, p, zeros32⟩) (key_start_le.2 hlo) hhi
        exact ⟨hns, (hlo.resolve_left (by rw [hns]; exact lt_irrefl _)).2⟩
      · rintro ⟨hns, hle⟩
        have hin := contains_namespace.2 hns
        rw [contains, Bool.and_eq_true] at hin
        exact ⟨.inr ⟨hns.symm, hle⟩, hin.2⟩

end ByKeyBounds

/-! ## Bounds and filter agree -/

/-- The bounds of the filter select what it matches, on both tables, and those of the namespace the
namespace. -/
structure SelectsExactly (ns : NamespaceId) (author : AuthorId) (f : KeyFilter) : Prop where
  authorKey : ∀ id, (RecordsBounds.authorKey ns author f).contains id = true ↔
    id.ns = ns ∧ id.author = author ∧ f.matches id.key = true
  byKey : ∀ id, (ByKeyBounds.new ns f).contains id = true ↔ id.ns = ns ∧ f.matches id.key = true
  recordsNamespace : ∀ id, (RecordsBounds.namespace ns).contains id = true ↔ id.ns = ns
  byKeyNamespace : ∀ id, (ByKeyBounds.namespace ns).contains id = true ↔ id.ns = ns

theorem selectsExactly_iff_no_overshoot {ns : NamespaceId} {author : AuthorId} {f : KeyFilter} :
    SelectsExactly ns author f ↔ ¬ ∃ k, f.Overshoots k := by
  constructor
  · rintro h ⟨k, hk⟩
    have hin : (RecordsBounds.authorKey ns author f).contains ⟨ns, author, k⟩ = true :=
      RecordsBounds.contains_authorKey.2 ⟨rfl, rfl, .inr hk⟩
    have hmatches := ((h.authorKey _).1 hin).2.2
    rw [KeyFilter.not_matches_of_overshoots hk] at hmatches
    cases hmatches
  · intro hno
    have hno : ∀ k, ¬ f.Overshoots k := not_exists.1 hno
    exact {
      authorKey := fun id => by rw [RecordsBounds.contains_authorKey]; simp only [hno, or_false]
      byKey := fun id => by rw [ByKeyBounds.contains_new]; simp only [hno, or_false]
      recordsNamespace := fun _ => RecordsBounds.contains_namespace
      byKeyNamespace := fun _ => ByKeyBounds.contains_namespace }

/-- **What prefix bounds select** (bounds.rs:18, 104): exactly the keys with the prefix, unless the prefix
ends in 255s after some other byte. `Any` and `Exact` are exact. -/
theorem bounds_select_exactly_iff (ns : NamespaceId) (author : AuthorId) (f : KeyFilter) :
    SelectsExactly ns author f ↔ ¬ f.Carries := by
  rw [selectsExactly_iff_no_overshoot, KeyFilter.exists_overshoots_iff]

/-- The bounds of the prefix `[1, 255]` reach up to `[2, 0]`, past the key `[2]`. -/
theorem prefix_bounds_select_another_key :
    ¬ SelectsExactly zeros32 zeros32 (.withPrefix [1, 255]) ∧
    (RecordsBounds.authorKey zeros32 zeros32 (.withPrefix [1, 255])).contains ⟨zeros32, zeros32, [2]⟩ = true ∧
    (ByKeyBounds.new zeros32 (.withPrefix [1, 255])).contains ⟨zeros32, [2], zeros32⟩ = true ∧
    KeyFilter.matches (.withPrefix [1, 255]) [2] = false := by
  have hover : KeyFilter.Overshoots (.withPrefix [1, 255]) [2] :=
    ⟨[], 1, 1, 0, rfl, by decide, by decide, rfl⟩
  exact ⟨fun h => selectsExactly_iff_no_overshoot.1 h ⟨_, hover⟩,
    RecordsBounds.contains_authorKey.2 ⟨rfl, rfl, .inr hover⟩,
    ByKeyBounds.contains_new.2 ⟨rfl, .inr hover⟩, KeyFilter.not_matches_of_overshoots hover⟩

end PdnStore.Fs

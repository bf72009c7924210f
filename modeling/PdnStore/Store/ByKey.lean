import PdnStore.Lib.Scan
import PdnStore.Store.Tables

/-!
# The by-key index: its bounds and its scan (store/fs/bounds.rs:104-150, store/fs/ranges.rs:124-166)

`records_by_key` orders the records of every namespace by key and then author. A scan reads index rows
between two bounds, from either end, and looks each one up in `records`; a row whose record is gone is
passed over.

| here | there |
| --- | --- |
| `ByKeyBounds`        | the bounds of the same name; the bounds of a namespace are exact, those of a key prefix overshoot as on the records table |
| `RecordsByKeyRange`  | the index rows not passed yet, over the records table |
| `RecordsByKeyRange.collect` | `next_filtered` called until it yields nothing |
-/

namespace PdnStore.Fs

namespace RecordsByKeyId

theorem lt_iff {a b : RecordsByKeyId} : a < b ↔
    a.ns < b.ns ∨ (a.ns = b.ns ∧ (a.key < b.key ∨ (a.key = b.key ∧ a.author < b.author))) := by
  show toLex (a.ns, toLex (a.key, a.author)) < toLex (b.ns, toLex (b.key, b.author)) ↔ _
  rw [Prod.Lex.toLex_lt_toLex, Prod.Lex.toLex_lt_toLex]

theorem le_iff {a b : RecordsByKeyId} : a ≤ b ↔
    a.ns < b.ns ∨ (a.ns = b.ns ∧ (a.key < b.key ∨ (a.key = b.key ∧ a.author ≤ b.author))) := by
  show toLex (a.ns, toLex (a.key, a.author)) ≤ toLex (b.ns, toLex (b.key, b.author)) ↔ _
  rw [Prod.Lex.toLex_le_toLex, Prod.Lex.toLex_le_toLex]

theorem ns_le {a b : RecordsByKeyId} (h : a ≤ b) : a.ns ≤ b.ns := by
  rcases le_iff.1 h with h | ⟨h, -⟩
  · exact h.le
  · exact h.le

end RecordsByKeyId

/-! ## Bounds -/

/-- `[255u8; 32]`. -/
def ones32 : ByteArrayN 32 := ⟨List.replicate 32 255, List.length_replicate ..⟩

theorem le_ones32 (a : ByteArrayN 32) : a ≤ ones32 := by
  by_contra hlt
  have hle : List.replicate 32 (⊤ : Byte) ≤ a.val := (not_le.1 hlt).le
  have heq := (LexOrder.replicate_top_le_iff.1 hle).eq_of_length (by rw [List.length_replicate, a.2])
  exact hlt (Subtype.coe_le_coe.1 heq.symm.le)

/-- `ByKeyBounds` (bounds.rs:104). -/
structure ByKeyBounds where
  start : Bound RecordsByKeyId
  stop : Bound RecordsByKeyId

namespace ByKeyBounds

/-- The row is not past the upper bound. -/
def before (stop : Bound RecordsByKeyId) (id : RecordsByKeyId) : Bool :=
  match stop with
  | .included a => id ≤ a
  | .excluded a => id < a
  | .unbounded => true

/-- Membership in a range of the index. -/
def contains (b : ByKeyBounds) (id : RecordsByKeyId) : Bool :=
  (match b.start with
    | .included a => a ≤ id
    | .excluded a => a < id
    | .unbounded => true) && before b.stop id

/-- The start of the namespace after `ns`, when there is one (bounds.rs:119, 131). -/
def nextNamespace (ns : NamespaceId) : Bound RecordsByKeyId :=
  match incrementArray ns with
  | some nsEnd => .excluded ⟨nsEnd, [], zeros32⟩
  | none => .unbounded

/-- `ByKeyBounds::namespace` (bounds.rs:131). -/
def «namespace» (ns : NamespaceId) : ByKeyBounds := ⟨.included ⟨ns, [], zeros32⟩, nextNamespace ns⟩

/-- `ByKeyBounds::new` (bounds.rs:106). -/
def new (ns : NamespaceId) : KeyFilter → ByKeyBounds
  | .any => «namespace» ns
  | .exact key => ⟨.included ⟨ns, key, zeros32⟩, .included ⟨ns, key, ones32⟩⟩
  | .withPrefix key => ⟨.included ⟨ns, key, zeros32⟩,
      match incrementByOne key with
      | some keyEnd => .excluded ⟨ns, keyEnd, zeros32⟩
      | none => nextNamespace ns⟩

variable {ns : NamespaceId} {id : RecordsByKeyId}

/-- At or after the start of a namespace. -/
theorem start_le : (⟨ns, [], zeros32⟩ : RecordsByKeyId) ≤ id ↔ ns ≤ id.ns := by
  constructor
  · exact RecordsByKeyId.ns_le
  · intro h
    rw [RecordsByKeyId.le_iff]
    rcases h.lt_or_eq with h | h
    · exact .inl h
    · refine .inr ⟨h, ?_⟩
      rcases (nil_le_bytes id.key).lt_or_eq with hk | hk
      · exact .inl hk
      · exact .inr ⟨hk, zeros32_le _⟩

theorem lt_start : id < (⟨ns, [], zeros32⟩ : RecordsByKeyId) ↔ id.ns < ns := by
  rw [← not_le, start_le, not_le]

/-- Between something of a namespace and the next namespace, all is of that namespace. -/
theorem ns_of_before_next {a : RecordsByKeyId} (ha : a ≤ id) (h : before (nextNamespace a.ns) id = true) :
    id.ns = a.ns := by
  have hle := RecordsByKeyId.ns_le ha
  unfold nextNamespace at h
  cases hinc : incrementArray a.ns with
  | some nsEnd =>
    simp only [hinc, before, lt_start, decide_eq_true_eq] at h
    exact (array_between hinc).1 ⟨hle, h⟩
  | none => exact (array_le_of_none hinc).1 hle

/-- The bounds of a namespace are exact, also for the last one. -/
theorem contains_namespace : («namespace» ns).contains id = true ↔ id.ns = ns := by
  simp only [contains, «namespace», Bool.and_eq_true, decide_eq_true_eq]
  constructor
  · rintro ⟨hlo, hhi⟩
    exact ns_of_before_next hlo hhi
  · intro h
    subst h
    refine ⟨start_le.2 le_rfl, ?_⟩
    unfold nextNamespace
    cases hinc : incrementArray id.ns with
    | some nsEnd => simpa [before, lt_start] using ((array_between hinc).2 rfl).2
    | none => rfl

/-- No bounds reach out of their namespace. -/
theorem ns_of_contains {filter : KeyFilter} (h : (new ns filter).contains id = true) : id.ns = ns := by
  cases filter with
  | any => exact contains_namespace.1 h
  | exact key =>
    simp only [contains, new, before, Bool.and_eq_true, decide_eq_true_eq] at h
    exact le_antisymm (RecordsByKeyId.ns_le h.2) (RecordsByKeyId.ns_le h.1)
  | withPrefix key =>
    simp only [contains, new, Bool.and_eq_true, decide_eq_true_eq] at h
    obtain ⟨hlo, hhi⟩ := h
    cases hinc : incrementByOne key with
    | some keyEnd =>
      simp only [hinc, before, decide_eq_true_eq] at hhi
      exact le_antisymm (RecordsByKeyId.ns_le hhi.le) (RecordsByKeyId.ns_le hlo)
    | none =>
      simp only [hinc] at hhi
      exact ns_of_before_next hlo hhi

end ByKeyBounds

/-! ## Scans -/

/-- `SortDirection` (store.rs). -/
abbrev SortDirection := Direction

/-- `RecordsByKeyRange` (ranges.rs:126). -/
structure RecordsByKeyRange where
  records : SortedMap RecordsId RecordsValue
  rows : List RecordsByKeyId

namespace RecordsByKeyRange

/-- `RecordsByKeyRange::with_bounds` (ranges.rs:132). -/
def withBounds (t : Tables) (bounds : ByKeyBounds) : RecordsByKeyRange :=
  ⟨t.records, (t.recordsByKey.toList.map Prod.fst).filter bounds.contains⟩

/-- The record of an index row, if it is still there (ranges.rs:154-163). -/
def lookup (records : SortedMap RecordsId RecordsValue) (id : RecordsByKeyId) : Option SignedEntry :=
  (records.get? ⟨id.ns, id.author, id.key⟩).map fun v => intoEntry (⟨id.ns, id.author, id.key⟩, v)

/-- `RecordsByKeyRange::next_filtered` (ranges.rs:147). -/
def nextFiltered (r : RecordsByKeyRange) (direction : SortDirection) (filter : RecordsByKeyId → Bool) :
    Option SignedEntry × RecordsByKeyRange :=
  let (entry, rows) := nextFilterMap direction
    (fun id => if filter id then lookup r.records id else none) r.rows
  (entry, { r with rows := rows })

/-- Call `next_filtered` until it yields nothing, at most `n` times. -/
def collect (direction : SortDirection) (filter : RecordsByKeyId → Bool) :
    Nat → RecordsByKeyRange → List SignedEntry
  | 0, _ => []
  | n + 1, r =>
    match r.nextFiltered direction filter with
    | (some e, r) => e :: collect direction filter n r
    | (none, _) => []

theorem collect_eq_drain (direction : SortDirection) (filter : RecordsByKeyId → Bool) (n : Nat)
    (r : RecordsByKeyRange) : r.collect direction filter n =
      drain direction (fun id => if filter id then lookup r.records id else none) n r.rows := by
  induction n generalizing r with
  | zero => rfl
  | succ n ih =>
    simp only [collect, nextFiltered, drain]
    rcases nextFilterMap direction (fun id => if filter id then lookup r.records id else none) r.rows with
      ⟨entry, rows⟩
    cases entry with
    | none => rfl
    | some e => simp only [ih]

end RecordsByKeyRange

end PdnStore.Fs

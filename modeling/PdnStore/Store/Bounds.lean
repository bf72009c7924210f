import PdnStore.Sync.Entry

/-!
# Bounds on the records table (store/fs/bounds.rs)

The records of every namespace lie in one table, ordered by namespace, author and key. A scan is given
by two bounds. The upper bound of a namespace or an author is the next byte string of the same length,
which is exact for arrays. For a key prefix the incremented string keeps its length too, with the
trailing 255s reset to zero, and so lies above some strings that do not begin with the prefix:
`prefix [1, 255]` scans up to `[2, 0]` and meets `[2]`. `Overshoots` names these keys, and
`mem_authorPrefix` says that they are the only ones.
-/

namespace PdnStore.Fs

/-- The key of the records table, `([u8; 32], [u8; 32], &[u8])` (tables.rs:36). -/
@[ext] structure RecordsId where
  ns : NamespaceId
  author : AuthorId
  key : Bytes
deriving DecidableEq

namespace RecordsId

/-- Element by element. -/
instance : LinearOrder RecordsId :=
  LinearOrder.lift' (fun i => toLex (i.ns, toLex (i.author, i.key))) fun a b h => by
    cases a; cases b; simp_all

theorem lt_iff {a b : RecordsId} : a < b ↔
    a.ns < b.ns ∨ (a.ns = b.ns ∧ (a.author < b.author ∨ (a.author = b.author ∧ a.key < b.key))) := by
  show toLex (a.ns, toLex (a.author, a.key)) < toLex (b.ns, toLex (b.author, b.key)) ↔ _
  rw [Prod.Lex.toLex_lt_toLex, Prod.Lex.toLex_lt_toLex]

theorem le_iff {a b : RecordsId} : a ≤ b ↔
    a.ns < b.ns ∨ (a.ns = b.ns ∧ (a.author < b.author ∨ (a.author = b.author ∧ a.key ≤ b.key))) := by
  show toLex (a.ns, toLex (a.author, a.key)) ≤ toLex (b.ns, toLex (b.author, b.key)) ↔ _
  rw [Prod.Lex.toLex_le_toLex, Prod.Lex.toLex_le_toLex]

end RecordsId

/-- `std::ops::Bound`. -/
inductive Bound (α : Type) where
  | included (a : α)
  | excluded (a : α)
  | unbounded

/-- `RecordsBounds` (bounds.rs:11). -/
structure RecordsBounds where
  start : Bound RecordsId
  stop : Bound RecordsId

/-- Membership in a range of the table. -/
def RecordsBounds.contains (b : RecordsBounds) (id : RecordsId) : Bool :=
  (match b.start with
    | .included a => a ≤ id
    | .excluded a => a < id
    | .unbounded => true) &&
  match b.stop with
    | .included a => id ≤ a
    | .excluded a => id < a
    | .unbounded => true

/-- `KeyFilter` (store.rs). -/
inductive KeyFilter where
  | any
  | exact (key : Bytes)
  | withPrefix (key : Bytes)

/-- `increment_by_one` on the reversed string: reset 255s until a byte can be incremented. -/
def incrementRev : Bytes → Option Bytes
  | [] => none
  | c :: cs => if c ≠ 255 then some ((c + 1) :: cs) else (incrementRev cs).map (0 :: ·)

/-- `increment_by_one` (bounds.rs:163); `none` is `false`, after which the buffer is not read. -/
def incrementByOne (value : Bytes) : Option Bytes := (incrementRev value.reverse).map List.reverse

theorem length_incrementRev {v w : Bytes} (h : incrementRev v = some w) : w.length = v.length := by
  induction v generalizing w with
  | nil => cases h
  | cons c cs ih =>
    unfold incrementRev at h
    split at h
    · cases h; rfl
    · obtain ⟨w', hw', rfl⟩ := Option.map_eq_some_iff.1 h
      simp [ih hw']

/-- `increment_by_one` on a `[u8; 32]`. -/
def incrementArray (value : ByteArrayN 32) : Option (ByteArrayN 32) :=
  match h : incrementByOne value.val with
  | none => none
  | some w => some ⟨w, by
      obtain ⟨w', hw', rfl⟩ := Option.map_eq_some_iff.1 h
      rw [List.length_reverse, length_incrementRev hw', List.length_reverse, value.2]⟩

namespace RecordsBounds

/-- `RecordsBounds::author_key` (bounds.rs:18). -/
def authorKey (ns : NamespaceId) (author : AuthorId) (keyMatcher : KeyFilter) : RecordsBounds :=
  let (key, keyIsExact) := match keyMatcher with
    | .any => ([], false)
    | .exact key => (key, true)
    | .withPrefix key => (key, false)
  let start : RecordsId := ⟨ns, author, key⟩
  let stop :=
    if keyIsExact then .included start
    else match incrementByOne key with
      | some keyEnd => .excluded ⟨ns, author, keyEnd⟩
      | none =>
        match incrementArray author with
        | some authorEnd => .excluded ⟨ns, authorEnd, []⟩
        | none =>
          match incrementArray ns with
          | some nsEnd => .excluded ⟨nsEnd, zeros32, []⟩
          | none => .unbounded
  ⟨.included start, stop⟩

/-- `RecordsBounds::author_prefix` (bounds.rs:48). -/
def authorPrefix (ns : NamespaceId) (author : AuthorId) (pre : Bytes) : RecordsBounds :=
  authorKey ns author (.withPrefix pre)

/-- `RecordsBounds::namespace_start` (bounds.rs:71). -/
def namespaceStart (ns : NamespaceId) : Bound RecordsId := .included ⟨ns, zeros32, []⟩

/-- `RecordsBounds::namespace_end` (bounds.rs:75). -/
def namespaceEnd (ns : NamespaceId) : Bound RecordsId :=
  match incrementArray ns with
  | some nsEnd => .excluded ⟨nsEnd, zeros32, []⟩
  | none => .unbounded

/-- `RecordsBounds::namespace` (bounds.rs:52). -/
def «namespace» (ns : NamespaceId) : RecordsBounds := ⟨namespaceStart ns, namespaceEnd ns⟩

/-- `RecordsBounds::from_start` (bounds.rs:56). -/
def fromStart (ns : NamespaceId) (stop : Bound RecordsId) : RecordsBounds := ⟨namespaceStart ns, stop⟩

/-- `RecordsBounds::to_end` (bounds.rs:60). -/
def toEnd (ns : NamespaceId) (start : Bound RecordsId) : RecordsBounds := ⟨start, namespaceEnd ns⟩

end RecordsBounds

/-! ## What the increment does -/

theorem incrementRev_eq_none {v : Bytes} : incrementRev v = none ↔ ∀ b ∈ v, b = 255 := by
  induction v with
  | nil => simp [incrementRev]
  | cons c cs ih =>
    unfold incrementRev
    by_cases hc : c = 255
    · simp [hc, ih]
    · simp [hc]

theorem incrementRev_eq_some {v w : Bytes} : incrementRev v = some w ↔
    ∃ m c cs, v = List.replicate m 255 ++ c :: cs ∧ c ≠ 255 ∧ w = List.replicate m 0 ++ (c + 1) :: cs := by
  induction v generalizing w with
  | nil => simp [incrementRev]
  | cons b bs ih =>
    unfold incrementRev
    by_cases hb : b = 255
    · subst hb
      rw [if_neg (by simp), Option.map_eq_some_iff]
      constructor
      · rintro ⟨w', hw', rfl⟩
        obtain ⟨m, c, cs, rfl, hc, rfl⟩ := ih.1 hw'
        exact ⟨m + 1, c, cs, rfl, hc, rfl⟩
      · rintro ⟨m, c, cs, heq, hc, rfl⟩
        cases m with
        | zero => simp at heq; exact absurd heq.1.symm hc
        | succ m =>
          simp only [List.replicate_succ, List.cons_append, List.cons.injEq, true_and] at heq
          exact ⟨_, ih.2 ⟨m, c, cs, heq, hc, rfl⟩, rfl⟩
    · rw [if_pos hb]
      constructor
      · rintro ⟨⟩
        exact ⟨0, b, bs, rfl, hb, rfl⟩
      · rintro ⟨m, c, cs, heq, hc, rfl⟩
        cases m with
        | zero => simp at heq; simp [heq]
        | succ m =>
          simp only [List.replicate_succ, List.cons_append, List.cons.injEq] at heq
          exact absurd heq.1 hb

theorem incrementByOne_eq_none {v : Bytes} : incrementByOne v = none ↔ v = List.replicate v.length 255 := by
  rw [incrementByOne, Option.map_eq_none_iff, incrementRev_eq_none, List.eq_replicate_iff]
  simp

/-- "incrementing the last byte that is not 255 by one", and resetting the bytes after it. -/
theorem incrementByOne_eq_some {v w : Bytes} : incrementByOne v = some w ↔
    ∃ q c m, v = q ++ c :: List.replicate m 255 ∧ c ≠ 255 ∧ w = q ++ (c + 1) :: List.replicate m 0 := by
  rw [incrementByOne, Option.map_eq_some_iff]
  constructor
  · rintro ⟨w', hw', rfl⟩
    obtain ⟨m, c, cs, hv, hc, rfl⟩ := incrementRev_eq_some.1 hw'
    refine ⟨cs.reverse, c, m, ?_, hc, by simp⟩
    rw [← List.reverse_reverse v, hv]
    simp
  · rintro ⟨q, c, m, rfl, hc, rfl⟩
    exact ⟨_, incrementRev_eq_some.2 ⟨m, c, q.reverse, by simp, hc, rfl⟩, by simp⟩

theorem covBy_succ {c : Byte} (hc : c ≠ 255) : c ⋖ c + 1 := by
  have hv : c.val < 255 := by
    have := c.isLt
    have hne : c.val ≠ 255 := fun h => hc (Fin.ext h)
    omega
  have hs : (c + 1).val = c.val + 1 := by
    rw [Fin.val_add]
    exact Nat.mod_eq_of_lt (by omega)
  refine ⟨Fin.lt_def.2 (by omega), fun d hcd hd => ?_⟩
  have := Fin.lt_def.1 hcd
  have := Fin.lt_def.1 hd
  omega

theorem last_incrementable_unique {q q' : Bytes} {c c' : Byte} {m m' : Nat} (hc : c ≠ 255) (hc' : c' ≠ 255)
    (h : q ++ c :: List.replicate m 255 = q' ++ c' :: List.replicate m' 255) :
      q = q' ∧ c = c' ∧ m = m' := by
  have hrev : List.replicate m 255 ++ c :: q.reverse = List.replicate m' 255 ++ c' :: q'.reverse := by
    simpa using congrArg List.reverse h
  suffices hs : ∀ (m m' : Nat) (r r' : Bytes), List.replicate m 255 ++ c :: r = List.replicate m' 255 ++
    c' :: r' →
      r = r' ∧ c = c' ∧ m = m' by
    obtain ⟨hq, rest⟩ := hs m m' _ _ hrev
    exact ⟨List.reverse_injective hq, rest⟩
  clear h hrev
  intro m
  induction m with
  | zero =>
    intro m' r r' h
    cases m' with
    | zero => simp at h; exact ⟨h.2, h.1, rfl⟩
    | succ m' => simp [List.replicate_succ] at h; exact absurd h.1 hc
  | succ m ih =>
    intro m' r r' h
    cases m' with
    | zero => simp [List.replicate_succ] at h; exact absurd h.1.symm hc'
    | succ m' =>
      simp only [List.replicate_succ, List.cons_append, List.cons.injEq, true_and] at h
      obtain ⟨hr, hcc, hm⟩ := ih m' r r' h
      exact ⟨hr, hcc, by rw [hm]⟩

/-- Keys between a prefix and its increment that do not begin with the prefix. -/
def Overshoots (pre k : Bytes) : Prop :=
  ∃ q c m j, pre = q ++ c :: List.replicate m 255 ∧ c ≠ 255 ∧ j < m ∧ k = q ++ (c + 1) :: List.replicate j 0

/-- Only a prefix with a byte at its maximum overshoots. -/
theorem mem_of_overshoots {pre k : Bytes} (h : Overshoots pre k) : 255 ∈ pre := by
  obtain ⟨q, c, m, j, rfl, -, hj, -⟩ := h
  have hm : 255 ∈ List.replicate m (255 : Byte) := List.mem_replicate.2 ⟨by omega, rfl⟩
  exact List.mem_append_right q (List.mem_cons_of_mem c hm)

/-- A prefix and its increment. -/
theorem between_increment {v w k : Bytes} (h : incrementByOne v = some w) :
    (v ≤ k ∧ k < w) ↔ v <+: k ∨ Overshoots v k := by
  obtain ⟨q, c, m, rfl, hc, rfl⟩ := incrementByOne_eq_some.1 h
  rw [show (255 : Byte) = ⊤ from rfl, show (0 : Byte) = ⊥ from rfl, LexOrder.between_iff (covBy_succ hc)]
  refine or_congr Iff.rfl ?_
  constructor
  · rintro ⟨j, hj, rfl⟩
    exact ⟨q, c, m, j, rfl, hc, hj, rfl⟩
  · rintro ⟨q', c', m', j, heq, hc', hj, rfl⟩
    obtain ⟨rfl, rfl, rfl⟩ := last_incrementable_unique hc hc' heq
    exact ⟨j, hj, rfl⟩

/-- A string of 255s has no increment: everything from it on extends it. -/
theorem le_of_increment_none {v k : Bytes} (h : incrementByOne v = none) : v ≤ k ↔ v <+: k := by
  rw [incrementByOne_eq_none.1 h, show (255 : Byte) = ⊤ from rfl]
  exact LexOrder.replicate_top_le_iff

/-- Of the same length, nothing lies between a string and its increment. -/
theorem array_between {v w k : ByteArrayN 32} (h : incrementArray v = some w) :
    (v ≤ k ∧ k < w) ↔ k = v := by
  have hval : incrementByOne v.val = some w.val := by
    unfold incrementArray at h
    split at h
    · cases h
    · cases h; assumption
  rw [← Subtype.coe_le_coe, ← Subtype.coe_lt_coe, between_increment hval]
  constructor
  · rintro (hpre | ⟨q, c, m, j, hv, -, hj, hk⟩)
    · exact Subtype.ext (hpre.eq_of_length (by rw [v.2, k.2])).symm
    · have hlv := congrArg List.length hv
      have hlk := congrArg List.length hk
      simp only [v.2, k.2, List.length_append, List.length_cons, List.length_replicate] at hlv hlk
      omega
  · rintro rfl
    exact .inl (List.prefix_refl _)

theorem array_le_of_none {v k : ByteArrayN 32} (h : incrementArray v = none) : v ≤ k ↔ k = v := by
  have hval : incrementByOne v.val = none := by
    unfold incrementArray at h
    split at h
    · assumption
    · cases h
  rw [← Subtype.coe_le_coe, le_of_increment_none hval]
  constructor
  · intro hpre
    exact Subtype.ext (hpre.eq_of_length (by rw [v.2, k.2])).symm
  · rintro rfl
    exact List.prefix_refl _

theorem zeros32_le (a : ByteArrayN 32) : zeros32 ≤ a := by
  rw [← Subtype.coe_le_coe, ← not_lt]
  intro h
  obtain ⟨j, hj, heq⟩ := LexOrder.lt_replicate_bot_iff (α := Byte).1 h
  have := congrArg List.length heq
  rw [a.2, List.length_replicate] at this
  omega

theorem nil_le_bytes (k : Bytes) : ([] : Bytes) ≤ k := not_lt.1 (List.not_lt_nil k)

namespace RecordsBounds

variable {ns : NamespaceId} {author : AuthorId} {id : RecordsId}

/-- At or after the start of a namespace. -/
theorem namespaceStart_le : (⟨ns, zeros32, []⟩ : RecordsId) ≤ id ↔ ns ≤ id.ns := by
  rw [RecordsId.le_iff]
  constructor
  · rintro (h | ⟨h, -⟩)
    · exact h.le
    · exact h.le
  · intro h
    rcases h.lt_or_eq with h | h
    · exact .inl h
    · refine .inr ⟨h, ?_⟩
      rcases (zeros32_le id.author).lt_or_eq with ha | ha
      · exact .inl ha
      · exact .inr ⟨ha, nil_le_bytes _⟩

/-- Before the start of a namespace. -/
theorem lt_namespaceStart : id < (⟨ns, zeros32, []⟩ : RecordsId) ↔ id.ns < ns := by
  rw [← not_le, namespaceStart_le, not_le]

/-- The end bound of a namespace is exact. -/
theorem contains_namespace : (RecordsBounds.namespace ns).contains id = true ↔ id.ns = ns := by
  simp only [contains, «namespace», namespaceStart, namespaceEnd]
  cases h : incrementArray ns with
  | some nsEnd =>
    simp only [namespaceStart_le, lt_namespaceStart, Bool.and_eq_true, decide_eq_true_eq]
    exact array_between h
  | none =>
    simp only [namespaceStart_le, Bool.and_true, decide_eq_true_eq]
    exact array_le_of_none h

theorem not_overshoots_of_none {pre k : Bytes} (h : incrementByOne pre = none) : ¬ Overshoots pre k := by
  rintro ⟨q, c, m, j, rfl, hc, -⟩
  rw [incrementByOne_eq_some.2 ⟨q, c, m, rfl, hc, rfl⟩] at h
  cases h

/-- **What a prefix scan selects**: the keys that begin with the prefix, and those it overshoots to. -/
theorem contains_authorPrefix {pre : Bytes} : (authorPrefix ns author pre).contains id = true ↔
    id.ns = ns ∧ id.author = author ∧ (pre <+: id.key ∨ Overshoots pre id.key) := by
  simp only [contains, authorPrefix, authorKey, Bool.false_eq_true, if_false, Bool.and_eq_true,
    decide_eq_true_eq]
  cases hk : incrementByOne pre with
  | some keyEnd =>
    -- the bound is a key of the same author
    simp only [decide_eq_true_eq, RecordsId.le_iff, RecordsId.lt_iff, LexOrder.sandwich,
      between_increment hk]
  | none =>
    have hno := not_overshoots_of_none (k := id.key) hk
    simp only [hno, or_false, ← le_of_increment_none hk]
    cases ha : incrementArray author with
    | some authorEnd =>
      simp only [decide_eq_true_eq, RecordsId.le_iff, RecordsId.lt_iff, LexOrder.sandwich, List.not_lt_nil,
        and_false, or_false]
      refine and_congr_right fun _ => ?_
      constructor
      · rintro ⟨hlo, hhi⟩
        have hle : author ≤ id.author := hlo.elim le_of_lt fun h => h.1.le
        have heq := (array_between ha).1 ⟨hle, hhi⟩
        exact ⟨heq, (hlo.resolve_left (by rw [heq]; exact lt_irrefl _)).2⟩
      · rintro ⟨rfl, hlo⟩
        exact ⟨.inr ⟨rfl, hlo⟩, ((array_between ha).2 rfl).2⟩
    | none =>
      have hstart : (⟨ns, author, pre⟩ : RecordsId) ≤ id ∧ id.ns = ns ↔
          id.ns = ns ∧ id.author = author ∧ pre ≤ id.key := by
        rw [RecordsId.le_iff]
        constructor
        · rintro ⟨hlo, rfl⟩
          have hlo := (hlo.resolve_left (lt_irrefl _)).2
          have heq := (array_le_of_none ha).1 (hlo.elim le_of_lt fun h => h.1.le)
          exact ⟨rfl, heq, (hlo.resolve_left (by rw [heq]; exact lt_irrefl _)).2⟩
        · rintro ⟨rfl, rfl, hlo⟩
          exact ⟨.inr ⟨rfl, .inr ⟨rfl, hlo⟩⟩, rfl⟩
      have hns : (⟨ns, author, pre⟩ : RecordsId) ≤ id → ns ≤ id.ns := fun h =>
        (RecordsId.le_iff.1 h).elim le_of_lt fun h => h.1.le
      rw [← hstart]
      cases hn : incrementArray ns with
      | some nsEnd =>
        simp only [lt_namespaceStart, decide_eq_true_eq]
        exact and_congr_right fun h => ⟨fun hlt => (array_between hn).1 ⟨hns h, hlt⟩,
          fun heq => ((array_between hn).2 heq).2⟩
      | none =>
        simp only [and_true]
        exact ⟨fun h => ⟨h, (array_le_of_none hn).1 (hns h)⟩, And.left⟩

end RecordsBounds

end PdnStore.Fs

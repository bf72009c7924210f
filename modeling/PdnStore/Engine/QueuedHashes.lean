import PdnStore.Sync.Entry

/-!
# The hashes queued in the downloader (engine/live.rs:1079-1134)

One download serves every namespace that wants its hash. The actor keeps the pairs twice, by hash to report
the end of a download and by namespace to know when nothing of a namespace is left.

| here | there |
| --- | --- |
| `byHash`, `byNamespace` | the two maps; a set is a list without repetitions |
| `removeFrom`            | the body of the loop of `remove_hash` (`live.rs:1115-1121`) |
| `namespaces`, `hashes`  | `get(..).unwrap_or_default()` |
-/

namespace PdnStore.Engine

/-- `QueuedHashes` (live.rs:1080). -/
structure QueuedHashes where
  byHash : Hash → Option (List NamespaceId)
  byNamespace : NamespaceId → Option (List Hash)

namespace QueuedHashes

instance : Inhabited QueuedHashes := ⟨⟨fun _ => none, fun _ => none⟩⟩

variable (q : QueuedHashes)

/-- The namespaces a hash is queued for. -/
def namespaces (hash : Hash) : List NamespaceId := (q.byHash hash).getD []

/-- The hashes queued for a namespace. -/
def hashes (ns : NamespaceId) : List Hash := (q.byNamespace ns).getD []

/-- `QueuedHashes::insert` (live.rs:1104). -/
def insert (hash : Hash) (ns : NamespaceId) : QueuedHashes where
  byHash := Function.update q.byHash hash (some ((q.namespaces hash).insert ns))
  byNamespace := Function.update q.byNamespace ns (some ((q.hashes ns).insert hash))

/-- Take the hash from one namespace; a namespace it was the last hash of is added to the list. -/
def removeFrom (hash : Hash) (acc : List NamespaceId × (NamespaceId → Option (List Hash))) (ns : NamespaceId) :
    List NamespaceId × (NamespaceId → Option (List Hash)) :=
  match acc.2 ns with
  | none => acc
  | some hashes =>
    match hashes.filter (· != hash) with
    | [] => (acc.1 ++ [ns], Function.update acc.2 ns none)
    | hashes => (acc.1, Function.update acc.2 ns (some hashes))

/-- `QueuedHashes::remove_hash` (live.rs:1112). -/
def removeHash (hash : Hash) : List NamespaceId × QueuedHashes :=
  let (removed, byNamespace) := (q.namespaces hash).foldl (removeFrom hash) ([], q.byNamespace)
  (removed, ⟨Function.update q.byHash hash none, byNamespace⟩)

/-- `QueuedHashes::contains_hash` (live.rs:1127). -/
def containsHash (hash : Hash) : Bool := (q.byHash hash).isSome

/-- `QueuedHashes::contains_namespace` (live.rs:1131). -/
def containsNamespace (ns : NamespaceId) : Bool := (q.byNamespace ns).isSome

/-- The maps are inverse to each other, and hold no empty set. -/
structure WF : Prop where
  inverse : ∀ {hash ns}, ns ∈ q.namespaces hash ↔ hash ∈ q.hashes ns
  byHash_ne : ∀ hash, q.byHash hash ≠ some []
  byNamespace_ne : ∀ ns, q.byNamespace ns ≠ some []

theorem wf_default : (default : QueuedHashes).WF := by
  constructor <;> simp [default, namespaces, hashes]

section

variable {q : QueuedHashes} {hash hash' : Hash} {ns ns' : NamespaceId}

/-! ## Inserting -/

@[simp] theorem mem_namespaces_insert : ns' ∈ (q.insert hash ns).namespaces hash' ↔
    (hash' = hash ∧ ns' = ns) ∨ ns' ∈ q.namespaces hash' := by
  by_cases h : hash' = hash
  · subst h
    simp [insert, namespaces, List.mem_insert_iff]
  · simp [insert, namespaces, h]

@[simp] theorem mem_hashes_insert : hash' ∈ (q.insert hash ns).hashes ns' ↔
    (hash' = hash ∧ ns' = ns) ∨ hash' ∈ q.hashes ns' := by
  by_cases h : ns' = ns
  · subst h
    simp [insert, hashes, List.mem_insert_iff]
  · simp [insert, hashes, h]

theorem containsNamespace_insert_self : (q.insert hash ns).containsNamespace ns = true := by
  simp [insert, containsNamespace]

theorem containsNamespace_insert_of_ne (h : ns' ≠ ns) :
    (q.insert hash ns).containsNamespace ns' = q.containsNamespace ns' := by
  simp [insert, containsNamespace, h]

theorem wf_insert (h : q.WF) : (q.insert hash ns).WF where
  inverse := by
    intro hash' ns'
    rw [mem_namespaces_insert, mem_hashes_insert, h.inverse]
  byHash_ne := by
    intro hash' hempty
    by_cases heq : hash' = hash
    · subst heq
      have hmem : ns ∈ (q.namespaces hash').insert ns := List.mem_insert_self
      simp only [insert, Function.update_self, Option.some.injEq] at hempty
      rw [hempty] at hmem
      cases hmem
    · exact h.byHash_ne hash' (by simpa [insert, heq] using hempty)
  byNamespace_ne := by
    intro ns' hempty
    by_cases heq : ns' = ns
    · subst heq
      have hmem : hash ∈ (q.hashes ns').insert hash := List.mem_insert_self
      simp only [insert, Function.update_self, Option.some.injEq] at hempty
      rw [hempty] at hmem
      cases hmem
    · exact h.byNamespace_ne ns' (by simpa [insert, heq] using hempty)

/-! ## Removing a hash -/

/-- What the loop leaves of an entry it visits. -/
def pruned (hash : Hash) : Option (List Hash) → Option (List Hash)
  | none => none
  | some hashes => if hashes.filter (· != hash) = [] then none else some (hashes.filter (· != hash))

theorem pruned_pruned {entry : Option (List Hash)} : pruned hash (pruned hash entry) = pruned hash entry := by
  cases entry with
  | none => rfl
  | some hashes =>
    by_cases h : hashes.filter (· != hash) = []
    · simp [pruned, h]
    · simp only [pruned, if_neg h, List.filter_filter, Bool.and_self]

theorem mem_pruned {entry : Option (List Hash)} :
    hash' ∈ (pruned hash entry).getD [] ↔ hash' ∈ entry.getD [] ∧ hash' ≠ hash := by
  cases entry with
  | none => simp [pruned]
  | some hashes =>
    have hmem : hash' ∈ hashes.filter (· != hash) ↔ hash' ∈ hashes ∧ hash' ≠ hash := by simp
    by_cases h : hashes.filter (· != hash) = []
    · rw [pruned, if_pos h]
      rwa [h] at hmem
    · rw [pruned, if_neg h]
      exact hmem

theorem pruned_eq_none_iff {entry : Option (List Hash)} :
    pruned hash entry = none ↔ ∀ hash' ∈ entry.getD [], hash' = hash := by
  cases entry with
  | none => simp [pruned]
  | some hashes => simp [pruned]

theorem pruned_ne_some_nil {entry : Option (List Hash)} : pruned hash entry ≠ some [] := by
  cases entry with
  | none => simp [pruned]
  | some hashes =>
    by_cases h : hashes.filter (· != hash) = []
    · simp [pruned, h]
    · rw [pruned, if_neg h]
      simpa only [ne_eq, Option.some.injEq] using h

theorem removeFrom_eq (acc : List NamespaceId × (NamespaceId → Option (List Hash))) :
    removeFrom hash acc ns =
      (if acc.2 ns ≠ none ∧ pruned hash (acc.2 ns) = none then acc.1 ++ [ns] else acc.1,
        Function.update acc.2 ns (pruned hash (acc.2 ns))) := by
  unfold removeFrom
  cases hentry : acc.2 ns with
  | none =>
    have hself : Function.update acc.2 ns none = acc.2 := by rw [← hentry, Function.update_eq_self]
    simp [pruned, hself]
  | some hashes =>
    dsimp only
    split
    next hnil => simp [pruned, hnil]
    next hne => simp [pruned, if_neg hne]

theorem byNamespace_foldl (l : List NamespaceId) (acc : List NamespaceId × (NamespaceId → Option (List Hash))) :
    (l.foldl (removeFrom hash) acc).2 ns = if ns ∈ l then pruned hash (acc.2 ns) else acc.2 ns := by
  induction l generalizing acc with
  | nil => simp
  | cons n l ih =>
    rw [List.foldl_cons, ih, removeFrom_eq]
    by_cases hn : ns = n
    · subst hn
      simp [pruned_pruned]
    · simp [hn]

theorem mem_removed_foldl (l : List NamespaceId)
    (acc : List NamespaceId × (NamespaceId → Option (List Hash))) :
    ns ∈ (l.foldl (removeFrom hash) acc).1 ↔
      ns ∈ acc.1 ∨ (ns ∈ l ∧ acc.2 ns ≠ none ∧ pruned hash (acc.2 ns) = none) := by
  induction l generalizing acc with
  | nil => simp
  | cons n l ih =>
    rw [List.foldl_cons, ih, removeFrom_eq]
    by_cases hn : ns = n
    · subst hn
      by_cases hlast : acc.2 ns ≠ none ∧ pruned hash (acc.2 ns) = none
      · simp [hlast]
      · rw [if_neg hlast]
        have hagain : ¬ (pruned hash (acc.2 ns) ≠ none ∧ pruned hash (acc.2 ns) = none) := fun h => h.1 h.2
        simp only [Function.update_self, pruned_pruned]
        tauto
    · have hlist : ns ∈ (if acc.2 n ≠ none ∧ pruned hash (acc.2 n) = none then acc.1 ++ [n] else acc.1) ↔
          ns ∈ acc.1 := by
        split <;> simp [hn]
      simp only [hlist, Function.update_of_ne hn, List.mem_cons, hn, false_or]

/-- Only the hash itself loses its namespaces. -/
@[simp] theorem namespaces_removeHash :
    (q.removeHash hash).2.namespaces hash' = if hash' = hash then [] else q.namespaces hash' := by
  by_cases h : hash' = hash
  · subst h
    simp [removeHash, namespaces]
  · simp [removeHash, namespaces, h]

@[simp] theorem containsHash_removeHash_self : (q.removeHash hash).2.containsHash hash = false := by
  simp [removeHash, containsHash]

theorem byNamespace_removeHash : (q.removeHash hash).2.byNamespace ns =
    if ns ∈ q.namespaces hash then pruned hash (q.byNamespace ns) else q.byNamespace ns :=
  byNamespace_foldl _ _

theorem wf_removeHash (h : q.WF) : (q.removeHash hash).2.WF where
  inverse := by
    intro hash' ns
    rw [namespaces_removeHash, hashes, byNamespace_removeHash]
    by_cases hns : ns ∈ q.namespaces hash
    · rw [if_pos hns, mem_pruned, ← hashes, ← h.inverse]
      by_cases heq : hash' = hash <;> simp [heq]
    · rw [if_neg hns, ← hashes, ← h.inverse]
      by_cases heq : hash' = hash
      · subst heq
        simp [hns]
      · simp [heq]
  byHash_ne := by
    intro hash' hempty
    by_cases heq : hash' = hash
    · subst heq
      simp [removeHash] at hempty
    · exact h.byHash_ne hash' (by simpa [removeHash, heq] using hempty)
  byNamespace_ne := by
    intro ns hempty
    rw [byNamespace_removeHash] at hempty
    split at hempty
    · exact pruned_ne_some_nil hempty
    · exact h.byNamespace_ne ns hempty

/-- A namespace that is returned has nothing queued any more. -/
theorem containsNamespace_of_mem_removed (h : ns ∈ (q.removeHash hash).1) :
    (q.removeHash hash).2.containsNamespace ns = false := by
  obtain hnil | ⟨hns, -, hpruned⟩ := (mem_removed_foldl _ _).1 h
  · cases hnil
  · rw [containsNamespace, byNamespace_removeHash, if_pos hns, hpruned]
    rfl

/-- The namespaces returned: the hash was all they had queued. -/
theorem mem_removed_iff (h : q.WF) :
    ns ∈ (q.removeHash hash).1 ↔ ∀ hash', hash' ∈ q.hashes ns ↔ hash' = hash := by
  refine (mem_removed_foldl _ _).trans ?_
  simp only [List.not_mem_nil, false_or]
  rw [pruned_eq_none_iff, ← hashes, h.inverse]
  constructor
  · rintro ⟨hmem, -, hall⟩ hash'
    exact ⟨hall hash', fun heq => heq ▸ hmem⟩
  · intro hall
    have hmem : hash ∈ q.hashes ns := (hall hash).2 rfl
    refine ⟨hmem, ?_, fun hash' => (hall hash').1⟩
    intro hnone
    rw [hashes, hnone] at hmem
    cases hmem

/-! ## Each namespace once -/

/-- The lists are sets: no element twice. -/
structure Distinct (q : QueuedHashes) : Prop where
  namespaces : ∀ hash, (q.namespaces hash).Nodup
  hashes : ∀ ns, (q.hashes ns).Nodup

theorem distinct_default : (default : QueuedHashes).Distinct := by
  constructor <;> simp [default, namespaces, hashes]

theorem distinct_insert (h : q.Distinct) : (q.insert hash ns).Distinct where
  namespaces := by
    intro hash'
    by_cases heq : hash' = hash
    · subst heq
      simpa [insert, QueuedHashes.namespaces] using (h.namespaces hash').insert
    · simpa [insert, QueuedHashes.namespaces, heq] using h.namespaces hash'
  hashes := by
    intro ns'
    by_cases heq : ns' = ns
    · subst heq
      simpa [insert, QueuedHashes.hashes] using (h.hashes ns').insert
    · simpa [insert, QueuedHashes.hashes, heq] using h.hashes ns'

theorem nodup_pruned {entry : Option (List Hash)} (h : (entry.getD []).Nodup) :
    ((pruned hash entry).getD []).Nodup := by
  cases entry with
  | none => simp [pruned]
  | some hashes =>
    have hfilter : (hashes.filter (· != hash)).Nodup := List.Nodup.filter _ h
    by_cases hnil : hashes.filter (· != hash) = []
    · simp [pruned, hnil]
    · simpa [pruned, if_neg hnil] using hfilter

theorem distinct_removeHash (h : q.Distinct) : (q.removeHash hash).2.Distinct where
  namespaces := by
    intro hash'
    rw [namespaces_removeHash]
    split
    · exact List.nodup_nil
    · exact h.namespaces hash'
  hashes := by
    intro ns
    rw [QueuedHashes.hashes, byNamespace_removeHash]
    split
    · exact nodup_pruned (h.hashes ns)
    · exact h.hashes ns

/-- The loop adds each namespace it visits at most once. -/
theorem nodup_removed_foldl {l : List NamespaceId} (hl : l.Nodup)
    {acc : List NamespaceId × (NamespaceId → Option (List Hash))} (hacc : acc.1.Nodup)
    (hnew : ∀ ns ∈ l, ns ∉ acc.1) : (l.foldl (removeFrom hash) acc).1.Nodup := by
  induction l generalizing acc with
  | nil => exact hacc
  | cons n l ih =>
    obtain ⟨hn, hl⟩ := List.nodup_cons.1 hl
    rw [List.foldl_cons, removeFrom_eq]
    apply ih hl
    · split
      · exact List.nodup_append.2 ⟨hacc, List.nodup_singleton n, fun a ha b hb hab =>
          hnew n (.head _) (by rw [← List.mem_singleton.1 hb, ← hab]; exact ha)⟩
      · exact hacc
    · intro ns hns
      have hne : ns ≠ n := fun heq => hn (heq ▸ hns)
      have hold : ns ∉ acc.1 := hnew ns (.tail _ hns)
      split
      · simp [hold, hne]
      · exact hold

theorem nodup_removed (h : q.Distinct) : (q.removeHash hash).1.Nodup :=
  nodup_removed_foldl (h.namespaces hash) List.nodup_nil fun _ _ => List.not_mem_nil

/-- A namespace the hash was queued for is returned unless something else is still queued for it. -/
theorem mem_removed_iff_containsNamespace (h : q.WF) :
    ns ∈ (q.removeHash hash).1 ↔
      ns ∈ q.namespaces hash ∧ (q.removeHash hash).2.containsNamespace ns = false := by
  constructor
  · intro hmem
    exact ⟨h.inverse.2 (((mem_removed_iff h).1 hmem hash).2 rfl), containsNamespace_of_mem_removed hmem⟩
  · rintro ⟨hns, hgone⟩
    refine (mem_removed_foldl _ _).2 (.inr ⟨hns, ?_, ?_⟩)
    · intro hnone
      have hmem : hash ∈ q.hashes ns := h.inverse.1 hns
      rw [QueuedHashes.hashes, show q.byNamespace ns = none from hnone] at hmem
      cases hmem
    · rw [containsNamespace, byNamespace_removeHash, if_pos hns] at hgone
      simpa using hgone

/-- The pairs of the other hashes stay. -/
theorem mem_hashes_removeHash (h : q.WF) :
    hash' ∈ (q.removeHash hash).2.hashes ns ↔ hash' ∈ q.hashes ns ∧ hash' ≠ hash := by
  rw [← (wf_removeHash h).inverse, namespaces_removeHash, ← h.inverse]
  by_cases heq : hash' = hash <;> simp [heq]

/-! ## Any sequence of operations -/

/-- What the live actor does to its queued hashes (live.rs:1104, 1112). -/
inductive Op where
  | insert (hash : Hash) (ns : NamespaceId)
  | removeHash (hash : Hash)

def step (q : QueuedHashes) : Op → QueuedHashes
  | .insert hash ns => q.insert hash ns
  | .removeHash hash => (q.removeHash hash).2

/-- The queued hashes after the operations, from none. -/
def reached (ops : List Op) : QueuedHashes := ops.foldl step default

theorem wf_step (op : Op) (h : q.WF) : (q.step op).WF := by
  cases op with
  | insert hash ns => exact wf_insert h
  | removeHash hash => exact wf_removeHash h

theorem distinct_step (op : Op) (h : q.Distinct) : (q.step op).Distinct := by
  cases op with
  | insert hash ns => exact distinct_insert h
  | removeHash hash => exact distinct_removeHash h

theorem wf_reached (ops : List Op) : (reached ops).WF :=
  List.foldlRecOn ops step wf_default fun _ h op _ => wf_step op h

theorem distinct_reached (ops : List Op) : (reached ops).Distinct :=
  List.foldlRecOn ops step distinct_default fun _ h op _ => distinct_step op h

/-- The two maps are inverse to each other and hold no empty set; `remove_hash` returns, each once, the
namespaces that waited for nothing but the hash, and touches no other pair. -/
theorem queued_hashes_inverse (ops : List Op) :
    (∀ hash ns, ns ∈ (reached ops).namespaces hash ↔ hash ∈ (reached ops).hashes ns) ∧
    (∀ hash, (reached ops).byHash hash ≠ some []) ∧
    (∀ ns, (reached ops).byNamespace ns ≠ some []) ∧
    ∀ hash, ((reached ops).removeHash hash).1.Nodup ∧
      (∀ ns, ns ∈ ((reached ops).removeHash hash).1 ↔ ns ∈ (reached ops).namespaces hash ∧
        ((reached ops).removeHash hash).2.containsNamespace ns = false) ∧
      (∀ hash' ns, ns ∈ ((reached ops).removeHash hash).2.namespaces hash' ↔
        ns ∈ (reached ops).namespaces hash' ∧ hash' ≠ hash) ∧
      ∀ hash' ns, hash' ∈ ((reached ops).removeHash hash).2.hashes ns ↔
        hash' ∈ (reached ops).hashes ns ∧ hash' ≠ hash := by
  have hwf := wf_reached ops
  refine ⟨fun hash ns => hwf.inverse, hwf.byHash_ne, hwf.byNamespace_ne, ?_⟩
  intro hash
  refine ⟨nodup_removed (distinct_reached ops), fun ns => mem_removed_iff_containsNamespace hwf, ?_, ?_⟩
  · intro hash' ns
    rw [namespaces_removeHash]
    by_cases heq : hash' = hash <;> simp [heq]
  · exact fun hash' ns => mem_hashes_removeHash hwf

end

end QueuedHashes

end PdnStore.Engine

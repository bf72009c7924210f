import PdnStore.Store.FsStore

/-!
# The capabilities a store holds (sync.rs:259-300, store/fs.rs:443-470)

`namespaces` maps the id of a namespace to the raw form of a capability for it. An import inserts one, or
merges it into the one that is there: a capability to read is upgraded by one to write, and nothing is ever
downgraded. The table stays well keyed: a row is a capability for the namespace it is stored under.
-/

namespace PdnStore.Fs

open Ranger Sync

/-! ## Stored capabilities -/

theorem raw_injective {c c' : Capability} (h : c.raw = c'.raw) : c = c' := by
  have hc := Capability.fromRaw_raw c
  rw [h, Capability.fromRaw_raw] at hc
  cases hc
  rfl

section Stored

variable [Ed25519]

/-- Every row of the namespaces table is a capability for the namespace it is stored under. -/
def WellKeyed (s : FsStore) : Prop :=
  ∀ ns raw, s.namespaces.get? ns = some raw → ∃ c : Capability, raw = c.raw ∧ c.id = ns

/-- A merge keeps the capability, or upgrades it to write. -/
theorem merge_eq_ok {c other c' : Capability} {changed : Bool} (h : c.merge other = .ok (changed, c')) :
    other.id = c.id ∧ ((changed = false ∧ c' = c) ∨
      (changed = true ∧ ∃ id secret, c = .read id ∧ other = .write secret ∧ c' = other)) := by
  unfold Capability.merge at h
  by_cases hid : other.id = c.id
  · refine ⟨hid, ?_⟩
    rw [if_neg (not_not.2 hid)] at h
    cases c with
    | write secret =>
      cases h
      exact .inl ⟨rfl, rfl⟩
    | read id =>
      cases other with
      | write secret =>
        cases h
        exact .inr ⟨rfl, id, secret, rfl, rfl, rfl⟩
      | read id' =>
        cases h
        exact .inl ⟨rfl, rfl⟩
  · rw [if_pos hid] at h
    cases h

theorem merge_ok {c other : Capability} (h : other.id = c.id) : ∃ changed c', c.merge other = .ok (changed, c') := by
  unfold Capability.merge
  rw [if_neg (not_not.2 h)]
  split
  · exact ⟨_, _, rfl⟩
  · exact ⟨_, _, rfl⟩

/-- **What an import does**: it writes the capability of its namespace, new, as it was, or upgraded. -/
theorem importNamespace_cases {s : FsStore} (h : WellKeyed s) (c : Capability) :
    (s.namespaces.get? c.id = none ∧
      s.importNamespace c = ({ s with namespaces := s.namespaces.insert c.id c.raw }, .ok .inserted)) ∨
    (∃ old : Capability, s.namespaces.get? c.id = some old.raw ∧ old.id = c.id ∧
      s.importNamespace c = ({ s with namespaces := s.namespaces.insert c.id old.raw }, .ok .noChange)) ∨
    (∃ id secret, s.namespaces.get? c.id = some (Capability.read id).raw ∧ c = .write secret ∧
      (Capability.read id).merge c = .ok (true, c) ∧
      s.importNamespace c = ({ s with namespaces := s.namespaces.insert c.id c.raw }, .ok .upgraded)) := by
  unfold FsStore.importNamespace
  cases hget : s.namespaces.get? c.id with
  | none => exact .inl ⟨rfl, rfl⟩
  | some raw =>
    obtain ⟨old, rfl, hid⟩ := h _ _ hget
    obtain ⟨changed, merged, hmerge⟩ := merge_ok hid.symm
    simp only [Capability.fromRaw_raw, hmerge]
    rcases (merge_eq_ok hmerge).2 with ⟨rfl, rfl⟩ | ⟨rfl, id, secret, rfl, rfl, rfl⟩
    · exact .inr (.inl ⟨merged, rfl, hid, by simp [hid]⟩)
    · exact .inr (.inr ⟨id, secret, rfl, rfl, hmerge, by simp⟩)

/-- The namespaces table after an import. -/
theorem namespaces_importNamespace {s : FsStore} (h : WellKeyed s) (c : Capability) :
    ∃ c' : Capability, c'.id = c.id ∧ (s.importNamespace c).1.namespaces = s.namespaces.insert c.id c'.raw ∧
      ∀ secret, s.namespaces.get? c.id = some (Capability.write secret).raw → c' = .write secret := by
  rcases importNamespace_cases h c with ⟨hnone, heq⟩ | ⟨old, hold, hid, heq⟩ | ⟨id, secret, hread, rfl, -, heq⟩
  · refine ⟨c, rfl, by rw [heq], ?_⟩
    intro secret hs
    rw [hnone] at hs
    cases hs
  · refine ⟨old, hid, by rw [heq], ?_⟩
    intro secret hs
    rw [hold] at hs
    exact raw_injective (Option.some.inj hs)
  · refine ⟨_, rfl, by rw [heq], ?_⟩
    intro secret' hs
    rw [hread] at hs
    cases raw_injective (Option.some.inj hs)

theorem WellKeyed.insert {s : FsStore} (h : WellKeyed s) (c : Capability) {s' : FsStore}
    (hs : s'.namespaces = s.namespaces.insert c.id c.raw) : WellKeyed s' := by
  intro ns raw hget
  rw [hs] at hget
  rcases SortedMap.get?_insert_cases hget with ⟨rfl, rfl⟩ | ⟨-, hget⟩
  · exact ⟨c, rfl, rfl⟩
  · exact h ns raw hget

theorem WellKeyed.importNamespace {s : FsStore} (h : WellKeyed s) (c : Capability) :
    WellKeyed (s.importNamespace c).1 := by
  obtain ⟨c', hid, hs, -⟩ := namespaces_importNamespace h c
  rw [← hid] at hs
  exact h.insert c' hs

theorem WellKeyed.removeReplica {s : FsStore} (h : WellKeyed s) (ns : NamespaceId) :
    WellKeyed (s.removeReplica ns).1 := by
  unfold FsStore.removeReplica
  split
  · exact h
  · intro ns' raw hget
    exact h ns' raw (SortedMap.get?_filter_eq_some.1 hget).1

section StoreRun

variable [Blake3]

theorem WellKeyed.step {s : FsStore} (h : WellKeyed s) (op : Op) : WellKeyed (s.step op) := by
  cases op with
  | importNamespace c => exact h.importNamespace c
  | removeReplica ns => exact h.removeReplica ns
  | retractEntry ns author key upTo =>
    show WellKeyed (s.retractEntry ns author key upTo).1
    unfold FsStore.retractEntry
    repeat' split
    all_goals exact h
  | loadReplicaInfo ns =>
    show WellKeyed (s.loadReplicaInfo ns).1
    unfold FsStore.loadReplicaInfo
    repeat' split
    all_goals exact h
  | registerUsefulPeer ns nanos peer =>
    show WellKeyed (s.registerUsefulPeer ns nanos peer).1
    unfold FsStore.registerUsefulPeer
    repeat' split
    all_goals exact h
  | setDownloadPolicy ns policy =>
    show WellKeyed (s.setDownloadPolicy ns policy).1
    unfold FsStore.setDownloadPolicy
    split <;> exact h
  | migrateLatest =>
    show WellKeyed s.migrateLatest
    unfold FsStore.migrateLatest
    split <;> exact h
  | migrateByKey =>
    show WellKeyed s.migrateByKey
    unfold FsStore.migrateByKey
    split <;> exact h
  | put e => exact h
  | removePrefixFiltered id p => exact h
  | closeReplica ns => exact h

/-- The namespaces table of a store is well keyed after any run of writes. -/
theorem wellKeyed_run (ops : List Op) : WellKeyed ((default : FsStore).run ops) := by
  have hstep : ∀ (s : FsStore) (op : Op), WellKeyed s → WellKeyed (s.step op) := fun s op h => h.step op
  have hstart : WellKeyed (default : FsStore) := by
    intro ns raw h
    cases h
  exact FsStore.run_preserves hstep hstart ops

end StoreRun

end Stored

end PdnStore.Fs

import PdnStore.Store.Instance

/-!
# `StoreInstance::put` against the reference insert (fs.rs:984-1051, ranger.rs:613-656)

`put` refuses an entry when `parents` finds one that supersedes it, and otherwise removes what the
prefix bounds select. Both differ from the prefix relation. `parents` sees neither tombstones nor the
entry at the empty key, so an entry superseded only by such a one is inserted over it; and the bounds of
a key ending in 255 reach past the keys that begin with it, so an insertion can remove an unrelated
entry. `put_agrees_iff` says that these two are the only differences.
-/

namespace PdnStore.Fs

open Ranger

/-- `p` has the key of `e` or a prefix of it, and at least its value. -/
def supersedes (p e : SignedEntry) : Bool := isPrefixOf p.id e.id && decide
    (e.record.value ≤ p.record.value)

/-- The reference insert, on a set of entries: what the trait's comments and the in-memory store say. -/
def referencePut (l : List SignedEntry) (e : SignedEntry) : InsertOutcome × List SignedEntry :=
  if l.any (supersedes · e) then (.notInserted, l)
  else (.inserted (l.filter (supersedes e)).length, e :: l.filter fun e' => !supersedes e e')

/-- `parents` can find it: neither a tombstone nor at the empty key. -/
def Visible (p : SignedEntry) : Prop := p.record.isEmpty = false ∧ p.id.key ≠ []

instance (p : SignedEntry) : Decidable (Visible p) := inferInstanceAs (Decidable (_ ∧ _))

section Agreement

variable {ns : NamespaceId} [Blake3]

/-- `put` has the outcome and leaves the entries of the reference insert. -/
def PutAgrees (s : StoreInstance ns) (e : SignedEntry) : Prop :=
  (put s e).1 = (referencePut s.tables.entries e).1 ∧
    ∀ e', e' ∈ (put s e).2.tables.entries ↔ e' ∈ (referencePut s.tables.entries e).2

/-- `would_insert` misses exactly the entries that are not visible. -/
theorem wouldInsert_eq_false {s : StoreInstance ns} {e : SignedEntry} :
    wouldInsert s e = false ↔ ∃ p ∈ s.tables.entries, supersedes p e = true ∧ Visible p := by
  simp only [wouldInsert, Bool.not_eq_eq_eq_not, Bool.not_false, List.any_eq_true, decide_eq_true_eq]
  constructor
  · rintro ⟨p, hp, hv⟩
    obtain ⟨hmem, hpre, he, hk⟩ := StoreInstance.mem_prefixesOf.1 hp
    have hsup : supersedes p e = true := by
      simp only [supersedes, Bool.and_eq_true, decide_eq_true_eq]
      exact ⟨hpre, hv⟩
    exact ⟨p, hmem, hsup, he, hk⟩
  · rintro ⟨p, hmem, hsup, he, hk⟩
    simp only [supersedes, Bool.and_eq_true, decide_eq_true_eq] at hsup
    exact ⟨p, StoreInstance.mem_prefixesOf.2 ⟨hmem, hsup.1, he, hk⟩, hsup.2⟩

theorem put_eq_of_wouldInsert {s : StoreInstance ns} {e : SignedEntry} (h : wouldInsert s e = true) :
    put s e = (.inserted (Store.removePrefixFiltered s (key e) fun v => value e ≥ v).1,
      Store.entryPut (Store.removePrefixFiltered s (key e) fun v => value e ≥ v).2 e) := by
  simp [put, h]

/-- The entries an insertion takes out: those it supersedes, and those its bounds overshoot to. -/
theorem extracted_iff {e e' : SignedEntry} :
    StoreInstance.extracted (key e) (fun v => value e ≥ v) (row e') = true ↔
      supersedes e e' = true ∨ (e'.id.namespace = e.id.namespace ∧ e'.id.author = e.id.author ∧
        Overshoots e.id.key e'.id.key ∧ e'.record.value ≤ e.record.value) := by
  rw [StoreInstance.extracted_row]
  simp only [supersedes, Bool.and_eq_true, decide_eq_true_eq, key, value, ge_iff_le]
  tauto

/-- The entries left by an insertion. -/
theorem mem_put {s : StoreInstance ns} {e e' : SignedEntry} (h : wouldInsert s e = true) :
    e' ∈ (put s e).2.tables.entries ↔ e' = e ∨ (e' ∈ s.tables.entries ∧
      StoreInstance.extracted (key e) (fun v => value e ≥ v) (row e') = false ∧ e'.id ≠ e.id) := by
  rw [put_eq_of_wouldInsert h, StoreInstance.mem_entryPut, StoreInstance.mem_removePrefixFiltered]
  tauto

omit [Blake3] in
/-- Two entries with the same identifier: one supersedes the other. -/
theorem supersedes_total {e e' : SignedEntry} (h : e'.id = e.id) : supersedes e e' = true ∨
    supersedes e' e = true := by
  have hpre : isPrefixOf e.id e.id = true := RangeKey.prefix_refl _
  simp only [supersedes, h, hpre, Bool.true_and, decide_eq_true_eq]
  exact le_total _ _

omit [Blake3] in
/-- An entry at an overshot key does not begin with the prefix. -/
theorem not_isPrefixOf_of_overshoots {e e' : SignedEntry} (h : Overshoots e.id.key e'.id.key) :
    supersedes e e' = false := by
  simp only [supersedes, Bool.and_eq_false_iff]
  left
  by_contra hc
  obtain ⟨-, -, t, ht⟩ := RecordIdentifier.isPrefixOf_iff.1 (by simpa using hc)
  obtain ⟨q, c, m, j, hpre, hc, hj, hk⟩ := h
  -- the prefix is longer than the overshot key
  have h1 := congrArg List.length hpre
  have h2 := congrArg List.length hk
  have h3 := congrArg List.length ht
  simp only [List.length_append, List.length_cons, List.length_replicate] at h1 h2 h3
  omega

/-- Refused by both. -/
theorem putAgrees_of_visible {s : StoreInstance ns} {e p : SignedEntry} (hp : p ∈ s.tables.entries)
    (hsup : supersedes p e = true) (hv : Visible p) : PutAgrees s e := by
  have hw : wouldInsert s e = false := wouldInsert_eq_false.2 ⟨p, hp, hsup, hv⟩
  have hany : (s.tables.entries.any (supersedes · e)) = true := List.any_eq_true.2 ⟨p, hp, hsup⟩
  unfold PutAgrees referencePut
  rw [put_of_not_wouldInsert hw, if_pos hany]
  exact ⟨rfl, fun _ => Iff.rfl⟩

/-- Inserted by the code, refused by the reference. -/
theorem not_putAgrees_of_hidden {s : StoreInstance ns} {e p : SignedEntry} (hp : p ∈ s.tables.entries)
    (hsup : supersedes p e = true) (hv : ∀ p ∈ s.tables.entries, supersedes p e = true → ¬ Visible p) :
    ¬ PutAgrees s e := by
  have hw : wouldInsert s e = true := by
    by_contra hw
    obtain ⟨p', hp', hsup', hv'⟩ := wouldInsert_eq_false.1 (by simpa using hw)
    exact hv p' hp' hsup' hv'
  have hany : (s.tables.entries.any (supersedes · e)) = true := List.any_eq_true.2 ⟨p, hp, hsup⟩
  rintro ⟨hout, -⟩
  rw [put_eq_of_wouldInsert hw, referencePut, if_pos hany] at hout
  cases hout

/-- Inserted by both: they agree unless the bounds overshoot. -/
theorem putAgrees_of_not_superseded {s : StoreInstance ns} {e : SignedEntry}
    (hsup : ∀ p ∈ s.tables.entries, supersedes p e = false) :
    PutAgrees s e ↔ ∀ e' ∈ s.tables.entries, e'.id.namespace = e.id.namespace → e'.id.author = e.id.author →
      Overshoots e.id.key e'.id.key → ¬ e'.record.value ≤ e.record.value := by
  have hw : wouldInsert s e = true := by
    by_contra hw
    obtain ⟨p, hp, hsup', -⟩ := wouldInsert_eq_false.1 (by simpa using hw)
    rw [hsup p hp] at hsup'
    cases hsup'
  have hany : (s.tables.entries.any (supersedes · e)) = false :=
    List.any_eq_false.2 fun p hp => by simp [hsup p hp]
  have hmem : ∀ e', e' ∈ (referencePut s.tables.entries e).2 ↔ e' = e ∨
    (e' ∈ s.tables.entries ∧ supersedes e e' = false) := by
    intro e'
    simp [referencePut, hany]
  constructor
  · rintro ⟨-, hset⟩ e' he' hns ha hover hle
    have hne : e' ≠ e := by
      rintro rfl
      obtain ⟨q, c, m, j, h1, -, hj, h2⟩ := hover
      have := congrArg List.length (h1.symm.trans h2)
      simp only [List.length_append, List.length_cons, List.length_replicate] at this
      omega
    have hin := (hset e').2 ((hmem e').2 (.inr ⟨he', not_isPrefixOf_of_overshoots hover⟩))
    obtain ⟨-, hx, -⟩ := ((mem_put hw).1 hin).resolve_left hne
    rw [extracted_iff.2 (.inr ⟨hns, ha, hover, hle⟩)] at hx
    cases hx
  · intro hover
    -- the rows taken out are those of the entries superseded
    have hext : ∀ e' ∈ s.tables.entries,
        StoreInstance.extracted (key e) (fun v => value e ≥ v) (row e') = supersedes e e' := by
      intro e' he'
      rw [Bool.eq_iff_iff, extracted_iff]
      constructor
      · rintro (h | ⟨hns, ha, ho, hle⟩)
        · exact h
        · exact absurd hle (hover e' he' hns ha ho)
      · exact .inl
    constructor
    · rw [put_eq_of_wouldInsert hw, referencePut, hany]
      show InsertOutcome.inserted (s.tables.records.toList.filter _).length = InsertOutcome.inserted _
      rw [Tables.entries, List.filter_map, List.length_map]
      congr 2
      apply List.filter_congr
      intro r hr
      have := hext (intoEntry r) (List.mem_map_of_mem hr)
      rwa [row_intoEntry] at this
    · intro e'
      rw [mem_put hw, hmem e']
      refine or_congr Iff.rfl (and_congr_right fun he' => ?_)
      rw [hext e' he']
      refine ⟨And.left, fun hs => ⟨hs, fun hid => ?_⟩⟩
      rcases supersedes_total hid with h | h
      · rw [hs] at h; cases h
      · rw [hsup e' he'] at h; cases h

/-- **When the persistent insert is the reference insert.** -/
theorem put_agrees_iff (s : StoreInstance ns) (e : SignedEntry) : PutAgrees s e ↔
    ((∃ p ∈ s.tables.entries, supersedes p e = true) → ∃ p ∈ s.tables.entries, supersedes p e = true ∧
      Visible p) ∧
    ((∀ p ∈ s.tables.entries, supersedes p e = false) →
      ∀ e' ∈ s.tables.entries, e'.id.namespace = e.id.namespace → e'.id.author = e.id.author →
        Overshoots e.id.key e'.id.key → ¬ e'.record.value ≤ e.record.value) := by
  by_cases hsup : ∃ p ∈ s.tables.entries, supersedes p e = true
  · have hsome : ¬ ∀ p ∈ s.tables.entries, supersedes p e = false := by
      rintro h
      obtain ⟨p, hp, hs⟩ := hsup
      rw [h p hp] at hs
      cases hs
    simp only [hsup, true_implies, hsome, false_implies, and_true]
    by_cases hv : ∃ p ∈ s.tables.entries, supersedes p e = true ∧ Visible p
    · obtain ⟨p, hp, hs, hvis⟩ := hv
      exact ⟨fun _ => ⟨p, hp, hs, hvis⟩, fun _ => putAgrees_of_visible hp hs hvis⟩
    · obtain ⟨p, hp, hs⟩ := hsup
      refine ⟨fun h => absurd h (not_putAgrees_of_hidden hp hs fun p hp hs hvis => hv ⟨p, hp, hs, hvis⟩),
        fun h => absurd h hv⟩
  · have hnone : ∀ p ∈ s.tables.entries, supersedes p e = false := by
      intro p hp
      by_contra hs
      exact hsup ⟨p, hp, by simpa using hs⟩
    rw [putAgrees_of_not_superseded hnone]
    exact ⟨fun h => ⟨fun h' => absurd h' hsup, fun _ => h⟩, fun h => h.2 hnone⟩

end Agreement

/-! ## Where they differ -/

/-- An entry of the zero author in the zero namespace. -/
def sampleEntry (key : Bytes) (record : Record) : SignedEntry where
  signature := ⟨⟨List.replicate 64 0, rfl⟩, ⟨List.replicate 64 0, rfl⟩⟩
  entry := ⟨.new zeros32 zeros32 key, record⟩

section

local instance noDigest : Blake3 := ⟨fun _ => 0⟩

/-- An older entry goes back under a tombstone; and an entry at `[1, 255]` removes the one at `[2]`. -/
theorem put_differs_from_reference :
    ¬ PutAgrees (puts (⟨default, none⟩ : StoreInstance zeros32) [sampleEntry [1] ⟨0, Hash.EMPTY, 5⟩])
        (sampleEntry [1, 2] ⟨7, zeros32, 3⟩) ∧
    ¬ PutAgrees (puts (⟨default, none⟩ : StoreInstance zeros32) [sampleEntry [2] ⟨7, zeros32, 3⟩])
        (sampleEntry [1, 255] ⟨7, zeros32, 5⟩) :=
  ⟨fun h => absurd h.1 (by decide +kernel), fun h => absurd h.1 (by decide +kernel)⟩

end

end PdnStore.Fs

import PdnStore.Sync.Replica

/-!
# Author heads: what a peer may have that we have not (heads.rs)

`has_news_for` counts the authors of one set of heads that the other lacks or knows an older timestamp of.
Heads are folded together with `insert`, which keeps the greatest timestamp of each author.
-/

namespace PdnStore.Sync

namespace AuthorHeads

/-- `AuthorHeads::get` (heads.rs:37). -/
def get (h : AuthorHeads) (author : AuthorId) : Option U64 := h.heads.get? author

/-- An announced timestamp is newer than what `other` knows of the author (heads.rs:45-49). -/
def isNewTo (other : AuthorHeads) (head : AuthorId × U64) : Bool :=
  match other.get head.1 with
  | some theirs => head.2 > theirs
  | none => true

/-- `AuthorHeads::has_news_for` (heads.rs:42). -/
def hasNewsFor (h other : AuthorHeads) : Option Nat :=
  let updates := (h.heads.toList.filter (isNewTo other)).length
  if updates = 0 then none else some updates

theorem hasNewsFor_eq_none {h other : AuthorHeads} :
    h.hasNewsFor other = none ↔ ∀ head ∈ h.heads.toList, isNewTo other head = false := by
  simp [hasNewsFor, List.filter_eq_nil_iff]

theorem isNewTo_eq_false {other : AuthorHeads} {head : AuthorId × U64} :
    isNewTo other head = false ↔ ∃ theirs, other.get head.1 = some theirs ∧ head.2 ≤ theirs := by
  unfold isNewTo
  cases other.get head.1 with
  | none => simp
  | some theirs => simp

theorem get_insert_self (h : AuthorHeads) (author : AuthorId) (timestamp : U64) :
    (h.insert author timestamp).get author = some (match h.get author with
      | some t => max t timestamp
      | none => timestamp) :=
  SortedMap.get?_insert_self

/-- No head is lost or lowered by an insertion. -/
theorem le_get_insert {h : AuthorHeads} {a : AuthorId} {t : U64} (ha : h.get a = some t)
    (author : AuthorId) (timestamp : U64) : ∃ t', (h.insert author timestamp).get a = some t' ∧ t ≤ t' := by
  by_cases heq : a = author
  · subst heq
    rw [get_insert_self, ha]
    exact ⟨_, rfl, le_max_left t timestamp⟩
  · have hne : (h.insert author timestamp).get a = h.get a := SortedMap.get?_insert_of_ne heq
    rw [hne, ha]
    exact ⟨t, rfl, le_rfl⟩

/-- Fold a list of heads together, as `has_news_for_us` and the totals of a session do. -/
def ofList (l : List (AuthorId × U64)) : AuthorHeads :=
  l.foldl (fun h p => h.insert p.1 p.2) ⟨∅⟩

/-- Every head of the list is in the result, or a newer one is. -/
theorem le_get_ofList {l : List (AuthorId × U64)} {p : AuthorId × U64} (hp : p ∈ l) :
    ∃ t, (ofList l).get p.1 = some t ∧ p.2 ≤ t := by
  unfold ofList
  have hkeep : ∀ (l : List (AuthorId × U64)) (h : AuthorHeads) (a : AuthorId) (t : U64),
      h.get a = some t → ∃ t', (l.foldl (fun h p => h.insert p.1 p.2) h).get a = some t' ∧ t ≤ t' := by
    intro l
    induction l with
    | nil => exact fun h a t ha => ⟨t, ha, le_rfl⟩
    | cons q l ih =>
      intro h a t ha
      obtain ⟨t₁, h₁, hle₁⟩ := le_get_insert ha q.1 q.2
      obtain ⟨t₂, h₂, hle₂⟩ := ih _ a t₁ h₁
      exact ⟨t₂, h₂, hle₁.trans hle₂⟩
  generalize (⟨∅⟩ : AuthorHeads) = h
  induction l generalizing h with
  | nil => cases hp
  | cons q l ih =>
    rcases List.mem_cons.1 hp with rfl | hp
    · have hself : ∃ t, (h.insert p.1 p.2).get p.1 = some t ∧ p.2 ≤ t := by
        rw [get_insert_self]
        cases h.get p.1 with
        | none => exact ⟨_, rfl, le_rfl⟩
        | some t => exact ⟨_, rfl, le_max_right t p.2⟩
      obtain ⟨t, ht, hle⟩ := hself
      obtain ⟨t', ht', hle'⟩ := hkeep l _ _ t ht
      exact ⟨t', ht', hle.trans hle'⟩
    · exact ih hp (h.insert q.1 q.2)

end AuthorHeads

end PdnStore.Sync

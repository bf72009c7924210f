import Mathlib.Order.Lattice

/-!
# One element of each group of a stream

`groupMax` reads a stream whose elements come group by group and keeps, of each group, the first among those
of greatest rank: one element is held back until the next group begins. Where the stream is ordered by a
relation that does not interleave groups, what is kept can be told from the elements alone (`mem_groupMax`).
-/

section GroupMax

variable {α κ τ : Type*} [LinearOrder τ] (key : α → κ) (rank : α → τ)

/-- The one of greater rank, the first where they are equal. -/
def laterOf (last a : α) : α := if rank a > rank last then a else last

/-- `a` is the one to keep of its group: of greatest rank, and the first of those. -/
structure Chosen (R : α → α → Prop) (l : List α) (a : α) : Prop where
  mem : a ∈ l
  greatest : ∀ b ∈ l, key b = key a → rank b ≤ rank a
  first : ∀ b ∈ l, key b = key a → rank b = rank a → b = a ∨ R a b

variable {key rank} {R : α → α → Prop} {last a b : α} {l : List α} {held : Option α}

theorem laterOf_cases (rank : α → τ) (last a : α) : (laterOf rank last a = a ∧ rank last < rank a) ∨
    (laterOf rank last a = last ∧ rank a ≤ rank last) := by
  unfold laterOf
  split
  next h => exact .inl ⟨rfl, h⟩
  next h => exact .inr ⟨rfl, not_lt.1 h⟩

theorem key_laterOf (h : key last = key a) : key (laterOf rank last a) = key a := by
  rcases laterOf_cases rank last a with ⟨heq, -⟩ | ⟨heq, -⟩
  · rw [heq]
  · rw [heq, h]

/-- A loser of its group can be left out. -/
theorem chosen_of_beaten (kept lost : α) {l l' : List α} (hl : ∀ b, b ∈ l' ↔ b = lost ∨ b ∈ l)
    (hkept : kept ∈ l) (hkey : key lost = key kept)
    (hbeaten : rank lost < rank kept ∨ (rank lost = rank kept ∧ R kept lost))
    (hasymm : ∀ a b, R a b → ¬ R b a) (htrans : ∀ a b c, R a b → R b c → R a c) :
    Chosen key rank R l a ↔ Chosen key rank R l' a := by
  have hle : rank lost ≤ rank kept := hbeaten.elim le_of_lt fun h => h.1.le
  constructor
  · intro h
    have hgreat : key lost = key a → rank lost ≤ rank a := fun hk =>
      hle.trans (h.greatest kept hkept (hkey ▸ hk))
    refine ⟨(hl a).2 (.inr h.mem), fun b hb hk => ?_, fun b hb hk hr => ?_⟩
    · rcases (hl b).1 hb with rfl | hb
      · exact hgreat hk
      · exact h.greatest b hb hk
    · rcases (hl b).1 hb with rfl | hb
      · have hkeptle : rank kept ≤ rank a := h.greatest kept hkept (hkey ▸ hk)
        rcases hbeaten with hlt | ⟨heq, hR⟩
        · exact absurd hr (hlt.trans_le hkeptle).ne
        · rcases h.first kept hkept (hkey ▸ hk) (heq ▸ hr) with rfl | hRa
          · exact .inr hR
          · exact .inr (htrans _ _ _ hRa hR)
      · exact h.first b hb hk hr
  · intro h
    refine ⟨?_, fun b hb => h.greatest b ((hl b).2 (.inr hb)), fun b hb => h.first b ((hl b).2 (.inr hb))⟩
    rcases (hl a).1 h.mem with rfl | ha
    · -- the loser is not chosen
      have hkeptle : rank kept ≤ rank a := h.greatest kept ((hl kept).2 (.inr hkept)) hkey.symm
      rcases hbeaten with hlt | ⟨heq, hR⟩
      · exact absurd hlt (not_lt.2 hkeptle)
      · rcases h.first kept ((hl kept).2 (.inr hkept)) hkey.symm heq.symm with rfl | hRa
        · exact hkept
        · exact absurd hR (hasymm _ _ hRa)
    · exact ha

variable [DecidableEq κ]

/-- Keep one element of each group, with at most one held back. -/
def groupMax (key : α → κ) (rank : α → τ) : Option α → List α → List α
  | none, [] => []
  | some last, [] => [last]
  | none, a :: l => groupMax key rank (some a) l
  | some last, a :: l =>
    if key last = key a then groupMax key rank (some (laterOf rank last a)) l else last :: groupMax key rank (some a) l

theorem groupMax_nil : groupMax key rank held [] = held.toList := by cases held <;> rfl

theorem groupMax_some_of_eq (h : key last = key a) :
    groupMax key rank (some last) (a :: l) = groupMax key rank (some (laterOf rank last a)) l := if_pos h

theorem groupMax_some_of_ne (h : key last ≠ key a) :
    groupMax key rank (some last) (a :: l) = last :: groupMax key rank (some a) l := if_neg h

/-- What is kept stands in the order of the stream. -/
theorem groupMax_sublist (l : List α) (last : α) : (groupMax key rank (some last) l).Sublist (last :: l) := by
  induction l generalizing last with
  | nil => exact List.Sublist.refl _
  | cons a l ih =>
    by_cases h : key last = key a
    · rw [groupMax_some_of_eq h]
      refine (ih _).trans ?_
      rcases laterOf_cases rank last a with ⟨heq, -⟩ | ⟨heq, -⟩
      · rw [heq]
        exact List.sublist_cons_self _ _
      · rw [heq]
        exact (List.sublist_cons_self a l).cons_cons last
    · rw [groupMax_some_of_ne h]
      exact (ih a).cons_cons last

theorem groupMax_none_sublist : (groupMax key rank none l).Sublist l := by
  cases l with
  | nil => exact List.Sublist.refl _
  | cons a l => exact groupMax_sublist l a

theorem length_groupMax_le : (groupMax key rank held l).length ≤ l.length + 1 := by
  cases held with
  | none => exact Nat.le_succ_of_le groupMax_none_sublist.length_le
  | some last => exact (groupMax_sublist l last).length_le

/-- Every group is represented. -/
theorem exists_mem_groupMax (key : α → κ) (rank : α → τ) (l : List α) (last : α) :
    ∀ a ∈ last :: l, ∃ b ∈ groupMax key rank (some last) l, key b = key a := by
  induction l generalizing last with
  | nil => exact fun a ha => ⟨a, ha, rfl⟩
  | cons c l ih =>
    intro a ha
    by_cases h : key last = key c
    · rw [groupMax_some_of_eq h]
      by_cases hl : a ∈ l
      · exact ih _ a (.tail _ hl)
      · -- the element held and the newcomer are of one group
        have hkey : key a = key c := by
          rcases List.mem_cons.1 ha with rfl | ha
          · exact h
          · rcases List.mem_cons.1 ha with rfl | ha
            · rfl
            · exact absurd ha hl
        obtain ⟨b, hb, hbkey⟩ := ih (laterOf rank last c) _ (.head _)
        exact ⟨b, hb, by rw [hbkey, key_laterOf h, hkey]⟩
    · rw [groupMax_some_of_ne h]
      rcases List.mem_cons.1 ha with rfl | ha
      · exact ⟨a, .head _, rfl⟩
      · obtain ⟨b, hb, hbkey⟩ := ih c a ha
        exact ⟨b, .tail _ hb, hbkey⟩

/-- **What is kept of an ordered stream.** -/
theorem mem_groupMax (hasymm : ∀ a b, R a b → ¬ R b a) (htrans : ∀ a b c, R a b → R b c → R a c)
    (hgroup : ∀ a b c, R a b → R b c → key a = key c → key a = key b) (l : List α) (last : α)
    (h : (last :: l).Pairwise R) : a ∈ groupMax key rank (some last) l ↔ Chosen key rank R (last :: l) a := by
  induction l generalizing last with
  | nil =>
    constructor
    · intro ha
      obtain rfl := List.mem_singleton.1 ha
      exact ⟨ha, fun b hb _ => by rw [List.mem_singleton.1 hb], fun b hb _ _ => .inl (List.mem_singleton.1 hb)⟩
    · exact fun h => h.mem
  | cons c l ih =>
    obtain ⟨hlast, hrest⟩ := List.pairwise_cons.1 h
    obtain ⟨hc, hl⟩ := List.pairwise_cons.1 hrest
    by_cases hkey : key last = key c
    · rw [groupMax_some_of_eq hkey]
      rcases laterOf_cases rank last c with ⟨heq, hlt⟩ | ⟨heq, hle⟩
      · rw [heq, ih c hrest]
        exact chosen_of_beaten c last (fun b => List.mem_cons) (.head _) hkey (.inl hlt) hasymm htrans
      · rw [heq, ih last (List.pairwise_cons.2 ⟨fun b hb => hlast b (.tail _ hb), hl⟩)]
        refine chosen_of_beaten last c (fun b => ?_) (.head _) hkey.symm ?_ hasymm htrans
        · simp only [List.mem_cons]
          exact or_left_comm
        · rcases hle.lt_or_eq with hlt | heq
          · exact .inl hlt
          · exact .inr ⟨heq, hlast c (.head _)⟩
    · rw [groupMax_some_of_ne hkey, List.mem_cons, ih c hrest]
      -- no other element is of the group that ended
      have hother : ∀ b ∈ c :: l, key b ≠ key last := by
        intro b hb hbkey
        rcases List.mem_cons.1 hb with rfl | hbl
        · exact hkey hbkey.symm
        · exact hkey (hgroup last c b (hlast c (.head _)) (hc b hbl) hbkey.symm)
      constructor
      · rintro (rfl | ha)
        · refine ⟨.head _, fun b hb hk => ?_, fun b hb hk _ => ?_⟩
          · rcases List.mem_cons.1 hb with rfl | hb
            · exact le_rfl
            · exact absurd hk (hother b hb)
          · rcases List.mem_cons.1 hb with rfl | hb
            · exact .inl rfl
            · exact absurd hk (hother b hb)
        · refine ⟨.tail _ ha.mem, fun b hb hk => ?_, fun b hb hk => ?_⟩
          · rcases List.mem_cons.1 hb with rfl | hb
            · exact absurd hk.symm (hother a ha.mem)
            · exact ha.greatest b hb hk
          · rcases List.mem_cons.1 hb with rfl | hb
            · exact absurd hk.symm (hother a ha.mem)
            · exact ha.first b hb hk
      · intro ha
        rcases List.mem_cons.1 ha.mem with heq | hmem
        · exact .inl heq
        · exact .inr ⟨hmem, fun b hb => ha.greatest b (.tail _ hb), fun b hb => ha.first b (.tail _ hb)⟩

theorem mem_groupMax_none (hasymm : ∀ a b, R a b → ¬ R b a) (htrans : ∀ a b c, R a b → R b c → R a c)
    (hgroup : ∀ a b c, R a b → R b c → key a = key c → key a = key b) (h : l.Pairwise R) :
    a ∈ groupMax key rank none l ↔ Chosen key rank R l a := by
  cases l with
  | nil => exact ⟨fun ha => absurd ha List.not_mem_nil, fun ha => absurd ha.mem List.not_mem_nil⟩
  | cons c l => exact mem_groupMax hasymm htrans hgroup l c h

/-- Of a group that occurs, one element is kept. -/
theorem exists_chosen (key : α → κ) (rank : α → τ) (hasymm : ∀ a b, R a b → ¬ R b a)
    (htrans : ∀ a b c, R a b → R b c → R a c)
    (hgroup : ∀ a b c, R a b → R b c → key a = key c → key a = key b) (h : l.Pairwise R) (ha : a ∈ l) :
    ∃ b, Chosen key rank R l b ∧ key b = key a := by
  cases l with
  | nil => cases ha
  | cons c l =>
    obtain ⟨b, hb, hkey⟩ := exists_mem_groupMax key rank l c a ha
    exact ⟨b, (mem_groupMax hasymm htrans hgroup l c h).1 hb, hkey⟩

end GroupMax

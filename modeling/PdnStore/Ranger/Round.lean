import PdnStore.Ranger.Exchange

/-!
# One round: what a received message is answered with (ranger.rs:368-611)

With a validator that accepts everything the item loop does two things to the receiver: it folds the
incoming values into the store (`puts`), and it answers each item that asks for ours with what we
serve in its range and the item does not supersede (`itemReply`). `ItemsDone` is the loop invariant:
after the items `done`, every entry we still serve in one of their ranges is known to the peer or in
the reply. The fingerprints are then answered on the store as the items left it (`Answers`).
-/

namespace PdnStore.Ranger

open Store MaxSet

variable {S E K V R : Type} [RangeEntry E K V R] [Store S E K V]

/-! ## Parts and their values -/

/-- The entries a list of parts transmits. -/
def partValues (parts : List (MessagePart E K R)) : List E :=
  (items parts).flatMap fun it => it.values.map Prod.fst

theorem mem_partValues {parts : List (MessagePart E K R)} {e : E} :
    e ∈ partValues parts ↔ ∃ it ∈ items parts, ∃ v ∈ it.values, v.1 = e := by
  simp [partValues]

theorem items_append (l l' : List (MessagePart E K R)) : items (l ++ l') = items l ++ items l' :=
  List.filterMap_append

theorem rejections_append (l l' : List (MessagePart E K R)) :
    rejections (l ++ l') = rejections l ++ rejections l' := List.filterMap_append

theorem ranges_append (l l' : List (MessagePart E K R)) : ranges (l ++ l') = ranges l ++ ranges l' :=
  List.filterMap_append

theorem partValues_append (l l' : List (MessagePart E K R)) :
    partValues (l ++ l') = partValues l ++ partValues l' := by
  simp [partValues, items_append]

/-- The ranges of a message are those of its items and of its fingerprints. -/
theorem ranges_perm (parts : List (MessagePart E K R)) :
    (ranges parts).Perm ((items parts).map (·.range) ++ (fingerprints parts).map (·.range)) := by
  induction parts with
  | nil => exact List.Perm.nil
  | cons part parts ih =>
    cases part with
    | rangeItem item => exact ih.cons item.range
    | rangeFingerprint fp => exact (ih.cons fp.range).trans List.perm_middle.symm
    | rejected id => exact ih

theorem range_mem_of_item {parts : List (MessagePart E K R)} {it : RangeItem E K} (h : it ∈ items parts) :
    it.range ∈ ranges parts :=
  (ranges_perm parts).mem_iff.2 (List.mem_append_left _ (List.mem_map_of_mem h))

theorem range_mem_of_fingerprint {parts : List (MessagePart E K R)} {fp : RangeFingerprint K}
    (h : fp ∈ fingerprints parts) : fp.range ∈ ranges parts :=
  (ranges_perm parts).mem_iff.2 (List.mem_append_right _ (List.mem_map_of_mem h))

theorem mem_ranges {parts : List (MessagePart E K R)} {q : Range K} :
    q ∈ ranges parts ↔ (∃ it ∈ items parts, it.range = q) ∨ ∃ fp ∈ fingerprints parts, fp.range = q := by
  rw [(ranges_perm parts).mem_iff]
  simp

/-! ## The item loop -/

variable [LinearOrder V]

theorem puts_append (s : S) (l l' : List E) : puts s (l ++ l') = puts (puts s l) l' := List.foldl_append

/-- Everything accepted, the values of an item are put one after the other. -/
theorem foldl_storeValue (vs : List (E × ContentStatus)) (st : Round S E K R) :
    ∃ inserted, vs.foldl (storeValue acceptAll)
      st = ⟨puts st.store (vs.map Prod.fst), st.out, inserted⟩ := by
  induction vs generalizing st with
  | nil => exact ⟨st.inserted, rfl⟩
  | cons v vs ih =>
    obtain ⟨ins, h⟩ := ih (storeValue acceptAll st v)
    refine ⟨ins, ?_⟩
    have hs : (storeValue acceptAll st v).store = (put st.store v.1).2 ∧
        (storeValue acceptAll st v).out = st.out := by
      simp only [storeValue, acceptAll]
      split <;> rename_i heq <;> simp [heq]
    rw [List.foldl_cons, h, hs.1, hs.2]
    rfl

variable [LinearOrder K]

/-- Disjoint ranges: the items' among themselves, the fingerprints', and an item's with a fingerprint's. -/
theorem disjoint_parts {parts : List (MessagePart E K R)} (hd : (ranges parts).Pairwise Range.Disjoint) :
    ((items parts).map (·.range)).Pairwise Range.Disjoint ∧
    (fingerprints parts).Pairwise (fun fp fp' => Range.Disjoint fp.range fp'.range) ∧
    ∀ it ∈ items parts, ∀ fp ∈ fingerprints parts, Range.Disjoint it.range fp.range := by
  have hd' := (ranges_perm parts).pairwise_iff (fun h => Range.Disjoint.symm h) |>.1 hd
  obtain ⟨hitems, hfps, hcross⟩ := List.pairwise_append.1 hd'
  exact ⟨hitems, List.pairwise_map.1 hfps,
    fun it hit fp hfp => hcross _ (List.mem_map_of_mem hit) _ (List.mem_map_of_mem hfp)⟩

/-- What of `l` lies in the range of an item and is not superseded by it at the same key. -/
def itemMisses (l : List E) (item : RangeItem E K) : List E :=
  (inRange item.range l).filter fun our =>
    !item.values.any fun their => key our = key their.1 ∧ value their.1 ≥ value our

/-- The answer to an item when `l` is what we serve. -/
def itemReply (status : E → ContentStatus) (l : List E) (item : RangeItem E K) : List (MessagePart E K R) :=
  if item.haveLocal ∨ itemMisses l item = [] then []
  else [.rangeItem ⟨item.range, (itemMisses l item).map fun e => (e, status e), true⟩]

theorem mem_itemReply {status : E → ContentStatus} {l : List E} {it : RangeItem E K}
    {part : MessagePart E K R}
    (h : part ∈ itemReply status l it) : it.haveLocal = false ∧ ∃ ours :
      List E, ours.Sublist (inRange it.range l) ∧
      part = .rangeItem ⟨it.range, ours.map fun e => (e, status e), true⟩ := by
  unfold itemReply at h
  split at h
  · cases h
  · rename_i hc
    push Not at hc
    exact ⟨by simpa using hc.1, _, List.filter_sublist, List.mem_singleton.1 h⟩

theorem ranges_itemReply (status : E → ContentStatus) (l : List E) (it : RangeItem E K) :
    (ranges (itemReply (R := R) status l it)).Sublist [it.range] := by
  unfold itemReply
  split
  · exact List.nil_sublist _
  · exact List.Sublist.refl _

variable [RangeKey K]

/-- The invariant of the item loop, entered with the store `s₀` of a side of origin `o`. -/
structure ItemsDone (view live : S → List E) (status : E → ContentStatus) (o : Origin E K V) (s₀ : S)
    (done : List (RangeItem E K)) (st : Round S E K R) : Prop where
  store : st.store = puts s₀ (done.flatMap fun it => it.values.map Prod.fst)
  ranges : (ranges st.out).Sublist (done.map (·.range))
  out : ∀ part ∈ st.out, ∃ it ∈ done, it.haveLocal = false ∧ ∃ ours : List E,
    part = .rangeItem ⟨it.range, ours.map fun e => (e, status e), true⟩ ∧ (ours.map key).Nodup ∧
    ∀ e ∈ ours, it.range.contains (key e) = true ∧ e ∈ o.serves ∧ Has (live st.store) e
  answered : ∀ it ∈ done, it.haveLocal = false → ∀ e ∈ view st.store, it.range.contains (key e) = true →
    (∃ it ∈ done, ∃ v ∈ it.values, stamp e ≤ stamp v.1) ∨ e ∈ partValues st.out

theorem mem_partValues_itemReply {status : E → ContentStatus} {l : List E} {it : RangeItem E K}
    (hl : it.haveLocal = false) {e : E} (he : e ∈ inRange it.range l) :
    (∃ v ∈ it.values, stamp e ≤ stamp v.1) ∨ e ∈ partValues (R := R) (itemReply status l it) := by
  by_cases hsup : ∃ v ∈ it.values, key e = key v.1 ∧ value v.1 ≥ value e
  · obtain ⟨v, hv, hk, hle⟩ := hsup
    refine .inl ⟨v, hv, ?_, hle⟩
    show isPrefixOf (key v.1) (key e)
    rw [hk]
    exact RangeKey.prefix_refl _
  · right
    have hours : e ∈ itemMisses l it := by simpa [itemMisses, he] using hsup
    have hne : ¬ (it.haveLocal = true ∨ itemMisses l it = []) := by
      simp [hl, List.ne_nil_of_mem hours]
    unfold itemReply
    rw [if_neg hne]
    simpa [partValues, items] using hours

section Loop

variable [Blake3] [Inhabited K]

variable {dom : Set K} {view live : S → List E} {fresh : Prop} (hp : Peer S dom view live fresh)
  (status : E → ContentStatus)

include hp

theorem itemStep_acceptAll (st : Round S E K R) {it : RangeItem E K} (hin : it.range.Within dom) :
    ∃ inserted, itemStep acceptAll status st it =
      (⟨puts st.store (it.values.map Prod.fst), st.out ++ itemReply status (view st.store) it,
        inserted⟩, none) := by
  obtain ⟨ins, hfold⟩ := foldl_storeValue it.values st
  refine ⟨ins, ?_⟩
  unfold itemStep itemDiff itemReply itemMisses
  rw [hp.reads.getRange _ _ hin, hfold]
  cases hl : it.haveLocal with
  | true => simp
  | false =>
    simp only [Bool.false_eq_true, if_false, bind, Except.bind, false_or]
    generalize (inRange it.range (view st.store)).filter _ = ours
    cases ours <;> simp

/-- Step: one more item. -/
theorem itemsDone_step {o o' : Origin E K V} (hm : o.Meets dom fresh o') {s₀ : S}
    (h₀ : Holding o o' (view s₀) (live s₀)) {done : List (RangeItem E K)} {it : RangeItem E K}
    (hvals : ∀ it' ∈ done ++ [it], ∀ v ∈ it'.values, v.1 ∈ o'.serves) (hin : it.range.Within dom)
    {st : Round S E K R} (h : ItemsDone view live status o s₀ done st) :
    ∃ st', itemStep acceptAll status st it = (st', none) ∧
      ItemsDone view live status o s₀ (done ++ [it]) st' := by
  obtain ⟨ins, hstep⟩ := itemStep_acceptAll hp status st hin
  have hdone : ∀ e ∈ done.flatMap fun it => it.values.map Prod.fst, e ∈ o'.serves := by
    intro e he
    obtain ⟨it', hit', hmap⟩ := List.mem_flatMap.1 he
    obtain ⟨v, hv, rfl⟩ := List.mem_map.1 hmap
    exact hvals it' (List.mem_append_left _ hit') v hv
  have hnew : ∀ e ∈ it.values.map Prod.fst, key e ∈ dom := by
    intro e he
    obtain ⟨v, hv, rfl⟩ := List.mem_map.1 he
    exact hm.mem_dom _ (hvals it (by simp) v hv)
  have hst : Holding o o' (view st.store) (live st.store) := h.store ▸ holding_puts hp hm h₀ _ hdone
  refine ⟨_, hstep, ?_, ?_, ?_, ?_⟩
  · show puts st.store _ = _
    rw [h.store, ← puts_append, List.flatMap_append]
    simp
  · show (ranges (st.out ++ _)).Sublist _
    rw [ranges_append, List.map_append]
    exact h.ranges.append (ranges_itemReply status _ it)
  · intro part hpart
    rcases List.mem_append.1 hpart with hpart | hpart
    · obtain ⟨it', hit', hl, ours, hours, hnd, hall⟩ := h.out part hpart
      refine ⟨it', List.mem_append_left _ hit', hl, ours, hours, hnd, fun e he => ?_⟩
      obtain ⟨hc, hs, hh⟩ := hall e he
      exact ⟨hc, hs, has_puts hp hh _ hnew⟩
    · obtain ⟨hl, ours, hsub, hours⟩ := mem_itemReply hpart
      have hsorted : SortedBy key (inRange it.range (view st.store)) := hst.sorted.filter _
      refine ⟨it, by simp, hl, ours, hours, hsorted.nodup_map.sublist (hsub.map key), fun e he => ?_⟩
      obtain ⟨hv, hc⟩ := mem_inRange.1 (hsub.subset he)
      exact ⟨hc, hst.view_serves e hv, has_puts hp (hst.view_has e hv) _ hnew⟩
  · intro it' hit' hl e he hc
    -- an entry still served was served before, or is one of the values just taken in
    rcases mem_view_puts hp _ hnew he with hold | hnewe
    · rcases List.mem_append.1 hit' with hit' | hit'
      · rcases h.answered it' hit' hl e hold hc with ⟨it₂, hit₂, hv⟩ | hout
        · exact .inl ⟨it₂, List.mem_append_left _ hit₂, hv⟩
        · exact .inr (by rw [partValues_append]; exact List.mem_append_left _ hout)
      · obtain rfl := List.mem_singleton.1 hit'
        rcases mem_partValues_itemReply hl (mem_inRange.2 ⟨hold, hc⟩) with hv | hout
        · exact .inl ⟨it', by simp, hv⟩
        · exact .inr (by rw [partValues_append]; exact List.mem_append_right _ hout)
    · obtain ⟨v, hv, rfl⟩ := List.mem_map.1 hnewe
      exact .inl ⟨it, by simp, v, hv, le_rfl⟩

/-- Run: all items of a message. -/
theorem itemsDone_tryFold {o o' : Origin E K V} (hm : o.Meets dom fresh o') {s₀ : S}
    (h₀ : Holding o o' (view s₀) (live s₀)) {its : List (RangeItem E K)}
    (hvals : ∀ it ∈ its, ∀ v ∈ it.values, v.1 ∈ o'.serves) (hin : ∀ it ∈ its, it.range.Within dom) :
    ∃ st : Round S E K R, tryFold (itemStep acceptAll status) ⟨s₀, [], []⟩ its = (st, none) ∧
      ItemsDone view live status o s₀ its st := by
  refine tryFold_invariant (I := ItemsDone view live status o s₀) [] ?_ its rfl ?_
  · intro done it rest st hl h
    have hsub : ∀ it' ∈ done ++ [it], it' ∈ its := by
      intro it' h'
      rw [← hl]
      rcases List.mem_append.1 h' with h' | h'
      · exact List.mem_append_left _ h'
      · exact List.mem_append_right _ (List.mem_singleton.1 h' ▸ List.mem_cons_self)
    exact itemsDone_step hp status hm h₀ (fun it' h' => hvals it' (hsub it' h'))
      (hin it (hsub it (by simp))) h
  · exact ⟨rfl, List.Sublist.refl _, by simp, by simp⟩

end Loop

end PdnStore.Ranger

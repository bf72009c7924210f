import PdnStore.Ranger.Pace

/-!
# What a message costs (ranger.rs:403-603)

The ranges of a message are disjoint, and a part that is answered speaks about a range in which the two
sides differ. So each part of a message can be charged to a difference of its own (`sum_count_le`): a reply
has at most two parts for each entry that only one side serves, and transmits at most two entries for it,
however many entries the sides have in common (`reply_charged`).
-/

namespace PdnStore.Ranger

open Store MaxSet

variable {S A B E K V R : Type} [RangeEntry E K V R] [Store S E K V]

/-! ## Sums over parts -/

theorem partValues_flatMap {α : Type} (l : List α) (f : α → List (MessagePart E K R)) :
    partValues (l.flatMap f) = l.flatMap fun a => partValues (f a) := by
  induction l with
  | nil => rfl
  | cons a l ih => rw [List.flatMap_cons, List.flatMap_cons, partValues_append, ih]

/-- Shares of at most twice the differences in disjoint ranges. -/
theorem length_flatMap_le {α β : Type} {l : List α} {f : α → List β} {g : α → Nat}
    (h : ∀ a ∈ l, (f a).length ≤ 2 * g a) : (l.flatMap f).length ≤ 2 * (l.map g).sum := by
  induction l with
  | nil => exact Nat.zero_le _
  | cons a l ih =>
    have hhead := h a List.mem_cons_self
    have htail := ih fun b hb => h b (List.mem_cons_of_mem a hb)
    rw [List.flatMap_cons, List.length_append, List.map_cons, List.sum_cons]
    omega

/-! ## Differences -/

/-- Outside of `D` the two lists have the same entries. -/
def AlikeUpTo (D X Y : List E) : Prop := ∀ e, (e ∈ X ↔ e ∈ Y) ∨ e ∈ D

theorem AlikeUpTo.symm {D X Y : List E} (h : AlikeUpTo D X Y) : AlikeUpTo D Y X :=
  fun e => (h e).imp_left Iff.symm

/-- The entries that only one of two lists has. -/
def differences [DecidableEq E] (X Y : List E) : List E := X.filter (· ∉ Y) ++ Y.filter (· ∉ X)

theorem alikeUpTo_differences [DecidableEq E] (X Y : List E) : AlikeUpTo (differences X Y) X Y := by
  intro e
  by_cases hX : e ∈ X <;> by_cases hY : e ∈ Y <;> simp [differences, hX, hY]

variable [LinearOrder K]

/-- Disjoint ranges share nothing, so their shares add up to at most the whole. -/
theorem sum_count_le {rs : List (Range K)} (hd : rs.Pairwise Range.Disjoint) (D : List E) :
    (rs.map fun r => count r D).sum ≤ D.length := by
  induction rs generalizing D with
  | nil => exact Nat.zero_le _
  | cons r rs ih =>
    obtain ⟨hr, hrs⟩ := List.pairwise_cons.1 hd
    have hrest := ih hrs (D.filter fun e => !r.contains (key e))
    -- what lies in another range does not lie in this one
    have hsame : (rs.map fun q => count q (D.filter fun e => !r.contains (key e))) = rs.map fun q => count q D := by
      refine List.map_congr_left fun q hq => congrArg List.length ?_
      unfold inRange
      rw [List.filter_filter]
      refine List.filter_congr fun e _ => ?_
      cases hc : q.contains (key e) with
      | false => rfl
      | true => simp [(hr q hq).symm _ hc]
    have hsplit : count r D + (D.filter fun e => !r.contains (key e)).length = D.length := by
      have hlen := List.length_eq_length_filter_add (l := D) fun e => r.contains (key e)
      exact hlen.symm
    rw [hsame] at hrest
    rw [List.map_cons, List.sum_cons]
    omega

section Alike

variable {D X Y : List E} (h : AlikeUpTo D X Y) {r : Range K}

include h

/-- Where there is no difference the two sides serve the same. -/
theorem inRange_eq_of_count_eq_zero (hX : SortedBy key X) (hY : SortedBy key Y) (hnone : count r D = 0) :
    inRange r X = inRange r Y := by
  refine (hX.filter _).ext (hY.filter _) fun e => ?_
  have hout : r.contains (key e) = true → e ∉ D := by
    intro hc he
    have := List.eq_nil_iff_forall_not_mem.1 (List.length_eq_zero_iff.1 hnone) e
    exact this (mem_inRange.2 ⟨he, hc⟩)
  show e ∈ inRange r X ↔ e ∈ inRange r Y
  rw [mem_inRange, mem_inRange]
  constructor
  · rintro ⟨he, hc⟩
    exact ⟨((h e).resolve_right (hout hc)).1 he, hc⟩
  · rintro ⟨he, hc⟩
    exact ⟨((h e).resolve_right (hout hc)).2 he, hc⟩

/-- Entries of one side that the other does not serve are differences. -/
theorem length_le_count {l : List E} (hl : l.Nodup) (hY : ∀ e ∈ l, e ∈ inRange r Y) (hX : ∀ e ∈ l, e ∉ X) :
    l.length ≤ count r D := by
  refine hl.length_le_of_subset fun e he => ?_
  obtain ⟨hmem, hc⟩ := mem_inRange.1 (hY e he)
  refine mem_inRange.2 ⟨(h e).resolve_left fun hiff => hX e he (hiff.2 hmem), hc⟩

end Alike

/-! ## One part -/

/-- The items that ask for ours transmit all that their sender serves in their range. -/
def ItemsFull (X : List E) (parts : List (MessagePart E K R)) : Prop :=
  ∀ it ∈ items parts, it.haveLocal = false → it.values.map Prod.fst = inRange it.range X

variable [Blake3]

/-- Only a range with no entries has the fingerprint of nothing. -/
def EmptyTells (l : List E) : Prop :=
  ∀ r : Range K, fingerprint (inRange r l) = Fingerprint.empty → inRange r l = []

theorem emptyTells_of_sublists {all l : List E}
    (h : ∀ p ∈ all.sublists, fingerprint p = Fingerprint.empty → p = []) (hl : l.Sublist all) : EmptyTells l :=
  fun _ heq => h _ (List.mem_sublists.2 (List.filter_sublist.trans hl)) heq

section Charged

variable (status : E → ContentStatus) {D X Y : List E}

/-- A sub-range is answered with one part, which transmits one entry at most. -/
theorem length_partValues_chunk (q : Range K) :
    (partValues (R := R) [chunk status Y q]).length ≤ 1 := by
  unfold chunk
  split
  · exact Nat.zero_le _
  · rename_i hcount
    have hle : (inRange q Y).length ≤ 1 := not_lt.1 hcount
    simpa [partValues, items] using hle

variable [Inhabited K] in
/-- A fingerprint is answered with two parts at most for each difference under it. -/
theorem processFingerprint_charged {dom : Set K} {view : S → List E} (hr : LawfulReads S dom view) {s : S}
    {rf : RangeFingerprint K} (hin : rf.range.Within dom) (h : AlikeUpTo D X (view s)) (hX : SortedBy key X)
    (hfp : rf.fingerprint = fingerprint (inRange rf.range X))
    (hempty : rf.fingerprint = Fingerprint.empty → inRange rf.range X = [])
    {parts : List (MessagePart E K R)} (hok : processFingerprint default status s rf = .ok parts) :
    parts.length ≤ 2 * count rf.range D ∧ (partValues parts).length ≤ 2 * count rf.range D := by
  have hpos : fingerprint (inRange rf.range (view s)) ≠ rf.fingerprint → 0 < count rf.range D := by
    intro hmiss
    refine Nat.pos_of_ne_zero fun hnone => hmiss ?_
    rw [hfp, inRange_eq_of_count_eq_zero h hX (hr.sorted s) hnone]
  unfold processFingerprint at hok
  rw [hr.getFingerprint s _ hin, hr.getRange s _ hin] at hok
  simp only [bind, Except.bind] at hok
  split at hok
  · cases hok
    exact ⟨Nat.zero_le _, Nat.zero_le _⟩
  rename_i hmiss
  have hpos := hpos hmiss
  split at hok
  · -- the recursion anchor: one entry at most, or all of them news to the sender
    rename_i hanchor
    cases hok
    refine ⟨by simp only [List.length_singleton]; omega, ?_⟩
    have hlen : (inRange rf.range (view s)).length ≤ 2 * count rf.range D := by
      rcases hanchor with hfew | hnothing
      · omega
      · have hnil := hempty hnothing
        have hall := length_le_count h (r := rf.range) (l := inRange rf.range (view s))
          ((hr.sorted s).filter _).nodup (fun e he => he) fun e he heX => by
            have hmem : e ∈ inRange rf.range X := mem_inRange.2 ⟨heX, (mem_inRange.1 he).2⟩
            rw [hnil] at hmem
            cases hmem
        omega
    simpa [partValues, items] using hlen
  · rename_i hanchor
    have hn : 2 ≤ (inRange rf.range (view s)).length := by omega
    have hsl : SortedBy key (inRange rf.range (view s)) := (hr.sorted s).filter _
    obtain ⟨q₁, q₂, hsplit, hh⟩ := splitRanges_default hsl
      (fun e he => (mem_inRange.1 he).2) (fun e he => hr.mem_dom s e (mem_inRange.1 he).1) hin hn
    rw [hsplit] at hok
    dsimp only at hok
    rw [List.mapM_cons, List.mapM_cons, chunkPart_default status hr s hh.within₁,
      chunkPart_default status hr s hh.within₂] at hok
    simp only [List.mapM_nil, bind, Except.bind, pure, Except.pure] at hok
    split at hok
    · cases hok
    cases hok
    have h₁ := length_partValues_chunk (R := R) status (Y := view s) q₁
    have h₂ := length_partValues_chunk (R := R) status (Y := view s) q₂
    have happend : partValues (R := R) [chunk status (view s) q₁, chunk status (view s) q₂] =
        partValues [chunk status (view s) q₁] ++ partValues [chunk status (view s) q₂] :=
      partValues_append [chunk status (view s) q₁] [chunk status (view s) q₂]
    refine ⟨?_, ?_⟩
    · simp only [List.map_cons, List.map_nil, List.length_cons, List.length_nil]
      omega
    · show (partValues (R := R) [chunk status (view s) q₁, chunk status (view s) q₂]).length ≤ _
      rw [happend, List.length_append]
      omega

variable [LinearOrder V]

omit [Blake3] in
/-- An item is answered with differences. -/
theorem itemReply_charged (h : AlikeUpTo D X Y) (hY : SortedBy key Y) {it : RangeItem E K}
    (hfull : it.haveLocal = false → it.values.map Prod.fst = inRange it.range X) :
    (itemReply (R := R) status Y it).length ≤ count it.range D ∧
      (partValues (itemReply (R := R) status Y it)).length ≤ count it.range D := by
  unfold itemReply
  split
  · exact ⟨Nat.zero_le _, Nat.zero_le _⟩
  · rename_i hcond
    rw [not_or] at hcond
    have hvalues := hfull (by simpa using hcond.1)
    have hnodup : (itemMisses Y it).Nodup := (hY.filter _).nodup.sublist List.filter_sublist
    have hmisses : (itemMisses Y it).length ≤ count it.range D := by
      refine length_le_count h hnodup (fun e he => (List.mem_filter.1 he).1) fun e he hX => ?_
      obtain ⟨hin, hnone⟩ := List.mem_filter.1 he
      -- an entry that the sender serves too is among the values of the item
      have hmem : e ∈ it.values.map Prod.fst := by
        rw [hvalues]
        exact mem_inRange.2 ⟨hX, (mem_inRange.1 hin).2⟩
      obtain ⟨v, hv, rfl⟩ := List.mem_map.1 hmem
      simp only [Bool.not_eq_true', List.any_eq_false] at hnone
      exact hnone v hv (by simp)
    have hpos : 0 < (itemMisses Y it).length := List.length_pos_of_ne_nil hcond.2
    refine ⟨hpos.trans_le hmisses, ?_⟩
    simpa [partValues, items] using hmisses

end Charged

/-! ## One message -/

variable [LinearOrder V] [RangeKey K] [Inhabited K]

section Frozen

variable {dom : Set K} {view live : S → List E} {fresh : Prop} (hp : Peer S dom view live fresh)
  (status : E → ContentStatus) (hfix : ∀ s e, view (put s e).2 = view s)

omit [LinearOrder K] [Blake3] [RangeKey K] [Inhabited K] in
theorem view_puts_fixed (hfix : ∀ s e, view (put s e).2 = view s) (s : S) (l : List E) :
    view (puts s l) = view s := by
  induction l generalizing s with
  | nil => rfl
  | cons e l ih => exact (ih _).trans (hfix s e)

include hp hfix

/-- While the items are read what we serve stays, and each is answered from it. -/
theorem tryFold_frozen (its : List (RangeItem E K)) (hin : ∀ it ∈ its, it.range.Within dom)
    (st : Round S E K R) : ∃ st' : Round S E K R, tryFold (itemStep acceptAll status) st its = (st', none) ∧
      view st'.store = view st.store ∧ st'.out = st.out ++ its.flatMap (itemReply status (view st.store)) := by
  induction its generalizing st with
  | nil => exact ⟨st, rfl, rfl, (List.append_nil _).symm⟩
  | cons it its ih =>
    obtain ⟨ins, hstep⟩ := itemStep_acceptAll hp status st (hin it List.mem_cons_self)
    obtain ⟨st', hloop, hview, hout⟩ := ih (fun it' h' => hin it' (List.mem_cons_of_mem it h'))
      ⟨puts st.store (it.values.map Prod.fst), st.out ++ itemReply status (view st.store) it, ins⟩
    have hsame : view (puts st.store (it.values.map Prod.fst)) = view st.store := view_puts_fixed hfix _ _
    refine ⟨st', by simp only [tryFold, hstep, hloop], hview.trans hsame, ?_⟩
    rw [hout]
    simp only [hsame, List.flatMap_cons, List.append_assoc]

/-- **A reply costs what differs**: two parts and two transmitted entries at most for each difference. -/
theorem reply_charged {o o' : Origin E K V} {s : S} {X : Party E K} {sent : List K} {D : List E} {n : Nat}
    {m m' : Message E K R}
    (hempty : EmptyTells X.view)
    (h : InFlight dom o o' X ⟨view s, live s, sent⟩ m.parts n) (hD : AlikeUpTo D X.view (view s))
    (hfull : ItemsFull X.view m.parts)
    (hreply : (processMessage default acceptAll status s m).reply = .ok (some m')) :
    m'.parts.length ≤ 2 * D.length ∧ m'.values.length ≤ 2 * D.length ∧ ItemsFull (view s) m'.parts := by
  obtain ⟨st, hloop, hview, hout⟩ := tryFold_frozen hp status hfix (R := R) (items m.parts)
    (fun it hit => h.within _ (range_mem_of_item hit)) ⟨s, [], []⟩
  have hans : ∀ fp ∈ fingerprints m.parts, ∃ a : List (MessagePart E K R),
      processFingerprint default status st.store fp = .ok a ∧ Answers dom status (view st.store) fp a :=
    fun fp hfp => processFingerprint_default status hp.reads st.store fp
      (h.within _ (range_mem_of_fingerprint hfp))
  choose! ans hok hans using hans
  dsimp only at hview
  rw [List.nil_append] at hout
  have hparts : m'.parts = (items m.parts).flatMap (itemReply status (view s)) ++
      (fingerprints m.parts).flatMap ans := by
    unfold processMessage at hreply
    rw [hloop] at hreply
    dsimp only at hreply
    rw [mapM_ok hok] at hreply
    simp only [bind, Except.bind, Except.ok.injEq] at hreply
    split at hreply
    · cases hreply
    · cases hreply
      rw [hout]
      rfl
  have hitem : ∀ it ∈ items m.parts, (itemReply (R := R) status (view s) it).length ≤ count it.range D ∧
      (partValues (itemReply (R := R) status (view s) it)).length ≤ count it.range D := fun it hit =>
    itemReply_charged status hD (hp.reads.sorted s) (hfull it hit)
  have hfp : ∀ fp ∈ fingerprints m.parts, (ans fp).length ≤ 2 * count fp.range D ∧
      (partValues (ans fp)).length ≤ 2 * count fp.range D := by
    intro fp hfp
    refine processFingerprint_charged status hp.reads (h.within _ (range_mem_of_fingerprint hfp))
      (by rw [hview]; exact hD) h.sender.sorted (h.fingerprint_ok fp hfp)
      (fun hfp' => hempty fp.range ((h.fingerprint_ok fp hfp).symm.trans hfp')) (hok fp hfp)
  have hsum : ((items m.parts).map fun it => count it.range D).sum +
      ((fingerprints m.parts).map fun fp => count fp.range D).sum ≤ D.length := by
    have hle := sum_count_le h.disjoint D
    have hperm := ((ranges_perm m.parts).map fun r => count r D).sum_nat
    rw [hperm, List.map_append, List.sum_append, List.map_map, List.map_map] at hle
    exact hle
  refine ⟨?_, ?_, fun it hit hl => ?_⟩
  · have h₁ := length_flatMap_le fun it hit => ((hitem it hit).1.trans (Nat.le_mul_of_pos_left _ Nat.two_pos))
    have h₂ := length_flatMap_le fun fp hmem => (hfp fp hmem).1
    rw [hparts, List.length_append]
    omega
  · have h₁ := length_flatMap_le fun it hit => ((hitem it hit).2.trans (Nat.le_mul_of_pos_left _ Nat.two_pos))
    have h₂ := length_flatMap_le fun fp hmem => (hfp fp hmem).2
    have hvalues : m'.values.length = (partValues m'.parts).length := by
      simp [Message.values, partValues, List.length_flatMap]
    rw [hvalues, hparts, partValues_append, List.length_append, partValues_flatMap, partValues_flatMap]
    omega
  · rw [hparts, mem_items, List.mem_append] at hit
    rcases hit with hit | hit
    · obtain ⟨it', -, hit⟩ := List.mem_flatMap.1 hit
      obtain ⟨-, ours, -, heq⟩ := mem_itemReply hit
      cases heq
      cases hl
    · obtain ⟨fp, hmem, hit⟩ := List.mem_flatMap.1 hit
      rw [((hans fp hmem).itemOk it (mem_items.2 hit)).2, hview]
      simp [Function.comp_def]

end Frozen

omit [RangeKey K] [Inhabited K] in
/-- A value is refused aloud once at most. -/
theorem length_rejections_le {config : SyncConfig} {validate : S → E → ContentStatus → ValidateOutcome}
    {status : E → ContentStatus} {s : S} {m : Message E K R} {reply : Option (Message E K R)}
    (h : (processMessage config validate status s m).reply = .ok reply) :
    (rejections (replyParts? reply)).length ≤ (partValues m.parts).length := by
  have hjudged : ∀ (s : S) (vs : List (E × ContentStatus)), (judgements validate s vs).length = vs.length := by
    intro s vs
    induction vs generalizing s with
    | nil => rfl
    | cons v vs ih => rw [judgements, List.length_cons, ih, List.length_cons]
  rw [rejections_reply_eq validate status h, List.length_map, partValues, List.length_flatMap]
  refine (List.length_filter_le _ _).trans ?_
  rw [hjudged, Message.values, List.length_flatMap]
  simp

/-! ## Message by message -/

section Run

variable [Store A E K V] [Store B E K V]

variable {dom : Set K} {viewA liveA : A → List E} {viewB liveB : B → List E} {freshA freshB : Prop}
  (statusA statusB : E → ContentStatus) {oA oB : Origin E K V} {D : List E}

/-- The two sides differ in `D` at most and know an empty range, and the message in flight transmits in full. -/
structure Exchange.Charged (viewA : A → List E) (viewB : B → List E) (D : List E)
    (x : Exchange A B E K R) : Prop where
  alike : AlikeUpTo D (viewA x.alice) (viewB x.bob)
  emptyA : EmptyTells (viewA x.alice)
  emptyB : EmptyTells (viewB x.bob)
  full : match x.turn with
    | .bob => ItemsFull (viewA x.alice) (replyParts? x.inFlight)
    | .alice => ItemsFull (viewB x.bob) (replyParts? x.inFlight)

variable (hA : Peer A dom viewA liveA freshA) (hB : Peer B dom viewB liveB freshB)
  (hfixA : ∀ s e, viewA (put s e).2 = viewA s) (hfixB : ∀ s e, viewB (put s e).2 = viewB s)

include hA hB hfixA hfixB

/-- Step: what is sent next costs what differs. -/
theorem charged_step {x x' : Exchange A B E K R} {n : Nat} (h : x.Sound dom viewA liveA viewB liveB oA oB n)
    (hD : x.Charged viewA viewB D) (hstep : x.step statusA statusB = .ok x') :
    x'.Charged viewA viewB D ∧ (replyParts? x'.inFlight).length ≤ 2 * D.length ∧
      (partValues (replyParts? x'.inFlight)).length ≤ 2 * D.length := by
  have hvalues : ∀ m : Message E K R, (partValues m.parts).length = m.values.length := by
    intro m
    simp [Message.values, partValues, List.length_flatMap]
  obtain ⟨a, b, turn, inFlight, toBob, toAlice⟩ := x
  cases inFlight with
  | none =>
    cases hstep
    exact ⟨hD, Nat.zero_le _, Nat.zero_le _⟩
  | some m =>
    cases turn with
    | bob =>
      obtain ⟨reply, hr, hx⟩ := bind_eq_ok.1 hstep
      cases hx
      have hview := view_processMessage_fixed hfixB statusB b m
      cases reply with
      | none =>
        exact ⟨⟨hview ▸ hD.alike, hD.emptyA, hview ▸ hD.emptyB, fun it hit => by cases hit⟩, Nat.zero_le _,
          Nat.zero_le _⟩
      | some m' =>
        obtain ⟨hparts, hsent, hfull⟩ := reply_charged hB statusB hfixB hD.emptyA h hD.alike hD.full hr
        exact ⟨⟨hview ▸ hD.alike, hD.emptyA, hview ▸ hD.emptyB, hview ▸ hfull⟩, hparts,
          (hvalues m').trans_le hsent⟩
    | alice =>
      obtain ⟨reply, hr, hx⟩ := bind_eq_ok.1 hstep
      cases hx
      have hview := view_processMessage_fixed hfixA statusA a m
      cases reply with
      | none =>
        exact ⟨⟨hview ▸ hD.alike, hview ▸ hD.emptyA, hD.emptyB, fun it hit => by cases hit⟩, Nat.zero_le _,
          Nat.zero_le _⟩
      | some m' =>
        obtain ⟨hparts, hsent, hfull⟩ := reply_charged hA statusA hfixA hD.emptyB h hD.alike.symm hD.full hr
        exact ⟨⟨hview ▸ hD.alike, hview ▸ hD.emptyA, hD.emptyB, hview ▸ hfull⟩, hparts,
          (hvalues m').trans_le hsent⟩

end Run

end PdnStore.Ranger

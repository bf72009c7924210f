import PdnStore.Ranger.Round
import Mathlib.Data.List.Sublists

/-!
# Convergence of the exchange

`InFlight` is the invariant of the exchange, stated for the message on its way. The two halves that
carry the result are `sender_covered` and `receiver_covered`: every entry a side serves is known to
the other one, or the message still speaks for it. A reply keeps it with the roles exchanged
(`inFlight_reply`), and lowers the rank: a split leaves fewer entries in each part, an item is
answered at most once. So the exchange ends, and when nothing is in flight both sides know all that
was served.

That an entry is never sent twice comes from the ranges: those of one message are disjoint, those of
a reply lie inside the ranges it answers, and a range still under a fingerprint holds no key that
was sent.
-/

namespace PdnStore.Ranger

open Store MaxSet

variable {S A B E K V R : Type} [LinearOrder K] [RangeEntry E K V R] [Blake3]

/-- Where the fingerprints of a range agree, the entries in it do (up to what entries are compared by). -/
def RangesTell (l l' : List E) : Prop :=
  ∀ r : Range K, fingerprint (inRange r l) = fingerprint (inRange r l') → stamps (inRange r l) = stamps (inRange r l')

theorem RangesTell.symm {l l' : List E} (h : RangesTell l l') : RangesTell l' l :=
  fun r heq => (h r heq.symm).symm

/-- Checked on the finitely many parts of one list. -/
theorem rangesTell_of_sublists {all l l' : List E}
    (h : ∀ p ∈ all.sublists, ∀ p' ∈ all.sublists, fingerprint p = fingerprint p' → p = p')
    (hl : l.Sublist all) (hl' : l'.Sublist all) : RangesTell l l' :=
  fun _ heq => congrArg stamps (h _ (List.mem_sublists.2 (List.filter_sublist.trans hl)) _
    (List.mem_sublists.2 (List.filter_sublist.trans hl')) heq)

variable [RangeKey K] [LinearOrder V] [Store S E K V] [Store A E K V] [Store B E K V] [Inhabited K]

/-- One side as the other can tell: what it serves, what it holds, and the keys it has sent. -/
structure Party (E K : Type) where
  view : List E
  live : List E
  sent : List K

/-- The message `parts` is on its way from `X` (of origin `o`) to `Y` (of origin `o'`). -/
structure InFlight (dom : Set K) (o o' : Origin E K V) (X Y : Party E K)
    (parts : List (MessagePart E K R)) (n : Nat) : Prop where
  sender : Holding o o' X.view X.live
  receiver : Holding o' o Y.view Y.live
  plain : rejections parts = []
  disjoint : (ranges parts).Pairwise Range.Disjoint
  within : ∀ q ∈ ranges parts, q.Within dom
  fingerprint_ok : ∀ fp ∈ fingerprints parts, fp.fingerprint = fingerprint (inRange fp.range X.view)
  item_ok : ∀ it ∈ items parts, ∀ v ∈ it.values,
    it.range.contains (key v.1) = true ∧ v.1 ∈ o.serves ∧ Has X.live v.1
  sender_covered : ∀ e ∈ X.view, Has Y.live e ∨
    (∃ fp ∈ fingerprints parts, fp.range.contains (key e) = true) ∨ e ∈ partValues parts
  receiver_covered : ∀ e ∈ Y.view, Has X.live e ∨
    (∃ fp ∈ fingerprints parts, fp.range.contains (key e) = true) ∨
    ∃ it ∈ items parts, it.haveLocal = false ∧ it.range.contains (key e) = true
  sender_sent : X.sent.Nodup
  receiver_sent : Y.sent.Nodup
  fingerprint_new : ∀ fp ∈ fingerprints parts, ∀ k, k ∈ X.sent ∨ k ∈ Y.sent → fp.range.contains k = false
  item_new : ∀ it ∈ items parts, it.haveLocal = false → ∀ k ∈ Y.sent, it.range.contains k = false
  fingerprint_rank : ∀ fp ∈ fingerprints parts, count fp.range X.view + count fp.range Y.view + 3 ≤ n
  item_rank : ∀ it ∈ items parts, (if it.haveLocal then 1 else 2) ≤ n

/-! ## The reply as a whole -/

/-- The parts of the reply: the answers to the items, then those to the fingerprints. -/
def replyParts (out : List (MessagePart E K R)) (ans : RangeFingerprint K → List (MessagePart E K R))
    (parts : List (MessagePart E K R)) : List (MessagePart E K R) :=
  out ++ (fingerprints parts).flatMap ans

/-- What is known of a reply: how the item loop ended, and the answer to each fingerprint. -/
structure Replied (dom : Set K) (view live : S → List E) (status : E → ContentStatus) (o : Origin E K V)
    (s : S) (parts : List (MessagePart E K R)) (st : Round S E K R)
    (ans : RangeFingerprint K → List (MessagePart E K R)) : Prop where
  items : ItemsDone view live status o s (items parts) st
  answers : ∀ fp ∈ fingerprints parts, Answers dom status (view st.store) fp (ans fp)

section Reply

variable {dom : Set K} {view live : S → List E} {fresh : Prop} {status : E → ContentStatus}
  {o o' : Origin E K V} {s : S} {parts : List (MessagePart E K R)} {st : Round S E K R}
  {ans : RangeFingerprint K → List (MessagePart E K R)}

/-- A message within the domain is processed without error or panic. -/
theorem processMessage_acceptAll (status : E → ContentStatus) (hp : Peer S dom view live fresh)
    (hm : o.Meets dom fresh o')
    (h₀ : Holding o o' (view s) (live s)) (hin : ∀ q ∈ ranges parts, q.Within dom)
    (hvals : ∀ it ∈ items parts, ∀ v ∈ it.values, v.1 ∈ o'.serves) :
    ∃ (st : Round S E K R) (ans : RangeFingerprint K → List (MessagePart E K R)),
      Replied dom view live status o s parts st ans ∧
      processMessage default acceptAll status s ⟨parts⟩ =
        ⟨st.store, st.inserted, .ok (if (replyParts st.out ans parts).isEmpty then none
          else some ⟨replyParts st.out ans parts⟩)⟩ := by
  obtain ⟨st, hfold, hdone⟩ := itemsDone_tryFold hp status hm h₀ (R := R) hvals
    fun it hit => hin _ (range_mem_of_item hit)
  have hans : ∀ fp ∈ fingerprints parts, ∃ a : List (MessagePart E K R),
      processFingerprint default status st.store fp = .ok a ∧ Answers dom status (view st.store) fp a :=
    fun fp hfp => processFingerprint_default status hp.reads st.store fp
      (hin _ (range_mem_of_fingerprint hfp))
  choose! ans hok hans using hans
  refine ⟨st, ans, ⟨hdone, hans⟩, ?_⟩
  unfold processMessage replyParts
  rw [hfold]
  dsimp only
  rw [mapM_ok hok]
  simp [bind, Except.bind, List.flatMap]

variable (h : Replied dom view live status o s parts st ans)

include h

omit [Inhabited K] in
theorem mem_fingerprints_reply {fp : RangeFingerprint K}
    (hfp : fp ∈ fingerprints (replyParts st.out ans parts)) :
    ∃ rf ∈ fingerprints parts, fp ∈ fingerprints (ans rf) := by
  rcases List.mem_append.1 (mem_fingerprints.1 hfp) with hout | hans
  · obtain ⟨_, -, -, _, heq, -⟩ := h.items.out _ hout
    cases heq
  · obtain ⟨rf, hrf, hmem⟩ := List.mem_flatMap.1 hans
    exact ⟨rf, hrf, mem_fingerprints.2 hmem⟩

omit [LinearOrder V] [RangeEntry E K V R] [Store S E K V] [Inhabited K] h [LinearOrder K] [RangeKey K] [Blake3] in
theorem mem_items_reply {it : RangeItem E K} (hit : it ∈ items (replyParts st.out ans parts)) :
    (.rangeItem it ∈ st.out) ∨ ∃ rf ∈ fingerprints parts, it ∈ items (ans rf) := by
  rcases List.mem_append.1 (mem_items.1 hit) with hout | hans
  · exact .inl hout
  · obtain ⟨rf, hrf, hmem⟩ := List.mem_flatMap.1 hans
    exact .inr ⟨rf, hrf, mem_items.2 hmem⟩

omit h [LinearOrder K] [RangeKey K] [Blake3] [Inhabited K] in
/-- What answers a fingerprint is part of the reply. -/
theorem mem_reply_of_answer {rf : RangeFingerprint K} (hrf : rf ∈ fingerprints parts)
    {part : MessagePart E K R} (hpart : part ∈ ans rf) : part ∈ replyParts st.out ans parts :=
  List.mem_append_right _ (List.mem_flatMap.2 ⟨rf, hrf, hpart⟩)

omit [Inhabited K] in
theorem rejections_reply : rejections (replyParts st.out ans parts) = [] := by
  rw [replyParts, rejections_append, List.append_eq_nil_iff]
  constructor
  · refine List.filterMap_eq_nil_iff.2 fun part hpart => ?_
    obtain ⟨_, -, -, _, rfl, -⟩ := h.items.out part hpart
    rfl
  · refine List.filterMap_eq_nil_iff.2 fun part hpart => ?_
    obtain ⟨rf, hrf, hmem⟩ := List.mem_flatMap.1 hpart
    exact List.filterMap_eq_nil_iff.1 (h.answers rf hrf).plain part hmem

omit [LinearOrder V] [RangeEntry E K V R] [Store S E K V] h [LinearOrder K] [RangeKey K] [Blake3] [Inhabited K] in
theorem ranges_reply : ranges (replyParts st.out ans parts) =
    ranges st.out ++ (fingerprints parts).flatMap fun rf => ranges (ans rf) := by
  rw [replyParts, ranges_append]
  congr 1
  exact List.filterMap_flatMap

omit [Inhabited K] in
/-- The ranges of the reply lie inside those of the message. -/
theorem disjoint_reply (hd : (ranges parts).Pairwise Range.Disjoint) :
    (ranges (replyParts st.out ans parts)).Pairwise Range.Disjoint := by
  obtain ⟨hitems, hfps, hcross⟩ := disjoint_parts hd
  rw [ranges_reply]
  refine List.pairwise_append.2 ⟨hitems.sublist h.items.ranges, ?_, ?_⟩
  · refine List.pairwise_flatMap.2 ⟨fun rf hrf => (h.answers rf hrf).disjoint, ?_⟩
    refine hfps.imp_of_mem fun {rf rf'} hrf hrf' hdis q hq q' hq' t ht => ?_
    exact (h.answers rf' hrf').outside hq' (hdis t ((h.answers rf hrf).inside q hq t ht))
  · intro q hq q' hq' t ht
    obtain ⟨rf, hrf, hq'⟩ := List.mem_flatMap.1 hq'
    obtain ⟨it, hit, rfl⟩ := List.mem_map.1 (h.items.ranges.subset hq)
    exact (h.answers rf hrf).outside hq' (hcross it hit rf hrf t ht)

omit [Inhabited K] in
theorem within_reply (hin : ∀ q ∈ ranges parts, q.Within dom) :
    ∀ q ∈ ranges (replyParts st.out ans parts), q.Within dom := by
  intro q hq
  rw [ranges_reply] at hq
  rcases List.mem_append.1 hq with hq | hq
  · obtain ⟨it, hit, rfl⟩ := List.mem_map.1 (h.items.ranges.subset hq)
    exact hin _ (range_mem_of_item hit)
  · obtain ⟨rf, hrf, hq⟩ := List.mem_flatMap.1 hq
    exact (h.answers rf hrf).within q hq

omit [Inhabited K] in
theorem item_ok_reply (hst : Holding o o' (view st.store) (live st.store)) :
    ∀ it ∈ items (replyParts st.out ans parts), (it.values.map fun v => key v.1).Nodup ∧
      ∀ v ∈ it.values, it.range.contains (key v.1) = true ∧ v.1 ∈ o.serves ∧ Has (live st.store) v.1 := by
  intro it hit
  rcases mem_items_reply hit with hout | ⟨rf, hrf, hit⟩
  · obtain ⟨it', -, -, ours, heq, hnd, hall⟩ := h.items.out _ hout
    cases heq
    constructor
    · simpa [Function.comp_def] using hnd
    · intro v hv
      obtain ⟨e, he, rfl⟩ := List.mem_map.1 hv
      exact hall e he
  · have hvals := ((h.answers rf hrf).itemOk it hit).2
    have hsorted : SortedBy key (inRange it.range (view st.store)) := hst.sorted.filter _
    constructor
    · rw [hvals]
      simpa [Function.comp_def] using hsorted.nodup_map
    · intro v hv
      rw [hvals] at hv
      obtain ⟨e, he, rfl⟩ := List.mem_map.1 hv
      obtain ⟨hv, hc⟩ := mem_inRange.1 he
      exact ⟨hc, hst.view_serves e hv, hst.view_has e hv⟩

end Reply

omit [LinearOrder V] [RangeKey K] [Blake3] [Inhabited K] in
/-- Values in disjoint ranges have different keys. -/
theorem nodup_partValues {parts : List (MessagePart E K R)} (hd : (ranges parts).Pairwise Range.Disjoint)
    (hit : ∀ it ∈ items parts, (it.values.map fun v => key v.1).Nodup ∧
      ∀ v ∈ it.values, it.range.contains (key v.1) = true) : ((partValues parts).map key).Nodup := by
  have hitems := List.pairwise_map.1 (disjoint_parts hd).1
  unfold partValues
  rw [List.map_flatMap]
  refine List.nodup_flatMap.2 ⟨fun it h => ?_, hitems.imp_of_mem fun {a b} ha hb hdis => ?_⟩
  · simpa [Function.comp_def] using (hit it h).1
  · intro k hka hkb
    simp only [List.map_map, List.mem_map, Function.comp_apply] at hka hkb
    obtain ⟨v, hv, rfl⟩ := hka
    obtain ⟨w, hw, hkw⟩ := hkb
    have := hdis _ ((hit a ha).2 v hv)
    rw [← hkw, (hit b hb).2 w hw] at this
    cases this

/-! ## One message -/

section Step

variable {dom : Set K} {view live : S → List E} {fresh : Prop} {status : E → ContentStatus}
  {o o' : Origin E K V} {s : S} {X : Party E K} {sent : List K} {n : Nat}
  {parts : List (MessagePart E K R)} {st : Round S E K R}
  {ans : RangeFingerprint K → List (MessagePart E K R)}
  (hp : Peer S dom view live fresh) (hm : o'.Meets dom fresh o) (ht : RangesTell X.view (view st.store))
  (h : InFlight dom o o' X ⟨view s, live s, sent⟩ parts n)
  (hr : Replied dom view live status o' s parts st ans)

section

include h hm

omit [Store S E K V] [Inhabited K] in
theorem mem_serves_of_partValues {e : E} (he : e ∈ partValues parts) : e ∈ o.serves ∧ key e ∈ dom := by
  obtain ⟨it, hit, v, hv, rfl⟩ := mem_partValues.1 he
  have := (h.item_ok it hit v hv).2.1
  exact ⟨this, hm.mem_dom _ this⟩

include hp hr

theorem holding_reply : Holding o' o (view st.store) (live st.store) := by
  rw [hr.items.store]
  exact holding_puts hp hm h.receiver _ fun e he => (mem_serves_of_partValues hm h he).1

/-- What the receiver serves after a message it served before, or was in the message. -/
theorem mem_view_reply {e : E} (he : e ∈ view st.store) : e ∈ view s ∨ e ∈ partValues parts := by
  rw [hr.items.store] at he
  exact mem_view_puts hp _ (fun e he => (mem_serves_of_partValues hm h he).2) he

/-- Under a fingerprint nothing is taken in. -/
theorem inRange_reply_subset {rf : RangeFingerprint K} (hrf : rf ∈ fingerprints parts) :
    inRange rf.range (view st.store) ⊆ inRange rf.range (view s) := by
  intro e he
  obtain ⟨he, hc⟩ := mem_inRange.1 he
  rcases mem_view_reply hp hm h hr he with hv | hv
  · exact mem_inRange.2 ⟨hv, hc⟩
  · exfalso
    obtain ⟨it, hit, v, hvals, rfl⟩ := mem_partValues.1 hv
    have hout := (disjoint_parts h.disjoint).2.2 it hit rf hrf _ (h.item_ok it hit v hvals).1
    rw [hc] at hout
    cases hout

theorem has_receiver {e : E} (he : Has (live s) e ∨ e ∈ partValues parts) : Has (live st.store) e := by
  rw [hr.items.store]
  have hdom : ∀ e ∈ partValues parts, key e ∈ dom := fun e he => (mem_serves_of_partValues hm h he).2
  rcases he with he | he
  · exact has_puts hp he _ hdom
  · exact has_puts_mem hp _ hdom he

end

include ht h

omit [Store S E K V] [Inhabited K] in
/-- A fingerprint is answered by silence only when both sides serve the same under it. -/
theorem same_stamps {rf : RangeFingerprint K} (hrf : rf ∈ fingerprints parts)
    (hmatch : fingerprint (inRange rf.range (view st.store)) = rf.fingerprint) :
    stamps (inRange rf.range X.view) = stamps (inRange rf.range (view st.store)) :=
  ht rf.range (by rw [hmatch, h.fingerprint_ok rf hrf])

include hp hm hr

/-- The receiver of the message, now the sender of the reply. -/
theorem sender_covered_reply {e : E} (he : e ∈ view st.store) : Has X.live e ∨
    (∃ fp ∈ fingerprints (replyParts st.out ans parts), fp.range.contains (key e) = true) ∨
    e ∈ partValues (replyParts st.out ans parts) := by
  rcases mem_view_reply hp hm h hr he with hold | hnew
  · rcases h.receiver_covered e hold with hx | ⟨rf, hrf, hc⟩ | ⟨it, hit, hl, hc⟩
    · exact .inl hx
    · rcases (hr.answers rf hrf).covers with ⟨-, hmatch⟩ | hcov
      · -- silence: the sender serves an entry with the same stamp
        left
        have hmem : stamp e ∈ stamps (inRange rf.range X.view) := by
          rw [same_stamps ht h hrf hmatch]
          exact stamp_mem_stamps (mem_inRange.2 ⟨he, hc⟩)
        exact h.sender.has_of_stamp hmem
      · right
        obtain ⟨q, hq, hqc⟩ := hcov _ hc
        rcases mem_ranges.1 hq with ⟨it, hit, rfl⟩ | ⟨fp, hfp, rfl⟩
        · right
          refine mem_partValues.2 ⟨it, mem_items.2 (mem_reply_of_answer hrf (mem_items.1 hit)),
            (e, status e), ?_, rfl⟩
          rw [((hr.answers rf hrf).itemOk it hit).2]
          exact List.mem_map.2 ⟨e, mem_inRange.2 ⟨he, hqc⟩, rfl⟩
        · left
          exact ⟨fp, mem_fingerprints.2 (mem_reply_of_answer hrf (mem_fingerprints.1 hfp)), hqc⟩
    · rcases hr.items.answered it hit hl e he hc with ⟨it', hit', v, hv, hle⟩ | hout
      · -- superseded by a value of the message, which its sender knows
        exact .inl (LowerSet.lower _ hle (h.item_ok it' hit' v hv).2.2)
      · right; right
        rw [replyParts, partValues_append]
        exact List.mem_append_left _ hout
  · obtain ⟨it, hit, v, hv, rfl⟩ := mem_partValues.1 hnew
    exact .inl (h.item_ok it hit v hv).2.2

/-- The sender of the message, now the receiver of the reply. -/
theorem receiver_covered_reply {e : E} (he : e ∈ X.view) : Has (live st.store) e ∨
    (∃ fp ∈ fingerprints (replyParts st.out ans parts), fp.range.contains (key e) = true) ∨
    ∃ it ∈ items (replyParts st.out ans parts), it.haveLocal = false ∧ it.range.contains
      (key e) = true := by
  rcases h.sender_covered e he with hy | ⟨rf, hrf, hc⟩ | hv
  · exact .inl (has_receiver hp hm h hr (.inl hy))
  · rcases (hr.answers rf hrf).covers with ⟨-, hmatch⟩ | hcov
    · left
      have hmem : stamp e ∈ stamps (inRange rf.range (view st.store)) := by
        rw [← same_stamps ht h hrf hmatch]
        exact stamp_mem_stamps (mem_inRange.2 ⟨he, hc⟩)
      exact (holding_reply hp hm h hr).has_of_stamp hmem
    · right
      obtain ⟨q, hq, hqc⟩ := hcov _ hc
      rcases mem_ranges.1 hq with ⟨it, hit, rfl⟩ | ⟨fp, hfp, rfl⟩
      · right
        exact ⟨it, mem_items.2 (mem_reply_of_answer hrf (mem_items.1 hit)),
          ((hr.answers rf hrf).itemOk it hit).1, hqc⟩
      · left
        exact ⟨fp, mem_fingerprints.2 (mem_reply_of_answer hrf (mem_fingerprints.1 hfp)), hqc⟩
  · exact .inl (has_receiver hp hm h hr (.inr hv))

omit ht in
/-- A key sent in the reply lies in a range of the message the receiver had sent nothing in. -/
theorem not_sent_of_reply {k : K} (hk : k ∈ (partValues (replyParts st.out ans parts)).map key) :
    k ∉ sent := by
  intro hsent
  obtain ⟨e, he, rfl⟩ := List.mem_map.1 hk
  obtain ⟨it, hit, v, hv, rfl⟩ := mem_partValues.1 he
  have hc := ((item_ok_reply hr (holding_reply hp hm h hr)) it hit).2 v hv |>.1
  rcases mem_items_reply hit with hout | ⟨rf, hrf, hit⟩
  · obtain ⟨it', hit', hl, ours, heq, -⟩ := hr.items.out _ hout
    cases heq
    rw [h.item_new it' hit' hl _ hsent] at hc
    cases hc
  · have hin := (hr.answers rf hrf).inside _ (range_mem_of_item hit) _ hc
    rw [h.fingerprint_new rf hrf _ (.inr hsent)] at hin
    cases hin

/-- **A reply keeps the invariant, with the roles exchanged and a smaller rank.** -/
theorem inFlight_reply : InFlight dom o' o
    ⟨view st.store, live st.store, sent ++ (partValues (replyParts st.out ans parts)).map key⟩ X
    (replyParts st.out ans parts) (n - 1) where
  sender := holding_reply hp hm h hr
  receiver := h.sender
  plain := rejections_reply hr
  disjoint := disjoint_reply hr h.disjoint
  within := within_reply hr h.within
  fingerprint_ok fp hfp := by
    obtain ⟨rf, hrf, hfp⟩ := mem_fingerprints_reply hr hfp
    exact ((hr.answers rf hrf).fingerprintOk fp hfp).1
  item_ok it hit := (item_ok_reply hr (holding_reply hp hm h hr) it hit).2
  sender_covered e he := sender_covered_reply hp hm ht h hr he
  receiver_covered e he := receiver_covered_reply hp hm ht h hr he
  sender_sent := by
    have hitems := item_ok_reply hr (holding_reply hp hm h hr)
    refine List.nodup_append'.2
      ⟨h.receiver_sent, ?_, fun k hk hk' => not_sent_of_reply hp hm h hr hk' hk⟩
    exact nodup_partValues (disjoint_reply hr h.disjoint)
      fun it hit => ⟨(hitems it hit).1, fun v hv => ((hitems it hit).2 v hv).1⟩
  receiver_sent := h.sender_sent
  fingerprint_new fp hfp k hk := by
    obtain ⟨rf, hrf, hfp'⟩ := mem_fingerprints_reply hr hfp
    have houtside {t : K} (ht : rf.range.contains t = false) : fp.range.contains t = false :=
      (hr.answers rf hrf).outside (range_mem_of_fingerprint hfp') ht
    -- sent before: then not even in the range answered here; sent just now: in another range
    rcases hk with hk | hk
    · rcases List.mem_append.1 hk with hk | hk
      · exact houtside (h.fingerprint_new rf hrf k (.inr hk))
      · obtain ⟨e, he, rfl⟩ := List.mem_map.1 hk
        obtain ⟨it, hit, v, hv, rfl⟩ := mem_partValues.1 he
        exact (disjoint_parts (disjoint_reply hr h.disjoint)).2.2 it hit fp hfp _
          (((item_ok_reply hr (holding_reply hp hm h hr)) it hit).2 v hv).1
    · exact houtside (h.fingerprint_new rf hrf k (.inl hk))
  item_new it hit hl k hk := by
    rcases mem_items_reply hit with hout | ⟨rf, hrf, hit⟩
    · obtain ⟨it', -, -, ours, heq, -⟩ := hr.items.out _ hout
      cases heq
      cases hl
    · exact (hr.answers rf hrf).outside (range_mem_of_item hit) (h.fingerprint_new rf hrf k (.inl hk))
  fingerprint_rank fp hfp := by
    obtain ⟨rf, hrf, hfp⟩ := mem_fingerprints_reply hr hfp
    have hrank := h.fingerprint_rank rf hrf
    have hlt := ((hr.answers rf hrf).fingerprintOk fp hfp).2
    have hY : count rf.range (view st.store) ≤ count rf.range (view s) :=
      SortedBy.length_le ((hp.reads.sorted _).filter _) (inRange_reply_subset hp hm h hr hrf)
    have hX : count fp.range X.view ≤ count rf.range X.view := by
      unfold count
      rw [← inRange_inRange ((hr.answers rf hrf).inside _ (range_mem_of_fingerprint hfp))]
      exact List.length_filter_le ..
    simp only at hrank ⊢
    omega
  item_rank it hit := by
    rcases mem_items_reply hit with hout | ⟨rf, hrf, hit⟩
    · obtain ⟨it', hit', hl, ours, heq, -⟩ := hr.items.out _ hout
      cases heq
      have := h.item_rank it' hit'
      simp only [hl, Bool.false_eq_true, if_false, if_true] at this ⊢
      omega
    · have := h.fingerprint_rank rf hrf
      rw [((hr.answers rf hrf).itemOk it hit).1]
      simp only [Bool.false_eq_true, if_false]
      omega

end Step

/-! ## The whole exchange -/

/-- Both sides know what the other serves. -/
structure Settled (o o' : Origin E K V) (X Y : Party E K) : Prop where
  left : Holding o o' X.view X.live
  right : Holding o' o Y.view Y.live
  knows : ∀ e ∈ X.view, Has Y.live e
  known : ∀ e ∈ Y.view, Has X.live e
  left_sent : X.sent.Nodup
  right_sent : Y.sent.Nodup

omit [Blake3] [Inhabited K] in
theorem Settled.symm {o o' : Origin E K V} {X Y : Party E K} (h : Settled o o' X Y) : Settled o' o Y X :=
  ⟨h.right, h.left, h.known, h.knows, h.right_sent, h.left_sent⟩

omit [Inhabited K] in
/-- No message left to send. -/
theorem settled_of_nil {dom : Set K} {o o' : Origin E K V} {X Y : Party E K} {n : Nat}
    (h : InFlight (R := R) dom o o' X Y [] n) : Settled o o' X Y where
  left := h.sender
  right := h.receiver
  knows e he := by simpa [fingerprints, partValues, items] using h.sender_covered e he
  known e he := by simpa [fingerprints, items] using h.receiver_covered e he
  left_sent := h.sender_sent
  right_sent := h.receiver_sent

omit [Blake3] [Inhabited K] in
/-- What a settled side holds: the maximal ones among what it began with and what it was served. -/
theorem Settled.stamps_live {o o' : Origin E K V} {X Y : Party E K} (h : Settled o o' X Y) :
    stamps Y.live = maximals (o'.base ∪ o.start) := by
  refine Reduct.eq_maximals ⟨h.right.antichain, h.right.live_sub, ?_⟩
  rintro x (hx | hx)
  · exact h.right.base_has x hx
  · obtain ⟨y, ⟨e, he, rfl⟩, hle⟩ := h.left.start_has x hx
    exact LowerSet.lower _ hle (h.knows e he)

omit [Inhabited K] in
/-- A message of rank zero is empty. -/
theorem InFlight.eq_nil {dom : Set K} {o o' : Origin E K V} {X Y : Party E K}
    {parts : List (MessagePart E K R)} (h : InFlight dom o o' X Y parts 0) : parts = [] := by
  refine List.eq_nil_iff_forall_not_mem.2 fun part hpart => ?_
  cases part with
  | rangeFingerprint fp =>
    have := h.fingerprint_rank fp (mem_fingerprints.2 hpart)
    omega
  | rangeItem it =>
    have := h.item_rank it (mem_items.2 hpart)
    split at this <;> omega
  | rejected id =>
    have := List.filterMap_eq_nil_iff.1 h.plain _ hpart
    simp at this

omit [LinearOrder K] [RangeKey K] [LinearOrder V] [Blake3] [Inhabited K] in
theorem sentKeys_append (log : List (Message E K R)) (parts : List (MessagePart E K R)) :
    sentKeys (log ++ [⟨parts⟩]) = sentKeys log ++ (partValues parts).map key := by
  simp [sentKeys, Message.values, partValues, List.map_flatMap, Function.comp_def]

/-- What holds after a reply of `Y` to `X`. -/
def Continues (dom : Set K) (o o' : Origin E K V) (X : Party E K) (view live : List E)
    (log : List (Message E K R)) (n : Nat) : Option (Message E K R) → Prop
  | none => Settled o' o ⟨view, live, sentKeys log⟩ X
  | some m => 0 < n ∧ InFlight dom o' o ⟨view, live, sentKeys (log ++ [m])⟩ X m.parts (n - 1)

/-- One message read by `s`: it is answered, and if fingerprints tell what the sender serves from what `s` serves
then, the invariant goes on or the exchange is settled. -/
theorem processMessage_continues {dom : Set K} {view live : S → List E} {fresh : Prop}
    (status : E → ContentStatus) {o o' : Origin E K V} {s : S} {X : Party E K} {log : List (Message E K R)}
    {n : Nat} {m : Message E K R} (hp : Peer S dom view live fresh) (hm : o'.Meets dom fresh o)
    (h : InFlight dom o o' X ⟨view s, live s, sentKeys log⟩ m.parts n) :
    ∃ s' inserted reply, processMessage default acceptAll status s m = ⟨s', inserted, .ok reply⟩ ∧
      (RangesTell X.view (view s') → Continues dom o o' X (view s') (live s') log n reply) := by
  obtain ⟨st, ans, hr, hproc⟩ := processMessage_acceptAll status hp hm h.receiver h.within
    fun it hit v hv => (h.item_ok it hit v hv).2.1
  refine ⟨_, _, _, hproc, fun ht => ?_⟩
  have hnext := inFlight_reply hp hm ht h hr
  generalize replyParts st.out ans m.parts = out at hnext
  cases out with
  | nil =>
    rw [show partValues ([] : List (MessagePart E K R)) = [] from rfl, List.map_nil, List.append_nil]
      at hnext
    exact settled_of_nil hnext
  | cons part out =>
    rw [← sentKeys_append] at hnext
    refine ⟨Nat.pos_of_ne_zero ?_, hnext⟩
    rintro rfl
    cases hnext.eq_nil

section Run

variable {dom : Set K} {viewA liveA : A → List E} {viewB liveB : B → List E} {freshA freshB : Prop}
  (statusA statusB : E → ContentStatus) {oA oB : Origin E K V}

/-- Alice's side of an exchange. -/
def Exchange.partyA (viewA liveA : A → List E) (x : Exchange A B E K R) : Party E K :=
  ⟨viewA x.alice, liveA x.alice, sentKeys x.aliceToBob⟩

/-- Bob's side of an exchange. -/
def Exchange.partyB (viewB liveB : B → List E) (x : Exchange A B E K R) : Party E K :=
  ⟨viewB x.bob, liveB x.bob, sentKeys x.bobToAlice⟩

variable (dom viewA liveA viewB liveB oA oB) in
/-- The invariant, whichever way the message goes; without a message both sides are settled. -/
def Exchange.Sound (x : Exchange A B E K R) (n : Nat) : Prop :=
  match x.inFlight, x.turn with
  | none, _ => Settled oA oB (x.partyA viewA liveA) (x.partyB viewB liveB)
  | some m, .bob => InFlight dom oA oB (x.partyA viewA liveA) (x.partyB viewB liveB) m.parts n
  | some m, .alice => InFlight dom oB oA (x.partyB viewB liveB) (x.partyA viewA liveA) m.parts n

/-- Whenever a message has been read, the fingerprints of ranges tell the two sides apart: the sender as it was after
its reply, the reader as it is after its item loop, when it compares them. -/
def Exchange.Tells (viewA : A → List E) (viewB : B → List E) (statusA statusB : E → ContentStatus)
    (x : Exchange A B E K R) : Prop :=
  ∀ (n : Nat) (x' : Exchange A B E K R), x.run statusA statusB (n + 1) = .ok x' →
    RangesTell (viewA x'.alice) (viewB x'.bob)

variable {statusA statusB} in
omit [RangeKey K] [Inhabited K] in
theorem Exchange.Tells.now {x x' : Exchange A B E K R} (ht : x.Tells viewA viewB statusA statusB)
    (hstep : x.step statusA statusB = .ok x') : RangesTell (viewA x'.alice) (viewB x'.bob) :=
  ht 0 x' (bind_eq_ok.2 ⟨x', hstep, rfl⟩)

variable {statusA statusB} in
omit [RangeKey K] [Inhabited K] in
theorem Exchange.Tells.next {x x' : Exchange A B E K R} (ht : x.Tells viewA viewB statusA statusB)
    (hstep : x.step statusA statusB = .ok x') : x'.Tells viewA viewB statusA statusB :=
  fun n x'' hrun => ht (n + 1) x'' (bind_eq_ok.2 ⟨x', hstep, hrun⟩)

omit [RangeKey K] [Inhabited K] in
/-- What a side serves that takes nothing in is the same after every message. -/
theorem view_processMessage_fixed {S : Type} [Store S E K V] {view : S → List E}
    (hfix : ∀ s e, view (put s e).2 = view s) (status : E → ContentStatus) (s : S) (m : Message E K R) :
    view (processMessage default acceptAll status s m).store = view s :=
  processMessage_preserves (P := fun s' => view s' = view s) acceptAll default status rfl m
    fun s' v _ _ h => (hfix s' v.1).trans h

omit [RangeKey K] [Inhabited K] in
/-- Of sides that serve what they served in the beginning it need only be known then. -/
theorem Exchange.tells_of_fixed (hfixA : ∀ s e, viewA (put s e).2 = viewA s)
    (hfixB : ∀ s e, viewB (put s e).2 = viewB s) {x : Exchange A B E K R}
    (ht : RangesTell (viewA x.alice) (viewB x.bob)) : x.Tells viewA viewB statusA statusB := by
  have hstep : ∀ x x' : Exchange A B E K R, x.step statusA statusB = .ok x' →
      viewA x'.alice = viewA x.alice ∧ viewB x'.bob = viewB x.bob := by
    rintro ⟨a, b, turn, inFlight, toBob, toAlice⟩ x' hx
    cases inFlight with
    | none => cases hx; exact ⟨rfl, rfl⟩
    | some m =>
      cases turn with
      | bob =>
        obtain ⟨reply, -, hx⟩ := bind_eq_ok.1 hx
        cases hx
        exact ⟨rfl, view_processMessage_fixed hfixB statusB b m⟩
      | alice =>
        obtain ⟨reply, -, hx⟩ := bind_eq_ok.1 hx
        cases hx
        exact ⟨view_processMessage_fixed hfixA statusA a m, rfl⟩
  intro n
  induction n generalizing x with
  | zero =>
    intro x' hrun
    obtain ⟨x₁, hx, hrun⟩ := bind_eq_ok.1 hrun
    cases hrun
    rwa [(hstep _ _ hx).1, (hstep _ _ hx).2]
  | succ n ih =>
    intro x' hrun
    obtain ⟨x₁, hx, hrun⟩ := bind_eq_ok.1 hrun
    exact ih (by rwa [(hstep _ _ hx).1, (hstep _ _ hx).2]) x' hrun

variable (hA : Peer A dom viewA liveA freshA) (hB : Peer B dom viewB liveB freshB)
  (hmA : oA.Meets dom freshA oB) (hmB : oB.Meets dom freshB oA)

include hA hB hmA hmB

/-- Step: a message is read without error, and the invariant holds of the reply. -/
theorem sound_step (x : Exchange A B E K R) {n : Nat} (h : x.Sound dom viewA liveA viewB liveB oA oB n)
    (ht : x.Tells viewA viewB statusA statusB) :
    ∃ x', x.step statusA statusB = .ok x' ∧ x'.Sound dom viewA liveA viewB liveB oA oB (n - 1) ∧
      (x'.inFlight.isSome → 0 < n) := by
  obtain ⟨a, b, turn, inFlight, toBob, toAlice⟩ := x
  cases inFlight with
  | none => exact ⟨_, rfl, h, fun hs => by cases hs⟩
  | some m =>
    cases turn with
    | bob =>
      obtain ⟨b', ins, reply, hproc, hnext⟩ := processMessage_continues statusB hB hmB h
      have hstep : (⟨a, b, .bob, some m, toBob, toAlice⟩ : Exchange A B E K R).step statusA statusB =
          .ok ⟨a, b', .alice, reply, toBob, toAlice ++ reply.toList⟩ := by
        simp [Exchange.step, hproc, bind, Except.bind]
      specialize hnext (ht.now hstep)
      refine ⟨_, hstep, ?_⟩
      cases reply with
      | none =>
        have hs : Settled oA oB ⟨viewA a, liveA a, sentKeys toBob⟩
          ⟨viewB b', liveB b', sentKeys (toAlice ++ [])⟩ := by
          rw [List.append_nil]
          exact Settled.symm hnext
        exact ⟨hs, fun hs => by cases hs⟩
      | some m' => exact ⟨hnext.2, fun _ => hnext.1⟩
    | alice =>
      obtain ⟨a', ins, reply, hproc, hnext⟩ := processMessage_continues statusA hA hmA h
      have hstep : (⟨a, b, .alice, some m, toBob, toAlice⟩ : Exchange A B E K R).step statusA statusB =
          .ok ⟨a', b, .bob, reply, toBob ++ reply.toList, toAlice⟩ := by
        simp [Exchange.step, hproc, bind, Except.bind]
      specialize hnext (ht.now hstep).symm
      refine ⟨_, hstep, ?_⟩
      cases reply with
      | none =>
        have hs : Settled oA oB ⟨viewA a', liveA a', sentKeys (toBob ++ [])⟩
          ⟨viewB b, liveB b, sentKeys toAlice⟩ := by
          rw [List.append_nil]
          exact hnext
        exact ⟨hs, fun hs => by cases hs⟩
      | some m' => exact ⟨hnext.2, fun _ => hnext.1⟩

/-- Run: the rank bounds the number of messages. -/
theorem sound_run (n : Nat) (x : Exchange A B E K R) (h : x.Sound dom viewA liveA viewB liveB oA oB n)
    (ht : x.Tells viewA viewB statusA statusB) :
    ∃ x', x.run statusA statusB (n + 1) = .ok x' ∧ x'.inFlight = none ∧
      Settled oA oB (x'.partyA viewA liveA) (x'.partyB viewB liveB) := by
  induction n generalizing x with
  | zero =>
    obtain ⟨x', hstep, hs, hpos⟩ := sound_step statusA statusB hA hB hmA hmB x h ht
    have hnone : x'.inFlight = none := by
      cases hf : x'.inFlight with
      | none => rfl
      | some m => exact absurd (hpos (by rw [hf]; rfl)) (lt_irrefl 0)
    refine ⟨x', by simp [Exchange.run, hstep, bind, Except.bind], hnone, ?_⟩
    simpa [Exchange.Sound, hnone] using hs
  | succ n ih =>
    obtain ⟨x', hstep, hs, -⟩ := sound_step statusA statusB hA hB hmA hmB x h ht
    obtain ⟨x'', hrun, hres⟩ := ih x' hs (ht.next hstep)
    refine ⟨x'', ?_, hres⟩
    rw [Exchange.run, hstep]
    exact hrun

omit hB hmA hmB in
variable (viewB liveB) in
omit [Store B E K V] in
/-- The opening message speaks for everything. -/
theorem sound_start {a : A} {b : B} (ha : Holding oA oB (viewA a) (liveA a))
    (hb : Holding oB oA (viewB b) (liveB b)) : ∃ x : Exchange A B E K R, Exchange.start a b = .ok x ∧
      x.Sound dom viewA liveA viewB liveB oA oB ((viewA a).length + (viewB b).length + 3) := by
  have hfirst := hA.reads.getFirst a
  generalize ((viewA a).head?.map key).getD default = k at hfirst
  have hall : (Range.mk k k).Within dom := .inl rfl
  have hcontains : ∀ t, (Range.mk k k).contains t = true := fun t => Range.contains_iff.2 (.inl rfl)
  refine ⟨⟨a, b, .bob, some ⟨[.rangeFingerprint ⟨⟨k, k⟩, fingerprint (inRange ⟨k, k⟩ (viewA a))⟩]⟩,
    [⟨[.rangeFingerprint ⟨⟨k, k⟩, fingerprint (inRange ⟨k, k⟩ (viewA a))⟩]⟩], []⟩, ?_, ?_⟩
  · simp [Exchange.start, initialMessage, hfirst, hA.reads.getFingerprint a _ hall, bind, Except.bind]
  · refine ⟨ha, hb, rfl, by simp [ranges, MessagePart.range?],
      by simpa [ranges, MessagePart.range?] using hall,
      by simp [fingerprints, Exchange.partyA], by simp [items],
        fun e _ => .inr (.inl ⟨_, List.mem_cons_self, hcontains _⟩),
      fun e _ => .inr (.inl ⟨_, List.mem_cons_self, hcontains _⟩), List.nodup_nil, List.nodup_nil,
      ?_, by simp [items], ?_, by simp [items]⟩
    · rintro fp - k (hk | hk) <;> cases hk
    · intro fp _
      have hl : count fp.range (viewA a) ≤ (viewA a).length := List.length_filter_le ..
      have hr : count fp.range (viewB b) ≤ (viewB b).length := List.length_filter_le ..
      simp only [Exchange.partyA, Exchange.partyB]
      omega

/-- The exchange from its start to its end. -/
theorem exchange_settles {a : A} {b : B} (ha : Holding oA oB (viewA a) (liveA a))
    (hb : Holding oB oA (viewB b) (liveB b))
    (ht : ∀ x : Exchange A B E K R, Exchange.start a b = .ok x → x.Tells viewA viewB statusA statusB) :
    ∃ (n : Nat) (x₀ x : Exchange A B E K R), Exchange.start a b = .ok x₀ ∧
      x₀.run statusA statusB n = .ok x ∧
      x.inFlight = none ∧ Settled oA oB (x.partyA viewA liveA) (x.partyB viewB liveB) := by
  obtain ⟨x₀, hstart, hs⟩ := sound_start viewB liveB hA (R := R) ha hb
  obtain ⟨x, hrun, hres⟩ := sound_run statusA statusB hA hB hmA hmB _ x₀ hs (ht x₀ hstart)
  exact ⟨_, x₀, x, hstart, hrun, hres⟩

end Run

end PdnStore.Ranger

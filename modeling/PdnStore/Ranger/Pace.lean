import PdnStore.Ranger.Converge
import PdnStore.Ranger.Gate
import Mathlib.Data.Nat.Log

/-!
# How long an exchange takes (ranger.rs:476-603)

A fingerprint that does not match is answered by splitting the range at the receiver's middle entry, so
of the entries the receiver serves in it each half holds one half (`splitRanges_halves`). The two sides
take turns, so a range is halved for both of them every two messages, and as soon as one of them is down
to a single entry it is sent. The number of messages is logarithmic in the smaller of the two sets
(`pace`, `paced_run`).
-/

namespace PdnStore.Ranger

open Store MaxSet

/-! ## The pace -/

/-- How many messages a fingerprint keeps going when its receiver serves `q` entries under it and its
sender `p`: each side halves in turn, and the first down to one entry sends it. -/
def pace (q p : Nat) : Nat := min (2 * Nat.clog 2 q) (2 * Nat.clog 2 p + 1) + 3

theorem pace_mono {q q' p p' : Nat} (hq : q ≤ q') (hp : p ≤ p') : pace q p ≤ pace q' p' := by
  have h := Nat.clog_mono_right 2 hq
  have h' := Nat.clog_mono_right 2 hp
  unfold pace
  omega

/-- The receiver has halved what it serves and is now the sender. -/
theorem pace_halved {q q' p : Nat} (hq : 2 ≤ q) (hq' : q' ≤ (q + 1) / 2) : pace p q' + 1 ≤ pace q p := by
  have hclog : Nat.clog 2 q = Nat.clog 2 ((q + 2 - 1) / 2) + 1 := Nat.clog_of_two_le (by decide) hq
  have hmono : Nat.clog 2 q' ≤ Nat.clog 2 ((q + 2 - 1) / 2) := Nat.clog_mono_right 2 (by omega)
  unfold pace
  omega

variable {S A B E K V R : Type} [RangeEntry E K V R] [Store S E K V]

/-! ## What the item loop says -/

section Said

/-- What the item loop has written for the peer: no fingerprints, and items only for items that ask. -/
structure ItemsSaid (done : List (RangeItem E K)) (st : Round S E K R) : Prop where
  fingerprints : fingerprints st.out = []
  items : ∀ it ∈ items st.out, it.haveLocal = true ∧ ∃ it' ∈ done, it'.haveLocal = false

theorem fingerprints_append (l l' : List (MessagePart E K R)) :
    fingerprints (l ++ l') = fingerprints l ++ fingerprints l' := List.filterMap_append

variable [LinearOrder V]

/-- A value says nothing about ranges. -/
theorem storeValue_says (validate : S → E → ContentStatus → ValidateOutcome) (st : Round S E K R)
    (v : E × ContentStatus) : fingerprints (storeValue validate st v).out = fingerprints st.out ∧
      items (storeValue validate st v).out = items st.out := by
  unfold storeValue
  cases validate st.store v.1 v.2 with
  | accept =>
    dsimp only
    split <;> exact ⟨rfl, rfl⟩
  | drop => exact ⟨rfl, rfl⟩
  | reject =>
    dsimp only
    split
    · simp [fingerprints, items]
    · exact ⟨rfl, rfl⟩

theorem foldl_storeValue_says (validate : S → E → ContentStatus → ValidateOutcome)
    (vs : List (E × ContentStatus)) (st : Round S E K R) :
    fingerprints (vs.foldl (storeValue validate) st).out = fingerprints st.out ∧
      items (vs.foldl (storeValue validate) st).out = items st.out := by
  induction vs generalizing st with
  | nil => exact ⟨rfl, rfl⟩
  | cons v vs ih =>
    obtain ⟨hfps, hitems⟩ := storeValue_says validate st v
    rw [List.foldl_cons, (ih _).1, (ih _).2]
    exact ⟨hfps, hitems⟩

variable [LinearOrder K]

theorem itemsSaid_step {status : E → ContentStatus} {validate : S → E → ContentStatus → ValidateOutcome}
    {done : List (RangeItem E K)} {item : RangeItem E K} {st st' : Round S E K R}
    (hstep : itemStep validate status st item = (st', none)) (h : ItemsSaid done st) : ItemsSaid (done ++ [item]) st' := by
  obtain ⟨hfps, hitems⟩ := foldl_storeValue_says validate item.values st
  have hkeep : ∀ {st'' : Round S E K R}, fingerprints st''.out = fingerprints st.out →
      items st''.out = items st.out → ItemsSaid (done ++ [item]) st'' := by
    intro st'' hf hi
    refine ⟨hf.trans h.fingerprints, fun it hit => ?_⟩
    obtain ⟨hl, it', hit', hl'⟩ := h.items it (hi ▸ hit)
    exact ⟨hl, it', List.mem_append_left _ hit', hl'⟩
  unfold itemStep at hstep
  rcases hd : itemDiff status st.store item with fault | diff
  · rw [hd] at hstep
    cases hstep
  rw [hd] at hstep
  match diff with
  | none => cases hstep; exact hkeep hfps hitems
  | some [] => cases hstep; exact hkeep hfps hitems
  | some (d :: ds) =>
    cases hstep
    have hask : item.haveLocal = false := by
      unfold itemDiff at hd
      split at hd
      · cases hd
      · rename_i hl
        simpa using hl
    have hold := hkeep hfps hitems
    refine ⟨?_, fun it hit => ?_⟩
    · rw [fingerprints_append, hold.fingerprints]
      rfl
    · rw [items_append] at hit
      rcases List.mem_append.1 hit with hit | hit
      · exact hold.items it hit
      · obtain rfl := List.mem_singleton.1 hit
        exact ⟨rfl, item, by simp, hask⟩

end Said

variable [LinearOrder K]

/-! ## Halving -/

section Halving

/-- Entries laid out one half after the other, each half in its own range. -/
theorem count_of_parts {q₁ q₂ : Range K} {a b l : List E} (hperm : l.Perm (a ++ b))
    (ha : ∀ e ∈ a, q₁.contains (key e) = true) (hb : ∀ e ∈ b, q₂.contains (key e) = true)
    (hd : q₁.Disjoint q₂) : count q₁ l = a.length ∧ count q₂ l = b.length := by
  have hcount : ∀ q : Range K, count q l = (inRange q a).length + (inRange q b).length := by
    intro q
    have hfilter := (hperm.filter fun e => q.contains (key e)).length_eq
    rwa [List.filter_append, List.length_append] at hfilter
  have hall : ∀ {q : Range K} {l : List E}, (∀ e ∈ l, q.contains (key e) = true) → inRange q l = l :=
    fun h => List.filter_eq_self.2 h
  have hnone : ∀ {q : Range K} {l : List E}, (∀ e ∈ l, q.contains (key e) = false) → inRange q l = [] :=
    fun h => List.filter_eq_nil_iff.2 fun e he => by simp [h e he]
  constructor
  · rw [hcount, hall ha, hnone fun e he => hd.symm _ (hb e he)]
    rfl
  · rw [hcount, hall hb, hnone fun e he => hd _ (ha e he), List.length_nil, Nat.zero_add]

variable {r : Range K} {l : List E} {c : K} {f : Nat → K}

/-- The `i`-th entry from the start of the range on, wrapping around. -/
theorem pivot_index (h : Pivots default r.x l 0 c f) (hn : 2 ≤ l.length) :
    ∃ (h₀ : 0 < (l.rotate (startIndex r.x l)).length)
      (h₁ : l.length / 2 < (l.rotate (startIndex r.x l)).length),
      c = key ((l.rotate (startIndex r.x l)).get ⟨0, h₀⟩) ∧
      f 0 = key ((l.rotate (startIndex r.x l)).get ⟨l.length / 2, h₁⟩) := by
  have hlen : (l.rotate (startIndex r.x l)).length = l.length := List.length_rotate ..
  refine ⟨by omega, by omega, ?_, ?_⟩
  · have hidx : l.length * (1 % (default : SyncConfig).splitFactor + 1) / (default : SyncConfig).splitFactor %
        l.length = 0 := by
      show l.length * 2 / 2 % l.length = 0
      rw [Nat.mul_div_cancel _ (by omega), Nat.mod_self]
    have hp : pivot default r.x l 1 = .ok _ := pivot_eq_ok r.x 1 (by decide) (by omega) (by omega)
    rw [h.eval, Except.ok.injEq, h.around] at hp
    rw [hp]
    congr 3
  · have hidx : l.length * (0 % (default : SyncConfig).splitFactor + 1) / (default : SyncConfig).splitFactor %
        l.length = l.length / 2 := by
      show l.length * 1 / 2 % l.length = l.length / 2
      rw [Nat.mul_one, Nat.mod_eq_of_lt (by omega)]
    have hp : pivot default r.x l 0 = .ok _ := pivot_eq_ok r.x 0 (by decide) (by omega) (by omega)
    rw [h.eval, Except.ok.injEq] at hp
    rw [hp]
    congr 3

/-- The default split cuts the local entries in the middle. -/
theorem splitRanges_halves (hs : SortedBy key l) (hin : ∀ e ∈ l, r.contains (key e) = true)
    (hn : 2 ≤ l.length) {q₁ q₂ : Range K} (hsplit : splitRanges default r l = .ok [q₁, q₂])
    (hd : q₁.Disjoint q₂) : count q₁ l ≤ (l.length + 1) / 2 ∧ count q₂ l ≤ (l.length + 1) / 2 := by
  obtain ⟨c, f, h⟩ : ∃ c f, Pivots default r.x l 0 c f := exists_pivots hs r.x rfl hn
  obtain ⟨h₀, h₁, hc, hf⟩ := pivot_index h hn
  have hpieces : pieces r 0 f = [q₁, q₂] := by
    have := h.splitRanges_eq.symm.trans hsplit
    exact Except.ok.inj this
  have hpair := List.pairwise_iff_getElem.1 (pairwise_rotate hs r.x)
  have hperm : l.Perm (l.rotate (startIndex r.x l)) := (List.rotate_perm l _).symm
  have hlen : (l.rotate (startIndex r.x l)).length = l.length := List.length_rotate ..
  generalize l.rotate (startIndex r.x l) = rot at *
  rw [List.get_eq_getElem] at hc hf
  -- the first half from the start on, and the rest
  have hcut : l.Perm (rot.take (l.length / 2) ++ rot.drop (l.length / 2)) := by
    rwa [List.take_append_drop]
  have hcut' : l.Perm (rot.drop (l.length / 2) ++ rot.take (l.length / 2)) :=
    hcut.trans List.perm_append_comm
  have htake : (rot.take (l.length / 2)).length = l.length / 2 := by rw [List.length_take]; omega
  have hdrop : (rot.drop (l.length / 2)).length = l.length - l.length / 2 := by rw [List.length_drop]; omega
  have hmem_take : ∀ e ∈ rot.take (l.length / 2), ∃ (i : Nat) (hi : i < rot.length), i < l.length / 2 ∧
      rot[i] = e := by
    intro e he
    obtain ⟨i, hi, heq⟩ := List.getElem_of_mem he
    rw [List.getElem_take] at heq
    exact ⟨i, by omega, by omega, heq⟩
  have hmem_drop : ∀ e ∈ rot.drop (l.length / 2), ∃ (i : Nat) (hi : i < rot.length), l.length / 2 ≤ i ∧
      rot[i] = e := by
    intro e he
    obtain ⟨i, hi, heq⟩ := List.getElem_of_mem he
    rw [List.getElem_drop] at heq
    exact ⟨l.length / 2 + i, by omega, by omega, heq⟩
  have hrest : ∀ {y : K}, (∀ i (hi : i < rot.length), l.length / 2 < i →
      (Range.mk (f 0) y).contains (key rot[i]) = true) →
      ∀ e ∈ rot.drop (l.length / 2), (Range.mk (f 0) y).contains (key e) = true := by
    intro y h e he
    obtain ⟨i, hi, hle, rfl⟩ := hmem_drop e he
    rcases hle.eq_or_lt with rfl | hlt
    · rw [hf]
      exact Range.contains_start
    · exact h i hi hlt
  cases hall : r.isAll with
  | true =>
    rw [h.pieces_all hall, if_pos h.last.2.1] at hpieces
    obtain ⟨rfl, rfl⟩ : (Range.mk (f 0) c) = q₁ ∧ (Range.mk c (f 0)) = q₂ := by
      simpa [Range.successive] using hpieces
    have hcounts := count_of_parts hcut' (hrest fun i hi hlt => ?_) (fun e he => ?_) hd
    · omega
    · rw [hf]
      exact Range.Before.around (hpair _ i h₁ hi hlt) (hf ▸ .inr h.last)
    · obtain ⟨i, hi, hlt, rfl⟩ := hmem_take e he
      have hlast := hpair i (l.length / 2) hi h₁ hlt
      rcases Nat.eq_zero_or_pos i with rfl | hpos
      · rw [← hc]
        exact Range.contains_start
      · have hfirst : Range.Before r.x c (key rot[i]) := hc ▸ hpair 0 i h₀ hi hpos
        rw [hf]
        exact hfirst.next hlast.2.2.symm hlast.1
  | false =>
    have hne : r.x ≠ r.y := by simpa [Range.isAll] using hall
    obtain ⟨rfl, rfl⟩ : (Range.mk r.x (f 0)) = q₁ ∧ (Range.mk (f 0) r.y) = q₂ := by
      simpa [pieces, hall, Range.successive] using hpieces
    have hcounts := count_of_parts hcut (fun e he => ?_) (hrest fun i hi hlt => ?_) hd
    · omega
    · obtain ⟨i, hi, hlt, rfl⟩ := hmem_take e he
      rw [hf]
      exact (hpair i (l.length / 2) hi h₁ hlt).1
    · have hbefore : Range.Before r.x (f 0) (key rot[i]) := hf ▸ hpair _ i h₁ hi hlt
      refine hbefore.next hne (hin _ (hperm.mem_iff.2 (List.getElem_mem hi)))

end Halving

/-! ## One answer -/

variable [LinearOrder V] [Blake3]

section Answer

variable (status : E → ContentStatus)

variable [Inhabited K] in
omit [LinearOrder V] in
/-- A fingerprint is answered by fingerprints of at most half as many entries. -/
theorem processFingerprint_halves {dom : Set K} {view : S → List E} (hr : LawfulReads S dom view) {s : S}
    {rf : RangeFingerprint K} (hin : rf.range.Within dom) {parts : List (MessagePart E K R)}
    (h : processFingerprint default status s rf = .ok parts) : ∀ fp ∈ fingerprints parts,
      2 ≤ count rf.range (view s) ∧ count fp.range (view s) ≤ (count rf.range (view s) + 1) / 2 := by
  unfold processFingerprint at h
  rw [hr.getFingerprint s _ hin, hr.getRange s _ hin] at h
  simp only [bind, Except.bind] at h
  intro fp hfp
  split at h
  · cases h; cases hfp
  split at h
  · cases h; cases hfp
  rename_i hanchor
  have hn : 2 ≤ (inRange rf.range (view s)).length := by omega
  have hsl : SortedBy key (inRange rf.range (view s)) := (hr.sorted s).filter _
  have hinr : ∀ e ∈ inRange rf.range (view s), rf.range.contains (key e) = true :=
    fun e he => (mem_inRange.1 he).2
  obtain ⟨q₁, q₂, hsplit, hh⟩ := splitRanges_default hsl hinr
    (fun e he => hr.mem_dom s e (mem_inRange.1 he).1) hin hn
  have hhalves := splitRanges_halves hsl hinr hn hsplit hh.disjoint
  have hcount : ∀ {q : Range K}, (∀ t, q.contains t = true → rf.range.contains t = true) →
      count q (inRange rf.range (view s)) = count q (view s) := by
    intro q hq
    unfold count
    rw [inRange_inRange hq]
  rw [hcount fun t ht => (hh.cover t).2 (.inl ht), hcount fun t ht => (hh.cover t).2 (.inr ht)] at hhalves
  rw [hsplit] at h
  dsimp only at h
  rw [List.mapM_cons, List.mapM_cons, chunkPart_default status hr s hh.within₁,
    chunkPart_default status hr s hh.within₂] at h
  simp only [List.mapM_nil, bind, Except.bind, pure, Except.pure] at h
  split at h
  · cases h
  cases h
  rcases List.mem_pair.1 (mem_fingerprints.1 hfp) with heq | heq
  · rw [mem_fingerprints_chunk status heq.symm]
    exact ⟨hn, hhalves.1⟩
  · rw [mem_fingerprints_chunk status heq.symm]
    exact ⟨hn, hhalves.2⟩

/-- Where the parts of a reply come from: fingerprints from the fingerprints answered, and so do items,
except those that answer an item and ask for nothing. -/
theorem of_mem_reply {config : SyncConfig} {validate : S → E → ContentStatus → ValidateOutcome} {s : S}
    {m m' : Message E K R} (h : (processMessage config validate status s m).reply = .ok (some m')) :
    (∀ fp ∈ fingerprints m'.parts, ∃ rf ∈ fingerprints m.parts, ∃ ps : List (MessagePart E K R),
      processFingerprint config status (processMessage config validate status s m).store rf = .ok ps ∧
        fp ∈ fingerprints ps) ∧
    ∀ it ∈ items m'.parts, (it.haveLocal = true ∧ ∃ it' ∈ items m.parts, it'.haveLocal = false) ∨
      ∃ rf, rf ∈ fingerprints m.parts := by
  unfold processMessage at h ⊢
  rcases hst : tryFold (itemStep validate status) (⟨s, [], []⟩ : Round S E K R) (items m.parts) with ⟨st, o⟩
  rw [hst] at h
  cases o with
  | some fault => cases h
  | none =>
    have hsaid : ItemsSaid (items m.parts) st :=
      tryFold_done (I := ItemsSaid) (fun _ _ _ _ hstep hI => itemsSaid_step hstep hI) []
        ⟨rfl, fun it hit => by cases hit⟩ hst
    obtain ⟨parts, hparts, h⟩ := bind_eq_ok.1 h
    rw [Except.ok.injEq] at h
    split at h
    · cases h
    cases h
    dsimp only
    refine ⟨fun fp hfp => ?_, fun it hit => ?_⟩
    · rw [fingerprints_append, hsaid.fingerprints, List.nil_append, mem_fingerprints] at hfp
      obtain ⟨ps, hps, hmem⟩ := List.mem_flatten.1 hfp
      obtain ⟨rf, hrf, hok⟩ := mem_of_mapM_ok hparts ps hps
      exact ⟨rf, hrf, ps, hok, mem_fingerprints.2 hmem⟩
    · rw [items_append] at hit
      rcases List.mem_append.1 hit with hit | hit
      · exact .inl (hsaid.items it hit)
      · obtain ⟨ps, hps, -⟩ := List.mem_flatten.1 (mem_items.1 hit)
        obtain ⟨rf, hrf, -⟩ := mem_of_mapM_ok hparts ps hps
        exact .inr ⟨rf, hrf⟩

end Answer

/-! ## Runs -/

variable [Store A E K V] [Store B E K V] [RangeKey K] [Inhabited K]

/-- The message `parts`, on its way from a side that serves `X` to one that serves `Y`, is answered with
at most `n - 1` more. -/
structure Paced (X Y : List E) (parts : List (MessagePart E K R)) (n : Nat) : Prop where
  fingerprint : ∀ fp ∈ fingerprints parts, pace (count fp.range Y) (count fp.range X) ≤ n
  item : ∀ it ∈ items parts, (if it.haveLocal then 1 else 2) ≤ n

omit [LinearOrder V] [Blake3] [RangeKey K] [Inhabited K] in
/-- Whatever a message asks, it does not ask for nothing. -/
theorem Paced.pos {X Y : List E} {parts : List (MessagePart E K R)} {n : Nat} (h : Paced X Y parts n)
    (hplain : rejections parts = []) (hne : parts ≠ []) : 0 < n := by
  obtain ⟨part, hpart⟩ := List.exists_mem_of_ne_nil parts hne
  cases part with
  | rangeFingerprint fp =>
    have := h.fingerprint fp (mem_fingerprints.2 hpart)
    unfold pace at this
    omega
  | rangeItem it =>
    have := h.item it (mem_items.2 hpart)
    split at this <;> omega
  | rejected id => cases List.filterMap_eq_nil_iff.1 hplain _ hpart

/-- Step: a reply is one closer to the end. -/
theorem paced_reply {dom : Set K} {view live : S → List E} {fresh : Prop} (status : E → ContentStatus)
    {o o' : Origin E K V} {s : S} {X : Party E K} {sent : List K} {n k : Nat} {m m' : Message E K R}
    (hp : Peer S dom view live fresh) (hm : o'.Meets dom fresh o)
    (h : InFlight dom o o' X ⟨view s, live s, sent⟩ m.parts n) (hk : Paced X.view (view s) m.parts k)
    (hreply : (processMessage default acceptAll status s m).reply = .ok (some m')) :
    Paced (view (processMessage default acceptAll status s m).store) X.view m'.parts (k - 1) := by
  obtain ⟨st, ans, hr, hproc⟩ := processMessage_acceptAll status hp hm h.receiver h.within
    fun it hit v hv => (h.item_ok it hit v hv).2.1
  obtain ⟨hfps, hitems⟩ := of_mem_reply status hreply
  refine ⟨fun fp hfp => ?_, fun it hit => ?_⟩
  · obtain ⟨rf, hrf, ps, hok, hmem⟩ := hfps fp hfp
    have hwithin := h.within _ (range_mem_of_fingerprint hrf)
    obtain ⟨htwo, hhalf⟩ := processFingerprint_halves status hp.reads hwithin hok fp hmem
    obtain ⟨ps', hok', hans⟩ := processFingerprint_default status (R := R) hp.reads
      (processMessage default acceptAll status s m).store rf hwithin
    obtain rfl : ps = ps' := Except.ok.inj (hok.symm.trans hok')
    -- nothing was taken in under the fingerprint, so its receiver serves no more than it did
    have hY : count rf.range (view (processMessage default acceptAll status s m).store) ≤
        count rf.range (view s) := by
      have hstore : (processMessage default acceptAll status s m).store = st.store := congrArg _ hproc
      rw [hstore]
      exact SortedBy.length_le ((hp.reads.sorted _).filter _) (inRange_reply_subset hp hm h hr hrf)
    have hX : count fp.range X.view ≤ count rf.range X.view := by
      unfold count
      rw [← inRange_inRange (hans.inside _ (range_mem_of_fingerprint hmem))]
      exact List.length_filter_le ..
    have hstep := pace_halved (p := count fp.range X.view) htwo hhalf
    have hle := hk.fingerprint rf hrf
    have hmono := pace_mono hY hX
    omega
  · rcases hitems it hit with ⟨hl, it', hit', hl'⟩ | ⟨rf, hrf⟩
    · have := hk.item it' hit'
      rw [hl'] at this
      rw [hl]
      simp only [Bool.false_eq_true, if_false, if_true] at this ⊢
      omega
    · have := hk.fingerprint rf hrf
      unfold pace at this
      split <;> omega

section Run

variable {dom : Set K} {viewA liveA : A → List E} {viewB liveB : B → List E} {freshA freshB : Prop}
  (statusA statusB : E → ContentStatus) {oA oB : Origin E K V}

/-- The pace of the message in flight, whichever way it goes. -/
def Exchange.Paced (viewA : A → List E) (viewB : B → List E) (x : Exchange A B E K R) (n : Nat) : Prop :=
  match x.inFlight, x.turn with
  | none, _ => True
  | some m, .bob => Ranger.Paced (viewA x.alice) (viewB x.bob) m.parts n
  | some m, .alice => Ranger.Paced (viewB x.bob) (viewA x.alice) m.parts n

omit [RangeKey K] [LinearOrder V] [Store B E K V] [Inhabited K] [Blake3] in
/-- The opening message is one fingerprint of everything. -/
theorem paced_start {a : A} {b : B} {x : Exchange A B E K R} (hstart : Exchange.start a b = .ok x)
    (viewA : A → List E) (viewB : B → List E) :
    x.Paced viewA viewB (pace (viewB b).length (viewA a).length) := by
  obtain ⟨m, hm, hx⟩ := bind_eq_ok.1 hstart
  obtain ⟨k, -, hm⟩ := bind_eq_ok.1 hm
  obtain ⟨fp, -, hm⟩ := bind_eq_ok.1 hm
  cases hm
  cases hx
  refine ⟨fun fp hfp => ?_, fun it hit => by cases hit⟩
  obtain rfl := List.mem_singleton.1 hfp
  exact pace_mono (List.length_filter_le ..) (List.length_filter_le ..)

variable (hA : Peer A dom viewA liveA freshA) (hB : Peer B dom viewB liveB freshB)
  (hmA : oA.Meets dom freshA oB) (hmB : oB.Meets dom freshB oA)

include hA hB hmA hmB

/-- Step: one message. -/
theorem paced_step {x x' : Exchange A B E K R} {n k : Nat} (h : x.Sound dom viewA liveA viewB liveB oA oB n)
    (hk : x.Paced viewA viewB k) (hstep : x.step statusA statusB = .ok x')
    (hs : x'.Sound dom viewA liveA viewB liveB oA oB (n - 1)) :
    x'.Paced viewA viewB (k - 1) ∧ (x'.inFlight.isSome → 1 < k) := by
  obtain ⟨a, b, turn, inFlight, toBob, toAlice⟩ := x
  cases inFlight with
  | none => cases hstep; exact ⟨trivial, fun h => by cases h⟩
  | some m =>
    cases turn with
    | bob =>
      obtain ⟨reply, hr, hx⟩ := bind_eq_ok.1 hstep
      cases hx
      cases reply with
      | none => exact ⟨trivial, fun h => by cases h⟩
      | some m' =>
        have hnext := paced_reply statusB hB hmB h hk hr
        have hpos := hnext.pos (InFlight.plain hs) (parts_ne_nil_of_reply hr)
        exact ⟨hnext, fun _ => by omega⟩
    | alice =>
      obtain ⟨reply, hr, hx⟩ := bind_eq_ok.1 hstep
      cases hx
      cases reply with
      | none => exact ⟨trivial, fun h => by cases h⟩
      | some m' =>
        have hnext := paced_reply statusA hA hmA h hk hr
        have hpos := hnext.pos (InFlight.plain hs) (parts_ne_nil_of_reply hr)
        exact ⟨hnext, fun _ => by omega⟩

/-- Run: the pace bounds the number of messages. -/
theorem paced_run (k : Nat) {n : Nat} {x : Exchange A B E K R} (h : x.Sound dom viewA liveA viewB liveB oA oB n)
    (ht : x.Tells viewA viewB statusA statusB) (hk : x.Paced viewA viewB k) (hpos : x.inFlight.isSome → 0 < k) :
    ∃ x', x.run statusA statusB k = .ok x' ∧ x'.inFlight = none := by
  induction k generalizing x n with
  | zero =>
    cases hf : x.inFlight with
    | none => exact ⟨x, rfl, hf⟩
    | some m => exact absurd (hpos (by rw [hf]; rfl)) (lt_irrefl 0)
  | succ k ih =>
    obtain ⟨x', hstep, hs, -⟩ := sound_step statusA statusB hA hB hmA hmB x h ht
    obtain ⟨hk', hpos'⟩ := paced_step statusA statusB hA hB hmA hmB h hk hstep hs
    obtain ⟨x'', hrun, hnone⟩ := ih hs (ht.next hstep) hk' fun hf => by have := hpos' hf; omega
    exact ⟨x'', bind_eq_ok.2 ⟨x', hstep, hrun⟩, hnone⟩

end Run

end PdnStore.Ranger

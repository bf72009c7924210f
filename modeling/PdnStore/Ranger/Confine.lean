import PdnStore.Ranger.Split

/-!
# What a reply can carry, whatever the peer sends (ranger.rs:368-611)

The ranges of a message come from the peer. A store that refuses a range outside its domain makes
`process_message` refuse the message as a whole (`Confinement.refused`); otherwise every part of the reply
speaks about a range inside one that was asked about, and transmits entries of that range that the store
served (`Confinement.served`). None of the panics of the split is reached (`Confinement.noPanic`).
-/

namespace PdnStore.Ranger

open Store

variable {S E K V R : Type} [LinearOrder K] [LinearOrder V] [RangeEntry E K V R]
  [Store S E K V]

/-- Every key of the range is a key of `r`. -/
def Range.Inside (q r : Range K) : Prop := ∀ t, q.contains t = true → r.contains t = true

/-- The ranges a message asks about: those of the items that want ours, and of its fingerprints. -/
def asked (parts : List (MessagePart E K R)) : List (Range K) :=
  ((items parts).filter fun item => !item.haveLocal).map (·.range) ++ (fingerprints parts).map (·.range)

/-- The part transmits entries of its range with `P`, and its range is inside an asked one. -/
def Confined (P : E → Prop) (ranges : List (Range K)) : MessagePart E K R → Prop
  | .rangeItem item => (∀ v ∈ item.values, P v.1 ∧ item.range.contains (key v.1) = true) ∧
      ∃ r ∈ ranges, item.range.Inside r
  | .rangeFingerprint fp => ∃ r ∈ ranges, fp.range.Inside r
  | .rejected _ => True

/-- A store that answers no read over a range outside its domain. -/
structure Refuses (S : Type) [Store S E K V] (dom : Set K) : Prop where
  range : ∀ (s : S) (r : Range K), ¬ r.Within dom → ∃ msg, getRange s r = .error (.error msg)
  fingerprint : ∀ (s : S) (r : Range K), ¬ r.Within dom → ∃ msg, getFingerprint s r = .error (.error msg)

/-- What a reply to `m` can be. -/
structure Confinement (P : E → Prop) (dom : Set K) (m : Message E K R)
    (reply : Except Fault (Option (Message E K R))) : Prop where
  noPanic : ∀ msg, reply ≠ .error (.panic msg)
  served : ∀ out, reply = .ok (some out) → ∀ part ∈ out.parts, Confined P (asked m.parts) part
  refused : ∀ r ∈ asked m.parts, ¬ r.Within dom → ∃ msg, reply = .error (.error msg)

section

variable [Blake3] [Inhabited K] {dom : Set K} {view : S → List E} (hr : LawfulReads S dom view)
  (href : Refuses S dom) (status : E → ContentStatus) {P : E → Prop}
include hr href

/-! ## One fingerprint -/

omit [LinearOrder V] in
/-- A fingerprint is refused with an error, or answered inside its range. -/
theorem processFingerprint_confined {s : S} (hview : ∀ e ∈ view s, P e) (rf : RangeFingerprint K) :
    (rf.range.Within dom ∧ ∃ parts : List (MessagePart E K R),
      processFingerprint default status s rf = .ok parts ∧ ∀ part ∈ parts, Confined P [rf.range] part) ∨
    (¬ rf.range.Within dom ∧ ∃ msg,
      processFingerprint (R := R) default status s rf = .error (.error msg)) := by
  by_cases hin : rf.range.Within dom
  · obtain ⟨parts, hparts, hans⟩ := processFingerprint_default (R := R) status hr s rf hin
    refine .inl ⟨hin, parts, hparts, ?_⟩
    intro part hpart
    have hinside : ∀ q, part.range? = some q → q.Inside rf.range := by
      intro q hq t ht
      exact hans.inside q (List.mem_filterMap.2 ⟨part, hpart, hq⟩) t ht
    cases part with
    | rejected id => trivial
    | rangeFingerprint fp => exact ⟨rf.range, by simp, hinside fp.range rfl⟩
    | rangeItem item =>
      refine ⟨?_, rf.range, by simp, hinside item.range rfl⟩
      intro v hv
      rw [(hans.itemOk item (mem_items.2 hpart)).2] at hv
      obtain ⟨e, he, rfl⟩ := List.mem_map.1 hv
      obtain ⟨hmem, hrange⟩ := mem_inRange.1 he
      exact ⟨hview e hmem, hrange⟩
  · obtain ⟨msg, hmsg⟩ := href.fingerprint s rf.range hin
    refine .inr ⟨hin, msg, ?_⟩
    simp only [processFingerprint, hmsg, bind, Except.bind]

/-! ## One item -/

/-- The difference to an item: refused with an error, or entries of the range we serve. -/
theorem itemDiff_confined {s : S} (hview : ∀ e ∈ view s, P e) (item : RangeItem E K) :
    (∃ diff, itemDiff status s item = .ok diff ∧ (item.haveLocal = false → item.range.Within dom) ∧
      ∀ vs, diff = some vs → item.haveLocal = false ∧
        ∀ v ∈ vs, P v.1 ∧ item.range.contains (key v.1) = true) ∨
    (∃ msg, itemDiff status s item = .error (.error msg)) := by
  cases hl : item.haveLocal with
  | true =>
    refine .inl ⟨none, ?_, ?_, ?_⟩
    · simp [itemDiff, hl]
    · intro h; cases h
    · intro vs h; cases h
  | false =>
    by_cases hin : item.range.Within dom
    · left
      simp only [itemDiff, hl, hr.getRange s item.range hin, bind, Except.bind, Bool.false_eq_true, if_false]
      refine ⟨_, rfl, fun _ => hin, ?_⟩
      rintro vs ⟨⟩
      refine ⟨trivial, ?_⟩
      intro v hv
      obtain ⟨e, he, rfl⟩ := List.mem_map.1 hv
      obtain ⟨hmem, hrange⟩ := mem_inRange.1 (List.mem_filter.1 he).1
      exact ⟨hview e hmem, hrange⟩
    · obtain ⟨msg, hmsg⟩ := href.range s item.range hin
      right
      refine ⟨msg, ?_⟩
      simp [itemDiff, hl, hmsg, bind, Except.bind]

variable (validate : S → E → ContentStatus → ValidateOutcome) {Inv : S → Prop}
  (hput : ∀ s e status, validate s e status = .accept → Inv s → Inv (put s e).2)
  (hserve : ∀ s, Inv s → ∀ e ∈ view s, P e)

/-- The state of the item loop: the invariant of the store, and a reply confined so far. -/
structure ConfinedRound (Inv : S → Prop) (P : E → Prop) (ranges : List (Range K)) (st : Round S E K R) :
    Prop where
  store : Inv st.store
  out : ∀ part ∈ st.out, Confined P ranges part

omit hr href [Blake3] [Inhabited K] in
include hput in
/-- A value keeps the invariant and adds at most a rejection. -/
theorem confinedRound_storeValue {ranges : List (Range K)} {st : Round S E K R}
    (h : ConfinedRound Inv P ranges st) (v : E × ContentStatus) :
    ConfinedRound Inv P ranges (storeValue validate st v) := by
  refine ⟨?_, ?_⟩
  · rw [storeValue_store]
    split
    · exact hput _ _ _ ‹_› h.store
    · exact h.store
  · unfold storeValue
    cases validate st.store v.1 v.2 with
    | accept =>
      dsimp only
      split <;> exact h.out
    | drop => exact h.out
    | reject =>
      dsimp only
      split
      · intro part hpart
        rcases List.mem_append.1 hpart with hp | hp
        · exact h.out part hp
        · rw [List.mem_singleton.1 hp]
          trivial
      · exact h.out

/-- An item fails with an error only, and it fails when it asks about a range outside the domain. -/
theorem itemStep_outcome (st : Round S E K R) (item : RangeItem E K) :
    (∀ fault, (itemStep validate status st item).2 = some fault → ∃ msg, fault = .error msg) ∧
    ((itemStep validate status st item).2 = none → item.haveLocal = false → item.range.Within dom) := by
  unfold itemStep
  rcases itemDiff_confined hr href status (P := fun _ => True) (s := st.store) (by simp) item with
    ⟨diff, hdiff, hin, -⟩ | ⟨msg, hmsg⟩
  · rw [hdiff]
    match diff with
    | none => exact ⟨by simp, fun _ => hin⟩
    | some [] => exact ⟨by simp, fun _ => hin⟩
    | some (_ :: _) => exact ⟨by simp, fun _ => hin⟩
  · rw [hmsg]
    refine ⟨?_, by simp⟩
    rintro fault ⟨⟩
    exact ⟨msg, rfl⟩

include hput hserve in
/-- Step: one item keeps the loop confined. -/
theorem confinedRound_itemStep {ranges : List (Range K)} {st : Round S E K R}
    (h : ConfinedRound Inv P ranges st) {item : RangeItem E K}
    (hitem : item.haveLocal = false → item.range ∈ ranges) :
    ConfinedRound Inv P ranges (itemStep validate status st item).1 := by
  have hfold : ConfinedRound Inv P ranges (item.values.foldl (storeValue validate) st) := by
    refine List.foldlRecOn item.values _ h ?_
    intro st hst v _
    exact confinedRound_storeValue validate hput hst v
  unfold itemStep
  rcases itemDiff_confined hr href status (hserve _ h.store) item with ⟨diff, hdiff, -, hvs⟩ | ⟨msg, hmsg⟩
  · rw [hdiff]
    match diff with
    | none => exact hfold
    | some [] => exact hfold
    | some (d :: ds) =>
      obtain ⟨hl, hserved⟩ := hvs _ rfl
      refine ⟨hfold.store, ?_⟩
      intro part hpart
      rcases List.mem_append.1 hpart with hp | hp
      · exact hfold.out part hp
      · rw [List.mem_singleton.1 hp]
        exact ⟨hserved, item.range, hitem hl, fun _ ht => ht⟩
  · rw [hmsg]
    exact h

/-! ## A whole message -/

omit hr href [Blake3] [Inhabited K] [LinearOrder K] in
theorem mem_asked_item {parts : List (MessagePart E K R)} {item : RangeItem E K}
    (h : item ∈ items parts) (hl : item.haveLocal = false) : item.range ∈ asked parts := by
  refine List.mem_append_left _ (List.mem_map.2 ⟨item, ?_, rfl⟩)
  simp [h, hl]

omit hr href [Blake3] [Inhabited K] [LinearOrder K] in
theorem mem_asked_fingerprint {parts : List (MessagePart E K R)} {rf : RangeFingerprint K}
    (h : rf ∈ fingerprints parts) : rf.range ∈ asked parts :=
  List.mem_append_right _ (List.mem_map.2 ⟨rf, h, rfl⟩)

omit hr href [Blake3] [Inhabited K] [LinearOrder V] in
theorem Confined.mono {ranges ranges' : List (Range K)} {part : MessagePart E K R}
    (h : Confined P ranges part) (hsub : ranges ⊆ ranges') : Confined P ranges' part := by
  cases part with
  | rejected id => trivial
  | rangeFingerprint fp =>
    obtain ⟨r, hr, hin⟩ := h
    exact ⟨r, hsub hr, hin⟩
  | rangeItem item =>
    obtain ⟨hvs, r, hr, hin⟩ := h
    exact ⟨hvs, r, hsub hr, hin⟩

include hput hserve in
/-- Run: a message is answered inside what it asks about, or refused with an error. -/
theorem processMessage_confined {s : S} (hs : Inv s) (m : Message E K R) :
    Confinement P dom m (processMessage default validate status s m).reply := by
  have hloop : ConfinedRound Inv P (asked m.parts)
      (tryFold (itemStep validate status) (⟨s, [], []⟩ : Round S E K R) (items m.parts)).1 := by
    refine tryFold_preserves ?_ ⟨hs, by simp⟩
    intro st item hitem hst
    exact confinedRound_itemStep hr href status validate hput hserve hst (mem_asked_item hitem)
  unfold processMessage
  rcases hst : tryFold (itemStep validate status) (⟨s, [], []⟩ : Round S E K R) (items m.parts) with ⟨st, o⟩
  rw [hst] at hloop
  cases o with
  | some fault =>
    obtain ⟨st', item, -, hfail⟩ :=
      exists_step_of_tryFold_error (e := fault) (s := (⟨s, [], []⟩ : Round S E K R)) (by rw [hst])
    obtain ⟨msg, rfl⟩ := (itemStep_outcome hr href status validate st' item).1 fault hfail
    exact ⟨by simp, by simp, fun _ _ _ => ⟨msg, rfl⟩⟩
  | none =>
    have hitems : ∀ item ∈ items m.parts, item.haveLocal = false → item.range.Within dom := by
      have := tryFold_done (I := fun done _ => ∀ item ∈ done, item.haveLocal = false → item.range.Within dom)
        (fun done item st st' hstep hdone => ?_) [] (by simp) hst
      · simpa using this
      · intro item' hitem'
        rcases List.mem_append.1 hitem' with hd | hd
        · exact hdone item' hd
        · rw [List.mem_singleton.1 hd]
          exact (itemStep_outcome hr href status validate st item).2 (by rw [hstep])
    have hfp := processFingerprint_confined (R := R) hr href status (hserve _ hloop.store)
    dsimp only
    cases hps : (fingerprints m.parts).mapM (processFingerprint (R := R) default status st.store) with
    | error fault =>
      obtain ⟨rf, -, hrf⟩ := exists_of_mapM_error hps
      rcases hfp rf with ⟨-, parts, hok, -⟩ | ⟨-, msg, hmsg⟩
      · rw [hok] at hrf
        cases hrf
      · rw [hmsg] at hrf
        cases hrf
        exact ⟨by simp [bind, Except.bind], by simp [bind, Except.bind], fun _ _ _ => ⟨msg, rfl⟩⟩
    | ok pss =>
      refine ⟨by simp [bind, Except.bind], ?_, ?_⟩
      · intro out hout
        have hparts : out.parts = st.out ++ pss.flatten := by
          simp only [bind, Except.bind, Except.ok.injEq] at hout
          split at hout
          · cases hout
          · cases hout
            rfl
        rw [hparts]
        intro part hpart
        rcases List.mem_append.1 hpart with hp | hp
        · exact hloop.out part hp
        · obtain ⟨ps, hps', hp⟩ := List.mem_flatten.1 hp
          obtain ⟨rf, hmem, hrf⟩ := mem_of_mapM_ok hps ps hps'
          rcases hfp rf with ⟨-, parts, hok, hconf⟩ | ⟨-, msg, hmsg⟩
          · rw [hok] at hrf
            cases hrf
            refine (hconf part hp).mono ?_
            simpa using mem_asked_fingerprint hmem
          · rw [hmsg] at hrf
            cases hrf
      · intro r hmem hout
        exfalso
        apply hout
        rcases List.mem_append.1 hmem with h | h
        · obtain ⟨item, hitem, rfl⟩ := List.mem_map.1 h
          simp only [List.mem_filter, Bool.not_eq_true'] at hitem
          exact hitems item hitem.1 hitem.2
        · obtain ⟨rf, hrf, rfl⟩ := List.mem_map.1 h
          obtain ⟨parts, -, hok⟩ := ok_of_mapM_ok hps rf hrf
          rcases hfp rf with ⟨hin, -⟩ | ⟨-, msg, hmsg⟩
          · exact hin
          · rw [hmsg] at hok
            cases hok

end

end PdnStore.Ranger

import PdnStore.Ranger.Process

/-!
# Judging the values of a message (ranger.rs:439-463)

Every incoming value is judged against the store as the values before it left it (`judgements`). A value
the validator accepts is taken in when the store inserts it, and then reported to `on_insert_cb`
(`inserted_eq`). A value the validator rejects is echoed when the store would have taken it in, and
nothing else puts a rejection into a reply (`rejections_reply_eq`).
-/

namespace PdnStore.Ranger

open Store

variable {S E K V R : Type} [LinearOrder V] [RangeEntry E K V R] [Store S E K V]
  (validate : S → E → ContentStatus → ValidateOutcome)

/-- The store after a value. -/
def ingest (s : S) (v : E × ContentStatus) : S :=
  if validate s v.1 v.2 = .accept then (put s v.1).2 else s

/-- Each value with the store it is judged against. -/
def judgements : S → List (E × ContentStatus) → List (S × E × ContentStatus)
  | _, [] => []
  | s, v :: vs => (s, v) :: judgements (ingest validate s v) vs

/-- The judgement takes the value in. -/
def taken (j : S × E × ContentStatus) : Bool :=
  validate j.1 j.2.1 j.2.2 = .accept && wouldInsert j.1 j.2.1

/-- The judgement puts a rejection into the reply. -/
def echoed (j : S × E × ContentStatus) : Bool :=
  validate j.1 j.2.1 j.2.2 = .reject && wouldInsert j.1 j.2.1

/-- The rejections written while judging `vs` from `s` on. -/
def echoes (s : S) (vs : List (E × ContentStatus)) : List (S × E × ContentStatus) :=
  (judgements validate s vs).filter (echoed validate)

theorem judgements_append (s : S) (vs ws : List (E × ContentStatus)) :
    judgements validate s (vs ++ ws) = judgements validate s vs ++ judgements validate
      (vs.foldl (ingest validate) s) ws := by
  induction vs generalizing s with
  | nil => rfl
  | cons v vs ih => simp only [List.cons_append, judgements, ih, List.foldl_cons]

theorem put_fst (s : S) (e : E) : (put s e).1 = .notInserted ↔ wouldInsert s e = false := by
  unfold put
  cases wouldInsert s e <;> simp

/-- Store, rejections and reported insertions after judging a list of values from `s` on. -/
structure Judged (s : S) (vs : List (E × ContentStatus)) (st : Round S E K R) : Prop where
  store : st.store = vs.foldl (ingest validate) s
  out : rejections st.out = (echoes validate s vs).map fun j => rejectId j.2.1
  inserted : st.inserted = ((judgements validate s vs).filter (taken validate)).map Prod.snd

theorem judged_storeValue {s : S} {vs : List (E × ContentStatus)} {st : Round S E K R}
    (h : Judged validate s vs st)
    (v : E × ContentStatus) : Judged validate s (vs ++ [v]) (storeValue validate st v) := by
  have hstore : (storeValue validate st v).store = ingest validate st.store v :=
    storeValue_store validate st v
  have hecho : (echoes validate s (vs ++ [v])).map (fun j => rejectId j.2.1) =
      rejections st.out ++ if echoed validate (st.store, v) then [rejectId v.1] else [] := by
    rw [echoes, judgements_append, List.filter_append, List.map_append, h.out, h.store]
    congr 1
    simp only [judgements, List.filter_cons, List.filter_nil]
    split <;> rfl
  have htaken : ((judgements validate s (vs ++ [v])).filter (taken validate)).map Prod.snd =
      st.inserted ++ if taken validate (st.store, v) then [v] else [] := by
    rw [judgements_append, List.filter_append, List.map_append, h.inserted, h.store]
    congr 1
    simp only [judgements, List.filter_cons, List.filter_nil]
    split <;> rfl
  refine ⟨by rw [hstore, h.store, List.foldl_append]; rfl, ?_, ?_⟩
  · rw [hecho]
    unfold storeValue echoed
    cases hv : validate st.store v.1 v.2 with
    | accept =>
      dsimp only
      split <;> simp
    | drop => simp
    | reject =>
      cases hw : wouldInsert st.store v.1 with
      | true => simp [rejections]
      | false => simp
  · rw [htaken]
    unfold storeValue taken
    have hput := put_fst st.store v.1
    cases hv : validate st.store v.1 v.2 with
    | accept =>
      dsimp only
      split <;> rename_i heq <;> rw [heq] at hput <;> simp_all
    | drop => simp
    | reject =>
      dsimp only
      split <;> simp

theorem judged_foldl {s : S} {vs : List (E × ContentStatus)} {st : Round S E K R}
    (h : Judged validate s vs st)
    (ws : List (E × ContentStatus)) : Judged validate s (vs ++ ws) (ws.foldl (storeValue validate) st) := by
  induction ws generalizing vs st with
  | nil => rwa [List.append_nil]
  | cons w ws ih =>
    have := ih (judged_storeValue validate h w)
    rwa [List.append_assoc] at this

variable [LinearOrder K] (status : E → ContentStatus)

theorem judged_itemStep {s : S} {done : List (RangeItem E K)} {st st' : Round S E K R}
    {item : RangeItem E K}
    (h : Judged validate s (done.flatMap (·.values)) st)
      (hstep : itemStep validate status st item = (st', none)) :
    Judged validate s ((done ++ [item]).flatMap (·.values)) st' := by
  have hfold := judged_foldl validate h item.values
  have hvals : (done ++ [item]).flatMap (·.values) = done.flatMap (·.values) ++ item.values := by simp
  rw [hvals]
  unfold itemStep at hstep
  cases hd : itemDiff status st.store item with
  | error fault => rw [hd] at hstep; cases hstep
  | ok diff =>
    rw [hd] at hstep
    match diff with
    | none => cases hstep; exact hfold
    | some [] => cases hstep; exact hfold
    | some (d :: ds) =>
      cases hstep
      exact ⟨hfold.store, by simpa [rejections] using hfold.out, hfold.inserted⟩

variable [Blake3]

omit [LinearOrder V] in
/-- Fingerprints are not answered with rejections. -/
theorem rejections_processFingerprint {config : SyncConfig} {s : S} {rf : RangeFingerprint K}
    {parts : List (MessagePart E K R)} (h : processFingerprint config status s rf = .ok parts) :
    rejections parts = [] := by
  have hchunk : ∀ q part b, chunkPart (R := R) config status s q = .ok (part, b) →
    ∀ id, part ≠ .rejected id := by
    intro q part b hq
    obtain ⟨l, -, hq⟩ := bind_eq_ok.1 hq
    obtain ⟨fp, -, hq⟩ := bind_eq_ok.1 hq
    rw [Except.ok.injEq, Prod.mk.injEq] at hq
    rw [← hq.1]
    by_cases hlen : config.maxSetSize < l.length <;> simp [hlen]
  obtain ⟨fp, -, h⟩ := bind_eq_ok.1 h
  split at h
  · cases h; rfl
  obtain ⟨values, -, h⟩ := bind_eq_ok.1 h
  split at h
  · cases h; rfl
  obtain ⟨ranges, -, h⟩ := bind_eq_ok.1 h
  obtain ⟨chunks, hchunks, h⟩ := bind_eq_ok.1 h
  split at h
  · cases h
  cases h
  refine List.filterMap_eq_nil_iff.2 fun part hpart => ?_
  obtain ⟨⟨p, b⟩, hc, rfl⟩ := List.mem_map.1 hpart
  obtain ⟨q, -, hq⟩ := mem_of_mapM_ok hchunks _ hc
  have hne := hchunk q p b hq
  cases p with
  | rejected id => exact absurd rfl (hne id)
  | rangeItem item => rfl
  | rangeFingerprint fp => rfl

/-- The parts of a reply, none when there is no reply. -/
def replyParts? : Option (Message E K R) → List (MessagePart E K R)
  | none => []
  | some m => m.parts

omit [Blake3] in
/-- The item loop of a message that ran to its end. -/
theorem judged_items {s : S} {m : Message E K R} {st : Round S E K R}
    (h : tryFold (itemStep validate status) (⟨s, [], []⟩ : Round S E K R) (items m.parts) = (st, none)) :
    Judged validate s m.values st := by
  let I (done : List (RangeItem E K)) (st : Round S E K R) : Prop :=
    Judged validate s (done.flatMap (·.values)) st
  have h₀ : I [] ⟨s, [], []⟩ := ⟨rfl, rfl, rfl⟩
  exact tryFold_done (I := I) (fun _ _ _ _ hstep hI => judged_itemStep validate status hI hstep) [] h₀ h

/-- The insertions a message reports are the judgements that take a value in. -/
theorem inserted_eq {config : SyncConfig} {s : S} {m : Message E K R} {reply : Option (Message E K R)}
    (h : (processMessage config validate status s m).reply = .ok reply) :
    (processMessage config validate status s m).inserted =
      ((judgements validate s m.values).filter (taken validate)).map Prod.snd := by
  unfold processMessage at h ⊢
  rcases hst : tryFold (itemStep validate status) (⟨s, [], []⟩ : Round S E K R) (items m.parts) with ⟨st, o⟩
  rw [hst] at h
  cases o with
  | some fault => cases h
  | none => exact (judged_items validate status hst).inserted

/-- **The rejections of a reply are the echoed judgements.** -/
theorem rejections_reply_eq {config : SyncConfig} {s : S} {m : Message E K R}
    {reply : Option (Message E K R)}
    (h : (processMessage config validate status s m).reply = .ok reply) :
    rejections (replyParts? reply) = (echoes validate s m.values).map fun j => rejectId j.2.1 := by
  unfold processMessage at h
  rcases hst : tryFold (itemStep validate status) (⟨s, [], []⟩ : Round S E K R) (items m.parts) with ⟨st, o⟩
  rw [hst] at h
  cases o with
  | some fault => cases h
  | none =>
    have hj := judged_items validate status hst
    cases hparts : (fingerprints m.parts).mapM (processFingerprint config status st.store) with
    | error e => simp only [hparts, bind, Except.bind] at h; cases h
    | ok parts =>
      simp only [hparts, bind, Except.bind, Except.ok.injEq] at h
      have hfp : rejections parts.flatten = [] := by
        refine List.filterMap_eq_nil_iff.2 fun part hpart => ?_
        obtain ⟨ps, hps, hmem⟩ := List.mem_flatten.1 hpart
        obtain ⟨rf, -, hrf⟩ := mem_of_mapM_ok hparts ps hps
        exact List.filterMap_eq_nil_iff.1 (rejections_processFingerprint status hrf) part hmem
      have hout : rejections (st.out ++ parts.flatten) = rejections st.out := by
        rw [show rejections (st.out ++ parts.flatten) = rejections st.out ++ rejections parts.flatten from
          List.filterMap_append, hfp, List.append_nil]
      rw [show (echoes validate s m.values).map (fun j => rejectId j.2.1) = rejections st.out from
        hj.out.symm, ← hout]
      subst h
      generalize st.out ++ parts.flatten = out
      cases out <;> rfl

end PdnStore.Ranger

import PdnStore.Session.Filter

/-!
# What a reply tells about the store that sent it (ranger.rs:368-611)

Apart from rejections, the parts of a reply are computed from reads: the first key, range scans and
range fingerprints. Two stores whose reads agree, and go on agreeing whatever either of them takes in,
therefore send the same range parts, whatever they hold, whatever their validators say, and for every
message (`processMessage_rangeParts`).
-/

namespace PdnStore.Session

open Ranger Ranger.Store

variable {S S' E K V R : Type} [LinearOrder K] [LinearOrder V] [RangeEntry E K V R]
  [Store S E K V] [Store S' E K V] [Blake3]

/-- The parts of a message that are not rejections. -/
def rangeParts (parts : List (MessagePart E K R)) : List (MessagePart E K R) :=
  parts.filter fun | .rejected _ => false | _ => true

/-- The range parts of a reply, none when there is no reply. -/
def replyRangeParts (reply : Except Fault (Option (Message E K R))) :
    Except Fault (List (MessagePart E K R)) :=
  reply.map fun | none => [] | some m => rangeParts m.parts

/-- The two stores answer every read alike. -/
structure SameReads (s : S) (s' : S') : Prop where
  first : getFirst s = getFirst s'
  range : ∀ r, getRange s r = getRange s' r
  fingerprint : ∀ r, getFingerprint s r = getFingerprint s' r

omit [LinearOrder K] [Blake3] in
theorem rangeParts_append (l l' : List (MessagePart E K R)) :
    rangeParts (l ++ l') = rangeParts l ++ rangeParts l' :=
  List.filter_append ..

section Reads

variable {s : S} {s' : S'} (h : SameReads s s')
include h

omit [LinearOrder K] [LinearOrder V] [RangeEntry E K V R] [Blake3] in
theorem initialMessage_eq : initialMessage (R := R) s = initialMessage s' := by
  unfold initialMessage
  simp only [h.first, h.fingerprint]

omit [Blake3] in
theorem itemDiff_eq (status : E → ContentStatus) (item : RangeItem E K) :
    itemDiff status s item = itemDiff status s' item := by
  unfold itemDiff
  rw [h.range]

omit [LinearOrder V] in
theorem processFingerprint_eq (config : SyncConfig) (status : E → ContentStatus) (rf : RangeFingerprint K) :
    processFingerprint (R := R) config status s rf = processFingerprint config status s' rf := by
  have hchunk : chunkPart (R := R) config status s = chunkPart config status s' := by
    funext range
    unfold chunkPart
    rw [h.range, h.fingerprint]
  unfold processFingerprint
  rw [h.fingerprint, h.range, hchunk]

end Reads

/-- The stores of two item loops, and what they have written for the peer's eyes. -/
structure RoundsAgree (P : S → S' → Prop) (st : Round S E K R) (st' : Round S' E K R) : Prop where
  store : P st.store st'.store
  out : rangeParts st.out = rangeParts st'.out

section Loop

variable {P : S → S' → Prop} (hsame : ∀ s s', P s s' → SameReads s s')
  (hleft : ∀ s s' e, P s s' → P (put s e).2 s') (hright : ∀ s s' e, P s s' → P s (put s' e).2)
  (validate : S → E → ContentStatus → ValidateOutcome)
    (validate' : S' → E → ContentStatus → ValidateOutcome)
  (status : E → ContentStatus)

include hleft in
omit [Store S' E K V] [LinearOrder K] [Blake3] in
/-- A value changes the store by `put` at most, and adds at most a rejection. -/
theorem roundsAgree_storeValue_left {st : Round S E K R} {st' : Round S' E K R} (h : RoundsAgree P st st')
    (v : E × ContentStatus) : RoundsAgree P (storeValue validate st v) st' := by
  have hput := hleft st.store st'.store v.1 h.store
  unfold storeValue
  cases validate st.store v.1 v.2 with
  | accept =>
    dsimp only
    split
    · rename_i heq; rw [heq] at hput; exact ⟨hput, h.out⟩
    · rename_i heq; rw [heq] at hput; exact ⟨hput, h.out⟩
  | drop => exact h
  | reject =>
    dsimp only
    split
    · exact ⟨h.store, by rw [rangeParts_append, h.out]; exact List.append_nil _⟩
    · exact h

include hright in
omit [Store S E K V] [LinearOrder K] [Blake3] in
theorem roundsAgree_storeValue_right {st : Round S E K R} {st' : Round S' E K R} (h : RoundsAgree P st st')
    (v : E × ContentStatus) : RoundsAgree P st (storeValue validate' st' v) := by
  have hflip : RoundsAgree (fun s' s => P s s') st' st := ⟨h.store, h.out.symm⟩
  have := roundsAgree_storeValue_left (P := fun s' s => P s s')
    (fun s' s e => hright s s' e) validate' hflip v
  exact ⟨this.store, this.out.symm⟩

include hleft hright in
omit [LinearOrder K] [Blake3] in
theorem roundsAgree_foldl {st : Round S E K R} {st' : Round S' E K R} (h : RoundsAgree P st st')
    (vs : List (E × ContentStatus)) :
    RoundsAgree P (vs.foldl (storeValue validate) st) (vs.foldl (storeValue validate') st') := by
  induction vs generalizing st st' with
  | nil => exact h
  | cons v vs ih =>
    exact ih (roundsAgree_storeValue_right hright validate'
      (roundsAgree_storeValue_left hleft validate h v) v)

include hsame hleft hright

omit [Blake3] in
/-- Step: one item. -/
theorem roundsAgree_itemStep {st : Round S E K R} {st' : Round S' E K R} (h : RoundsAgree P st st')
    (item : RangeItem E K) :
    RoundsAgree P (itemStep validate status st item).1 (itemStep validate' status st' item).1 ∧
      (itemStep validate status st item).2 = (itemStep validate' status st' item).2 := by
  unfold itemStep
  rw [itemDiff_eq (hsame _ _ h.store)]
  cases itemDiff status st'.store item with
  | error fault => exact ⟨h, rfl⟩
  | ok diff =>
    have hfold := roundsAgree_foldl hleft hright validate validate' h item.values
    match diff with
    | none => exact ⟨hfold, rfl⟩
    | some [] => exact ⟨hfold, rfl⟩
    | some (d :: ds) => exact ⟨⟨hfold.store, by simp only [rangeParts_append, hfold.out]⟩, rfl⟩

/-- Run: a whole message. -/
theorem processMessage_rangeParts (config : SyncConfig) {s : S} {s' : S'} (h : P s s') (m : Message E K R) :
    P (processMessage config validate status s m).store
      (processMessage config validate' status s' m).store ∧
      replyRangeParts (processMessage config validate status s m).reply =
        replyRangeParts (processMessage config validate' status s' m).reply := by
  have h₀ : RoundsAgree P (⟨s, [], []⟩ : Round S E K R) ⟨s', [], []⟩ := ⟨h, rfl⟩
  have hrun := tryFold_rel (P := RoundsAgree P) (l := items m.parts)
    (fun st st' hst item _ => roundsAgree_itemStep hsame hleft hright validate validate' status hst item) h₀
  unfold processMessage
  rcases hst : tryFold (itemStep validate status) ⟨s, [], []⟩ (items m.parts) with ⟨st, o⟩
  rcases hst' : tryFold (itemStep validate' status) ⟨s', [], []⟩ (items m.parts) with ⟨st', o'⟩
  rw [hst, hst'] at hrun
  obtain ⟨hagree, rfl⟩ := hrun
  cases o with
  | some fault => exact ⟨hagree.store, rfl⟩
  | none =>
    refine ⟨hagree.store, ?_⟩
    have hfp : processFingerprint (R := R) config status st.store =
        processFingerprint config status st'.store :=
      funext (processFingerprint_eq (hsame _ _ hagree.store) config status)
    simp only [hfp]
    cases (fingerprints m.parts).mapM (processFingerprint config status st'.store) with
    | error fault => rfl
    | ok parts =>
      have hreply : ∀ out : List (MessagePart E K R),
          replyRangeParts (.ok (if out.isEmpty then none else some ⟨out⟩)) = .ok (rangeParts out) := by
        intro out
        cases out <;> rfl
      show replyRangeParts (.ok
        (if (st.out ++ parts.flatten).isEmpty then none else some ⟨st.out ++ parts.flatten⟩)) =
        replyRangeParts (.ok (if (st'.out ++ parts.flatten).isEmpty then none else
          some ⟨st'.out ++ parts.flatten⟩))
      rw [hreply, hreply, rangeParts_append, rangeParts_append, hagree.out]

end Loop

end PdnStore.Session

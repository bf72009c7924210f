import PdnStore.Session.Gated
import PdnStore.Ranger.Confine

/-!
# Stores that do alike on some entries (ranger.rs:351-656)

Two stores that answer every read alike, refuse the same entries of a set `W` and stay alike when one of them
is put, process every message whose values are in `W` alike. So what is known of one store carries over to
another, which need meet the contract of the trait on `W` only.
-/

namespace PdnStore.Session

open Ranger Ranger.Store

variable {S S' E K V R : Type} [LinearOrder K] [RangeKey K] [LinearOrder V] [RangeEntry E K V R]
  [Store S E K V] [Store S' E K V] [Blake3] [Inhabited K]

/-- On the entries of `W` the first store does what the second does. -/
structure Simulates (W : Set E) (P : S → S' → Prop) : Prop where
  reads : ∀ s s', P s s' → SameReads s s'
  wouldInsert : ∀ s s' e, P s s' → e ∈ W → wouldInsert s e = wouldInsert s' e
  put : ∀ s s' e, P s s' → e ∈ W → P (put s e).2 (put s' e).2

omit [LinearOrder V] [Inhabited K] [RangeKey K] [Blake3] in
/-- What is true of the entries a message may transmit is true of its values. -/
theorem values_confined {P : E → Prop} {ranges : List (Range K)} {m : Message E K R}
    (h : ∀ part ∈ m.parts, Confined P ranges part) : ∀ v ∈ m.values, P v.1 := by
  intro v hv
  obtain ⟨item, hitem, hv⟩ := List.mem_flatMap.1 hv
  exact ((h _ (mem_items.1 hitem)).1 v hv).1

/-- Two item loops at the same point. -/
structure RoundsMatch (P : S → S' → Prop) (st : Round S E K R) (st' : Round S' E K R) : Prop where
  store : P st.store st'.store
  out : st.out = st'.out
  inserted : st.inserted = st'.inserted

section Loop

variable {W : Set E} {P : S → S' → Prop} (hsim : Simulates W P)
  {validate : S → E → ContentStatus → ValidateOutcome} {validate' : S' → E → ContentStatus → ValidateOutcome}
  (hvalidate : ∀ s s' e status, e ∈ W → validate s e status = validate' s' e status)
include hsim hvalidate

omit [LinearOrder K] [RangeKey K] [Blake3] [Inhabited K] in
/-- Step: one value. -/
theorem roundsMatch_storeValue {st : Round S E K R} {st' : Round S' E K R} (h : RoundsMatch P st st')
    {v : E × ContentStatus} (hv : v.1 ∈ W) : RoundsMatch P (storeValue validate st v) (storeValue validate' st' v) := by
  have hw := hsim.wouldInsert _ _ _ h.store hv
  have hput := hsim.put _ _ _ h.store hv
  unfold storeValue
  rw [hvalidate _ st'.store _ _ hv]
  cases validate' st'.store v.1 v.2 with
  | accept =>
    unfold put at hput ⊢
    rw [hw] at hput ⊢
    cases hw' : wouldInsert st'.store v.1 with
    | false => exact h
    | true =>
      rw [hw'] at hput
      exact ⟨hput, h.out, congrArg (· ++ [v]) h.inserted⟩
  | drop => exact h
  | reject =>
    dsimp only
    rw [hw]
    split
    · exact ⟨h.store, congrArg (· ++ [_]) h.out, h.inserted⟩
    · exact h

omit [RangeKey K] [Blake3] [Inhabited K] in
/-- Step: one item. -/
theorem roundsMatch_itemStep (status : E → ContentStatus) {st : Round S E K R} {st' : Round S' E K R}
    (h : RoundsMatch P st st') {item : RangeItem E K} (hitem : ∀ v ∈ item.values, v.1 ∈ W) :
    RoundsMatch P (itemStep validate status st item).1 (itemStep validate' status st' item).1 ∧
      (itemStep validate status st item).2 = (itemStep validate' status st' item).2 := by
  have hfold : RoundsMatch P (item.values.foldl (storeValue validate) st)
      (item.values.foldl (storeValue validate') st') := by
    generalize item.values = vs at hitem
    induction vs generalizing st st' with
    | nil => exact h
    | cons v vs ih =>
      exact ih (roundsMatch_storeValue hsim hvalidate h (hitem v List.mem_cons_self))
        fun w hw => hitem w (List.mem_cons_of_mem v hw)
  unfold itemStep
  rw [itemDiff_eq (hsim.reads _ _ h.store)]
  rcases itemDiff status st'.store item with fault | diff
  · exact ⟨h, rfl⟩
  · rcases diff with _ | _ | _
    · exact ⟨hfold, rfl⟩
    · exact ⟨hfold, rfl⟩
    · exact ⟨⟨hfold.store, congrArg (· ++ [_]) hfold.out, hfold.inserted⟩, rfl⟩

omit [RangeKey K] [Inhabited K] in
/-- Run: a whole message. -/
theorem processMessage_simulates (config : SyncConfig) (status : E → ContentStatus) {s : S} {s' : S'} (h : P s s')
    {m : Message E K R} (hm : ∀ v ∈ m.values, v.1 ∈ W) :
    P (processMessage config validate status s m).store (processMessage config validate' status s' m).store ∧
    (processMessage config validate status s m).inserted =
      (processMessage config validate' status s' m).inserted ∧
    (processMessage config validate status s m).reply = (processMessage config validate' status s' m).reply := by
  have hstep : ∀ (st : Round S E K R) (st' : Round S' E K R), RoundsMatch P st st' → ∀ item ∈ items m.parts,
      RoundsMatch P (itemStep validate status st item).1 (itemStep validate' status st' item).1 ∧
        (itemStep validate status st item).2 = (itemStep validate' status st' item).2 :=
    fun st st' hst item hitem => roundsMatch_itemStep hsim hvalidate status hst fun v hv =>
      hm v (List.mem_flatMap.2 ⟨item, hitem, hv⟩)
  have hrun := tryFold_rel hstep (⟨h, rfl, rfl⟩ : RoundsMatch P (⟨s, [], []⟩ : Round S E K R) ⟨s', [], []⟩)
  unfold processMessage
  rcases hst : tryFold (itemStep validate status) ⟨s, [], []⟩ (items m.parts) with ⟨st, o⟩
  rcases hst' : tryFold (itemStep validate' status) ⟨s', [], []⟩ (items m.parts) with ⟨st', o'⟩
  rw [hst, hst'] at hrun
  obtain ⟨hmatch, rfl⟩ := hrun
  cases o with
  | some fault => exact ⟨hmatch.store, hmatch.inserted, rfl⟩
  | none =>
    have hfp : processFingerprint (R := R) config status st.store =
        processFingerprint config status st'.store :=
      funext (processFingerprint_eq (hsim.reads _ _ hmatch.store) config status)
    refine ⟨hmatch.store, hmatch.inserted, ?_⟩
    dsimp only
    rw [hfp, hmatch.out]

end Loop

end PdnStore.Session

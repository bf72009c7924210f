import PdnStore.Ranger.Exchange

/-!
# A session's view of a store: `SessionStore` (filter.rs:78-218) and the session snapshot (fs.rs:726-770)

A session reads through two wrappers. The inner one freezes the reads at the tables the session began
with, while the writes go to the live store; the outer one narrows every read to the entries the
session's filter admits. Both only concern reads, so a session over a store that meets the contract
serves the filtered snapshot (`SessionStore.lawfulReads`) and holds what the live store holds
(`SessionStore.lawfulWrites`).

| here | there |
| --- | --- |
| `Snapshotted S`     | `StoreInstance` with `session_snapshot: Some(..)`, over any store |
| `SessionStore S E`  | `SessionStore<S>` |
| `admitted`          | `admitted` (`filter.rs:99`) |
-/

namespace PdnStore.Session

open Ranger Ranger.Store

variable {S E K V R : Type} [LinearOrder K] [LinearOrder V] [RangeEntry E K V R] [Store S E K V]
  [Blake3] [Inhabited K]

/-! ## The snapshot -/

/-- A live store and the tables frozen at session start. -/
structure Snapshotted (S : Type) where
  live : S
  snapshot : S

/-- Reads come from the snapshot, writes and `prefixes_of` go to the live store. -/
instance : Store (Snapshotted S) E K V where
  getFirst s := getFirst s.snapshot
  getFingerprint s r := getFingerprint s.snapshot r
  getRange s r := getRange s.snapshot r
  prefixesOf s k := prefixesOf s.live k
  entryPut s e := { s with live := entryPut s.live e }
  removePrefixFiltered s k p :=
    let (n, live) := removePrefixFiltered s.live k p
    (n, { s with live := live })

/-! ## The filter -/

/-- `admitted` (filter.rs:98): no filter admits all. -/
def admitted (filter : Option (E → Bool)) (e : E) : Bool :=
  match filter with
  | none => true
  | some f => f e

/-- `SessionStore` (filter.rs:86). -/
structure SessionStore (S E : Type) where
  inner : S
  filter : Option (E → Bool)

namespace SessionStore

/-- `SessionStore::get_range` (filter.rs:170). -/
def getRange (s : SessionStore S E) (r : Range K) : Except Fault (List E) := do
  let l ← Store.getRange s.inner r
  .ok (l.filter (admitted s.filter))

/-- `SessionStore::get_first` (filter.rs:116). -/
def getFirst (s : SessionStore S E) : Except Fault K :=
  match s.filter with
  | none => Store.getFirst s.inner
  | some f => do
    let all ← Store.getRange s.inner ⟨default, default⟩
    .ok (((all.find? f).map key).getD default)

/-- `SessionStore::get_fingerprint` (filter.rs:150). -/
def getFingerprint (s : SessionStore S E) (r : Range K) : Except Fault Fingerprint :=
  match s.filter with
  | none => Store.getFingerprint s.inner r
  | some _ => do
    let l ← s.getRange r
    .ok (fingerprint l)

/-- `impl Store for SessionStore` (filter.rs:106). -/
instance : Store (SessionStore S E) E K V where
  getFirst := getFirst
  getFingerprint := getFingerprint
  getRange := getRange
  prefixesOf s k := Store.prefixesOf s.inner k
  entryPut s e := { s with inner := Store.entryPut s.inner e }
  removePrefixFiltered s k p :=
    let (n, inner) := Store.removePrefixFiltered s.inner k p
    (n, { s with inner := inner })

end SessionStore

/-! ## What a session serves and holds -/

section Lawful

variable [RangeKey K] {dom : Set K} {view live : S → List E}

/-- The session of a store `s` under a filter, as it begins. -/
def session (s : S) (filter : Option (E → Bool)) : SessionStore (Snapshotted S) E := ⟨⟨s, s⟩, filter⟩

omit [LinearOrder V] [RangeKey K] in
theorem Snapshotted.lawfulReads (hr : LawfulReads S dom view) :
    LawfulReads (Snapshotted S) dom fun s => view s.snapshot where
  sorted s := hr.sorted s.snapshot
  mem_dom s := hr.mem_dom s.snapshot
  getFirst s := hr.getFirst s.snapshot
  getRange s := hr.getRange s.snapshot
  getFingerprint s := hr.getFingerprint s.snapshot

omit [LinearOrder V] [Blake3] [Inhabited K] in
theorem Snapshotted.lawfulWrites (hw : LawfulWrites S dom live) :
    LawfulWrites (Snapshotted S) dom fun s => live s.live where
  sorted s := hw.sorted s.live
  mem_dom s := hw.mem_dom s.live
  prefixesOf s := hw.prefixesOf s.live
  remove s := hw.remove s.live
  removed s := hw.removed s.live
  entryPut s := hw.entryPut s.live

omit [LinearOrder V] [Blake3] [Inhabited K] [RangeKey K] in
theorem inRange_filter_comm (r : Range K) (l : List E) (p : E → Bool) :
    (inRange r l).filter p = inRange r (l.filter p) := by
  simp only [inRange, List.filter_filter, Bool.and_comm]

omit [LinearOrder V] [Blake3] [Inhabited K] [RangeKey K] in
theorem inRange_default (l : List E) (k : K) : inRange ⟨k, k⟩ l = l :=
  List.filter_eq_self.2 fun _ _ => by simp [Range.contains]

omit [LinearOrder V] [RangeKey K] in
theorem SessionStore.lawfulReads (hr : LawfulReads S dom view) :
    LawfulReads (SessionStore S E) dom fun s => (view s.inner).filter (admitted s.filter) where
  sorted s := (hr.sorted s.inner).filter _
  mem_dom s e he := hr.mem_dom s.inner e (List.mem_filter.1 he).1
  getFirst s := by
    obtain ⟨inner, filter⟩ := s
    cases filter with
    | none =>
      have hall : (view inner).filter (admitted none) = view inner := List.filter_eq_self.2 fun _ _ => rfl
      simpa [Store.getFirst, SessionStore.getFirst, hall] using hr.getFirst inner
    | some f =>
      -- the first admitted key of the whole range is the first of the admitted entries
      have hrange := hr.getRange inner ⟨default, default⟩ (.inl rfl)
      rw [inRange_default] at hrange
      have hhead : (view inner).find? f = ((view inner).filter (admitted (some f))).head? :=
        (List.head?_filter ..).symm
      simp [Store.getFirst, SessionStore.getFirst, hrange, hhead, bind, Except.bind]
  getRange s r hin := by
    show s.getRange r = _
    simp only [SessionStore.getRange, hr.getRange s.inner r hin, bind, Except.bind, inRange_filter_comm]
  getFingerprint s r hin := by
    obtain ⟨inner, filter⟩ := s
    show SessionStore.getFingerprint _ r = _
    cases filter with
    | none =>
      have hall : (view inner).filter (admitted none) = view inner := List.filter_eq_self.2 fun _ _ => rfl
      simp only [SessionStore.getFingerprint, hall]
      exact hr.getFingerprint inner r hin
    | some f =>
      simp only [SessionStore.getFingerprint, SessionStore.getRange, hr.getRange inner r hin, bind,
        Except.bind,
        inRange_filter_comm]

omit [LinearOrder V] in
theorem SessionStore.lawfulWrites (hw : LawfulWrites S dom live) :
    LawfulWrites (SessionStore S E) dom fun s => live s.inner where
  sorted s := hw.sorted s.inner
  mem_dom s := hw.mem_dom s.inner
  prefixesOf s := hw.prefixesOf s.inner
  remove s := hw.remove s.inner
  removed s := hw.removed s.inner
  entryPut s := hw.entryPut s.inner

omit [LinearOrder K] [RangeKey K] in
theorem wouldInsert_session (s : SessionStore (Snapshotted S) E) (e : E) :
    wouldInsert s e = wouldInsert s.inner.live e := rfl

omit [LinearOrder K] [RangeKey K] in
/-- A session's `put` is the live store's; the snapshot and the filter stay. -/
theorem put_session (s : SessionStore (Snapshotted S) E) (e : E) :
    put s e = ((put s.inner.live e).1, ⟨⟨(put s.inner.live e).2, s.inner.snapshot⟩, s.filter⟩) := by
  unfold put
  rw [wouldInsert_session]
  split <;> rfl

/-- A session serves its filtered snapshot throughout. -/
theorem Peer.ofSession (hr : LawfulReads S dom live) (hw : LawfulWrites S dom live) :
    Peer (SessionStore (Snapshotted S) E) dom
      (fun s => (live s.inner.snapshot).filter (admitted s.filter)) (fun s => live s.inner.live) False where
  reads := SessionStore.lawfulReads (Snapshotted.lawfulReads hr)
  writes := SessionStore.lawfulWrites (Snapshotted.lawfulWrites hw)
  view_put s e _ e' he' := by
    rw [put_session] at he'
    exact .inl he'
  view_grow s e _ := by
    rw [put_session]

end Lawful

end PdnStore.Session

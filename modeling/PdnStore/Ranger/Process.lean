import PdnStore.Ranger.Basic
import PdnStore.Lib.TryFold

/-!
# `Store::put`, `Store::would_insert`, `Message::init`, `Store::process_message` (ranger.rs:238-656)

The default methods of the trait, over any `Store`. `process_message` first answers and stores the
items of a message, one after the other on the store as it stands, and then reads the fingerprints
on what results; the writes of the items stay when a later read is refused, so the outcome carries
the store next to the reply.

Panics are outcomes: the two remainders by a count that could be zero, `expect("missing entry")`
and the closing `debug_assert!`. The iterator of `get_range` is a list, re-read as often as needed:
reads do not change the store.
-/

namespace PdnStore.Ranger

open Store

variable {S E K V R : Type} [LinearOrder K] [LinearOrder V] [RangeEntry E K V R] [Store S E K V]

/-! ## Insertion -/

/-- `Store::would_insert` (ranger.rs:648). -/
def wouldInsert (s : S) (e : E) : Bool :=
  !(prefixesOf s (key e)).any fun p => value e ≤ value p

/-- `Store::put` (ranger.rs:626). -/
def put (s : S) (e : E) : InsertOutcome × S :=
  if !wouldInsert s e then (.notInserted, s)
  else
    let (removed, s) := removePrefixFiltered s (key e) fun v => value e ≥ v
    (.inserted removed, entryPut s e)

/-! ## Items -/

/-- The state of the item loop: the store, the reply so far, and the `on_insert_cb` calls so far. -/
structure Round (S E K R : Type) where
  store : S
  out : List (MessagePart E K R)
  inserted : List (E × ContentStatus)

/-- One incoming value (ranger.rs:441-463). -/
def storeValue (validate : S → E → ContentStatus → ValidateOutcome) (st : Round S E K R)
    (v : E × ContentStatus) : Round S E K R :=
  match validate st.store v.1 v.2 with
  | .accept =>
    match put st.store v.1 with
    | (.inserted _, s) => { st with store := s, inserted := st.inserted ++ [v] }
    | (.notInserted, s) => { st with store := s }
  | .drop => st
  | .reject =>
    if wouldInsert st.store v.1 then { st with out := st.out ++ [.rejected (rejectId v.1)] } else st

omit [LinearOrder K] in
/-- A value changes the store by `put`, and only when it is accepted. -/
theorem storeValue_store (validate : S → E → ContentStatus → ValidateOutcome) (st : Round S E K R)
    (v : E × ContentStatus) : (storeValue validate st v).store =
      if validate st.store v.1 v.2 = .accept then (put st.store v.1).2 else st.store := by
  unfold storeValue
  cases validate st.store v.1 v.2 with
  | accept =>
    dsimp only
    split <;> rename_i heq <;> simp [heq]
  | drop => simp
  | reject =>
    dsimp only
    split <;> simp

/-- What we hold in the item's range and the peer does not supersede at the same key
(ranger.rs:409-436); nothing is asked for when the peer already has our items. -/
def itemDiff (status : E → ContentStatus) (s : S) (item : RangeItem E K) :
    Except Fault (Option (List (E × ContentStatus))) :=
  if item.haveLocal then .ok none
  else do
    let ours ← getRange s item.range
    let items := ours.filter fun our =>
      !item.values.any fun their => key our = key their.1 ∧ value their.1 ≥ value our
    .ok (some (items.map fun e => (e, status e)))

/-- One item part: difference first, then the incoming values, then the answer (ranger.rs:403-474). -/
def itemStep (validate : S → E → ContentStatus → ValidateOutcome) (status : E → ContentStatus)
    (st : Round S E K R) (item : RangeItem E K) : Round S E K R × Option Fault :=
  match itemDiff status st.store item with
  | .error fault => (st, some fault)
  | .ok diff =>
    let st := item.values.foldl (storeValue validate) st
    match diff with
    | some (d :: ds) => ({ st with out := st.out ++ [.rangeItem ⟨item.range, d :: ds, true⟩] }, none)
    | _ => (st, none)

/-! ## Fingerprints -/

section

variable [Blake3]

/-- Index of the first local entry at or above the start of the range (ranger.rs:508-515). -/
def startIndex (x : K) (l : List E) : Nat := (l.takeWhile fun e => key e < x).length

/-- The `pivot` closure (ranger.rs:519-533), on the local entries `l` of the range. -/
def pivot (config : SyncConfig) (x : K) (l : List E) (i : Nat) : Except Fault K :=
  if config.splitFactor = 0 ∨ l.length = 0 then
    .error (.panic "attempt to calculate the remainder with a divisor of zero")
  else
    let i := i % config.splitFactor
    let offset := l.length * (i + 1) / config.splitFactor
    match l[(startIndex x l + offset) % l.length]? with
    | some e => .ok (key e)
    | none => .error (.panic "missing entry")

/-- The `i`-th pivot and the one after it. -/
def pivotRange (config : SyncConfig) (x : K) (l : List E) (i : Nat) : Except Fault (Range K) := do
  .ok ⟨← pivot config x l i, ← pivot config x l (i + 1)⟩

/-- The sub-ranges of a range with local entries `l` (ranger.rs:534-569). -/
def splitRanges (config : SyncConfig) (range : Range K) (l : List E) : Except Fault (List (Range K)) :=
  if range.isAll then do
    let ranges ← (List.range config.splitFactor).mapM (pivotRange config range.x l)
    .ok (ranges.filter fun r => r.x ≠ r.y)
  else do
    let first : Range K := ⟨range.x, ← pivot config range.x l 0⟩
    let middle ← (List.range (config.splitFactor - 2)).mapM (pivotRange config range.x l)
    let last : Range K := ⟨← pivot config range.x l (config.splitFactor - 2), range.y⟩
    .ok (first :: middle.filter (fun r => r.x ≠ r.y) ++ [last])

/-- One sub-range: its fingerprint, or its items when they are few; and whether it holds any
(ranger.rs:571-600). -/
def chunkPart (config : SyncConfig) (status : E → ContentStatus) (s : S) (range : Range K) :
    Except Fault (MessagePart E K R × Bool) := do
  let chunk ← getRange s range
  let fp ← getFingerprint s range
  .ok (if config.maxSetSize < chunk.length then .rangeFingerprint ⟨range, fp⟩
    else .rangeItem ⟨range, chunk.map fun e => (e, status e), false⟩, !chunk.isEmpty)

/-- One fingerprint part (ranger.rs:476-603): match, recursion anchor, or recurse. -/
def processFingerprint (config : SyncConfig) (status : E → ContentStatus) (s : S)
    (rf : RangeFingerprint K) : Except Fault (List (MessagePart E K R)) := do
  let localFingerprint ← getFingerprint s rf.range
  if localFingerprint = rf.fingerprint then .ok []
  else
    let values ← getRange s rf.range
    if values.length ≤ 1 ∨ rf.fingerprint = Fingerprint.empty then
      .ok [.rangeItem ⟨rf.range, values.map fun e => (e, status e), false⟩]
    else
      let ranges ← splitRanges config rf.range values
      let chunks ← ranges.mapM (chunkPart config status s)
      if (chunks.filter (·.2)).length ≤ 1 then .error (.panic "assertion failed: non_empty > 1")
      else .ok (chunks.map (·.1))

/-! ## Messages -/

/-- `Message::init` (ranger.rs:240). -/
def initialMessage (s : S) : Except Fault (Message E K R) := do
  let x ← getFirst s
  let fp ← getFingerprint s ⟨x, x⟩
  .ok ⟨[.rangeFingerprint ⟨⟨x, x⟩, fp⟩]⟩

/-- The outcome of a `process_message` call. -/
structure Processed (S E K R : Type) where
  store : S
  inserted : List (E × ContentStatus)
  reply : Except Fault (Option (Message E K R))

/-- `Store::process_message` (ranger.rs:368). -/
def processMessage (config : SyncConfig) (validate : S → E → ContentStatus → ValidateOutcome)
    (status : E → ContentStatus) (s : S) (m : Message E K R) : Processed S E K R :=
  match tryFold (itemStep validate status) ⟨s, [], []⟩ (items m.parts) with
  | (st, some fault) => ⟨st.store, st.inserted, .error fault⟩
  | (st, none) =>
    ⟨st.store, st.inserted, do
      let parts ← (fingerprints m.parts).mapM (processFingerprint config status st.store)
      let out := st.out ++ parts.flatten
      .ok (if out.isEmpty then none else some ⟨out⟩)⟩

/-! ## What the store can become -/

section Preserves

variable {P : S → Prop} (validate : S → E → ContentStatus → ValidateOutcome)

/-- What every accepted `put` of a value of the message keeps, the message keeps, answered or not. -/
theorem processMessage_preserves (config : SyncConfig) (status : E → ContentStatus) {s : S} (hs : P s)
    (m : Message E K R)
    (hput : ∀ s, ∀ v ∈ m.values, validate s v.1 v.2 = .accept → P s → P (put s v.1).2) :
    P (processMessage config validate status s m).store := by
  have hfold : ∀ (vs : List (E × ContentStatus)) (st : Round S E K R),
    (∀ v ∈ vs, v ∈ m.values) → P st.store →
      P (vs.foldl (storeValue validate) st).store := by
    intro vs
    induction vs with
    | nil => exact fun _ _ h => h
    | cons v vs ih =>
      intro st hvs h
      refine ih _ (fun w hw => hvs w (List.mem_cons_of_mem v hw)) ?_
      rw [storeValue_store]
      split
      · exact hput _ v (hvs v List.mem_cons_self) ‹_› h
      · exact h
  have hitem : ∀ (st : Round S E K R), ∀ item ∈ items m.parts, P st.store →
    P (itemStep validate status st item).1.store := by
    intro st item hitem h
    have hvs : ∀ v ∈ item.values, v ∈ m.values := fun v hv => List.mem_flatMap.2 ⟨item, hitem, hv⟩
    unfold itemStep
    cases itemDiff status st.store item with
    | error fault => exact h
    | ok diff =>
      match diff with
      | none => exact hfold _ _ hvs h
      | some [] => exact hfold _ _ hvs h
      | some (_ :: _) => exact hfold item.values st hvs h
  have hloop : P (tryFold (itemStep validate status) (⟨s, [], []⟩ : Round S E K R)
    (items m.parts)).1.store :=
    tryFold_preserves (P := fun st : Round S E K R => P st.store) hitem hs
  unfold processMessage
  split <;> rename_i heq <;> rw [heq] at hloop <;> exact hloop

end Preserves

end

end PdnStore.Ranger

import PdnStore.Session.Filter
import PdnStore.Ranger.LiveSync

/-!
# Reconciliation under session snapshots (fs.rs:726-746, codec.rs:1374-1502)

Each side serves its filtered snapshot and puts what it receives into its live store. The views never
move, so what a side is told is exactly the peer's view at session start, and its live store ends as
the prefix-reduced union of what it held and that view.
-/

namespace PdnStore.Session

open Ranger Ranger.Store MaxSet

section

variable {A B E K V R : Type} [LinearOrder K] [RangeKey K] [LinearOrder V] [RangeEntry E K V R]
  [Store A E K V] [Store B E K V] [Blake3] [Inhabited K]

/-- The entries of a list a filter admits. -/
def admits (filter : Option (E → Bool)) (l : List E) : List E := l.filter (admitted filter)

/-- A session as it begins, whatever the peer serves. -/
theorem holding_session {dom : Set K} {liveA : A → List E} (hr : LawfulReads A dom liveA)
    (hw : LawfulWrites A dom liveA) {a : A} (ha : ReachableByPut dom liveA a) (fA : Option (E → Bool))
    (o' : Origin E K V) :
    Holding ⟨stamps (liveA a), stamps (admits fA (liveA a)), {e | e ∈ admits fA (liveA a)}⟩ o'
      (admits fA (liveA a)) (liveA a) where
  sorted := (hr.sorted a).filter _
  view_serves _ he := he
  view_has _ he := subset_lowerClosure (stamp_mem_stamps (List.mem_filter.1 he).1)
  antichain := antichain_of_reachable hw ha
  live_sub := Set.subset_union_left
  base_has _ hx := subset_lowerClosure hx
  start_has _ hx := subset_lowerClosure hx

/-- What a session serves. -/
def served {S : Type} (live : S → List E) (s : SessionStore (Snapshotted S) E) : List E :=
  admits s.filter (live s.inner.snapshot)

omit [LinearOrder K] [RangeKey K] in
theorem served_put {S : Type} [Store S E K V] (live : S → List E) (s : SessionStore (Snapshotted S) E) (e : E) :
    served live (put s e).2 = served live s := by
  rw [put_session]
  rfl

omit [RangeKey K] in
/-- The views are frozen, so it is enough that fingerprints tell them apart when the session starts. -/
theorem tells_session {liveA : A → List E} {liveB : B → List E} {statusA statusB : E → ContentStatus} {a : A} {b : B}
    {fA fB : Option (E → Bool)}
    {x : Exchange (SessionStore (Snapshotted A) E) (SessionStore (Snapshotted B) E) E K R}
    (hstart : Exchange.start (session a fA) (session b fB) = .ok x)
    (ht : RangesTell (admits fA (liveA a)) (admits fB (liveB b))) :
    x.Tells (served liveA) (served liveB) statusA statusB := by
  obtain ⟨m, -, hx⟩ := bind_eq_ok.1 hstart
  cases hx
  exact Exchange.tells_of_fixed statusA statusB (served_put liveA) (served_put liveB) ht

/-- **Convergence under session snapshots.** -/
theorem session_exchange_converges {dom : Set K} {liveA : A → List E} {liveB : B → List E}
    (hrA : LawfulReads A dom liveA) (hwA : LawfulWrites A dom liveA)
    (hrB : LawfulReads B dom liveB) (hwB : LawfulWrites B dom liveB)
    (statusA statusB : E → ContentStatus) {a : A} {b : B}
    (ha : ReachableByPut dom liveA a) (hb : ReachableByPut dom liveB b) (fA fB : Option (E → Bool))
    (ht : RangesTell (admits fA (liveA a)) (admits fB (liveB b))) :
    ∃ (n : Nat) (x₀ x : Exchange (SessionStore (Snapshotted A) E) (SessionStore (Snapshotted B) E) E K R),
      Exchange.start (session a fA) (session b fB) = .ok x₀ ∧ x₀.run statusA statusB n = .ok x ∧
      x.inFlight = none ∧
      stamps (liveA x.alice.inner.live) = maximals (stamps (liveA a) ∪ stamps (admits fB (liveB b))) ∧
      stamps (liveB x.bob.inner.live) = maximals (stamps (liveB b) ∪ stamps (admits fA (liveA a))) ∧
      (fA = none → fB = none → stamps (liveA x.alice.inner.live) = stamps (liveB x.bob.inner.live)) := by
  let oA : Origin E K V := ⟨stamps (liveA a), stamps (admits fA (liveA a)), {e | e ∈ admits fA (liveA a)}⟩
  let oB : Origin E K V := ⟨stamps (liveB b), stamps (admits fB (liveB b)), {e | e ∈ admits fB (liveB b)}⟩
  have hmA : oA.Meets dom False oB := ⟨fun e he => hrB.mem_dom b e (List.mem_filter.1 he).1,
    fun e he => .inr (stamp_mem_stamps he), False.elim⟩
  have hmB : oB.Meets dom False oA := ⟨fun e he => hrA.mem_dom a e (List.mem_filter.1 he).1,
    fun e he => .inr (stamp_mem_stamps he), False.elim⟩
  obtain ⟨n, x₀, x, hstart, hrun, hnone, hs⟩ := exchange_settles (R := R) (a := session a fA)
    (b := session b fB)
    statusA statusB (Peer.ofSession hrA hwA) (Peer.ofSession hrB hwB) hmA hmB
    (holding_session hrA hwA ha fA oB) (holding_session hrB hwB hb fB oA) fun _ hstart => tells_session hstart ht
  have hliveA : stamps (liveA x.alice.inner.live) =
      maximals (stamps (liveA a) ∪ stamps (admits fB (liveB b))) :=
    hs.symm.stamps_live
  have hliveB : stamps (liveB x.bob.inner.live) =
      maximals (stamps (liveB b) ∪ stamps (admits fA (liveA a))) :=
    hs.stamps_live
  refine ⟨n, x₀, x, hstart, hrun, hnone, hliveA, hliveB, ?_⟩
  rintro rfl rfl
  have hall : ∀ l : List E, admits none l = l := fun l => List.filter_eq_self.2 fun _ _ => rfl
  rw [hliveA, hliveB, hall, hall, Set.union_comm]

end

/-! ## An instance -/

section

local instance sessionDigests : Blake3 := sampleDigests

/-- Bob keeps `[7]` back: alice ends without it. -/
theorem session_exchange_converges_simpleStore :
    ∃ (n : Nat) (x₀ x : Exchange (SessionStore (Snapshotted (SimpleStore Bytes Nat)) (Bytes × Nat))
        (SessionStore (Snapshotted (SimpleStore Bytes Nat)) (Bytes × Nat)) (Bytes × Nat) Bytes Unit),
      Exchange.start (session (puts default [([1], 4)]) none)
        (session (puts default [([1, 2], 3), ([7], 1)]) (some fun e => e.1 ≠ [7])) = .ok x₀ ∧
      x₀.run (fun _ => .complete) (fun _ => .missing) n = .ok x ∧ x.inFlight = none ∧
      stamps x.alice.inner.live.entries = maximals
        (stamps [(([1] : Bytes), 4)] ∪ stamps [(([1, 2] : Bytes), 3)]) := by
  have hreach (l : List (Bytes × Nat)) :
      ReachableByPut Set.univ SimpleStore.entries (puts (default : SimpleStore Bytes Nat) l) :=
    reachable_puts (.empty rfl) l fun _ _ => Set.mem_univ _
  have hA : (puts (default : SimpleStore Bytes Nat) [([1], 4)]).entries = [([1], 4)] := by decide
  have hB : admits (some fun e => e.1 ≠ [7])
    (puts (default : SimpleStore Bytes Nat) [([1, 2], 3), ([7], 1)]).entries =
      [([1, 2], 3)] := by decide
  have ht : RangesTell (admits none (puts (default : SimpleStore Bytes Nat) [([1], 4)]).entries)
      (admits (some fun e => e.1 ≠ [7]) (puts (default : SimpleStore Bytes Nat) [([1, 2], 3), ([7], 1)]).entries) :=
    sampleDigests_tell (by decide) (by decide)
  obtain ⟨n, x₀, x, hstart, hrun, hnone, hlive, -⟩ := session_exchange_converges SimpleStore.lawfulReads
    SimpleStore.lawfulWrites SimpleStore.lawfulReads SimpleStore.lawfulWrites (fun _ => .complete)
    (fun _ => .missing) (hreach [([1], 4)]) (hreach [([1, 2], 3), ([7], 1)]) none
      (some fun e => e.1 ≠ [7]) ht
  rw [hA, hB] at hlive
  exact ⟨n, x₀, x, hstart, hrun, hnone, hlive⟩

end

end PdnStore.Session

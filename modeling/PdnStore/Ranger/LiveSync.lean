import PdnStore.Ranger.Converge
import PdnStore.Ranger.Gate
import PdnStore.Ranger.SimpleStore

/-!
# Reconciliation with live reads (ranger.rs:1371-1523, `simple_store_sync`)

Both stores read and write the same data, so a value taken in from one part of a message can delete
entries under the ranges its later parts fingerprint. What is served only ever shrinks there, and
everything deleted is superseded by something both sides hold.
-/

namespace PdnStore.Ranger

open Store MaxSet

section

variable {A B E K V R : Type} [LinearOrder K] [RangeKey K] [LinearOrder V] [RangeEntry E K V R]
  [Store A E K V] [Store B E K V] [Blake3] [Inhabited K]

/-- **Convergence with live reads.** The exchange ends, both stores hold the prefix-reduced union,
and neither side has sent two values with the same key. -/
theorem live_exchange_converges {dom : Set K} {liveA : A → List E} {liveB : B → List E}
    (hrA : LawfulReads A dom liveA) (hwA : LawfulWrites A dom liveA)
    (hrB : LawfulReads B dom liveB) (hwB : LawfulWrites B dom liveB)
    (statusA statusB : E → ContentStatus) {a : A} {b : B}
    (ha : ReachableByPut dom liveA a) (hb : ReachableByPut dom liveB b)
    (ht : ∀ x : Exchange A B E K R, Exchange.start a b = .ok x → x.Tells liveA liveB statusA statusB) :
    ∃ (n : Nat) (x₀ x : Exchange A B E K R),
      Exchange.start a b = .ok x₀ ∧ x₀.run statusA statusB n = .ok x ∧ x.inFlight = none ∧
      stamps (liveA x.alice) = maximals (stamps (liveA a) ∪ stamps (liveB b)) ∧
      stamps (liveB x.bob) = maximals (stamps (liveA a) ∪ stamps (liveB b)) ∧
      (sentKeys x.aliceToBob).Nodup ∧ (sentKeys x.bobToAlice).Nodup := by
  let both : Set E := {e | e ∈ liveA a ∨ e ∈ liveB b}
  let oA : Origin E K V := ⟨stamps (liveA a), stamps (liveA a), both⟩
  let oB : Origin E K V := ⟨stamps (liveB b), stamps (liveB b), both⟩
  have hdom : ∀ e ∈ both, key e ∈ dom := fun e he => he.elim (hrA.mem_dom a e) (hrB.mem_dom b e)
  have hmA : oA.Meets dom True oB :=
    ⟨hdom, fun e he => he.imp stamp_mem_stamps stamp_mem_stamps, fun _ => Set.Subset.rfl⟩
  have hmB : oB.Meets dom True oA := ⟨hdom, fun e he => he.symm.imp stamp_mem_stamps stamp_mem_stamps,
    fun _ => Set.Subset.rfl⟩
  have hA : Holding oA oB (liveA a) (liveA a) := ⟨hrA.sorted a, fun e he => .inl he,
    fun e he => subset_lowerClosure (stamp_mem_stamps he), antichain_of_reachable hwA ha,
    Set.subset_union_left, fun x hx => subset_lowerClosure hx, fun x hx => subset_lowerClosure hx⟩
  have hB : Holding oB oA (liveB b) (liveB b) := ⟨hrB.sorted b, fun e he => .inr he,
    fun e he => subset_lowerClosure (stamp_mem_stamps he), antichain_of_reachable hwB hb,
    Set.subset_union_left, fun x hx => subset_lowerClosure hx, fun x hx => subset_lowerClosure hx⟩
  obtain ⟨n, x₀, x, hstart, hrun, hnone, hs⟩ := exchange_settles (R := R) statusA statusB
    (Peer.ofLive hrA hwA) (Peer.ofLive hrB hwB) hmA hmB hA hB ht
  refine ⟨n, x₀, x, hstart, hrun, hnone, hs.symm.stamps_live, ?_, hs.left_sent, hs.right_sent⟩
  rw [Set.union_comm]
  exact hs.stamps_live

end

/-! ## An instance -/

section

/-- `blake3` on the inputs of the exchange below: nothing, `[1]4`, `[1, 2]3` and `[7]1`. -/
local instance sampleDigests : Blake3 := ⟨fun b =>
  if b = [91, 49, 93, 52] then 0xca45ea0c580acb07c3acda486d63d08d6a9cb6c2f9025520772aa39c322e97f8
  else if b = [91, 49, 44, 32, 50, 93, 51] then
    0x79ee2f12e23972ca2dc487cfca0a63d5626b1f08838a3fd69b6f917a1534ed4b
  else if b = [91, 55, 93, 49] then 0x1b52bceb6f4df2e31142aaefa55ed2b5db8fcf3b5fb3d18f7a15c93f51a39216
  else 0xaf1349b9f5f9a1a6a0404dea36dcc9499bcb25c9adc112b7cc9a93cae41f3262⟩

/-- The entries of the exchange. -/
def sampleEntries : List (Bytes × Nat) := [([1], 4), ([1, 2], 3), ([7], 1)]

theorem sampleDigests_tell {l l' : List (Bytes × Nat)} (hl : l.Sublist sampleEntries)
    (hl' : l'.Sublist sampleEntries) : RangesTell l l' :=
  rangesTell_of_sublists (by decide +kernel) hl hl'

/-- The exchange after a number of messages. -/
def sampleRun (n : Nat) :
    Except Fault (Exchange (SimpleStore Bytes Nat) (SimpleStore Bytes Nat) (Bytes × Nat) Bytes Unit) := do
  let x ← Exchange.start (puts default [([1], 4)]) (puts default [([1, 2], 3), ([7], 1)])
  x.run (fun _ => .complete) (fun _ => .missing) n

/-- It is over after three messages. -/
theorem sampleRun_over (n : Nat) : sampleRun (3 + n) = sampleRun 3 := by
  have hover : (sampleRun 3).toOption.map Exchange.inFlight = some none := by decide +kernel
  cases hrun : sampleRun 3 with
  | error fault =>
    rw [hrun] at hover
    cases hover
  | ok x =>
    rw [hrun] at hover
    obtain ⟨x₀, hstart, hrun⟩ := bind_eq_ok.1 hrun
    refine bind_eq_ok.2 ⟨x₀, hstart, ?_⟩
    rw [Exchange.run_eq_runWith] at hrun ⊢
    exact Exchange.runWith_over hrun (Option.some.inj hover) n

/-- All along, both hold some of those entries. -/
theorem sampleRun_entries {n : Nat}
    {x : Exchange (SimpleStore Bytes Nat) (SimpleStore Bytes Nat) (Bytes × Nat) Bytes Unit}
    (hrun : sampleRun n = .ok x) : x.alice.entries.Sublist sampleEntries ∧ x.bob.entries.Sublist sampleEntries := by
  have hall : ∀ k ≤ 3, (sampleRun k).toOption.all fun x =>
      x.alice.entries ∈ sampleEntries.sublists ∧ x.bob.entries ∈ sampleEntries.sublists := by decide +kernel
  have hmem : ∀ k ≤ 3, sampleRun k = .ok x →
      x.alice.entries.Sublist sampleEntries ∧ x.bob.entries.Sublist sampleEntries := by
    intro k hk hrun
    have h := hall k hk
    rw [hrun] at h
    obtain ⟨hA, hB⟩ := of_decide_eq_true h
    exact ⟨List.mem_sublists.1 hA, List.mem_sublists.1 hB⟩
  by_cases hn : n ≤ 3
  · exact hmem n hn hrun
  · obtain ⟨k, rfl⟩ := Nat.exists_eq_add_of_le (Nat.le_of_not_le hn)
    exact hmem 3 le_rfl ((sampleRun_over k).symm.trans hrun)

/-- Alice's entry deletes one of bob's two on arrival. -/
theorem live_exchange_converges_simpleStore :
    ∃ (n : Nat) (x₀ x : Exchange (SimpleStore Bytes Nat) (SimpleStore Bytes Nat) (Bytes × Nat) Bytes Unit),
      Exchange.start (puts default [([1], 4)]) (puts default [([1, 2], 3), ([7], 1)]) = .ok x₀ ∧
      x₀.run (fun _ => .complete) (fun _ => .missing) n = .ok x ∧ x.inFlight = none ∧
      stamps x.alice.entries = stamps x.bob.entries ∧
      (sentKeys x.aliceToBob).Nodup ∧ (sentKeys x.bobToAlice).Nodup := by
  have hreach (l : List (Bytes × Nat)) :
      ReachableByPut Set.univ SimpleStore.entries (puts (default : SimpleStore Bytes Nat) l) :=
    reachable_puts (.empty rfl) l fun _ _ => Set.mem_univ _
  obtain ⟨n, x₀, x, hstart, hrun, hnone, hA, hB, hsent⟩ := live_exchange_converges SimpleStore.lawfulReads
    SimpleStore.lawfulWrites SimpleStore.lawfulReads SimpleStore.lawfulWrites (fun _ => .complete)
    (fun _ => .missing) (hreach [([1], 4)]) (hreach [([1, 2], 3), ([7], 1)]) fun x hstart n x' hrun => by
      obtain ⟨hA, hB⟩ := sampleRun_entries (bind_eq_ok.2 ⟨x, hstart, hrun⟩)
      exact sampleDigests_tell hA hB
  exact ⟨n, x₀, x, hstart, hrun, hnone, hA.trans hB.symm, hsent⟩

end

end PdnStore.Ranger

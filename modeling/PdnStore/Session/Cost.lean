import PdnStore.Session.Gated
import PdnStore.Ranger.Cost

/-!
# A session costs what differs (sync.rs:594-717, ranger.rs:403-603)

Every message but the first is a reply, and says at most two things about ranges, and transmits at most two
entries, for each entry that only one of the two views has. Refusals do not change that: a gate speaks up at most
once for each entry it is sent. Two sides that serve the same stop after the opening fingerprint. That takes
fingerprints of ranges that tell the two views apart, and of which only those of empty ranges are the one of
nothing.
-/

namespace PdnStore.Session

open Ranger Ranger.Store MaxSet

section

variable {A B E K V R : Type} [LinearOrder V] [RangeEntry E K V R] [Store A E K V] [Store B E K V]

/-! ## The record of an exchange -/

/-- What a message says about ranges, what it refuses and what it transmits, each within `c`. -/
structure Within (c : Nat) (m : Message E K R) : Prop where
  parts : (rangeParts m.parts).length ≤ c
  refusals : (rejections m.parts).length ≤ c
  values : m.values.length ≤ c

/-- How many messages were sent. -/
def messages (y : Exchange A B E K R) : Nat := y.aliceToBob.length + y.bobToAlice.length

theorem length_values (m : Message E K R) : m.values.length = (partValues m.parts).length := by
  simp [Message.values, partValues, List.length_flatMap]

theorem partValues_congr {parts parts' : List (MessagePart E K R)} (h : rangeParts parts' = rangeParts parts) :
    partValues parts' = partValues parts := by
  have hitems : items parts' = items parts := by
    rw [← items_rangeParts, h, items_rangeParts]
  rw [partValues, hitems, partValues]

section Record

variable [LinearOrder K] [Blake3]

variable {validateA : A → E → ContentStatus → ValidateOutcome} {validateB : B → E → ContentStatus → ValidateOutcome}
  {statusA statusB : E → ContentStatus} {y y' : Exchange A B E K R}

/-- A step records the message it sends, on the one side or the other. -/
theorem record_step (h : y.stepWith validateA validateB statusA statusB = .ok y') :
    (y'.aliceToBob = y.aliceToBob ∧ y'.bobToAlice = y.bobToAlice ++ y'.inFlight.toList) ∨
    (y'.aliceToBob = y.aliceToBob ++ y'.inFlight.toList ∧ y'.bobToAlice = y.bobToAlice) := by
  obtain ⟨a, b, turn, inFlight, toBob, toAlice⟩ := y
  cases inFlight with
  | none =>
    cases h
    exact .inl ⟨rfl, (List.append_nil _).symm⟩
  | some m =>
    cases turn with
    | bob =>
      obtain ⟨reply, -, hy⟩ := bind_eq_ok.1 h
      cases hy
      exact .inl ⟨rfl, rfl⟩
    | alice =>
      obtain ⟨reply, -, hy⟩ := bind_eq_ok.1 h
      cases hy
      exact .inr ⟨rfl, rfl⟩

/-- What is sent refuses no more entries than were transmitted. -/
theorem refusals_step (h : y.stepWith validateA validateB statusA statusB = .ok y') :
    (rejections (replyParts? y'.inFlight)).length ≤ (partValues (replyParts? y.inFlight)).length := by
  obtain ⟨a, b, turn, inFlight, toBob, toAlice⟩ := y
  cases inFlight with
  | none =>
    cases h
    exact Nat.zero_le _
  | some m =>
    cases turn with
    | bob =>
      obtain ⟨reply, hr, hy⟩ := bind_eq_ok.1 h
      cases hy
      exact length_rejections_le hr
    | alice =>
      obtain ⟨reply, hr, hy⟩ := bind_eq_ok.1 h
      cases hy
      exact length_rejections_le hr

/-- Each step sends one message at most, and none once nothing is in flight. -/
theorem messages_step (h : y.stepWith validateA validateB statusA statusB = .ok y') :
    messages y' = messages y + y'.inFlight.toList.length := by
  unfold messages
  rcases record_step h with ⟨hA, hB⟩ | ⟨hA, hB⟩
  · rw [hA, hB, List.length_append, Nat.add_assoc]
  · rw [hA, hB, List.length_append]
    omega

end Record

/-! ## The exchange behind gates -/

/-- All replies so far are within `c`, and so are the transmissions of the message in flight. -/
structure Frugal (c : Nat) (x y : Exchange A B E K R) : Prop where
  sent : (partValues (replyParts? x.inFlight)).length ≤ c
  opened : ∃ fp, y.aliceToBob.head? = some ⟨[.rangeFingerprint fp]⟩
  toBob : ∀ m ∈ y.aliceToBob.tail, Within c m
  toAlice : ∀ m ∈ y.bobToAlice, Within c m

section Run

variable [LinearOrder K] [RangeKey K] [Blake3] [Inhabited K]

variable {dom : Set K} {liveA : A → List E} {liveB : B → List E}
  (hrA : LawfulReads A dom liveA) (hwA : LawfulWrites A dom liveA)
  (hrB : LawfulReads B dom liveB) (hwB : LawfulWrites B dom liveB)
  (statusA statusB : E → ContentStatus) {a : A} {b : B} {fA fB : Option (E → Bool)} {oA oB : Origin E K V}
  {gateA gateB : E → ValidateOutcome} {D gotA gotB gotA' gotB' : List E}
  {x x' y y' : Exchange (SessionStore (Snapshotted A) E) (SessionStore (Snapshotted B) E) E K R}

omit [RangeKey K] in
/-- Step: the reply is recorded, and is within what differs. -/
theorem frugal_step {c : Nat} (h : Frugal c x y)
    (hbeside : Beside gateA gateB (session a fA) (session b fB) gotA gotB x y)
    (hbeside' : Beside gateA gateB (session a fA) (session b fB) gotA' gotB' x' y')
    (hparts : (replyParts? x'.inFlight).length ≤ c) (hsent : (partValues (replyParts? x'.inFlight)).length ≤ c)
    (hstep : y.stepWith (gated gateA) (gated gateB) statusA statusB = .ok y') : Frugal c x' y' := by
  have hnew : ∀ m ∈ y'.inFlight.toList, Within c m := by
    intro m hm
    have hm : y'.inFlight = some m := by simpa using hm
    have hspoken := hbeside'.inFlight
    have hrefused := refusals_step hstep
    rw [partValues_congr hbeside.inFlight] at hrefused
    rw [hm] at hspoken hrefused
    refine ⟨?_, hrefused.trans h.sent, ?_⟩
    · show (spoken (some m)).length ≤ c
      rw [hspoken]
      exact (List.length_filter_le _ _).trans hparts
    · rw [length_values]
      exact (congrArg List.length (partValues_congr hspoken)).trans_le hsent
  rcases record_step hstep with ⟨hA, hB⟩ | ⟨hA, hB⟩
  · refine ⟨hsent, hA ▸ h.opened, hA ▸ h.toBob, fun m hm => ?_⟩
    rw [hB] at hm
    exact (List.mem_append.1 hm).elim (h.toAlice m) (hnew m)
  · obtain ⟨fp, hfp⟩ := h.opened
    have hne : y.aliceToBob ≠ [] := fun hnil => by
      rw [hnil] at hfp
      cases hfp
    refine ⟨hsent, ⟨fp, by rw [hA, List.head?_append, hfp]; rfl⟩, fun m hm => ?_, hB ▸ h.toAlice⟩
    rw [hA, List.tail_append_of_ne_nil hne] at hm
    exact (List.mem_append.1 hm).elim (h.toBob m) (hnew m)

omit [RangeKey K] [LinearOrder V] [Store B E K V] in
/-- The opening fingerprint transmits nothing. -/
theorem frugal_start (hstart : Exchange.start (session a fA) (session b fB) = .ok x)
    (hD : AlikeUpTo D (admits fA (liveA a)) (admits fB (liveB b))) (heA : EmptyTells (admits fA (liveA a)))
    (heB : EmptyTells (admits fB (liveB b))) (c : Nat) :
    x.Charged (served liveA) (served liveB) D ∧ Frugal c x x ∧ messages x = 1 := by
  obtain ⟨m, hm, hx⟩ := bind_eq_ok.1 hstart
  obtain ⟨k, -, hm⟩ := bind_eq_ok.1 hm
  obtain ⟨fp, -, hm⟩ := bind_eq_ok.1 hm
  cases hm
  cases hx
  refine ⟨⟨hD, heA, heB, fun it hit => by cases hit⟩, ⟨Nat.zero_le _, ⟨_, rfl⟩, fun m hm => ?_, fun m hm => ?_⟩, rfl⟩
  · cases hm
  · cases hm

include hrA hwA hrB hwB

/-- Run: message by message, and once more for the refusals. -/
theorem frugal_run (hmA : oA.Meets dom False oB) (hmB : oB.Meets dom False oA)
    (n : Nat) {k : Nat}
    (hs : x.Sound dom (served liveA) (fun s => liveA s.inner.live) (served liveB) (fun s => liveB s.inner.live)
      oA oB k)
    (ht : x.Tells (served liveA) (served liveB) statusA statusB) (hD : x.Charged (served liveA) (served liveB) D)
    (hbeside : Beside gateA gateB (session a fA) (session b fB) gotA gotB x y)
    (h : Frugal (2 * D.length) x y) (hrun : x.run statusA statusB n = .ok x') (hx' : x'.inFlight = none) :
    ∃ y', y.runWith (gated gateA) (gated gateB) statusA statusB (n + 1) = .ok y' ∧ y'.inFlight = none ∧
      Frugal (2 * D.length) x' y' ∧ messages y' ≤ messages y + n := by
  have hA := Peer.ofSession hrA hwA
  have hB := Peer.ofSession hrB hwB
  induction n generalizing x y gotA gotB k with
  | zero =>
    cases hrun
    obtain ⟨y', hy, hnone, hbeside'⟩ := beside_idle statusA statusB hbeside hx'
    have hidle : (replyParts? x'.inFlight).length ≤ 2 * D.length := by
      rw [hx']
      exact Nat.zero_le _
    refine ⟨y', by simp [Exchange.runWith, hy, bind, Except.bind], hnone,
      frugal_step statusA statusB h hbeside hbeside' hidle h.sent hy, ?_⟩
    rw [messages_step hy, hnone]
    exact le_rfl
  | succ n ih =>
    obtain ⟨x₁, hstep, hrun⟩ := bind_eq_ok.1 hrun
    obtain ⟨x₂, hstep', hs', -⟩ := sound_step statusA statusB hA hB hmA hmB x hs ht
    obtain rfl : x₁ = x₂ := Except.ok.inj (hstep.symm.trans hstep')
    obtain ⟨y₁, gotA₁, gotB₁, hy, hbeside₁⟩ := beside_step statusA statusB hbeside hstep
    obtain ⟨hD₁, hparts, hsent⟩ := charged_step statusA statusB hA hB (served_put liveA) (served_put liveB) hs hD
      hstep
    obtain ⟨y', hy', hnone, hfrugal, hcount⟩ := ih hs' (ht.next hstep) hD₁ hbeside₁
      (frugal_step statusA statusB h hbeside hbeside₁ hparts hsent hy) hrun
    refine ⟨y', bind_eq_ok.2 ⟨y₁, hy, hy'⟩, hnone, hfrugal, ?_⟩
    have hone := messages_step hy
    have hle : y₁.inFlight.toList.length ≤ 1 := by cases y₁.inFlight <;> simp
    omega

/-- **A session costs what differs.** After the opening fingerprint every message is within two parts, two
refusals and two transmitted entries for each entry that only one of the two views has, and the number of messages
is logarithmic in the smaller view. -/
theorem session_costs_differences [DecidableEq E] (gateA gateB : E → ValidateOutcome)
    (ha : IsAntichain (· ≤ ·) (stamps (liveA a))) (hb : IsAntichain (· ≤ ·) (stamps (liveB b)))
    (fA fB : Option (E → Bool))
    (ht : RangesTell (admits fA (liveA a)) (admits fB (liveB b))) (heA : EmptyTells (admits fA (liveA a)))
    (heB : EmptyTells (admits fB (liveB b))) {n c : Nat}
    (hn : n = min (2 * Nat.clog 2 (admits fB (liveB b)).length)
      (2 * Nat.clog 2 (admits fA (liveA a)).length + 1) + 3)
    (hc : c = 2 * (differences (admits fA (liveA a)) (admits fB (liveB b))).length) :
    ∃ (fp : RangeFingerprint K) (replies : List (Message E K R))
      (x₀ y : Exchange (SessionStore (Snapshotted A) E) (SessionStore (Snapshotted B) E) E K R),
      Exchange.start (session a fA) (session b fB) = .ok x₀ ∧
      x₀.runWith (gated gateA) (gated gateB) statusA statusB (n + 1) = .ok y ∧ y.inFlight = none ∧
      y.aliceToBob = ⟨[.rangeFingerprint fp]⟩ :: replies ∧ replies.length + y.bobToAlice.length ≤ n ∧
      ∀ m ∈ replies ++ y.bobToAlice,
        (rangeParts m.parts).length ≤ c ∧ (rejections m.parts).length ≤ c ∧ m.values.length ≤ c := by
  have hA := Peer.ofSession hrA hwA
  have hB := Peer.ofSession hrB hwB
  have hmA := meets_session (hrB.mem_dom b) (liveA a) fA fB
  have hmB := meets_session (hrA.mem_dom a) (liveB b) fB fA
  obtain ⟨x₀, hstart, hsound⟩ := sound_start (served liveB) (fun s => liveB s.inner.live) hA (R := R)
    (a := session a fA) (b := session b fB) (holding_sessionOrigin (hrA.sorted a) ha fA _)
    (holding_sessionOrigin (hrB.sorted b) hb fB _)
  have hpaced := paced_start hstart (served liveA) (served liveB)
  obtain ⟨x, hrun, hnone⟩ := paced_run statusA statusB hA hB hmA hmB n hsound (tells_session hstart ht) (hn ▸ hpaced)
    fun _ => by omega
  obtain ⟨hbeside, -⟩ := beside_start gateA gateB hstart (sessionOrigin (liveA a) fA) (sessionOrigin (liveB b) fB)
  obtain ⟨hcharged, hfrugal, hone⟩ := frugal_start hstart
    (alikeUpTo_differences (admits fA (liveA a)) (admits fB (liveB b))) heA heB c
  subst hc
  obtain ⟨y, hrun', hnone', hy, hcount⟩ := frugal_run hrA hwA hrB hwB statusA statusB hmA hmB n hsound
    (tells_session hstart ht) hcharged hbeside hfrugal hrun hnone
  obtain ⟨fp, hfp⟩ := hy.opened
  have hcons := List.cons_head?_tail hfp
  refine ⟨fp, y.aliceToBob.tail, x₀, y, hstart, hrun', hnone', hcons.symm, ?_, fun m hm => ?_⟩
  · unfold messages at hcount
    rw [← hcons, List.length_cons] at hcount
    have : messages x₀ = 1 := hone
    unfold messages at this
    omega
  · have hm : Within _ m := (List.mem_append.1 hm).elim (hy.toBob m) (hy.toAlice m)
    exact ⟨hm.parts, hm.refusals, hm.values⟩

end Run

end

/-! ## An instance -/

section

local instance costDigests : Blake3 := sampleDigests

/-- Three entries differ, and bob refuses all he is sent: at most four replies, none beyond six. -/
theorem session_costs_differences_simpleStore :
    ∃ (fp : RangeFingerprint Bytes) (replies : List (Message (Bytes × Nat) Bytes Unit))
      (x₀ y : Exchange (SessionStore (Snapshotted (SimpleStore Bytes Nat)) (Bytes × Nat))
        (SessionStore (Snapshotted (SimpleStore Bytes Nat)) (Bytes × Nat)) (Bytes × Nat) Bytes Unit),
      Exchange.start (session (puts default [([1], 4)]) none)
        (session (puts default [([1, 2], 3), ([7], 1)]) none) = .ok x₀ ∧
      x₀.runWith (gated fun _ => .accept) (gated fun _ => .reject) (fun _ => .complete) (fun _ => .missing) 5 =
        .ok y ∧ y.inFlight = none ∧ y.aliceToBob = ⟨[.rangeFingerprint fp]⟩ :: replies ∧
      replies.length + y.bobToAlice.length ≤ 4 ∧ ∀ m ∈ replies ++ y.bobToAlice,
        (rangeParts m.parts).length ≤ 6 ∧ (rejections m.parts).length ≤ 6 ∧ m.values.length ≤ 6 := by
  have hempty : ∀ p ∈ sampleEntries.sublists, fingerprint p = Fingerprint.empty → p = [] := by decide +kernel
  refine session_costs_differences SimpleStore.lawfulReads SimpleStore.lawfulWrites SimpleStore.lawfulReads
    SimpleStore.lawfulWrites (fun _ => .complete) (fun _ => .missing) (fun _ => .accept) (fun _ => .reject)
    (sample_antichain [([1], 4)]) (sample_antichain [([1, 2], 3), ([7], 1)]) none none (sample_tell none none)
    (emptyTells_of_sublists hempty (by decide)) (emptyTells_of_sublists hempty (by decide)) ?_ ?_
  · rw [sample_entries.1, sample_entries.2]
    decide
  · rw [sample_entries.1, sample_entries.2]
    decide

end

end PdnStore.Session

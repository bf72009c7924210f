import PdnStore.Ranger.Round
import PdnStore.Ranger.Judge

/-!
# Ingest behind a gate (ranger.rs:439-463, sync.rs:658-686)

For one session the validate callback of `sync_process_message` is a function of the entry alone: the
peer and the capability validator are fixed, the store and the status are not looked at, and the clock
matters only to an entry further ahead than ten minutes. `gate` is that function.

A side behind a gate that has received the entries `got`, in this order, holds the fold of those it lets
in (`foldl_ingest_gated`), and has refused aloud `refused gate s got`: what the gate rejects and the store
would have taken in. `Reconciled` is what there is to say of a side once its peer has nothing left to tell.
-/

namespace PdnStore.Ranger

open Store MaxSet

section

variable {S E K V R : Type} [LinearOrder V] [RangeEntry E K V R] [Store S E K V]

/-- A validator that looks at the entry alone. -/
def gated (gate : E → ValidateOutcome) : S → E → ContentStatus → ValidateOutcome := fun _ e _ => gate e

/-- The entries of a list the gate lets in. -/
def letIn (gate : E → ValidateOutcome) (l : List E) : List E := l.filter fun e => gate e = .accept

/-- The entries of a sequence the gate refuses aloud, each judged on the store as the ones before it
left it. -/
def refused (gate : E → ValidateOutcome) : S → List E → List E
  | _, [] => []
  | s, e :: l =>
    let rest := refused gate (puts s (letIn gate [e])) l
    if gate e = .reject ∧ wouldInsert s e = true then e :: rest else rest

theorem letIn_append (gate : E → ValidateOutcome) (l l' : List E) :
    letIn gate (l ++ l') = letIn gate l ++ letIn gate l' := List.filter_append ..

theorem mem_letIn {gate : E → ValidateOutcome} {l : List E} {e : E} :
    e ∈ letIn gate l ↔ e ∈ l ∧ gate e = .accept := by
  simp [letIn]

theorem letIn_cons (gate : E → ValidateOutcome) (e : E) (l : List E) :
    letIn gate (e :: l) = letIn gate [e] ++ letIn gate l := by
  rw [← letIn_append, List.singleton_append]

theorem ingest_gated (gate : E → ValidateOutcome) (s : S) (v : E × ContentStatus) :
    ingest (gated gate) s v = puts s (letIn gate [v.1]) := by
  unfold ingest gated letIn
  by_cases h : gate v.1 = .accept <;> simp [h, puts]

/-- Values judged one after the other: those let in are put. -/
theorem foldl_ingest_gated (gate : E → ValidateOutcome) (s : S) (vs : List (E × ContentStatus)) :
    vs.foldl (ingest (gated gate)) s = puts s (letIn gate (vs.map Prod.fst)) := by
  induction vs generalizing s with
  | nil => rfl
  | cons v vs ih =>
    rw [List.foldl_cons, ih, ingest_gated, ← puts_append, ← letIn_append]
    rfl

/-- The rejections of a reply name the entries refused aloud. -/
theorem echoes_gated (gate : E → ValidateOutcome) (s : S) (vs : List (E × ContentStatus)) :
    (echoes (gated gate) s vs).map (fun j => j.2.1) = refused gate s (vs.map Prod.fst) := by
  induction vs generalizing s with
  | nil => rfl
  | cons v vs ih =>
    have hrest := ih (ingest (gated gate) s v)
    unfold echoes at hrest ⊢
    rw [judgements, List.filter_cons, List.map_cons, refused, ← ingest_gated, ← hrest]
    by_cases h : gate v.1 = .reject ∧ wouldInsert s v.1 = true
    · have hecho : echoed (gated gate) (s, v) = true := by simp [echoed, gated, h.1, h.2]
      simp [hecho, h]
    · have hecho : echoed (gated gate) (s, v) = false := by
        by_contra hc
        simp only [echoed, gated, Bool.not_eq_false, Bool.and_eq_true] at hc
        exact h ⟨of_decide_eq_true hc.1, hc.2⟩
      simp [hecho, h]

theorem refused_append (gate : E → ValidateOutcome) (s : S) (l l' : List E) :
    refused gate s (l ++ l') = refused gate s l ++ refused gate (puts s (letIn gate l)) l' := by
  induction l generalizing s with
  | nil => rfl
  | cons e l ih =>
    rw [List.cons_append, refused, refused, ih, letIn_cons gate e l, puts_append]
    split <;> rfl

theorem refused_sublist (gate : E → ValidateOutcome) (s : S) (l : List E) :
    (refused gate s l).Sublist l := by
  induction l generalizing s with
  | nil => exact List.Sublist.refl _
  | cons e l ih =>
    rw [refused]
    split
    · exact (ih _).cons_cons e
    · exact (ih _).cons e

/-! ## A message that is answered -/

variable [LinearOrder K] [Blake3]

/-- A message that is answered has been read to its end. -/
theorem store_eq_of_reply {config : SyncConfig} {validate : S → E → ContentStatus → ValidateOutcome}
    {status : E → ContentStatus} {s : S} {m : Message E K R} {reply : Option (Message E K R)}
    (h : (processMessage config validate status s m).reply = .ok reply) :
    (processMessage config validate status s m).store = m.values.foldl (ingest validate) s := by
  unfold processMessage at h ⊢
  rcases hst : tryFold (itemStep validate status) (⟨s, [], []⟩ : Round S E K R) (items m.parts) with ⟨st, o⟩
  rw [hst] at h
  cases o with
  | some fault => cases h
  | none => exact (judged_items validate status hst).store

/-- A reply that is sent is not empty. -/
theorem parts_ne_nil_of_reply {config : SyncConfig} {validate : S → E → ContentStatus → ValidateOutcome}
    {status : E → ContentStatus} {s : S} {m reply : Message E K R}
    (h : (processMessage config validate status s m).reply = .ok (some reply)) : reply.parts ≠ [] := by
  unfold processMessage at h
  rcases hst : tryFold (itemStep validate status) (⟨s, [], []⟩ : Round S E K R) (items m.parts) with ⟨st, o⟩
  rw [hst] at h
  cases o with
  | some fault => cases h
  | none =>
    obtain ⟨parts, -, h⟩ := bind_eq_ok.1 h
    rw [Except.ok.injEq] at h
    split at h
    · cases h
    · rename_i hne
      cases h
      simpa using hne

/-! ## What is refused, and what is held in the end -/

variable [RangeKey K] [Inhabited K]

section Lawful

variable {dom : Set K} {view live : S → List E} {fresh : Prop} (hp : Peer S dom view live fresh)

include hp

theorem mem_live_puts {s : S} {l : List E} (hl : ∀ e ∈ l, key e ∈ dom) {e : E}
    (h : e ∈ live (puts s l)) : e ∈ live s ∨ e ∈ l := by
  induction l generalizing s with
  | nil => exact .inl h
  | cons a l ih =>
    rcases ih (fun e' he' => hl e' (List.mem_cons_of_mem a he')) h with h | h
    · rcases mem_of_mem_live_put hp.writes (hl a List.mem_cons_self) h with rfl | h
      · exact .inr List.mem_cons_self
      · exact .inl h
    · exact .inr (List.mem_cons_of_mem a h)

variable {gate : E → ValidateOutcome}

/-- Refused aloud: rejected by the gate and not known when the sequence began. -/
theorem of_mem_refused {s : S} {l : List E} (hl : ∀ e ∈ l, key e ∈ dom) {e : E} (h : e ∈ refused gate s l) :
    e ∈ l ∧ gate e = .reject ∧ ¬ Has (live s) e := by
  induction l generalizing s with
  | nil => cases h
  | cons a l ih =>
    have htl : ∀ e ∈ l, key e ∈ dom := fun e' he' => hl e' (List.mem_cons_of_mem a he')
    have ha := hl a List.mem_cons_self
    have hrest : e ∈ refused gate (puts s (letIn gate [a])) l → e ∈ a :: l ∧ gate e = .reject ∧
        ¬ Has (live s) e := by
      intro h
      obtain ⟨hmem, hrej, hnot⟩ := ih htl h
      refine ⟨List.mem_cons_of_mem a hmem, hrej, fun hhas => hnot (has_puts hp hhas _ ?_)⟩
      intro e' he'
      obtain rfl := List.mem_singleton.1 (mem_letIn.1 he').1
      exact ha
    rw [refused] at h
    split at h
    · rename_i hcond
      rcases List.mem_cons.1 h with rfl | h
      · exact ⟨List.mem_cons_self, hcond.1, (wouldInsert_iff hp.writes ha).1 hcond.2⟩
      · exact hrest h
    · exact hrest h

/-- What the gate rejects is refused aloud, unless it is superseded in the end. -/
theorem refused_or_has {s : S} {l : List E} (hl : ∀ e ∈ l, key e ∈ dom) {e : E} (h : e ∈ l)
    (hrej : gate e = .reject) : e ∈ refused gate s l ∨ Has (live (puts s (letIn gate l))) e := by
  induction l generalizing s with
  | nil => cases h
  | cons a l ih =>
    have htl : ∀ e ∈ l, key e ∈ dom := fun e' he' => hl e' (List.mem_cons_of_mem a he')
    rw [letIn_cons gate a l, puts_append, refused]
    rcases List.mem_cons.1 h with rfl | h
    · cases hi : wouldInsert s e with
      | true => exact .inl (by simp [hrej])
      | false =>
        right
        have hhas : Has (live s) e := by
          by_contra hc
          rw [(wouldInsert_iff hp.writes (hl e List.mem_cons_self)).2 hc] at hi
          cases hi
        have hnone : letIn gate [e] = [] := by simp [letIn, hrej]
        rw [hnone]
        exact has_puts hp hhas _ fun e' he' => htl e' (mem_letIn.1 he').1
    · rcases ih htl h with h | h
      · left
        split
        · exact List.mem_cons_of_mem a h
        · exact h
      · exact .inr h

end Lawful

/-! ## A side whose peer has nothing left to tell -/

/-- A side that held `held`, was served `served` behind `gate`, and ends with `final` after naming
`named` in its rejections. -/
structure Reconciled (gate : E → ValidateOutcome) (held served final : List E) (named : List R) : Prop where
  /-- It holds the prefix-reduced union of what it held and what its gate let in. -/
  reduct : Reduct (stamps final) (stamps held ∪ stamps (letIn gate served))
  /-- Nothing comes from nowhere. -/
  origin : ∀ e ∈ final, e ∈ held ∨ e ∈ letIn gate served
  /-- The peer is told of everything rejected, unless it is superseded here anyway. -/
  told : ∀ e ∈ served, gate e = .reject → Has final e ∨ rejectId e ∈ named
  /-- Each rejection names another entry, one served and refused, that was news. -/
  names : ∃ l : List E, named = l.map rejectId ∧ (l.map key).Nodup ∧
    ∀ e ∈ l, e ∈ served ∧ gate e = .reject ∧ ¬ Has held e

/-- From what a side received to what it holds and has named. -/
theorem reconciled_of_received {dom : Set K} {view live : S → List E} {fresh : Prop}
    (hp : Peer S dom view live fresh) {gate : E → ValidateOutcome} {s : S} {served got : List E}
    (hanti : IsAntichain (· ≤ ·) (stamps (live s))) (hdom : ∀ e ∈ served, key e ∈ dom)
    (hsub : ∀ e ∈ got, e ∈ served) (hnodup : (got.map key).Nodup)
    (hall : ∀ e ∈ served, e ∈ got ∨ Has (live s) e) :
    Reconciled gate (live s) served (live (puts s (letIn gate got))) ((refused gate s got).map rejectId) := by
  have hgot : ∀ e ∈ got, key e ∈ dom := fun e he => hdom e (hsub e he)
  have hin : ∀ e ∈ letIn gate got, key e ∈ dom := fun e he => hgot e (mem_letIn.1 he).1
  have hself : Reduct (stamps (live s)) (stamps (live s)) := ⟨hanti, Set.Subset.rfl, subset_lowerClosure⟩
  have hred := reduct_puts hp.writes hself (letIn gate got) hin
  refine ⟨⟨hred.antichain, hred.subset.trans ?_, ?_⟩, fun e he => ?_, fun e he hrej => ?_,
    refused gate s got, rfl, hnodup.sublist ((refused_sublist gate s got).map key), fun e he => ?_⟩
  · rintro x (hx | ⟨e, he, rfl⟩)
    · exact .inl hx
    · exact .inr (stamp_mem_stamps (mem_letIn.2 ⟨hsub e (mem_letIn.1 he).1, (mem_letIn.1 he).2⟩))
  · rintro x (hx | ⟨e, he, rfl⟩)
    · exact hred.cofinal (.inl hx)
    · -- let in and received, or known before anything was received
      obtain ⟨hserved, hacc⟩ := mem_letIn.1 he
      rcases hall e hserved with hrecv | hhas
      · exact hred.cofinal (.inr (stamp_mem_stamps (mem_letIn.2 ⟨hrecv, hacc⟩)))
      · exact has_puts hp hhas _ hin
  · rcases mem_live_puts hp hin he with h | h
    · exact .inl h
    · exact .inr (mem_letIn.2 ⟨hsub e (mem_letIn.1 h).1, (mem_letIn.1 h).2⟩)
  · rcases hall e he with hrecv | hhas
    · rcases refused_or_has hp (s := s) hgot hrecv hrej with h | h
      · exact .inr (List.mem_map_of_mem h)
      · exact .inl h
    · exact .inl (has_puts hp hhas _ hin)
  · obtain ⟨hmem, hrej, hnot⟩ := of_mem_refused hp hgot he
    exact ⟨hsub e hmem, hrej, hnot⟩

omit [Blake3] [Inhabited K] in
/-- Whatever a reconciled side holds, a side that is told everything knows what its peer still holds. -/
theorem has_of_not_named {gateA gateB : E → ValidateOutcome} {heldA heldB finalA finalB : List E}
    {namedA namedB : List R} (hA : Reconciled gateA heldA heldB finalA namedA)
    (hB : Reconciled gateB heldB heldA finalB namedB) (hdrop : ∀ e ∈ heldA, gateB e ≠ .drop) {e : E}
    (he : e ∈ finalA) (hnamed : rejectId e ∉ namedB) : Has finalB e := by
  rcases hA.origin e he with h | h
  · cases hg : gateB e with
    | accept => exact hB.reduct.cofinal (.inr (stamp_mem_stamps (mem_letIn.2 ⟨h, hg⟩)))
    | drop => exact absurd hg (hdrop e h)
    | reject => exact (hB.told e h hg).resolve_right hnamed
  · exact hB.reduct.cofinal (.inl (stamp_mem_stamps (mem_letIn.1 h).1))

end

/-! ## The loop under validators -/

section Loop

variable {A B E K V R : Type} [LinearOrder K] [LinearOrder V] [RangeEntry E K V R]
  [Store A E K V] [Store B E K V] [Blake3]

namespace Exchange

/-- The receiver processes the message in flight under its own validator; its reply is the next one. -/
def stepWith (validateA : A → E → ContentStatus → ValidateOutcome)
    (validateB : B → E → ContentStatus → ValidateOutcome) (statusA statusB : E → ContentStatus)
    (x : Exchange A B E K R) : Except Fault (Exchange A B E K R) :=
  match x.inFlight, x.turn with
  | none, _ => .ok x
  | some m, .bob => do
    let p := processMessage default validateB statusB x.bob m
    let reply ← p.reply
    .ok { x with
      bob := p.store, turn := .alice, inFlight := reply, bobToAlice := x.bobToAlice ++ reply.toList }
  | some m, .alice => do
    let p := processMessage default validateA statusA x.alice m
    let reply ← p.reply
    .ok { x with
      alice := p.store, turn := .bob, inFlight := reply, aliceToBob := x.aliceToBob ++ reply.toList }

/-- `n` messages. -/
def runWith (validateA : A → E → ContentStatus → ValidateOutcome)
    (validateB : B → E → ContentStatus → ValidateOutcome) (statusA statusB : E → ContentStatus) :
    Nat → Exchange A B E K R → Except Fault (Exchange A B E K R)
  | 0, x => .ok x
  | n + 1, x => do runWith validateA validateB statusA statusB n (← stepWith validateA validateB statusA statusB x)

/-- The loop of `sync_exchange_messages` is the one whose validators accept everything. -/
theorem step_eq_stepWith (statusA statusB : E → ContentStatus) (x : Exchange A B E K R) :
    x.step statusA statusB = x.stepWith acceptAll acceptAll statusA statusB := by
  unfold step stepWith
  rfl

theorem run_eq_runWith (statusA statusB : E → ContentStatus) (n : Nat) (x : Exchange A B E K R) :
    x.run statusA statusB n = x.runWith acceptAll acceptAll statusA statusB n := by
  induction n generalizing x with
  | zero => rfl
  | succ n ih =>
    rw [run, runWith, step_eq_stepWith]
    exact congrArg _ (funext ih)

variable {validateA : A → E → ContentStatus → ValidateOutcome} {validateB : B → E → ContentStatus → ValidateOutcome}
  {statusA statusB : E → ContentStatus} {x y z : Exchange A B E K R}

/-- A loop with nothing in flight is over. -/
theorem runWith_idle (h : x.inFlight = none) (n : Nat) : x.runWith validateA validateB statusA statusB n = .ok x := by
  have hstep : x.stepWith validateA validateB statusA statusB = .ok x := by
    unfold stepWith
    rw [h]
  induction n with
  | zero => rfl
  | succ n ih =>
    rw [runWith, hstep]
    exact ih

theorem runWith_over {m : Nat} (h : x.runWith validateA validateB statusA statusB m = .ok y) (hy : y.inFlight = none)
    (n : Nat) : x.runWith validateA validateB statusA statusB (m + n) = .ok y := by
  induction m generalizing x with
  | zero =>
    cases h
    exact runWith_idle hy _
  | succ m ih =>
    obtain ⟨x₁, hstep, h⟩ := bind_eq_ok.1 h
    rw [Nat.succ_add]
    exact bind_eq_ok.2 ⟨x₁, hstep, ih h⟩

/-- It ends in one way. -/
theorem runWith_unique {m n : Nat} (h : x.runWith validateA validateB statusA statusB m = .ok y)
    (hy : y.inFlight = none) (h' : x.runWith validateA validateB statusA statusB n = .ok z) (hz : z.inFlight = none) :
    y = z := by
  have hm := runWith_over h hy n
  have hn := runWith_over h' hz m
  rw [Nat.add_comm n m, hm] at hn
  exact Except.ok.inj hn

end Exchange

/-- The rejections in a sequence of messages, in order. -/
def sentRejections (log : List (Message E K R)) : List R := log.flatMap fun m => rejections m.parts

end Loop

end PdnStore.Ranger

import PdnStore.Session.Converge
import PdnStore.Session.Egress
import PdnStore.Ranger.Pace

/-!
# Reconciliation behind gates (sync.rs:612-717, ranger.rs:439-463)

A session in which each side refuses some of what it is served. The views are frozen, so what a side
says about ranges does not depend on what it takes in: the exchange behind gates follows, message by
message, the exchange without them (`Beside`), and differs from it in the live stores and in the
rejections. It can be one message longer, when the last one has nothing but rejections to say.

What follows is `gated_exchange_reconciles`, and from it that retraction heals: a side that takes its
rejections back agrees with its peer after one more session (`retraction_heals`).
-/

namespace PdnStore.Session

open Ranger Ranger.Store MaxSet

section

variable {S A B E K V R : Type} [LinearOrder V] [RangeEntry E K V R]
  [Store S E K V] [Store A E K V] [Store B E K V]

/-! ## What a message says about ranges -/

/-- The range parts of what is in flight. -/
def spoken (m : Option (Message E K R)) : List (MessagePart E K R) := rangeParts (replyParts? m)

/-- The entries a message transmits. -/
def entriesOf (m : Message E K R) : List E := m.values.map Prod.fst

theorem items_rangeParts (parts : List (MessagePart E K R)) : items (rangeParts parts) = items parts := by
  induction parts with
  | nil => rfl
  | cons part parts ih =>
    cases part with
    | rangeFingerprint fp => exact ih
    | rangeItem item => exact congrArg (item :: ·) ih
    | rejected id => exact ih

theorem fingerprints_rangeParts (parts : List (MessagePart E K R)) :
    fingerprints (rangeParts parts) = fingerprints parts := by
  induction parts with
  | nil => rfl
  | cons part parts ih =>
    cases part with
    | rangeFingerprint fp => exact congrArg (fp :: ·) ih
    | rangeItem item => exact ih
    | rejected id => exact ih

theorem rangeParts_eq_self {parts : List (MessagePart E K R)} (h : rejections parts = []) :
    rangeParts parts = parts := by
  refine List.filter_eq_self.2 fun part hpart => ?_
  cases part with
  | rangeFingerprint fp => rfl
  | rangeItem item => rfl
  | rejected id => cases List.filterMap_eq_nil_iff.1 h _ hpart

omit [LinearOrder V] in
theorem keys_entriesOf (log : List (Message E K R)) : (log.flatMap entriesOf).map key = sentKeys log := by
  simp [sentKeys, entriesOf, List.map_flatMap, Function.comp_def]

theorem sentRejections_append (log : List (Message E K R)) (m : Option (Message E K R)) :
    sentRejections (log ++ m.toList) = sentRejections log ++ rejections (replyParts? m) := by
  cases m with
  | none => simp [sentRejections, replyParts?, rejections]
  | some m => simp [sentRejections, replyParts?]

section Congr

variable {m m' : Message E K R} (h : rangeParts m'.parts = rangeParts m.parts)

include h

theorem items_congr : items m'.parts = items m.parts := by
  rw [← items_rangeParts, h, items_rangeParts]

variable [LinearOrder K] [Blake3] in
/-- The rejections of a message do not matter to the store that reads it. -/
theorem processMessage_congr (config : SyncConfig) (validate : S → E → ContentStatus → ValidateOutcome)
    (status : E → ContentStatus) (s : S) :
    processMessage config validate status s m' = processMessage config validate status s m := by
  have hf : fingerprints m'.parts = fingerprints m.parts := by
    rw [← fingerprints_rangeParts, h, fingerprints_rangeParts]
  unfold processMessage
  rw [items_congr h, hf]

end Congr

variable [LinearOrder K] [Blake3]

/-- A message with nothing to say about ranges is not answered. -/
theorem processMessage_unspoken {m : Message E K R} (h : rangeParts m.parts = []) (config : SyncConfig)
    (validate : S → E → ContentStatus → ValidateOutcome) (status : E → ContentStatus) (s : S) :
    processMessage config validate status s m = ⟨s, [], .ok none⟩ := by
  have hnil : rangeParts m.parts = rangeParts (⟨[]⟩ : Message E K R).parts := h
  rw [processMessage_congr hnil]
  rfl

/-- With a validator that accepts everything nothing is rejected. -/
theorem rejections_acceptAll {config : SyncConfig} {status : E → ContentStatus} {s : S} {m : Message E K R}
    {reply : Option (Message E K R)} (h : (processMessage config acceptAll status s m).reply = .ok reply) :
    rejections (replyParts? reply) = [] := by
  rw [rejections_reply_eq acceptAll status h]
  have hnone : echoes (acceptAll : S → E → ContentStatus → ValidateOutcome) s m.values = [] :=
    List.filter_eq_nil_iff.2 fun j _ => by simp [echoed, acceptAll]
  rw [hnone]
  rfl

theorem spoken_ne_nil {config : SyncConfig} {status : E → ContentStatus} {s : S} {m reply : Message E K R}
    (h : (processMessage config acceptAll status s m).reply = .ok (some reply)) :
    spoken (some reply) ≠ [] := by
  unfold spoken
  rw [rangeParts_eq_self (rejections_acceptAll h)]
  exact parts_ne_nil_of_reply h

/-! ## One side -/

variable [Inhabited K]

omit [LinearOrder K] in
/-- What a session takes in changes neither its snapshot nor its filter. -/
theorem puts_frozen (live s : S) (f : Option (E → Bool)) (l : List E) :
    puts (⟨⟨live, s⟩, f⟩ : SessionStore (Snapshotted S) E) l = ⟨⟨puts live l, s⟩, f⟩ := by
  induction l generalizing live with
  | nil => rfl
  | cons e l ih =>
    show puts (put (⟨⟨live, s⟩, f⟩ : SessionStore (Snapshotted S) E) e).2 l = _
    rw [put_session]
    exact ih _

omit [LinearOrder K] in
theorem puts_session (s : S) (f : Option (E → Bool)) (l : List E) :
    puts (session s f) l = (⟨⟨puts s l, s⟩, f⟩ : SessionStore (Snapshotted S) E) := puts_frozen s s f l

/-- The same snapshot under the same filter. -/
def SameView (s t : SessionStore (Snapshotted S) E) : Prop :=
  s.inner.snapshot = t.inner.snapshot ∧ s.filter = t.filter

omit [LinearOrder K] [LinearOrder V] in
theorem SameView.reads {s t : SessionStore (Snapshotted S) E} (h : SameView s t) : SameReads s t := by
  obtain ⟨⟨live, snapshot⟩, f⟩ := s
  obtain ⟨⟨live', snapshot'⟩, f'⟩ := t
  obtain ⟨rfl, rfl⟩ := h
  exact ⟨rfl, fun _ => rfl, fun _ => rfl⟩

omit [LinearOrder K] in
theorem SameView.put_left {s t : SessionStore (Snapshotted S) E} (e : E) (h : SameView s t) :
    SameView (put s e).2 t := by
  rw [put_session]
  exact h

omit [LinearOrder K] in
theorem SameView.put_right {s t : SessionStore (Snapshotted S) E} (e : E) (h : SameView s t) :
    SameView s (put t e).2 := by
  rw [put_session]
  exact h

/-- A session that began as `s₀` and has received `got`: without a gate it is `t`; behind its gate it is
`s`, having said `said`. -/
structure Follows (gate : E → ValidateOutcome) (s₀ : SessionStore (Snapshotted S) E) (got : List E)
    (t s : SessionStore (Snapshotted S) E) (said : List (Message E K R)) : Prop where
  free : t = puts s₀ got
  gated : s = puts s₀ (letIn gate got)
  named : sentRejections said = (refused gate s₀ got).map rejectId

/-- Step: one message, read behind the gate and without it. -/
theorem follows_step {gate : E → ValidateOutcome} {a : S} {f : Option (E → Bool)} {got : List E}
    {t s : SessionStore (Snapshotted S) E} {said : List (Message E K R)}
    (h : Follows gate (session a f) got t s said) (status : E → ContentStatus) {m m' : Message E K R}
    (hm : rangeParts m'.parts = rangeParts m.parts) {reply : Option (Message E K R)}
    (hreply : (processMessage default acceptAll status t m).reply = .ok reply) :
    ∃ reply', (processMessage default (gated gate) status s m').reply = .ok reply' ∧
      Follows gate (session a f) (got ++ entriesOf m) (processMessage default acceptAll status t m).store
        (processMessage default (gated gate) status s m').store (said ++ reply'.toList) ∧
      spoken reply' = spoken reply := by
  obtain ⟨rfl, rfl, hnamed⟩ := h
  have hview : SameView (puts (session a f) (letIn gate got)) (puts (session a f) got) := by
    rw [puts_session, puts_session]
    exact ⟨rfl, rfl⟩
  have hsame := (processMessage_rangeParts (P := SameView) (fun _ _ hP => hP.reads)
    (fun _ _ e hP => hP.put_left e) (fun _ _ e hP => hP.put_right e) (gated gate) acceptAll status default
    hview m).2
  rw [hreply] at hsame
  have hreply' : ∃ reply', (processMessage default (gated gate) status
      (puts (session a f) (letIn gate got)) m).reply = .ok reply' ∧ spoken reply' = spoken reply := by
    rcases hr : (processMessage default (gated gate) status (puts (session a f) (letIn gate got)) m).reply
      with fault | reply'
    · rw [hr] at hsame
      cases hsame
    · rw [hr] at hsame
      refine ⟨reply', rfl, ?_⟩
      cases reply <;> cases reply' <;> exact Except.ok.inj hsame
  obtain ⟨reply', hr, hspoken⟩ := hreply'
  rw [processMessage_congr hm]
  refine ⟨reply', hr, ⟨?_, ?_, ?_⟩, hspoken⟩
  · have hall : letIn (fun _ : E => ValidateOutcome.accept) (entriesOf m) = entriesOf m :=
      List.filter_eq_self.2 fun _ _ => by simp
    have hfold := foldl_ingest_gated (fun _ : E => ValidateOutcome.accept) (puts (session a f) got) m.values
    rw [store_eq_of_reply hreply, puts_append]
    unfold entriesOf at hall
    rw [hall] at hfold
    exact hfold
  · rw [store_eq_of_reply hr, foldl_ingest_gated, letIn_append, puts_append]
    rfl
  · rw [sentRejections_append, hnamed, rejections_reply_eq _ _ hr, refused_append, List.map_append,
      show entriesOf m = m.values.map Prod.fst from rfl, ← echoes_gated gate _ m.values, List.map_map]
    rfl

/-! ## Both sides -/

/-- The entries on their way to a side. -/
def awaited (x : Exchange A B E K R) (side : Side) : List E :=
  if x.turn = side then x.inFlight.toList.flatMap entriesOf else []

/-- The exchange behind gates `y` beside the exchange without them `x`; alice and bob have received
`gotA` and `gotB`. -/
structure Beside (gateA gateB : E → ValidateOutcome) (a₀ : SessionStore (Snapshotted A) E)
    (b₀ : SessionStore (Snapshotted B) E) (gotA gotB : List E)
    (x y : Exchange (SessionStore (Snapshotted A) E) (SessionStore (Snapshotted B) E) E K R) : Prop where
  alice : Follows gateA a₀ gotA x.alice y.alice y.aliceToBob
  bob : Follows gateB b₀ gotB x.bob y.bob y.bobToAlice
  inFlight : spoken y.inFlight = spoken x.inFlight
  speaks : ∀ m, x.inFlight = some m → spoken x.inFlight ≠ []
  turn : x.inFlight.isSome → y.turn = x.turn
  toAlice : x.bobToAlice.flatMap entriesOf = gotA ++ awaited x .alice
  toBob : x.aliceToBob.flatMap entriesOf = gotB ++ awaited x .bob

section Run

variable {gateA gateB : E → ValidateOutcome} {a : A} {b : B} {fA fB : Option (E → Bool)} {gotA gotB : List E}
  (statusA statusB : E → ContentStatus)
  {x x' y : Exchange (SessionStore (Snapshotted A) E) (SessionStore (Snapshotted B) E) E K R}

/-- Nothing in flight without gates: behind them at most rejections are, and they are not answered. -/
theorem beside_idle (h : Beside gateA gateB (session a fA) (session b fB) gotA gotB x y)
    (hx : x.inFlight = none) :
    ∃ y', y.stepWith (gated gateA) (gated gateB) statusA statusB = .ok y' ∧ y'.inFlight = none ∧
      Beside gateA gateB (session a fA) (session b fB) gotA gotB x y' := by
  have hquiet : spoken y.inFlight = [] := by
    rw [h.inFlight, hx]
    rfl
  obtain ⟨a', b', turn, inFlight, toBob, toAlice⟩ := y
  have hidle : ∀ {turn : Side} {toBob' toAlice' : List (Message E K R)}, toBob' = toBob →
      toAlice' = toAlice → Beside gateA gateB (session a fA) (session b fB) gotA gotB x
        ⟨a', b', turn, none, toBob', toAlice'⟩ := by
    rintro turn _ _ rfl rfl
    refine ⟨h.alice, h.bob, ?_, h.speaks, fun hs => ?_, h.toAlice, h.toBob⟩
    · rw [hx]
    · rw [hx] at hs
      cases hs
  cases inFlight with
  | none => exact ⟨_, rfl, rfl, hidle rfl rfl⟩
  | some m =>
    cases turn with
    | bob =>
      have hp := processMessage_unspoken hquiet default (gated gateB) statusB b'
      exact ⟨⟨a', b', .alice, none, toBob, toAlice ++ []⟩, by simp [Exchange.stepWith, hp, bind, Except.bind],
        rfl, hidle rfl (List.append_nil _)⟩
    | alice =>
      have hp := processMessage_unspoken hquiet default (gated gateA) statusA a'
      exact ⟨⟨a', b', .bob, none, toBob ++ [], toAlice⟩, by simp [Exchange.stepWith, hp, bind, Except.bind],
        rfl, hidle (List.append_nil _) rfl⟩

/-- Step: the exchange behind gates follows. -/
theorem beside_step (h : Beside gateA gateB (session a fA) (session b fB) gotA gotB x y)
    (hstep : x.step statusA statusB = .ok x') :
    ∃ y' gotA' gotB', y.stepWith (gated gateA) (gated gateB) statusA statusB = .ok y' ∧
      Beside gateA gateB (session a fA) (session b fB) gotA' gotB' x' y' := by
  cases hx : x.inFlight with
  | none =>
    obtain ⟨y', hy, -, hbeside⟩ := beside_idle statusA statusB h hx
    have hsame : x' = x := by
      unfold Exchange.step at hstep
      rw [hx] at hstep
      exact (Except.ok.inj hstep).symm
    exact ⟨y', gotA, gotB, hy, hsame ▸ hbeside⟩
  | some m =>
    have hturn := h.turn (by rw [hx]; rfl)
    have hspeaks := h.speaks m hx
    have hsame := h.inFlight
    obtain ⟨a', b', turn, inFlight, toBob, toAlice⟩ := y
    obtain ⟨a₁, b₁, turn₁, inFlight₁, toBob₁, toAlice₁⟩ := x
    dsimp only at hx hturn hspeaks hsame
    subst hx hturn
    cases inFlight with
    | none => exact absurd hsame.symm hspeaks
    | some m' =>
      have hm : rangeParts m'.parts = rangeParts m.parts := hsame
      have hA := h.toAlice
      have hB := h.toBob
      cases turn with
      | bob =>
        obtain ⟨reply, hr, hx'⟩ := bind_eq_ok.1 hstep
        cases hx'
        obtain ⟨reply', hr', hfollows, hspoken⟩ := follows_step h.bob statusB hm hr
        refine ⟨⟨a', (processMessage default (gated gateB) statusB b' m').store, .alice, reply', toBob,
          toAlice ++ reply'.toList⟩, gotA, gotB ++ entriesOf m, ?_,
          ⟨h.alice, hfollows, hspoken, ?_, fun _ => rfl, ?_, ?_⟩⟩
        · exact bind_eq_ok.2 ⟨reply', hr', rfl⟩
        · rintro m₂ rfl
          exact spoken_ne_nil hr
        · simp only [awaited, reduceCtorEq, if_false, if_true, List.append_nil, List.flatMap_append] at hA ⊢
          rw [hA]
        · simp only [awaited, reduceCtorEq, if_false, if_true, List.append_nil] at hB ⊢
          simpa using hB
      | alice =>
        obtain ⟨reply, hr, hx'⟩ := bind_eq_ok.1 hstep
        cases hx'
        obtain ⟨reply', hr', hfollows, hspoken⟩ := follows_step h.alice statusA hm hr
        refine ⟨⟨(processMessage default (gated gateA) statusA a' m').store, b', .bob, reply',
          toBob ++ reply'.toList, toAlice⟩, gotA ++ entriesOf m, gotB, ?_,
          ⟨hfollows, h.bob, hspoken, ?_, fun _ => rfl, ?_, ?_⟩⟩
        · exact bind_eq_ok.2 ⟨reply', hr', rfl⟩
        · rintro m₂ rfl
          exact spoken_ne_nil hr
        · simp only [awaited, reduceCtorEq, if_false, if_true, List.append_nil] at hA ⊢
          simpa using hA
        · simp only [awaited, reduceCtorEq, if_false, if_true, List.append_nil, List.flatMap_append] at hB ⊢
          rw [hB]

/-- Run: message by message, and once more for the rejections. -/
theorem beside_run (n : Nat) (h : Beside gateA gateB (session a fA) (session b fB) gotA gotB x y)
    (hrun : x.run statusA statusB n = .ok x') (hx' : x'.inFlight = none) :
    ∃ y' gotA' gotB', y.runWith (gated gateA) (gated gateB) statusA statusB (n + 1) = .ok y' ∧
      y'.inFlight = none ∧ Beside gateA gateB (session a fA) (session b fB) gotA' gotB' x' y' := by
  induction n generalizing x y gotA gotB with
  | zero =>
    cases hrun
    obtain ⟨y', hy, hnone, hbeside⟩ := beside_idle statusA statusB h hx'
    exact ⟨y', gotA, gotB, by simp [Exchange.runWith, hy, bind, Except.bind], hnone, hbeside⟩
  | succ n ih =>
    obtain ⟨x₁, hstep, hrun⟩ := bind_eq_ok.1 hrun
    obtain ⟨y₁, gotA₁, gotB₁, hy, hbeside⟩ := beside_step statusA statusB h hstep
    obtain ⟨y', gotA', gotB', hy', hres⟩ := ih hbeside hrun
    exact ⟨y', gotA', gotB', bind_eq_ok.2 ⟨y₁, hy, hy'⟩, hres⟩

end Run

/-! ## What is sent is what is served -/

variable [RangeKey K]

section Served

variable {dom : Set K} {viewA liveA : A → List E} {viewB liveB : B → List E} {freshA freshB : Prop}
  (statusA statusB : E → ContentStatus) {oA oB : Origin E K V} {x x' : Exchange A B E K R}

/-- Each side has sent entries it serves, and no others. -/
structure SentServed (oA oB : Origin E K V) (x : Exchange A B E K R) : Prop where
  toBob : ∀ e ∈ x.aliceToBob.flatMap entriesOf, e ∈ oA.serves
  toAlice : ∀ e ∈ x.bobToAlice.flatMap entriesOf, e ∈ oB.serves

omit [Inhabited K] in
theorem InFlight.serves {o o' : Origin E K V} {X Y : Party E K} {m : Message E K R} {n : Nat}
    (h : InFlight dom o o' X Y m.parts n) : ∀ e ∈ entriesOf m, e ∈ o.serves := by
  intro e he
  obtain ⟨v, hv, rfl⟩ := List.mem_map.1 he
  obtain ⟨it, hit, hv⟩ := List.mem_flatMap.1 hv
  exact (h.item_ok it hit v hv).2.1

omit [LinearOrder K] [RangeKey K] [LinearOrder V] [RangeEntry E K V R] [Blake3] [Inhabited K] in
theorem serves_append {o : Origin E K V} {log : List (Message E K R)}
    (h : ∀ e ∈ log.flatMap entriesOf, e ∈ o.serves) {reply : Option (Message E K R)}
    (hreply : ∀ m, reply = some m → ∀ e ∈ entriesOf m, e ∈ o.serves) :
    ∀ e ∈ (log ++ reply.toList).flatMap entriesOf, e ∈ o.serves := by
  intro e he
  rw [List.flatMap_append] at he
  rcases List.mem_append.1 he with he | he
  · exact h e he
  · cases reply with
    | none => cases he
    | some m => exact hreply m rfl e (by simpa using he)

omit [Inhabited K] in
theorem sentServed_step {n : Nat} (h : SentServed oA oB x) (hstep : x.step statusA statusB = .ok x')
    (hs : x'.Sound dom viewA liveA viewB liveB oA oB n) : SentServed oA oB x' := by
  obtain ⟨a, b, turn, inFlight, toBob, toAlice⟩ := x
  cases inFlight with
  | none => cases hstep; exact h
  | some m =>
    cases turn with
    | bob =>
      obtain ⟨reply, -, hx⟩ := bind_eq_ok.1 hstep
      cases hx
      refine ⟨h.toBob, serves_append h.toAlice ?_⟩
      rintro m' rfl
      exact InFlight.serves hs
    | alice =>
      obtain ⟨reply, -, hx⟩ := bind_eq_ok.1 hstep
      cases hx
      refine ⟨serves_append h.toBob ?_, h.toAlice⟩
      rintro m' rfl
      exact InFlight.serves hs

variable (hA : Peer A dom viewA liveA freshA) (hB : Peer B dom viewB liveB freshB)
  (hmA : oA.Meets dom freshA oB) (hmB : oB.Meets dom freshB oA)

include hA hB hmA hmB

theorem sentServed_run (k : Nat) {n : Nat} (h : SentServed oA oB x) (hrun : x.run statusA statusB k = .ok x')
    (hs : x.Sound dom viewA liveA viewB liveB oA oB n) (ht : x.Tells viewA viewB statusA statusB) :
    SentServed oA oB x' := by
  induction k generalizing x n with
  | zero => cases hrun; exact h
  | succ k ih =>
    obtain ⟨x₁, hstep, hrun⟩ := bind_eq_ok.1 hrun
    obtain ⟨x₂, hstep', hs', -⟩ := sound_step statusA statusB hA hB hmA hmB x hs ht
    obtain rfl : x₁ = x₂ := Except.ok.inj (hstep.symm.trans hstep')
    exact ih (sentServed_step statusA statusB h hstep hs') hrun hs' (ht.next hstep)

end Served

/-! ## Reconciliation behind gates -/

section Theorems

omit [LinearOrder K] [RangeKey K] in
/-- At the start the exchange behind gates is the one without. -/
theorem beside_start (gateA gateB : E → ValidateOutcome) {a : A} {b : B} {fA fB : Option (E → Bool)}
    {x : Exchange (SessionStore (Snapshotted A) E) (SessionStore (Snapshotted B) E) E K R}
    (hstart : Exchange.start (session a fA) (session b fB) = .ok x) (oA oB : Origin E K V) :
    Beside gateA gateB (session a fA) (session b fB) [] [] x x ∧ SentServed oA oB x := by
  obtain ⟨m, hm, hx⟩ := bind_eq_ok.1 hstart
  obtain ⟨k, -, hm⟩ := bind_eq_ok.1 hm
  obtain ⟨fp, -, hm⟩ := bind_eq_ok.1 hm
  cases hm
  cases hx
  refine ⟨⟨⟨rfl, rfl, rfl⟩, ⟨rfl, rfl, rfl⟩, rfl, fun _ _ => ?_, fun _ => rfl, rfl, rfl⟩,
    fun e he => ?_, fun e he => ?_⟩
  · simp [spoken, replyParts?, rangeParts]
  · cases he
  · cases he

/-- What a session over a store that holds `live` begins with. -/
def sessionOrigin (live : List E) (f : Option (E → Bool)) : Origin E K V :=
  ⟨stamps live, stamps (admits f live), {e | e ∈ admits f live}⟩

omit [Blake3] in
theorem mem_admits {f : Option (E → Bool)} {l : List E} {e : E} (h : e ∈ admits f l) : e ∈ l :=
  (List.mem_filter.1 h).1

omit [LinearOrder K] [RangeKey K] [LinearOrder V] [Inhabited K] [Blake3] in
theorem meets_session {dom : Set K} {l' : List E} (hdom : ∀ e ∈ l', key e ∈ dom) (l : List E)
    (f f' : Option (E → Bool)) : (sessionOrigin l f).Meets dom False (sessionOrigin l' f') where
  mem_dom _ he := hdom _ (mem_admits he)
  stamp_mem _ he := .inr (stamp_mem_stamps he)
  fresh := False.elim

omit [Inhabited K] [Blake3] in
theorem holding_sessionOrigin {l : List E} (hs : SortedBy key l) (hanti : IsAntichain (· ≤ ·) (stamps l))
    (f : Option (E → Bool)) (o' : Origin E K V) : Holding (sessionOrigin l f) o' (admits f l) l where
  sorted := hs.filter _
  view_serves _ he := he
  view_has _ he := subset_lowerClosure (stamp_mem_stamps (mem_admits he))
  antichain := hanti
  live_sub := Set.subset_union_left
  base_has _ hx := subset_lowerClosure hx
  start_has _ hx := subset_lowerClosure hx

omit [Blake3] [Inhabited K] in
/-- Once the exchange without gates is settled, everything served was received, or was known before. -/
theorem received_or_has {dom : Set K} {live : S → List E} (hw : LawfulWrites S dom live) {s : S}
    {served got : List E} (hanti : IsAntichain (· ≤ ·) (stamps (live s))) (hsorted : SortedBy key served)
    (hserved : IsAntichain (· ≤ ·) (stamps served)) (hdom : ∀ e ∈ served, key e ∈ dom)
    (hsub : ∀ e ∈ got, e ∈ served) (hlive : ∀ e ∈ served, Has (live (puts s got)) e) :
    ∀ e ∈ served, e ∈ got ∨ Has (live s) e := by
  intro e he
  have hself : Reduct (stamps (live s)) (stamps (live s)) := ⟨hanti, Set.Subset.rfl, subset_lowerClosure⟩
  have hred := reduct_puts hw hself got fun _ he => hdom _ (hsub _ he)
  obtain ⟨x, hx, hle⟩ := hlive e he
  rcases hred.subset hx with hx | ⟨e', he', rfl⟩
  · exact .inr ⟨x, hx, hle⟩
  · -- superseded by an entry served next to it: the entry itself
    left
    have hstamp : stamp e = stamp e' :=
      hserved.eq (stamp_mem_stamps he) (stamp_mem_stamps (hsub e' he')) hle
    have hkey : key e = key e' := congrArg Stamp.key hstamp
    rw [hsorted.eq_of_key he (hsub e' he') hkey]
    exact he'

/-- A side of a settled exchange, behind its gate. -/
theorem Follows.reconciled {dom : Set K} {live : S → List E} (hr : LawfulReads S dom live)
    (hw : LawfulWrites S dom live) {gate : E → ValidateOutcome} {s₀ : S} {f : Option (E → Bool)}
    {got served : List E} {t s : SessionStore (Snapshotted S) E} {said : List (Message E K R)}
    (h : Follows gate (session s₀ f) got t s said) (hanti : IsAntichain (· ≤ ·) (stamps (live s₀)))
    (hsorted : SortedBy key served) (hserved : IsAntichain (· ≤ ·) (stamps served))
    (hdom : ∀ e ∈ served, key e ∈ dom) (hsub : ∀ e ∈ got, e ∈ served) (hnodup : (got.map key).Nodup)
    (hlive : ∀ e ∈ served, Has (live t.inner.live) e) :
    Reconciled gate (live s₀) served (live s.inner.live) (sentRejections said) := by
  have hp := Peer.ofSession hr hw
  obtain ⟨rfl, rfl, hnamed⟩ := h
  rw [hnamed]
  exact reconciled_of_received hp (s := session s₀ f) hanti hdom hsub hnodup
    (received_or_has hp.writes hanti hsorted hserved hdom hsub hlive)

omit [Inhabited K] [Blake3] in
theorem isAntichain_admits {l : List E} (h : IsAntichain (· ≤ ·) (stamps l)) (f : Option (E → Bool)) :
    IsAntichain (· ≤ ·) (stamps (admits f l)) := by
  refine h.subset ?_
  rintro _ ⟨e, he, rfl⟩
  exact stamp_mem_stamps (mem_admits he)

variable {dom : Set K} {liveA : A → List E} {liveB : B → List E}
  (hrA : LawfulReads A dom liveA) (hwA : LawfulWrites A dom liveA)
  (hrB : LawfulReads B dom liveB) (hwB : LawfulWrites B dom liveB)
  (statusA statusB : E → ContentStatus) {a : A} {b : B}

include hrA hwA hrB hwB

/-- A session behind gates, from its first message to its last. -/
theorem exists_reconciled_run (gateA gateB : E → ValidateOutcome)
    (ha : IsAntichain (· ≤ ·) (stamps (liveA a))) (hb : IsAntichain (· ≤ ·) (stamps (liveB b)))
    (fA fB : Option (E → Bool))
    (ht : RangesTell (admits fA (liveA a)) (admits fB (liveB b))) :
    ∃ (n : Nat) (x₀ x : Exchange (SessionStore (Snapshotted A) E) (SessionStore (Snapshotted B) E) E K R),
      Exchange.start (session a fA) (session b fB) = .ok x₀ ∧
      x₀.runWith (gated gateA) (gated gateB) statusA statusB n = .ok x ∧ x.inFlight = none ∧
      Reconciled gateA (liveA a) (admits fB (liveB b)) (liveA x.alice.inner.live)
        (sentRejections x.aliceToBob) ∧
      Reconciled gateB (liveB b) (admits fA (liveA a)) (liveB x.bob.inner.live)
        (sentRejections x.bobToAlice) := by
  have hA := Peer.ofSession hrA hwA
  have hB := Peer.ofSession hrB hwB
  have hmA := meets_session (hrB.mem_dom b) (liveA a) fA fB
  have hmB := meets_session (hrA.mem_dom a) (liveB b) fB fA
  obtain ⟨x₀, hstart, hsound⟩ := sound_start (served liveB) (fun s => liveB s.inner.live) hA (R := R)
    (a := session a fA) (b := session b fB)
    (holding_sessionOrigin (hrA.sorted a) ha fA _) (holding_sessionOrigin (hrB.sorted b) hb fB _)
  have htells : x₀.Tells (served liveA) (served liveB) statusA statusB := tells_session hstart ht
  obtain ⟨x, hrun, hnone, hsettled⟩ := sound_run statusA statusB hA hB hmA hmB _ x₀ hsound htells
  obtain ⟨hbeside, hsent⟩ := beside_start gateA gateB hstart (sessionOrigin (liveA a) fA)
    (sessionOrigin (liveB b) fB)
  have hserved := sentServed_run statusA statusB hA hB hmA hmB _ hsent hrun hsound htells
  obtain ⟨y, gotA, gotB, hrun', hnone', h⟩ := beside_run statusA statusB _ hbeside hrun hnone
  have hgotA : x.bobToAlice.flatMap entriesOf = gotA := by simpa [awaited, hnone] using h.toAlice
  have hgotB : x.aliceToBob.flatMap entriesOf = gotB := by simpa [awaited, hnone] using h.toBob
  have hviewA : admits x.alice.filter (liveA x.alice.inner.snapshot) = admits fA (liveA a) := by
    rw [h.alice.free, puts_session]
  have hviewB : admits x.bob.filter (liveB x.bob.inner.snapshot) = admits fB (liveB b) := by
    rw [h.bob.free, puts_session]
  refine ⟨_, x₀, y, hstart, hrun', hnone', ?_, ?_⟩
  · refine h.alice.reconciled hrA hwA ha ((hrB.sorted b).filter _) (isAntichain_admits hb fB)
      (fun e he => hrB.mem_dom b e (mem_admits he)) ?_ ?_ ?_
    · rw [← hgotA]
      exact hserved.toAlice
    · rw [← hgotA, keys_entriesOf]
      exact hsettled.right_sent
    · rw [← hviewB]
      exact hsettled.known
  · refine h.bob.reconciled hrB hwB hb ((hrA.sorted a).filter _) (isAntichain_admits ha fA)
      (fun e he => hrA.mem_dom a e (mem_admits he)) ?_ ?_ ?_
    · rw [← hgotB]
      exact hserved.toBob
    · rw [← hgotB, keys_entriesOf]
      exact hsettled.left_sent
    · rw [← hviewA]
      exact hsettled.knows

/-- The same session, and how long it takes. -/
theorem exists_paced_run (gateA gateB : E → ValidateOutcome)
    (ha : IsAntichain (· ≤ ·) (stamps (liveA a))) (hb : IsAntichain (· ≤ ·) (stamps (liveB b)))
    (fA fB : Option (E → Bool))
    (ht : RangesTell (admits fA (liveA a)) (admits fB (liveB b))) {n : Nat}
    (hn : n = min (2 * Nat.clog 2 (admits fB (liveB b)).length)
      (2 * Nat.clog 2 (admits fA (liveA a)).length + 1) + 3) :
    ∃ x₀ x y : Exchange (SessionStore (Snapshotted A) E) (SessionStore (Snapshotted B) E) E K R,
      Exchange.start (session a fA) (session b fB) = .ok x₀ ∧
      x₀.run statusA statusB n = .ok x ∧ x.inFlight = none ∧
      x₀.runWith (gated gateA) (gated gateB) statusA statusB (n + 1) = .ok y ∧ y.inFlight = none := by
  have hA := Peer.ofSession hrA hwA
  have hB := Peer.ofSession hrB hwB
  have hmA := meets_session (hrB.mem_dom b) (liveA a) fA fB
  have hmB := meets_session (hrA.mem_dom a) (liveB b) fB fA
  obtain ⟨x₀, hstart, hsound⟩ := sound_start (served liveB) (fun s => liveB s.inner.live) hA (R := R)
    (a := session a fA) (b := session b fB)
    (holding_sessionOrigin (hrA.sorted a) ha fA _) (holding_sessionOrigin (hrB.sorted b) hb fB _)
  have hpaced := paced_start hstart (served liveA) (served liveB)
  subst hn
  obtain ⟨x, hrun, hnone⟩ := paced_run statusA statusB hA hB hmA hmB _ hsound (tells_session hstart ht) hpaced
    fun _ => Nat.succ_pos _
  obtain ⟨hbeside, -⟩ := beside_start gateA gateB hstart (sessionOrigin (liveA a) fA)
    (sessionOrigin (liveB b) fB)
  obtain ⟨y, -, -, hrun', hnone', -⟩ := beside_run statusA statusB _ hbeside hrun hnone
  exact ⟨x₀, x, y, hstart, hrun, hnone, hrun', hnone'⟩

/-- **Reconciliation behind gates.** -/
theorem gated_exchange_reconciles (gateA gateB : E → ValidateOutcome)
    (ha : IsAntichain (· ≤ ·) (stamps (liveA a))) (hb : IsAntichain (· ≤ ·) (stamps (liveB b)))
    (fA fB : Option (E → Bool))
    (ht : RangesTell (admits fA (liveA a)) (admits fB (liveB b))) :
    ∃ (n : Nat) (x₀ x : Exchange (SessionStore (Snapshotted A) E) (SessionStore (Snapshotted B) E) E K R),
      Exchange.start (session a fA) (session b fB) = .ok x₀ ∧
      x₀.runWith (gated gateA) (gated gateB) statusA statusB n = .ok x ∧ x.inFlight = none ∧
      Reconciled gateA (liveA a) (admits fB (liveB b)) (liveA x.alice.inner.live)
        (sentRejections x.aliceToBob) ∧
      Reconciled gateB (liveB b) (admits fA (liveA a)) (liveB x.bob.inner.live)
        (sentRejections x.bobToAlice) :=
  exists_reconciled_run hrA hwA hrB hwB statusA statusB gateA gateB ha hb fA fB ht

/-- **A session takes a number of messages logarithmic in the smaller view**, and behind gates at most one
more. -/
theorem gated_exchange_paced (gateA gateB : E → ValidateOutcome)
    (ha : IsAntichain (· ≤ ·) (stamps (liveA a))) (hb : IsAntichain (· ≤ ·) (stamps (liveB b)))
    (fA fB : Option (E → Bool))
    (ht : RangesTell (admits fA (liveA a)) (admits fB (liveB b))) {n : Nat}
    (hn : n = min (2 * Nat.clog 2 (admits fB (liveB b)).length)
      (2 * Nat.clog 2 (admits fA (liveA a)).length + 1) + 3) :
    ∃ x₀ x y : Exchange (SessionStore (Snapshotted A) E) (SessionStore (Snapshotted B) E) E K R,
      Exchange.start (session a fA) (session b fB) = .ok x₀ ∧
      x₀.run statusA statusB n = .ok x ∧ x.inFlight = none ∧
      x₀.runWith (gated gateA) (gated gateB) statusA statusB (n + 1) = .ok y ∧ y.inFlight = none :=
  exists_paced_run hrA hwA hrB hwB statusA statusB gateA gateB ha hb fA fB ht hn

/-- **Retraction heals.** Alice takes in whatever bob has, bob drops nothing of hers in silence. After
one session alice takes back what bob's rejections named, and perhaps more. The next session leaves
both with what bob held after the first, and bob has nothing left to reject. -/
theorem retraction_heals (gateA gateB : E → ValidateOutcome)
    (ha : IsAntichain (· ≤ ·) (stamps (liveA a))) (hb : IsAntichain (· ≤ ·) (stamps (liveB b)))
    (haccept : ∀ e, e ∈ liveA a ∨ e ∈ liveB b → gateA e = .accept) (hdrop : ∀ e ∈ liveA a, gateB e ≠ .drop)
    (ht : RangesTell (liveA a) (liveB b)) :
    ∃ (n : Nat) (x₀ x : Exchange (SessionStore (Snapshotted A) E) (SessionStore (Snapshotted B) E) E K R),
      Exchange.start (session a none) (session b none) = .ok x₀ ∧
      x₀.runWith (gated gateA) (gated gateB) statusA statusB n = .ok x ∧ x.inFlight = none ∧
      ∀ a' : A, (∀ e ∈ liveA a', e ∈ liveA x.alice.inner.live ∧ rejectId e ∉ sentRejections x.bobToAlice) →
        RangesTell (liveA a') (liveB x.bob.inner.live) →
        ∃ (n' : Nat) (y₀ y : Exchange (SessionStore (Snapshotted A) E) (SessionStore (Snapshotted B) E) E K R),
          Exchange.start (session a' none) (session x.bob.inner.live none) = .ok y₀ ∧
          y₀.runWith (gated gateA) (gated gateB) statusA statusB n' = .ok y ∧ y.inFlight = none ∧
          stamps (liveA y.alice.inner.live) = stamps (liveB x.bob.inner.live) ∧
          stamps (liveB y.bob.inner.live) = stamps (liveB x.bob.inner.live) ∧
          sentRejections y.bobToAlice = [] := by
  have hall : ∀ l : List E, admits none l = l := fun l => List.filter_eq_self.2 fun _ _ => rfl
  obtain ⟨n, x₀, x, hstart, hrun, hnone, hA, hB⟩ := exists_reconciled_run (R := R) hrA hwA hrB hwB statusA
    statusB gateA gateB ha hb none none (by rwa [hall, hall])
  rw [hall] at hA hB
  refine ⟨n, x₀, x, hstart, hrun, hnone, fun a' ha' ht' => ?_⟩
  -- where the entries of the second session come from
  have hfromA : ∀ e ∈ liveA a', e ∈ liveA a ∨ e ∈ liveB b := fun e he =>
    (hA.origin e (ha' e he).1).imp_right fun h => (mem_letIn.1 h).1
  have hfromB : ∀ e ∈ liveB x.bob.inner.live, e ∈ liveA a ∨ e ∈ liveB b := fun e he =>
    (hB.origin e he).symm.imp_left fun h => (mem_letIn.1 h).1
  have hanti' : IsAntichain (· ≤ ·) (stamps (liveA a')) := by
    refine hA.reduct.antichain.subset ?_
    rintro _ ⟨e, he, rfl⟩
    exact stamp_mem_stamps (ha' e he).1
  have hhas : ∀ e ∈ liveA a', Has (liveB x.bob.inner.live) e := fun e he =>
    has_of_not_named hA hB hdrop (ha' e he).1 (ha' e he).2
  obtain ⟨n', y₀, y, hstart', hrun', hnone', hA', hB'⟩ := exists_reconciled_run (R := R) hrA hwA hrB hwB
    statusA statusB gateA gateB hanti' hB.reduct.antichain none none (by rwa [hall, hall])
  rw [hall] at hA' hB'
  refine ⟨n', y₀, y, hstart', hrun', hnone', ?_, ?_, ?_⟩
  · -- alice takes in all that bob holds, and holds nothing bob does not know
    have hin : letIn gateA (liveB x.bob.inner.live) = liveB x.bob.inner.live :=
      List.filter_eq_self.2 fun e he => by simpa using haccept e (hfromB e he)
    have hbob : Reduct (stamps (liveB x.bob.inner.live))
        (stamps (liveA a') ∪ stamps (liveB x.bob.inner.live)) := by
      refine ⟨hB.reduct.antichain, Set.subset_union_right, ?_⟩
      rintro _ (⟨e, he, rfl⟩ | hx)
      · exact hhas e he
      · exact subset_lowerClosure hx
    have halice := hA'.reduct
    rw [hin] at halice
    exact halice.eq_maximals.trans hbob.eq_maximals.symm
  · -- nothing of alice's is news to bob
    have hbob : Reduct (stamps (liveB x.bob.inner.live))
        (stamps (liveB x.bob.inner.live) ∪ stamps (letIn gateB (liveA a'))) := by
      refine ⟨hB.reduct.antichain, Set.subset_union_left, ?_⟩
      rintro _ (hx | ⟨e, he, rfl⟩)
      · exact subset_lowerClosure hx
      · exact hhas e (mem_letIn.1 he).1
    exact hB'.reduct.eq_maximals.trans hbob.eq_maximals.symm
  · obtain ⟨l, hl, -, hnews⟩ := hB'.names
    have hnil : l = [] := List.eq_nil_iff_forall_not_mem.2 fun e he =>
      (hnews e he).2.2 (hhas e (hnews e he).1)
    rw [hl, hnil]
    rfl

end Theorems

end

/-! ## An instance -/

section

local instance gatedDigests : Blake3 := sampleDigests

theorem sample_antichain (l : List (Bytes × Nat)) :
    IsAntichain (· ≤ ·) (stamps (puts (default : SimpleStore Bytes Nat) l).entries) :=
  antichain_of_reachable SimpleStore.lawfulWrites
    (reachable_puts (.empty rfl) l fun _ _ => Set.mem_univ _)

/-- Alice holds `[1]`, bob `[1, 2]` and `[7]`. -/
theorem sample_entries : (puts (default : SimpleStore Bytes Nat) [([1], 4)]).entries = [([1], 4)] ∧
    (puts (default : SimpleStore Bytes Nat) [([1, 2], 3), ([7], 1)]).entries = [([1, 2], 3), ([7], 1)] := by
  decide

/-- Both hold some of `sampleEntries`, whatever they serve of it. -/
theorem sample_tell (fA fB : Option (Bytes × Nat → Bool)) :
    RangesTell (admits fA (puts (default : SimpleStore Bytes Nat) [([1], 4)]).entries)
      (admits fB (puts (default : SimpleStore Bytes Nat) [([1, 2], 3), ([7], 1)]).entries) := by
  rw [sample_entries.1, sample_entries.2]
  exact sampleDigests_tell (List.filter_sublist.trans (by decide)) (List.filter_sublist.trans (by decide))

/-- Bob rejects everything: he ends with what he had, and has told alice. -/
theorem gated_exchange_reconciles_simpleStore :
    ∃ (n : Nat) (x₀ x : Exchange (SessionStore (Snapshotted (SimpleStore Bytes Nat)) (Bytes × Nat))
        (SessionStore (Snapshotted (SimpleStore Bytes Nat)) (Bytes × Nat)) (Bytes × Nat) Bytes Unit),
      Exchange.start (session (puts default [([1], 4)]) none)
        (session (puts default [([1, 2], 3), ([7], 1)]) none) = .ok x₀ ∧
      x₀.runWith (gated fun _ => .accept) (gated fun _ => .reject) (fun _ => .complete) (fun _ => .missing) n =
        .ok x ∧ x.inFlight = none ∧ () ∈ sentRejections x.bobToAlice := by
  obtain ⟨n, x₀, x, hstart, hrun, hnone, -, hB⟩ := gated_exchange_reconciles SimpleStore.lawfulReads
    SimpleStore.lawfulWrites SimpleStore.lawfulReads SimpleStore.lawfulWrites (fun _ => .complete)
    (fun _ => .missing) (fun _ => .accept) (fun _ => .reject) (sample_antichain [([1], 4)])
    (sample_antichain [([1, 2], 3), ([7], 1)]) none none (sample_tell none none)
  refine ⟨n, x₀, x, hstart, hrun, hnone, ?_⟩
  have hserved : ((([1], 4) : Bytes × Nat)) ∈
      admits none (puts (default : SimpleStore Bytes Nat) [([1], 4)]).entries := by
    rw [sample_entries.1]
    exact List.mem_singleton_self _
  refine (hB.told _ hserved rfl).resolve_left ?_
  rintro ⟨y, hy, hle⟩
  rcases hB.reduct.subset hy with hy | ⟨e, he, -⟩
  · rw [sample_entries.2] at hy
    obtain ⟨e, he, rfl⟩ := hy
    simp only [List.mem_cons, List.not_mem_nil, or_false] at he
    rcases he with rfl | rfl <;> exact absurd hle (by decide)
  · exact absurd (mem_letIn.1 he).2 (by decide)

/-- One entry against two: four messages at most without gates, five behind them. -/
theorem gated_exchange_paced_simpleStore :
    ∃ x₀ x y : Exchange (SessionStore (Snapshotted (SimpleStore Bytes Nat)) (Bytes × Nat))
        (SessionStore (Snapshotted (SimpleStore Bytes Nat)) (Bytes × Nat)) (Bytes × Nat) Bytes Unit,
      Exchange.start (session (puts default [([1], 4)]) none)
        (session (puts default [([1, 2], 3), ([7], 1)]) none) = .ok x₀ ∧
      x₀.run (fun _ => .complete) (fun _ => .missing) 4 = .ok x ∧ x.inFlight = none ∧
      x₀.runWith (gated fun _ => .accept) (gated fun _ => .reject) (fun _ => .complete) (fun _ => .missing) 5 =
        .ok y ∧ y.inFlight = none := by
  refine gated_exchange_paced SimpleStore.lawfulReads
    SimpleStore.lawfulWrites SimpleStore.lawfulReads SimpleStore.lawfulWrites (fun _ => .complete)
    (fun _ => .missing) (fun _ => .accept) (fun _ => .reject) (sample_antichain [([1], 4)])
    (sample_antichain [([1, 2], 3), ([7], 1)]) none none (sample_tell none none) ?_
  rw [sample_entries.1, sample_entries.2]
  decide

/-- Two sides of simple stores. -/
abbrev SampleExchange := Exchange (SessionStore (Snapshotted (SimpleStore Bytes Nat)) (Bytes × Nat))
  (SessionStore (Snapshotted (SimpleStore Bytes Nat)) (Bytes × Nat)) (Bytes × Nat) Bytes Unit

/-- The exchange in which bob rejects everything. -/
def refusedRun (n : Nat) : Except Fault SampleExchange := do
  let x ← Exchange.start (session (puts default [([1], 4)]) none)
    (session (puts default [([1, 2], 3), ([7], 1)]) none)
  x.runWith (gated fun _ => .accept) (gated fun _ => .reject) (fun _ => .complete) (fun _ => .missing) n

/-- When it is over, bob has what he had. -/
theorem refusedRun_bob {n : Nat} {x : SampleExchange} (hrun : refusedRun n = .ok x) (hover : x.inFlight = none) :
    x.bob.inner.live.entries = [([1, 2], 3), ([7], 1)] := by
  have hfive : (refusedRun 5).toOption.map (fun x => (x.inFlight, x.bob.inner.live.entries)) =
      some (none, [([1, 2], 3), ([7], 1)]) := by decide +kernel
  cases hrun' : refusedRun 5 with
  | error fault =>
    rw [hrun'] at hfive
    cases hfive
  | ok y =>
    rw [hrun'] at hfive
    obtain ⟨hnone, hentries⟩ := Prod.mk.inj (Option.some.inj hfive)
    obtain ⟨x₀, hstart, hrun⟩ := bind_eq_ok.1 hrun
    obtain ⟨x₁, hstart', hrun'⟩ := bind_eq_ok.1 hrun'
    obtain rfl : x₀ = x₁ := Except.ok.inj (hstart.symm.trans hstart')
    rw [Exchange.runWith_unique hrun hover hrun' hnone]
    exact hentries

/-- Alice takes everything back: the second session gives her what bob has. -/
theorem retraction_heals_simpleStore :
    ∃ (n : Nat) (y₀ y : Exchange (SessionStore (Snapshotted (SimpleStore Bytes Nat)) (Bytes × Nat))
        (SessionStore (Snapshotted (SimpleStore Bytes Nat)) (Bytes × Nat)) (Bytes × Nat) Bytes Unit) (b : _),
      Exchange.start (session default none) (session b none) = .ok y₀ ∧
      y₀.runWith (gated fun _ => .accept) (gated fun _ => .reject) (fun _ => .complete) (fun _ => .missing) n =
        .ok y ∧
      stamps y.alice.inner.live.entries = stamps (SimpleStore.entries b) ∧
      SimpleStore.entries b = [([1, 2], 3), ([7], 1)] ∧ sentRejections y.bobToAlice = [] := by
  obtain ⟨n, x₀, x, hstart, hrun, hover, hsecond⟩ := retraction_heals (R := Unit) SimpleStore.lawfulReads
    SimpleStore.lawfulWrites SimpleStore.lawfulReads SimpleStore.lawfulWrites (fun _ => .complete)
    (fun _ => .missing) (fun _ => .accept) (fun _ => .reject) (sample_antichain [([1], 4)])
    (sample_antichain [([1, 2], 3), ([7], 1)]) (fun _ _ => rfl) (by simp)
    (sampleDigests_tell (by decide) (by decide))
  have hbob := refusedRun_bob (bind_eq_ok.2 ⟨x₀, hstart, hrun⟩) hover
  have hnothing : (default : SimpleStore Bytes Nat).entries = [] := rfl
  obtain ⟨n, y₀, y, hstart, hrun, -, hA, -, hquiet⟩ := hsecond default (by simp [hnothing])
    (by rw [hbob]; exact sampleDigests_tell (by decide) (by decide))
  exact ⟨n, y₀, y, x.bob.inner.live, hstart, hrun, hA, hbob, hquiet⟩

end

end PdnStore.Session

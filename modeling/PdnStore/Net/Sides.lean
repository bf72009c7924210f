import PdnStore.Net.Exchange

/-!
# The two sides of an exchange (codec.rs:101-276)

An exchange interleaves one run of `run_alice` with one of `BobState::run`. Each side has read, in order,
frames the other one wrote, and the rest of them is still in flight; and what it has returned is what its
function returns on the frames it read (`exchange_runs_both_sides`).
-/

namespace PdnStore.Net

open Sync

/-- Frames read by the initiator, with what the calls made on each came back with. -/
def aliceReads (reads : List (Message × AliceAnswers)) : List AliceRead :=
  reads.map fun r => .frame r.1 r.2.turn

/-- Frames read by the accepting side. -/
def bobReads (reads : List (Message × BobAnswers)) : List Read := reads.map fun r => .frame r.1 r.2.turn

/-! ## What is written stays written -/

theorem append_nothing (sent : List Message) : ∃ written, sent = sent ++ written :=
  ⟨[], (List.append_nil _).symm⟩

theorem Alice.sent_orFail {α : Type} {call : Awaited α} {a : Alice} {k : α → Alice × AliceFlow}
    {sent : List Message} (ha : a.sent = sent) (hk : ∀ v, ∃ written, (k v).1.sent = sent ++ written) :
    ∃ written, (orFail call a k).1.sent = sent ++ written := by
  subst ha
  cases call with
  | ok v => exact hk v
  | err e => exact append_nothing a.sent
  | elapsed => exact append_nothing a.sent

theorem Alice.sent_start (a : Alice) (ns : NamespaceId) (sessionStart : Awaited Unit)
    (initialMessage : Awaited SyncMessage) (initSent : Awaited Unit) :
    ∃ written, (a.start ns sessionStart initialMessage initSent).1.sent = a.sent ++ written :=
  sent_orFail rfl fun _ => sent_orFail rfl fun message => sent_orFail rfl fun _ => ⟨[.init ns message], rfl⟩

theorem Alice.sent_onFrame (a : Alice) (msg : Message) (turn : AliceTurn) :
    ∃ written, (a.onFrame msg turn).1.sent = a.sent ++ written := by
  cases msg with
  | init ns m => exact append_nothing a.sent
  | abort reason => exact append_nothing a.sent
  | sync m =>
    refine sent_orFail rfl fun ⟨reply, progress⟩ => ?_
    cases reply with
    | none => exact append_nothing a.sent
    | some reply => exact sent_orFail rfl fun _ => ⟨[.sync reply], rfl⟩

theorem Conn.sent_orFail {α : Type} {call : Awaited α} {c : Conn} {k : α → Conn × Flow} {sent : List Message}
    (hc : c.sent = sent) (hk : ∀ v, ∃ written, (k v).1.sent = sent ++ written) :
    ∃ written, (call.orFail c k).1.sent = sent ++ written := by
  subst hc
  cases call with
  | ok v => exact hk v
  | err e => exact append_nothing c.sent
  | elapsed => exact append_nothing c.sent

theorem Conn.sent_reply (c : Conn) (turn : Turn) : ∃ written, (c.reply turn).1.sent = c.sent ++ written := by
  refine sent_orFail rfl fun ⟨reply, progress⟩ => ?_
  cases reply with
  | none => exact append_nothing c.sent
  | some reply => exact sent_orFail rfl fun _ => ⟨[.sync reply], rfl⟩

theorem Conn.sent_onInit (acceptCb : NamespaceId → Option AcceptOutcome) (c : Conn) (turn : Turn)
    (ns : NamespaceId) : ∃ written, (c.onInit acceptCb turn ns).1.sent = c.sent ++ written := by
  unfold Conn.onInit
  dsimp only
  split
  next => exact append_nothing c.sent
  next => exact sent_orFail rfl fun _ => Conn.sent_reply _ turn
  next reason _ => exact sent_orFail rfl fun _ => ⟨[.abort reason], rfl⟩

theorem Conn.sent_onFrame (acceptCb : NamespaceId → Option AcceptOutcome) (c : Conn) (msg : Message)
    (turn : Turn) : ∃ written, (c.onFrame acceptCb msg turn).1.sent = c.sent ++ written := by
  unfold Conn.onFrame
  split
  next ns _ _ => exact c.sent_onInit acceptCb turn ns
  next => exact c.sent_reply turn
  all_goals exact append_nothing c.sent

theorem Conn.sent_ended (c : Conn) (res : Except AcceptError NamespaceId) :
    ∃ written, (c.ended res).1.sent = c.sent ++ written := by
  unfold Conn.ended
  split
  next => exact append_nothing c.sent
  next => exact append_nothing c.sent
  next => exact ⟨[.abort .internalServerError], rfl⟩

/-! ## The functions on the frames read -/

/-- `BobState::run` once its rounds are over. -/
theorem Conn.run_of_runRounds {acceptCb : NamespaceId → Option AcceptOutcome} {c c' : Conn} {script : Script}
    {res : Except AcceptError NamespaceId} (hterm : script.terminalSent = .ok ())
    (h : c.runRounds acceptCb script.reads = (c', some res)) :
    c.run acceptCb script = ((c'.ended res).1, some (c'.ended res).2) := by
  unfold Conn.run
  rw [h, hterm]
  cases res with
  | ok ns => rfl
  | error e => cases e <;> rfl

/-- The initiator has run `run_alice` up to here. -/
inductive AliceSide (ns : NamespaceId) (x : Exchange) : Prop
  | idle (started : x.started = false) (alice : x.alice = .new) (inFlight : [] ++ x.toAlice = x.bob.sent)
  | running (sessionStart : Except String Unit) (initialMessage : Except String SyncMessage)
      (initSent : Except String Unit) (a₀ : Alice) (reads : List (Message × AliceAnswers))
      (started : x.started = true) (result : x.aliceRes = none)
      (start : Alice.new.start ns (.of sessionStart) (.of initialMessage) (.of initSent) = (a₀, .next))
      (consumed : Consumed Alice.runRounds a₀ x.alice (aliceReads reads))
      (inFlight : reads.map Prod.fst ++ x.toAlice = x.bob.sent)
  | returned (sessionStart : Except String Unit) (initialMessage : Except String SyncMessage)
      (initSent : Except String Unit) (reads : List (Message × AliceAnswers))
      (res : Except ConnectError SyncOutcome) (started : x.started = true) (result : x.aliceRes = some res)
      (run : runAlice ns ⟨.of sessionStart, .of initialMessage, .of initSent, aliceReads reads⟩ =
        (x.alice, some res))
      (inFlight : reads.map Prod.fst ++ x.toAlice = x.bob.sent)

/-- The accepting side has run `BobState::run` up to here. -/
inductive BobSide (peer : PublicKey) (acceptCb : NamespaceId → AcceptOutcome) (x : Exchange) : Prop
  | running (reads : List (Message × BobAnswers)) (result : x.bobRes = none)
      (consumed : Consumed (Conn.runRounds fun ns => some (acceptCb ns)) ⟨.new peer, [], []⟩ x.bob
        (bobReads reads))
      (inFlight : reads.map Prod.fst ++ x.toBob = x.alice.sent)
  | returned (reads : List (Message × BobAnswers)) (res : Except AcceptError NamespaceId)
      (result : x.bobRes = some res)
      (run : ∀ script : Script, script.reads = bobReads reads → script.terminalSent = .ok () →
        (⟨.new peer, [], []⟩ : Conn).run (fun ns => some (acceptCb ns)) script = (x.bob, some res))
      (inFlight : reads.map Prod.fst ++ x.toBob = x.alice.sent)

/-! ## Steps -/

section Steps

variable {peer : PublicKey} {ns : NamespaceId} {acceptCb : NamespaceId → AcceptOutcome} {x x' : Exchange}

/-- What is written joins what is in flight. -/
theorem read_append_inFlight {read inFlight sent sent' : List Message} (h : read ++ inFlight = sent)
    (hsent : ∃ written, sent' = sent ++ written) : read ++ (inFlight ++ sent'.drop sent.length) = sent' := by
  obtain ⟨written, rfl⟩ := hsent
  rw [List.drop_left, ← List.append_assoc, h]

/-- What the accepting side writes is in flight to the initiator. -/
theorem aliceSide_afterBob (h : AliceSide ns x) (rest : List Message) {c : Conn}
    (hsent : ∃ written, c.sent = x.bob.sent ++ written) (res : Option (Except AcceptError NamespaceId)) :
    AliceSide ns ({ x with toBob := rest }.afterBob c res) := by
  cases h with
  | idle hstarted halice hfl => exact .idle hstarted halice (read_append_inFlight hfl hsent)
  | running ss im is a₀ reads hstarted hres hstart hcons hfl =>
    exact .running ss im is a₀ reads hstarted hres hstart hcons (read_append_inFlight hfl hsent)
  | returned ss im is reads res hstarted hres hrun hfl =>
    exact .returned ss im is reads res hstarted hres hrun (read_append_inFlight hfl hsent)

/-- What the initiator writes is in flight to the accepting side. -/
theorem bobSide_afterAlice (h : BobSide peer acceptCb x) (started : Bool) (rest : List Message) {a : Alice}
    (hsent : ∃ written, a.sent = x.alice.sent ++ written) (res : Option (Except ConnectError SyncOutcome)) :
    BobSide peer acceptCb ({ x with started := started, toAlice := rest }.afterAlice a res) := by
  cases h with
  | running reads hres hcons hfl => exact .running reads hres hcons (read_append_inFlight hfl hsent)
  | returned reads res hres hrun hfl => exact .returned reads res hres hrun (read_append_inFlight hfl hsent)

/-- The initiator's first move. -/
theorem aliceSide_start (h : AliceSide ns x) (hstarted : x.started = false)
    (sessionStart : Except String Unit) (initialMessage : Except String SyncMessage)
    (initSent : Except String Unit)
    (hstep : { x with started := true }.aliceFlow
      (x.alice.start ns (.of sessionStart) (.of initialMessage) (.of initSent)) = some x') :
    AliceSide ns x' := by
  cases h with
  | idle _ halice hfl =>
    rw [halice] at hstep
    rcases heq : Alice.new.start ns (.of sessionStart) (.of initialMessage) (.of initSent) with ⟨a, flow⟩
    rw [heq] at hstep
    cases flow with
    | next =>
      cases hstep
      exact .running _ _ _ a [] rfl rfl heq consumed_nil hfl
    | done =>
      cases hstep
      exact .returned sessionStart initialMessage initSent [] (.ok a.progress) rfl rfl
        (by simp [runAlice, heq, Exchange.afterAlice]) hfl
    | fail e =>
      cases hstep
      exact .returned sessionStart initialMessage initSent [] (.error e) rfl rfl
        (by simp [runAlice, heq, Exchange.afterAlice]) hfl
    | elapsed => cases hstep
  | running _ _ _ _ _ hs => cases hstarted.symm.trans hs
  | returned _ _ _ _ _ hs => cases hstarted.symm.trans hs

/-- The initiator handles a frame. -/
theorem aliceSide_frame (h : AliceSide ns x) (hstarted : x.started = true) (hnone : x.aliceRes = none)
    {msg : Message} {rest : List Message} (htoAlice : x.toAlice = msg :: rest) (t : AliceAnswers)
    (hstep : { x with toAlice := rest }.aliceFlow (x.alice.onFrame msg t.turn) = some x') :
    AliceSide ns x' := by
  cases h with
  | idle hs => cases hstarted.symm.trans hs
  | returned _ _ _ _ _ _ hres => cases hnone.symm.trans hres
  | running ss im is a₀ reads _ _ hstart hcons hfl =>
    have hreads : aliceReads (reads ++ [(msg, t)]) = aliceReads reads ++ [.frame msg t.turn] := by
      simp [aliceReads]
    have hfl' : (reads ++ [(msg, t)]).map Prod.fst ++ rest = x.bob.sent := by
      rw [← hfl, htoAlice]
      simp
    rcases heq : x.alice.onFrame msg t.turn with ⟨a, flow⟩
    rw [heq] at hstep
    cases flow with
    | next =>
      cases hstep
      refine .running ss im is a₀ (reads ++ [(msg, t)]) hstarted rfl hstart ?_ hfl'
      rw [hreads]
      exact hcons.snoc fun rest => by simp [Alice.runRounds, heq, Exchange.afterAlice]
    | done =>
      cases hstep
      refine .returned ss im is (reads ++ [(msg, t)]) (.ok a.progress) hstarted rfl ?_ hfl'
      simp only [runAlice, hstart, hreads, hcons.last]
      simp [Alice.runRounds, heq, Exchange.afterAlice]
    | fail e =>
      cases hstep
      refine .returned ss im is (reads ++ [(msg, t)]) (.error e) hstarted rfl ?_ hfl'
      simp only [runAlice, hstart, hreads, hcons.last]
      simp [Alice.runRounds, heq, Exchange.afterAlice]
    | elapsed => cases hstep

/-- The initiator reads the end of the stream. -/
theorem aliceSide_eof (h : AliceSide ns x) (hstarted : x.started = true) (hnone : x.aliceRes = none) :
    AliceSide ns (x.afterAlice x.alice (some (.ok x.alice.progress))) := by
  cases h with
  | idle hs => cases hstarted.symm.trans hs
  | returned _ _ _ _ _ _ hres => cases hnone.symm.trans hres
  | running ss im is a₀ reads _ _ hstart hcons hfl =>
    refine .returned ss im is reads (.ok x.alice.progress) hstarted rfl ?_ hfl
    simp only [runAlice, hstart, hcons.ended]
    simp [Alice.runRounds, Exchange.afterAlice]

/-- The accepting side handles a frame. -/
theorem bobSide_frame (h : BobSide peer acceptCb x) (hnone : x.bobRes = none) {msg : Message}
    {rest : List Message} (htoBob : x.toBob = msg :: rest) (t : BobAnswers)
    (hstep : { x with toBob := rest }.bobFlow (x.bob.onFrame (fun ns => some (acceptCb ns)) msg t.turn) =
      some x') : BobSide peer acceptCb x' := by
  cases h with
  | returned _ _ hres => cases hnone.symm.trans hres
  | running reads _ hcons hfl =>
    have hreads : bobReads (reads ++ [(msg, t)]) = bobReads reads ++ [.frame msg t.turn] := by simp [bobReads]
    have hfl' : (reads ++ [(msg, t)]).map Prod.fst ++ rest = x.alice.sent := by
      rw [← hfl, htoBob]
      simp
    rcases heq : x.bob.onFrame (fun ns => some (acceptCb ns)) msg t.turn with ⟨c, flow⟩
    rw [heq] at hstep
    cases flow with
    | next =>
      cases hstep
      refine .running (reads ++ [(msg, t)]) rfl ?_ hfl'
      rw [hreads]
      exact hcons.snoc fun rest => by simp [Conn.runRounds, heq, Exchange.afterBob]
    | done =>
      cases hstep
      refine .returned (reads ++ [(msg, t)]) (c.ended c.done).2 rfl (fun script hscript hterm => ?_) hfl'
      refine Conn.run_of_runRounds hterm ?_
      rw [hscript, hreads, hcons.last]
      simp [Conn.runRounds, heq]
    | fail e =>
      cases hstep
      refine .returned (reads ++ [(msg, t)]) (c.ended (.error e)).2 rfl (fun script hscript hterm => ?_) hfl'
      refine Conn.run_of_runRounds hterm ?_
      rw [hscript, hreads, hcons.last]
      simp [Conn.runRounds, heq]
    | elapsed => cases hstep

/-- The accepting side reads the end of the stream. -/
theorem bobSide_eof (h : BobSide peer acceptCb x) (hnone : x.bobRes = none) :
    BobSide peer acceptCb (x.bobEnds x.bob x.bob.done) := by
  cases h with
  | returned _ _ hres => cases hnone.symm.trans hres
  | running reads _ hcons hfl =>
    refine .returned reads (x.bob.ended x.bob.done).2 rfl (fun script hscript hterm => ?_) hfl
    refine Conn.run_of_runRounds hterm ?_
    rw [hscript, hcons.ended]
    rfl

/-! ## What the other side's move leaves -/

theorem aliceSide_bobEnds (h : AliceSide ns x) (rest : List Message) {c : Conn}
    (hsent : ∃ written, c.sent = x.bob.sent ++ written) (res : Except AcceptError NamespaceId) :
    AliceSide ns ({ x with toBob := rest }.bobEnds c res) := by
  refine aliceSide_afterBob h rest ?_ _
  obtain ⟨written, hw⟩ := hsent
  obtain ⟨last, hlast⟩ := c.sent_ended res
  exact ⟨written ++ last, by rw [hlast, hw, List.append_assoc]⟩

theorem aliceSide_bobFlow (h : AliceSide ns x) (rest : List Message) {r : Conn × Flow}
    (hsent : ∃ written, r.1.sent = x.bob.sent ++ written)
    (hstep : { x with toBob := rest }.bobFlow r = some x') : AliceSide ns x' := by
  obtain ⟨c, flow⟩ := r
  cases flow with
  | next =>
    cases hstep
    exact aliceSide_afterBob h rest hsent none
  | done =>
    cases hstep
    exact aliceSide_bobEnds h rest hsent c.done
  | fail e =>
    cases hstep
    exact aliceSide_bobEnds h rest hsent (.error e)
  | elapsed => cases hstep

theorem bobSide_aliceFlow (h : BobSide peer acceptCb x) (started : Bool) (rest : List Message)
    {r : Alice × AliceFlow} (hsent : ∃ written, r.1.sent = x.alice.sent ++ written)
    (hstep : { x with started := started, toAlice := rest }.aliceFlow r = some x') :
    BobSide peer acceptCb x' := by
  obtain ⟨a, flow⟩ := r
  cases flow with
  | next =>
    cases hstep
    exact bobSide_afterAlice h started rest hsent none
  | done =>
    cases hstep
    exact bobSide_afterAlice h started rest hsent (some (.ok a.progress))
  | fail e =>
    cases hstep
    exact bobSide_afterAlice h started rest hsent (some (.error e))
  | elapsed => cases hstep

/-- Step: whichever side moves, both keep to their functions. -/
theorem sides_step (h : AliceSide ns x ∧ BobSide peer acceptCb x) (m : Move)
    (hstep : x.step ns acceptCb m = some x') : AliceSide ns x' ∧ BobSide peer acceptCb x' := by
  obtain ⟨halice, hbob⟩ := h
  cases Exchange.moved_of_step hstep with
  | start sessionStart initialMessage initSent hstarted hflow =>
    exact ⟨aliceSide_start halice hstarted _ _ _ hflow,
      bobSide_aliceFlow hbob true x.toAlice (Alice.sent_start _ _ _ _ _) hflow⟩
  | aliceFrame t msg rest hstarted hnone htoAlice hflow =>
    exact ⟨aliceSide_frame halice hstarted hnone htoAlice t hflow,
      bobSide_aliceFlow hbob x.started rest (Alice.sent_onFrame _ _ _) hflow⟩
  | aliceEof t hstarted hnone htoAlice _ hends =>
    subst hends
    exact ⟨aliceSide_eof halice hstarted hnone,
      bobSide_afterAlice hbob x.started x.toAlice (append_nothing _) _⟩
  | bobFrame t msg rest hnone htoBob hflow =>
    exact ⟨aliceSide_bobFlow halice rest (Conn.sent_onFrame _ _ _ _) hflow,
      bobSide_frame hbob hnone htoBob t hflow⟩
  | bobEof t hnone htoBob _ hends =>
    subst hends
    exact ⟨aliceSide_bobEnds halice x.toBob (append_nothing _) x.bob.done, bobSide_eof hbob hnone⟩

/-- **An exchange is one run of each side's function**: in every state of every run, each side has read frames
the other one wrote, in order, the others being in flight, and has returned what its function returns on
them. -/
theorem exchange_runs_both_sides (moves : List Move)
    (hrun : runs (fun y m => Exchange.step ns acceptCb y m) (.new peer) moves = some x) :
    AliceSide ns x ∧ BobSide peer acceptCb x := by
  refine invariant_runs (I := fun y => AliceSide ns y ∧ BobSide peer acceptCb y)
    (fun y m y' hy hy' => sides_step hy m hy') moves ⟨?_, ?_⟩ hrun
  · exact .idle rfl rfl rfl
  · exact .running [] rfl consumed_nil rfl

end Steps

end PdnStore.Net

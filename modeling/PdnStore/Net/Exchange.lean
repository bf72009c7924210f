import PdnStore.Lib.Runs
import PdnStore.Net.Initiate

/-!
# An exchange between `run_alice` and `BobState::run` (codec.rs:101-387)

Both sides over one stream that loses, reorders and changes nothing: a frame is in flight from the moment it
is written until it is read, and a side that finds nothing in flight reads the end of the stream once the
other side has returned, and waits before that. The sides move in any order; the sync actors and the accept
callback answer anything, errors included, and the encoder may refuse a frame as too large. No call is
cancelled and no bound is reached.

| here | there |
| --- | --- |
| `Move`            | one side runs from one read of the stream to the next |
| `Exchange.toBob`, `toAlice` | the frames written and not read yet |
| `Conn.ended`      | the end of `BobState::run` (`codec.rs:260-275`): an error is told to the initiator |

The frames alternate (`Phase`), so at most one is in flight.
-/

namespace PdnStore.Net

open Sync

/-! ## Moves -/

/-- A call that comes back. -/
def Awaited.of {α : Type} : Except String α → Awaited α
  | .ok a => .ok a
  | .error e => .err e

/-- What the calls of the initiator come back with while it handles one frame. -/
structure AliceAnswers where
  processed : Except String (Option SyncMessage × SyncOutcome)
  replySent : Except String Unit

def AliceAnswers.turn (t : AliceAnswers) : AliceTurn := ⟨.of t.processed, .of t.replySent⟩

/-- What the calls of the accepting side come back with while it handles one frame. -/
structure BobAnswers where
  refusalSent : Except String Unit
  sessionStart : Except String Unit
  processed : Except String (Option SyncMessage × SyncOutcome)
  replySent : Except String Unit

def BobAnswers.turn (t : BobAnswers) : Turn :=
  ⟨.of t.refusalSent, .of t.sessionStart, .of t.processed, .of t.replySent⟩

/-- What a side may do next. -/
inductive Move where
  | start (sessionStart : Except String Unit) (initialMessage : Except String SyncMessage)
      (initSent : Except String Unit)
  | alice (answers : AliceAnswers)
  | bob (answers : BobAnswers)

structure Exchange where
  started : Bool
  alice : Alice
  aliceRes : Option (Except ConnectError SyncOutcome)
  bob : Conn
  bobRes : Option (Except AcceptError NamespaceId)
  toBob : List Message
  toAlice : List Message

/-- Before the first call. -/
def Exchange.new (alicePeer : PublicKey) : Exchange :=
  ⟨false, .new, none, ⟨.new alicePeer, [], []⟩, none, [], []⟩

/-- The end of `BobState::run` (codec.rs:260-275): an error other than a refusal is answered with a terminal
frame. -/
def Conn.ended (c : Conn) : Except AcceptError NamespaceId → Conn × Except AcceptError NamespaceId
  | .ok ns => (c, .ok ns)
  | .error (.abort peer ns reason) => (c, .error (.abort peer ns reason))
  | .error e => ({ c with sent := c.sent ++ [.abort .internalServerError] }, .error e)

namespace Exchange

variable (ns : NamespaceId) (acceptCb : NamespaceId → AcceptOutcome) (x : Exchange)

/-- The initiator went on to `a`; what it wrote is in flight. -/
def afterAlice (a : Alice) (res : Option (Except ConnectError SyncOutcome)) : Exchange :=
  { x with alice := a, aliceRes := res, toBob := x.toBob ++ a.sent.drop x.alice.sent.length }

/-- The accepting side went on to `c`. -/
def afterBob (c : Conn) (res : Option (Except AcceptError NamespaceId)) : Exchange :=
  { x with bob := c, bobRes := res, toAlice := x.toAlice ++ c.sent.drop x.bob.sent.length }

/-- The initiator after a part of `run_alice`. -/
def aliceFlow : Alice × AliceFlow → Option Exchange
  | (a, .next) => some (x.afterAlice a none)
  | (a, .done) => some (x.afterAlice a (some (.ok a.progress)))
  | (a, .fail e) => some (x.afterAlice a (some (.error e)))
  | (_, .elapsed) => none

/-- The accepting side returns. -/
def bobEnds (c : Conn) (res : Except AcceptError NamespaceId) : Exchange :=
  x.afterBob (c.ended res).1 (some (c.ended res).2)

/-- The accepting side after a frame. -/
def bobFlow : Conn × Flow → Option Exchange
  | (c, .next) => some (x.afterBob c none)
  | (c, .done) => some (x.bobEnds c c.done)
  | (c, .fail e) => some (x.bobEnds c (.error e))
  | (_, .elapsed) => none

/-- One move; `none` where the side has nothing to do. -/
def step : Move → Option Exchange
  | .start sessionStart initialMessage initSent =>
    if x.started then none
    else { x with started := true }.aliceFlow
      (x.alice.start ns (.of sessionStart) (.of initialMessage) (.of initSent))
  | .alice answers =>
    if x.started && x.aliceRes.isNone then
      match x.toAlice with
      | msg :: rest => { x with toAlice := rest }.aliceFlow (x.alice.onFrame msg answers.turn)
      | [] => if x.bobRes.isSome then some (x.afterAlice x.alice (some (.ok x.alice.progress))) else none
    else none
  | .bob answers =>
    if x.bobRes.isNone then
      match x.toBob with
      | msg :: rest =>
        { x with toBob := rest }.bobFlow (x.bob.onFrame (fun ns => some (acceptCb ns)) msg answers.turn)
      | [] => if x.aliceRes.isSome then some (x.bobEnds x.bob x.bob.done) else none
    else none

end Exchange

/-! ## What a side does with a frame -/

/-- The calls the initiator makes on a sync frame succeed: the sync actor's, and the write of its reply. -/
def AliceAnswers.Hold (t : AliceAnswers) : Prop :=
  ∃ reply progress, t.processed = .ok (reply, progress) ∧ (reply.isSome → t.replySent = .ok ())

/-- The initiator answers a sync frame, is done with it, or fails and writes nothing. -/
theorem Alice.onFrame_sync (a : Alice) (m : SyncMessage) (t : AliceAnswers) :
    (t.Hold ∧ ∃ progress reply, a.onFrame (.sync m) t.turn = (⟨progress, a.sent ++ [.sync reply]⟩, .next)) ∨
    (t.Hold ∧ ∃ progress, a.onFrame (.sync m) t.turn = (⟨progress, a.sent⟩, .done)) ∨
    (¬ t.Hold ∧ ∃ a' e, a'.sent = a.sent ∧ a.onFrame (.sync m) t.turn = (a', .fail e)) := by
  obtain ⟨processed, replySent⟩ := t
  cases processed with
  | error e =>
    refine .inr (.inr ⟨?_, a, _, rfl, rfl⟩)
    rintro ⟨reply, progress, h, -⟩
    cases h
  | ok r =>
    obtain ⟨reply, progress⟩ := r
    cases reply with
    | none => exact .inr (.inl ⟨⟨none, progress, rfl, by simp⟩, progress, rfl⟩)
    | some reply =>
      cases replySent with
      | ok u => exact .inl ⟨⟨some reply, progress, rfl, fun _ => rfl⟩, progress, reply, rfl⟩
      | error e =>
        refine .inr (.inr ⟨?_, ⟨progress, a.sent⟩, _, rfl, rfl⟩)
        rintro ⟨reply', progress', h, hsent⟩
        cases h
        cases hsent rfl

/-- What the accepting side wrote when it is through with a frame: a reply, nothing, or word of its failure. -/
def Flow.Wrote (sent : List Message) (c : Conn) : Flow → Prop
  | .next => (∃ m, c.sent = sent ++ [.sync m]) ∧ c.bob.session.isSome ∧ c.bob.namespace.isSome
  | .done => c.sent = sent ∧ c.bob.namespace.isSome
  | .fail e => ∃ reason, (c.ended (.error e)).1.sent = sent ++ [.abort reason]
  | .elapsed => False

/-- An error that is not a refusal is told in the terminal frame. -/
theorem Conn.ended_fail (c : Conn) (e : String) :
    (c.ended (.error (c.bob.fail e))).1.sent = c.sent ++ [.abort .internalServerError] := rfl

theorem Conn.ended_error (c : Conn) (e : AcceptError) : (c.ended (.error e)).2 = .error e := by
  cases e <;> rfl

theorem wrote_orFail {α : Type} {call : Except String α} {c : Conn} {k : α → Conn × Flow} {sent : List Message}
    (hsent : c.sent = sent) (hk : ∀ a, (k a).2.Wrote sent (k a).1) :
    ((Awaited.of call).orFail c k).2.Wrote sent ((Awaited.of call).orFail c k).1 := by
  cases call with
  | ok a => exact hk a
  | error e => exact ⟨.internalServerError, by rw [← hsent]; exact c.ended_fail e⟩

theorem wrote_reply {c : Conn} (t : BobAnswers) (hs : c.bob.session.isSome) (hn : c.bob.namespace.isSome) :
    (c.reply t.turn).2.Wrote c.sent (c.reply t.turn).1 := by
  refine wrote_orFail rfl ?_
  rintro ⟨reply, progress⟩
  cases reply with
  | none => exact ⟨rfl, hn⟩
  | some m => exact wrote_orFail rfl fun _ => ⟨⟨m, rfl⟩, hs, hn⟩

/-- The init frame of a fresh connection, whatever the callback decides. -/
theorem wrote_onInit {c : Conn} (acceptCb : NamespaceId → AcceptOutcome) (t : BobAnswers) (ns : NamespaceId) :
    (c.onInit (fun ns => some (acceptCb ns)) t.turn ns).2.Wrote c.sent
      (c.onInit (fun ns => some (acceptCb ns)) t.turn ns).1 := by
  unfold Conn.onInit
  dsimp only
  cases acceptCb ns with
  | allow filter => exact wrote_orFail rfl fun _ => wrote_reply t rfl rfl
  | reject reason => exact wrote_orFail rfl fun _ => ⟨reason, rfl⟩

/-! ## Phases -/

/-- The frame the accepting side expects: an init frame first, and sync frames in a session. -/
def Expected (b : BobState) (msg : Message) : Prop :=
  (∃ ns m, msg = .init ns m ∧ b.session = none) ∨ (∃ m, msg = .sync m ∧ b.session.isSome ∧ b.namespace.isSome)

theorem wrote_onFrame {c : Conn} (acceptCb : NamespaceId → AcceptOutcome) (t : BobAnswers) {msg : Message}
    (h : Expected c.bob msg) :
    (c.onFrame (fun ns => some (acceptCb ns)) msg t.turn).2.Wrote c.sent
      (c.onFrame (fun ns => some (acceptCb ns)) msg t.turn).1 := by
  unfold Conn.onFrame
  rcases h with ⟨ns, m, rfl, hs⟩ | ⟨m, rfl, hs, hn⟩
  · simp only [hs]
    exact wrote_onInit acceptCb t ns
  · obtain ⟨s, hs'⟩ := Option.isSome_iff_exists.1 hs
    simp only [hs']
    exact wrote_reply t hs hn

/-- Where an exchange is. -/
inductive Phase (x : Exchange) : Prop
  /-- nothing happened yet -/
  | idle (started : x.started = false) (alice : x.aliceRes = none) (bob : x.bobRes = none)
      (toBob : x.toBob = []) (toAlice : x.toAlice = []) (session : x.bob.bob.session = none)
      (fresh : x.bob.bob.namespace = none)
  /-- the initiator failed before it wrote its init frame -/
  | unsent (e : ConnectError) (started : x.started = true) (alice : x.aliceRes = some (.error e))
      (bob : x.bobRes = none) (toBob : x.toBob = []) (fresh : x.bob.bob.namespace = none)
  /-- a frame for the accepting side is in flight -/
  | asked (msg : Message) (started : x.started = true) (alice : x.aliceRes = none) (bob : x.bobRes = none)
      (toBob : x.toBob = [msg]) (toAlice : x.toAlice = []) (expected : Expected x.bob.bob msg)
  /-- a frame for the initiator is in flight -/
  | answered (m : SyncMessage) (started : x.started = true) (alice : x.aliceRes = none) (bob : x.bobRes = none)
      (toBob : x.toBob = []) (toAlice : x.toAlice = [.sync m]) (session : x.bob.bob.session.isSome)
      (named : x.bob.bob.namespace.isSome)
  /-- the accepting side is done, and the initiator reads the end of the stream -/
  | served (ns : NamespaceId) (started : x.started = true) (alice : x.aliceRes = none)
      (bob : x.bobRes = some (.ok ns)) (toAlice : x.toAlice = [])
  /-- the accepting side failed, and word of it is in flight -/
  | refused (e : AcceptError) (reason : AbortReason) (started : x.started = true) (alice : x.aliceRes = none)
      (bob : x.bobRes = some (.error e)) (toAlice : x.toAlice = [.abort reason])
  /-- the initiator returned from a round, and the accepting side reads the end of the stream -/
  | left (res : Except ConnectError SyncOutcome) (started : x.started = true) (alice : x.aliceRes = some res)
      (bob : x.bobRes = none) (toBob : x.toBob = []) (named : x.bob.bob.namespace.isSome)
  | agreed (outcome : SyncOutcome) (ns : NamespaceId) (started : x.started = true)
      (alice : x.aliceRes = some (.ok outcome)) (bob : x.bobRes = some (.ok ns))
  | failed (e : ConnectError) (e' : AcceptError) (started : x.started = true)
      (alice : x.aliceRes = some (.error e)) (bob : x.bobRes = some (.error e'))
  /-- the initiator failed in a round, and the accepting side took the end of the stream for its success -/
  | slipped (e : ConnectError) (ns : NamespaceId) (started : x.started = true)
      (alice : x.aliceRes = some (.error e)) (bob : x.bobRes = some (.ok ns))

theorem phase_new (peer : PublicKey) : Phase (.new peer) := .idle rfl rfl rfl rfl rfl rfl rfl

/-! ## Steps -/

/-- The initiator has failed in a round, and the accepting side has no word of it. -/
def Slip (x : Exchange) : Prop :=
  ∃ e, x.aliceRes = some (.error e) ∧
    ((x.bobRes = none ∧ x.bob.bob.namespace.isSome) ∨ ∃ ns, x.bobRes = some (.ok ns))

/-- The move is not a failing call of the initiator on a frame. -/
def Move.Holds (x : Exchange) : Move → Prop
  | .alice t => (∃ m, x.toAlice = [.sync m]) → t.Hold
  | _ => True

/-- What a move makes of a phase: the next phase, and whether the sides have come apart. -/
def Goes (x x' : Exchange) (m : Move) : Prop := Phase x' ∧ (Slip x' ↔ Slip x ∨ ¬ m.Holds x)

/-- A move between phases in which nobody slipped. -/
theorem goes_of {x x' : Exchange} {m : Move} (h' : Phase x') (hx : ¬ Slip x) (hx' : ¬ Slip x')
    (hm : m.Holds x) : Goes x x' m :=
  ⟨h', iff_of_false hx' (not_or.2 ⟨hx, not_not.2 hm⟩)⟩

theorem not_slip_of_running {x : Exchange} (h : x.aliceRes = none) : ¬ Slip x := by
  rintro ⟨e, he, -⟩
  rw [h] at he
  cases he

theorem not_slip_of_ok {x : Exchange} (outcome : SyncOutcome) (h : x.aliceRes = some (.ok outcome)) :
    ¬ Slip x := by
  rintro ⟨e, he, -⟩
  rw [h] at he
  cases he

theorem not_slip_of_bob_error {x : Exchange} {e : AcceptError} (h : x.bobRes = some (.error e)) :
    ¬ Slip x := by
  rintro ⟨-, -, ⟨hnone, -⟩ | ⟨ns, hok⟩⟩
  · rw [h] at hnone
    cases hnone
  · rw [h] at hok
    cases hok

/-- A failure before the accepting side has a namespace is no slip. -/
theorem not_slip_of_fresh {x : Exchange} (hbob : x.bobRes = none) (hn : x.bob.bob.namespace = none) :
    ¬ Slip x := by
  rintro ⟨-, -, ⟨-, hsome⟩ | ⟨ns, hok⟩⟩
  · rw [hn] at hsome
    cases hsome
  · rw [hbob] at hok
    cases hok

theorem Alice.start_cases (a : Alice) (ns : NamespaceId) (sessionStart : Except String Unit)
    (initialMessage : Except String SyncMessage) (initSent : Except String Unit) :
    (∃ m, a.start ns (.of sessionStart) (.of initialMessage) (.of initSent) =
      ({ a with sent := a.sent ++ [.init ns m] }, .next)) ∨
    (∃ e, a.start ns (.of sessionStart) (.of initialMessage) (.of initSent) = (a, .fail e)) := by
  cases sessionStart with
  | error e => exact .inr ⟨_, rfl⟩
  | ok u =>
    cases initialMessage with
    | error e => exact .inr ⟨_, rfl⟩
    | ok m =>
      cases initSent with
      | error e => exact .inr ⟨_, rfl⟩
      | ok u => exact .inl ⟨m, rfl⟩

theorem Conn.done_of_named {c : Conn} (h : c.bob.namespace.isSome) : ∃ ns, c.done = .ok ns := by
  obtain ⟨ns, hns⟩ := Option.isSome_iff_exists.1 h
  exact ⟨ns, by simp [Conn.done, hns]⟩

/-! ## Sample exchanges -/

/-- The initiator's one entry, announced. -/
def sampleAsk : SyncMessage :=
  ⟨[.rangeFingerprint ⟨⟨.new zeros32 zeros32 [1], .new zeros32 zeros32 [1]⟩, 1⟩]⟩

/-- The answer of a side that has nothing: it asks for everything. -/
def sampleAnswer : SyncMessage :=
  ⟨[.rangeItem ⟨⟨.new zeros32 zeros32 [1], .new zeros32 zeros32 [1]⟩, [], false⟩]⟩

/-- The init frame, and the accepting side's session. -/
def sampleOpening (sessionStart : Except String Unit) : List Move :=
  [.start (.ok ()) (.ok sampleAsk) (.ok ()),
    .bob ⟨.ok (), sessionStart, .ok (some sampleAnswer, ⟨⟨∅⟩, 0, 0⟩), .ok ()⟩]

/-- The initiator's sync actor answers `processed` in the first round, and the stream ends. -/
def sampleMoves (processed : Except String (Option SyncMessage × SyncOutcome)) : List Move :=
  sampleOpening (.ok ()) ++
    [.alice ⟨processed, .ok ()⟩, .bob ⟨.ok (), .ok (), .ok (none, ⟨⟨∅⟩, 0, 0⟩), .ok ()⟩]

/-- Everybody is allowed, and sees everything. -/
def allowAll (_ : NamespaceId) : AcceptOutcome := .allow none

section Steps

variable {peer : PublicKey} {ns : NamespaceId} {acceptCb : NamespaceId → AcceptOutcome} {x x' : Exchange}

/-- The moves a side can make: the initiator starts; a side handles the next frame in flight to it; or it finds
none and reads the end of the stream. -/
inductive Exchange.Moved (ns : NamespaceId) (acceptCb : NamespaceId → AcceptOutcome) (x x' : Exchange) :
    Move → Prop
  | start (sessionStart : Except String Unit) (initialMessage : Except String SyncMessage)
      (initSent : Except String Unit) (started : x.started = false)
      (flow : { x with started := true }.aliceFlow
        (x.alice.start ns (.of sessionStart) (.of initialMessage) (.of initSent)) = some x') :
      Moved ns acceptCb x x' (.start sessionStart initialMessage initSent)
  | aliceFrame (t : AliceAnswers) (msg : Message) (rest : List Message) (started : x.started = true)
      (alice : x.aliceRes = none) (toAlice : x.toAlice = msg :: rest)
      (flow : { x with toAlice := rest }.aliceFlow (x.alice.onFrame msg t.turn) = some x') :
      Moved ns acceptCb x x' (.alice t)
  | aliceEof (t : AliceAnswers) (started : x.started = true) (alice : x.aliceRes = none)
      (toAlice : x.toAlice = []) (bob : x.bobRes.isSome)
      (ends : x' = x.afterAlice x.alice (some (.ok x.alice.progress))) : Moved ns acceptCb x x' (.alice t)
  | bobFrame (t : BobAnswers) (msg : Message) (rest : List Message) (bob : x.bobRes = none)
      (toBob : x.toBob = msg :: rest)
      (flow : { x with toBob := rest }.bobFlow (x.bob.onFrame (fun ns => some (acceptCb ns)) msg t.turn) =
        some x') : Moved ns acceptCb x x' (.bob t)
  | bobEof (t : BobAnswers) (bob : x.bobRes = none) (toBob : x.toBob = []) (alice : x.aliceRes.isSome)
      (ends : x' = x.bobEnds x.bob x.bob.done) : Moved ns acceptCb x x' (.bob t)

theorem Exchange.moved_of_step {m : Move} (h : x.step ns acceptCb m = some x') :
    Moved ns acceptCb x x' m := by
  cases m with
  | start sessionStart initialMessage initSent =>
    simp only [Exchange.step] at h
    split at h
    next => cases h
    next hstarted => exact .start _ _ _ (by simpa using hstarted) h
  | alice t =>
    simp only [Exchange.step] at h
    split at h
    next hcond =>
      obtain ⟨hstarted, halice⟩ : x.started = true ∧ x.aliceRes = none := by simpa using hcond
      split at h
      next msg rest htoAlice => exact .aliceFrame t msg rest hstarted halice htoAlice h
      next htoAlice =>
        split at h
        next hbob => exact .aliceEof t hstarted halice htoAlice hbob (Option.some.inj h).symm
        next => cases h
    next => cases h
  | bob t =>
    simp only [Exchange.step] at h
    split at h
    next hcond =>
      have hbob : x.bobRes = none := by simpa using hcond
      split at h
      next msg rest htoBob => exact .bobFrame t msg rest hbob htoBob h
      next htoBob =>
        split at h
        next halice => exact .bobEof t hbob htoBob halice (Option.some.inj h).symm
        next => cases h
    next => cases h

/-- The initiator starts. -/
theorem goes_start (h : Phase x) (hstarted : x.started = false) (sessionStart : Except String Unit)
    (initialMessage : Except String SyncMessage) (initSent : Except String Unit)
    (hflow : { x with started := true }.aliceFlow
      (x.alice.start ns (.of sessionStart) (.of initialMessage) (.of initSent)) = some x') :
    Goes x x' (.start sessionStart initialMessage initSent) := by
  cases h with
  | idle _ halice hbob htoBob htoAlice hs hn =>
    rcases x.alice.start_cases ns sessionStart initialMessage initSent with ⟨m, heq⟩ | ⟨e, heq⟩
    · rw [heq] at hflow
      cases hflow
      refine goes_of (.asked (.init ns m) rfl rfl hbob ?_ htoAlice (.inl ⟨ns, m, rfl, hs⟩))
        (not_slip_of_running halice) (not_slip_of_running rfl) trivial
      simp [Exchange.afterAlice, htoBob]
    · rw [heq] at hflow
      cases hflow
      refine goes_of (.unsent e rfl rfl hbob ?_ hn) (not_slip_of_running halice) (not_slip_of_fresh hbob hn)
        trivial
      simp [Exchange.afterAlice, htoBob]
  | _ => simp_all

/-- The accepting side handles the frame in flight. -/
theorem goes_bobFrame (h : Phase x) (t : BobAnswers) {msg : Message} {rest : List Message}
    (htoBob : x.toBob = msg :: rest) (hbob : x.bobRes = none)
    (hflow : { x with toBob := rest }.bobFlow (x.bob.onFrame (fun ns => some (acceptCb ns)) msg t.turn) =
      some x') : Goes x x' (.bob t) := by
  cases h with
  | asked msg' hstarted halice _ htoBob' htoAlice hexp =>
    obtain ⟨rfl, rfl⟩ : msg = msg' ∧ rest = [] := by simpa using htoBob.symm.trans htoBob'
    have hw := wrote_onFrame acceptCb t hexp
    rcases hr : x.bob.onFrame (fun ns => some (acceptCb ns)) msg t.turn with ⟨c, flow⟩
    rw [hr] at hflow hw
    dsimp only at hw
    cases flow with
    | next =>
      obtain ⟨⟨m, hsent⟩, hs, hn⟩ := hw
      cases hflow
      refine goes_of (.answered m hstarted halice rfl rfl ?_ hs hn) (not_slip_of_running halice)
        (not_slip_of_running halice) trivial
      simp [Exchange.afterBob, htoAlice, hsent]
    | done =>
      obtain ⟨hsent, hn⟩ := hw
      obtain ⟨ns', hdone⟩ := Conn.done_of_named hn
      cases hflow
      refine goes_of (.served ns' hstarted halice ?_ ?_) (not_slip_of_running halice)
        (not_slip_of_running halice) trivial
      · simp [Exchange.bobEnds, Exchange.afterBob, Conn.ended, hdone]
      · simp [Exchange.bobEnds, Exchange.afterBob, Conn.ended, hdone, htoAlice, hsent]
    | fail e =>
      obtain ⟨reason, hsent⟩ := hw
      cases hflow
      refine goes_of (.refused e reason hstarted halice ?_ ?_) (not_slip_of_running halice)
        (not_slip_of_running halice) trivial
      · simp [Exchange.bobEnds, Exchange.afterBob, c.ended_error e]
      · simp [Exchange.bobEnds, Exchange.afterBob, htoAlice, hsent]
    | elapsed => cases hw
  | _ => simp_all

/-- The accepting side reads the end of the stream: a success once it has a namespace. -/
theorem goes_bobEof (h : Phase x) (t : BobAnswers) (hbob : x.bobRes = none) (halice : x.aliceRes.isSome)
    (hends : x' = x.bobEnds x.bob x.bob.done) : Goes x x' (.bob t) := by
  subst hends
  cases h with
  | unsent e hstarted halice _ htoBob hn =>
    have hres : (x.bobEnds x.bob x.bob.done).bobRes =
        some (.error (x.bob.bob.fail "Stream closed before init message")) := by
      simp [Exchange.bobEnds, Exchange.afterBob, Conn.done, hn, Conn.ended_error]
    exact goes_of (.failed e _ hstarted halice hres) (not_slip_of_fresh hbob hn) (not_slip_of_bob_error hres)
      trivial
  | left res hstarted halice _ htoBob hn =>
    obtain ⟨ns', hdone⟩ := Conn.done_of_named hn
    have hres : (x.bobEnds x.bob x.bob.done).bobRes = some (.ok ns') := by
      simp only [Exchange.bobEnds, Exchange.afterBob, hdone, Conn.ended]
    cases res with
    | ok outcome =>
      exact goes_of (.agreed outcome ns' hstarted halice hres) (not_slip_of_ok outcome halice)
        (not_slip_of_ok outcome halice) trivial
    | error e =>
      exact ⟨.slipped e ns' hstarted halice hres,
        iff_of_true ⟨e, halice, .inr ⟨ns', hres⟩⟩ (.inl ⟨e, halice, .inl ⟨hbob, hn⟩⟩)⟩
  | _ => simp_all

/-- The initiator handles a sync frame: here, and only here, the sides may come apart. -/
theorem goes_alice_answered {m : SyncMessage} (hstarted : x.started = true) (halice : x.aliceRes = none)
    (hbob : x.bobRes = none) (htoBob : x.toBob = []) (htoAlice : x.toAlice = [.sync m])
    (hs : x.bob.bob.session.isSome) (hn : x.bob.bob.namespace.isSome) (t : AliceAnswers)
    (hflow : { x with toAlice := [] }.aliceFlow (x.alice.onFrame (.sync m) t.turn) = some x') :
    Goes x x' (.alice t) := by
  rcases x.alice.onFrame_sync m t with ⟨hhold, progress, reply, heq⟩ | ⟨hhold, progress, heq⟩ |
    ⟨hfails, a', e, hsent, heq⟩
  · rw [heq] at hflow
    cases hflow
    refine goes_of (.asked (.sync reply) hstarted rfl hbob ?_ rfl (.inr ⟨reply, rfl, hs, hn⟩))
      (not_slip_of_running halice) (not_slip_of_running rfl) fun _ => hhold
    simp [Exchange.afterAlice, htoBob]
  · rw [heq] at hflow
    cases hflow
    refine goes_of (.left (.ok progress) hstarted rfl hbob ?_ hn) (not_slip_of_running halice)
      (not_slip_of_ok progress rfl) fun _ => hhold
    simp [Exchange.afterAlice, htoBob]
  · rw [heq] at hflow
    cases hflow
    refine ⟨.left (.error e) hstarted rfl hbob ?_ hn, iff_of_true ⟨e, rfl, .inl ⟨hbob, hn⟩⟩ (.inr ?_)⟩
    · simp [Exchange.afterAlice, htoBob, hsent]
    · intro hholds
      exact hfails (hholds ⟨m, htoAlice⟩)

/-- The initiator handles the frame in flight. -/
theorem goes_aliceFrame (h : Phase x) (t : AliceAnswers) {msg : Message} {rest : List Message}
    (hstarted : x.started = true) (halice : x.aliceRes = none) (htoAlice : x.toAlice = msg :: rest)
    (hflow : { x with toAlice := rest }.aliceFlow (x.alice.onFrame msg t.turn) = some x') :
    Goes x x' (.alice t) := by
  cases h with
  | answered m _ _ hbob htoBob htoAlice' hs hn =>
    obtain ⟨rfl, rfl⟩ : msg = .sync m ∧ rest = [] := by simpa using htoAlice.symm.trans htoAlice'
    exact goes_alice_answered hstarted halice hbob htoBob htoAlice hs hn t hflow
  | refused e reason _ _ hbob htoAlice' =>
    obtain ⟨rfl, rfl⟩ : msg = .abort reason ∧ rest = [] := by simpa using htoAlice.symm.trans htoAlice'
    cases hflow
    refine goes_of (.failed (.remoteAbort reason) e hstarted rfl hbob) (not_slip_of_running halice)
      (not_slip_of_bob_error hbob) ?_
    rintro ⟨m, hm⟩
    rw [htoAlice] at hm
    cases hm
  | _ => simp_all

/-- The initiator reads the end of the stream. -/
theorem goes_aliceEof (h : Phase x) (t : AliceAnswers) (halice : x.aliceRes = none) (htoAlice : x.toAlice = [])
    (hbob : x.bobRes.isSome) (hends : x' = x.afterAlice x.alice (some (.ok x.alice.progress))) :
    Goes x x' (.alice t) := by
  subst hends
  cases h with
  | served ns' hstarted _ hbob _ =>
    refine goes_of (.agreed _ ns' hstarted rfl hbob) (not_slip_of_running halice)
      (not_slip_of_ok x.alice.progress rfl) ?_
    rintro ⟨m, hm⟩
    rw [htoAlice] at hm
    cases hm
  | _ => simp_all

/-- Step: whichever side moves. -/
theorem phase_step (h : Phase x) (m : Move) (hstep : x.step ns acceptCb m = some x') : Goes x x' m := by
  cases Exchange.moved_of_step hstep with
  | start sessionStart initialMessage initSent hstarted hflow => exact goes_start h hstarted _ _ _ hflow
  | aliceFrame t msg rest hstarted halice htoAlice hflow =>
    exact goes_aliceFrame h t hstarted halice htoAlice hflow
  | aliceEof t hstarted halice htoAlice hbob hends => exact goes_aliceEof h t halice htoAlice hbob hends
  | bobFrame t msg rest hbob htoBob hflow => exact goes_bobFrame h t htoBob hbob hflow
  | bobEof t hbob htoBob halice hends => exact goes_bobEof h t hbob halice hends

/-! ## Runs -/

theorem phase_runs (moves : List Move)
    (hrun : runs (fun y m => Exchange.step ns acceptCb y m) (.new peer) moves = some x) : Phase x := by
  have hstep : ∀ (y : Exchange) (m : Move) (y' : Exchange), Phase y → y.step ns acceptCb m = some y' →
      Phase y' :=
    fun y m y' hy hy' => (phase_step hy m hy').1
  exact invariant_runs hstep moves (phase_new peer) hrun

/-! ## A failure of the accepting side -/

/-- Where the initiator has returned from a round, the next move of the accepting side is a success. -/
theorem bob_ends_ok {res : Except ConnectError SyncOutcome} (halice : x.aliceRes = some res)
    (hbob : x.bobRes = none) (htoBob : x.toBob = []) (hn : x.bob.bob.namespace.isSome) (t : BobAnswers) :
    ∃ x' ns', x.step ns acceptCb (.bob t) = some x' ∧ x'.bobRes = some (.ok ns') := by
  obtain ⟨ns', hdone⟩ := Conn.done_of_named hn
  refine ⟨x.bobEnds x.bob x.bob.done, ns', ?_, ?_⟩
  · simp [Exchange.step, hbob, htoBob, halice]
  · simp [Exchange.bobEnds, Exchange.afterBob, hdone, Conn.ended]

/-- Where the accepting side has failed, the next move of the initiator reads word of it. -/
theorem alice_reads_abort {reason : AbortReason} (hstarted : x.started = true) (halice : x.aliceRes = none)
    (htoAlice : x.toAlice = [.abort reason]) (t : AliceAnswers) :
    ∃ x', x.step ns acceptCb (.alice t) = some x' ∧ x'.aliceRes = some (.error (.remoteAbort reason)) := by
  simp [Exchange.step, hstarted, halice, htoAlice, Alice.onFrame, Exchange.aliceFlow, Exchange.afterAlice]

/-- Where the accepting side is done, the next move of the initiator is a success. -/
theorem alice_ends_ok {res : Except AcceptError NamespaceId} (hstarted : x.started = true)
    (halice : x.aliceRes = none) (hbob : x.bobRes = some res) (htoAlice : x.toAlice = []) (t : AliceAnswers) :
    ∃ x' outcome, x.step ns acceptCb (.alice t) = some x' ∧ x'.aliceRes = some (.ok outcome) := by
  simp [Exchange.step, hstarted, halice, htoAlice, hbob, Exchange.afterAlice]

/-- **A failure of the accepting side reaches the initiator**, in every run of an exchange: once the initiator
has returned a success, the accepting side has too, or its next and last move does; and once the accepting
side has returned an error, the initiator has too, or its next move does. -/
theorem accept_side_failure_reaches_the_initiator (moves : List Move)
    (hrun : runs (fun y m => Exchange.step ns acceptCb y m) (.new peer) moves = some x) :
    (∀ outcome, x.aliceRes = some (.ok outcome) →
      (∃ ns', x.bobRes = some (.ok ns')) ∨
      (x.bobRes = none ∧ ∀ t, ∃ x' ns', x.step ns acceptCb (.bob t) = some x' ∧ x'.bobRes = some (.ok ns'))) ∧
    ∀ e, x.bobRes = some (.error e) →
      (∃ e', x.aliceRes = some (.error e')) ∨
      (x.aliceRes = none ∧ ∀ t, ∃ x' e', x.step ns acceptCb (.alice t) = some x' ∧
        x'.aliceRes = some (.error e')) := by
  constructor
  · intro outcome hok
    cases phase_runs moves hrun with
    | left res hstarted halice hbob htoBob hn => exact .inr ⟨hbob, bob_ends_ok halice hbob htoBob hn⟩
    | agreed outcome' ns' hstarted halice hbob => exact .inl ⟨ns', hbob⟩
    | _ => simp_all
  · intro e herr
    cases phase_runs moves hrun with
    | refused e' reason hstarted halice hbob htoAlice =>
      refine .inr ⟨halice, fun t => ?_⟩
      obtain ⟨x', hstep, hres⟩ := alice_reads_abort hstarted halice htoAlice t
      exact ⟨x', _, hstep, hres⟩
    | failed e' e'' hstarted halice hbob => exact .inl ⟨e', halice⟩
    | _ => simp_all

/-- The accepting side's replica is not open for sync: its session fails, and the initiator's next move reads
that. -/
theorem accept_side_failure_reaches_the_initiator_sample :
    ∃ x e, runs (fun y m => Exchange.step zeros32 allowAll y m) (.new zeros32)
        (sampleOpening (.error "sync is not enabled for replica")) = some x ∧
      x.bobRes = some (.error e) ∧ x.aliceRes = none ∧
      ∀ t, ∃ x' e', x.step zeros32 allowAll (.alice t) = some x' ∧ x'.aliceRes = some (.error e') := by
  obtain ⟨x, e, hrun, hbob, halice⟩ : ∃ x e, runs (fun y m => Exchange.step zeros32 allowAll y m) (.new zeros32)
      (sampleOpening (.error "sync is not enabled for replica")) = some x ∧
    x.bobRes = some (.error e) ∧ x.aliceRes = none := ⟨_, _, rfl, rfl, rfl⟩
  refine ⟨x, e, hrun, hbob, halice, ?_⟩
  rcases (accept_side_failure_reaches_the_initiator _ hrun).2 e hbob with ⟨e', he'⟩ | ⟨-, h⟩
  · cases halice.symm.trans he'
  · exact h

/-! ## A failure of the initiator -/

/-- The sides have come apart exactly when some call of the initiator on a frame failed. -/
theorem slip_iff_runs (moves : List Move)
    (hrun : runs (fun y m => Exchange.step ns acceptCb y m) (.new peer) moves = some x) :
    Slip x ↔
      ¬ EveryStep (fun y m => Exchange.step ns acceptCb y m) (fun y m _ => m.Holds y) (.new peer) moves := by
  have hstep : ∀ (y : Exchange) (m : Move) (y' : Exchange), Phase y → y.step ns acceptCb m = some y' →
      Goes y y' m :=
    fun y m y' hy hy' => phase_step hy m hy'
  rw [flag_iff_everyStep hstep moves (phase_new peer) hrun]
  exact or_iff_right (not_slip_of_running rfl)

/-- **A failure of the initiator reaches the accepting side only where it is not in a round.** In every run in
which no call of the initiator on a frame fails, a success of the accepting side is one of the initiator, who
has returned it or returns it with its next move. And where both have returned, that is the only way: a
success of the accepting side is one of the initiator exactly when no such call failed. -/
theorem initiator_failure_reaches_the_accepting_side_iff (moves : List Move)
    (hrun : runs (fun y m => Exchange.step ns acceptCb y m) (.new peer) moves = some x) :
    (EveryStep (fun y m => Exchange.step ns acceptCb y m) (fun y m _ => m.Holds y) (.new peer) moves →
      ∀ ns', x.bobRes = some (.ok ns') →
        (∃ outcome, x.aliceRes = some (.ok outcome)) ∨
        (x.aliceRes = none ∧ ∀ t, ∃ x' outcome, x.step ns acceptCb (.alice t) = some x' ∧
          x'.aliceRes = some (.ok outcome))) ∧
    ∀ res res', x.aliceRes = some res → x.bobRes = some res' →
      (((∃ ns', res' = .ok ns') → ∃ outcome, res = .ok outcome) ↔
        EveryStep (fun y m => Exchange.step ns acceptCb y m) (fun y m _ => m.Holds y) (.new peer) moves) := by
  have hphase := phase_runs moves hrun
  have hslip := slip_iff_runs moves hrun
  constructor
  · intro hevery ns' hok
    have hno : ¬ Slip x := fun h => hslip.1 h hevery
    cases hphase with
    | served ns'' hstarted halice hbob htoAlice =>
      exact .inr ⟨halice, alice_ends_ok hstarted halice hbob htoAlice⟩
    | agreed outcome ns'' hstarted halice hbob => exact .inl ⟨outcome, halice⟩
    | slipped e ns'' hstarted halice hbob => exact absurd ⟨e, halice, .inr ⟨ns'', hbob⟩⟩ hno
    | _ => simp_all
  · intro res res' hres hres'
    rw [← not_iff_not, ← hslip]
    constructor
    · intro hapart
      obtain ⟨⟨ns', rfl⟩, hnone⟩ := Classical.not_imp.1 hapart
      cases res with
      | ok outcome => exact absurd ⟨outcome, rfl⟩ hnone
      | error e => exact ⟨e, hres, .inr ⟨ns', hres'⟩⟩
    · rintro ⟨e, he, ⟨hnone, -⟩ | ⟨ns', hok⟩⟩ hagree
      · cases hnone.symm.trans hres'
      · obtain rfl : res' = .ok ns' := Option.some.inj (hres'.symm.trans hok)
        obtain ⟨outcome, rfl⟩ := hagree ⟨ns', rfl⟩
        cases he.symm.trans hres

/-- The initiator's sync actor has nothing more to say, and both sides succeed. -/
theorem initiator_failure_reaches_the_accepting_side_iff_sample :
    ∃ x outcome ns', runs (fun y m => Exchange.step zeros32 allowAll y m) (.new zeros32)
        (sampleMoves (.ok (none, ⟨⟨∅⟩, 0, 0⟩))) = some x ∧
      x.aliceRes = some (.ok outcome) ∧ x.bobRes = some (.ok ns') ∧
      EveryStep (fun y m => Exchange.step zeros32 allowAll y m) (fun y m _ => m.Holds y) (.new zeros32)
        (sampleMoves (.ok (none, ⟨⟨∅⟩, 0, 0⟩))) := by
  obtain ⟨x, outcome, ns', hrun, halice, hbob⟩ : ∃ x outcome ns',
      runs (fun y m => Exchange.step zeros32 allowAll y m) (.new zeros32)
        (sampleMoves (.ok (none, ⟨⟨∅⟩, 0, 0⟩))) = some x ∧
      x.aliceRes = some (.ok outcome) ∧ x.bobRes = some (.ok ns') := ⟨_, _, _, rfl, rfl, rfl⟩
  refine ⟨x, outcome, ns', hrun, halice, hbob, ?_⟩
  exact ((initiator_failure_reaches_the_accepting_side_iff _ hrun).2 _ _ halice hbob).1 fun _ => ⟨outcome, rfl⟩

/-- The initiator's replica is closed under the exchange, and its session with it: its sync actor fails on the first
frame it is sent, and the accepting side takes the end of the stream for its success. -/
theorem initiator_failure_reads_as_success :
    ∃ x, runs (fun y m => Exchange.step zeros32 allowAll y m) (.new zeros32)
        (sampleMoves (.error "sync session not registered")) = some x ∧
      x.bobRes = some (.ok zeros32) ∧ x.aliceRes = some (.error (.sync "sync session not registered")) :=
  ⟨_, rfl, rfl, rfl⟩

end Steps

end PdnStore.Net

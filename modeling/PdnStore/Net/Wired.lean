import PdnStore.Net.Exchange
import PdnStore.Store.Ordinary
import PdnStore.Store.Select
import PdnStore.Sync.Confine

/-!
# Two replicas over a connection (codec.rs:101-387, sync.rs:594-717)

`run_alice` and `BobState::run` over one stream, each with a sync actor that answers from a replica on the
persistent store: the initial message, and `sync_process_message` on every frame. The sides move in any order,
each reading its clock whenever it handles a frame. The stream takes every frame that is written to it.

Where the two replicas hold what is ordinary (`Fs.Ordinary`), the exchange is the loop of the set
reconciliation over the reference store, frame by frame (`Stage`), and inherits what is known of it:
`wired_exchange_reconciles`.

| here | there |
| --- | --- |
| `Wired.new`       | `sync_session_start` of both sides: the tables are frozen in the session's snapshot |
| `answered`        | what `SyncHandle::sync_process_message` comes back with |
-/

namespace PdnStore.Net

open Sync Fs Session

open Ranger (ValidateOutcome)

/-! ## The model -/

/-- An exchange between the sync actors of two replicas. -/
structure Wired (ns : NamespaceId) where
  net : Exchange
  alice : Replica ns
  bob : Replica ns

/-- Which side moves, and what its clock shows. -/
inductive Act where
  | start
  | alice (now : U64)
  | bob (now : U64)

section Model

variable {ns : NamespaceId} [Blake3]

/-- The text of a failed call. -/
def faultText : Ranger.Fault → String
  | .error msg => msg
  | .panic msg => msg

/-- The sync actor's answer to a frame. -/
def answered (round : SyncRound ns) : Except String (Option SyncMessage × SyncOutcome) :=
  (round.reply.map fun reply => (reply, round.state)).mapError faultText

/-- The message of the next frame. -/
def heard : List Message → Option SyncMessage
  | .init _ m :: _ => some m
  | .sync m :: _ => some m
  | _ => none

/-- A replica as its session is served: from the tables it has now. -/
def frozen (r : Replica ns) : Replica ns :=
  { r with store := { r.store with sessionSnapshot := some r.store.tables } }

variable (verify : SignedEntry → Bool) (aliceId bobId : PublicKey) (fA fB : Option (SignedEntry → Bool))

/-- Before the first call. -/
def Wired.new (a b : Replica ns) : Wired ns := ⟨.new aliceId, frozen a, frozen b⟩

/-- What the initiator's sync actor makes of a message. -/
def Wired.aliceRound (w : Wired ns) (now : U64) (m : SyncMessage) : SyncRound ns :=
  syncProcessMessage verify now w.alice m bobId w.net.alice.progress fA

/-- What the accepting side's sync actor makes of a message. -/
def Wired.bobRound (w : Wired ns) (now : U64) (m : SyncMessage) : SyncRound ns :=
  syncProcessMessage verify now w.bob m aliceId w.net.bob.bob.progress fB

/-- One move; `none` where the side has nothing to do. The accept callback allows the session under `fB`. -/
def Wired.step (w : Wired ns) : Act → Option (Wired ns)
  | .start =>
    let initialMessage := (syncInitialMessage w.alice fA).mapError faultText
    (w.net.step ns (fun _ => .allow fB) (.start (.ok ()) initialMessage (.ok ()))).map fun net => { w with net := net }
  | .alice now =>
    match heard w.net.toAlice with
    | some m =>
      let round := w.aliceRound verify bobId fA now m
      (w.net.step ns (fun _ => .allow fB) (.alice ⟨answered round, .ok ()⟩)).map fun net =>
        { w with net := net, alice := round.replica }
    | none =>
      (w.net.step ns (fun _ => .allow fB) (.alice ⟨.error "", .ok ()⟩)).map fun net => { w with net := net }
  | .bob now =>
    match heard w.net.toBob with
    | some m =>
      let round := w.bobRound verify aliceId fB now m
      (w.net.step ns (fun _ => .allow fB) (.bob ⟨.ok (), .ok (), answered round, .ok ()⟩)).map fun net =>
        { w with net := net, bob := round.replica }
    | none =>
      (w.net.step ns (fun _ => .allow fB) (.bob ⟨.ok (), .ok (), .error "", .ok ()⟩)).map fun net =>
        { w with net := net }

/-- The messages in the frames a side wrote. -/
def syncs (sent : List Message) : List SyncMessage :=
  sent.filterMap fun
    | .init _ m => some m
    | .sync m => some m
    | .abort _ => none

omit [Blake3] in
theorem syncs_append (sent sent' : List Message) : syncs (sent ++ sent') = syncs sent ++ syncs sent' :=
  List.filterMap_append

omit [Blake3] in
theorem syncs_map_sync (l : List SyncMessage) : syncs (l.map .sync) = l := by
  unfold syncs
  rw [List.filterMap_map]
  exact List.filterMap_some

end Model

/-! ## A frame whose calls succeed -/

/-- The frame the accepting side expects, with its message. -/
def Carries (ns : NamespaceId) (b : BobState) (msg : Message) (m : SyncMessage) : Prop :=
  (msg = .init ns m ∧ b.session = none) ∨ (msg = .sync m ∧ b.session.isSome ∧ b.namespace.isSome)

theorem Conn.onFrame_answered (fB : Option (SignedEntry → Bool)) {c : Conn} {ns : NamespaceId} {msg : Message}
    {m : SyncMessage} (h : Carries ns c.bob msg m) (reply : Option SyncMessage) (progress : SyncOutcome) :
    ∃ c' : Conn, c.onFrame (fun _ => some (.allow fB)) msg
        (BobAnswers.turn ⟨.ok (), .ok (), .ok (reply, progress), .ok ()⟩) =
          (c', if reply.isSome then .next else .done) ∧
      c'.sent = c.sent ++ reply.toList.map .sync ∧ c'.bob.session.isSome ∧ c'.bob.namespace.isSome ∧
      c'.bob.progress = progress := by
  unfold Conn.onFrame
  rcases h with ⟨rfl, hs⟩ | ⟨rfl, hs, hn⟩
  · simp only [hs]
    cases reply with
    | none => exact ⟨_, rfl, (List.append_nil _).symm, rfl, rfl, rfl⟩
    | some m' => exact ⟨_, rfl, rfl, rfl, rfl, rfl⟩
  · obtain ⟨s, hs'⟩ := Option.isSome_iff_exists.1 hs
    simp only [hs']
    cases reply with
    | none => exact ⟨_, rfl, (List.append_nil _).symm, hs, hn, rfl⟩
    | some m' => exact ⟨_, rfl, rfl, hs, hn, rfl⟩

theorem Alice.onFrame_answered (a : Alice) (m : SyncMessage) (reply : Option SyncMessage) (progress : SyncOutcome) :
    a.onFrame (.sync m) (AliceAnswers.turn ⟨.ok (reply, progress), .ok ()⟩) =
      (⟨progress, a.sent ++ reply.toList.map .sync⟩, if reply.isSome then .next else .done) := by
  cases reply with
  | none => exact Prod.ext (congrArg (Alice.mk progress) (List.append_nil _).symm) rfl
  | some m' => rfl

/-- The accepting side has handled a frame, and its sync actor had `reply` to say. -/
structure BobAnswered (x : Exchange) (reply : Option SyncMessage) (x' : Exchange) : Prop where
  started : x'.started = x.started
  alice : x'.alice = x.alice ∧ x'.aliceRes = x.aliceRes
  toBob : x'.toBob = []
  toAlice : x'.toAlice = x.toAlice ++ reply.toList.map .sync
  sent : x'.bob.sent = x.bob.sent ++ reply.toList.map .sync
  session : x'.bob.bob.session.isSome
  named : x'.bob.bob.namespace.isSome
  next : reply.isSome → x'.bobRes = none
  done : reply = none → ∃ ns, x'.bobRes = some (.ok ns)

theorem Exchange.step_bobAnswered (fB : Option (SignedEntry → Bool)) {x : Exchange} {ns : NamespaceId}
    {msg : Message} {m : SyncMessage} (hbob : x.bobRes = none) (htoBob : x.toBob = [msg])
    (hc : Carries ns x.bob.bob msg m) (reply : Option SyncMessage) (progress : SyncOutcome) :
    ∃ x', x.step ns (fun _ => .allow fB) (.bob ⟨.ok (), .ok (), .ok (reply, progress), .ok ()⟩) = some x' ∧
      BobAnswered x reply x' := by
  obtain ⟨c', heq, hsent, hs, hn, -⟩ := Conn.onFrame_answered fB hc reply progress
  have hstep : x.step ns (fun _ => .allow fB) (.bob ⟨.ok (), .ok (), .ok (reply, progress), .ok ()⟩) =
      { x with toBob := [] }.bobFlow (c', if reply.isSome then .next else .done) := by
    simp only [Exchange.step, hbob, htoBob, Option.isNone_none, if_true, heq]
  cases reply with
  | some m' =>
    refine ⟨_, hstep, rfl, ⟨rfl, rfl⟩, rfl, ?_, hsent, hs, hn, fun _ => rfl,
      fun h => absurd h (Option.some_ne_none _)⟩
    show x.toAlice ++ c'.sent.drop x.bob.sent.length = _
    rw [hsent, List.drop_left]
  | none =>
    obtain ⟨ns', hdone⟩ := Conn.done_of_named hn
    have hends : { x with toBob := [] }.bobFlow (c', .done) =
        some ({ x with toBob := [] }.afterBob c' (some (.ok ns'))) := by
      simp only [Exchange.bobFlow, Exchange.bobEnds, hdone, Conn.ended]
    refine ⟨_, hstep.trans hends, rfl, ⟨rfl, rfl⟩, rfl, ?_, hsent, hs, hn, fun h => absurd h Bool.false_ne_true,
      fun _ => ⟨ns', rfl⟩⟩
    show x.toAlice ++ c'.sent.drop x.bob.sent.length = _
    rw [hsent, List.drop_left]

/-- The initiator has handled a sync frame, and its sync actor had `reply` to say. -/
structure AliceAnswered (x : Exchange) (reply : Option SyncMessage) (x' : Exchange) : Prop where
  started : x'.started = x.started
  bob : x'.bob = x.bob ∧ x'.bobRes = x.bobRes
  toAlice : x'.toAlice = []
  toBob : x'.toBob = x.toBob ++ reply.toList.map .sync
  sent : x'.alice.sent = x.alice.sent ++ reply.toList.map .sync
  next : reply.isSome → x'.aliceRes = none
  done : reply = none → ∃ outcome, x'.aliceRes = some (.ok outcome)

theorem Exchange.step_aliceAnswered (ns : NamespaceId) (acceptCb : NamespaceId → AcceptOutcome) {x : Exchange}
    {m : SyncMessage} (hstarted : x.started = true) (halice : x.aliceRes = none) (htoAlice : x.toAlice = [.sync m])
    (reply : Option SyncMessage) (progress : SyncOutcome) :
    ∃ x', x.step ns acceptCb (.alice ⟨.ok (reply, progress), .ok ()⟩) = some x' ∧ AliceAnswered x reply x' := by
  have hstep : x.step ns acceptCb (.alice ⟨.ok (reply, progress), .ok ()⟩) =
      { x with toAlice := [] }.aliceFlow
        (⟨progress, x.alice.sent ++ reply.toList.map Message.sync⟩, if reply.isSome then .next else .done) := by
    simp only [Exchange.step, hstarted, halice, htoAlice, Option.isNone_none, Bool.and_true, if_true,
      Alice.onFrame_answered]
  cases reply with
  | some m' =>
    refine ⟨_, hstep, rfl, ⟨rfl, rfl⟩, rfl, ?_, rfl, fun _ => rfl, fun h => absurd h (Option.some_ne_none _)⟩
    show x.toBob ++ (x.alice.sent ++ _).drop x.alice.sent.length = _
    rw [List.drop_left]
  | none =>
    refine ⟨_, hstep, rfl, ⟨rfl, rfl⟩, rfl, ?_, rfl, fun h => absurd h Bool.false_ne_true, fun _ => ⟨progress, rfl⟩⟩
    show x.toBob ++ (x.alice.sent ++ _).drop x.alice.sent.length = _
    rw [List.drop_left]

/-! ## The loop beside it -/

section Twin

variable {ns : NamespaceId} [Blake3] (verify : SignedEntry → Bool) (aliceId bobId : PublicKey)
  (fA fB : Option (SignedEntry → Bool)) {W : Set SignedEntry} {gateA gateB : SignedEntry → ValidateOutcome}

/-- A session over the reference store. -/
abbrev ReferenceSession (ns : NamespaceId) := SessionStore (Snapshotted (ReferenceTables ns)) SignedEntry

/-- The loop of the set reconciliation between two of them. -/
abbrev Loop (ns : NamespaceId) :=
  Ranger.Exchange (ReferenceSession ns) (ReferenceSession ns) SignedEntry RecordIdentifier RejectId

/-- What a replica and the reference make of a message. -/
theorem processed_reference (hW : Ordinary ns W) {r : Replica ns} {filter : Option (SignedEntry → Bool)}
    {s : ReferenceSession ns} (h : SessionsMatch ns W ⟨r.store, filter⟩ s)
    (hserves : s.inner.snapshot.tables.HoldsOnly ns W) {now : U64} {peer : PeerIdBytes}
    {gate : SignedEntry → ValidateOutcome}
    (hgate : ∀ e ∈ W, ∀ s status, validateCb verify now r peer s e status = gate e)
    {m : SyncMessage} (hm : ∀ v ∈ m.values, v.1 ∈ W) :
    (processed verify now r m peer filter).reply =
      (Ranger.processMessage default (Ranger.gated gate) (contentStatus r) s m).reply ∧
    SessionsMatch ns W (processed verify now r m peer filter).store
      (Ranger.processMessage default (Ranger.gated gate) (contentStatus r) s m).store ∧
    ∀ reply, (processed verify now r m peer filter).reply = .ok (some reply) → ∀ v ∈ reply.values, v.1 ∈ W := by
  have hjudge : ∀ (s : ReplicaSession ns) (s' : ReferenceSession ns) (e : SignedEntry) (status : ContentStatus),
      e ∈ W → validateCb verify now r peer s e status = Ranger.gated gate s' e status :=
    fun s _ e status he => hgate e he s status
  have hsim := processMessage_simulates (simulates_session hW) hjudge default (contentStatus r) h hm
  refine ⟨hsim.2.2, hsim.1, fun reply hreply v hv => ?_⟩
  obtain ⟨hns, -, hsource⟩ :=
    values_confined ((processed_confinement verify now r m peer filter).served reply hreply) v hv
  exact hserves v.1 (hsource _ h.snapshot) hns

/-- Where the connection is when the loop has `inFlight` for `turn` to read. -/
inductive Stage (ns : NamespaceId) (x : Exchange) (inFlight : Option SyncMessage) (turn : Ranger.Side) : Prop
  | asked (msg : Message) (m : SyncMessage) (flight : inFlight = some m) (reader : turn = .bob)
      (carries : Carries ns x.bob.bob msg m) (toBob : x.toBob = [msg]) (toAlice : x.toAlice = [])
      (alice : x.aliceRes = none) (bob : x.bobRes = none)
  | answered (m : SyncMessage) (flight : inFlight = some m) (reader : turn = .alice) (toBob : x.toBob = [])
      (toAlice : x.toAlice = [.sync m]) (alice : x.aliceRes = none) (bob : x.bobRes = none)
      (session : x.bob.bob.session.isSome) (named : x.bob.bob.namespace.isSome)
  /-- the accepting side is done, and the initiator reads the end of the stream -/
  | served (ns' : NamespaceId) (flight : inFlight = none) (toAlice : x.toAlice = []) (alice : x.aliceRes = none)
      (bob : x.bobRes = some (.ok ns'))
  /-- the initiator is done, and the accepting side reads the end of the stream -/
  | left (outcome : SyncOutcome) (flight : inFlight = none) (toBob : x.toBob = [])
      (alice : x.aliceRes = some (.ok outcome)) (bob : x.bobRes = none) (named : x.bob.bob.namespace.isSome)
  | agreed (outcome : SyncOutcome) (ns' : NamespaceId) (flight : inFlight = none)
      (alice : x.aliceRes = some (.ok outcome)) (bob : x.bobRes = some (.ok ns'))

/-- A connection, and the loop beside it. -/
structure Twin (fA fB : Option (SignedEntry → Bool)) (W : Set SignedEntry) (a b : Replica ns) (w : Wired ns)
    (y : Loop ns) : Prop where
  started : w.net.started = true
  stage : Stage ns w.net y.inFlight y.turn
  alice : SessionsMatch ns W ⟨w.alice.store, fA⟩ y.alice
  bob : SessionsMatch ns W ⟨w.bob.store, fB⟩ y.bob
  info : w.alice.info = a.info ∧ w.bob.info = b.info
  serves : y.alice.inner.snapshot.tables.HoldsOnly ns W ∧ y.bob.inner.snapshot.tables.HoldsOnly ns W
  values : ∀ m, y.inFlight = some m → ∀ v ∈ m.values, v.1 ∈ W
  aliceSent : syncs w.net.alice.sent = y.aliceToBob
  bobSent : syncs w.net.bob.sent = y.bobToAlice

/-- Both sides have returned. -/
def Wired.returned (w : Wired ns) : Nat := if w.net.aliceRes.isSome && w.net.bobRes.isSome then 1 else 0

omit [Blake3] in
theorem answered_of_reply {round : SyncRound ns} {reply : Option SyncMessage} (h : round.reply = .ok reply) :
    answered round = .ok (reply, round.state) := by
  unfold answered
  rw [h]
  rfl

omit [Blake3] in
theorem contentStatus_congr {r r' : Replica ns} (h : r.info = r'.info) : contentStatus r = contentStatus r' := by
  unfold contentStatus
  rw [h]

omit [Blake3] in
theorem validateCb_congr {r r' : Replica ns} (h : r.info = r'.info) (now : U64) (peer : PeerIdBytes) :
    validateCb verify now r peer = validateCb verify now r' peer := by
  unfold validateCb
  rw [h]

theorem snapshot_processed (gate : SignedEntry → ValidateOutcome) (status : SignedEntry → ContentStatus)
    (s : ReferenceSession ns) (m : SyncMessage) :
    (Ranger.processMessage default (Ranger.gated gate) status s m).store.inner.snapshot = s.inner.snapshot :=
  Ranger.processMessage_preserves (P := fun t : ReferenceSession ns => t.inner.snapshot = s.inner.snapshot) _ _ _ rfl m
    fun t v _ _ ht => by
      rw [put_session]
      exact ht

variable {a b : Replica ns} {w : Wired ns} {y y' : Loop ns}

/-- Step: the accepting side handles the frame in flight. -/
theorem twin_bob (hW : Ordinary ns W) (h : Twin fA fB W a b w y) (hopen : b.info.closed = false) {now : U64}
    (hgate : ∀ e ∈ W, ∀ s status, validateCb verify now b aliceId s e status = gateB e) {m : SyncMessage}
    (hm : y.inFlight = some m) (hturn : y.turn = .bob)
    (hstep : y.stepWith (Ranger.gated gateA) (Ranger.gated gateB) (contentStatus a) (contentStatus b) = .ok y') :
    ∃ w', w.step verify aliceId bobId fA fB (.bob now) = some w' ∧ Twin fA fB W a b w' y' ∧ w'.returned = 0 := by
  unfold Ranger.Exchange.stepWith at hstep
  rw [hm, hturn] at hstep
  obtain ⟨reply, hreply, hy'⟩ := bind_eq_ok.1 hstep
  cases hy'
  -- the round of the replica
  rw [← validateCb_congr verify h.info.2] at hgate
  rw [← contentStatus_congr h.info.2] at hreply ⊢
  obtain ⟨hsame, hmatch, hvalues⟩ := processed_reference verify hW h.bob h.serves.2 hgate (h.values m hm)
  obtain ⟨hround, hreplica⟩ : (w.bobRound verify aliceId fB now m).reply =
        (processed verify now w.bob m aliceId fB).reply ∧ (w.bobRound verify aliceId fB now m).replica =
        { w.bob with store := (processed verify now w.bob m aliceId fB).store.inner } :=
    syncProcessMessage_open verify (h.info.2 ▸ hopen)
  have hok := hsame.trans hreply
  have hanswer : answered (w.bobRound verify aliceId fB now m) =
      .ok (reply, (w.bobRound verify aliceId fB now m).state) := answered_of_reply (hround.trans hok)
  rw [store_processed] at hmatch
  cases h.stage with
  | asked msg m' hflight _ hcarries htoBob htoAlice halice hbob =>
    obtain rfl : m' = m := Option.some.inj (hflight.symm.trans hm)
    have hheard : heard w.net.toBob = some m' := by
      rw [htoBob]
      rcases hcarries with ⟨rfl, -⟩ | ⟨rfl, -, -⟩ <;> rfl
    obtain ⟨x', hx', hansw⟩ := Exchange.step_bobAnswered fB hbob htoBob hcarries reply
      (w.bobRound verify aliceId fB now m').state
    refine ⟨{ w with net := x', bob := (w.bobRound verify aliceId fB now m').replica }, ?_, ?_, ?_⟩
    · simp only [Wired.step, hheard, hanswer, hx', Option.map_some]
    · rw [hreplica]
      refine ⟨hansw.started.trans h.started, ?_, h.alice, hmatch, ⟨h.info.1, h.info.2⟩, ⟨h.serves.1, ?_⟩, ?_, ?_, ?_⟩
      · cases reply with
        | some m'' =>
          exact .answered m'' rfl rfl hansw.toBob (by rw [hansw.toAlice, htoAlice]; rfl) (hansw.alice.2.trans halice)
            (hansw.next rfl) hansw.session hansw.named
        | none =>
          obtain ⟨ns', hdone⟩ := hansw.done rfl
          exact .served ns' rfl (by rw [hansw.toAlice, htoAlice]; rfl) (hansw.alice.2.trans halice) hdone
      · rw [snapshot_processed]
        exact h.serves.2
      · rintro m'' rfl
        exact hvalues m'' hok
      · rw [hansw.alice.1]
        exact h.aliceSent
      · rw [hansw.sent, syncs_append, syncs_map_sync, h.bobSent]
    · simp [Wired.returned, hansw.alice.2, halice]
  | answered m' hflight hreader => rw [hturn] at hreader; cases hreader
  | served ns' hflight => rw [hm] at hflight; cases hflight
  | left outcome hflight => rw [hm] at hflight; cases hflight
  | agreed outcome ns' hflight => rw [hm] at hflight; cases hflight

/-- Step: the initiator handles the frame in flight. -/
theorem twin_alice (hW : Ordinary ns W) (h : Twin fA fB W a b w y) (hopen : a.info.closed = false) {now : U64}
    (hgate : ∀ e ∈ W, ∀ s status, validateCb verify now a bobId s e status = gateA e) {m : SyncMessage}
    (hm : y.inFlight = some m) (hturn : y.turn = .alice)
    (hstep : y.stepWith (Ranger.gated gateA) (Ranger.gated gateB) (contentStatus a) (contentStatus b) = .ok y') :
    ∃ w', w.step verify aliceId bobId fA fB (.alice now) = some w' ∧ Twin fA fB W a b w' y' ∧ w'.returned = 0 := by
  unfold Ranger.Exchange.stepWith at hstep
  rw [hm, hturn] at hstep
  obtain ⟨reply, hreply, hy'⟩ := bind_eq_ok.1 hstep
  cases hy'
  -- the round of the replica
  rw [← validateCb_congr verify h.info.1] at hgate
  rw [← contentStatus_congr h.info.1] at hreply ⊢
  obtain ⟨hsame, hmatch, hvalues⟩ := processed_reference verify hW h.alice h.serves.1 hgate (h.values m hm)
  obtain ⟨hround, hreplica⟩ : (w.aliceRound verify bobId fA now m).reply =
        (processed verify now w.alice m bobId fA).reply ∧ (w.aliceRound verify bobId fA now m).replica =
        { w.alice with store := (processed verify now w.alice m bobId fA).store.inner } :=
    syncProcessMessage_open verify (h.info.1 ▸ hopen)
  have hok := hsame.trans hreply
  have hanswer : answered (w.aliceRound verify bobId fA now m) =
      .ok (reply, (w.aliceRound verify bobId fA now m).state) := answered_of_reply (hround.trans hok)
  rw [store_processed] at hmatch
  cases h.stage with
  | answered m' hflight _ htoBob htoAlice halice hbob hs hn =>
    obtain rfl : m' = m := Option.some.inj (hflight.symm.trans hm)
    have hheard : heard w.net.toAlice = some m' := by
      rw [htoAlice]
      rfl
    obtain ⟨x', hx', hansw⟩ := Exchange.step_aliceAnswered ns (fun _ => .allow fB) h.started
      halice htoAlice reply (w.aliceRound verify bobId fA now m').state
    refine ⟨{ w with net := x', alice := (w.aliceRound verify bobId fA now m').replica }, ?_, ?_, ?_⟩
    · simp only [Wired.step, hheard, hanswer, hx', Option.map_some]
    · rw [hreplica]
      refine ⟨hansw.started.trans h.started, ?_, hmatch, h.bob, ⟨h.info.1, h.info.2⟩, ⟨?_, h.serves.2⟩, ?_, ?_, ?_⟩
      · cases reply with
        | some m'' =>
          refine .asked (.sync m'') m'' rfl rfl (.inr ⟨rfl, ?_, ?_⟩) (by rw [hansw.toBob, htoBob]; rfl)
            hansw.toAlice (hansw.next rfl) (hansw.bob.2.trans hbob)
          · rw [hansw.bob.1]
            exact hs
          · rw [hansw.bob.1]
            exact hn
        | none =>
          obtain ⟨outcome, hdone⟩ := hansw.done rfl
          refine .left outcome rfl (by rw [hansw.toBob, htoBob]; rfl) hdone (hansw.bob.2.trans hbob) ?_
          rw [hansw.bob.1]
          exact hn
      · rw [snapshot_processed]
        exact h.serves.1
      · rintro m'' rfl
        exact hvalues m'' hok
      · rw [hansw.sent, syncs_append, syncs_map_sync, h.aliceSent]
      · rw [hansw.bob.1]
        exact h.bobSent
    · simp [Wired.returned, hansw.bob.2, hbob]
  | asked msg m' hflight hreader => rw [hturn] at hreader; cases hreader
  | served ns' hflight => rw [hm] at hflight; cases hflight
  | left outcome hflight => rw [hm] at hflight; cases hflight
  | agreed outcome ns' hflight => rw [hm] at hflight; cases hflight

/-- While the act handles a frame, the clock it shows is judged by as the gates say. -/
def Act.Judged (gateA gateB : SignedEntry → ValidateOutcome) (W : Set SignedEntry) (a b : Replica ns) : Act → Prop
  | .start => True
  | .alice now => ∀ e ∈ W, ∀ s status, validateCb verify now a bobId s e status = gateA e
  | .bob now => ∀ e ∈ W, ∀ s status, validateCb verify now b aliceId s e status = gateB e

theorem step_start_of_started (h : w.net.started = true) : w.step verify aliceId bobId fA fB .start = none := by
  simp [Wired.step, Exchange.step, h]

/-- A side that has returned, or has nothing to read before the other one returns, does not move. -/
theorem step_alice_idle (h : w.net.aliceRes.isSome ∨ (w.net.toAlice = [] ∧ w.net.bobRes = none)) (now : U64) :
    w.step verify aliceId bobId fA fB (.alice now) = none := by
  rcases h with h | ⟨htoAlice, hbob⟩
  · obtain ⟨res, hres⟩ := Option.isSome_iff_exists.1 h
    unfold Wired.step
    cases heard w.net.toAlice <;> simp [Exchange.step, hres]
  · simp [Wired.step, heard, Exchange.step, htoAlice, hbob]

theorem step_bob_idle (h : w.net.bobRes.isSome ∨ (w.net.toBob = [] ∧ w.net.aliceRes = none)) (now : U64) :
    w.step verify aliceId bobId fA fB (.bob now) = none := by
  rcases h with h | ⟨htoBob, halice⟩
  · obtain ⟨res, hres⟩ := Option.isSome_iff_exists.1 h
    unfold Wired.step
    cases heard w.net.toBob <;> simp [Exchange.step, hres]
  · simp [Wired.step, heard, Exchange.step, htoBob, halice]

/-- The initiator reads the end of the stream. -/
theorem twin_aliceEof (h : Twin fA fB W a b w y) {ns' : NamespaceId} (hnone : y.inFlight = none)
    (htoAlice : w.net.toAlice = []) (halice : w.net.aliceRes = none) (hbob : w.net.bobRes = some (.ok ns'))
    (now : U64) :
    ∃ w', w.step verify aliceId bobId fA fB (.alice now) = some w' ∧ Twin fA fB W a b w' y ∧ w'.returned = 1 := by
  refine ⟨{ w with net := w.net.afterAlice w.net.alice (some (.ok w.net.alice.progress)) }, ?_, ?_, ?_⟩
  · simp [Wired.step, heard, Exchange.step, h.started, halice, htoAlice, hbob]
  · exact ⟨h.started, .agreed _ ns' hnone rfl hbob, h.alice, h.bob, h.info, h.serves, h.values, h.aliceSent, h.bobSent⟩
  · simp [Wired.returned, Exchange.afterAlice, hbob]

/-- The accepting side reads the end of the stream. -/
theorem twin_bobEof (h : Twin fA fB W a b w y) {outcome : SyncOutcome} (hnone : y.inFlight = none)
    (htoBob : w.net.toBob = []) (halice : w.net.aliceRes = some (.ok outcome)) (hbob : w.net.bobRes = none)
    (hn : w.net.bob.bob.namespace.isSome) (now : U64) :
    ∃ w', w.step verify aliceId bobId fA fB (.bob now) = some w' ∧ Twin fA fB W a b w' y ∧ w'.returned = 1 := by
  obtain ⟨ns', hdone⟩ := Conn.done_of_named hn
  refine ⟨{ w with net := w.net.afterBob w.net.bob (some (.ok ns')) }, ?_, ?_, ?_⟩
  · simp [Wired.step, heard, Exchange.step, halice, htoBob, hbob, Exchange.bobEnds, hdone, Conn.ended]
  · exact ⟨h.started, .agreed outcome ns' hnone halice rfl, h.alice, h.bob, h.info, h.serves, h.values, h.aliceSent,
      h.bobSent⟩
  · simp [Wired.returned, Exchange.afterBob, halice]

/-- What a move makes of a connection and the loop beside it: it takes a step of the loop, or ends. -/
def Moves (fA fB : Option (SignedEntry → Bool)) (W : Set SignedEntry) (gateA gateB : SignedEntry → ValidateOutcome)
    (a b : Replica ns) (w' : Wired ns) (y : Loop ns) : Prop :=
  (y.inFlight.isSome ∧ ∃ y', y.stepWith (Ranger.gated gateA) (Ranger.gated gateB) (contentStatus a) (contentStatus b) =
    .ok y' ∧ Twin fA fB W a b w' y' ∧ w'.returned = 0) ∨
  (y.inFlight = none ∧ Twin fA fB W a b w' y ∧ w'.returned = 1)

/-- Step: whichever side moves; and before both have returned, one of them can. -/
theorem twin_step (hW : Ordinary ns W) (h : Twin fA fB W a b w y) (hopenA : a.info.closed = false)
    (hopenB : b.info.closed = false)
    (hloop : y.inFlight.isSome → ∃ y', y.stepWith (Ranger.gated gateA) (Ranger.gated gateB) (contentStatus a)
      (contentStatus b) = .ok y') :
    (∀ act w', act.Judged verify aliceId bobId gateA gateB W a b → w.step verify aliceId bobId fA fB act = some w' →
      w.returned = 0 ∧ Moves fA fB W gateA gateB a b w' y) ∧
    (w.returned = 0 → ∃ side : U64 → Act, ∀ now, (side now).Judged verify aliceId bobId gateA gateB W a b →
      (w.step verify aliceId bobId fA fB (side now)).isSome) := by
  cases h.stage with
  | asked msg m hflight hreader hcarries htoBob htoAlice halice hbob =>
    obtain ⟨y', hy'⟩ := hloop (hflight ▸ rfl)
    have hmove : ∀ now, (Act.bob now).Judged verify aliceId bobId gateA gateB W a b → ∃ w',
        w.step verify aliceId bobId fA fB (.bob now) = some w' ∧ Twin fA fB W a b w' y' ∧ w'.returned = 0 :=
      fun now hgate => twin_bob verify aliceId bobId fA fB hW h hopenB hgate hflight hreader hy'
    refine ⟨fun act w' hact hstep => ⟨by simp [Wired.returned, halice], ?_⟩, fun _ => ⟨.bob, fun now hact => ?_⟩⟩
    · cases act with
      | start => rw [step_start_of_started verify aliceId bobId fA fB h.started] at hstep; cases hstep
      | alice now =>
        rw [step_alice_idle verify aliceId bobId fA fB (.inr ⟨htoAlice, hbob⟩)] at hstep
        cases hstep
      | bob now =>
        obtain ⟨w'', hw'', htwin, hret⟩ := hmove now hact
        obtain rfl := Option.some.inj (hstep.symm.trans hw'')
        exact .inl ⟨hflight ▸ rfl, y', hy', htwin, hret⟩
    · obtain ⟨w', hw', -⟩ := hmove now hact
      exact hw' ▸ rfl
  | answered m hflight hreader htoBob htoAlice halice hbob hs hn =>
    obtain ⟨y', hy'⟩ := hloop (hflight ▸ rfl)
    have hmove : ∀ now, (Act.alice now).Judged verify aliceId bobId gateA gateB W a b → ∃ w',
        w.step verify aliceId bobId fA fB (.alice now) = some w' ∧ Twin fA fB W a b w' y' ∧ w'.returned = 0 :=
      fun now hgate => twin_alice verify aliceId bobId fA fB hW h hopenA hgate hflight hreader hy'
    refine ⟨fun act w' hact hstep => ⟨by simp [Wired.returned, halice], ?_⟩, fun _ => ⟨.alice, fun now hact => ?_⟩⟩
    · cases act with
      | start => rw [step_start_of_started verify aliceId bobId fA fB h.started] at hstep; cases hstep
      | bob now =>
        rw [step_bob_idle verify aliceId bobId fA fB (.inr ⟨htoBob, halice⟩)] at hstep
        cases hstep
      | alice now =>
        obtain ⟨w'', hw'', htwin, hret⟩ := hmove now hact
        obtain rfl := Option.some.inj (hstep.symm.trans hw'')
        exact .inl ⟨hflight ▸ rfl, y', hy', htwin, hret⟩
    · obtain ⟨w', hw', -⟩ := hmove now hact
      exact hw' ▸ rfl
  | served ns' hflight htoAlice halice hbob =>
    have hmove := twin_aliceEof verify aliceId bobId fA fB h hflight htoAlice halice hbob
    refine ⟨fun act w' _ hstep => ⟨by simp [Wired.returned, halice], ?_⟩, fun _ => ⟨.alice, fun now _ => ?_⟩⟩
    · cases act with
      | start => rw [step_start_of_started verify aliceId bobId fA fB h.started] at hstep; cases hstep
      | bob now =>
        rw [step_bob_idle verify aliceId bobId fA fB (.inl (hbob ▸ rfl))] at hstep
        cases hstep
      | alice now =>
        obtain ⟨w'', hw'', htwin, hret⟩ := hmove now
        obtain rfl := Option.some.inj (hstep.symm.trans hw'')
        exact .inr ⟨hflight, htwin, hret⟩
    · obtain ⟨w', hw', -⟩ := hmove now
      exact hw' ▸ rfl
  | left outcome hflight htoBob halice hbob hn =>
    have hmove := twin_bobEof verify aliceId bobId fA fB h hflight htoBob halice hbob hn
    refine ⟨fun act w' _ hstep => ⟨by simp [Wired.returned, hbob], ?_⟩, fun _ => ⟨.bob, fun now _ => ?_⟩⟩
    · cases act with
      | start => rw [step_start_of_started verify aliceId bobId fA fB h.started] at hstep; cases hstep
      | alice now =>
        rw [step_alice_idle verify aliceId bobId fA fB (.inl (halice ▸ rfl))] at hstep
        cases hstep
      | bob now =>
        obtain ⟨w'', hw'', htwin, hret⟩ := hmove now
        obtain rfl := Option.some.inj (hstep.symm.trans hw'')
        exact .inr ⟨hflight, htwin, hret⟩
    · obtain ⟨w', hw', -⟩ := hmove now
      exact hw' ▸ rfl
  | agreed outcome ns' hflight halice hbob =>
    refine ⟨fun act w' _ hstep => ?_, fun hret => by simp [Wired.returned, halice, hbob] at hret⟩
    cases act with
    | start => rw [step_start_of_started verify aliceId bobId fA fB h.started] at hstep; cases hstep
    | alice now =>
      rw [step_alice_idle verify aliceId bobId fA fB (.inl (halice ▸ rfl))] at hstep
      cases hstep
    | bob now =>
      rw [step_bob_idle verify aliceId bobId fA fB (.inl (hbob ▸ rfl))] at hstep
      cases hstep

/-- The initiator starts, and its initial message is the one of the loop. -/
theorem twin_start {x₀ : Loop ns} (hopen : a.info.closed = false) (hheldA : a.store.tables.HoldsOnly ns W)
    (hheldB : b.store.tables.HoldsOnly ns W)
    (hstart : Ranger.Exchange.start (session (⟨a.store.tables⟩ : ReferenceTables ns) fA)
      (session (⟨b.store.tables⟩ : ReferenceTables ns) fB) = .ok x₀) :
    ∃ w', (Wired.new aliceId a b).step verify aliceId bobId fA fB .start = some w' ∧
      Twin fA fB W a b w' x₀ ∧ w'.returned = 0 := by
  obtain ⟨m, hm, hx₀⟩ := bind_eq_ok.1 hstart
  cases hx₀
  have hinitial : syncInitialMessage (frozen a) fA = .ok m := by
    unfold syncInitialMessage
    rw [show (frozen a).info.closed = false from hopen]
    exact hm
  have hvalues : m.values = [] := by
    obtain ⟨x, -, hm⟩ := bind_eq_ok.1 hm
    obtain ⟨fp, -, hm⟩ := bind_eq_ok.1 hm
    cases hm
    rfl
  refine ⟨⟨{ (Exchange.new aliceId) with
    started := true, alice := ⟨Alice.new.progress, [.init ns m]⟩, toBob := [.init ns m] }, frozen a, frozen b⟩, ?_,
    ⟨rfl, .asked (.init ns m) m rfl rfl (.inl ⟨rfl, rfl⟩) rfl rfl rfl rfl, ⟨rfl, rfl, rfl, hheldA⟩,
      ⟨rfl, rfl, rfl, hheldB⟩, ⟨rfl, rfl⟩, ⟨hheldA, hheldB⟩, ?_, rfl, rfl⟩, rfl⟩
  · simp only [Wired.step, Wired.new, hinitial]
    rfl
  · rintro m' hm' v hv
    obtain rfl : m = m' := Option.some.inj hm'
    rw [hvalues] at hv
    cases hv

omit [Blake3] in
/-- Before it starts, nothing else can happen. -/
theorem step_new [Blake3] {act : Act} {w' : Wired ns}
    (h : (Wired.new aliceId a b).step verify aliceId bobId fA fB act = some w') : act = .start := by
  cases act with
  | start => rfl
  | alice now => simp [Wired.new, Wired.step, heard, Exchange.new, Exchange.step] at h
  | bob now => simp [Wired.new, Wired.step, heard, Exchange.new, Exchange.step] at h

/-- A loop with a message in flight, that will be over, takes a step. -/
theorem step_of_runWith {x : Loop ns} (hover : x.inFlight = none) (hsome : y.inFlight.isSome) {n : Nat}
    {validateA validateB : ReferenceSession ns → SignedEntry → ContentStatus → ValidateOutcome}
    {statusA statusB : SignedEntry → ContentStatus} (h : y.runWith validateA validateB statusA statusB n = .ok x) :
    ∃ m y', n = m + 1 ∧ y.stepWith validateA validateB statusA statusB = .ok y' ∧
      y'.runWith validateA validateB statusA statusB m = .ok x := by
  cases n with
  | zero =>
    cases h
    rw [hover] at hsome
    cases hsome
  | succ m =>
    obtain ⟨y', hy', hrest⟩ := bind_eq_ok.1 h
    exact ⟨m, y', rfl, hy', hrest⟩

/-- Run: while the loop beside it has `n` messages at most to go. -/
theorem twin_run (hW : Ordinary ns W) {x : Loop ns} (hopenA : a.info.closed = false) (hopenB : b.info.closed = false)
    (hover : x.inFlight = none) (acts : List Act)
    (hacts : ∀ act ∈ acts, act.Judged verify aliceId bobId gateA gateB W a b)
    {n : Nat} (h : Twin fA fB W a b w y)
    (hn : y.runWith (Ranger.gated gateA) (Ranger.gated gateB) (contentStatus a) (contentStatus b) n = .ok x)
    {w' : Wired ns} (hrun : runs (fun w act => w.step verify aliceId bobId fA fB act) w acts = some w') :
    ∃ (n' : Nat) (y' : Loop ns), Twin fA fB W a b w' y' ∧
      y'.runWith (Ranger.gated gateA) (Ranger.gated gateB) (contentStatus a) (contentStatus b) n' = .ok x ∧
      acts.length + n' + w.returned = n + w'.returned := by
  induction acts generalizing w y n with
  | nil =>
    cases hrun
    exact ⟨n, y, h, hn, by simp⟩
  | cons act acts ih =>
    unfold runs at hrun
    cases hstep : w.step verify aliceId bobId fA fB act with
    | none => rw [hstep] at hrun; cases hrun
    | some w₁ =>
      rw [hstep] at hrun
      obtain ⟨hret, hmoves⟩ := (twin_step verify aliceId bobId fA fB hW h hopenA hopenB fun hsome => by
        obtain ⟨-, y', -, hy', -⟩ := step_of_runWith hover hsome hn
        exact ⟨y', hy'⟩).1 act w₁ (hacts act List.mem_cons_self) hstep
      have hrest : ∀ act ∈ acts, act.Judged verify aliceId bobId gateA gateB W a b := fun act hact =>
        hacts act (List.mem_cons_of_mem _ hact)
      rcases hmoves with ⟨hsome, y₁, hy₁, htwin, hret'⟩ | ⟨-, htwin, hret'⟩
      · obtain ⟨m, y₂, rfl, hy₂, hm⟩ := step_of_runWith hover hsome hn
        obtain rfl : y₁ = y₂ := Except.ok.inj (hy₁.symm.trans hy₂)
        obtain ⟨n', y', htwin', hn', hcount⟩ := ih hrest htwin hm hrun
        refine ⟨n', y', htwin', hn', ?_⟩
        rw [List.length_cons]
        omega
      · obtain ⟨n', y', htwin', hn', hcount⟩ := ih hrest htwin hn hrun
        refine ⟨n', y', htwin', hn', ?_⟩
        rw [List.length_cons]
        omega

/-- The entries a replica holds. -/
def held (r : Replica ns) : List SignedEntry := r.store.tables.entries.filter fun e => e.id.namespace = ns

omit [Blake3] in
/-- No side fails beside the loop, and where both have returned it is over. -/
theorem Twin.ends (h : Twin fA fB W a b w y) : (∀ e, w.net.aliceRes ≠ some (.error e)) ∧
    (∀ e, w.net.bobRes ≠ some (.error e)) ∧ (w.returned = 1 → y.inFlight = none) := by
  cases h.stage with
  | asked msg m hflight hreader hcarries htoBob htoAlice halice hbob => simp [Wired.returned, halice, hbob]
  | answered m hflight hreader htoBob htoAlice halice hbob => simp [Wired.returned, halice, hbob]
  | served ns' hflight htoAlice halice hbob => simp [Wired.returned, halice, hbob]
  | left outcome hflight htoBob halice hbob => simp [Wired.returned, halice, hbob]
  | agreed outcome ns' hflight halice hbob => simp [halice, hbob, hflight]

/-- A run either has not begun, or begins with the start of the initiator. -/
theorem run_new {acts : List Act} (hopen : a.info.closed = false) (hheldA : a.store.tables.HoldsOnly ns W)
    (hheldB : b.store.tables.HoldsOnly ns W) {x₀ : Loop ns}
    (hstart : Ranger.Exchange.start (session (⟨a.store.tables⟩ : ReferenceTables ns) fA)
      (session (⟨b.store.tables⟩ : ReferenceTables ns) fB) = .ok x₀)
    (hrun : runs (fun w act => w.step verify aliceId bobId fA fB act) (Wired.new aliceId a b) acts = some w) :
    (acts = [] ∧ w = Wired.new aliceId a b ∧
      ((Wired.new aliceId a b).step verify aliceId bobId fA fB .start).isSome) ∨
    ∃ rest w₁, acts = .start :: rest ∧ Twin fA fB W a b w₁ x₀ ∧ w₁.returned = 0 ∧
      runs (fun w act => w.step verify aliceId bobId fA fB act) w₁ rest = some w := by
  obtain ⟨w₁, hw₁, htwin, hret⟩ := twin_start verify aliceId bobId fA fB hopen hheldA hheldB hstart
  cases acts with
  | nil =>
    cases hrun
    exact .inl ⟨rfl, rfl, hw₁ ▸ rfl⟩
  | cons act rest =>
    unfold runs at hrun
    cases hstep : (Wired.new aliceId a b).step verify aliceId bobId fA fB act with
    | none => rw [hstep] at hrun; cases hrun
    | some w₂ =>
      rw [hstep] at hrun
      obtain rfl := step_new verify aliceId bobId fA fB hstep
      obtain rfl : w₁ = w₂ := Option.some.inj (hw₁.symm.trans hstep)
      exact .inr ⟨rest, w₁, rfl, htwin, hret, hrun⟩

/-- **The exchange over a connection reconciles the replicas.** -/
theorem wired_exchange_reconciles (gateA gateB : SignedEntry → ValidateOutcome) (hopenA : a.info.closed = false)
    (hopenB : b.info.closed = false) (hordinary : Ordinary ns {e | e ∈ held a ∨ e ∈ held b})
    (ha : IsAntichain (· ≤ ·) (Ranger.stamps (held a))) (hb : IsAntichain (· ≤ ·) (Ranger.stamps (held b)))
    (ht : Ranger.RangesTell (admits fA (held a)) (admits fB (held b))) (acts : List Act)
    (hacts : ∀ act ∈ acts, act.Judged verify aliceId bobId gateA gateB {e | e ∈ held a ∨ e ∈ held b} a b)
    (hrun : runs (fun w act => w.step verify aliceId bobId fA fB act) (Wired.new aliceId a b) acts = some w) :
    acts.length ≤ min (2 * Nat.clog 2 (admits fB (held b)).length)
      (2 * Nat.clog 2 (admits fA (held a)).length + 1) + 6 ∧
    (∀ e, w.net.aliceRes ≠ some (.error e)) ∧ (∀ e, w.net.bobRes ≠ some (.error e)) ∧
    (w.returned = 0 → ∃ side : U64 → Act, ∀ now,
      (side now).Judged verify aliceId bobId gateA gateB {e | e ∈ held a ∨ e ∈ held b} a b →
      (w.step verify aliceId bobId fA fB (side now)).isSome) ∧
    (w.returned = 1 →
      Ranger.Reconciled gateA (held a) (admits fB (held b)) (held w.alice)
        (Ranger.sentRejections (syncs w.net.alice.sent)) ∧
      Ranger.Reconciled gateB (held b) (admits fA (held a)) (held w.bob)
        (Ranger.sentRejections (syncs w.net.bob.sent))) := by
  have hheldA : a.store.tables.HoldsOnly ns {e | e ∈ held a ∨ e ∈ held b} := fun e he hns =>
    .inl (List.mem_filter.2 ⟨he, decide_eq_true hns⟩)
  have hheldB : b.store.tables.HoldsOnly ns {e | e ∈ held a ∨ e ∈ held b} := fun e he hns =>
    .inr (List.mem_filter.2 ⟨he, decide_eq_true hns⟩)
  -- the loop over the reference store, how it ends, and how long it takes
  obtain ⟨n, x₀, x, hstart, hrunWith, hover, hA, hB⟩ := exists_reconciled_run (R := RejectId)
    (a := (⟨a.store.tables⟩ : ReferenceTables ns)) (b := (⟨b.store.tables⟩ : ReferenceTables ns))
    ReferenceTables.lawfulReads ReferenceTables.lawfulWrites ReferenceTables.lawfulReads ReferenceTables.lawfulWrites
    (contentStatus a) (contentStatus b) gateA gateB ha hb fA fB ht
  obtain ⟨x₀', -, z, hstart', -, -, hpaced, hzover⟩ := exists_paced_run (R := RejectId)
    (a := (⟨a.store.tables⟩ : ReferenceTables ns)) (b := (⟨b.store.tables⟩ : ReferenceTables ns))
    ReferenceTables.lawfulReads ReferenceTables.lawfulWrites ReferenceTables.lawfulReads ReferenceTables.lawfulWrites
    (contentStatus a) (contentStatus b) gateA gateB ha hb fA fB ht rfl
  obtain rfl : x₀ = x₀' := Except.ok.inj (hstart.symm.trans hstart')
  rcases run_new verify aliceId bobId fA fB hopenA hheldA hheldB hstart hrun with
    ⟨rfl, rfl, hnext⟩ | ⟨rest, w₁, rfl, htwin, hret, hrest⟩
  · refine ⟨Nat.zero_le _, fun e he => ?_, fun e he => ?_, fun _ => ⟨fun _ => .start, fun _ _ => hnext⟩, fun h => ?_⟩
    · cases he
    · cases he
    · cases h
  have hrestActs := fun act hact => hacts act (List.mem_cons_of_mem _ hact)
  obtain ⟨k, y, hy, hk, -⟩ := twin_run verify aliceId bobId fA fB hordinary hopenA hopenB hover rest hrestActs htwin
    hrunWith hrest
  obtain ⟨k', -, -, -, hcount⟩ := twin_run verify aliceId bobId fA fB hordinary hopenA hopenB hzover rest hrestActs
    htwin hpaced hrest
  have hends := hy.ends
  refine ⟨?_, hends.1, hends.2.1, fun hreturned => ?_, fun hreturned => ?_⟩
  · have hone : w.returned ≤ 1 := by
      unfold Wired.returned
      split <;> omega
    show rest.length + 1 ≤ _
    have hbound : rest.length ≤ min (2 * Nat.clog 2 (admits fB (held b)).length)
        (2 * Nat.clog 2 (admits fA (held a)).length + 1) + 3 + 1 + 1 := by
      have hle : rest.length + k' + w₁.returned ≤ _ + 1 := hcount.trans_le (Nat.add_le_add_left hone _)
      exact (Nat.le_add_right ..).trans ((Nat.le_add_right ..).trans hle)
    omega
  · exact (twin_step verify aliceId bobId fA fB hordinary hy hopenA hopenB fun hsome => by
      obtain ⟨-, y', -, hy', -⟩ := step_of_runWith hover hsome hk
      exact ⟨y', hy'⟩).2 hreturned
  · have hxy : x = y := by
      rw [Ranger.Exchange.runWith_idle (hends.2.2 hreturned)] at hk
      exact (Except.ok.inj hk).symm
    subst hxy
    rw [hy.aliceSent, hy.bobSent]
    unfold held
    rw [hy.alice.live, hy.bob.live]
    exact ⟨hA, hB⟩

end Twin

/-! ## An exchange with a filter and a refusal -/

section

local instance wiredDigests : Blake3 := ordinaryDigests

/-- Refuses the entry at `[1]`. -/
def refusesFirst (e : SignedEntry) : ValidateOutcome := if e.id.key = [1] then .reject else .accept

/-- A replica that holds `held`. -/
def holdingReplica (held : List SignedEntry) (validator : Option CapabilityValidator) : Replica zeros32 :=
  ⟨Ranger.puts ⟨default, none⟩ held, ⟨true, none, validator, false, false⟩, fun _ => true⟩

/-- Alice holds `[1]`. -/
def sampleAlice : Replica zeros32 := holdingReplica (sampleThree.take 1) none

/-- Bob holds `[1, 2]`, which he does not serve, and `[7]`, and refuses what alice has. -/
def sampleBob : Replica zeros32 := holdingReplica (sampleThree.drop 1) (some fun e _ => refusesFirst e)

def sampleServed (e : SignedEntry) : Bool := e.id.key ≠ [1, 2]

theorem held_sample : held sampleAlice = sampleThree.take 1 ∧ held sampleBob = sampleThree.drop 1 := by
  constructor <;> decide +kernel

theorem served_sample : admits none (held sampleAlice) = sampleThree.take 1 ∧
    admits (some sampleServed) (held sampleBob) = sampleThree.drop 2 := by
  rw [held_sample.1, held_sample.2]
  decide

def sampleActs : List Act := [.start, .bob 5, .alice 5, .bob 5, .alice 5, .bob 5]

/-- After six moves both sides have returned: alice has what bob serves, and bob has told her what he refused. -/
theorem wired_exchange_reconciles_sample :
    ∃ w, runs (fun w act => w.step (fun _ => true) zeros32 zeros32 none (some sampleServed) act)
        (Wired.new zeros32 sampleAlice sampleBob) sampleActs = some w ∧ w.returned = 1 ∧
      Ranger.Reconciled (fun _ => .accept) (sampleThree.take 1) (sampleThree.drop 2) (held w.alice)
        (Ranger.sentRejections (syncs w.net.alice.sent)) ∧
      Ranger.Reconciled refusesFirst (sampleThree.drop 1) (sampleThree.take 1) (held w.bob)
        (Ranger.sentRejections (syncs w.net.bob.sent)) ∧
      Ranger.sentRejections (syncs w.net.bob.sent) = (sampleThree.take 1).map Ranger.rejectId := by
  have hrun : ((runs (fun w act => w.step (fun _ => true) zeros32 zeros32 none (some sampleServed) act)
      (Wired.new zeros32 sampleAlice sampleBob) sampleActs).map fun w =>
        (w.returned, Ranger.sentRejections (syncs w.net.bob.sent))) =
          some (1, (sampleThree.take 1).map Ranger.rejectId) := by decide +kernel
  obtain ⟨w, hw, hret⟩ := Option.map_eq_some_iff.1 hrun
  obtain ⟨hreturned, hrefused⟩ := Prod.mk.inj hret
  have hmem : ∀ e, e ∈ held sampleAlice ∨ e ∈ held sampleBob → e ∈ sampleThree := by
    rw [held_sample.1, held_sample.2]
    exact fun e he => he.elim List.mem_of_mem_take List.mem_of_mem_drop
  have hordinary : Ordinary zeros32 {e | e ∈ held sampleAlice ∨ e ∈ held sampleBob} :=
    ⟨fun e he => ordinary_sampleThree.of_namespace e (hmem e he),
      fun e he => ordinary_sampleThree.visible e (hmem e he),
      fun e he e' he' => ordinary_sampleThree.apart e (hmem e he) e' (hmem e' he')⟩
  have hantichain : ∀ l : List SignedEntry, (∀ e ∈ l, ∀ e' ∈ l, Ranger.stamp e ≤ Ranger.stamp e' → e = e') →
      IsAntichain (· ≤ ·) (Ranger.stamps l) := by
    rintro l hl _ ⟨e, he, rfl⟩ _ ⟨e', he', rfl⟩ hne hle
    exact hne (congrArg Ranger.stamp (hl e he e' he' hle))
  have hjudged : ∀ act ∈ sampleActs, act.Judged (fun _ => true) zeros32 zeros32 (fun _ => .accept) refusesFirst
      {e | e ∈ held sampleAlice ∨ e ∈ held sampleBob} sampleAlice sampleBob := by
    have hclock : ∀ e ∈ sampleThree, e.id.namespace = zeros32 ∧
        ¬ e.record.timestamp > 5 + MAX_TIMESTAMP_FUTURE_SHIFT := by decide
    have halice : ∀ e, e ∈ sampleThree → ∀ s status,
        validateCb (fun _ => true) 5 sampleAlice zeros32 s e status = .accept := by
      intro e he s status
      obtain ⟨hns, hts⟩ := hclock e he
      simp [validateCb, validateEntry, hns, hts, sampleAlice, holdingReplica, checkCapability]
    have hbob : ∀ e, e ∈ sampleThree → ∀ s status,
        validateCb (fun _ => true) 5 sampleBob zeros32 s e status = refusesFirst e := by
      intro e he s status
      obtain ⟨hns, hts⟩ := hclock e he
      by_cases hkey : e.id.key = [1] <;>
        simp [validateCb, validateEntry, hns, hts, sampleBob, holdingReplica, checkCapability, refusesFirst, hkey]
    intro act hact
    simp only [sampleActs, List.mem_cons, List.not_mem_nil, or_false] at hact
    rcases hact with rfl | rfl | rfl | rfl | rfl | rfl
    · trivial
    · exact fun e he => hbob e (hmem e he)
    · exact fun e he => halice e (hmem e he)
    · exact fun e he => hbob e (hmem e he)
    · exact fun e he => halice e (hmem e he)
    · exact fun e he => hbob e (hmem e he)
  have hresult := wired_exchange_reconciles (fun _ => true) zeros32 zeros32 none (some sampleServed)
    (fun _ => .accept) refusesFirst (rfl : sampleAlice.info.closed = false) (rfl : sampleBob.info.closed = false)
    hordinary ?_ ?_ ?_ sampleActs hjudged hw
  · obtain ⟨hA, hB⟩ := hresult.2.2.2.2 hreturned
    rw [served_sample.2, held_sample.1] at hA
    rw [served_sample.1, held_sample.2] at hB
    exact ⟨w, hw, hreturned, hA, hB, hrefused⟩
  · rw [held_sample.1]
    exact hantichain _ (by decide)
  · rw [held_sample.2]
    exact hantichain _ (by decide)
  · rw [served_sample.1, served_sample.2]
    exact ordinaryDigests_tell (by decide) (by decide)

end

end PdnStore.Net

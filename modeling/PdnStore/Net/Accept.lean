import PdnStore.Sync.Replica

/-!
# The accepting side of an exchange (net.rs:186-316, codec.rs:193-399)

| here | there |
| --- | --- |
| `Awaited`        | how an awaited call ends inside the bound on the session: with a value, an error, or not at all |
| `Read`, `Turn`   | what `reader.next()` yields, and what the calls made while handling that frame come back with |
| `acceptCb`       | the accept callback; `none` when the bound is reached while it runs |
| `Conn.called`    | the namespaces the callback was asked about, in order; the first one is `accepted` (`net.rs:214`) |
| `Conn.sent`      | the frames written |
| `handleConnection` | `handle_connection` with its `SYNC_SESSION_TIMEOUT` |

Streams, the sync actor and the accept decision are outside: a run is a function of what they answer.
Every failure point of `run_rounds` and of the teardown is one field of that script. The `Timings` of a
`SyncFinished` and the session id only reach the logs and the sync actor, and are left out.
-/

namespace PdnStore.Net

open Sync

abbrev PublicKey := ByteArrayN 32

/-- `AbortReason` (net.rs:425). -/
inductive AbortReason where
  | notFound
  | alreadySyncing
  | internalServerError
deriving DecidableEq, Repr

/-- `AcceptOutcome` (net.rs:170). -/
inductive AcceptOutcome where
  | allow (filter : Option (SignedEntry → Bool))
  | reject (reason : AbortReason)

/-- `SyncFinished` (net.rs:334). -/
structure SyncFinished where
  «namespace» : NamespaceId
  peer : PublicKey
  outcome : SyncOutcome

/-- `AcceptError` (net.rs:357). -/
inductive AcceptError where
  | connect (error : String)
  | «open» (peer : PublicKey) (error : String)
  | abort (peer : PublicKey) (ns : NamespaceId) (reason : AbortReason)
  | sync (peer : PublicKey) (ns : Option NamespaceId) (error : String)
  | close (peer : PublicKey) (ns : Option NamespaceId) (error : String)
deriving DecidableEq

/-- `ConnectError` (net.rs:399). -/
inductive ConnectError where
  | connect (error : String)
  | remoteAbort (reason : AbortReason)
  | sync (error : String)
  | close (error : String)
deriving DecidableEq

/-- `AcceptError::peer` (net.rs:464). -/
def AcceptError.peer : AcceptError → Option PublicKey
  | .connect _ => none
  | .open peer _ | .abort peer _ _ | .sync peer _ _ | .close peer _ _ => some peer

/-- `AcceptError::namespace` (net.rs:475). -/
def AcceptError.namespace : AcceptError → Option NamespaceId
  | .connect _ | .open .. => none
  | .sync _ ns _ | .close _ ns _ => ns
  | .abort _ ns _ => some ns

/-- The result of `handle_connection`. -/
abbrev AcceptRes := Except AcceptError SyncFinished

/-- The pair a result is routed to (live.rs:606-621). -/
def AcceptRes.pair : AcceptRes → Option (NamespaceId × PublicKey)
  | .ok details => some (details.namespace, details.peer)
  | .error err =>
    match err.peer, err.namespace with
    | some peer, some ns => some (ns, peer)
    | _, _ => none

/-! ## The frames and the script of a connection -/

/-- `Message` (codec.rs:77). -/
inductive Message where
  | init (ns : NamespaceId) (message : SyncMessage)
  | sync (message : SyncMessage)
  | abort (reason : AbortReason)

inductive Awaited (α : Type) where
  | ok (a : α)
  | err (error : String)
  | elapsed

structure Turn where
  /-- `writer.send(Message::Abort { reason })` of a refusal -/
  refusalSent : Awaited Unit
  sessionStart : Awaited Unit
  processed : Awaited (Option SyncMessage × SyncOutcome)
  replySent : Awaited Unit

inductive Read where
  | frame (msg : Message) (turn : Turn)
  | broken (error : String)
  | elapsed

/-- Everything the outside answers along one connection; the stream ends after `reads`. -/
structure Script where
  acceptBi : Awaited Unit
  reads : List Read
  /-- the terminal frame, written on an error -/
  terminalSent : Awaited Unit
  finish : Awaited Unit
  stopped : Awaited Unit
  readToEnd : Awaited Unit

/-! ## `BobState` -/

/-- `BobState` (codec.rs:197); of its session only the namespace is kept. -/
structure BobState where
  «namespace» : Option NamespaceId
  peer : PublicKey
  progress : SyncOutcome
  filter : Option (SignedEntry → Bool)
  session : Option NamespaceId

/-- `BobState::new` (codec.rs:221). -/
def BobState.new (peer : PublicKey) : BobState := ⟨none, peer, ⟨⟨∅⟩, 0, 0⟩, none, none⟩

/-- `BobState::fail` (codec.rs:231). -/
def BobState.fail (b : BobState) (reason : String) : AcceptError := .sync b.peer b.namespace reason

/-- `BobState` with what it has asked and written. -/
structure Conn where
  bob : BobState
  called : List NamespaceId
  sent : List Message

/-- How the handling of one frame ends. -/
inductive Flow where
  | next
  | done
  | fail (error : AcceptError)
  | elapsed

/-- `call.await.map_err(|e| self.fail(e))?`, and on with `k`. -/
def Awaited.orFail {α : Type} (call : Awaited α) (c : Conn) (k : α → Conn × Flow) : Conn × Flow :=
  match call with
  | .ok a => k a
  | .err e => (c, .fail (c.bob.fail e))
  | .elapsed => (c, .elapsed)

/-- The answer of the sync actor, and the reply written for it (codec.rs:363-375). -/
def Conn.reply (c : Conn) (turn : Turn) : Conn × Flow :=
  turn.processed.orFail c fun (reply, progress) =>
    let c := { c with bob := { c.bob with progress := progress } }
    match reply with
    | some msg => turn.replySent.orFail c fun _ => ({ c with sent := c.sent ++ [.sync msg] }, .next)
    | none => (c, .done)

/-- The init frame (codec.rs:299-344): named before the decision that can fail. -/
def Conn.onInit (acceptCb : NamespaceId → Option AcceptOutcome) (c : Conn) (turn : Turn)
    (ns : NamespaceId) :
    Conn × Flow :=
  let c := { c with bob := { c.bob with «namespace» := some ns }, called := c.called ++ [ns] }
  match acceptCb ns with
  | none => (c, .elapsed)
  | some (.allow filter) =>
    let c := { c with bob := { c.bob with filter := filter } }
    turn.sessionStart.orFail c fun _ => { c with bob := { c.bob with session := some ns } }.reply turn
  | some (.reject reason) =>
    turn.refusalSent.orFail c fun _ =>
      ({ c with sent := c.sent ++ [.abort reason] }, .fail (.abort c.bob.peer ns reason))

/-- One frame of `run_rounds` (codec.rs:297-375). -/
def Conn.onFrame (acceptCb : NamespaceId → Option AcceptOutcome) (c : Conn) (msg : Message) (turn : Turn) :
    Conn × Flow :=
  match msg, c.bob.session with
  | .init ns _, none => c.onInit acceptCb turn ns
  | .sync _, some _ => c.reply turn
  | .init .., some _ => (c, .fail (c.bob.fail "double init message"))
  | .sync _, none => (c, .fail (c.bob.fail "unexpected sync message before init"))
  | .abort _, _ => (c, .fail (c.bob.fail "unexpected sync abort message"))

/-- After the loop (codec.rs:380). -/
def Conn.done (c : Conn) : Except AcceptError NamespaceId :=
  match c.bob.namespace with
  | some ns => .ok ns
  | none => .error (c.bob.fail "Stream closed before init message")

/-- `BobState::run_rounds` (codec.rs:279); `none` when the bound is reached first. -/
def Conn.runRounds (acceptCb : NamespaceId → Option AcceptOutcome) (c : Conn) :
    List Read → Conn × Option (Except AcceptError NamespaceId)
  | [] => (c, some c.done)
  | .elapsed :: _ => (c, none)
  | .broken e :: _ => (c, some (.error (c.bob.fail e)))
  | .frame msg turn :: reads =>
    match c.onFrame acceptCb msg turn with
    | (c, .next) => c.runRounds acceptCb reads
    | (c, .done) => (c, some c.done)
    | (c, .fail e) => (c, some (.error e))
    | (c, .elapsed) => (c, none)

/-- `BobState::run` (codec.rs:240): an error other than a refusal is answered with a terminal frame. -/
def Conn.run (acceptCb : NamespaceId → Option AcceptOutcome) (c : Conn) (script : Script) :
    Conn × Option (Except AcceptError NamespaceId) :=
  match c.runRounds acceptCb script.reads with
  | (c, some (.error (.abort peer ns reason))) => (c, some (.error (.abort peer ns reason)))
  | (c, some (.error e)) =>
    match script.terminalSent with
    | .ok () => ({ c with sent := c.sent ++ [.abort .internalServerError] }, some (.error e))
    | .err _ => (c, some (.error e))
    | .elapsed => (c, none)
  | r => r

/-! ## `handle_connection` -/

/-- A step of the teardown (net.rs:274-290). -/
def Awaited.orClose (call : Awaited Unit) (c : Conn) (k : Option (Except AcceptError Unit)) :
    Option (Except AcceptError Unit) :=
  match call with
  | .ok () => k
  | .err e => some (.error (.close c.bob.peer c.bob.namespace e))
  | .elapsed => none

/-- The teardown (net.rs:273-290). -/
def teardown (c : Conn) (script : Script) : Option (Except AcceptError Unit) :=
  script.finish.orClose c (script.stopped.orClose c (script.readToEnd.orClose c (some (.ok ()))))

/-- `handle_connection_inner` (net.rs:239); "the exchange's own result wins". -/
def handleConnectionInner (peer : PublicKey) (acceptCb : NamespaceId → Option AcceptOutcome)
    (script : Script) :
    Conn × Option AcceptRes :=
  let c : Conn := ⟨.new peer, [], []⟩
  match script.acceptBi with
  | .elapsed => (c, none)
  | .err e => (c, some (.error (.open peer e)))
  | .ok () =>
    match c.run acceptCb script with
    | (c, none) => (c, none)
    | (c, some res) =>
      match teardown c script with
      | none => (c, none)
      | some closed =>
        (c, some (match res, closed with
          | .error e, _ => .error e
          | .ok _, .error e => .error e
          | .ok ns, .ok () => .ok ⟨ns, peer, c.bob.progress⟩))

/-- `handle_connection` (net.rs:199). -/
def handleConnection (peer : PublicKey) (acceptCb : NamespaceId → Option AcceptOutcome) (script : Script) :
    Conn × AcceptRes :=
  match handleConnectionInner peer acceptCb script with
  | (c, some res) => (c, res)
  | (c, none) => (c, .error (.sync peer c.called.head? "sync exchange timed out after 300s"))

/-! ## What a result names -/

section Names

variable {peer : PublicKey} {acceptCb : NamespaceId → Option AcceptOutcome} {c : Conn}

/-- The callback was asked at most once, about the namespace the errors name. -/
structure Conn.Named (peer : PublicKey) (c : Conn) : Prop where
  peer_eq : c.bob.peer = peer
  names : c.bob.namespace = c.called.head?
  once : c.called.length ≤ 1

/-- Between two frames: nothing was asked yet, or the session is open. -/
def Conn.Between (peer : PublicKey) (c : Conn) : Prop :=
  c.Named peer ∧ (c.bob.session = none → c.called = [])

/-- An error that names the namespace asked about; a refusal repeats the callback's. -/
structure Blames (peer : PublicKey) (acceptCb : NamespaceId → Option AcceptOutcome) (c : Conn)
    (e : AcceptError) :
    Prop where
  peer_eq : e.peer = some peer
  names : e.namespace = c.called.head?
  refusal : ∀ p ns reason, e = .abort p ns reason → acceptCb ns = some (.reject reason)

/-- What holds after a frame. -/
def Flow.Fits (peer : PublicKey) (acceptCb : NamespaceId → Option AcceptOutcome) (c : Conn) : Flow → Prop
  | .next => c.Between peer
  | .fail e => c.Named peer ∧ Blames peer acceptCb c e
  | .done | .elapsed => c.Named peer

theorem blames_fail (h : c.Named peer) (reason : String) : Blames peer acceptCb c (c.bob.fail reason) where
  peer_eq := congrArg some h.peer_eq
  names := h.names
  refusal := fun _ _ _ heq => by cases heq

theorem fits_orFail {α : Type} {call : Awaited α} {k : α → Conn × Flow} (h : c.Named peer)
    (hk : ∀ a, (k a).2.Fits peer acceptCb (k a).1) :
    (call.orFail c k).2.Fits peer acceptCb (call.orFail c k).1 := by
  cases call with
  | ok a => exact hk a
  | err e => exact ⟨h, blames_fail h e⟩
  | elapsed => exact h

theorem fits_reply {turn : Turn} (h : c.Between peer) :
    (c.reply turn).2.Fits peer acceptCb (c.reply turn).1 := by
  refine fits_orFail h.1 fun ⟨reply, progress⟩ => ?_
  have hnamed : ({ c with bob := { c.bob with progress := progress } } : Conn).Named peer :=
    ⟨h.1.peer_eq, h.1.names, h.1.once⟩
  cases reply with
  | none => exact hnamed
  | some msg => exact fits_orFail hnamed fun _ => ⟨⟨h.1.peer_eq, h.1.names, h.1.once⟩, h.2⟩

theorem fits_onInit {turn : Turn} {ns : NamespaceId} (h : c.Named peer) (hnone : c.called = []) :
    (c.onInit acceptCb turn ns).2.Fits peer acceptCb (c.onInit acceptCb turn ns).1 := by
  have hcalled : c.called ++ [ns] = [ns] := by rw [hnone, List.nil_append]
  unfold Conn.onInit
  dsimp only
  rw [hcalled]
  cases hcb : acceptCb ns with
  | none => exact ⟨h.peer_eq, rfl, le_rfl⟩
  | some outcome =>
    cases outcome with
    | allow filter =>
      refine fits_orFail ⟨h.peer_eq, rfl, le_rfl⟩ fun _ => fits_reply
        ⟨⟨h.peer_eq, rfl, le_rfl⟩, fun hs => ?_⟩
      cases hs
    | reject reason =>
      refine fits_orFail ⟨h.peer_eq, rfl, le_rfl⟩
        fun _ => ⟨⟨h.peer_eq, rfl, le_rfl⟩, ⟨congrArg some h.peer_eq, rfl, ?_⟩⟩
      intro p ns' reason' heq
      cases heq
      exact hcb

/-- Step: one frame, whatever the calls come back with. -/
theorem fits_onFrame {msg : Message} {turn : Turn} (h : c.Between peer) :
    (c.onFrame acceptCb msg turn).2.Fits peer acceptCb (c.onFrame acceptCb msg turn).1 := by
  unfold Conn.onFrame
  split
  next hs => exact fits_onInit h.1 (h.2 hs)
  next => exact fits_reply h
  all_goals exact ⟨h.1, blames_fail h.1 _⟩

/-- What holds when the rounds are over; `none` is the bound. -/
def Over (peer : PublicKey) (acceptCb : NamespaceId → Option AcceptOutcome) (c : Conn) :
    Option (Except AcceptError NamespaceId) → Prop
  | some (.ok ns) => c.Named peer ∧ c.called.head? = some ns
  | some (.error e) => c.Named peer ∧ Blames peer acceptCb c e
  | none => c.Named peer

theorem over_done (h : c.Named peer) : Over peer acceptCb c (some c.done) := by
  have hnames := h.names
  unfold Conn.done
  cases hns : c.bob.namespace with
  | none => exact ⟨h, blames_fail h _⟩
  | some ns =>
    rw [hns] at hnames
    exact ⟨h, hnames.symm⟩

/-- Run: all the frames. -/
theorem over_runRounds (reads : List Read) (h : c.Between peer) :
    Over peer acceptCb (c.runRounds acceptCb reads).1 (c.runRounds acceptCb reads).2 := by
  induction reads generalizing c with
  | nil => exact over_done h.1
  | cons read reads ih =>
    cases read with
    | elapsed => exact h.1
    | broken e => exact ⟨h.1, blames_fail h.1 e⟩
    | frame msg turn =>
      have hfits : (c.onFrame acceptCb msg turn).2.Fits peer acceptCb (c.onFrame acceptCb msg turn).1 :=
        fits_onFrame h
      unfold Conn.runRounds
      split <;> rename_i heq <;> rw [heq] at hfits
      · exact ih hfits
      · exact over_done hfits
      · exact hfits
      · exact hfits

theorem over_run {script : Script} (h : c.Between peer) :
    Over peer acceptCb (c.run acceptCb script).1 (c.run acceptCb script).2 := by
  have hover : Over peer acceptCb (c.runRounds acceptCb script.reads).1
    (c.runRounds acceptCb script.reads).2 :=
    over_runRounds script.reads h
  unfold Conn.run
  split
  next heq => rw [heq] at hover; exact hover
  next heq =>
    rw [heq] at hover
    cases script.terminalSent with
    | ok u => exact ⟨⟨hover.1.peer_eq, hover.1.names, hover.1.once⟩,
        ⟨hover.2.peer_eq, hover.2.names, hover.2.refusal⟩⟩
    | err e => exact hover
    | elapsed => exact hover.1
  next => exact hover

theorem blames_orClose {call : Awaited Unit} {k : Option (Except AcceptError Unit)} (h : c.Named peer)
    (hk : ∀ e, k = some (.error e) → Blames peer acceptCb c e) {e : AcceptError}
    (he : call.orClose c k = some (.error e)) : Blames peer acceptCb c e := by
  cases call with
  | ok u => exact hk e he
  | err error =>
    cases he
    exact ⟨congrArg some h.peer_eq, h.names, fun _ _ _ heq => by cases heq⟩
  | elapsed => cases he

theorem blames_teardown {script : Script} {e : AcceptError} (h : c.Named peer)
    (he : teardown c script = some (.error e)) : Blames peer acceptCb c e :=
  blames_orClose h (fun _ => blames_orClose h fun _ => blames_orClose h fun _ he => by cases he) he

/-- What holds of a connection and its result. -/
structure Settled (peer : PublicKey) (acceptCb : NamespaceId → Option AcceptOutcome) (c : Conn)
    (res : AcceptRes) :
    Prop where
  once : c.called.length ≤ 1
  pair : res.pair = c.called.head?.map (·, peer)
  refusal : ∀ p ns reason, res = .error (.abort p ns reason) → acceptCb ns = some (.reject reason)

theorem settled_error {e : AcceptError} (h : c.Named peer) (he : Blames peer acceptCb c e) :
    Settled peer acceptCb c (.error e) where
  once := h.once
  pair := by
    simp only [AcceptRes.pair, he.peer_eq, he.names]
    cases c.called.head? <;> rfl
  refusal := fun p ns reason heq => he.refusal p ns reason (Except.error.inj heq)

theorem settled_timeout (h : c.Named peer) :
    Settled peer acceptCb c (.error (.sync peer c.called.head? "sync exchange timed out after 300s")) :=
  settled_error h ⟨rfl, rfl, fun _ _ _ heq => by cases heq⟩

/-- **The result of an accepted connection names its pair**: once the callback was asked, every result, an
error or a timeout included, names the namespace asked about and the peer; before that none does. -/
theorem handleConnection_settled (peer : PublicKey) (acceptCb : NamespaceId → Option AcceptOutcome)
    (script : Script) :
    Settled peer acceptCb (handleConnection peer acceptCb script).1
      (handleConnection peer acceptCb script).2 := by
  have hnew : (⟨.new peer, [], []⟩ : Conn).Named peer := ⟨rfl, rfl, Nat.zero_le _⟩
  have hover : Over peer acceptCb ((⟨.new peer, [], []⟩ : Conn).run acceptCb script).1
      ((⟨.new peer, [], []⟩ : Conn).run acceptCb script).2 := over_run ⟨hnew, fun _ => rfl⟩
  unfold handleConnection handleConnectionInner
  cases script.acceptBi with
  | elapsed => exact settled_timeout hnew
  | err e => exact settled_error hnew ⟨rfl, rfl, fun _ _ _ heq => by cases heq⟩
  | ok u =>
    rcases hrun : (⟨.new peer, [], []⟩ : Conn).run acceptCb script with ⟨c, res⟩
    rw [hrun] at hover
    cases res with
    | none =>
      simp only [hrun]
      exact settled_timeout hover
    | some res =>
      have hnamed : c.Named peer := by
        cases res with
        | ok ns => exact hover.1
        | error e => exact hover.1
      rcases hdown : teardown c script with _ | closed
      · simp only [hrun, hdown]
        exact settled_timeout hnamed
      · cases res with
        | error e =>
          simp only [hrun, hdown]
          exact settled_error hnamed hover.2
        | ok ns =>
          cases closed with
          | error e =>
            simp only [hrun, hdown]
            exact settled_error hnamed (blames_teardown hnamed hdown)
          | ok u =>
            simp only [hrun, hdown]
            refine ⟨hnamed.once, ?_, fun _ _ _ heq => by cases heq⟩
            simp only [AcceptRes.pair, hover.2, Option.map_some]

end Names

end PdnStore.Net

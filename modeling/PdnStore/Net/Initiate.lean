import PdnStore.Net.Accept

/-!
# The initiating side of an exchange (codec.rs:91-174)

`run_alice` opens a session, sends the init frame, and then answers every sync frame until the sync actor has
nothing more to say or the stream ends. The end of the stream is a success: "closing the stream is how a
finished exchange ends". On an error it returns, and the caller closes the stream as after a success
(`net.rs:114`).

| here | there |
| --- | --- |
| `AliceScript`    | what the sync actor and the stream answer along one run, as in `Net.Accept` |
| `Alice`          | the locals of `run_alice` that live across frames, with the frames written |
-/

namespace PdnStore.Net

open Sync

/-- What the calls made while handling one frame come back with. -/
structure AliceTurn where
  processed : Awaited (Option SyncMessage × SyncOutcome)
  replySent : Awaited Unit

inductive AliceRead where
  | frame (msg : Message) (turn : AliceTurn)
  | broken (error : String)
  | elapsed

/-- Everything the outside answers along one run; the stream ends after `reads`. -/
structure AliceScript where
  sessionStart : Awaited Unit
  initialMessage : Awaited SyncMessage
  initSent : Awaited Unit
  reads : List AliceRead

structure Alice where
  progress : SyncOutcome
  sent : List Message

/-- `SyncOutcome::default()`, and nothing written yet. -/
def Alice.new : Alice := ⟨⟨⟨∅⟩, 0, 0⟩, []⟩

/-- How a part of `run_alice` ends. -/
inductive AliceFlow where
  | next
  | done
  | fail (error : ConnectError)
  | elapsed

namespace Alice

/-- `call.await.map_err(ConnectError::sync)?`, and on with `k`. -/
def orFail {α : Type} (call : Awaited α) (a : Alice) (k : α → Alice × AliceFlow) : Alice × AliceFlow :=
  match call with
  | .ok x => k x
  | .err e => (a, .fail (.sync e))
  | .elapsed => (a, .elapsed)

/-- The session and the init frame (codec.rs:115-132). -/
def start (a : Alice) (ns : NamespaceId) (sessionStart : Awaited Unit) (initialMessage : Awaited SyncMessage)
    (initSent : Awaited Unit) : Alice × AliceFlow :=
  orFail sessionStart a fun _ =>
    orFail initialMessage a fun message =>
      orFail initSent a fun _ => ({ a with sent := a.sent ++ [.init ns message] }, .next)

/-- One frame of the message loop (codec.rs:136-169). -/
def onFrame (a : Alice) (msg : Message) (turn : AliceTurn) : Alice × AliceFlow :=
  match msg with
  | .init .. => (a, .fail (.sync "unexpected init message"))
  | .sync _ =>
    orFail turn.processed a fun (reply, progress) =>
      let a := { a with progress := progress }
      match reply with
      | some msg => orFail turn.replySent a fun _ => ({ a with sent := a.sent ++ [.sync msg] }, .next)
      | none => (a, .done)
  | .abort reason => (a, .fail (.remoteAbort reason))

/-- The message loop (codec.rs:135-173); `none` when the bound is reached first. -/
def runRounds (a : Alice) : List AliceRead → Alice × Option (Except ConnectError SyncOutcome)
  | [] => (a, some (.ok a.progress))
  | .elapsed :: _ => (a, none)
  | .broken e :: _ => (a, some (.error (.sync e)))
  | .frame msg turn :: reads =>
    match a.onFrame msg turn with
    | (a, .next) => a.runRounds reads
    | (a, .done) => (a, some (.ok a.progress))
    | (a, .fail e) => (a, some (.error e))
    | (a, .elapsed) => (a, none)

end Alice

/-- `run_alice` (codec.rs:101). -/
def runAlice (ns : NamespaceId) (script : AliceScript) : Alice × Option (Except ConnectError SyncOutcome) :=
  match Alice.new.start ns script.sessionStart script.initialMessage script.initSent with
  | (a, .next) => a.runRounds script.reads
  | (a, .done) => (a, some (.ok a.progress))
  | (a, .fail e) => (a, some (.error e))
  | (a, .elapsed) => (a, none)

end PdnStore.Net

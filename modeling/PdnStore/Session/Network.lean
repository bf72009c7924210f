import PdnStore.Session.Gated

/-!
# Any number of replicas, any number of sessions at once (codec.rs:101-387, actor.rs:1106-1160)

A node runs sessions with several peers at a time. Between two messages of one of them it writes, takes in
what gossip brings and answers the messages of others, all on the same live replica; a session only reads the
snapshot of each side. So its messages are those of an exchange between the two snapshots with nobody else
around (`Mirrors`), whatever happens in between, and once it is over each side knows what the other one knew
when it joined.

| here | there |
| --- | --- |
| `write`   | an entry stored by a local write or by gossip (`sync.rs:443`, `sync.rs:498`) |
| `dial`    | the session start and the initial message of `run_alice` (`codec.rs:113-133`) |
| `accept`  | the session start of `BobState::run_rounds` (`codec.rs:306-340`), some time after the dial |
| `deliver` | one `sync_process_message`, at either side; a session that fails is one that is not delivered to |
| `Spread`  | what the sessions are for: who knows which entries, without messages and without stores |
-/

namespace PdnStore.Session

open Ranger Ranger.Store MaxSet

/-! ## The network -/

/-- A session: the snapshot and the filter of each side (bob's when he has accepted), and the message in
flight. -/
structure Running (ι S E K R : Type) where
  alice : ι
  bob : ι
  snapshotA : S
  filterA : Option (E → Bool)
  accepted : Option (S × Option (E → Bool))
  turn : Side
  inFlight : Option (Message E K R)

/-- The live replicas, and the sessions in the order they were dialed. -/
structure Network (ι S E K R : Type) where
  replica : ι → S
  sessions : List (Running ι S E K R)

inductive NetEvent (ι E : Type) where
  | write (node : ι) (e : E)
  | dial (alice bob : ι) (filter : Option (E → Bool))
  | accept (session : Nat) (filter : Option (E → Bool))
  | deliver (session : Nat) (status : E → ContentStatus)

def otherSide : Side → Side
  | .alice => .bob
  | .bob => .alice

/-- Who reads the message in flight, through which snapshot and filter. -/
def Running.reader {ι S E K R : Type} (x : Running ι S E K R) : Option (ι × S × Option (E → Bool)) :=
  match x.turn with
  | .alice => some (x.alice, x.snapshotA, x.filterA)
  | .bob => x.accepted.map fun j => (x.bob, j.1, j.2)

section

variable {ι S E K V R : Type} [DecidableEq ι] [LinearOrder K] [RangeKey K] [LinearOrder V]
  [RangeEntry E K V R] [Store S E K V] [Blake3] [Inhabited K]

namespace Network

/-- The network after an event; the validators accept everything. -/
def step (n : Network ι S E K R) : NetEvent ι E → Except Fault (Network ι S E K R)
  | .write node e => .ok { n with replica := Function.update n.replica node (put (n.replica node) e).2 }
  | .dial alice bob filter => do
    let m ← initialMessage (session (n.replica alice) filter)
    .ok { n with sessions := n.sessions ++ [⟨alice, bob, n.replica alice, filter, none, .bob, some m⟩] }
  | .accept k filter =>
    match n.sessions[k]? with
    | none => .ok n
    | some x =>
      if x.accepted.isSome then .ok n
      else .ok { n with sessions := n.sessions.set k { x with accepted := some (n.replica x.bob, filter) } }
  | .deliver k status =>
    match n.sessions[k]? with
    | none => .ok n
    | some x =>
      match x.inFlight, x.reader with
      | some m, some (node, snapshot, filter) => do
        let p := processMessage default acceptAll status
          (⟨⟨n.replica node, snapshot⟩, filter⟩ : SessionStore (Snapshotted S) E) m
        let reply ← p.reply
        .ok ⟨Function.update n.replica node p.store.inner.live,
          n.sessions.set k { x with turn := otherSide x.turn, inFlight := reply }⟩
      | _, _ => .ok n

end Network

/-! ## Who knows what -/

/-- What each side of a session has to tell, and how often the session was delivered to since bob joined. -/
structure Share (E : Type) where
  ofAlice : List E
  ofBob : List E
  answered : Nat

/-- The entries each node knows, and what the sessions carry. -/
structure Spread (ι E : Type) where
  knows : ι → List E
  shares : List (Share E)

/-- An entry is known where it is written. A side joins a session, unless it filters, with what it knows then;
the other side knows that when the session is over. -/
def Spread.step (n n' : Network ι S E K R) (g : Spread ι E) : NetEvent ι E → Spread ι E
  | .write node e => { g with knows := Function.update g.knows node (e :: g.knows node) }
  | .dial alice _ filter =>
    { g with shares := g.shares ++ [⟨if filter.isSome then [] else g.knows alice, [], 0⟩] }
  | .accept k filter =>
    match n.sessions[k]?, g.shares[k]? with
    | some x, some share =>
      if x.accepted.isSome then g
      else
        { g with shares := g.shares.set k ⟨share.ofAlice, if filter.isSome then [] else g.knows x.bob, 0⟩ }
    | _, _ => g
  | .deliver k _ =>
    match n'.sessions[k]?, g.shares[k]? with
    | some x, some share =>
      { knows := fun i => g.knows i ++ if x.inFlight.isSome then [] else
          (if i = x.alice then share.ofBob else []) ++ if i = x.bob then share.ofAlice else []
        shares := g.shares.set k { share with answered := share.answered + 1 } }
    | _, _ => g

/-- The network, and what is known in it, after a sequence of events. -/
def Network.course (n : Network ι S E K R) (g : Spread ι E) :
    List (NetEvent ι E) → Except Fault (Network ι S E K R × Spread ι E)
  | [] => .ok (n, g)
  | ev :: evs => do
    let n' ← n.step ev
    Network.course n' (g.step n n' ev) evs

/-- Fingerprints of ranges tell the two snapshots of every accepted session apart. -/
def Network.Tells (live : S → List E) (n : Network ι S E K R) : Prop :=
  ∀ x ∈ n.sessions, ∀ b fB, x.accepted = some (b, fB) →
    RangesTell (admits x.filterA (live x.snapshotA)) (admits fB (live b))

/-- What was there in the beginning or is written. -/
def brought (live : S → List E) (start : ι → S) (evs : List (NetEvent ι E)) : Set E :=
  {e | (∃ i, e ∈ live (start i)) ∨ ∃ i, .write i e ∈ evs}

/-! ## What replicas take in -/

omit [Blake3] [Inhabited K] in
theorem has_trans {l l' : List E} (h : ∀ e ∈ l, Has l' e) {e : E} (he : Has l e) : Has l' e := by
  obtain ⟨_, ⟨e', he', rfl⟩, hle⟩ := he
  exact LowerSet.lower _ hle (h e' he')

/-- A replica that holds entries of `W`, none superseding another. -/
structure Kept (W : Set E) (l : List E) : Prop where
  antichain : IsAntichain (· ≤ ·) (stamps l)
  mem : ∀ e ∈ l, e ∈ W

section Lawful

variable {dom : Set K} {live : S → List E} (hr : LawfulReads S dom live) (hw : LawfulWrites S dom live)
  {W : Set E} (hW : ∀ e ∈ W, key e ∈ dom)

include hr hw hW

theorem has_puts_of_mem {s : S} {l : List E} (hl : ∀ e ∈ l, e ∈ W) {e : E} (h : Has (live s) e) :
    Has (live (puts s l)) e :=
  has_puts (Peer.ofLive hr hw) h l fun e he => hW e (hl e he)

theorem kept_puts {s : S} {l : List E} (hl : ∀ e ∈ l, e ∈ W) (h : Kept W (live s)) : Kept W (live (puts s l)) where
  antichain := by
    have hself : Reduct (stamps (live s)) (stamps (live s)) := ⟨h.antichain, Set.Subset.rfl, subset_lowerClosure⟩
    exact (reduct_puts hw hself l fun e he => hW e (hl e he)).antichain
  mem e he := (mem_live_puts (Peer.ofLive hr hw) (fun e he => hW e (hl e he)) he).elim (h.mem e) (hl e)

variable {replica : ι → S} {node : ι} {l : List E} (hl : ∀ e ∈ l, e ∈ W)

include hl

theorem has_update {i : ι} {e : E} (h : Has (live (replica i)) e) :
    Has (live (Function.update replica node (puts (replica node) l) i)) e := by
  by_cases hi : i = node
  · subst hi
    rw [Function.update_self]
    exact has_puts_of_mem hr hw hW hl h
  · rwa [Function.update_of_ne hi]

theorem kept_update (h : ∀ i, Kept W (live (replica i))) (i : ι) :
    Kept W (live (Function.update replica node (puts (replica node) l) i)) := by
  by_cases hi : i = node
  · subst hi
    rw [Function.update_self]
    exact kept_puts hr hw hW hl (h i)
  · rw [Function.update_of_ne hi]
    exact h i

end Lawful

/-! ## A message read amid other writes -/

omit [RangeKey K] in
/-- With a validator that accepts everything, what a session has put into its live store since does not show
in its answer; the values of the message are put. -/
theorem processMessage_amid {a l : S} {f : Option (E → Bool)} {got : List E} (status : E → ContentStatus)
    {m : Message E K R} {reply : Option (Message E K R)}
    (h : (processMessage default acceptAll status (puts (session a f) got) m).reply = .ok reply) :
    (processMessage default acceptAll status (puts (session a f) got) m).store =
      puts (session a f) (got ++ entriesOf m) ∧
    (processMessage default acceptAll status
      (⟨⟨l, a⟩, f⟩ : SessionStore (Snapshotted S) E) m).reply = .ok reply ∧
    (processMessage default acceptAll status
      (⟨⟨l, a⟩, f⟩ : SessionStore (Snapshotted S) E) m).store.inner.live = puts l (entriesOf m) := by
  have hview : SameView (⟨⟨l, a⟩, f⟩ : SessionStore (Snapshotted S) E) (puts (session a f) got) := by
    rw [puts_session]
    exact ⟨rfl, rfl⟩
  have hsame := (processMessage_rangeParts (P := SameView) (fun _ _ hP => hP.reads)
    (fun _ _ e hP => hP.put_left e) (fun _ _ e hP => hP.put_right e) acceptAll acceptAll status default
    hview m).2
  have hputs : ∀ s : SessionStore (Snapshotted S) E, m.values.foldl (ingest acceptAll) s = puts s (entriesOf m) := by
    intro s
    have hall : letIn (fun _ : E => ValidateOutcome.accept) (entriesOf m) = entriesOf m :=
      List.filter_eq_self.2 fun _ _ => by simp
    rw [← hall]
    exact foldl_ingest_gated (fun _ : E => ValidateOutcome.accept) s m.values
  rw [h] at hsame
  rcases hr : (processMessage default acceptAll status (⟨⟨l, a⟩, f⟩ : SessionStore (Snapshotted S) E) m).reply
    with fault | reply'
  · rw [hr] at hsame
    cases hsame
  · rw [hr] at hsame
    refine ⟨?_, ?_, ?_⟩
    · rw [store_eq_of_reply h, hputs, puts_append]
    · have hspoken : spoken reply' = spoken reply := by
        cases reply <;> cases reply' <;> exact Except.ok.inj hsame
      unfold spoken at hspoken
      rw [rangeParts_eq_self (rejections_acceptAll hr), rangeParts_eq_self (rejections_acceptAll h)] at hspoken
      cases reply with
      | none =>
        cases reply' with
        | none => rfl
        | some m' => exact absurd hspoken (parts_ne_nil_of_reply hr)
      | some m₀ =>
        cases reply' with
        | none => exact absurd hspoken.symm (parts_ne_nil_of_reply h)
        | some m' => exact congrArg (fun parts => Except.ok (some (Message.mk parts))) hspoken
    · rw [store_eq_of_reply hr, hputs]
      exact congrArg (fun s => s.inner.live) (puts_frozen l a f (entriesOf m))

/-! ## One session -/

/-- The live store of a session over the stores of a network. -/
def heldBy (live : S → List E) (s : SessionStore (Snapshotted S) E) : List E := live s.inner.live

/-- An accepted session is, message for message, the exchange `y` between its two snapshots; what the sides of
that exchange have received, the replicas know. -/
structure Mirrors (W : Set E) (dom : Set K) (live : S → List E) (replica : ι → S) (x : Running ι S E K R) (b : S)
    (fB : Option (E → Bool)) (answered : Nat)
    (y : Exchange (SessionStore (Snapshotted S) E) (SessionStore (Snapshotted S) E) E K R) : Prop where
  sound : ∃ r, y.Sound dom (served live) (heldBy live) (served live) (heldBy live)
    (sessionOrigin (live x.snapshotA) x.filterA) (sessionOrigin (live b) fB) r
  inFlight : y.inFlight = x.inFlight
  turn : y.turn = x.turn
  alice : ∃ got, y.alice = puts (session x.snapshotA x.filterA) got ∧
    ∀ e ∈ got, e ∈ W ∧ Has (live (replica x.alice)) e
  bob : ∃ got, y.bob = puts (session b fB) got ∧ ∀ e ∈ got, e ∈ W ∧ Has (live (replica x.bob)) e
  paced : y.inFlight.isSome → ∃ k, 0 < k ∧ y.Paced (served live) (served live) k ∧
    k + answered ≤ pace (admits fB (live b)).length (admits x.filterA (live x.snapshotA)).length

/-- What is known of a snapshot: its entries are still known to the replica, and it knows the share. -/
structure Frozen (W : Set E) (live : S → List E) (now snapshot : S) (filter : Option (E → Bool))
    (share : List E) : Prop where
  kept : Kept W (live snapshot)
  held : ∀ e ∈ live snapshot, Has (live now) e
  knew : ∀ e ∈ share, filter = none ∧ Has (live snapshot) e

/-- A session, before bob accepts it and after. -/
structure Tracked (W : Set E) (dom : Set K) (live : S → List E) (replica : ι → S) (x : Running ι S E K R)
    (share : Share E) : Prop where
  alice : Frozen W live (replica x.alice) x.snapshotA x.filterA share.ofAlice
  dialed : x.accepted = none → x.turn = .bob ∧ share.ofBob = [] ∧
    ∃ m, x.inFlight = some m ∧ initialMessage (session x.snapshotA x.filterA) = .ok m
  bob : ∀ b fB, x.accepted = some (b, fB) → Frozen W live (replica x.bob) b fB share.ofBob ∧
    ∃ y, Mirrors W dom live replica x b fB share.answered y

section Session

variable {W : Set E} {dom : Set K} {live : S → List E} {replica replica' : ι → S} {x : Running ι S E K R}
  {share : Share E} {b : S} {fB : Option (E → Bool)} {answered : Nat}
  {y : Exchange (SessionStore (Snapshotted S) E) (SessionStore (Snapshotted S) E) E K R}

omit [Store S E K V] [Blake3] [Inhabited K] in
theorem Frozen.mono {now now' snapshot : S} {filter : Option (E → Bool)} {ofSide : List E}
    (h : Frozen W live now snapshot filter ofSide) (hgrow : ∀ e, Has (live now) e → Has (live now') e) :
    Frozen W live now' snapshot filter ofSide :=
  ⟨h.kept, fun e he => hgrow e (h.held e he), h.knew⟩

omit [DecidableEq ι] in
theorem Mirrors.mono (h : Mirrors W dom live replica x b fB answered y)
    (hgrow : ∀ i e, Has (live (replica i)) e → Has (live (replica' i)) e) :
    Mirrors W dom live replica' x b fB answered y where
  sound := h.sound
  inFlight := h.inFlight
  turn := h.turn
  alice := by
    obtain ⟨got, halice, hgot⟩ := h.alice
    exact ⟨got, halice, fun e he => (hgot e he).imp_right (hgrow _ e)⟩
  bob := by
    obtain ⟨got, hbob, hgot⟩ := h.bob
    exact ⟨got, hbob, fun e he => (hgot e he).imp_right (hgrow _ e)⟩
  paced := h.paced

omit [DecidableEq ι] in
theorem Tracked.mono (h : Tracked W dom live replica x share)
    (hgrow : ∀ i e, Has (live (replica i)) e → Has (live (replica' i)) e) :
    Tracked W dom live replica' x share where
  alice := h.alice.mono (hgrow _)
  dialed := h.dialed
  bob b fB hb := by
    obtain ⟨hfrozen, y, hy⟩ := h.bob b fB hb
    exact ⟨hfrozen.mono (hgrow _), y, hy.mono hgrow⟩

variable (hr : LawfulReads S dom live) (hw : LawfulWrites S dom live)

include hr hw

/-- What a side of the mirrored exchange holds, the replica knows. -/
theorem has_of_heldBy {now snapshot : S} {filter : Option (E → Bool)} {got : List E} {ofSide : List E}
    (hfrozen : Frozen W live now snapshot filter ofSide) (hW : ∀ e ∈ W, key e ∈ dom)
    (hgot : ∀ e ∈ got, e ∈ W ∧ Has (live now) e) {e : E}
    (h : Has (heldBy live (puts (session snapshot filter) got)) e) : Has (live now) e := by
  refine has_trans (fun e' he' => ?_) h
  rw [heldBy, puts_session] at he'
  rcases mem_live_puts (Peer.ofLive hr hw) (fun e he => hW e (hgot e he).1) he' with he' | he'
  · exact hfrozen.held e' he'
  · exact (hgot e' he').2

omit hr hw [LinearOrder K] [RangeKey K] in
theorem served_puts (s : S) (f : Option (E → Bool)) (got : List E) :
    served live (puts (session s f) got) = admits f (live s) := by
  rw [served, puts_session]

omit [DecidableEq ι] in
/-- Bob joins: from here on the session mirrors the exchange of the two snapshots. -/
theorem tracked_accept (h : Tracked W dom live replica x share)
    (hnone : x.accepted = none) (hkept : Kept W (live (replica x.bob))) {f : Option (E → Bool)} {ofBob : List E}
    (hknows : ∀ e ∈ ofBob, f = none ∧ Has (live (replica x.bob)) e) :
    Tracked W dom live replica { x with accepted := some (replica x.bob, f) } ⟨share.ofAlice, ofBob, 0⟩ where
  alice := h.alice
  dialed hc := by cases hc
  bob b fB hb := by
    cases hb
    obtain ⟨hturn, -, m, hm, hinit⟩ := h.dialed hnone
    have hA := Peer.ofSession hr hw
    obtain ⟨y, hstart, hsound⟩ := sound_start (served live) (heldBy live) hA (R := R)
      (a := session x.snapshotA x.filterA) (b := session (replica x.bob) f)
      (holding_sessionOrigin (hr.sorted x.snapshotA) h.alice.kept.antichain x.filterA _)
      (holding_sessionOrigin (hr.sorted (replica x.bob)) hkept.antichain f _)
    have hpaced := paced_start hstart (served live) (served live)
    obtain ⟨m', hm', hy⟩ := bind_eq_ok.1 hstart
    obtain rfl : m = m' := Except.ok.inj (hinit.symm.trans hm')
    cases hy
    refine ⟨⟨hkept, fun e he => subset_lowerClosure (stamp_mem_stamps he), hknows⟩, _, ⟨_, hsound⟩, hm.symm,
      hturn.symm, ⟨[], rfl, by simp⟩, ⟨[], rfl, by simp⟩, fun _ => ⟨_, Nat.succ_pos _, hpaced, le_rfl⟩⟩

/-- A message is read: the mirrored exchange makes the same step, and the reader's replica takes in the values. -/
theorem mirrors_deliver (hW : ∀ e ∈ W, key e ∈ dom)
    (ht : RangesTell (admits x.filterA (live x.snapshotA)) (admits fB (live b)))
    (hacc : x.accepted = some (b, fB)) (hA : Kept W (live x.snapshotA)) (hB : Kept W (live b))
    (h : Mirrors W dom live replica x b fB answered y) {m : Message E K R} (hm : x.inFlight = some m)
    (status : E → ContentStatus) : ∃ node snapshot filter reply y', x.reader = some (node, snapshot, filter) ∧
      (processMessage default acceptAll status
        (⟨⟨replica node, snapshot⟩, filter⟩ : SessionStore (Snapshotted S) E) m).reply = .ok reply ∧
      (processMessage default acceptAll status
        (⟨⟨replica node, snapshot⟩, filter⟩ : SessionStore (Snapshotted S) E) m).store.inner.live =
          puts (replica node) (entriesOf m) ∧
      (∀ e ∈ entriesOf m, e ∈ W) ∧
      Mirrors W dom live (Function.update replica node (puts (replica node) (entriesOf m)))
        { x with turn := otherSide x.turn, inFlight := reply } b fB (answered + 1) y' := by
  obtain ⟨⟨r, hsound⟩, hflight, hturn, ⟨gotA, halice, hgotA⟩, ⟨gotB, hbob, hgotB⟩, hpaced⟩ := h
  have hP := Peer.ofSession hr hw
  have hmA := meets_session (hr.mem_dom b) (live x.snapshotA) x.filterA fB
  have hmB := meets_session (hr.mem_dom x.snapshotA) (live b) fB x.filterA
  have htells : y.Tells (served live) (served live) status status := by
    refine Exchange.tells_of_fixed status status (served_put live) (served_put live) ?_
    rw [halice, hbob, served_puts, served_puts]
    exact ht
  obtain ⟨k, hpos, hk, hle⟩ := hpaced (by rw [hflight, hm]; rfl)
  obtain ⟨y', hstep, hsound', -⟩ := sound_step status status hP hP hmA hmB y hsound htells
  obtain ⟨hk', hpos'⟩ := paced_step status status hP hP hmA hmB hsound hk hstep hsound'
  have hpaced' : y'.inFlight.isSome → ∃ k, 0 < k ∧ y'.Paced (served live) (served live) k ∧
      k + (answered + 1) ≤ pace (admits fB (live b)).length (admits x.filterA (live x.snapshotA)).length :=
    fun hs => ⟨k - 1, by have := hpos' hs; omega, hk', by omega⟩
  obtain ⟨ya, yb, turn, inFlight, toBob, toAlice⟩ := y
  obtain ⟨alice, bob, snapshotA, filterA, accepted, turnX, inFlightX⟩ := x
  dsimp only at hflight hturn halice hbob hm hacc hgotA hgotB hA
  subst hflight hturn hm halice hbob
  cases turn with
  | bob =>
    obtain ⟨reply, hreply, hy⟩ := bind_eq_ok.1 hstep
    cases hy
    have hin : ∀ e ∈ entriesOf m, e ∈ W := fun e he => hA.mem e (mem_admits (InFlight.serves hsound e he))
    obtain ⟨hstore, hsame, hlive⟩ := processMessage_amid (l := replica bob) status hreply
    refine ⟨bob, b, fB, reply, _, by simp [Running.reader, hacc], hsame, hlive, hin, ⟨_, hsound'⟩, rfl, rfl,
      ⟨gotA, rfl, fun e he => (hgotA e he).imp_right (has_update hr hw hW hin)⟩,
      ⟨gotB ++ entriesOf m, hstore, fun e he => ?_⟩, hpaced'⟩
    rcases List.mem_append.1 he with he | he
    · exact (hgotB e he).imp_right (has_update hr hw hW hin)
    · refine ⟨hin e he, ?_⟩
      rw [Function.update_self]
      exact has_puts_mem (Peer.ofLive hr hw) _ (fun e he => hW e (hin e he)) he
  | alice =>
    obtain ⟨reply, hreply, hy⟩ := bind_eq_ok.1 hstep
    cases hy
    have hin : ∀ e ∈ entriesOf m, e ∈ W := fun e he => hB.mem e (mem_admits (InFlight.serves hsound e he))
    obtain ⟨hstore, hsame, hlive⟩ := processMessage_amid (l := replica alice) status hreply
    refine ⟨alice, snapshotA, filterA, reply, _, rfl, hsame, hlive, hin, ⟨_, hsound'⟩, rfl, rfl,
      ⟨gotA ++ entriesOf m, hstore, fun e he => ?_⟩,
      ⟨gotB, rfl, fun e he => (hgotB e he).imp_right (has_update hr hw hW hin)⟩, hpaced'⟩
    rcases List.mem_append.1 he with he | he
    · exact (hgotA e he).imp_right (has_update hr hw hW hin)
    · refine ⟨hin e he, ?_⟩
      rw [Function.update_self]
      exact has_puts_mem (Peer.ofLive hr hw) _ (fun e he => hW e (hin e he)) he

omit [DecidableEq ι] in
/-- A session that is over: each side knows what the other one joined with. -/
theorem mirrors_over (hW : ∀ e ∈ W, key e ∈ dom)
    (hA : Frozen W live (replica x.alice) x.snapshotA x.filterA share.ofAlice)
    (hB : Frozen W live (replica x.bob) b fB share.ofBob) (h : Mirrors W dom live replica x b fB answered y)
    (hover : x.inFlight = none) : (∀ e ∈ share.ofAlice, Has (live (replica x.bob)) e) ∧
      ∀ e ∈ share.ofBob, Has (live (replica x.alice)) e := by
  obtain ⟨⟨r, hsound⟩, hflight, -, ⟨gotA, halice, hgotA⟩, ⟨gotB, hbob, hgotB⟩, -⟩ := h
  have hsettled : Settled (sessionOrigin (live x.snapshotA) x.filterA) (sessionOrigin (live b) fB)
      (y.partyA (served live) (heldBy live)) (y.partyB (served live) (heldBy live)) := by
    simpa [Exchange.Sound, hflight, hover] using hsound
  have hserves : ∀ (s : S) (got : List E), served live (puts (session s none) got) = live s := by
    intro s got
    rw [served_puts]
    exact List.filter_eq_self.2 fun _ _ => rfl
  constructor
  · intro e he
    obtain ⟨hf, hhas⟩ := hA.knew e he
    refine has_trans (fun e' he' => ?_) hhas
    refine has_of_heldBy hr hw hB hW hgotB (hbob ▸ hsettled.knows e' ?_)
    show e' ∈ served live y.alice
    rw [halice, hf, hserves]
    exact he'
  · intro e he
    obtain ⟨hf, hhas⟩ := hB.knew e he
    refine has_trans (fun e' he' => ?_) hhas
    refine has_of_heldBy hr hw hA hW hgotA (halice ▸ hsettled.known e' ?_)
    show e' ∈ served live y.bob
    rw [hbob, hf, hserves]
    exact he'

end Session

/-! ## The network -/

/-- Every replica holds what its node knows, and every session is tracked. -/
structure Spreads (W : Set E) (dom : Set K) (live : S → List E) (n : Network ι S E K R) (g : Spread ι E) :
    Prop where
  aligned : g.shares.length = n.sessions.length
  kept : ∀ i, Kept W (live (n.replica i))
  knows : ∀ i, ∀ e ∈ g.knows i, Has (live (n.replica i)) e
  session : ∀ (k : Nat) x share, n.sessions[k]? = some x → g.shares[k]? = some share →
    Tracked W dom live n.replica x share

section Run

omit [Blake3] in
theorem mem_ite_nil {c : Prop} [Decidable c] {l : List E} {e : E} : (e ∈ if c then l else []) ↔ c ∧ e ∈ l := by
  split <;> simp_all

omit [Blake3] in
/-- A side that filters joins with nothing to tell. -/
theorem mem_joined {filter : Option (E → Bool)} {l : List E} {e : E} :
    (e ∈ if filter.isSome then [] else l) ↔ filter = none ∧ e ∈ l := by
  cases filter <;> simp

omit [Blake3] in
/-- One more pair at an index, or another one there. -/
theorem forall_pair_set {α β : Type} {P : α → β → Prop} {l : List α} {l' : List β} {k : Nat} {a : α} {b : β}
    (h : ∀ (j : Nat) x y, l[j]? = some x → l'[j]? = some y → P x y) (hnew : P a b) :
    ∀ (j : Nat) x y, (l.set k a)[j]? = some x → (l'.set k b)[j]? = some y → P x y := by
  intro j x y hx hy
  rw [List.getElem?_set] at hx hy
  by_cases hj : k = j
  · rw [if_pos hj] at hx hy
    obtain ⟨-, hx⟩ := Option.ite_none_right_eq_some.1 hx
    obtain ⟨-, hy⟩ := Option.ite_none_right_eq_some.1 hy
    cases hx
    cases hy
    exact hnew
  · rw [if_neg hj] at hx hy
    exact h j x y hx hy

omit [Blake3] in
theorem forall_pair_concat {α β : Type} {P : α → β → Prop} {l : List α} {l' : List β} {a : α} {b : β}
    (hlen : l'.length = l.length) (h : ∀ (j : Nat) x y, l[j]? = some x → l'[j]? = some y → P x y) (hnew : P a b) :
    ∀ (j : Nat) x y, (l ++ [a])[j]? = some x → (l' ++ [b])[j]? = some y → P x y := by
  intro j x y hx hy
  rw [List.getElem?_append] at hx hy
  split at hx
  · rename_i hlt
    rw [if_pos (by omega)] at hy
    exact h j x y hx hy
  · rename_i hge
    rw [if_neg (by omega)] at hy
    obtain rfl := List.mem_singleton.1 (List.mem_of_getElem? hx)
    obtain rfl := List.mem_singleton.1 (List.mem_of_getElem? hy)
    exact hnew

variable {W : Set E} {dom : Set K} {live : S → List E} {n : Network ι S E K R} {g : Spread ι E}

/-- The session at `k` was delivered to, and is now `x'`. -/
theorem spreads_answered (h : Spreads W dom live n g) {k : Nat} {x' : Running ι S E K R} {share : Share E}
    {replica' : ι → S} (hk : k < n.sessions.length) (hshare : g.shares[k]? = some share) (status : E → ContentStatus)
    (hkept : ∀ i, Kept W (live (replica' i)))
    (hgrow : ∀ i e, Has (live (n.replica i)) e → Has (live (replica' i)) e)
    (hx' : Tracked W dom live replica' x' { share with answered := share.answered + 1 })
    (hover : x'.inFlight = none → (∀ e ∈ share.ofAlice, Has (live (replica' x'.bob)) e) ∧
      ∀ e ∈ share.ofBob, Has (live (replica' x'.alice)) e) :
    Spreads W dom live ⟨replica', n.sessions.set k x'⟩
      (g.step n ⟨replica', n.sessions.set k x'⟩ (.deliver k status)) := by
  have hnow : (n.sessions.set k x')[k]? = some x' := by simp [hk]
  simp only [Spread.step, hnow, hshare]
  refine ⟨by simp [h.aligned], hkept, fun i e he => ?_, forall_pair_set (fun j x share hx hs => ?_) hx'⟩
  · rcases List.mem_append.1 he with he | he
    · exact hgrow i e (h.knows i e he)
    · cases hflight : x'.inFlight with
      | some m => simp [hflight] at he
      | none =>
        rw [hflight] at he
        rcases List.mem_append.1 he with he | he
        · obtain ⟨rfl, hshared⟩ := mem_ite_nil.1 he
          exact (hover hflight).2 e hshared
        · obtain ⟨rfl, hshared⟩ := mem_ite_nil.1 he
          exact (hover hflight).1 e hshared
  · exact (h.session j x share hx hs).mono hgrow

variable (hr : LawfulReads S dom live) (hw : LawfulWrites S dom live)

include hr hw

theorem spreads_dial (h : Spreads W dom live n g) (alice bob : ι) (filter : Option (E → Bool)) :
    ∃ n', n.step (.dial alice bob filter) = .ok n' ∧
      Spreads W dom live n' (g.step n n' (.dial alice bob filter)) := by
  obtain ⟨m, hm⟩ : ∃ m : Message E K R, initialMessage (session (n.replica alice) filter) = .ok m := by
    have hP := Peer.ofSession hr hw
    have hfirst := hP.reads.getFirst (session (n.replica alice) filter)
    have hall := fun k => hP.reads.getFingerprint (session (n.replica alice) filter) ⟨k, k⟩ (.inl rfl)
    exact ⟨_, by simp only [initialMessage, hfirst, bind, Except.bind, hall]; rfl⟩
  refine ⟨_, bind_eq_ok.2 ⟨m, hm, rfl⟩, by simp [Spread.step, h.aligned], h.kept, h.knows,
    forall_pair_concat h.aligned h.session ?_⟩
  refine ⟨⟨h.kept alice, fun e he => subset_lowerClosure (stamp_mem_stamps he), fun e he => ?_⟩,
    fun _ => ⟨rfl, rfl, m, rfl, hm⟩, fun _ _ hb => by cases hb⟩
  have hjoined := mem_joined.1 he
  exact ⟨hjoined.1, h.knows alice e hjoined.2⟩

theorem spreads_accept (h : Spreads W dom live n g) (k : Nat) (filter : Option (E → Bool)) :
    ∃ n', n.step (.accept k filter) = .ok n' ∧ Spreads W dom live n' (g.step n n' (.accept k filter)) := by
  cases hx : n.sessions[k]? with
  | none => exact ⟨n, by simp [Network.step, hx], by simpa [Spread.step, hx] using h⟩
  | some x =>
    obtain ⟨share, hshare⟩ : ∃ share, g.shares[k]? = some share :=
      Option.isSome_iff_exists.1 (by simp [h.aligned, (List.getElem?_eq_some_iff.1 hx).1])
    by_cases hacc : x.accepted.isSome = true
    · exact ⟨n, by simp [Network.step, hx, hacc], by simpa [Spread.step, hx, hshare, hacc] using h⟩
    · refine ⟨_, by simp only [Network.step, hx, hacc]; rfl, ?_⟩
      simp only [Spread.step, hx, hshare, hacc]
      refine ⟨by simp [h.aligned], h.kept, h.knows, forall_pair_set h.session ?_⟩
      exact tracked_accept hr hw (h.session k x share hx hshare) (by simpa using hacc) (h.kept x.bob)
        fun e he => ⟨(mem_joined.1 he).1, h.knows x.bob e (mem_joined.1 he).2⟩

variable (hW : ∀ e ∈ W, key e ∈ dom)

include hW

theorem spreads_write (h : Spreads W dom live n g) (node : ι) {e : E} (he : e ∈ W) :
    ∃ n', n.step (.write node e) = .ok n' ∧ Spreads W dom live n' (g.step n n' (.write node e)) := by
  have hin : ∀ e' ∈ [e], e' ∈ W := fun e' he' => List.mem_singleton.1 he' ▸ he
  have hgrow : ∀ i e', Has (live (n.replica i)) e' →
      Has (live (Function.update n.replica node (put (n.replica node) e).2 i)) e' :=
    fun i e' => has_update hr hw hW hin
  refine ⟨_, rfl, h.aligned, kept_update hr hw hW hin h.kept, fun i e' he' => ?_,
    fun k x share hx hshare => (h.session k x share hx hshare).mono hgrow⟩
  by_cases hi : i = node
  · subst hi
    have he' : e' ∈ Function.update g.knows i (e :: g.knows i) i := he'
    rw [Function.update_self] at he'
    rcases List.mem_cons.1 he' with rfl | he'
    · show Has (live (Function.update n.replica i (put (n.replica i) e').2 i)) e'
      rw [Function.update_self]
      exact has_put_self (Peer.ofLive hr hw) (hW e' he)
    · exact hgrow i e' (h.knows i e' he')
  · have he' : e' ∈ Function.update g.knows node (e :: g.knows node) i := he'
    rw [Function.update_of_ne hi] at he'
    exact hgrow i e' (h.knows i e' he')

theorem spreads_deliver (ht : n.Tells live) (h : Spreads W dom live n g) (k : Nat) (status : E → ContentStatus) :
    ∃ n', n.step (.deliver k status) = .ok n' ∧ Spreads W dom live n' (g.step n n' (.deliver k status)) := by
  cases hx : n.sessions[k]? with
  | none => exact ⟨n, by simp [Network.step, hx], by simpa [Spread.step, hx] using h⟩
  | some x =>
    obtain ⟨hk, hget⟩ := List.getElem?_eq_some_iff.1 hx
    obtain ⟨share, hshare⟩ : ∃ share, g.shares[k]? = some share :=
      Option.isSome_iff_exists.1 (by simp [h.aligned, hk])
    have htracked := h.session k x share hx hshare
    have hsame : n = ⟨n.replica, n.sessions.set k x⟩ := by
      rw [← hget, List.set_getElem_self]
    cases hacc : x.accepted with
    | none =>
      -- bob is to read, and has not joined
      obtain ⟨hturn, hnone, m, hm, hinit⟩ := htracked.dialed hacc
      refine ⟨n, by simp [Network.step, hx, Running.reader, hturn, hacc, hm], ?_⟩
      rw [hsame]
      refine spreads_answered h hk hshare status h.kept (fun _ _ h => h) ⟨htracked.alice, htracked.dialed, ?_⟩ ?_
      · intro b fB hb
        rw [hacc] at hb
        cases hb
      · intro hover
        rw [hm] at hover
        cases hover
    | some j =>
      obtain ⟨b, fB⟩ := j
      obtain ⟨hbob, y, hy⟩ := htracked.bob b fB hacc
      cases hm : x.inFlight with
      | none =>
        refine ⟨n, by simp [Network.step, hx, hm], ?_⟩
        rw [hsame]
        refine spreads_answered h hk hshare status h.kept (fun _ _ h => h) ⟨htracked.alice, htracked.dialed, ?_⟩
          fun hover => mirrors_over hr hw hW htracked.alice hbob hy hover
        intro b' fB' hb'
        obtain ⟨rfl, rfl⟩ : b = b' ∧ fB = fB' := by simpa [hacc] using hb'
        refine ⟨hbob, y, hy.sound, hy.inFlight, hy.turn, hy.alice, hy.bob, fun hs => ?_⟩
        rw [hy.inFlight, hm] at hs
        cases hs
      | some m =>
        obtain ⟨node, snapshot, filter, reply, y', hreader, hreply, hlive, hin, hy'⟩ :=
          mirrors_deliver hr hw hW (ht x (List.mem_of_getElem? hx) b fB hacc) hacc htracked.alice.kept hbob.kept hy hm
            status
        have hgrow : ∀ i e, Has (live (n.replica i)) e →
            Has (live (Function.update n.replica node (puts (n.replica node) (entriesOf m)) i)) e :=
          fun i e => has_update hr hw hW hin
        refine ⟨⟨Function.update n.replica node (puts (n.replica node) (entriesOf m)),
          n.sessions.set k { x with turn := otherSide x.turn, inFlight := reply }⟩, ?_, ?_⟩
        · simp only [Network.step, hx, hm, hreader, hreply, hlive, bind, Except.bind]
        · refine spreads_answered h hk hshare status (kept_update hr hw hW hin h.kept) hgrow
            ⟨htracked.alice.mono (hgrow _), fun hc => ?_, fun b' fB' hb' => ?_⟩
            fun hover => mirrors_over hr hw hW (htracked.alice.mono (hgrow _)) (hbob.mono (hgrow _)) hy' hover
          · rw [hacc] at hc
            cases hc
          · obtain ⟨rfl, rfl⟩ : b = b' ∧ fB = fB' := by simpa [hacc] using hb'
            exact ⟨hbob.mono (hgrow _), y', hy'⟩

/-- Step: no event fails, and the invariant goes on. -/
theorem spreads_step (ht : n.Tells live) (h : Spreads W dom live n g) (ev : NetEvent ι E)
    (hev : ∀ node e, ev = .write node e → e ∈ W) :
    ∃ n', n.step ev = .ok n' ∧ Spreads W dom live n' (g.step n n' ev) := by
  cases ev with
  | write node e => exact spreads_write hr hw hW h node (hev node e rfl)
  | dial alice bob filter => exact spreads_dial hr hw h alice bob filter
  | accept k filter => exact spreads_accept hr hw h k filter
  | deliver k status => exact spreads_deliver hr hw hW ht h k status

/-- Run. -/
theorem spreads_course (h : Spreads W dom live n g) (evs : List (NetEvent ι E))
    (ht : ∀ evs' n' g', evs' <+: evs → n.course g evs' = .ok (n', g') → n'.Tells live)
    (hevs : ∀ node e, .write node e ∈ evs → e ∈ W) :
    ∃ n' g', n.course g evs = .ok (n', g') ∧ Spreads W dom live n' g' := by
  induction evs generalizing n g with
  | nil => exact ⟨n, g, rfl, h⟩
  | cons ev evs ih =>
    obtain ⟨n₁, hstep, h₁⟩ := spreads_step hr hw hW (ht [] n g List.nil_prefix rfl) h ev fun node e heq =>
      hevs node e (heq ▸ List.mem_cons_self)
    have ht₁ : ∀ evs' n' g', evs' <+: evs → n₁.course (g.step n n₁ ev) evs' = .ok (n', g') → n'.Tells live :=
      fun evs' n' g' hpre hrun => ht (ev :: evs') n' g' (List.cons_prefix_cons.2 ⟨rfl, hpre⟩)
        (bind_eq_ok.2 ⟨n₁, hstep, hrun⟩)
    obtain ⟨n', g', hrun, h'⟩ := ih h₁ ht₁ fun node e he => hevs node e (List.mem_cons_of_mem ev he)
    exact ⟨n', g', bind_eq_ok.2 ⟨n₁, hstep, hrun⟩, h'⟩

end Run

/-! ## Convergence -/

section Settled

variable {W : Set E} {dom : Set K} {live : S → List E} {n : Network ι S E K R} {g : Spread ι E}

omit [DecidableEq ι] in
/-- A node that knows everything holds the prefix-reduced set. -/
theorem Spreads.settled (h : Spreads W dom live n g) {i : ι} (hall : ∀ e ∈ W, e ∈ g.knows i) :
    stamps (live (n.replica i)) = maximals (stamp '' W) := by
  refine Reduct.eq_maximals ⟨(h.kept i).antichain, ?_, ?_⟩
  · rintro _ ⟨e, he, rfl⟩
    exact ⟨e, (h.kept i).mem e he, rfl⟩
  · rintro _ ⟨e, he, rfl⟩
    exact h.knows i e (hall e he)

omit [DecidableEq ι] in
theorem Spreads.over (h : Spreads W dom live n g) {k : Nat} {x : Running ι S E K R} {share : Share E} {b : S}
    {fB : Option (E → Bool)} (hx : n.sessions[k]? = some x) (hshare : g.shares[k]? = some share)
    (hacc : x.accepted = some (b, fB))
    (hle : pace (admits fB (live b)).length (admits x.filterA (live x.snapshotA)).length ≤ share.answered) :
    x.inFlight = none := by
  obtain ⟨-, y, hy⟩ := (h.session k x share hx hshare).bob b fB hacc
  by_contra hsome
  obtain ⟨m, hpos, -, hpace⟩ := hy.paced (by rw [hy.inFlight]; exact Option.isSome_iff_ne_none.2 hsome)
  omega

/-- Run, from the start. -/
theorem spreads_start (hr : LawfulReads S dom live) (hw : LawfulWrites S dom live) (start : ι → S)
    (hstart : ∀ i, IsAntichain (· ≤ ·) (stamps (live (start i)))) (evs : List (NetEvent ι E))
    (hdom : ∀ node e, .write node e ∈ evs → key e ∈ dom)
    (ht : ∀ (evs' : List (NetEvent ι E)) (n : Network ι S E K R) (g : Spread ι E), evs' <+: evs →
      Network.course ⟨start, []⟩ ⟨fun i => live (start i), []⟩ evs' = .ok (n, g) → n.Tells live) :
    ∃ (n : Network ι S E K R) (g : Spread ι E),
      Network.course ⟨start, []⟩ ⟨fun i => live (start i), []⟩ evs = .ok (n, g) ∧
      Spreads (brought live start evs) dom live n g := by
  have hW : ∀ e ∈ brought live start evs, key e ∈ dom := by
    rintro e (⟨i, he⟩ | ⟨node, he⟩)
    · exact hr.mem_dom (start i) e he
    · exact hdom node e he
  have hbegin : Spreads (brought live start evs) dom live (⟨start, []⟩ : Network ι S E K R)
      ⟨fun i => live (start i), []⟩ := by
    refine ⟨rfl, fun i => ⟨hstart i, fun e he => .inl ⟨i, he⟩⟩,
      fun i e he => subset_lowerClosure (stamp_mem_stamps he), fun k x share hx => ?_⟩
    cases hx
  exact spreads_course hr hw hW hbegin evs ht fun node e he => .inr ⟨node, he⟩

end Settled

end

/-! ## An instance -/

section

local instance networkDigests : Blake3 := sampleDigests

/-- The first of three nodes holds `[1]`, the second `[1, 2]` and `[7]`, the third nothing. -/
def sampleStart (i : Fin 3) : SimpleStore Bytes Nat :=
  if i = 0 then puts default [([1], 4)] else if i = 1 then puts default [([1, 2], 3), ([7], 1)] else default

/-- The sessions of the middle node with the two others overlap; it repeats the second one. -/
def sampleEvents : List (NetEvent (Fin 3) (Bytes × Nat)) :=
  [.dial 0 1 none, .dial 1 2 none, .accept 0 none, .deliver 0 fun _ => .complete, .accept 1 none,
    .deliver 1 fun _ => .complete, .deliver 0 fun _ => .complete, .deliver 1 fun _ => .complete,
    .deliver 0 fun _ => .complete, .deliver 0 fun _ => .complete, .deliver 1 fun _ => .complete,
    .dial 2 1 none, .accept 2 none, .deliver 2 fun _ => .complete, .deliver 2 fun _ => .complete,
    .deliver 2 fun _ => .complete, .deliver 2 fun _ => .complete]

/-- What is known of the network on the way to its end: it serves some of `sampleEntries`. -/
theorem sampleCourse_tells (evs : List (NetEvent (Fin 3) (Bytes × Nat)))
    (n : Network (Fin 3) (SimpleStore Bytes Nat) (Bytes × Nat) Bytes Unit) (g : Spread (Fin 3) (Bytes × Nat))
    (hpre : evs <+: sampleEvents)
    (hrun : Network.course ⟨sampleStart, []⟩ ⟨fun i => (sampleStart i).entries, []⟩ evs = .ok (n, g)) :
    n.Tells SimpleStore.entries := by
  have hall : ∀ k ≤ sampleEvents.length, (Network.course (R := Unit) ⟨sampleStart, []⟩
      ⟨fun i => (sampleStart i).entries, []⟩ (sampleEvents.take k)).toOption.all fun p => p.1.sessions.all fun x =>
        x.snapshotA.entries ∈ sampleEntries.sublists &&
          x.accepted.all fun j => j.1.entries ∈ sampleEntries.sublists := by
    decide +kernel
  have h := hall evs.length hpre.length_le
  rw [← List.prefix_iff_eq_take.1 hpre, hrun] at h
  intro x hx b fB hacc
  obtain ⟨hA, hB⟩ := Bool.and_eq_true_iff.1 (List.all_eq_true.1 h x hx)
  rw [hacc] at hB
  exact sampleDigests_tell (List.filter_sublist.trans (List.mem_sublists.1 (of_decide_eq_true hA)))
    (List.filter_sublist.trans (List.mem_sublists.1 (of_decide_eq_true hB)))

/-- In the end all three hold `[1]` and `[7]`. -/
example : ((Network.course (R := Unit) ⟨sampleStart, []⟩ ⟨fun i => (sampleStart i).entries, []⟩
    sampleEvents).toOption.map fun p => [(p.1.replica 0).entries, (p.1.replica 1).entries, (p.1.replica 2).entries]) =
      some [[([1], 4), ([7], 1)], [([1], 4), ([7], 1)], [([1], 4), ([7], 1)]] := by
  decide +kernel

end

end PdnStore.Session

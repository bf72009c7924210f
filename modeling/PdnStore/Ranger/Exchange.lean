import PdnStore.Ranger.Split

/-!
# Two stores in an exchange (ranger.rs:1457-1511, sync.rs:594-717)

The loop of `sync_exchange_messages`, which is also what the two ends of a connection run: alice
opens with `initial_message`, and every message is answered by the other side until a reply is
`None`. Both validators accept everything and the configuration is the default one.

A side of the exchange is known by three things only: what it *serves* (`view`), what it *holds*
(`live`), and what it has sent. `Peer` says how an insertion moves the first two; a store that reads
live serves what it holds, a session over a snapshot serves what it held when it began. `Holding`
is what every insertion of the peer's entries keeps.
-/

namespace PdnStore.Ranger

open Store MaxSet

/-! ## The loop -/

/-- Who is to read the message in flight. -/
inductive Side where
  | alice
  | bob
deriving DecidableEq, Repr

/-- The two stores, the message in flight, and the messages sent so far (`SyncResult`, ranger.rs:1291). -/
structure Exchange (A B E K R : Type) where
  alice : A
  bob : B
  turn : Side
  inFlight : Option (Message E K R)
  aliceToBob : List (Message E K R)
  bobToAlice : List (Message E K R)

section Loop

variable {S A B E K V R : Type} [LinearOrder K] [LinearOrder V] [RangeEntry E K V R]
  [Store S E K V] [Store A E K V] [Store B E K V] [Blake3]

/-- A validator that accepts everything. -/
def acceptAll : S → E → ContentStatus → ValidateOutcome := fun _ _ _ => .accept

namespace Exchange

/-- Alice's initial message is on its way. -/
def start (a : A) (b : B) : Except Fault (Exchange A B E K R) := do
  let m ← initialMessage a
  .ok ⟨a, b, .bob, some m, [m], []⟩

/-- The receiver processes the message in flight; its reply is the next one. -/
def step (statusA statusB : E → ContentStatus) (x : Exchange A B E K R) :
    Except Fault (Exchange A B E K R) :=
  match x.inFlight, x.turn with
  | none, _ => .ok x
  | some m, .bob => do
    let p := processMessage default acceptAll statusB x.bob m
    let reply ← p.reply
    .ok { x with
      bob := p.store, turn := .alice, inFlight := reply, bobToAlice := x.bobToAlice ++ reply.toList }
  | some m, .alice => do
    let p := processMessage default acceptAll statusA x.alice m
    let reply ← p.reply
    .ok { x with
      alice := p.store, turn := .bob, inFlight := reply, aliceToBob := x.aliceToBob ++ reply.toList }

/-- `n` messages. -/
def run (statusA statusB : E → ContentStatus) : Nat → Exchange A B E K R → Except Fault (Exchange A B E K R)
  | 0, x => .ok x
  | n + 1, x => do run statusA statusB n (← step statusA statusB x)

end Exchange

/-- The keys of the values in a sequence of messages, in order. -/
def sentKeys (log : List (Message E K R)) : List K := (log.flatMap Message.values).map fun v => key v.1

end Loop

/-! ## What an insertion does to a side -/

section Side

variable {S E K V R : Type} [LinearOrder K] [RangeKey K] [LinearOrder V] [RangeEntry E K V R]
  [Store S E K V] [Blake3] [Inhabited K]

/-- The entry is held, or one that supersedes it. -/
def Has (live : List E) (e : E) : Prop := stamp e ∈ lowerClosure (stamps live)

/-- One side of an exchange. `fresh` says whether an entry taken in can come to be served. -/
structure Peer (S : Type) [Store S E K V] (dom : Set K) (view live : S → List E) (fresh : Prop) : Prop where
  reads : LawfulReads S dom view
  writes : LawfulWrites S dom live
  view_put : ∀ s e, key e ∈ dom → ∀ e' ∈ view (put s e).2, e' ∈ view s ∨ (fresh ∧ e' = e)
  view_grow : ∀ s e, key e ∈ dom →
    lowerClosure (stamps (view s)) ≤ lowerClosure (stamps (view (put s e).2))

/-- A store whose reads are live serves what it holds. -/
theorem Peer.ofLive {dom : Set K} {live : S → List E} (hr : LawfulReads S dom live)
    (hw : LawfulWrites S dom live) : Peer S dom live live True where
  reads := hr
  writes := hw
  view_put s e he e' he' := (mem_of_mem_live_put hw he he').symm.imp_right fun h => ⟨trivial, h⟩
  view_grow s e he := by
    rw [stamps_put hw he]
    exact lowerClosure_le_insertMax

/-- What does not change about a side: the stamps it held and served when the exchange began, and
all entries it can come to serve. -/
structure Origin (E K V : Type) where
  base : Set (Stamp K V)
  start : Set (Stamp K V)
  serves : Set E

/-- What the origins of the two sides must have to do with each other. -/
structure Origin.Meets (dom : Set K) (fresh : Prop) (o o' : Origin E K V) : Prop where
  mem_dom : ∀ e ∈ o'.serves, key e ∈ dom
  stamp_mem : ∀ e ∈ o'.serves, stamp e ∈ o.base ∪ o'.start
  fresh : fresh → o'.serves ⊆ o.serves

/-- A side with origin `o`, whose peer has origin `o'`. -/
structure Holding (o o' : Origin E K V) (view live : List E) : Prop where
  sorted : SortedBy key view
  view_serves : ∀ e ∈ view, e ∈ o.serves
  view_has : ∀ e ∈ view, Has live e
  antichain : IsAntichain (· ≤ ·) (stamps live)
  live_sub : stamps live ⊆ o.base ∪ o'.start
  base_has : ∀ x ∈ o.base, x ∈ lowerClosure (stamps live)
  start_has : ∀ x ∈ o.start, x ∈ lowerClosure (stamps view)

omit [Blake3] [Inhabited K] in
/-- A side has every entry that it serves a copy of. -/
theorem Holding.has_of_stamp {o o' : Origin E K V} {view live : List E} (h : Holding o o' view live)
    {r : Range K} {e : E} (he : stamp e ∈ stamps (inRange r view)) : Has live e := by
  obtain ⟨e', he', heq⟩ := he
  have hhas := h.view_has e' (mem_inRange.1 he').1
  unfold Has at hhas ⊢
  rwa [← heq]

variable {dom : Set K} {view live : S → List E} {fresh : Prop} (hp : Peer S dom view live fresh)
  {o o' : Origin E K V}
include hp

theorem has_put {s : S} {e e' : E} (he : key e ∈ dom) (h : Has (live s) e') :
    Has (live (put s e).2) e' := by
  unfold Has
  rw [stamps_put hp.writes he]
  exact lowerClosure_le_insertMax h

theorem has_put_self {s : S} {e : E} (he : key e ∈ dom) : Has (live (put s e).2) e := by
  unfold Has
  rw [stamps_put hp.writes he]
  exact self_mem_lowerClosure_insertMax

/-- Step: taking in an entry the peer serves. -/
theorem holding_put (hm : o.Meets dom fresh o') {s : S} {e : E} (he : e ∈ o'.serves)
    (h : Holding o o' (view s) (live s)) : Holding o o' (view (put s e).2) (live (put s e).2) := by
  have hdom := hm.mem_dom e he
  have hst := stamps_put hp.writes (s := s) hdom
  refine ⟨hp.reads.sorted _, fun e' h' => ?_, fun e' h' => ?_, ?_, ?_, fun x hx => ?_, fun x hx => ?_⟩
  · rcases hp.view_put s e hdom e' h' with h' | ⟨hf, rfl⟩
    · exact h.view_serves e' h'
    · exact hm.fresh hf he
  · rcases hp.view_put s e hdom e' h' with h' | ⟨-, rfl⟩
    · exact has_put hp hdom (h.view_has e' h')
    · exact has_put_self hp hdom
  · rw [hst]; exact isAntichain_insertMax h.antichain
  · rw [hst]
    intro x hx
    rcases insertMax_subset hx with rfl | hx
    · exact hm.stamp_mem e he
    · exact h.live_sub hx
  · rw [hst]; exact lowerClosure_le_insertMax (h.base_has x hx)
  · exact hp.view_grow s e hdom (h.start_has x hx)

/-- Run: taking in a sequence of them. -/
theorem holding_puts (hm : o.Meets dom fresh o') {s : S} (h : Holding o o' (view s) (live s)) (l : List E)
    (hl : ∀ e ∈ l, e ∈ o'.serves) : Holding o o' (view (puts s l)) (live (puts s l)) := by
  induction l generalizing s with
  | nil => exact h
  | cons e l ih =>
    exact ih (holding_put hp hm (hl e List.mem_cons_self) h) fun e' h' => hl e' (List.mem_cons_of_mem e h')

theorem has_puts {s : S} {e : E} (h : Has (live s) e) (l : List E) (hl : ∀ e ∈ l, key e ∈ dom) :
    Has (live (puts s l)) e := by
  induction l generalizing s with
  | nil => exact h
  | cons a l ih =>
    exact ih (has_put hp (hl a List.mem_cons_self) h) fun e' h' => hl e' (List.mem_cons_of_mem a h')

theorem has_puts_mem {s : S} {e : E} (l : List E) (hl : ∀ e ∈ l, key e ∈ dom) (he : e ∈ l) :
    Has (live (puts s l)) e := by
  induction l generalizing s with
  | nil => cases he
  | cons a l ih =>
    have htl : ∀ e ∈ l, key e ∈ dom := fun e' h' => hl e' (List.mem_cons_of_mem a h')
    rcases List.mem_cons.1 he with rfl | he
    · exact has_puts hp (has_put_self hp (hl e List.mem_cons_self)) l htl
    · exact ih htl he

theorem mem_view_puts {s : S} {e : E} (l : List E) (hl : ∀ e ∈ l, key e ∈ dom) (he : e ∈ view (puts s l)) :
    e ∈ view s ∨ e ∈ l := by
  induction l generalizing s with
  | nil => exact .inl he
  | cons a l ih =>
    rcases ih (fun e' h' => hl e' (List.mem_cons_of_mem a h')) he with h | h
    · rcases hp.view_put s a (hl a List.mem_cons_self) e h with h | ⟨-, rfl⟩
      · exact .inl h
      · exact .inr List.mem_cons_self
    · exact .inr (List.mem_cons_of_mem a h)

end Side

end PdnStore.Ranger

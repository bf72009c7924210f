import PdnStore.Session.Network
import PdnStore.Store.Ordinary

/-!
# A network of replicas on the persistent store (codec.rs:101-387, fs.rs:813-1051)

What is known of a network whose stores meet the contract (`Session.Network`) holds of one whose replicas are
persistent, as long as everything brought into it is ordinary (`Ordinary`): event by event, it is the network
of the reference stores over the same tables (`step_asReference`).
-/

namespace PdnStore.Session

open Ranger Ranger.Store

/-! ## Networks over other stores -/

section Map

variable {ι S S' E K R : Type} [DecidableEq ι]

/-- The session with other stores for its snapshots. -/
def Running.map (f : S → S') (x : Running ι S E K R) : Running ι S' E K R where
  alice := x.alice
  bob := x.bob
  snapshotA := f x.snapshotA
  filterA := x.filterA
  accepted := x.accepted.map fun j => (f j.1, j.2)
  turn := x.turn
  inFlight := x.inFlight

/-- The network with other stores for its replicas. -/
def Network.map (f : S → S') (n : Network ι S E K R) : Network ι S' E K R where
  replica i := f (n.replica i)
  sessions := n.sessions.map (Running.map f)

omit [DecidableEq ι] in
theorem reader_map (f : S → S') (x : Running ι S E K R) :
    (x.map f).reader = x.reader.map fun r => (r.1, f r.2.1, r.2.2) := by
  unfold Running.reader Running.map
  cases x.turn <;> cases x.accepted <;> rfl

/-- Who knows what does not depend on the stores. -/
theorem spread_step_map (f : S → S') (n n' : Network ι S E K R) (g : Spread ι E) (ev : NetEvent ι E) :
    Spread.step (n.map f) (n'.map f) g ev = Spread.step n n' g ev := by
  cases ev with
  | write node e => rfl
  | dial alice bob filter => rfl
  | accept k filter =>
    unfold Spread.step Network.map
    dsimp only
    rw [List.getElem?_map]
    cases n.sessions[k]? with
    | none => rfl
    | some x =>
      cases g.shares[k]? with
      | none => rfl
      | some share => cases hx : x.accepted <;> simp [Running.map, hx]
  | deliver k status =>
    unfold Spread.step Network.map
    dsimp only
    rw [List.getElem?_map]
    cases n'.sessions[k]? with
    | none => rfl
    | some x => cases g.shares[k]? <;> rfl

end Map

end PdnStore.Session

namespace PdnStore.Fs

open Ranger Session

section Plain

variable {ι : Type} [DecidableEq ι] {ns : NamespaceId} [Blake3] {W : Set SignedEntry}

/-- The reference store over the same tables. -/
def asReference (s : StoreInstance ns) : ReferenceTables ns := ⟨s.tables⟩

/-- The entries of the namespace. -/
def StoreInstance.entries (s : StoreInstance ns) : List SignedEntry :=
  s.tables.entries.filter fun e => e.id.namespace = ns

/-- A replica's store outside of a session, with nothing in it that is not in `W`. -/
structure Plain (W : Set SignedEntry) (s : StoreInstance ns) : Prop where
  live : s.sessionSnapshot = none
  held : s.tables.HoldsOnly ns W

theorem plain_put {s : StoreInstance ns} (h : Plain W s) {e : SignedEntry} (he : e ∈ W) : Plain W (put s e).2 :=
  ⟨(sessionSnapshot_put s e).trans h.live, holdsOnly_put h.held he⟩

theorem asReference_put (hW : Ordinary ns W) {s : StoreInstance ns} (h : Plain W s) {e : SignedEntry} (he : e ∈ W) :
    asReference (put s e).2 = (put (asReference s) e).2 :=
  congrArg ReferenceTables.mk (put_reference hW h.held he)

/-- A session of a network, and the one over the references. -/
structure SameTables (W : Set SignedEntry) (s : SessionStore (Snapshotted (StoreInstance ns)) SignedEntry)
    (s' : SessionStore (Snapshotted (ReferenceTables ns)) SignedEntry) : Prop where
  eq : s' = ⟨⟨asReference s.inner.live, asReference s.inner.snapshot⟩, s.filter⟩
  live : Plain W s.inner.live
  snapshot : Plain W s.inner.snapshot

theorem simulates_sameTables (hW : Ordinary ns W) :
    Simulates W (fun s : SessionStore (Snapshotted (StoreInstance ns)) SignedEntry => SameTables W s) where
  reads s s' h := by
    obtain ⟨⟨live, ⟨tables, sessionSnapshot⟩⟩, filter⟩ := s
    obtain rfl : sessionSnapshot = none := h.snapshot.live
    rw [h.eq]
    exact ⟨rfl, fun _ => rfl, fun _ => rfl⟩
  wouldInsert s s' e h he := by
    rw [h.eq]
    exact wouldInsert_reference hW h.live.held he
  put s s' e h he := by
    rw [h.eq, put_session, put_session]
    exact ⟨by rw [asReference_put hW h.live he], plain_put h.live he, h.snapshot⟩

/-- A network in which everything is ordinary. -/
structure PlainNetwork (W : Set SignedEntry)
    (n : Network ι (StoreInstance ns) SignedEntry RecordIdentifier RejectId) : Prop where
  replica : ∀ i, Plain W (n.replica i)
  snapshots : ∀ x ∈ n.sessions, Plain W x.snapshotA ∧ ∀ j, x.accepted = some j → Plain W j.1
  values : ∀ x ∈ n.sessions, ∀ m, x.inFlight = some m → ∀ v ∈ m.values, v.1 ∈ W

theorem refuses_snapshotted :
    Refuses (SessionStore (Snapshotted (StoreInstance ns)) SignedEntry) (StoreInstance.dom ns) where
  range s r hr := by
    refine ⟨"sync range boundary names another namespace", ?_⟩
    show (do let l ← s.inner.snapshot.getRange r; .ok (l.filter _)) = _
    rw [s.inner.snapshot.getRange_foreign hr]
    rfl
  fingerprint s r hr := by
    obtain ⟨⟨live, snapshot⟩, filter⟩ := s
    refine ⟨"sync range boundary names another namespace", ?_⟩
    cases filter with
    | none =>
      show (do let l ← snapshot.getRange r; .ok (fingerprint l)) = _
      rw [snapshot.getRange_foreign hr]
      rfl
    | some f =>
      show (do let l ← (do let l ← snapshot.getRange r; .ok (l.filter _)); .ok (fingerprint l)) = _
      rw [snapshot.getRange_foreign hr]
      rfl

/-- What a session of a plain network answers is ordinary. -/
theorem values_plain {s : SessionStore (Snapshotted (StoreInstance ns)) SignedEntry} (h : Plain W s.inner.snapshot)
    (status : SignedEntry → ContentStatus) {m reply : Message SignedEntry RecordIdentifier RejectId}
    (hreply : (processMessage default acceptAll status s m).reply = .ok (some reply)) :
    ∀ v ∈ reply.values, v.1 ∈ W := by
  have hput : ∀ (s : SessionStore (Snapshotted (StoreInstance ns)) SignedEntry) (e : SignedEntry)
      (status : ContentStatus), acceptAll s e status = .accept → Plain W s.inner.snapshot →
      Plain W (put s e).2.inner.snapshot := by
    intro s e _ _ hs
    rw [put_session]
    exact hs
  have hserve : ∀ s : SessionStore (Snapshotted (StoreInstance ns)) SignedEntry, Plain W s.inner.snapshot →
      ∀ e ∈ s.inner.snapshot.view.filter (admitted s.filter), e ∈ W := by
    intro s hs e he
    obtain ⟨hview, -⟩ := List.mem_filter.1 he
    obtain ⟨hsource, hns⟩ := List.mem_filter.1 hview
    rw [StoreInstance.source, hs.live] at hsource
    exact hs.held e hsource (of_decide_eq_true hns)
  exact values_confined ((processMessage_confined
    (SessionStore.lawfulReads (Snapshotted.lawfulReads StoreInstance.lawfulReads)) refuses_snapshotted status
    acceptAll hput hserve h m).served reply hreply)

/-! ## One event -/

section Step

variable (hW : Ordinary ns W) {n : Network ι (StoreInstance ns) SignedEntry RecordIdentifier RejectId}
  {n'' : Network ι (ReferenceTables ns) SignedEntry RecordIdentifier RejectId} (h : PlainNetwork W n)

omit [Blake3] in
theorem update_asReference {replica : ι → StoreInstance ns} {node : ι} {s : StoreInstance ns}
    {s' : ReferenceTables ns} (hs : s' = asReference s) :
    (fun i => asReference (Function.update replica node s i)) =
      Function.update (fun i => asReference (replica i)) node s' := by
  subst hs
  funext i
  by_cases hi : i = node
  · subst hi
    simp only [Function.update_self]
  · simp only [Function.update_of_ne hi]

omit [DecidableEq ι] [Blake3] in
theorem sessions_asReference (n : Network ι (StoreInstance ns) SignedEntry RecordIdentifier RejectId) (k : Nat) :
    (n.map asReference).sessions[k]? = n.sessions[k]?.map (Running.map asReference) :=
  List.getElem?_map ..

include h in
omit [DecidableEq ι] [Blake3] in
/-- A session that reads plain stores takes another's place. -/
theorem PlainNetwork.set {x : Running ι (StoreInstance ns) SignedEntry RecordIdentifier RejectId} {k : Nat}
    {replica : ι → StoreInstance ns} (hreplica : ∀ i, Plain W (replica i))
    (hx : Plain W x.snapshotA ∧ ∀ j, x.accepted = some j → Plain W j.1)
    (hvalues : ∀ m, x.inFlight = some m → ∀ v ∈ m.values, v.1 ∈ W) :
    PlainNetwork W ⟨replica, n.sessions.set k x⟩ where
  replica := hreplica
  snapshots y hy := by
    rcases List.mem_or_eq_of_mem_set hy with hy | rfl
    · exact h.snapshots y hy
    · exact hx
  values y hy := by
    rcases List.mem_or_eq_of_mem_set hy with hy | rfl
    · exact h.values y hy
    · exact hvalues

include hW h

theorem write_asReference (node : ι) {e : SignedEntry} (he : e ∈ W)
    (hstep : (n.map asReference).step (.write node e) = .ok n'') :
    ∃ n', n.step (.write node e) = .ok n' ∧ n'.map asReference = n'' ∧ PlainNetwork W n' := by
  cases hstep
  refine ⟨_, rfl, ?_, fun i => ?_, h.snapshots, h.values⟩
  · unfold Network.map
    dsimp only
    rw [update_asReference (asReference_put hW (h.replica node) he).symm]
  · dsimp only
    by_cases hi : i = node
    · subst hi
      rw [Function.update_self]
      exact plain_put (h.replica i) he
    · rw [Function.update_of_ne hi]
      exact h.replica i

theorem dial_asReference (alice bob : ι) (filter : Option (SignedEntry → Bool))
    (hstep : (n.map asReference).step (.dial alice bob filter) = .ok n'') :
    ∃ n', n.step (.dial alice bob filter) = .ok n' ∧ n'.map asReference = n'' ∧ PlainNetwork W n' := by
  obtain ⟨m, hm, hn''⟩ := bind_eq_ok.1 hstep
  cases hn''
  have hsame : initialMessage (R := RejectId) (session (n.replica alice) filter) =
      initialMessage (session (asReference (n.replica alice)) filter) :=
    initialMessage_eq ((simulates_sameTables hW).reads _ _ ⟨rfl, h.replica alice, h.replica alice⟩)
  have hvalues : m.values = [] := by
    obtain ⟨x, -, hm⟩ := bind_eq_ok.1 hm
    obtain ⟨fp, -, hm⟩ := bind_eq_ok.1 hm
    cases hm
    rfl
  refine ⟨_, bind_eq_ok.2 ⟨m, hsame.trans hm, rfl⟩, ?_, h.replica, ?_, ?_⟩
  · unfold Network.map
    dsimp only
    rw [List.map_append]
    rfl
  · rintro x hx
    rcases List.mem_append.1 hx with hx | hx
    · exact h.snapshots x hx
    · obtain rfl := List.mem_singleton.1 hx
      exact ⟨h.replica alice, fun j hj => by cases hj⟩
  · rintro x hx m' hm' v hv
    rcases List.mem_append.1 hx with hx | hx
    · exact h.values x hx m' hm' v hv
    · obtain rfl := List.mem_singleton.1 hx
      obtain rfl : m = m' := Option.some.inj hm'
      rw [hvalues] at hv
      cases hv

omit hW in
theorem accept_asReference (k : Nat) (filter : Option (SignedEntry → Bool))
    (hstep : (n.map asReference).step (.accept k filter) = .ok n'') :
    ∃ n', n.step (.accept k filter) = .ok n' ∧ n'.map asReference = n'' ∧ PlainNetwork W n' := by
  unfold Network.step at hstep ⊢
  dsimp only at hstep ⊢
  rw [sessions_asReference] at hstep
  cases hx : n.sessions[k]? with
  | none =>
    rw [hx] at hstep
    cases hstep
    exact ⟨n, rfl, rfl, h⟩
  | some x =>
    rw [hx] at hstep
    have hmem : x ∈ n.sessions := List.mem_of_getElem? hx
    obtain ⟨hsnapshot, -⟩ := h.snapshots x hmem
    have hflight := h.values x hmem
    obtain ⟨alice, bob, snapshotA, filterA, accepted, turn, inFlight⟩ := x
    cases accepted with
    | some j =>
      cases hstep
      exact ⟨n, rfl, rfl, h⟩
    | none =>
      cases hstep
      refine ⟨_, rfl, ?_, h.set h.replica ⟨hsnapshot, fun j hj => ?_⟩ hflight⟩
      · unfold Network.map
        dsimp only
        rw [List.map_set]
        rfl
      · obtain rfl := Option.some.inj hj
        exact h.replica bob

theorem deliver_asReference (k : Nat) (status : SignedEntry → ContentStatus)
    (hstep : (n.map asReference).step (.deliver k status) = .ok n'') :
    ∃ n', n.step (.deliver k status) = .ok n' ∧ n'.map asReference = n'' ∧ PlainNetwork W n' := by
  unfold Network.step at hstep ⊢
  dsimp only at hstep ⊢
  rw [sessions_asReference] at hstep
  cases hx : n.sessions[k]? with
  | none =>
    rw [hx] at hstep
    cases hstep
    exact ⟨n, rfl, rfl, h⟩
  | some x =>
    rw [hx] at hstep
    have hmem : x ∈ n.sessions := List.mem_of_getElem? hx
    have hflight : (x.map asReference).inFlight = x.inFlight := rfl
    dsimp only [Option.map_some] at hstep ⊢
    rw [hflight, reader_map] at hstep
    cases hm : x.inFlight with
    | none =>
      rw [hm] at hstep
      cases hstep
      exact ⟨n, rfl, rfl, h⟩
    | some m =>
      rw [hm] at hstep
      cases hreader : x.reader with
      | none =>
        rw [hreader] at hstep
        cases hstep
        exact ⟨n, rfl, rfl, h⟩
      | some r =>
        obtain ⟨node, snapshot, filter⟩ := r
        rw [hreader] at hstep
        obtain ⟨reply, hreply, hn''⟩ := bind_eq_ok.1 hstep
        cases hn''
        have hsnapshot : Plain W snapshot := by
          unfold Running.reader at hreader
          cases hturn : x.turn with
          | alice =>
            rw [hturn] at hreader
            cases hreader
            exact (h.snapshots x hmem).1
          | bob =>
            rw [hturn] at hreader
            obtain ⟨j, hj, heq⟩ := Option.map_eq_some_iff.1 hreader
            cases heq
            exact (h.snapshots x hmem).2 j hj
        have haccept : ∀ (s : SessionStore (Snapshotted (StoreInstance ns)) SignedEntry)
            (s' : SessionStore (Snapshotted (ReferenceTables ns)) SignedEntry) (e : SignedEntry)
            (status : ContentStatus), e ∈ W → acceptAll s e status = acceptAll s' e status := fun _ _ _ _ _ => rfl
        obtain ⟨hstore, -, hsame⟩ := processMessage_simulates (simulates_sameTables hW) haccept default status
          (⟨rfl, h.replica node, hsnapshot⟩ : SameTables W ⟨⟨n.replica node, snapshot⟩, filter⟩ _)
          (h.values x hmem m hm)
        refine ⟨_, bind_eq_ok.2 ⟨reply, hsame.trans hreply, rfl⟩, ?_,
          h.set (fun i => ?_) (h.snapshots x hmem) ?_⟩
        · unfold Network.map
          dsimp only
          rw [List.map_set, update_asReference (congrArg (fun s => s.inner.live) hstore.eq)]
          rfl
        · by_cases hi : i = node
          · subst hi
            rw [Function.update_self]
            exact hstore.live
          · rw [Function.update_of_ne hi]
            exact h.replica i
        · intro m' hm'
          have hm' : reply = some m' := hm'
          subst hm'
          exact values_plain hsnapshot status (hsame.trans hreply)

/-- Step: a plain network does what the reference does, and stays plain. -/
theorem step_asReference (ev : NetEvent ι SignedEntry) (hev : ∀ node e, ev = .write node e → e ∈ W)
    (hstep : (n.map asReference).step ev = .ok n'') :
    ∃ n', n.step ev = .ok n' ∧ n'.map asReference = n'' ∧ PlainNetwork W n' := by
  cases ev with
  | write node e => exact write_asReference hW h node (hev node e rfl) hstep
  | dial alice bob filter => exact dial_asReference hW h alice bob filter hstep
  | accept k filter => exact accept_asReference h k filter hstep
  | deliver k status => exact deliver_asReference hW h k status hstep

/-- Run. -/
theorem course_asReference (evs : List (NetEvent ι SignedEntry))
    (hevs : ∀ node e, .write node e ∈ evs → e ∈ W) {g g' : Spread ι SignedEntry}
    (hrun : (n.map asReference).course g evs = .ok (n'', g')) :
    ∃ n', n.course g evs = .ok (n', g') ∧ n'.map asReference = n'' := by
  induction evs generalizing n g with
  | nil =>
    cases hrun
    exact ⟨n, rfl, rfl⟩
  | cons ev evs ih =>
    obtain ⟨_, hstep, hrun⟩ := bind_eq_ok.1 hrun
    obtain ⟨n₁, hstep₁, rfl, h₁⟩ := step_asReference hW h ev
      (fun node e heq => hevs node e (heq ▸ List.mem_cons_self)) hstep
    rw [spread_step_map] at hrun
    obtain ⟨n', hrun', hn'⟩ := ih h₁ (fun node e he => hevs node e (List.mem_cons_of_mem ev he)) hrun
    exact ⟨n', bind_eq_ok.2 ⟨n₁, hstep₁, hrun'⟩, hn'⟩

/-! ## Convergence -/

end Step

end Plain

/-! ## An instance -/

section

local instance persistentDigests : Blake3 := ordinaryDigests

/-- A replica without entries. -/
def emptyInstance : StoreInstance zeros32 := ⟨default, none⟩

/-- One of two nodes writes at `[1]`, the other one below it and at `[7]`; the first one dials. -/
def sampleCourse : List (NetEvent (Fin 2) SignedEntry) :=
  [.write 1 (sampleEntry [1, 2] ⟨7, zeros32, 3⟩), .write 0 (sampleEntry [1] ⟨7, zeros32, 4⟩),
    .write 1 (sampleEntry [7] ⟨7, zeros32, 1⟩), .dial 0 1 none, .accept 0 none, .deliver 0 fun _ => .complete,
    .deliver 0 fun _ => .complete, .deliver 0 fun _ => .complete, .deliver 0 fun _ => .complete]

/-- What is written. -/
theorem brought_sampleCourse :
    brought StoreInstance.entries (fun _ : Fin 2 => emptyInstance) sampleCourse = {e | e ∈ sampleThree} := by
  have hempty : emptyInstance.entries = [] := by decide
  ext e
  simp [brought, hempty, sampleCourse, sampleThree]

/-- On the way the two serve some of `sampleThree`. -/
theorem sampleCourse_tells (evs : List (NetEvent (Fin 2) SignedEntry))
    (n : Network (Fin 2) (StoreInstance zeros32) SignedEntry RecordIdentifier RejectId)
    (g : Spread (Fin 2) SignedEntry) (hpre : evs <+: sampleCourse)
    (hrun : Network.course ⟨fun _ => emptyInstance, []⟩ ⟨fun _ => emptyInstance.entries, []⟩ evs = .ok (n, g)) :
    n.Tells StoreInstance.entries := by
  have hall : ∀ k ≤ sampleCourse.length, (Network.course (R := RejectId) ⟨fun _ => emptyInstance, []⟩
      ⟨fun _ => emptyInstance.entries, []⟩ (sampleCourse.take k)).toOption.all fun p => p.1.sessions.all fun x =>
        x.snapshotA.entries ∈ sampleThree.sublists && x.accepted.all fun j => j.1.entries ∈ sampleThree.sublists := by
    decide +kernel
  have h := hall evs.length hpre.length_le
  rw [← List.prefix_iff_eq_take.1 hpre, hrun] at h
  intro x hx b fB hacc
  obtain ⟨hA, hB⟩ := Bool.and_eq_true_iff.1 (List.all_eq_true.1 h x hx)
  rw [hacc] at hB
  exact ordinaryDigests_tell (List.filter_sublist.trans (List.mem_sublists.1 (of_decide_eq_true hA)))
    (List.filter_sublist.trans (List.mem_sublists.1 (of_decide_eq_true hB)))

/-- Of the three entries two are left, at either node. -/
example : ((Network.course (R := RejectId) ⟨fun _ => emptyInstance, []⟩ ⟨fun _ => emptyInstance.entries, []⟩
    sampleCourse).toOption.map fun p => ((p.1.replica 0).entries, (p.1.replica 1).entries)) =
      some ([sampleEntry [1] ⟨7, zeros32, 4⟩, sampleEntry [7] ⟨7, zeros32, 1⟩],
        [sampleEntry [1] ⟨7, zeros32, 4⟩, sampleEntry [7] ⟨7, zeros32, 1⟩]) := by
  decide +kernel

end

end PdnStore.Fs

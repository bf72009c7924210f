import PdnStore.Lib.Lru
import PdnStore.Store.FsStore

/-!
# The peers of a namespace as a cache (store/fs.rs:568-668, store.rs:17)

The rows of a namespace are kept in the order of their clock readings. A call takes out a row of the same
peer, puts in the new one, and where the peer is new and the cache over-full takes out the first row. What
bounds the rows, and keeps a peer from having two, does not depend on the clock; that the last rows are
the most recent calls does.

| here | there |
| --- | --- |
| `PeerCall`, `registered` | calls of `register_useful_peer`, each with its clock reading |
| `syncPeers`              | what `get_sync_peers` collects (`fs.rs:656-668`) |
-/

namespace PdnStore.Fs

open Sync

namespace FsStore

variable {s : FsStore} {ns ns' : NamespaceId} {row row' : U64 × PeerIdBytes} {nanos : U64} {peer : PeerIdBytes}

/-! ## The rows -/

theorem mem_peerRows : row ∈ s.peerRows ns ↔ (toLex (ns, toLex row), ()) ∈ s.namespacePeers.toList := by
  simp only [peerRows, List.mem_map, List.mem_filter, decide_eq_true_eq]
  constructor
  · rintro ⟨⟨k, ⟨⟩⟩, ⟨hmem, rfl⟩, rfl⟩
    exact hmem
  · intro hmem
    exact ⟨_, ⟨hmem, rfl⟩, rfl⟩

theorem sorted_peerRows (s : FsStore) (ns : NamespaceId) : SortedBy toLex (s.peerRows ns) := by
  have hrows : SortedBy Prod.fst (s.namespacePeers.toList.filter fun r => (ofLex r.1).1 = ns) :=
    s.namespacePeers.sorted.filter _
  refine List.pairwise_map.2 (hrows.imp_of_mem ?_)
  intro a b ha hb hlt
  have hns : (ofLex a.1).1 = (ofLex b.1).1 := by
    have ha' : (ofLex a.1).1 = ns := by simpa using (List.mem_filter.1 ha).2
    have hb' : (ofLex b.1).1 = ns := by simpa using (List.mem_filter.1 hb).2
    rw [ha', hb']
  rcases Prod.Lex.lt_iff.1 hlt with h | ⟨-, h⟩
  · exact absurd hns h.ne
  · exact h

theorem mem_peerRows_insertPeer :
    row' ∈ (s.insertPeer ns row).peerRows ns' ↔ (ns' = ns ∧ row' = row) ∨ row' ∈ s.peerRows ns' := by
  rw [mem_peerRows, mem_peerRows, insertPeer, SortedMap.mem_insert_unit]
  simp

theorem mem_peerRows_removePeer :
    row' ∈ (s.removePeer ns row).peerRows ns' ↔ row' ∈ s.peerRows ns' ∧ ¬ (ns' = ns ∧ row' = row) := by
  rw [mem_peerRows, mem_peerRows, removePeer, SortedMap.mem_filter]
  simp [imp_iff_not_or]

theorem peerRows_removePeer : (s.removePeer ns row).peerRows ns = (s.peerRows ns).filter (· ≠ row) := by
  refine (sorted_peerRows _ _).ext ((sorted_peerRows _ _).filter _) fun r => ?_
  simp [mem_peerRows_removePeer]

/-- A row later than all others comes last. -/
theorem peerRows_insertPeer (h : ∀ r ∈ s.peerRows ns, toLex r < toLex row) :
    (s.insertPeer ns row).peerRows ns = s.peerRows ns ++ [row] := by
  have hsorted : SortedBy toLex (s.peerRows ns ++ [row]) := by
    refine List.pairwise_append.2 ⟨sorted_peerRows s ns, List.pairwise_singleton _ _, fun a ha b hb => ?_⟩
    rw [List.mem_singleton.1 hb]
    exact h a ha
  refine (sorted_peerRows _ _).ext hsorted fun r => ?_
  simp only [mem_peerRows_insertPeer, List.mem_append, List.mem_singleton, true_and]
  exact or_comm

theorem peerRows_insertPeer_of_ne (h : ns' ≠ ns) : (s.insertPeer ns row).peerRows ns' = s.peerRows ns' := by
  refine (sorted_peerRows _ _).ext (sorted_peerRows _ _) fun r => ?_
  simp [mem_peerRows_insertPeer, h]

theorem peerRows_removePeer_of_ne (h : ns' ≠ ns) : (s.removePeer ns row).peerRows ns' = s.peerRows ns' := by
  refine (sorted_peerRows _ _).ext (sorted_peerRows _ _) fun r => ?_
  simp [mem_peerRows_removePeer, h]

@[simp] theorem namespaces_insertPeer : (s.insertPeer ns row).namespaces = s.namespaces := rfl

@[simp] theorem namespaces_removePeer : (s.removePeer ns row).namespaces = s.namespaces := rfl

/-! ## What a call does -/

/-- A call for a namespace that exists succeeds, and either replaces a row of the peer, or adds one where
there was none: in an empty place, or in that of the oldest. -/
theorem registerUsefulPeer_cases (nanos : U64) (peer : PeerIdBytes) (h : s.namespaces.get? ns ≠ none) :
    (∃ old ∈ s.peerRows ns, old.2 = peer ∧ s.registerUsefulPeer ns nanos peer =
      ((s.removePeer ns old).insertPeer ns (nanos, peer), .ok ())) ∨
    ((∀ r ∈ s.peerRows ns, r.2 ≠ peer) ∧
      (((s.peerRows ns).length < PEERS_PER_DOC_CACHE_SIZE ∧
        s.registerUsefulPeer ns nanos peer = (s.insertPeer ns (nanos, peer), .ok ())) ∨
      ∃ oldest rest, s.peerRows ns = oldest :: rest ∧ PEERS_PER_DOC_CACHE_SIZE ≤ (s.peerRows ns).length ∧
        s.registerUsefulPeer ns nanos peer =
          ((s.insertPeer ns (nanos, peer)).removePeer ns oldest, .ok ()))) := by
  obtain ⟨capability, hget⟩ := Option.ne_none_iff_exists'.1 h
  unfold registerUsefulPeer
  simp only [hget]
  cases hrows : s.peerRows ns with
  | nil => simp [PEERS_PER_DOC_CACHE_SIZE]
  | cons oldest rest =>
    by_cases hpeer : oldest.2 = peer
    · exact .inl ⟨oldest, .head _, hpeer, by simp [hpeer]⟩
    · cases hfind : rest.find? fun r => r.2 = peer with
      | some prev =>
        have hprev : prev.2 = peer := by simpa using List.find?_some hfind
        exact .inl ⟨prev, .tail _ (List.mem_of_find?_eq_some hfind), hprev, by simp [hpeer, hfind]⟩
      | none =>
        have hnew : ∀ r ∈ oldest :: rest, r.2 ≠ peer := by
          intro r hr
          rcases List.mem_cons.1 hr with rfl | hr
          · exact hpeer
          · simpa using List.find?_eq_none.1 hfind r hr
        refine .inr ⟨hnew, ?_⟩
        by_cases hfull : 1 + rest.length + 1 > PEERS_PER_DOC_CACHE_SIZE
        · refine .inr ⟨oldest, rest, rfl, ?_, by simp [hpeer, hfind, hfull]⟩
          simp only [List.length_cons]
          omega
        · refine .inl ⟨?_, by simp [hpeer, hfind, hfull]⟩
          simp only [List.length_cons]
          omega

theorem registerUsefulPeer_missing (h : s.namespaces.get? ns = none) :
    s.registerUsefulPeer ns nanos peer = (s, .error "document not created") := by
  unfold registerUsefulPeer
  rw [h]

/-- A call only inserts its own row and removes rows of its namespace. -/
theorem registerUsefulPeer_keeps {P : FsStore → Prop} (hs : P s)
    (hinsert : ∀ s, P s → P (s.insertPeer ns (nanos, peer))) (hremove : ∀ s row, P s → P (s.removePeer ns row)) :
    P (s.registerUsefulPeer ns nanos peer).1 := by
  by_cases h : s.namespaces.get? ns = none
  · rw [registerUsefulPeer_missing h]
    exact hs
  · rcases registerUsefulPeer_cases nanos peer h with
      ⟨old, -, -, hres⟩ | ⟨-, ⟨-, hres⟩ | ⟨oldest, rest, -, -, hres⟩⟩
    · rw [hres]
      exact hinsert _ (hremove _ _ hs)
    · rw [hres]
      exact hinsert _ hs
    · rw [hres]
      exact hremove _ _ (hinsert _ hs)

theorem registerUsefulPeer_namespaces :
    (s.registerUsefulPeer ns nanos peer).1.namespaces = s.namespaces :=
  registerUsefulPeer_keeps (P := fun t => t.namespaces = s.namespaces) rfl (fun _ h => h) fun _ _ h => h

/-- The rows of other namespaces stay. -/
theorem peerRows_registerUsefulPeer_of_ne (hne : ns' ≠ ns) :
    (s.registerUsefulPeer ns nanos peer).1.peerRows ns' = s.peerRows ns' := by
  refine registerUsefulPeer_keeps (P := fun t => t.peerRows ns' = s.peerRows ns') rfl ?_ ?_
  · intro t h
    rw [peerRows_insertPeer_of_ne hne, h]
  · intro t row h
    rw [peerRows_removePeer_of_ne hne, h]

/-- A row that was not there is the call's. -/
theorem mem_peerRows_registerUsefulPeer (hr : row ∈ (s.registerUsefulPeer ns nanos peer).1.peerRows ns') :
    row = (nanos, peer) ∨ row ∈ s.peerRows ns' := by
  refine registerUsefulPeer_keeps (P := fun t => row ∈ t.peerRows ns' → row = (nanos, peer) ∨ row ∈ s.peerRows ns')
    .inr ?_ ?_ hr
  · intro t h hr
    rcases mem_peerRows_insertPeer.1 hr with ⟨-, heq⟩ | hr
    · exact .inl heq
    · exact h hr
  · intro t row' h hr
    exact h (mem_peerRows_removePeer.1 hr).1

/-! ## Bounded, and no peer twice -/

/-- The rows of every namespace fit the cache, and no peer has two. -/
structure PeersBounded (s : FsStore) : Prop where
  length : ∀ ns, (s.peerRows ns).length ≤ PEERS_PER_DOC_CACHE_SIZE
  nodup : ∀ ns, ((s.peerRows ns).map Prod.snd).Nodup

theorem nodup_peers_iff : ((s.peerRows ns).map Prod.snd).Nodup ↔
    ∀ r ∈ s.peerRows ns, ∀ r' ∈ s.peerRows ns, r.2 = r'.2 → r = r' := by
  constructor
  · exact fun h r hr r' hr' heq => List.inj_on_of_nodup_map h hr hr' heq
  · exact fun h => (sorted_peerRows s ns).nodup.map_on h

/-- A row of the peer, and rows of other peers only. -/
theorem nodup_peers_of_subset (row : U64 × PeerIdBytes) {s' : FsStore}
    (hsub : ∀ r ∈ s'.peerRows ns, r = row ∨ (r ∈ s.peerRows ns ∧ r.2 ≠ row.2))
    (h : ((s.peerRows ns).map Prod.snd).Nodup) : ((s'.peerRows ns).map Prod.snd).Nodup := by
  rw [nodup_peers_iff] at h ⊢
  intro r hr r' hr' heq
  rcases hsub r hr with rfl | ⟨hold, hne⟩
  · rcases hsub r' hr' with rfl | ⟨hold', hne'⟩
    · rfl
    · exact absurd heq.symm hne'
  · rcases hsub r' hr' with rfl | ⟨hold', hne'⟩
    · exact absurd heq hne
    · exact h r hold r' hold' heq

theorem peersBounded_registerUsefulPeer (h : s.PeersBounded) :
    (s.registerUsefulPeer ns nanos peer).1.PeersBounded := by
  by_cases hns : s.namespaces.get? ns = none
  · rw [registerUsefulPeer_missing hns]
    exact h
  have hlen := h.length ns
  have hunique := nodup_peers_iff.1 (h.nodup ns)
  have hself : ((s.registerUsefulPeer ns nanos peer).1.peerRows ns).length ≤ PEERS_PER_DOC_CACHE_SIZE ∧
      (((s.registerUsefulPeer ns nanos peer).1.peerRows ns).map Prod.snd).Nodup := by
    rcases registerUsefulPeer_cases nanos peer hns with
      ⟨old, hold, hpeer, hres⟩ | ⟨hnew, ⟨hroom, hres⟩ | ⟨oldest, rest, hrows, -, hres⟩⟩
    · -- a row of the peer is replaced
      rw [hres]
      dsimp only
      have hsub : ∀ r ∈ ((s.removePeer ns old).insertPeer ns (nanos, peer)).peerRows ns,
          r ∈ (nanos, peer) :: (s.peerRows ns).filter (· ≠ old) := by
        intro r hr
        simpa [mem_peerRows_insertPeer, mem_peerRows_removePeer] using hr
      constructor
      · have hshort : ((s.peerRows ns).filter (· ≠ old)).length < (s.peerRows ns).length :=
          List.length_filter_lt_length_iff_exists.2 ⟨old, hold, by simp⟩
        have hle := (sorted_peerRows _ _).nodup.length_le_of_subset hsub
        rw [List.length_cons] at hle
        omega
      · refine nodup_peers_of_subset (nanos, peer) (fun r hr => ?_) (h.nodup ns)
        rcases List.mem_cons.1 (hsub r hr) with rfl | hr
        · exact .inl rfl
        · obtain ⟨hr, hne⟩ := List.mem_filter.1 hr
          refine .inr ⟨hr, fun heq => ?_⟩
          simp [hunique r hr old hold (heq.trans hpeer.symm)] at hne
    · -- there is room for one more
      rw [hres]
      dsimp only
      have hsub : ∀ r ∈ (s.insertPeer ns (nanos, peer)).peerRows ns, r ∈ (nanos, peer) :: s.peerRows ns := by
        intro r hr
        simpa [mem_peerRows_insertPeer] using hr
      constructor
      · have hle := (sorted_peerRows _ _).nodup.length_le_of_subset hsub
        rw [List.length_cons] at hle
        omega
      · refine nodup_peers_of_subset (nanos, peer) (fun r hr => ?_) (h.nodup ns)
        exact (List.mem_cons.1 (hsub r hr)).imp_right fun hr => ⟨hr, hnew r hr⟩
    · -- the oldest row makes room
      rw [hres]
      dsimp only
      have hsub : ∀ r ∈ ((s.insertPeer ns (nanos, peer)).removePeer ns oldest).peerRows ns,
          r ∈ (nanos, peer) :: rest := by
        intro r hr
        simp only [mem_peerRows_removePeer, mem_peerRows_insertPeer, hrows, true_and, List.mem_cons] at hr ⊢
        tauto
      constructor
      · have hle := (sorted_peerRows _ _).nodup.length_le_of_subset hsub
        rw [hrows] at hlen
        exact hle.trans hlen
      · refine nodup_peers_of_subset (nanos, peer) (fun r hr => ?_) (h.nodup ns)
        have hin : r ∈ rest → r ∈ s.peerRows ns := fun hr => by rw [hrows]; exact .tail _ hr
        exact (List.mem_cons.1 (hsub r hr)).imp_right fun hr => ⟨hin hr, hnew r (hin hr)⟩
  constructor
  · intro ns'
    by_cases hne : ns' = ns
    · rw [hne]
      exact hself.1
    · rw [peerRows_registerUsefulPeer_of_ne hne]
      exact h.length ns'
  · intro ns'
    by_cases hne : ns' = ns
    · rw [hne]
      exact hself.2
    · rw [peerRows_registerUsefulPeer_of_ne hne]
      exact h.nodup ns'

/-! ## The most recent calls -/

/-- The peers of a namespace, latest first. -/
def syncPeers (s : FsStore) (ns : NamespaceId) : List PeerIdBytes := (s.peerRows ns).reverse.map (·.2)

/-- With a clock reading later than all before, a call is one use of the cache. -/
theorem syncPeers_registerUsefulPeer (h : s.PeersBounded) (hns : s.namespaces.get? ns ≠ none)
    (hlater : ∀ r ∈ s.peerRows ns, r.1 < nanos) : (s.registerUsefulPeer ns nanos peer).1.syncPeers ns =
      lruTouch PEERS_PER_DOC_CACHE_SIZE (s.syncPeers ns) peer := by
  have hunique := nodup_peers_iff.1 (h.nodup ns)
  have hlast : ∀ r ∈ s.peerRows ns, toLex r < toLex (nanos, peer) := fun r hr =>
    Prod.Lex.lt_iff.2 (.inl (hlater r hr))
  have hmem : peer ∈ s.syncPeers ns ↔ ∃ r ∈ s.peerRows ns, r.2 = peer := by
    simp [syncPeers]
  have hnot : (∀ r ∈ s.peerRows ns, r.2 ≠ peer) → peer ∉ s.syncPeers ns := by
    intro hnew
    rw [hmem]
    rintro ⟨r, hr, heq⟩
    exact hnew r hr heq
  have hlen : (s.syncPeers ns).length = (s.peerRows ns).length := by simp [syncPeers]
  unfold lruTouch
  rcases registerUsefulPeer_cases nanos peer hns with
    ⟨old, hold, hpeer, hres⟩ | ⟨hnew, ⟨hroom, hres⟩ | ⟨oldest, rest, hrows, hfull, hres⟩⟩
  · rw [if_pos (hmem.2 ⟨old, hold, hpeer⟩), hres]
    have hothers : (s.peerRows ns).filter (fun r => decide (r ≠ old)) =
        (s.peerRows ns).filter (fun r => decide (r.2 ≠ peer)) := by
      refine List.filter_congr fun r hr => ?_
      by_cases heq : r = old
      · simp [heq, hpeer]
      · have hne : r.2 ≠ peer := fun hr' => heq (hunique r hr old hold (hr'.trans hpeer.symm))
        simp [heq, hne]
    rw [syncPeers, peerRows_insertPeer, peerRows_removePeer, hothers]
    · simp [syncPeers, List.filter_map, List.filter_reverse, Function.comp_def]
    · intro r hr
      rw [peerRows_removePeer] at hr
      exact hlast r (List.mem_filter.1 hr).1
  · rw [if_neg (hnot hnew), if_pos (by omega), hres, syncPeers, peerRows_insertPeer hlast]
    simp [syncPeers]
  · have hrest : oldest ∉ rest := by
      have hnodup := (sorted_peerRows s ns).nodup
      rw [hrows] at hnodup
      exact (List.nodup_cons.1 hnodup).1
    have hne : (nanos, peer) ≠ oldest := by
      rintro rfl
      exact hnew (nanos, peer) (by rw [hrows]; exact .head _) rfl
    have hkept : rest.filter (fun r => decide (r ≠ oldest)) = rest :=
      List.filter_eq_self.2 fun r hr => by simpa using fun heq : r = oldest => hrest (heq ▸ hr)
    rw [if_neg (hnot hnew), if_neg (by omega), hres, syncPeers, peerRows_removePeer, peerRows_insertPeer hlast,
      syncPeers, hrows, List.cons_append, List.filter_cons_of_neg (by simp), List.filter_append, hkept]
    simp [hne]

/-! ## Sequences of calls -/

/-- A call of `register_useful_peer` and the clock at that time. -/
structure PeerCall where
  ns : NamespaceId
  nanos : U64
  peer : PeerIdBytes

/-- The store after the calls. -/
def registered (s : FsStore) (calls : List PeerCall) : FsStore :=
  calls.foldl (fun s call => (s.registerUsefulPeer call.ns call.nanos call.peer).1) s

/-- The peers registered for a namespace, oldest call first. -/
def peersOf (ns : NamespaceId) (calls : List PeerCall) : List PeerIdBytes :=
  (calls.filter (·.ns = ns)).map (·.peer)

theorem registered_concat (s : FsStore) (calls : List PeerCall) (call : PeerCall) :
    s.registered (calls ++ [call]) =
      ((s.registered calls).registerUsefulPeer call.ns call.nanos call.peer).1 := by
  simp [registered]

theorem peersBounded_registered (h : s.PeersBounded) (calls : List PeerCall) : (s.registered calls).PeersBounded :=
  List.foldlRecOn calls _ h fun _ h _ _ => peersBounded_registerUsefulPeer h

theorem namespaces_registered (s : FsStore) (calls : List PeerCall) :
    (s.registered calls).namespaces = s.namespaces := by
  induction calls using List.reverseRecOn with
  | nil => rfl
  | append_singleton calls call ih => rw [registered_concat, registerUsefulPeer_namespaces, ih]

theorem peerRows_of_empty (h : s.namespacePeers = ∅) (ns : NamespaceId) : s.peerRows ns = [] := by
  rw [peerRows, h]
  rfl

theorem peersBounded_of_empty (h : s.namespacePeers = ∅) : s.PeersBounded := by
  constructor <;> intro ns <;> simp [peerRows_of_empty h]

/-- A row carries the reading of some call. -/
theorem exists_call_of_mem_peerRows (h : s.namespacePeers = ∅) (calls : List PeerCall)
    (hr : row ∈ (s.registered calls).peerRows ns) : ∃ call ∈ calls, call.nanos = row.1 := by
  induction calls using List.reverseRecOn with
  | nil =>
    rw [registered, List.foldl_nil, peerRows_of_empty h] at hr
    cases hr
  | append_singleton calls call ih =>
    rw [registered_concat] at hr
    rcases mem_peerRows_registerUsefulPeer hr with rfl | hold
    · exact ⟨call, by simp, rfl⟩
    · obtain ⟨call', hmem, heq⟩ := ih hold
      exact ⟨call', List.mem_append_left _ hmem, heq⟩

/-- With a clock that only advances, the peers are the most recently registered. -/
theorem syncPeers_registered (h : s.namespacePeers = ∅) (hns : s.namespaces.get? ns ≠ none)
    (calls : List PeerCall) (hclock : calls.Pairwise fun c c' => c.nanos < c'.nanos) :
    (s.registered calls).syncPeers ns = (distinct (peersOf ns calls)).take PEERS_PER_DOC_CACHE_SIZE := by
  induction calls using List.reverseRecOn with
  | nil =>
    rw [registered, List.foldl_nil, syncPeers, peerRows_of_empty h]
    rfl
  | append_singleton calls call ih =>
    obtain ⟨hclock, -, hlast⟩ := List.pairwise_append.1 hclock
    rw [registered_concat]
    by_cases hcall : call.ns = ns
    · subst hcall
      have hlater : ∀ r ∈ (s.registered calls).peerRows call.ns, r.1 < call.nanos := by
        intro r hr
        obtain ⟨call', hmem, heq⟩ := exists_call_of_mem_peerRows h calls hr
        exact heq ▸ hlast call' hmem call (.head _)
      have hns' : (s.registered calls).namespaces.get? call.ns ≠ none := by rwa [namespaces_registered]
      have hpeers : peersOf call.ns (calls ++ [call]) = peersOf call.ns calls ++ [call.peer] := by
        simp [peersOf]
      rw [syncPeers_registerUsefulPeer (peersBounded_registered (peersBounded_of_empty h) calls) hns' hlater,
        ih hclock, hpeers]
      exact (take_distinct_concat 4 (peersOf call.ns calls) call.peer).symm
    · have hpeers : peersOf ns (calls ++ [call]) = peersOf ns calls := by
        simp [peersOf, hcall]
      rw [syncPeers, peerRows_registerUsefulPeer_of_ne (Ne.symm hcall), hpeers, ← ih hclock]
      rfl

/-- **The useful peers of a namespace form an LRU cache.** -/
theorem useful_peers_lru (s : FsStore) (hnone : s.namespacePeers = ∅) (calls : List PeerCall) :
    (∀ ns, ((s.registered calls).peerRows ns).length ≤ PEERS_PER_DOC_CACHE_SIZE ∧
      (((s.registered calls).peerRows ns).map Prod.snd).Nodup) ∧
    (∀ ns nanos peer ns', ns' ≠ ns →
      ((s.registered calls).registerUsefulPeer ns nanos peer).1.peerRows ns' = (s.registered calls).peerRows ns') ∧
    (∀ ns nanos peer, s.namespaces.get? ns = none →
      (s.registered calls).registerUsefulPeer ns nanos peer = (s.registered calls, .error "document not created")) ∧
    (calls.Pairwise (fun c c' => c.nanos < c'.nanos) → ∀ ns, s.namespaces.get? ns ≠ none →
      (s.registered calls).getSyncPeers ns =
        if (distinct (peersOf ns calls)).take PEERS_PER_DOC_CACHE_SIZE = [] then none
        else some ((distinct (peersOf ns calls)).take PEERS_PER_DOC_CACHE_SIZE)) := by
  have hbounded := peersBounded_registered (peersBounded_of_empty hnone) calls
  refine ⟨fun ns => ⟨hbounded.length ns, hbounded.nodup ns⟩, fun ns nanos peer ns' hne => ?_,
    fun ns nanos peer hmissing => ?_, fun hclock ns hns => ?_⟩
  · exact peerRows_registerUsefulPeer_of_ne hne
  · apply registerUsefulPeer_missing
    rwa [namespaces_registered]
  · rw [← syncPeers_registered hnone hns calls hclock]
    simp [getSyncPeers, syncPeers]

/-- A store with one document. -/
def withDocument : FsStore :=
  { (default : FsStore) with namespaces := (∅ : SortedMap _ _).insert zeros32 (Capability.read zeros32).raw }

/-- One peer, another, and the first again. -/
def threeCalls : List PeerCall := [⟨zeros32, 1, zeros32⟩, ⟨zeros32, 2, ones32⟩, ⟨zeros32, 3, zeros32⟩]

theorem useful_peers_lru_threeCalls :
    (withDocument.registered threeCalls).getSyncPeers zeros32 = some [zeros32, ones32] ∧
    ((withDocument.registered threeCalls).registerUsefulPeer ones32 4 zeros32).1 =
      withDocument.registered threeCalls := by
  have hlru := useful_peers_lru withDocument rfl threeCalls
  constructor
  · rw [hlru.2.2.2 (by decide) zeros32 (by decide)]
    decide
  · rw [hlru.2.2.1 ones32 4 zeros32 (by decide)]

end FsStore

end PdnStore.Fs

import Mathlib.Order.WithBot
import Mathlib.Data.Set.Card
import PdnStore.Sync.HeadsCodec

/-!
# Comparing and merging author heads (heads.rs:17-66)

Seen as a map from authors to timestamps, with `⊥` where there is no head, heads form a join semilattice:
`merge` is its join and `has_news_for` counts the authors at which the one is not below the other.

| here | there |
| --- | --- |
| `head`       | `get`, with an order in which a missing head is below every timestamp |
| `merge`      | `merge` (`heads.rs:61-65`) |
| `HeadsRound` | one call of `sync_process_message` in a session (`sync.rs:612-717`) |
-/

namespace PdnStore.Sync

namespace AuthorHeads

/-- `AuthorHeads::merge` (heads.rs:57). -/
def merge (h other : AuthorHeads) : AuthorHeads := other.heads.toList.foldl (fun h p => h.insert p.1 p.2) h

/-- The head of an author, below every timestamp where there is none. -/
def head (h : AuthorHeads) (author : AuthorId) : WithBot U64 := h.get author

section

variable {h h' a b c : AuthorHeads} {author x : AuthorId} {timestamp t : U64}

theorem head_eq_coe : h.head x = (t : WithBot U64) ↔ h.get x = some t := Iff.rfl

theorem ext_head (heq : h.head = h'.head) : h = h' := ext_get fun x => congrFun heq x

/-! ## Merging is the join -/

theorem head_insert_self : (h.insert author timestamp).head author = h.head author ⊔ (timestamp : WithBot U64) := by
  unfold head
  rw [get_insert_self]
  cases h.get author with
  | none => exact (bot_sup_eq (timestamp : WithBot U64)).symm
  | some old => rfl

theorem head_insert_of_ne (hne : x ≠ author) : (h.insert author timestamp).head x = h.head x :=
  SortedMap.get?_insert_of_ne hne

theorem head_insert_le {bound : WithBot U64} : (h.insert author timestamp).head x ≤ bound ↔
    h.head x ≤ bound ∧ (author = x → (timestamp : WithBot U64) ≤ bound) := by
  by_cases heq : x = author
  · subst heq
    simp [head_insert_self]
  · rw [head_insert_of_ne heq]
    simp [Ne.symm heq]

/-- The heads after a list of insertions: the least above what was there and all that came. -/
theorem head_foldl_le {l : List (AuthorId × U64)} {bound : WithBot U64} :
    (l.foldl (fun h p => h.insert p.1 p.2) h).head x ≤ bound ↔
      h.head x ≤ bound ∧ ∀ p ∈ l, p.1 = x → (p.2 : WithBot U64) ≤ bound := by
  induction l generalizing h with
  | nil => simp
  | cons p l ih =>
    rw [List.foldl_cons, ih, head_insert_le, List.forall_mem_cons, and_assoc]

theorem head_le_iff {bound : WithBot U64} :
    h.head x ≤ bound ↔ ∀ p ∈ h.heads.toList, p.1 = x → (p.2 : WithBot U64) ≤ bound := by
  constructor
  · rintro hle ⟨author, timestamp⟩ hp rfl
    have hget : h.get author = some timestamp := SortedMap.get?_eq_some.2 hp
    rwa [head_eq_coe.2 hget] at hle
  · intro hall
    cases hget : h.get x with
    | none => rw [head, hget]; exact bot_le
    | some t =>
      rw [head_eq_coe.2 hget]
      exact hall (x, t) (SortedMap.get?_eq_some.1 hget) rfl

theorem head_merge : (a.merge b).head = a.head ⊔ b.head := by
  funext x
  refine eq_of_forall_ge_iff fun bound => ?_
  rw [merge, head_foldl_le, ← head_le_iff, Pi.sup_apply, sup_le_iff]

/-- Merging `a` into `b` changes nothing exactly when every head of `a` is below that of `b`. -/
theorem merge_eq_left_iff : b.merge a = b ↔ a.head ≤ b.head := by
  rw [← sup_eq_left, ← head_merge]
  constructor
  · intro heq
    rw [heq]
  · exact ext_head

/-! ## News -/

theorem isNewTo_iff (hget : a.get x = some t) : isNewTo b (x, t) = true ↔ b.head x < a.head x := by
  rw [head_eq_coe.2 hget, ← not_iff_not, Bool.not_eq_true, isNewTo_eq_false, not_lt]
  cases htheirs : b.get x with
  | none =>
    have hbot : b.head x = ⊥ := htheirs
    simp [hbot]
  | some theirs =>
    rw [head_eq_coe.2 htheirs, WithBot.coe_le_coe]
    simp

/-- The heads counted by `has_news_for`, as the authors they are of. -/
theorem news_authors : {x | b.head x < a.head x} =
    ((a.heads.toList.filter (isNewTo b)).map Prod.fst).toFinset := by
  ext x
  simp only [Set.mem_ofPred_eq, List.coe_toFinset, List.mem_map, List.mem_filter]
  constructor
  · intro hlt
    cases hget : a.get x with
    | none =>
      have hbot : a.head x = ⊥ := hget
      exact absurd (hbot ▸ hlt) not_lt_bot
    | some t => exact ⟨(x, t), ⟨SortedMap.get?_eq_some.1 hget, (isNewTo_iff hget).2 hlt⟩, rfl⟩
  · rintro ⟨⟨author, t⟩, ⟨hmem, hnew⟩, rfl⟩
    exact (isNewTo_iff (SortedMap.get?_eq_some.2 hmem)).1 hnew

theorem hasNewsFor_eq : a.hasNewsFor b =
    if {x | b.head x < a.head x}.ncard = 0 then none else some {x | b.head x < a.head x}.ncard := by
  have hnodup : ((a.heads.toList.filter (isNewTo b)).map Prod.fst).Nodup :=
    (a.heads.sorted.filter (isNewTo b)).nodup_map
  rw [news_authors, Set.ncard_coe_finset, List.toFinset_card_of_nodup hnodup, List.length_map]
  rfl

theorem hasNewsFor_eq_none_iff : a.hasNewsFor b = none ↔ b.merge a = b := by
  rw [merge_eq_left_iff, hasNewsFor_eq_none]
  constructor
  · intro hall x
    by_contra hlt
    have hmem : x ∈ {x | b.head x < a.head x} := not_le.1 hlt
    rw [news_authors, List.coe_toFinset] at hmem
    obtain ⟨p, hp, -⟩ := List.mem_map.1 hmem
    obtain ⟨hp, hnew⟩ := List.mem_filter.1 hp
    rw [hall p hp] at hnew
    cases hnew
  · rintro hle ⟨author, t⟩ hp
    rw [← Bool.not_eq_true, isNewTo_iff (SortedMap.get?_eq_some.2 hp)]
    exact (hle author).not_gt

end

end AuthorHeads

/-! ## The heads a session received -/

section Session

variable {ns : NamespaceId} [Blake3]

/-- A message of a session and the replica it arrives at: other writers may have changed it since the last. -/
structure HeadsRound (ns : NamespaceId) where
  now : U64
  replica : Replica ns
  message : SyncMessage
  fromPeer : PeerIdBytes
  filter : Option (SignedEntry → Bool)

/-- The session's totals after its messages. -/
def sessionOutcome (verify : SignedEntry → Bool) (rounds : List (HeadsRound ns)) : SyncOutcome :=
  rounds.foldl (fun state round =>
    (syncProcessMessage verify round.now round.replica round.message round.fromPeer state round.filter).state)
    ⟨⟨∅⟩, 0, 0⟩

/-- The entries received: a closed replica takes no message. -/
def receivedEntries (rounds : List (HeadsRound ns)) : List SignedEntry :=
  rounds.flatMap fun round => if round.replica.info.closed then [] else round.message.values.map (·.1)

theorem headsReceived_syncProcessMessage (verify : SignedEntry → Bool) (round : HeadsRound ns)
    (state : SyncOutcome) :
    (syncProcessMessage verify round.now round.replica round.message round.fromPeer state
      round.filter).state.headsReceived =
      (receivedEntries [round]).foldl (fun h e => h.insert e.id.author e.record.timestamp) state.headsReceived := by
  cases hclosed : round.replica.info.closed with
  | true => simp [syncProcessMessage_closed verify hclosed, receivedEntries, hclosed]
  | false =>
    unfold syncProcessMessage
    rw [if_neg (by simp [hclosed])]
    simp only [receivedEntries, List.flatMap_cons, List.flatMap_nil, hclosed, Bool.false_eq_true, if_false,
      List.append_nil, List.foldl_map]
    split <;> rfl

theorem headsReceived_sessionOutcome (verify : SignedEntry → Bool) (rounds : List (HeadsRound ns)) :
    (sessionOutcome verify rounds).headsReceived = AuthorHeads.ofList
      ((receivedEntries rounds).map fun e => (e.id.author, e.record.timestamp)) := by
  unfold sessionOutcome AuthorHeads.ofList
  rw [List.foldl_map]
  show _ = (receivedEntries rounds).foldl _ (⟨⟨∅⟩, 0, 0⟩ : SyncOutcome).headsReceived
  generalize (⟨⟨∅⟩, 0, 0⟩ : SyncOutcome) = state
  induction rounds generalizing state with
  | nil => rfl
  | cons round rounds ih =>
    have hsplit : receivedEntries (round :: rounds) = receivedEntries [round] ++ receivedEntries rounds := by
      simp [receivedEntries]
    rw [List.foldl_cons, ih, hsplit, List.foldl_append, headsReceived_syncProcessMessage]

/-- Each author of a received entry is mapped to the greatest timestamp received from it. -/
theorem get_sessionOutcome (verify : SignedEntry → Bool) (rounds : List (HeadsRound ns)) (author : AuthorId)
    (t : U64) : (sessionOutcome verify rounds).headsReceived.get author = some t ↔
      IsGreatest {t | ∃ e ∈ receivedEntries rounds, e.id.author = author ∧ e.record.timestamp = t} t := by
  have hmem : ∀ t, (author, t) ∈ (receivedEntries rounds).map (fun e => (e.id.author, e.record.timestamp)) ↔
      ∃ e ∈ receivedEntries rounds, e.id.author = author ∧ e.record.timestamp = t := by
    intro t
    simp [List.mem_map]
  rw [headsReceived_sessionOutcome]
  constructor
  · intro hget
    refine ⟨(hmem t).1 (AuthorHeads.mem_of_get_ofList hget), fun t' ht' => ?_⟩
    obtain ⟨t₁, hget₁, hle⟩ := AuthorHeads.le_get_ofList ((hmem t').2 ht')
    rw [hget] at hget₁
    cases hget₁
    exact hle
  · rintro ⟨hreceived, hgreatest⟩
    obtain ⟨t₁, hget₁, hle⟩ := AuthorHeads.le_get_ofList ((hmem t).2 hreceived)
    have hle₁ : t₁ ≤ t := hgreatest ((hmem t₁).1 (AuthorHeads.mem_of_get_ofList hget₁))
    rw [hget₁, le_antisymm hle₁ hle]

/-- **Comparing heads agrees with merging them**, and a session's heads are the greatest it received. -/
theorem head_comparison_agrees_with_merging :
    (∀ a b : AuthorHeads, a.merge b = b.merge a) ∧
    (∀ a b c : AuthorHeads, (a.merge b).merge c = a.merge (b.merge c)) ∧
    (∀ a : AuthorHeads, a.merge a = a) ∧
    (∀ a b : AuthorHeads, a.hasNewsFor b = none ↔ b.merge a = b) ∧
    (∀ a b : AuthorHeads, a.hasNewsFor b = none ∨
      a.hasNewsFor b = some {x | b.head x < (b.merge a).head x}.ncard) ∧
    ∀ (ns : NamespaceId) (verify : SignedEntry → Bool) (rounds : List (HeadsRound ns)) (author : AuthorId)
      (t : U64), (sessionOutcome verify rounds).headsReceived.get author = some t ↔
        IsGreatest {t | ∃ e ∈ receivedEntries rounds, e.id.author = author ∧ e.record.timestamp = t} t := by
  refine ⟨fun a b => ?_, fun a b c => ?_, fun a => ?_, fun a b => AuthorHeads.hasNewsFor_eq_none_iff,
    fun a b => ?_, fun ns => get_sessionOutcome⟩
  · apply AuthorHeads.ext_head
    rw [AuthorHeads.head_merge, AuthorHeads.head_merge, sup_comm]
  · apply AuthorHeads.ext_head
    simp only [AuthorHeads.head_merge, sup_assoc]
  · exact AuthorHeads.merge_eq_left_iff.2 le_rfl
  · have hraised : {x | b.head x < (b.merge a).head x} = {x | b.head x < a.head x} := by
      simp [AuthorHeads.head_merge]
    rw [AuthorHeads.hasNewsFor_eq, hraised]
    split
    · exact .inl rfl
    · exact .inr rfl

end Session

end PdnStore.Sync

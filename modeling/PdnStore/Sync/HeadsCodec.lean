import PdnStore.Lib.Varint
import PdnStore.Sync.Heads

/-!
# Author heads on the wire (heads.rs:68-100)

Heads are announced newest first, as many as fit into a message. `encode` re-keys them by timestamp in a
`BTreeMap` to bring them into that order, which keeps one author of each timestamp. Where no two authors
share one, the encoding is a newest part of the heads, as large as the limit allows; where two do, one of
them is lost, limit or not (`heads_survive_encoding_iff`).

| here | there |
| --- | --- |
| `byTimestamp` | the map filled at `heads.rs:74-77` |
| `takeItems`   | the loop of `heads.rs:79-87`: push, and pop again where the limit is exceeded |
| `Postcard`    | `postcard` on `Vec<(Timestamp, AuthorId)>` |
-/

namespace PdnStore.Sync

namespace AuthorHeads

/-- The heads by timestamp: a later author of a timestamp overwrites an earlier one (heads.rs:74). -/
def byTimestamp (h : AuthorHeads) : SortedMap U64 AuthorId :=
  (∅ : SortedMap U64 AuthorId).insertAll (h.heads.toList.map Prod.swap)

section

variable [Postcard (List (U64 × AuthorId))]

/-- Push items while they fit (heads.rs:79). -/
def takeItems (sizeLimit : Option Nat) (items : List (U64 × AuthorId)) :
    List (U64 × AuthorId) → List (U64 × AuthorId)
  | [] => items
  | item :: rest =>
    match sizeLimit with
    | none => takeItems sizeLimit (items ++ [item]) rest
    | some limit =>
      if Postcard.serializedSize (items ++ [item]) > limit then items
      else takeItems sizeLimit (items ++ [item]) rest

/-- `AuthorHeads::encode` (heads.rs:72). -/
def encode (h : AuthorHeads) (sizeLimit : Option Nat) : Bytes :=
  Postcard.toBytes (takeItems sizeLimit [] h.byTimestamp.toList.reverse)

/-- `AuthorHeads::decode` (heads.rs:93). -/
def decode (bytes : Bytes) : Except String AuthorHeads := do
  let items : List (U64 × AuthorId) ← Postcard.fromBytes bytes
  .ok (items.foldl (fun heads item => heads.insert item.2 item.1) ⟨∅⟩)

/-! ## The property -/

/-- The decoded heads are a newest part of `h`: nothing else, nothing older than what is missing; and the
newest that is missing would not have fitted. -/
structure NewestPart (h : AuthorHeads) (limit : Nat) (h' : AuthorHeads) : Prop where
  subset : ∀ a t, h'.get a = some t → h.get a = some t
  newest : ∀ a t a' t', h'.get a = some t → h.get a' = some t' → t < t' → h'.get a' = some t'
  full : ∀ a t, h.get a = some t → h'.get a = none →
    (∀ a' t', h.get a' = some t' → h'.get a' = none → t' ≤ t) → limit < ((h'.insert a t).encode none).length

/-- Heads survive encoding. -/
structure SurvivesEncoding (h : AuthorHeads) : Prop where
  whole : decode (h.encode none) = .ok h
  bounded : ∀ limit ≥ 1, (h.encode (some limit)).length ≤ limit
  part : ∀ limit ≥ 1, ∃ h', decode (h.encode (some limit)) = .ok h' ∧ NewestPart h limit h'

end

/-- No two authors share a timestamp. -/
def DistinctTimestamps (h : AuthorHeads) : Prop :=
  ∀ a a' t, h.get a = some t → h.get a' = some t → a = a'

section Survival

/-! ## Reading heads back -/

variable {h h' : AuthorHeads} {a : AuthorId} {t : U64} {l items : List (U64 × AuthorId)}

theorem ext_get (hget : ∀ a, h.get a = h'.get a) : h = h' := by
  cases h
  cases h'
  exact congrArg AuthorHeads.mk (SortedMap.ext_get? hget)

/-- An insertion brings in what is inserted, or leaves what was there. -/
theorem get_insert_cases {author : AuthorId} {timestamp : U64} (hget : (h.insert author timestamp).get a = some t) :
    (a = author ∧ t = timestamp) ∨ h.get a = some t := by
  by_cases heq : a = author
  · subst heq
    rw [get_insert_self] at hget
    cases hold : h.get a with
    | none =>
      rw [hold] at hget
      exact .inl ⟨rfl, (Option.some.inj hget).symm⟩
    | some old =>
      rw [hold] at hget
      obtain rfl : max old timestamp = t := Option.some.inj hget
      rcases max_choice old timestamp with hmax | hmax
      · exact .inr (by rw [hmax])
      · exact .inl ⟨rfl, hmax⟩
  · have hne : (h.insert author timestamp).get a = h.get a := SortedMap.get?_insert_of_ne heq
    exact .inr (by rw [← hne, hget])

theorem mem_of_get_ofList {l : List (AuthorId × U64)} (hget : (ofList l).get a = some t) : (a, t) ∈ l := by
  have hfold : ∀ (l : List (AuthorId × U64)) (h : AuthorHeads),
      (l.foldl (fun h p => h.insert p.1 p.2) h).get a = some t → (a, t) ∈ l ∨ h.get a = some t := by
    intro l
    induction l with
    | nil => exact fun h hget => .inr hget
    | cons p l ih =>
      intro h hget
      rcases ih _ hget with hmem | hget
      · exact .inl (.tail _ hmem)
      · rcases get_insert_cases hget with ⟨rfl, rfl⟩ | hget
        · exact .inl (.head _)
        · exact .inr hget
  refine (hfold l ⟨∅⟩ hget).resolve_right ?_
  intro hnone
  cases hnone

/-- The heads decoded from items. -/
def fromItems (items : List (U64 × AuthorId)) : AuthorHeads := ofList (items.map Prod.swap)

theorem decode_toBytes [Postcard (List (U64 × AuthorId))]
    (hpost : Postcard.fromBytes (Postcard.toBytes items) = .ok items) :
    decode (Postcard.toBytes items) = .ok (fromItems items) := by
  rw [decode, hpost, fromItems, ofList, List.foldl_map]
  rfl

/-- Items of some heads: each author has its one timestamp. -/
theorem get_fromItems (hitems : ∀ t a, (t, a) ∈ items → h.get a = some t) :
    (fromItems items).get a = some t ↔ (t, a) ∈ items := by
  constructor
  · intro hget
    obtain ⟨item, hmem, heq⟩ := List.mem_map.1 (mem_of_get_ofList hget)
    obtain rfl : item = (t, a) := by rw [← Prod.swap_swap item, heq]; rfl
    exact hmem
  · intro hmem
    have hswap : (a, t) ∈ items.map Prod.swap := List.mem_map.2 ⟨(t, a), hmem, rfl⟩
    obtain ⟨t', hget, -⟩ := le_get_ofList hswap
    obtain ⟨item, hmem', heq⟩ := List.mem_map.1 (mem_of_get_ofList hget)
    obtain rfl : item = (t', a) := by rw [← Prod.swap_swap item, heq]; rfl
    have hsame : t' = t := Option.some.inj ((hitems _ _ hmem').symm.trans (hitems _ _ hmem))
    exact hsame ▸ hget

/-- The heads of the first items, as read. -/
theorem get_fromItems_take (hitems : ∀ t a, (t, a) ∈ items ↔ h.get a = some t) (k : Nat) (a : AuthorId) (t : U64) :
    (fromItems (items.take k)).get a = some t ↔ (t, a) ∈ items.take k :=
  get_fromItems fun t a hmem => (hitems t a).1 (List.mem_of_mem_take hmem)

/-! ## The items by timestamp -/

theorem mem_heads_of_byTimestamp (hmem : (t, a) ∈ h.byTimestamp.toList) : h.get a = some t := by
  rcases SortedMap.mem_of_mem_insertAll hmem with hmem | hmem
  · obtain ⟨row, hrow, heq⟩ := List.mem_map.1 hmem
    obtain rfl : row = (a, t) := by rw [← Prod.swap_swap row, heq]; rfl
    exact SortedMap.get?_eq_some.2 hrow
  · cases hmem

/-- Every timestamp is there, with one of its authors. -/
theorem mem_byTimestamp (hdistinct : DistinctTimestamps h) : (t, a) ∈ h.byTimestamp.toList ↔ h.get a = some t := by
  refine ⟨mem_heads_of_byTimestamp, fun hget => ?_⟩
  have hrow : (t, a) ∈ h.heads.toList.map Prod.swap := List.mem_map.2 ⟨(a, t), SortedMap.get?_eq_some.1 hget, rfl⟩
  obtain ⟨a', ha'⟩ := SortedMap.exists_mem_insertAll (m := (∅ : SortedMap U64 AuthorId)) (.inl hrow)
  rw [hdistinct a a' t hget (mem_heads_of_byTimestamp ha')]
  exact ha'

/-- Newest first. -/
theorem pairwise_byTimestamp (h : AuthorHeads) : h.byTimestamp.toList.reverse.Pairwise fun x y => y.1 < x.1 :=
  List.pairwise_reverse.2 h.byTimestamp.sorted

/-- Heads with distinct timestamps have one list of items, newest first. -/
theorem byTimestamp_eq (hdistinct : DistinctTimestamps h) (hsorted : items.Pairwise fun x y => y.1 < x.1)
    (hitems : ∀ t a, (t, a) ∈ items ↔ h.get a = some t) : h.byTimestamp.toList.reverse = items := by
  have hrev : h.byTimestamp.toList = items.reverse := by
    refine h.byTimestamp.sorted.ext (List.pairwise_reverse.2 hsorted) fun ⟨t, a⟩ => ?_
    rw [mem_byTimestamp hdistinct, List.mem_reverse, hitems]
  rw [hrev, List.reverse_reverse]

theorem DistinctTimestamps.mono (hdistinct : DistinctTimestamps h)
    (hsub : ∀ a t, h'.get a = some t → h.get a = some t) : DistinctTimestamps h' :=
  fun a a' t ha ha' => hdistinct a a' t (hsub a t ha) (hsub a' t ha')

theorem get_insert_of_new {author : AuthorId} (hnew : h.get author = none) :
    (h.insert author t).get a = if a = author then some t else h.get a := by
  by_cases heq : a = author
  · subst heq
    rw [get_insert_self, hnew, if_pos rfl]
  · rw [if_neg heq]
    exact SortedMap.get?_insert_of_ne heq

/-- The newest of the items from `k` on is the next one. -/
theorem getElem_of_newest {k : Nat} (hk : k < items.length) (hsorted : items.Pairwise fun x y => y.1 < x.1)
    {item : U64 × AuthorId} (hitem : item ∈ items.drop k) (hle : items[k].1 ≤ item.1) : items[k] = item := by
  have hrest := hsorted.drop (i := k)
  rw [List.drop_eq_getElem_cons hk] at hitem hrest
  rcases List.mem_cons.1 hitem with rfl | hmem
  · rfl
  · exact absurd (List.rel_of_pairwise_cons hrest hmem) (not_lt.2 hle)

/-! ## Taking what fits -/

section

variable [Postcard (List (U64 × AuthorId))]

theorem takeItems_none (items rest : List (U64 × AuthorId)) : takeItems none items rest = items ++ rest := by
  induction rest generalizing items with
  | nil => rw [takeItems, List.append_nil]
  | cons item rest ih => rw [takeItems, ih, List.append_assoc, List.singleton_append]

/-- With a limit: a first part that fits, and with the next item would not. -/
theorem takeItems_some (limit : Nat) (items rest : List (U64 × AuthorId)) :
    ∃ k, takeItems (some limit) items rest = items ++ rest.take k ∧
      (Postcard.serializedSize items ≤ limit → Postcard.serializedSize (items ++ rest.take k) ≤ limit) ∧
      (k < rest.length → limit < Postcard.serializedSize (items ++ rest.take (k + 1))) := by
  induction rest generalizing items with
  | nil => exact ⟨0, by simp [takeItems], by simp, by simp⟩
  | cons item rest ih =>
    by_cases hfull : Postcard.serializedSize (items ++ [item]) > limit
    · exact ⟨0, by simp [takeItems, hfull], by simp, fun _ => by simpa using hfull⟩
    · obtain ⟨k, htake, hfits, hnext⟩ := ih (items ++ [item])
      rw [List.append_assoc, List.singleton_append, ← List.take_succ_cons] at htake hfits
      rw [List.append_assoc, List.singleton_append, ← List.take_succ_cons] at hnext
      refine ⟨k + 1, by simp only [takeItems, if_neg hfull, htake], fun _ => hfits (not_lt.1 hfull), fun hlt => ?_⟩
      exact hnext (Nat.lt_of_succ_lt_succ hlt)

/-! ## Where timestamps are distinct -/

/-- What is encoded without a limit, for heads given by their items, newest first. -/
theorem encode_none_eq (hdistinct : DistinctTimestamps h) (hsorted : items.Pairwise fun x y => y.1 < x.1)
    (hitems : ∀ t a, (t, a) ∈ items ↔ h.get a = some t) : h.encode none = Postcard.toBytes items := by
  rw [encode, takeItems_none, List.nil_append, byTimestamp_eq hdistinct hsorted hitems]

/-- The first heads and the next one are encoded as the first items and the next one. -/
theorem encode_insert_next (hdistinct : DistinctTimestamps h) (hsorted : items.Pairwise fun x y => y.1 < x.1)
    (hitems : ∀ t a, (t, a) ∈ items ↔ h.get a = some t) {k : Nat} {t : U64} {a : AuthorId}
    (htake : items.take (k + 1) = items.take k ++ [(t, a)])
    (hmissing : (fromItems (items.take k)).get a = none) :
    ((fromItems (items.take k)).insert a t).encode none = Postcard.toBytes (items.take (k + 1)) := by
  have hinsert : ∀ t' a',
      (t', a') ∈ items.take (k + 1) ↔ ((fromItems (items.take k)).insert a t).get a' = some t' := by
    intro t' a'
    rw [htake, List.mem_append, List.mem_singleton, get_insert_of_new hmissing, ← get_fromItems_take hitems]
    by_cases heq : a' = a
    · subst heq
      simp [hmissing, eq_comm]
    · simp [heq]
  have hpart : DistinctTimestamps ((fromItems (items.take k)).insert a t) :=
    hdistinct.mono fun a' t' hin => (hitems t' a').1 (List.mem_of_mem_take ((hinsert t' a').2 hin))
  exact encode_none_eq hpart hsorted.take hinsert

/-- The first items are the newest. -/
theorem newestPart_of_take (hdistinct : DistinctTimestamps h) (hsorted : items.Pairwise fun x y => y.1 < x.1)
    (hitems : ∀ t a, (t, a) ∈ items ↔ h.get a = some t) {limit k : Nat}
    (hnext : k < items.length → limit < Postcard.serializedSize (items.take (k + 1))) :
    NewestPart h limit (fromItems (items.take k)) := by
  have hget := get_fromItems_take hitems k
  have hsub : ∀ a t, (fromItems (items.take k)).get a = some t → h.get a = some t := fun a t hmem =>
    (hitems t a).1 (List.mem_of_mem_take ((hget a t).1 hmem))
  have hsplit : ∀ item, item ∈ items → item ∈ items.take k ∨ item ∈ items.drop k := fun item hmem => by
    rwa [← List.mem_append, List.take_append_drop]
  have habove : ∀ x ∈ items.take k, ∀ y ∈ items.drop k, y.1 < x.1 := by
    rw [← List.take_append_drop k items] at hsorted
    exact (List.pairwise_append.1 hsorted).2.2
  refine ⟨hsub, ?_, ?_⟩
  · intro a t a' t' ha ha' hlt
    refine (hget a' t').2 ((hsplit _ ((hitems t' a').2 ha')).resolve_right fun hdrop => ?_)
    exact (habove _ ((hget a t).1 ha) _ hdrop).not_gt hlt
  · intro a t ha hmissing hnewest
    have hdrop : (t, a) ∈ items.drop k := (hsplit _ ((hitems t a).2 ha)).resolve_left fun htake => by
      rw [(hget a t).2 htake] at hmissing
      cases hmissing
    have hk : k < items.length := by
      by_contra hge
      rw [List.drop_of_length_le (not_lt.1 hge)] at hdrop
      cases hdrop
    -- the item at `k` is missing too
    have hitem : items[k] ∈ items.drop k := by
      rw [List.drop_eq_getElem_cons hk]
      exact .head _
    have hmem : h.get items[k].2 = some items[k].1 := (hitems _ _).1 (List.mem_of_mem_drop hitem)
    have hlate : (fromItems (items.take k)).get items[k].2 = none := by
      cases hin : (fromItems (items.take k)).get items[k].2 with
      | none => rfl
      | some t' =>
        obtain rfl : t' = items[k].1 := Option.some.inj ((hsub _ _ hin).symm.trans hmem)
        exact absurd (habove _ ((hget _ _).1 hin) _ hitem) (lt_irrefl _)
    have htake : items.take (k + 1) = items.take k ++ [(t, a)] := by
      rw [List.take_succ_eq_append_getElem hk, getElem_of_newest hk hsorted hdrop (hnewest _ _ hmem hlate)]
    rw [encode_insert_next hdistinct hsorted hitems htake hmissing]
    exact hnext hk

/-- A timestamp has one author in the map, so one of two authors is lost. -/
theorem distinct_of_whole (hpost : ∀ items : List (U64 × AuthorId),
    Postcard.fromBytes (Postcard.toBytes items) = .ok items) (hwhole : decode (h.encode none) = .ok h) :
    DistinctTimestamps h := by
  intro a a' t ha ha'
  rw [encode, takeItems_none, List.nil_append, decode_toBytes (hpost _)] at hwhole
  have hmem : ∀ a, h.get a = some t → (t, a) ∈ h.byTimestamp.toList := by
    intro a ha
    rw [← Except.ok.inj hwhole, get_fromItems fun t a hmem =>
      mem_heads_of_byTimestamp (List.mem_reverse.1 hmem), List.mem_reverse] at ha
    exact ha
  exact congrArg Prod.snd (h.byTimestamp.sorted.eq_of_key (hmem a ha) (hmem a' ha') rfl)

/-- **When heads survive encoding** (heads.rs:72, 93): if no two authors share a timestamp. -/
theorem heads_survive_encoding_iff (h : AuthorHeads)
    (hpost : ∀ items : List (U64 × AuthorId), Postcard.fromBytes (Postcard.toBytes items) = .ok items)
    (hempty : (Postcard.toBytes ([] : List (U64 × AuthorId))).length ≤ 1) :
    SurvivesEncoding h ↔ DistinctTimestamps h := by
  refine ⟨fun hsurvives => distinct_of_whole hpost hsurvives.whole, fun hdistinct => ?_⟩
  have hsorted := h.pairwise_byTimestamp
  have hitems : ∀ t a, (t, a) ∈ h.byTimestamp.toList.reverse ↔ h.get a = some t := by
    intro t a
    rw [List.mem_reverse, mem_byTimestamp hdistinct]
  refine ⟨?_, ?_, ?_⟩
  · rw [encode_none_eq hdistinct hsorted hitems, decode_toBytes (hpost _)]
    refine congrArg Except.ok (ext_get fun a => Option.ext fun t => ?_)
    rw [get_fromItems fun t a => (hitems t a).1, hitems]
  · intro limit hlimit
    obtain ⟨k, htake, hfits, -⟩ := takeItems_some limit [] h.byTimestamp.toList.reverse
    rw [encode, htake]
    exact hfits (hempty.trans hlimit)
  · intro limit _
    obtain ⟨k, htake, -, hnext⟩ := takeItems_some limit [] h.byTimestamp.toList.reverse
    refine ⟨_, ?_, newestPart_of_take hdistinct hsorted hitems hnext⟩
    rw [encode, htake, List.nil_append, decode_toBytes (hpost _)]

end

end Survival

/-! ## Postcard's format of a list of heads -/

/-- The timestamp as a varint, then the 32 bytes of the author. -/
def writeHead (item : U64 × AuthorId) : Bytes := Varint.writeNat item.1.val ++ item.2.val

theorem length_authorBytes {n : Nat} {bytes : Bytes} (h : n < 2 ^ 64 ∧ 32 ≤ bytes.length) :
    (bytes.take 32).length = 32 := by
  rw [List.length_take]
  omega

def readHead : Varint.Reader (U64 × AuthorId) := fun bytes =>
  match Varint.readNat bytes with
  | none => none
  | some (n, bytes) =>
    if h : n < 2 ^ 64 ∧ 32 ≤ bytes.length then
      some ((⟨n, h.1⟩, ⟨bytes.take 32, length_authorBytes h⟩), bytes.drop 32)
    else none

theorem reads_head (item : U64 × AuthorId) : Varint.Reads writeHead readHead item := by
  intro rest
  have hlen : 32 ≤ (item.2.val ++ rest).length := by
    rw [List.length_append, item.2.2]
    omega
  have htake : (item.2.val ++ rest).take 32 = item.2.val := by
    rw [List.take_append_of_le_length item.2.2.ge, List.take_of_length_le item.2.2.le]
  have hdrop : (item.2.val ++ rest).drop 32 = rest := by
    rw [List.drop_append_of_le_length item.2.2.ge, List.drop_of_length_le item.2.2.le, List.nil_append]
  rw [writeHead, List.append_assoc, readHead, Varint.reads_nat]
  simp only [dif_pos (And.intro item.1.isLt hlen), htake, hdrop]

section

local instance headsPostcard : Postcard (List (U64 × AuthorId)) where
  toBytes := Varint.writeList writeHead
  fromBytes bytes := match Varint.readList readHead bytes with
    | some (items, _) => .ok items
    | none => .error "Hit the end of buffer, expected more data"

theorem headsPostcard_roundTrip (items : List (U64 × AuthorId)) :
    Postcard.fromBytes (Postcard.toBytes items) = .ok items := by
  have hreads := Varint.reads_list (fun item (_ : item ∈ items) => reads_head item) []
  rw [List.append_nil] at hreads
  show (match Varint.readList readHead (Varint.writeList writeHead items) with
    | some (items, _) => Except.ok items
    | none => .error "Hit the end of buffer, expected more data") = .ok items
  rw [hreads]

theorem headsPostcard_nil : (Postcard.toBytes ([] : List (U64 × AuthorId))).length ≤ 1 := by
  simp [Postcard.toBytes, Varint.writeList, Varint.writeNat]

/-- `[n; 32]`. -/
def sampleAuthor (n : Byte) : AuthorId := ⟨List.replicate 32 n, List.length_replicate ..⟩

/-- Two authors with timestamps of their own. -/
theorem heads_survive_encoding_iff_sample :
    SurvivesEncoding (ofList [(sampleAuthor 1, 5), (sampleAuthor 2, 300)]) := by
  refine (heads_survive_encoding_iff _ headsPostcard_roundTrip headsPostcard_nil).2 ?_
  intro a a' t ha ha'
  have ha := mem_of_get_ofList ha
  have ha' := mem_of_get_ofList ha'
  simp only [List.mem_cons, Prod.mk.injEq, List.not_mem_nil, or_false] at ha ha'
  rcases ha with ⟨rfl, rfl⟩ | ⟨rfl, rfl⟩
  · rcases ha' with ⟨rfl, -⟩ | ⟨-, ht⟩
    · rfl
    · exact absurd ht (by decide)
  · rcases ha' with ⟨-, ht⟩ | ⟨rfl, -⟩
    · exact absurd ht (by decide)
    · rfl

/-- Of two authors with one timestamp, the first one is lost. -/
theorem shared_timestamp_loses_a_head :
    let h := ofList [(sampleAuthor 1, 5), (sampleAuthor 2, 5)]
    ¬ SurvivesEncoding h ∧ h.get (sampleAuthor 1) = some 5 ∧
      ∃ h', decode (h.encode none) = .ok h' ∧ h'.get (sampleAuthor 1) = none := by
  intro h
  have hget : h.get (sampleAuthor 1) = some 5 := by decide +kernel
  have hitems : h.byTimestamp.toList.reverse = [(5, sampleAuthor 2)] := by decide +kernel
  have hdecode : decode (h.encode none) = .ok (fromItems [(5, sampleAuthor 2)]) := by
    rw [encode, takeItems_none, List.nil_append, hitems, decode_toBytes (headsPostcard_roundTrip _)]
  have hlost : (fromItems [(5, sampleAuthor 2)]).get (sampleAuthor 1) = none := by decide +kernel
  refine ⟨fun hsurvives => ?_, hget, _, hdecode, hlost⟩
  have hwhole := hsurvives.whole
  rw [hdecode] at hwhole
  rw [← Except.ok.inj hwhole, hlost] at hget
  cases hget

end

end AuthorHeads

end PdnStore.Sync

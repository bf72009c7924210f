import PdnStore.Ranger.Confine
import PdnStore.Sync.Egress

/-!
# Messages off the wire, and what a session answers to them (sync.rs:1186-1340, fs.rs:902-943)

A record identifier comes off the wire as bytes, and every accessor slices its 64-byte head unchecked.
`record_identifier_from_bytes` is the one constructor from outside, so no identifier of a decoded message
makes an accessor panic (`asByteTuple_bytes`). The boundaries themselves may name anything: the store
refuses those of another namespace, and what a session answers to the rest stays inside its view, its
filter and the ranges asked about (`sync_process_message_confined`).

| here | there |
| --- | --- |
| `recordIdentifierFromBytes` | `record_identifier_from_bytes` (`sync.rs:1203`) |
| `slice`, `sliceFrom`        | `&bytes[a..b]` and `&bytes[a..]`, which panic out of bounds |
| `asByteTuple`               | `as_byte_tuple`, `to_byte_tuple` (`sync.rs:1299-1315`): all three slices of the accessors |
| `WireMessage`               | a message whose identifiers are still bytes |
-/

namespace PdnStore.Sync

open Ranger Fs Session

/-! ## Identifiers -/

/-- `ID_HEAD_BYTES` (sync.rs:1197). -/
def ID_HEAD_BYTES : Nat := 64

/-- serde's `Error::invalid_length`. -/
structure InvalidLength where
  len : Nat
  expected : String
deriving DecidableEq, Repr

/-- `record_identifier_from_bytes` (sync.rs:1200). -/
def recordIdentifierFromBytes (bytes : Bytes) : Except InvalidLength RecordIdentifier :=
  if h : bytes.length < ID_HEAD_BYTES then
    .error ⟨bytes.length, "a record identifier carrying a 32-byte namespace and a 32-byte author"⟩
  else .ok ⟨bytes, not_lt.1 h⟩

/-- `&bytes[start..stop]`. -/
def slice (bytes : Bytes) (start stop : Nat) : Except Fault Bytes :=
  if stop < start then .error (.panic "slice index starts after its end")
  else if bytes.length < stop then .error (.panic "range end index out of range for slice")
  else .ok ((bytes.take stop).drop start)

/-- `&bytes[start..]`. -/
def sliceFrom (bytes : Bytes) (start : Nat) : Except Fault Bytes :=
  if bytes.length < start then .error (.panic "range start index out of range for slice")
  else .ok (bytes.drop start)

/-- `RecordIdentifier::as_byte_tuple` (sync.rs:1300) on the bytes of an identifier: `NAMESPACE_BYTES`,
`AUTHOR_BYTES`, `KEY_BYTES`. -/
def asByteTuple (bytes : Bytes) : Except Fault (Bytes × Bytes × Bytes) := do
  .ok (← slice bytes 0 32, ← slice bytes 32 64, ← sliceFrom bytes 64)

/-- The accessors of an identifier are total. -/
theorem asByteTuple_bytes (id : RecordIdentifier) :
    asByteTuple id.bytes = .ok (id.namespace.val, id.author.val, id.key) := by
  have hlen := id.head
  have h32 : ¬ id.bytes.length < 32 := by omega
  have h64 : ¬ id.bytes.length < 64 := by omega
  simp [asByteTuple, slice, sliceFrom, h32, h64, bind, Except.bind, RecordIdentifier.namespace,
    RecordIdentifier.author, RecordIdentifier.key, List.drop_take]

theorem recordIdentifierFromBytes_ok {bytes : Bytes} {id : RecordIdentifier}
    (h : recordIdentifierFromBytes bytes = .ok id) : id.bytes = bytes := by
  unfold recordIdentifierFromBytes at h
  split at h
  · cases h
  · cases h
    rfl

/-! ## Messages -/

/-- A `SignedEntry` whose identifier is still bytes. -/
structure WireEntry where
  signature : EntrySignature
  id : Bytes
  record : Record
deriving DecidableEq

abbrev WireMessage := Message WireEntry Bytes RejectId

/-- Decode a range: both boundaries are identifiers. -/
def decodeRange (r : Range Bytes) : Except InvalidLength (Range RecordIdentifier) := do
  .ok ⟨← recordIdentifierFromBytes r.x, ← recordIdentifierFromBytes r.y⟩

def decodeValue (v : WireEntry × ContentStatus) : Except InvalidLength (SignedEntry × ContentStatus) := do
  let id ← recordIdentifierFromBytes v.1.id
  .ok (⟨v.1.signature, ⟨id, v.1.record⟩⟩, v.2)

def decodePart : MessagePart WireEntry Bytes RejectId →
    Except InvalidLength (MessagePart SignedEntry RecordIdentifier RejectId)
  | .rangeFingerprint fp => do .ok (.rangeFingerprint ⟨← decodeRange fp.range, fp.fingerprint⟩)
  | .rangeItem item => do
    .ok (.rangeItem ⟨← decodeRange item.range, ← item.values.mapM decodeValue, item.haveLocal⟩)
  | .rejected id => .ok (.rejected id)

/-- `Deserialize` for a message: one identifier without its head refuses the whole. -/
def decodeMessage (w : WireMessage) : Except InvalidLength SyncMessage := do
  .ok ⟨← w.parts.mapM decodePart⟩

/-- The identifiers of a part, as they came. -/
def wireIds : MessagePart WireEntry Bytes RejectId → List Bytes
  | .rangeFingerprint fp => [fp.range.x, fp.range.y]
  | .rangeItem item => item.range.x :: item.range.y :: item.values.map (·.1.id)
  | .rejected _ => []

/-- The bytes are those of an identifier. -/
def IsId (bytes : Bytes) : Prop := ∃ id : RecordIdentifier, id.bytes = bytes

theorem isId_of_decodeRange {r : Range Bytes} {q : Range RecordIdentifier} (h : decodeRange r = .ok q) :
    IsId r.x ∧ IsId r.y := by
  obtain ⟨x, hx, h⟩ := bind_eq_ok.1 h
  obtain ⟨y, hy, -⟩ := bind_eq_ok.1 h
  exact ⟨⟨x, recordIdentifierFromBytes_ok hx⟩, ⟨y, recordIdentifierFromBytes_ok hy⟩⟩

/-- Every identifier of a decoded part carries its head. -/
theorem isId_of_decodePart {part : MessagePart WireEntry Bytes RejectId}
    {part' : MessagePart SignedEntry RecordIdentifier RejectId} (h : decodePart part = .ok part') :
    ∀ bytes ∈ wireIds part, IsId bytes := by
  cases part with
  | rejected id => simp [wireIds]
  | rangeFingerprint fp =>
    obtain ⟨q, hq, -⟩ := bind_eq_ok.1 h
    obtain ⟨hx, hy⟩ := isId_of_decodeRange hq
    simp [wireIds, hx, hy]
  | rangeItem item =>
    obtain ⟨q, hq, h⟩ := bind_eq_ok.1 h
    obtain ⟨vs, hvs, -⟩ := bind_eq_ok.1 h
    obtain ⟨hx, hy⟩ := isId_of_decodeRange hq
    intro bytes hbytes
    simp only [wireIds, List.mem_cons, List.mem_map] at hbytes
    rcases hbytes with rfl | rfl | ⟨v, hv, rfl⟩
    · exact hx
    · exact hy
    · obtain ⟨v', -, hv'⟩ := ok_of_mapM_ok hvs v hv
      obtain ⟨id, hid, -⟩ := bind_eq_ok.1 hv'
      exact ⟨id, recordIdentifierFromBytes_ok hid⟩

theorem isId_of_decodeMessage {w : WireMessage} {m : SyncMessage} (h : decodeMessage w = .ok m) :
    ∀ bytes ∈ w.parts.flatMap wireIds, IsId bytes := by
  obtain ⟨parts, hparts, -⟩ := bind_eq_ok.1 h
  intro bytes hbytes
  obtain ⟨part, hpart, hmem⟩ := List.mem_flatMap.1 hbytes
  obtain ⟨part', -, hok⟩ := ok_of_mapM_ok hparts part hpart
  exact isId_of_decodePart hok bytes hmem

/-! ## What a session answers -/

section Confine

variable {ns : NamespaceId} [Blake3]

theorem refuses_session : Refuses (ReplicaSession ns) (StoreInstance.dom ns) where
  range s _ hr := ⟨_, getRange_session_foreign s hr⟩
  fingerprint s _ hr := ⟨_, getFingerprint_session_foreign s hr⟩

/-- The entries a session over `r` with `filter` may transmit. -/
def Servable (r : Replica ns) (filter : Option (SignedEntry → Bool)) (e : SignedEntry) : Prop :=
  e.id.namespace = ns ∧ admitted filter e = true ∧ ∀ t, r.store.sessionSnapshot = some t → e ∈ t.entries

/-- The session is still the one of `r` with `filter`. -/
def SameSession (r : Replica ns) (filter : Option (SignedEntry → Bool)) (s : ReplicaSession ns) : Prop :=
  s.inner.sessionSnapshot = r.store.sessionSnapshot ∧ s.filter = filter

omit [Blake3] in
theorem servable_of_view {r : Replica ns} {filter : Option (SignedEntry → Bool)} {s : ReplicaSession ns}
    (h : SameSession r filter s) : ∀ e ∈ s.inner.view.filter (admitted s.filter), Servable r filter e := by
  intro e he
  obtain ⟨hview, hadm⟩ := List.mem_filter.1 he
  obtain ⟨hsource, hns⟩ := List.mem_filter.1 hview
  refine ⟨by simpa using hns, by rw [← h.2]; exact hadm, ?_⟩
  intro t ht
  rw [StoreInstance.source, h.1, ht, Option.getD_some] at hsource
  exact hsource

theorem processed_confinement (verify : SignedEntry → Bool) (now : U64) (r : Replica ns) (m : SyncMessage)
    (peer : PeerIdBytes) (filter : Option (SignedEntry → Bool)) :
    Confinement (Servable r filter) (StoreInstance.dom ns) m
      (processed verify now r m peer filter).reply := by
  have hput : ∀ (s : ReplicaSession ns) e status, validateCb verify now r peer s e status = .accept →
      SameSession r filter s → SameSession r filter (put s e).2 := by
    intro s e _ _ hs
    obtain ⟨hsnap, hf⟩ := put_frozen s e
    exact ⟨hsnap.trans hs.1, hf.trans hs.2⟩
  exact processMessage_confined (SessionStore.lawfulReads StoreInstance.lawfulReads) refuses_session
    (contentStatus r) (validateCb verify now r peer) hput (fun s => servable_of_view) ⟨rfl, rfl⟩ m

/-- **Egress confinement.** Whatever the peer sends: no panic, nothing outside the session's view, its filter
and the ranges asked about, and no reply at all to a range with a boundary of another namespace. -/
theorem sync_process_message_confined (verify : SignedEntry → Bool) (now : U64) (r : Replica ns)
    (peer : PeerIdBytes) (state : SyncOutcome) (filter : Option (SignedEntry → Bool)) {w : WireMessage}
    {m : SyncMessage} (hm : decodeMessage w = .ok m)
    {reply : Except Fault (Option SyncMessage)}
    (hreply : (syncProcessMessage verify now r m peer state filter).reply = reply) :
    (∀ bytes ∈ w.parts.flatMap wireIds, ∃ tuple, asByteTuple bytes = .ok tuple) ∧
    (∀ msg, reply ≠ .error (.panic msg)) ∧
    (∀ out, reply = .ok (some out) →
      (∀ item ∈ items out.parts, ∀ v ∈ item.values, v.1.id.namespace = ns ∧ admitted filter v.1 = true ∧
        (∀ t, r.store.sessionSnapshot = some t → v.1 ∈ t.entries) ∧ item.range.contains v.1.id = true) ∧
      (∀ q ∈ ranges out.parts, ∃ a ∈ asked m.parts, q.Inside a)) ∧
    (∀ a ∈ asked m.parts, a.x ≠ a.y → a.x.namespace ≠ ns ∨ a.y.namespace ≠ ns →
      ∃ msg, reply = .error (.error msg)) := by
  refine ⟨?_, ?_⟩
  · intro bytes hbytes
    obtain ⟨id, rfl⟩ := isId_of_decodeMessage hm bytes hbytes
    exact ⟨_, asByteTuple_bytes id⟩
  cases hc : r.info.closed with
  | true =>
    rw [syncProcessMessage_closed verify hc] at hreply
    subst hreply
    exact ⟨by simp, by simp, fun _ _ _ _ => ⟨_, rfl⟩⟩
  | false =>
    rw [(syncProcessMessage_open verify hc).1] at hreply
    subst hreply
    have hconf := processed_confinement verify now r m peer filter
    refine ⟨hconf.noPanic, ?_, ?_⟩
    · intro out hout
      have hserved := hconf.served out hout
      refine ⟨?_, ?_⟩
      · intro item hitem v hv
        obtain ⟨⟨hns, hadm, hsnap⟩, hrange⟩ := (hserved _ (mem_items.1 hitem)).1 v hv
        exact ⟨hns, hadm, hsnap, hrange⟩
      · intro q hq
        obtain ⟨part, hpart, hrange⟩ := List.mem_filterMap.1 hq
        have hpc := hserved part hpart
        cases part with
        | rejected id => cases hrange
        | rangeFingerprint fp =>
          cases hrange
          exact hpc
        | rangeItem item =>
          cases hrange
          exact hpc.2
    · intro a ha hxy hforeign
      refine hconf.refused a ha ?_
      rintro (h | ⟨hx, hy⟩)
      · exact hxy h
      · rcases hforeign with h | h
        · exact h hx
        · exact h hy

end Confine

section

local instance confineDigest : Blake3 := noDigest

/-- A fingerprint over the range between two identifiers, as it comes off the wire. -/
def sampleWire (x y : RecordIdentifier) : WireMessage :=
  ⟨[.rangeFingerprint ⟨⟨x.bytes, y.bytes⟩, 1⟩]⟩

def sampleReply (x y : RecordIdentifier) : Except Fault (Option SyncMessage) :=
  (syncProcessMessage (fun _ => true) 5 (sampleReplica default (sampleTables [[1], [7]]))
    ⟨[.rangeFingerprint ⟨⟨x, y⟩, 1⟩]⟩ zeros32 ⟨⟨∅⟩, 0, 0⟩ none).reply

/-- An identifier of another namespace. -/
def foreignId : RecordIdentifier := .new ⟨List.replicate 32 1, List.length_replicate ..⟩ zeros32 []

/-- A range of the namespace, which is answered with its entries; and one that ends in another. -/
theorem sync_process_message_confined_sample :
    (∃ out, sampleReply (.new zeros32 zeros32 [2]) (.new zeros32 zeros32 [9]) = .ok (some out) ∧
      out.values ≠ [] ∧ ∀ item ∈ items out.parts, ∀ v ∈ item.values, v.1.id.namespace = zeros32) ∧
    (∃ msg, sampleReply (.new zeros32 zeros32 [2]) foreignId = .error (.error msg)) := by
  have hout : sampleReply (.new zeros32 zeros32 [2]) (.new zeros32 zeros32 [9]) = .ok (some
      ⟨[.rangeItem ⟨⟨.new zeros32 zeros32 [2], .new zeros32 zeros32 [9]⟩,
        [(sampleEntry [7] ⟨7, zeros32, 3⟩, .missing)], false⟩]⟩) := by decide +kernel
  have hserve := sync_process_message_confined (fun _ => true) 5
    (sampleReplica default (sampleTables [[1], [7]])) zeros32 ⟨⟨∅⟩, 0, 0⟩ none
    (w := sampleWire (.new zeros32 zeros32 [2]) (.new zeros32 zeros32 [9])) (by decide) hout
  have hrefuse := sync_process_message_confined (fun _ => true) 5
    (sampleReplica default (sampleTables [[1], [7]])) zeros32 ⟨⟨∅⟩, 0, 0⟩ none
    (w := sampleWire (.new zeros32 zeros32 [2]) foreignId)
    (m := ⟨[.rangeFingerprint ⟨⟨.new zeros32 zeros32 [2], foreignId⟩, 1⟩]⟩) (by decide) rfl
  refine ⟨⟨_, hout, by decide, ?_⟩, ?_⟩
  · intro item hitem v hv
    exact ((hserve.2.2.1 _ rfl).1 item hitem v hv).1
  · exact hrefuse.2.2.2 _ List.mem_cons_self (by decide) (.inr (by decide))

end

end PdnStore.Sync

import PdnStore.Ranger.Basic
import PdnStore.Lib.LexOrder
import Mathlib.Data.Prod.Lex

/-!
# Identifiers, records and signed entries (sync.rs:846-1445, keys.rs)

| here | there |
| --- | --- |
| `NamespaceId`, `AuthorId`, `Hash` | 32-byte arrays, compared as byte strings |
| `RecordIdentifier`   | namespace, author and key in one byte string of at least 64 bytes (`sync.rs:1187`) |
| `Record`             | `Record` (`sync.rs:1361`); its `Ord` reads the timestamp and then the hash, never the length |
| `Record.value`       | what that `Ord` compares |
| `SignedEntry`        | `SignedEntry` with the two signatures as bytes; verifying them is third-party |
-/

namespace PdnStore

open Ranger

/-- `u64`; `+` wraps. -/
abbrev U64 := Fin (2 ^ 64)

instance neZeroU64 : NeZero (2 ^ 64) := ⟨by decide⟩

/-- `u64::to_be_bytes`. -/
def U64.toBeBytes (n : U64) : Bytes :=
  (List.range 8).map fun i => Fin.ofNat 256 (n.val / 256 ^ (7 - i))

/-- `[u8; n]`. -/
abbrev ByteArrayN (n : Nat) := {b : Bytes // b.length = n}

/-- The `postcard` crate on a type: what `to_slice` and `to_stdvec` write, and what `from_bytes` makes of
bytes. Serializing succeeds. -/
class Postcard (α : Type) where
  toBytes : α → Bytes
  fromBytes : Bytes → Except String α

/-- `postcard::experimental::serialized_size`, and the `Size` flavor: how many bytes are written. -/
def Postcard.serializedSize {α : Type} [Postcard α] (a : α) : Nat := (toBytes a).length

abbrev NamespaceId := ByteArrayN 32

abbrev AuthorId := ByteArrayN 32

abbrev Hash := ByteArrayN 32

/-- `[0u8; 32]`, also `NamespaceId::default` and `AuthorId::default`. -/
def zeros32 : ByteArrayN 32 := ⟨List.replicate 32 0, List.length_replicate ..⟩

/-- `Hash::EMPTY` of iroh-blobs: the hash of the empty byte range. -/
def Hash.EMPTY : Hash :=
  ⟨[0xaf, 0x13, 0x49, 0xb9, 0xf5, 0xf9, 0xa1, 0xa6, 0xa0, 0x40, 0x4d, 0xea, 0x36, 0xdc, 0xc9, 0x49,
    0x9b, 0xcb, 0x25, 0xc9, 0xad, 0xc1, 0x12, 0xb7, 0xcc, 0x9a, 0x93, 0xca, 0xe4, 0x1f, 0x32, 0x62], rfl⟩

/-! ## Record identifiers -/

/-- `RecordIdentifier` (sync.rs:1194): "a value lacking [the 64-byte head] must not exist". -/
structure RecordIdentifier where
  bytes : Bytes
  head : 64 ≤ bytes.length
deriving DecidableEq

namespace RecordIdentifier

/-- `RecordIdentifier::new` (sync.rs:1277). -/
def new (ns : NamespaceId) (author : AuthorId) (key : Bytes) : RecordIdentifier where
  bytes := ns.val ++ author.val ++ key
  head := by simp only [List.length_append, ns.2, author.2]; omega

/-- `RecordIdentifier::namespace` (sync.rs:1328). -/
def «namespace» (id : RecordIdentifier) : NamespaceId :=
  ⟨id.bytes.take 32, by have := id.head; simp only [List.length_take]; omega⟩

/-- `RecordIdentifier::author` (sync.rs:1334). -/
def author (id : RecordIdentifier) : AuthorId :=
  ⟨(id.bytes.drop 32).take 32, by have := id.head; simp only [List.length_take, List.length_drop]; omega⟩

/-- `RecordIdentifier::key` (sync.rs:1318). -/
def key (id : RecordIdentifier) : Bytes := id.bytes.drop 64

/-- `RecordIdentifier::default` (sync.rs:1235). -/
instance : Inhabited RecordIdentifier := ⟨new zeros32 zeros32 []⟩

/-- `Ord` is that of the bytes. -/
instance : LinearOrder RecordIdentifier :=
  LinearOrder.lift' bytes fun a b h => by cases a; cases b; congr

theorem lt_iff_bytes {a b : RecordIdentifier} : a < b ↔ a.bytes < b.bytes := Iff.rfl

/-- `RangeKey::is_prefix_of` (sync.rs:1251). -/
instance : RangeKey RecordIdentifier where
  isPrefixOf a b := a.bytes.isPrefixOf b.bytes
  prefix_refl a := RangeKey.prefix_refl a.bytes
  prefix_trans h h' := RangeKey.prefix_trans (K := Bytes) h h'
  prefix_antisymm {a b} h h' := by
    have hb : a.bytes = b.bytes := RangeKey.prefix_antisymm h h'
    cases a; cases b; congr

theorem bytes_eq (id : RecordIdentifier) : id.bytes = id.namespace.val ++ id.author.val ++ id.key := by
  have hdrop : id.bytes.drop 64 = (id.bytes.drop 32).drop 32 := by rw [List.drop_drop]
  simp only [«namespace», author, key, hdrop, List.append_assoc, List.take_append_drop]

@[ext] theorem ext {a b : RecordIdentifier} (hn : a.namespace = b.namespace) (ha : a.author = b.author)
    (hk : a.key = b.key) : a = b := by
  have hb : a.bytes = b.bytes := by rw [bytes_eq a, bytes_eq b, hn, ha, hk]
  cases a; cases b; congr

section New

variable (ns : NamespaceId) (a : AuthorId) (k : Bytes)

@[simp] theorem namespace_new : (new ns a k).namespace = ns := by
  apply Subtype.ext
  simp only [«namespace», new, List.append_assoc]
  rw [List.take_append_of_le_length (by rw [ns.2])]
  exact List.take_of_length_le (by rw [ns.2])

@[simp] theorem author_new : (new ns a k).author = a := by
  apply Subtype.ext
  simp only [author, new, List.append_assoc]
  rw [List.drop_append_of_le_length (by rw [ns.2]), List.drop_of_length_le (by rw [ns.2]), List.nil_append,
    List.take_append_of_le_length (by rw [a.2])]
  exact List.take_of_length_le (by rw [a.2])

@[simp] theorem key_new : (new ns a k).key = k := by
  have hlen : (ns.val ++ a.val).length = 64 := by simp [ns.2, a.2]
  simp only [key, new]
  rw [List.drop_append_of_le_length (by omega), List.drop_of_length_le (by omega), List.nil_append]

end New

@[simp] theorem new_self (id : RecordIdentifier) : new id.namespace id.author id.key = id := by
  ext1 <;> simp

/-- The byte order is the order of namespace, then author, then key. -/
theorem lt_iff {a b : RecordIdentifier} : a < b ↔ a.namespace < b.namespace ∨
    (a.namespace = b.namespace ∧ (a.author < b.author ∨ (a.author = b.author ∧ a.key < b.key))) := by
  have hn : a.namespace.val.length = b.namespace.val.length := by rw [a.namespace.2, b.namespace.2]
  have ha : a.author.val.length = b.author.val.length := by rw [a.author.2, b.author.2]
  rw [lt_iff_bytes, bytes_eq a, bytes_eq b, List.append_assoc, List.append_assoc,
    LexOrder.append_lt_append_iff hn, LexOrder.append_lt_append_iff ha]
  simp only [Subtype.ext_iff, Subtype.coe_lt_coe]

/-- A prefix has the same namespace and author, and a prefix of the key. -/
theorem isPrefixOf_iff {a b : RecordIdentifier} : isPrefixOf a b = true ↔
    a.namespace = b.namespace ∧ a.author = b.author ∧ a.key <+: b.key := by
  have hn : a.namespace.val.length = b.namespace.val.length := by rw [a.namespace.2, b.namespace.2]
  have ha : a.author.val.length = b.author.val.length := by rw [a.author.2, b.author.2]
  show a.bytes.isPrefixOf b.bytes = true ↔ _
  rw [List.isPrefixOf_iff_prefix, bytes_eq a, bytes_eq b, List.append_assoc, List.append_assoc]
  constructor
  · rintro ⟨t, ht⟩
    rw [List.append_assoc, List.append_assoc] at ht
    obtain ⟨h1, h2⟩ := List.append_inj ht hn
    obtain ⟨h2, h3⟩ := List.append_inj h2 ha
    exact ⟨Subtype.ext h1, Subtype.ext h2, t, h3⟩
  · rintro ⟨h1, h2, t, ht⟩
    exact ⟨t, by rw [h1, h2, ← ht]; simp⟩

end RecordIdentifier

/-! ## Records and entries -/

/-- `Record` (sync.rs:1362). -/
structure Record where
  len : U64
  hash : Hash
  timestamp : U64
deriving DecidableEq

/-- What `Ord for Record` compares: "first the timestamp, then the content hash" (sync.rs:1376). -/
abbrev RecordValue := U64 ×ₗ Hash

def Record.value (r : Record) : RecordValue := toLex (r.timestamp, r.hash)

/-- `Record::is_empty` (sync.rs:1415). -/
def Record.isEmpty (r : Record) : Bool := r.hash = Hash.EMPTY

/-- `EntrySignature` (sync.rs:1019), as stored. -/
structure EntrySignature where
  authorSignature : ByteArrayN 64
  namespaceSignature : ByteArrayN 64
deriving DecidableEq

/-- `Entry` (sync.rs:1094). -/
structure Entry where
  id : RecordIdentifier
  record : Record
deriving DecidableEq

/-- `SignedEntry` (sync.rs:849). -/
structure SignedEntry where
  signature : EntrySignature
  entry : Entry
deriving DecidableEq

/-- `RejectId` (sync.rs:972). -/
structure RejectId where
  author : AuthorId
  key : Bytes
  timestamp : U64
  contentHash : Hash
deriving DecidableEq

namespace SignedEntry

def id (e : SignedEntry) : RecordIdentifier := e.entry.id

def record (e : SignedEntry) : Record := e.entry.record

/-- `Entry::validate_empty` (sync.rs:1114): length zero and the empty hash, or neither. -/
def validateEmpty (e : SignedEntry) : Bool := (e.record.hash = Hash.EMPTY) = (e.record.len = 0)

variable [Blake3]

/-- `impl RangeEntry for SignedEntry` (sync.rs:981). -/
instance : RangeEntry SignedEntry RecordIdentifier RecordValue RejectId where
  key e := e.id
  value e := e.record.value
  rejectId e := ⟨e.id.author, e.id.key, e.record.timestamp, e.record.hash⟩
  asFingerprint e := Blake3.hash (e.id.namespace.val ++ e.id.author.val ++ e.id.key ++
    e.record.timestamp.toBeBytes ++ e.record.hash.val)

end SignedEntry

end PdnStore

import PdnStore.Lib.Maximal
import PdnStore.Lib.SortedMap
import Mathlib.Data.List.Lex
import Mathlib.Algebra.GroupWithZero.Nat

/-!
# Range-based set reconciliation: keys, values, messages and the `Store` trait (ranger.rs:1-366)

| here | there |
| --- | --- |
| `RangeKey`, `RangeEntry` | the traits of the same name (`ranger.rs:12-76`); `RangeEntry.value` is the part of `E::Value` its `Ord` compares, for a `Record` the timestamp and then the content hash (`sync.rs:1376`) |
| `Stamp`                  | what two entries are compared by: key and value; `≤` is "is superseded by" |
| `Range`                  | `Range<K>` with its wrap-around reading (`ranger.rs:78-121`) |
| `Fingerprint`, `Blake3`  | `[u8; 32]` under XOR (`ranger.rs:128-152`); the hash function is a third-party crate and enters as a parameter |
| `Store`                  | `trait Store` (`ranger.rs:266`): reads may be refused, writes are taken to succeed (a redb I/O failure is outside the model) |
-/

namespace PdnStore

/-- A byte. -/
abbrev Byte := Fin 256

instance neZeroByte : NeZero 256 := ⟨by decide⟩

abbrev Bytes := List Byte

/-- `Fingerprint([u8; 32])`; `^=` works on the 32 bytes in parallel. -/
abbrev Fingerprint := BitVec 256

/-- The `blake3` crate: a digest for every byte string. -/
class Blake3 where
  hash : Bytes → Fingerprint

/-- `Fingerprint::empty` (ranger.rs:139): the digest of no bytes. -/
def Fingerprint.empty [Blake3] : Fingerprint := Blake3.hash []

/-- `ContentStatus` (sync.rs:138). -/
inductive ContentStatus where
  | complete
  | incomplete
  | missing
deriving DecidableEq, Repr

namespace Ranger

/-! ## Keys, values, entries -/

/-- `trait RangeKey` (ranger.rs:62): a totally ordered key with a prefix relation. -/
class RangeKey (K : Type) [LinearOrder K] where
  isPrefixOf : K → K → Bool
  prefix_refl : ∀ k, isPrefixOf k k
  prefix_trans : ∀ {a b c}, isPrefixOf a b → isPrefixOf b c → isPrefixOf a c
  prefix_antisymm : ∀ {a b}, isPrefixOf a b → isPrefixOf b a → a = b

export RangeKey (isPrefixOf)

/-- Byte strings in lexicographic order, under `starts_with`. -/
instance {α : Type} [LinearOrder α] : RangeKey (List α) where
  isPrefixOf := List.isPrefixOf
  prefix_refl k := List.isPrefixOf_iff_prefix.2 (List.prefix_refl k)
  prefix_trans hab hbc := List.isPrefixOf_iff_prefix.2
    ((List.isPrefixOf_iff_prefix.1 hab).trans (List.isPrefixOf_iff_prefix.1 hbc))
  prefix_antisymm hab hba :=
    have hab := List.isPrefixOf_iff_prefix.1 hab
    have hba := List.isPrefixOf_iff_prefix.1 hba
    hab.eq_of_length (hab.length_le.antisymm hba.length_le)

/-- `trait RangeEntry` (ranger.rs:12). -/
class RangeEntry (E : Type) (K V R : outParam (Type)) where
  key : E → K
  value : E → V
  rejectId : E → R
  asFingerprint : E → Fingerprint

export RangeEntry (key value rejectId asFingerprint)

/-- Key and value of an entry: all that reconciliation compares. -/
@[ext] structure Stamp (K V : Type) where
  key : K
  value : V
deriving DecidableEq

section Stamp

variable {E K V R : Type} [LinearOrder K] [RangeKey K] [LinearOrder V]

/-- `a ≤ b`: `b` supersedes `a`, having the same key or a prefix of it and at least its value. -/
instance : PartialOrder (Stamp K V) where
  le a b := isPrefixOf b.key a.key ∧ a.value ≤ b.value
  le_refl a := ⟨RangeKey.prefix_refl _, le_rfl⟩
  le_trans _ _ _ hab hbc := ⟨RangeKey.prefix_trans hbc.1 hab.1, hab.2.trans hbc.2⟩
  le_antisymm _ _ hab hba :=
    Stamp.ext (RangeKey.prefix_antisymm hba.1 hab.1) (hab.2.antisymm hba.2)

instance : DecidableLE (Stamp K V) := fun _ _ => inferInstanceAs (Decidable (_ ∧ _))

end Stamp

section Stamps

variable {E K V R : Type} [RangeEntry E K V R] {l : List E} {e e' : E}

/-- The stamp of an entry. -/
def stamp (e : E) : Stamp K V := ⟨key e, value e⟩

/-- The stamps of a list of entries. -/
def stamps (l : List E) : Set (Stamp K V) := {x | ∃ e ∈ l, stamp e = x}

theorem stamp_le_iff [LinearOrder K] [RangeKey K] [LinearOrder V] :
    stamp e ≤ stamp e' ↔ isPrefixOf (key e') (key e) ∧ value e ≤ value e' := Iff.rfl

theorem mem_stamps {x : Stamp K V} : x ∈ stamps l ↔ ∃ e ∈ l, stamp e = x := Iff.rfl

theorem stamp_mem_stamps (h : e ∈ l) : stamp e ∈ stamps l := ⟨e, h, rfl⟩

theorem stamps_nil : stamps ([] : List E) = ∅ := by simp [stamps]

theorem stamps_cons : stamps (e :: l) = insert (stamp e) (stamps l) := by
  ext x
  simp [mem_stamps, eq_comm]

end Stamps

/-- The fingerprint of a set of entries: `Fingerprint::empty()` XORed with each entry's own. -/
def fingerprint {E K V R : Type} [RangeEntry E K V R] [Blake3] (l : List E) : Fingerprint :=
  l.foldl (fun fp e => fp ^^^ asFingerprint e) Fingerprint.empty

/-! ## Ranges -/

/-- `Range { x, y }` (ranger.rs:86): `x = y` is everything, `x < y` is `[x, y)`, and `y < x` wraps
around: everything but `[y, x)`. -/
structure Range (K : Type) where
  x : K
  y : K
deriving DecidableEq

namespace Range

variable {K : Type} [LinearOrder K]

/-- `Range::is_all` (ranger.rs:107). -/
def isAll (r : Range K) : Bool := r.x = r.y

/-- `Range::contains` (ranger.rs:112). -/
def contains (r : Range K) (t : K) : Bool :=
  if r.x = r.y then true
  else if r.x < r.y then r.x ≤ t ∧ t < r.y
  else r.x ≤ t ∨ t < r.y

end Range

/-! ## Messages -/

/-- `ValidateOutcome` (ranger.rs:49). -/
inductive ValidateOutcome where
  | accept
  | drop
  | reject
deriving DecidableEq, Repr

/-- `RangeFingerprint` (ranger.rs:153). -/
structure RangeFingerprint (K : Type) where
  range : Range K
  fingerprint : Fingerprint
deriving DecidableEq

/-- `RangeItem` (ranger.rs:165). `haveLocal = false` asks the receiver for its own items. -/
structure RangeItem (E K : Type) where
  range : Range K
  values : List (E × ContentStatus)
  haveLocal : Bool
deriving DecidableEq

/-- `MessagePart` (ranger.rs:180). -/
inductive MessagePart (E K R : Type) where
  | rangeFingerprint (fp : RangeFingerprint K)
  | rangeItem (item : RangeItem E K)
  | rejected (id : R)
deriving DecidableEq

/-- `Message` (ranger.rs:230). -/
structure Message (E K R : Type) where
  parts : List (MessagePart E K R)
deriving DecidableEq

section Message

variable {E K R : Type}

/-- The items of a list of parts, in order (first loop of `process_message`, ranger.rs:391). -/
def items (parts : List (MessagePart E K R)) : List (RangeItem E K) :=
  parts.filterMap fun | .rangeItem item => some item | _ => none

/-- The fingerprints of a list of parts, in order. -/
def fingerprints (parts : List (MessagePart E K R)) : List (RangeFingerprint K) :=
  parts.filterMap fun | .rangeFingerprint fp => some fp | _ => none

/-- The rejections of a list of parts, in order (`MessagePart::rejected`, ranger.rs:220). -/
def rejections (parts : List (MessagePart E K R)) : List R :=
  parts.filterMap fun | .rejected id => some id | _ => none

/-- `Message::values` (ranger.rs:257): every entry a message transmits. -/
def Message.values (m : Message E K R) : List (E × ContentStatus) := (items m.parts).flatMap (·.values)

end Message

/-! ## The `Store` trait -/

/-- How a call ends when it does not return a value: the store's error, or a Rust panic. -/
inductive Fault where
  | error (msg : String)
  | panic (msg : String)
deriving DecidableEq, Repr

/-- `trait Store` (ranger.rs:266), the methods the algorithm calls. -/
class Store (S : Type) (E K V : outParam (Type)) where
  getFirst : S → Except Fault K
  getFingerprint : S → Range K → Except Fault Fingerprint
  entryPut : S → E → S
  getRange : S → Range K → Except Fault (List E)
  prefixesOf : S → K → List E
  removePrefixFiltered : S → K → (V → Bool) → Nat × S

/-- `SyncConfig` (ranger.rs:745). -/
structure SyncConfig where
  maxSetSize : Nat
  splitFactor : Nat

/-- `SyncConfig::default` (ranger.rs:752). -/
instance : Inhabited SyncConfig := ⟨⟨1, 2⟩⟩

/-- `InsertOutcome` (ranger.rs:763). -/
inductive InsertOutcome where
  | notInserted
  | inserted (removed : Nat)
deriving DecidableEq, Repr

end Ranger

end PdnStore

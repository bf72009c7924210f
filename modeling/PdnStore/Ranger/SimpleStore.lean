import PdnStore.Ranger.Put

/-!
# `SimpleStore`: the in-memory reference store (ranger.rs:772-985)

A `BTreeMap` behind the `Store` trait, the one the property tests run against. It meets the whole
contract, with every key in its domain: `SimpleStore.lawfulReads`, `SimpleStore.lawfulWrites`.
-/

namespace PdnStore.Ranger

/-- `format!("{:?}", ..)` of keys and values, which the test entries are hashed through. -/
class DebugFmt (α : Type) where
  bytes : α → Bytes

section

variable {K V : Type} [LinearOrder K] [RangeKey K] [LinearOrder V] [Inhabited K]
  [DebugFmt K] [DebugFmt V] [Blake3]

/-- `impl RangeEntry for (K, V)` (ranger.rs:793). -/
instance : RangeEntry (K × V) K V Unit where
  key := Prod.fst
  value := Prod.snd
  rejectId _ := ()
  asFingerprint e := Blake3.hash (DebugFmt.bytes e.1 ++ DebugFmt.bytes e.2)

/-- `SimpleStore` (ranger.rs:785). -/
structure SimpleStore (K V : Type) [LinearOrder K] where
  data : SortedMap K V

/-- `SimpleStore::default`. -/
instance : Inhabited (SimpleStore K V) := ⟨⟨∅⟩⟩

namespace SimpleStore

/-- `SimpleStore::get_range` (ranger.rs:892). -/
def getRange (s : SimpleStore K V) (r : Range K) : List (K × V) :=
    s.data.toList.filter fun e => r.contains e.1

/-- `SimpleStore::prefixes_of` (ranger.rs:916). -/
def prefixesOf (s : SimpleStore K V) (k : K) : List (K × V) :=
    s.data.toList.filter fun e => isPrefixOf e.1 k

/-- `SimpleStore::remove_prefix_filtered` (ranger.rs:934): `retain`, and the difference in length. -/
def removePrefixFiltered (s : SimpleStore K V) (k : K) (p : V → Bool) : Nat × SimpleStore K V :=
  let data := s.data.filter fun e => !(isPrefixOf k e.1 && p e.2)
  (s.data.toList.length - data.toList.length, ⟨data⟩)

/-- `impl Store for SimpleStore` (ranger.rs:840). -/
instance : Store (SimpleStore K V) (K × V) K V where
  getFirst s := .ok ((s.data.toList.head?.map Prod.fst).getD default)
  getFingerprint s r := .ok (fingerprint (s.getRange r))
  entryPut s e := ⟨s.data.insert e.1 e.2⟩
  getRange s r := .ok (s.getRange r)
  prefixesOf := prefixesOf
  removePrefixFiltered := removePrefixFiltered

/-- The entries of a `SimpleStore`. -/
def entries (s : SimpleStore K V) : List (K × V) := s.data.toList

omit [LinearOrder V] in
theorem lawfulReads : LawfulReads (SimpleStore K V) Set.univ entries where
  sorted s := s.data.sorted
  mem_dom _ _ _ := Set.mem_univ _
  getFirst _ := rfl
  getRange _ _ _ := rfl
  getFingerprint _ _ _ := rfl

omit [LinearOrder V] in
theorem lawfulWrites : LawfulWrites (SimpleStore K V) Set.univ entries where
  sorted s := s.data.sorted
  mem_dom _ _ _ := Set.mem_univ _
  prefixesOf _ _ _ _ := List.mem_filter
  remove s k p _ e := by
    show e ∈ (s.data.filter _).toList ↔ _
    rw [SortedMap.mem_filter]
    cases h : isPrefixOf k e.1 <;> simp [entries, value]
  removed s k p _ := by
    show s.data.toList.length - (s.data.toList.filter _).length = _
    have hsplit := List.length_eq_length_filter_add (l := s.data.toList) fun e => isPrefixOf k e.1 && p e.2
    have hlen : (entries s).length = s.data.toList.length := rfl
    simp only [entries, key, value] at *
    omega
  entryPut s e _ e' := SortedMap.mem_insert

end SimpleStore

end

/-! ## An instance on byte strings -/

/-- `{:?}` of an integer: its decimal digits. -/
instance : DebugFmt Nat := ⟨fun n => (Nat.toDigits 10 n).map fun c => Fin.ofNat 256 c.toNat⟩

/-- `{:?}` of a byte vector: `[1, 2]`. -/
instance : DebugFmt Bytes :=
  ⟨fun b => 91 :: ((b.map fun n => DebugFmt.bytes n.val).intersperse [44, 32]).flatten ++ [93]⟩

section

/-- The digest of no bytes; the insertions below hash nothing else. -/
local instance emptyDigest : Blake3 :=
  ⟨fun _ => 0xaf1349b9f5f9a1a6a0404dea36dcc9499bcb25c9adc112b7cc9a93cae41f3262⟩

/-- A sequence where a later entry evicts a deeper key and a repetition is refused. -/
theorem put_confluent_simpleStore :
    (⟨[1], 4⟩ : Stamp Bytes Nat) ∈ stamps (SimpleStore.entries (puts (default : SimpleStore Bytes Nat)
      [([1, 2], 3), ([1], 4), ([1, 2], 3)])) ∧
    (⟨[1, 2], 3⟩ : Stamp Bytes Nat) ∉ stamps (SimpleStore.entries (puts (default : SimpleStore Bytes Nat)
      [([1, 2], 3), ([1], 4), ([1, 2], 3)])) := by
  have hmem := (put_confluent SimpleStore.lawfulWrites (s := (default : SimpleStore Bytes Nat)) rfl
    [([1, 2], 3), ([1], 4), ([1, 2], 3)] fun _ _ => Set.mem_univ _).1
  constructor
  · rw [hmem]
    refine ⟨⟨([1], 4), by simp, rfl⟩, fun e he hk _ => ?_⟩
    simp only [List.mem_cons, List.not_mem_nil, or_false] at he
    rcases he with rfl | rfl | rfl
    · exact absurd hk (by decide)
    · rfl
    · exact absurd hk (by decide)
  · rw [hmem]
    rintro ⟨-, hmax⟩
    exact absurd (hmax ([1], 4) (by simp) (by decide) (by decide)) (by decide)

end

end PdnStore.Ranger

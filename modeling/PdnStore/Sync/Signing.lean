import PdnStore.Sync.Entry

/-!
# The bytes an entry is signed and fingerprinted by (sync.rs:1006-1063, 1163-1174, 1454-1459)

The fields are written one after the other with nothing between them, and only the key has no fixed width.
Its head and its tail do: the identifier starts with 64 bytes of namespace and author, and whatever follows
it has a fixed length, so the bytes can be taken apart from the end.

| here | there |
| --- | --- |
| `Entry.encode`, `Entry.toVec` | `Entry::encode`, `Entry::to_vec` (`sync.rs:1163-1174`) |
| `EntrySignature.verify`       | `EntrySignature::verify` (`sync.rs:1053`); `check` is `PublicKey::verify` of iroh |
| `fingerprintBytes`            | what `as_fingerprint` feeds the hasher (`sync.rs:1006-1014`) |
-/

namespace PdnStore

open Ranger

/-- `RecordIdentifier::encode` (sync.rs:1290). -/
def RecordIdentifier.encode (id : RecordIdentifier) (out : Bytes) : Bytes := out ++ id.bytes

/-- `Record::encode` (sync.rs:1455). -/
def Record.encode (r : Record) (out : Bytes) : Bytes :=
  out ++ r.len.toBeBytes ++ r.hash.val ++ r.timestamp.toBeBytes

/-- `Entry::encode` (sync.rs:1164). -/
def Entry.encode (e : Entry) (out : Bytes) : Bytes := e.record.encode (e.id.encode out)

/-- `Entry::to_vec` (sync.rs:1170). -/
def Entry.toVec (e : Entry) : Bytes := e.encode []

section Verify

variable {PublicKey SignatureError : Type} (check : PublicKey → Bytes → ByteArrayN 64 → Except SignatureError Unit)

/-- `EntrySignature::verify` (sync.rs:1056). -/
def EntrySignature.verify (signature : EntrySignature) (entry : Entry) (ns author : PublicKey) :
    Except SignatureError Unit := do
  let bytes := entry.toVec
  check ns bytes signature.namespaceSignature
  check author bytes signature.authorSignature

theorem EntrySignature.verify_eq_ok {signature : EntrySignature} {entry : Entry} {ns author : PublicKey} :
    signature.verify check entry ns author = .ok () ↔
      check ns entry.toVec signature.namespaceSignature = .ok () ∧
      check author entry.toVec signature.authorSignature = .ok () := by
  simp only [EntrySignature.verify, bind, Except.bind]
  cases check ns entry.toVec signature.namespaceSignature with
  | error e => simp
  | ok u => simp

end Verify

/-- What `as_fingerprint` hashes (sync.rs:1006). -/
def SignedEntry.fingerprintBytes (e : SignedEntry) : Bytes :=
  e.id.namespace.val ++ e.id.author.val ++ e.id.key ++ e.record.timestamp.toBeBytes ++ e.record.hash.val

theorem asFingerprint_eq [Blake3] (e : SignedEntry) : asFingerprint e = Blake3.hash e.fingerprintBytes := rfl

/-! ## Taking the bytes apart -/

@[simp] theorem U64.length_toBeBytes (n : U64) : n.toBeBytes.length = 8 := by simp [U64.toBeBytes]

/-- A number is its digits. -/
theorem eq_of_digits {b : Nat} (k : Nat) {n m : Nat} (hn : n < b ^ k) (hm : m < b ^ k)
    (h : ∀ i < k, n / b ^ i % b = m / b ^ i % b) : n = m := by
  induction k generalizing n m with
  | zero =>
    rw [pow_zero] at hn hm
    omega
  | succ k ih =>
    have hlast : n % b = m % b := by simpa using h 0 (Nat.succ_pos k)
    have hrest : n / b = m / b := by
      refine ih (Nat.div_lt_of_lt_mul (by rwa [← pow_succ'])) (Nat.div_lt_of_lt_mul (by rwa [← pow_succ'])) ?_
      intro i hi
      rw [Nat.div_div_eq_div_mul, Nat.div_div_eq_div_mul, ← pow_succ']
      exact h (i + 1) (Nat.succ_lt_succ hi)
    rw [← Nat.div_add_mod n b, ← Nat.div_add_mod m b, hlast, hrest]

theorem U64.toBeBytes_injective {n m : U64} (h : n.toBeBytes = m.toBeBytes) : n = m := by
  apply Fin.ext
  refine eq_of_digits (b := 256) 8 n.isLt m.isLt ?_
  intro i hi
  have hdigit := congrArg (fun bytes : Bytes => (bytes.getD (7 - i) 0).val) h
  have hle : i ≤ 7 := by omega
  have hlt : 7 - i < 8 := by omega
  simpa [U64.toBeBytes, Fin.ofNat, hlt, Nat.sub_sub_self hle] using hdigit

theorem Entry.toVec_eq (e : Entry) :
    e.toVec = e.id.bytes ++ e.record.len.toBeBytes ++ e.record.hash.val ++ e.record.timestamp.toBeBytes := rfl

/-- The record is the last 48 bytes, the identifier what comes before them. -/
theorem Entry.toVec_injective {e e' : Entry} (h : e.toVec = e'.toVec) : e = e' := by
  rw [Entry.toVec_eq, Entry.toVec_eq] at h
  obtain ⟨h, htimestamp⟩ := List.append_inj' h (by simp)
  obtain ⟨h, hhash⟩ := List.append_inj' h (by rw [e.record.hash.2, e'.record.hash.2])
  obtain ⟨hid, hlen⟩ := List.append_inj' h (by simp)
  have hid : e.id = e'.id := by
    cases hid₁ : e.id
    cases hid₂ : e'.id
    simpa [hid₁, hid₂] using hid
  have hrecord : e.record = e'.record := by
    cases hr₁ : e.record
    cases hr₂ : e'.record
    simp only [hr₁, hr₂] at hlen hhash htimestamp
    rw [U64.toBeBytes_injective hlen, Subtype.ext hhash, U64.toBeBytes_injective htimestamp]
  cases e
  cases e'
  cases hid
  cases hrecord
  rfl

theorem SignedEntry.fingerprintBytes_eq (e : SignedEntry) :
    e.fingerprintBytes = e.id.bytes ++ e.record.timestamp.toBeBytes ++ e.record.hash.val := by
  rw [fingerprintBytes, RecordIdentifier.bytes_eq e.id]

theorem SignedEntry.fingerprintBytes_inj {e e' : SignedEntry} (h : e.fingerprintBytes = e'.fingerprintBytes) :
    e.id = e'.id ∧ e.record.timestamp = e'.record.timestamp ∧ e.record.hash = e'.record.hash := by
  rw [fingerprintBytes_eq, fingerprintBytes_eq] at h
  obtain ⟨h, hhash⟩ := List.append_inj' h (by rw [e.record.hash.2, e'.record.hash.2])
  obtain ⟨hid, htimestamp⟩ := List.append_inj' h (by simp)
  refine ⟨?_, U64.toBeBytes_injective htimestamp, Subtype.ext hhash⟩
  cases hid₁ : e.id
  cases hid₂ : e'.id
  simpa [hid₁, hid₂] using hid

/-! ## The bytes determine the entry -/

/-- **The signed bytes determine the entry**: a signature that verifies two entries is one that the check itself accepts
for two messages, under either key. The bytes under a fingerprint determine all but the content length. -/
theorem signed_bytes_determine_entry :
    (∀ e e' : Entry, e.toVec = e'.toVec ↔
      e.id.namespace = e'.id.namespace ∧ e.id.author = e'.id.author ∧ e.id.key = e'.id.key ∧
      e.record.len = e'.record.len ∧ e.record.hash = e'.record.hash ∧
      e.record.timestamp = e'.record.timestamp) ∧
    (∀ {PublicKey SignatureError : Type}
      (check : PublicKey → Bytes → ByteArrayN 64 → Except SignatureError Unit)
      (signature : EntrySignature) (e e' : Entry) (ns author : PublicKey), e ≠ e' →
        signature.verify check e ns author = .ok () → signature.verify check e' ns author = .ok () →
        ∃ message message', message ≠ message' ∧
          check ns message signature.namespaceSignature = .ok () ∧
          check ns message' signature.namespaceSignature = .ok () ∧
          check author message signature.authorSignature = .ok () ∧
          check author message' signature.authorSignature = .ok ()) ∧
    (∀ [Blake3] (e : SignedEntry), asFingerprint e = Blake3.hash e.fingerprintBytes) ∧
    ∀ e e' : SignedEntry, e.fingerprintBytes = e'.fingerprintBytes ↔
      e.id.namespace = e'.id.namespace ∧ e.id.author = e'.id.author ∧ e.id.key = e'.id.key ∧
      e.record.timestamp = e'.record.timestamp ∧ e.record.hash = e'.record.hash := by
  refine ⟨fun e e' => ⟨fun h => ?_, ?_⟩, ?_, asFingerprint_eq, fun e e' => ⟨fun h => ?_, ?_⟩⟩
  · obtain rfl := Entry.toVec_injective h
    exact ⟨rfl, rfl, rfl, rfl, rfl, rfl⟩
  · rintro ⟨hns, hauthor, hkey, hlen, hhash, htimestamp⟩
    rw [Entry.toVec_eq, Entry.toVec_eq, RecordIdentifier.ext hns hauthor hkey, hlen, hhash, htimestamp]
  · intro PublicKey SignatureError check signature e e' ns author hne he he'
    rw [EntrySignature.verify_eq_ok] at he he'
    exact ⟨e.toVec, e'.toVec, fun h => hne (Entry.toVec_injective h), he.1, he'.1, he.2, he'.2⟩
  · obtain ⟨hid, htimestamp, hhash⟩ := SignedEntry.fingerprintBytes_inj h
    rw [hid]
    exact ⟨rfl, rfl, rfl, htimestamp, hhash⟩
  · rintro ⟨hns, hauthor, hkey, htimestamp, hhash⟩
    rw [SignedEntry.fingerprintBytes, SignedEntry.fingerprintBytes, hns, hauthor, hkey, htimestamp, hhash]

/-- An entry whose key is the eight bytes of a length. -/
def lengthKeyed : Entry := ⟨.new zeros32 zeros32 (List.replicate 8 0), ⟨1, Hash.EMPTY, 2⟩⟩

/-- The same, with the bytes of the key read as the length. -/
def keyDropped : Entry := ⟨.new zeros32 zeros32 [], ⟨0, Hash.EMPTY, 2⟩⟩

/-- A check that looks at how a message ends. -/
def looksAtTheEnd (_ : Unit) (message : Bytes) (signature : ByteArrayN 64) : Except Unit Unit :=
  if message.drop (message.length - 40) = signature.val.take 40 then .ok () else .error ()

/-- What it accepts for both entries: the hash and the timestamp they have in common. -/
def endSignature : ByteArrayN 64 :=
  ⟨Hash.EMPTY.val ++ (2 : U64).toBeBytes ++ List.replicate 24 0, by decide⟩

theorem signed_bytes_determine_entry_keyDropped :
    lengthKeyed.toVec ≠ keyDropped.toVec ∧
    (⟨endSignature, endSignature⟩ : EntrySignature).verify looksAtTheEnd lengthKeyed () () = .ok () ∧
    (⟨endSignature, endSignature⟩ : EntrySignature).verify looksAtTheEnd keyDropped () () = .ok () ∧
    ∃ message message', message ≠ message' ∧ looksAtTheEnd () message endSignature = .ok () ∧
      looksAtTheEnd () message' endSignature = .ok () := by
  have hends : ∀ e ∈ [lengthKeyed, keyDropped],
      (⟨endSignature, endSignature⟩ : EntrySignature).verify looksAtTheEnd e () () = .ok () := by
    decide +kernel
  have hkeyed := hends lengthKeyed (by decide)
  have hdropped := hends keyDropped (by decide)
  refine ⟨fun h => ?_, hkeyed, hdropped, ?_⟩
  · obtain ⟨-, -, hkey, -⟩ := (signed_bytes_determine_entry.1 lengthKeyed keyDropped).1 h
    exact absurd hkey (by decide)
  · obtain ⟨message, message', hne, h, h', -⟩ := signed_bytes_determine_entry.2.1 looksAtTheEnd
      ⟨endSignature, endSignature⟩ lengthKeyed keyDropped () () (by decide) hkeyed hdropped
    exact ⟨message, message', hne, h, h'⟩

end PdnStore

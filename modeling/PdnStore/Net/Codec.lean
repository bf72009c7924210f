import PdnStore.Lib.Framing
import PdnStore.Net.Accept

/-!
# The frames of a sync stream (net/codec.rs:21-69)

A message travels as four bytes of length, big-endian, and its postcard bytes.

| here | there |
| --- | --- |
| `Postcard Message` | the `postcard` crate; `serializedSize` is the `Size` flavor (`codec.rs:53`) |
| `decode`        | `SyncCodec::decode` (`codec.rs:31`): the answer, and the buffer afterwards |
| `encode`        | `SyncCodec::encode` (`codec.rs:52`): `put_u32` appends, `to_slice` writes from offset 4 on |
| `deliver`       | `FramedRead`: `decode` until it yields nothing, after each chunk |

The decoder takes the frames of fitting messages off the stream under any chunking
(`frames_decode_under_any_chunking`). The encoder appends its header at the end of the buffer and writes the
body at its beginning, so it appends a frame to an empty buffer only (`encoder_appends_iff`).
-/

namespace PdnStore.Net

open Framing

/-- `MAX_MESSAGE_SIZE` (codec.rs:22). -/
def MAX_MESSAGE_SIZE : Nat := 1024 * 1024 * 1024

/-- `u32::to_be_bytes`. -/
def u32ToBeBytes (n : Nat) : Bytes :=
  [Fin.ofNat 256 (n / 2 ^ 24), Fin.ofNat 256 (n / 2 ^ 16), Fin.ofNat 256 (n / 2 ^ 8), Fin.ofNat 256 n]

/-- `u32::from_be_bytes`. -/
def u32FromBeBytes (bytes : Bytes) : Nat := bytes.foldl (fun n b => n * 256 + b.val) 0

namespace SyncCodec

variable [Postcard Message]

/-- `SyncCodec::decode` (codec.rs:27). -/
def decode (src : Bytes) : Except String (Option Message) × Bytes :=
  if src.length < 4 then (.ok none, src)
  else
    let frameLen := u32FromBeBytes (src.take 4)
    if MAX_MESSAGE_SIZE < frameLen then
      (.error s!"received message that is too large: {frameLen}", src)
    else if src.length < 4 + frameLen then (.ok none, src)
    else match Postcard.fromBytes ((src.take (4 + frameLen)).drop 4) with
      | .error err => (.error err, src)
      | .ok message => (.ok (some message), src.drop (4 + frameLen))

/-- `SyncCodec::encode` (codec.rs:51). -/
def encode (item : Message) (dst : Bytes) : Except String Unit × Bytes :=
  let len := Postcard.serializedSize item
  if MAX_MESSAGE_SIZE < len then
    (.error s!"attempting to send message that is too large {len}", dst)
  else
    let dst := dst ++ u32ToBeBytes len
    let dst := if dst.length < 4 + len then dst ++ List.replicate (4 + len - dst.length) 0 else dst
    -- `to_slice(&item, &mut dst[4..])`
    (.ok (), dst.take 4 ++ Postcard.toBytes item ++ dst.drop (4 + len))

end SyncCodec

/-! ## The length -/

@[simp] theorem length_u32ToBeBytes (n : Nat) : (u32ToBeBytes n).length = 4 := rfl

theorem u32FromBeBytes_toBeBytes {n : Nat} (h : n < 2 ^ 32) : u32FromBeBytes (u32ToBeBytes n) = n := by
  simp only [u32FromBeBytes, u32ToBeBytes, List.foldl_cons, List.foldl_nil, Fin.val_ofNat]
  omega

namespace SyncCodec

variable [Postcard Message]

/-- The message is not too large. -/
def Fits (m : Message) : Prop := (Postcard.toBytes m).length ≤ MAX_MESSAGE_SIZE

instance (m : Message) : Decidable (Fits m) := inferInstanceAs (Decidable (_ ≤ _))

/-- Four bytes of length, then the postcard bytes. -/
def frame (m : Message) : Bytes := u32ToBeBytes (Postcard.toBytes m).length ++ Postcard.toBytes m

/-- The buffer holds the length of a frame, and that many bytes after it. -/
def HoldsFrame (buf : Bytes) : Prop := 4 ≤ buf.length ∧ 4 + u32FromBeBytes (buf.take 4) ≤ buf.length

variable {m : Message}

theorem length_frame (m : Message) : (frame m).length = 4 + (Postcard.toBytes m).length := by
  rw [frame, List.length_append, length_u32ToBeBytes]

theorem u32FromBeBytes_frame (hfit : Fits m) : u32FromBeBytes ((frame m).take 4) = (Postcard.toBytes m).length := by
  have hlt : (Postcard.toBytes m).length < 2 ^ 32 := by
    have : (Postcard.toBytes m).length ≤ 1024 * 1024 * 1024 := hfit
    omega
  rw [frame, List.take_append_of_le_length (by simp), List.take_of_length_le (by simp),
    u32FromBeBytes_toBeBytes hlt]

/-- What begins a frame and has its length bytes, has its length. -/
theorem u32FromBeBytes_of_begins {buf t : Bytes} (hfit : Fits m) (hlen : 4 ≤ buf.length)
    (h : buf <+: frame m ++ t) : u32FromBeBytes (buf.take 4) = (Postcard.toBytes m).length := by
  have htake : buf.take 4 = (frame m).take 4 := by
    obtain ⟨tail, htail⟩ := h
    have hb : (buf ++ tail).take 4 = buf.take 4 := List.take_append_of_le_length hlen
    have hf : (frame m ++ t).take 4 = (frame m).take 4 :=
      List.take_append_of_le_length (by rw [length_frame]; omega)
    rw [← hb, htail, hf]
  rw [htake, u32FromBeBytes_frame hfit]

theorem holdsFrame_frame (hfit : Fits m) (rest : Bytes) : HoldsFrame (frame m ++ rest) := by
  have hlen : 4 ≤ (frame m ++ rest).length := by
    rw [List.length_append, length_frame]
    omega
  refine ⟨hlen, ?_⟩
  rw [u32FromBeBytes_of_begins hfit hlen List.prefix_rfl, List.length_append, length_frame]
  omega

theorem not_holdsFrame_part (hfit : Fits m) {buf : Bytes} (hpart : buf <+: frame m) (hne : buf ≠ frame m) :
    ¬ HoldsFrame buf := by
  rintro ⟨hfour, hlen⟩
  have hshort := hpart.length_le
  have heq := u32FromBeBytes_of_begins (t := []) hfit hfour (by rwa [List.append_nil])
  rw [heq] at hlen
  rw [length_frame] at hshort
  exact hne (hpart.eq_of_length (by rw [length_frame]; omega))

/-! ## Decoding -/

theorem decode_of_length {buf : Bytes} (h : 4 ≤ buf.length) {n : Nat} (hn : u32FromBeBytes (buf.take 4) = n)
    (hmax : n ≤ MAX_MESSAGE_SIZE) : decode buf =
      if buf.length < 4 + n then (.ok none, buf)
      else match Postcard.fromBytes ((buf.take (4 + n)).drop 4) with
        | .error err => (.error err, buf)
        | .ok message => (.ok (some message), buf.drop (4 + n)) := by
  subst hn
  simp only [decode, if_neg (Nat.not_lt.2 h), if_neg (Nat.not_lt.2 hmax)]

/-- A length above the limit is refused once it is there. -/
theorem decode_tooLarge {buf : Bytes} (h : 4 ≤ buf.length)
    (hmax : MAX_MESSAGE_SIZE < u32FromBeBytes (buf.take 4)) :
    decode buf = (.error s!"received message that is too large: {u32FromBeBytes (buf.take 4)}", buf) := by
  simp only [decode, if_neg (Nat.not_lt.2 h), if_pos hmax]

/-- The decoder takes the frame of a fitting message that postcard reads back. -/
theorem takes_frame (hfit : Fits m) (hpost : Postcard.fromBytes (Postcard.toBytes m) = .ok m) :
    Takes decode frame m where
  whole rest := by
    have hlen : 4 ≤ (frame m ++ rest).length := by
      rw [List.length_append, length_frame]
      omega
    have hbody : ((frame m ++ rest).take (4 + (Postcard.toBytes m).length)).drop 4 = Postcard.toBytes m := by
      rw [← length_frame, List.take_left, frame, List.drop_append_of_le_length (by simp)]
      rfl
    rw [decode_of_length hlen (u32FromBeBytes_of_begins hfit hlen List.prefix_rfl) hfit, if_neg, hbody, hpost]
    · simp only [← length_frame, List.drop_left]
    · rw [List.length_append, length_frame]
      omega
  waits buf hpart hne := by
    by_cases hfour : buf.length < 4
    · simp only [decode, if_pos hfour]
    · have hfour : 4 ≤ buf.length := Nat.not_lt.1 hfour
      have heq := u32FromBeBytes_of_begins (t := []) hfit hfour (by rwa [List.append_nil])
      have hno := not_holdsFrame_part hfit hpart hne
      rw [HoldsFrame, heq] at hno
      rw [decode_of_length hfour heq hfit, if_pos (by omega)]
  pos := by
    rw [length_frame]
    omega

/-! ## Encoding -/

theorem encode_tooLarge (hlarge : ¬ Fits m) (dst : Bytes) : encode m dst =
    (.error s!"attempting to send message that is too large {(Postcard.toBytes m).length}", dst) :=
  if_pos (Nat.lt_of_not_le hlarge)

/-- The buffer with the header at its end, filled up to the length of one frame. -/
def withHeader (m : Message) (dst : Bytes) : Bytes :=
  dst ++ u32ToBeBytes (Postcard.toBytes m).length ++
    List.replicate (4 + (Postcard.toBytes m).length - (dst.length + 4)) 0

theorem length_withHeader (m : Message) (dst : Bytes) :
    (withHeader m dst).length = max (dst.length + 4) (4 + (Postcard.toBytes m).length) := by
  simp only [withHeader, List.length_append, List.length_replicate, length_u32ToBeBytes]
  omega

theorem encode_of_fits (hfit : Fits m) (dst : Bytes) : encode m dst = (.ok (),
    (withHeader m dst).take 4 ++ Postcard.toBytes m ++ (withHeader m dst).drop (4 + (Postcard.toBytes m).length)) := by
  -- filling up is conditional in the source, and nothing where the condition fails
  have hfill : ∀ (d : Bytes) (n : Nat),
      (if d.length < n then d ++ List.replicate (n - d.length) 0 else d) = d ++ List.replicate (n - d.length) 0 := by
    intro d n
    split
    · rfl
    · rename_i hle
      rw [Nat.sub_eq_zero_of_le (Nat.not_lt.1 hle), List.replicate_zero, List.append_nil]
  have hlen : (dst ++ u32ToBeBytes (Postcard.toBytes m).length).length = dst.length + 4 := by
    rw [List.length_append, length_u32ToBeBytes]
  have hsize : ¬ MAX_MESSAGE_SIZE < Postcard.serializedSize m := Nat.not_lt.2 hfit
  simp only [encode, if_neg hsize, hfill]
  simp only [withHeader, Postcard.serializedSize, hlen]

/-- The buffer grows to its header at the end or its body from offset 4 on, whichever ends later. -/
theorem length_encode (hfit : Fits m) (dst : Bytes) :
    (encode m dst).2.length = max (dst.length + 4) (4 + (Postcard.toBytes m).length) := by
  have hlen := length_withHeader m dst
  rw [encode_of_fits hfit]
  simp only [List.length_append, List.length_take, List.length_drop]
  omega

/-- In an empty buffer the end is offset 0, and the beginning of the body is where the header ends. -/
theorem encode_nil (hfit : Fits m) : encode m [] = (.ok (), frame m) := by
  have hlen : (withHeader m []).length = 4 + (Postcard.toBytes m).length := by
    rw [length_withHeader, List.length_nil]
    omega
  have hheader : (withHeader m []).take 4 = u32ToBeBytes (Postcard.toBytes m).length := by
    rw [withHeader, List.nil_append, List.take_append_of_le_length (by simp), List.take_of_length_le (by simp)]
  rw [encode_of_fits hfit, hheader, List.drop_of_length_le hlen.le, List.append_nil, frame]

/-! ## Chunks -/

/-- **Frames decode under any chunking** (codec.rs:31): of the frames of fitting messages, however they are
cut, the decoder takes those that are there in full and leaves the rest, waits exactly on less than a frame,
and never fails; and it refuses a length above the limit as soon as it is there. -/
theorem frames_decode_under_any_chunking (ms : List Message) (hfit : ∀ m ∈ ms, Fits m)
    (hpost : ∀ m ∈ ms, Postcard.fromBytes (Postcard.toBytes m) = .ok m) (chunks : List Bytes)
    (hchunks : chunks.flatten = (ms.map fun m => (encode m []).2).flatten) :
    (messages (deliver decode [] chunks).1 = ms ∧ (deliver decode [] chunks).2 = []) ∧
    (∀ done rest, chunks = done ++ rest →
      ∃ k, messages (deliver decode [] done).1 = ms.take k ∧
        done.flatten = ((ms.take k).map fun m => (encode m []).2).flatten ++ (deliver decode [] done).2 ∧
        ∀ m, ms[k]? = some m → (deliver decode [] done).2.length < (encode m []).2.length) ∧
    (∀ c ∈ (deliver decode [] chunks).1,
      (∃ answer, c.answer = .ok answer) ∧ (c.answer = .ok none ↔ ¬ HoldsFrame c.before) ∧
      (c.answer = .ok none → c.after = c.before)) ∧
    ∀ buf : Bytes, 4 ≤ buf.length → MAX_MESSAGE_SIZE < u32FromBeBytes (buf.take 4) →
      decode buf = (.error s!"received message that is too large: {u32FromBeBytes (buf.take 4)}", buf) := by
  have henc : ∀ k, ((ms.take k).map fun m => (encode m []).2).flatten = frames frame (ms.take k) := by
    intro k
    refine congrArg List.flatten (List.map_congr_left fun m hm => ?_)
    rw [encode_nil (hfit m (List.mem_of_mem_take hm))]
  have htakes : ∀ m ∈ ms, Takes decode frame m := fun m hm => takes_frame (hfit m hm) (hpost m hm)
  have hall : chunks.flatten = frames frame ms := by
    have h := henc ms.length
    rwa [List.take_length, ← hchunks] at h
  have hdeliver : ∀ done rest, chunks = done ++ rest →
      ∃ k, Delivered frame ms done.flatten k (deliver decode [] done) := by
    rintro done rest rfl
    have hnil : decode [] = (.ok none, []) := rfl
    have hbegins : [] ++ done.flatten <+: frames frame ms := by
      rw [← hall, List.flatten_append]
      exact List.prefix_append ..
    exact deliver_frames hnil htakes (waiting_nil htakes) hbegins
  obtain ⟨k, hk⟩ := hdeliver chunks [] (by rw [List.append_nil])
  refine ⟨?_, ?_, ?_, fun buf => decode_tooLarge⟩
  · rw [hall] at hk
    exact hk.all
  · intro done rest hsplit
    obtain ⟨k, hk⟩ := hdeliver done rest hsplit
    refine ⟨k, hk.took, by rw [henc]; exact hk.left, fun m hm => ?_⟩
    rw [encode_nil (hfit m (List.mem_of_getElem? hm))]
    exact hk.waiting.short m (by rwa [List.head?_drop])
  · intro c hc
    cases hk.calls c hc with
    | took m hm rest =>
      exact ⟨⟨_, rfl⟩, iff_of_false (by simp) (not_not.2 (holdsFrame_frame (hfit m hm) rest)), by simp⟩
    | waited buf hbuf =>
      refine ⟨⟨_, rfl⟩, iff_of_true rfl ?_, fun _ => rfl⟩
      rcases hbuf with rfl | ⟨m, hm, hpart, hne⟩
      · rintro ⟨hfour, -⟩
        cases hfour
      · exact not_holdsFrame_part (hfit m hm) hpart hne

/-! ## Encoding into a buffer that is not empty -/

/-- Encode the messages one after the other into the same buffer. -/
def encodeAll (p : Bytes) (ms : List Message) : Bytes := ms.foldl (fun dst m => (encode m dst).2) p

/-- The messages that are not too large. -/
def fitting (ms : List Message) : List Message := ms.filter (Fits ·)

/-- The encoder appends: the buffer is `p` and the frames of the messages that are not too large, what
follows `p` decodes to them, and the others leave the buffer alone. -/
structure Appends (p : Bytes) (ms : List Message) : Prop where
  buffer : encodeAll p ms = p ++ frames frame (fitting ms)
  decodes : messages (deliver decode [] [(encodeAll p ms).drop p.length]).1 = fitting ms ∧
    (deliver decode [] [(encodeAll p ms).drop p.length]).2 = []
  refused : ∀ m ∈ ms, ¬ Fits m → ∀ dst, (encode m dst).2 = dst

variable {p : Bytes} {ms : List Message}

@[simp] theorem encodeAll_nil : encodeAll p [] = p := rfl

@[simp] theorem fitting_nil : fitting [] = [] := rfl

theorem fitting_cons_of_fits (hfit : Fits m) : fitting (m :: ms) = m :: fitting ms :=
  List.filter_cons_of_pos (by simpa using hfit)

theorem fitting_cons_of_large (hlarge : ¬ Fits m) : fitting (m :: ms) = fitting ms :=
  List.filter_cons_of_neg (by simpa using hlarge)

theorem mem_fitting : m ∈ fitting ms ↔ m ∈ ms ∧ Fits m := by simp [fitting]

theorem encodeAll_cons : encodeAll p (m :: ms) = encodeAll (encode m p).2 ms := rfl

theorem encodeAll_cons_of_large (hlarge : ¬ Fits m) : encodeAll p (m :: ms) = encodeAll p ms := by
  rw [encodeAll_cons, encode_tooLarge hlarge]

/-- The buffer never grows by more than the frames. -/
theorem length_encodeAll_le (p : Bytes) (ms : List Message) :
    (encodeAll p ms).length ≤ p.length + (frames frame (fitting ms)).length := by
  induction ms generalizing p with
  | nil => simp
  | cons m ms ih =>
    by_cases hfit : Fits m
    · have hle := ih (encode m p).2
      rw [length_encode hfit] at hle
      rw [encodeAll_cons, fitting_cons_of_fits hfit, frames_cons, List.length_append, length_frame]
      omega
    · rw [encodeAll_cons_of_large hfit, fitting_cons_of_large hfit]
      exact ih p

/-- It falls short of them once a body lands before its header. -/
theorem length_encodeAll_lt (hbody : ∀ m ∈ ms, Postcard.toBytes m ≠ []) (hp : p ≠ [])
    (hsome : fitting ms ≠ []) : (encodeAll p ms).length < p.length + (frames frame (fitting ms)).length := by
  induction ms with
  | nil => exact absurd rfl hsome
  | cons m ms ih =>
    by_cases hfit : Fits m
    · have hle := length_encodeAll_le (encode m p).2 ms
      have hpos := List.length_pos_iff.2 hp
      have hlen := List.length_pos_iff.2 (hbody m (.head _))
      rw [length_encode hfit] at hle
      rw [encodeAll_cons, fitting_cons_of_fits hfit, frames_cons, List.length_append, length_frame]
      omega
    · rw [fitting_cons_of_large hfit] at hsome ⊢
      rw [encodeAll_cons_of_large hfit]
      exact ih (fun m' hm' => hbody m' (.tail _ hm')) hsome

theorem encodeAll_of_none_fits (h : fitting ms = []) : encodeAll p ms = p := by
  induction ms with
  | nil => rfl
  | cons m ms ih =>
    have hlarge : ¬ Fits m := fun hfit => List.not_mem_nil (h ▸ mem_fitting.2 ⟨.head _, hfit⟩)
    rw [fitting_cons_of_large hlarge] at h
    rw [encodeAll_cons_of_large hlarge, ih h]

/-- The first message that fits is framed as it should be; after it the buffer is not empty. -/
theorem encodeAll_nil_of_fits {rest : List Message} (h : fitting ms = m :: rest) :
    ∃ ms', encodeAll [] ms = encodeAll (frame m) ms' ∧ fitting ms' = rest ∧ ms' ⊆ ms := by
  induction ms with
  | nil => cases h
  | cons m' ms ih =>
    by_cases hfit : Fits m'
    · rw [fitting_cons_of_fits hfit, List.cons.injEq] at h
      obtain ⟨rfl, hrest⟩ := h
      exact ⟨ms, by rw [encodeAll_cons, encode_nil hfit], hrest, List.subset_cons_self ..⟩
    · rw [fitting_cons_of_large hfit] at h
      obtain ⟨ms', hall, hrest, hsub⟩ := ih h
      exact ⟨ms', by rw [encodeAll_cons_of_large hfit, hall], hrest, List.subset_cons_of_subset _ hsub⟩

/-- The buffer is right if nothing is framed, or one message into an empty buffer. -/
theorem encodeAll_eq_iff (hbody : ∀ m ∈ ms, Postcard.toBytes m ≠ []) :
    encodeAll p ms = p ++ frames frame (fitting ms) ↔
      fitting ms = [] ∨ (p = [] ∧ (fitting ms).length = 1) := by
  cases hfits : fitting ms with
  | nil => simp [encodeAll_of_none_fits hfits]
  | cons m rest =>
    by_cases hp : p = []
    · subst hp
      obtain ⟨ms', hall, rfl, hsub⟩ := encodeAll_nil_of_fits hfits
      rw [hall, List.nil_append, frames_cons]
      cases hrest : fitting ms' with
      | nil => simp [encodeAll_of_none_fits hrest]
      | cons m' rest' =>
        have hne : frame m ≠ [] := List.length_pos_iff.1 (by rw [length_frame]; omega)
        have hlt := length_encodeAll_lt (fun m hm => hbody m (hsub hm)) hne (by rw [hrest]; simp)
        refine iff_of_false (fun heq => ?_) (by simp)
        rw [heq, hrest, List.length_append] at hlt
        omega
    · have hlt := length_encodeAll_lt hbody hp (by rw [hfits]; simp)
      refine iff_of_false (fun heq => ?_) (by simp [hp])
      rw [heq, hfits, List.length_append] at hlt
      omega

/-- **When the encoder appends** (codec.rs:52): if nothing is framed, or one message into an empty buffer. -/
theorem encoder_appends_iff (p : Bytes) (ms : List Message)
    (hpost : ∀ m ∈ ms, Postcard.fromBytes (Postcard.toBytes m) = .ok m)
    (hbody : ∀ m ∈ ms, Postcard.toBytes m ≠ []) :
    Appends p ms ↔ fitting ms = [] ∨ (p = [] ∧ (fitting ms).length = 1) := by
  rw [← encodeAll_eq_iff hbody]
  refine ⟨Appends.buffer, fun hbuffer => ⟨hbuffer, ?_, ?_⟩⟩
  · rw [hbuffer, List.drop_left]
    have htakes : ∀ m ∈ fitting ms, Takes decode frame m := fun m hm =>
      takes_frame (mem_fitting.1 hm).2 (hpost m (mem_fitting.1 hm).1)
    have hnil : decode [] = (.ok none, []) := rfl
    have hbegins : [] ++ [frames frame (fitting ms)].flatten <+: frames frame (fitting ms) := by simp
    obtain ⟨k, hk⟩ := deliver_frames hnil htakes (waiting_nil htakes) hbegins
    rw [List.flatten_singleton, List.nil_append] at hk
    exact hk.all
  · intro m _ hlarge dst
    rw [encode_tooLarge hlarge]

end SyncCodec

/-! ## Two abort frames -/

section

/-- Postcard on abort messages: the index of the variant, then that of the reason. -/
local instance abortPostcard : Postcard Message where
  toBytes
    | .init .. => [0]
    | .sync _ => [1]
    | .abort .notFound => [2, 0]
    | .abort .alreadySyncing => [2, 1]
    | .abort .internalServerError => [2, 2]
  fromBytes
    | [2, 0] => .ok (.abort .notFound)
    | [2, 1] => .ok (.abort .alreadySyncing)
    | [2, 2] => .ok (.abort .internalServerError)
    | _ => .error "Hit the end of buffer, expected more data"

/-- Two frames, cut inside the first header, inside the second one, and before the last byte. -/
theorem frames_decode_under_any_chunking_sample :
    let chunks : List Bytes := [[0, 0], [0, 2, 2, 0, 0, 0], [0, 2, 2], [1]]
    messages (deliver SyncCodec.decode [] chunks).1 =
      [Message.abort .notFound, .abort .alreadySyncing] ∧ (deliver SyncCodec.decode [] chunks).2 = [] :=
  (SyncCodec.frames_decode_under_any_chunking [.abort .notFound, .abort .alreadySyncing]
    (by simp [SyncCodec.Fits, Postcard.toBytes, MAX_MESSAGE_SIZE]) (by simp [Postcard.toBytes, Postcard.fromBytes])
    [[0, 0], [0, 2, 2, 0, 0, 0], [0, 2, 2], [1]] (by decide)).1

/-- One frame into an empty buffer. -/
theorem encoder_appends_iff_sample : SyncCodec.Appends [] [.abort .notFound] :=
  (SyncCodec.encoder_appends_iff [] [.abort .notFound] (by simp [Postcard.toBytes, Postcard.fromBytes])
    (by simp [Postcard.toBytes])).2 (.inr ⟨rfl, by decide⟩)

/-- The body of the second frame is written over that of the first, and its own header has none. -/
theorem second_frame_overwrites_the_first :
    SyncCodec.encodeAll [] [.abort .notFound, .abort .alreadySyncing] = [0, 0, 0, 2, 2, 1, 0, 0, 0, 2] ∧
    ¬ SyncCodec.Appends [] [.abort .notFound, .abort .alreadySyncing] := by
  have hbytes : SyncCodec.encodeAll [] [.abort .notFound, .abort .alreadySyncing] =
    [0, 0, 0, 2, 2, 1, 0, 0, 0, 2] := by decide
  refine ⟨hbytes, fun happends => ?_⟩
  have hbuffer := happends.buffer
  rw [hbytes] at hbuffer
  exact absurd hbuffer (by decide)

end

end PdnStore.Net

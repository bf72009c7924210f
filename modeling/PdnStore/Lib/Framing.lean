import Mathlib.Data.List.Basic

/-!
# Decoders of framed streams

A decoder is called on a buffer that grows by chunks: it takes a message off the front, or waits for more,
or refuses the buffer. `drain` calls it until it takes nothing, and `deliver` does so after every chunk.

A decoder that takes each frame off whatever follows it, and waits on what is less than a frame (`Takes`),
gives the same messages however the frames were cut into chunks: after any number of chunks it has taken the
frames that are there in full and holds the rest (`deliver_frames`).
-/

namespace Framing

variable {α μ ε : Type*}

/-- One call of a decoder. -/
structure DecoderCall (α μ ε : Type*) where
  before : List α
  answer : Except ε (Option μ)
  after : List α

/-- Call the decoder until it takes no message, at most `n` times. -/
def drain (decode : List α → Except ε (Option μ) × List α) :
    Nat → List α → List (DecoderCall α μ ε) × List α
  | 0, buf => ([], buf)
  | n + 1, buf =>
    match decode buf with
    | (.ok (some m), buf') =>
      let (calls, rest) := drain decode n buf'
      (⟨buf, .ok (some m), buf'⟩ :: calls, rest)
    | (answer, buf') => ([⟨buf, answer, buf'⟩], buf')

/-- Append the chunks one by one, and drain the buffer after each. -/
def deliver (decode : List α → Except ε (Option μ) × List α) :
    List α → List (List α) → List (DecoderCall α μ ε) × List α
  | buf, [] => ([], buf)
  | buf, chunk :: chunks =>
    let (calls, buf) := drain decode ((buf ++ chunk).length + 1) (buf ++ chunk)
    let (calls', buf) := deliver decode buf chunks
    (calls ++ calls', buf)

/-- The messages the calls took. -/
def messages (calls : List (DecoderCall α μ ε)) : List μ :=
  calls.filterMap fun c => match c.answer with
    | .ok m => m
    | .error _ => none

@[simp] theorem messages_nil : messages ([] : List (DecoderCall α μ ε)) = [] := rfl

@[simp] theorem messages_append (cs cs' : List (DecoderCall α μ ε)) :
    messages (cs ++ cs') = messages cs ++ messages cs' := List.filterMap_append

@[simp] theorem messages_cons_some {buf buf' : List α} {m : μ} {cs : List (DecoderCall α μ ε)} :
    messages (⟨buf, .ok (some m), buf'⟩ :: cs) = m :: messages cs := rfl

@[simp] theorem messages_cons_none {buf buf' : List α} {cs : List (DecoderCall α μ ε)} :
    messages (⟨buf, .ok none, buf'⟩ :: cs) = messages cs := rfl

/-! ## Frames -/

/-- The decoder takes the frame of `m` off whatever follows it, and waits while it is not all there. -/
structure Takes (decode : List α → Except ε (Option μ) × List α) (frame : μ → List α) (m : μ) : Prop where
  whole : ∀ rest, decode (frame m ++ rest) = (.ok (some m), rest)
  waits : ∀ buf, buf <+: frame m → buf ≠ frame m → decode buf = (.ok none, buf)
  pos : 0 < (frame m).length

variable (frame : μ → List α)

/-- The frames of the messages, one after the other. -/
def frames (ms : List μ) : List α := (ms.map frame).flatten

/-- The buffer holds the beginning of the frames of `ms`, less than the first of them. -/
structure Waiting (ms : List μ) (buf : List α) : Prop where
  starts : buf <+: frames frame ms
  short : ∀ m ∈ ms.head?, buf.length < (frame m).length

/-- A call on a full frame that took it, or on less than one that left it. -/
inductive Proper (ms : List μ) : DecoderCall α μ ε → Prop
  | took (m : μ) (hm : m ∈ ms) (rest : List α) : Proper ms ⟨frame m ++ rest, .ok (some m), rest⟩
  | waited (buf : List α) (h : buf = [] ∨ ∃ m ∈ ms, buf <+: frame m ∧ buf ≠ frame m) :
      Proper ms ⟨buf, .ok none, buf⟩

/-- Of `input`, which begins the frames of `ms`, the first `k` frames were taken and the rest is left. -/
structure Delivered (ms : List μ) (input : List α) (k : Nat) (r : List (DecoderCall α μ ε) × List α) : Prop where
  took : messages r.1 = ms.take k
  left : input = frames frame (ms.take k) ++ r.2
  waiting : Waiting frame (ms.drop k) r.2
  calls : ∀ c ∈ r.1, Proper frame ms c

variable {frame}

@[simp] theorem frames_nil : frames frame [] = [] := rfl

@[simp] theorem frames_cons {m : μ} {ms : List μ} : frames frame (m :: ms) = frame m ++ frames frame ms := rfl

theorem frames_append {ms ms' : List μ} : frames frame (ms ++ ms') = frames frame ms ++ frames frame ms' := by
  simp [frames]

theorem frames_take_drop (ms : List μ) (k : Nat) :
    frames frame (ms.take k) ++ frames frame (ms.drop k) = frames frame ms := by
  rw [← frames_append, List.take_append_drop]

theorem Proper.mono {ms ms' : List μ} {c : DecoderCall α μ ε} (h : Proper frame ms c) (hsub : ms ⊆ ms') :
    Proper frame ms' c := by
  cases h with
  | took m hm rest => exact .took m (hsub hm) rest
  | waited buf hbuf =>
    refine .waited buf (hbuf.imp_right ?_)
    rintro ⟨m, hm, hpart⟩
    exact ⟨m, hsub hm, hpart⟩

variable {decode : List α → Except ε (Option μ) × List α} {ms : List μ} {buf : List α}

/-- A buffer that begins the frames of `m :: ms` holds that of `m`, or is less than it. -/
theorem begins_cases {m : μ} (h : buf <+: frames frame (m :: ms)) :
    (∃ rest, buf = frame m ++ rest ∧ rest <+: frames frame ms) ∨
    (buf <+: frame m ∧ buf.length < (frame m).length) := by
  rw [frames_cons] at h
  by_cases hlen : (frame m).length ≤ buf.length
  · obtain ⟨rest, rfl⟩ := List.prefix_of_prefix_length_le (List.prefix_append ..) h hlen
    exact .inl ⟨rest, rfl, (List.prefix_append_right_inj _).1 h⟩
  · have hlen : buf.length < (frame m).length := Nat.lt_of_not_le hlen
    exact .inr ⟨List.prefix_of_prefix_length_le h (List.prefix_append ..) (Nat.le_of_lt hlen), hlen⟩

/-- Draining takes the frames that are there in full. -/
theorem drain_frames (hnil : decode [] = (.ok none, [])) (hms : ∀ m ∈ ms, Takes decode frame m) {n : Nat}
    (hn : buf.length < n) (hbuf : buf <+: frames frame ms) :
    ∃ k, Delivered frame ms buf k (drain decode n buf) := by
  induction n generalizing ms buf with
  | zero => omega
  | succ n ih =>
    cases ms with
    | nil =>
      obtain rfl : buf = [] := List.prefix_nil.1 hbuf
      refine ⟨0, ?_⟩
      simp only [drain, hnil]
      exact ⟨rfl, rfl, ⟨List.prefix_rfl, by simp⟩, by simpa using .waited [] (.inl rfl)⟩
    | cons m ms =>
      have hm := hms m (.head _)
      rcases begins_cases hbuf with ⟨rest, rfl, hrest⟩ | ⟨hpart, hshort⟩
      · -- the frame of `m` is there
        have hpos := hm.pos
        rw [List.length_append] at hn
        obtain ⟨k, hk⟩ := ih (fun m' hm' => hms m' (.tail _ hm')) (by omega) hrest
        refine ⟨k + 1, ?_⟩
        simp only [drain, hm.whole]
        refine ⟨?_, ?_, hk.waiting, ?_⟩
        · simp [hk.took]
        · rw [List.take_succ_cons, frames_cons, List.append_assoc, ← hk.left]
        · rintro c (_ | ⟨_, hc⟩)
          · exact .took m (.head _) rest
          · exact (hk.calls c hc).mono (List.subset_cons_self ..)
      · -- it is not
        have hne : buf ≠ frame m := by
          rintro rfl
          omega
        refine ⟨0, ?_⟩
        simp only [drain, hm.waits buf hpart hne]
        refine ⟨rfl, rfl, ⟨hbuf, by simpa using hshort⟩, ?_⟩
        simpa using .waited buf (.inr ⟨m, .head _, hpart, hne⟩)

/-- **Chunks do not matter**: after each, the frames that are there in full were taken. -/
theorem deliver_frames (hnil : decode [] = (.ok none, [])) (hms : ∀ m ∈ ms, Takes decode frame m)
    (hwait : Waiting frame ms buf) {chunks : List (List α)} (h : buf ++ chunks.flatten <+: frames frame ms) :
      ∃ k, Delivered frame ms (buf ++ chunks.flatten) k (deliver decode buf chunks) := by
  induction chunks generalizing ms buf with
  | nil =>
    refine ⟨0, ?_⟩
    rw [List.flatten_nil, List.append_nil]
    exact ⟨rfl, rfl, hwait, by simp [deliver]⟩
  | cons chunk chunks ih =>
    rw [List.flatten_cons, ← List.append_assoc] at h ⊢
    obtain ⟨k, hk⟩ := drain_frames hnil hms (Nat.lt_succ_self _) ((List.prefix_append ..).trans h)
    rw [hk.left, List.append_assoc, ← frames_take_drop ms k, List.prefix_append_right_inj] at h
    obtain ⟨j, hj⟩ := ih (fun m hm => hms m (List.mem_of_mem_drop hm)) hk.waiting h
    refine ⟨k + j, ?_⟩
    simp only [deliver]
    refine ⟨?_, ?_, ?_, ?_⟩
    · rw [messages_append, hk.took, hj.took, List.take_add]
    · calc buf ++ chunk ++ chunks.flatten
          = frames frame (ms.take k) ++ (_ ++ chunks.flatten) := by rw [← List.append_assoc, ← hk.left]
        _ = frames frame (ms.take k) ++ (frames frame ((ms.drop k).take j) ++ _) := by rw [← hj.left]
        _ = frames frame (ms.take (k + j)) ++ _ := by rw [List.take_add, frames_append, List.append_assoc]
    · rw [← List.drop_drop]
      exact hj.waiting
    · intro c hc
      rcases List.mem_append.1 hc with hc | hc
      · exact hk.calls c hc
      · exact (hj.calls c hc).mono (List.drop_subset ..)

theorem waiting_nil (hms : ∀ m ∈ ms, Takes decode frame m) : Waiting frame ms [] where
  starts := List.nil_prefix
  short m hm := (hms m (List.mem_of_head? hm)).pos

/-- When everything has been delivered, everything was taken. -/
theorem Delivered.all {k : Nat} {r : List (DecoderCall α μ ε) × List α}
    (h : Delivered frame ms (frames frame ms) k r) : messages r.1 = ms ∧ r.2 = [] := by
  have hrest : r.2 = frames frame (ms.drop k) := by
    have hleft := h.left
    rw [← frames_take_drop ms k] at hleft
    exact (List.append_cancel_left hleft).symm
  cases hdrop : ms.drop k with
  | nil =>
    rw [hdrop, frames_nil] at hrest
    exact ⟨by rw [h.took, List.take_of_length_le (List.drop_eq_nil_iff.1 hdrop)], hrest⟩
  | cons m rest =>
    -- a full frame would be left
    have hshort := h.waiting.short m (by rw [hdrop]; rfl)
    rw [hrest, hdrop, frames_cons, List.length_append] at hshort
    omega

end Framing

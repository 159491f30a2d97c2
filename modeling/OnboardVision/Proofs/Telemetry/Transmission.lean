import OnboardVision.Proofs.Checksum.Rejection
import OnboardVision.Proofs.Telemetry.FrameBuffer

/-!
# Frames over the telemetry link

A sender writes one frame after the other into its buffer and sends what the count says.  The
decoder at the other end yields the messages of these frames.

* `Crsf.Buffer.place?`: a writer that puts a frame into its buffer part by part, each at a checked
  place.  `Crsf.Buffer.place?_eq` says that it always has a result, the one of `Crsf.place`.
* `Crsf.Decoder.feedAll_arrivals`: frames that are sent back to back come in one by one.

Main statement:

* `Crsf.sendings_arrive`: what is sent comes in, in its order and each message at the last byte of
  its frame, and writing a frame touches the counted bytes only.
-/

namespace OnboardVision

namespace Crsf

/-! ### Writing part by part -/

namespace Buffer

/-- Puts bytes onto the places from `start` on, if there are these places. -/
def patch? (buffer : List UInt8) (start : ℕ) (bytes : List UInt8) : Option (List UInt8) :=
  if start + bytes.length ≤ buffer.length then
    some (buffer.take start ++ bytes ++ buffer.drop (start + bytes.length))
  else none

theorem patch?_append (front old new back : List UInt8) (h : old.length = new.length) :
    patch? (front ++ (old ++ back)) front.length new = some (front ++ (new ++ back)) := by
  have hplaces : front.length + new.length ≤ (front ++ (old ++ back)).length := by
    simp only [List.length_append]
    omega
  have hback : (front ++ (old ++ back)).drop (front.length + new.length) = back := by
    rw [← List.append_assoc, ← h, ← List.length_append, List.drop_left]
  rw [patch?, if_pos hplaces, hback, List.take_left, List.append_assoc]

/-- Writes a frame at the start of a buffer: the sync byte, the length, the type, the payload, and
behind them the checksum of what then stands in the buffer. -/
def place? (buffer : List UInt8) (type : UInt8) (payload : List UInt8) :
    Option (ℕ × List UInt8) :=
  let length := payload.length + 2
  if maxLength < length ∨ buffer.length < length + 2 then some (0, buffer)
  else do
    let buffer ← patch? buffer 0 [sync]
    let buffer ← patch? buffer 1 [UInt8.ofNat length]
    let buffer ← patch? buffer 2 [type]
    let buffer ← patch? buffer 3 payload
    let content ← slice? buffer 2 (3 + payload.length)
    let buffer ← patch? buffer (3 + payload.length) [Checksum.ofBytes content]
    return (length + 2, buffer)

/-- A buffer with room for a frame has a place for each part of it. -/
theorem exists_places {buffer payload : List UInt8} (h : payload.length + 4 ≤ buffer.length) :
    ∃ b₀ b₁ b₂ old b₃ back, buffer = b₀ :: b₁ :: b₂ :: (old ++ b₃ :: back) ∧
      old.length = payload.length := by
  obtain ⟨b₀, b₁, b₂, rest, rfl⟩ : ∃ b₀ b₁ b₂ rest, buffer = b₀ :: b₁ :: b₂ :: rest := by
    match buffer, h with
    | b₀ :: b₁ :: b₂ :: rest, _ => exact ⟨b₀, b₁, b₂, rest, rfl⟩
  simp only [List.length_cons] at h
  have hlt : payload.length < rest.length := by omega
  refine ⟨b₀, b₁, b₂, rest.take payload.length, rest[payload.length],
    rest.drop (payload.length + 1), ?_, ?_⟩
  · rw [List.getElem_cons_drop, List.take_append_drop]
  · rw [List.length_take]
    omega

/-- A frame is written only if every part of it has its place. -/
theorem place?_eq (buffer : List UInt8) (type : UInt8) (payload : List UInt8) :
    place? buffer type payload = some (place buffer type payload) := by
  by_cases hsmall : maxLength < payload.length + 2 ∨ buffer.length < payload.length + 4
  · rw [place?, place, if_pos hsmall, if_pos hsmall]
  · rw [place?, place, if_neg hsmall, if_neg hsmall]
    rw [not_or, Nat.not_lt, Nat.not_lt] at hsmall
    obtain ⟨b₀, b₁, b₂, old, b₃, back, rfl, hold⟩ := exists_places hsmall.2
    set l := UInt8.ofNat (payload.length + 2)
    -- one part after the other takes the place of what stood there
    have hsync : patch? (b₀ :: b₁ :: b₂ :: (old ++ b₃ :: back)) 0 [sync] =
        some (sync :: b₁ :: b₂ :: (old ++ b₃ :: back)) :=
      patch?_append [] [b₀] [sync] _ rfl
    have hlength : patch? (sync :: b₁ :: b₂ :: (old ++ b₃ :: back)) 1 [l] =
        some (sync :: l :: b₂ :: (old ++ b₃ :: back)) :=
      patch?_append [sync] [b₁] [l] _ rfl
    have htype : patch? (sync :: l :: b₂ :: (old ++ b₃ :: back)) 2 [type] =
        some (sync :: l :: type :: (old ++ b₃ :: back)) :=
      patch?_append [sync, l] [b₂] [type] _ rfl
    have hpayload : patch? (sync :: l :: type :: (old ++ b₃ :: back)) 3 payload =
        some (sync :: l :: type :: (payload ++ b₃ :: back)) :=
      patch?_append [sync, l, type] old payload _ hold
    have hcontent : slice? (sync :: l :: type :: (payload ++ b₃ :: back)) 2 (3 + payload.length) =
        some (type :: payload) := by
      have hslice := slice?_append [sync, l] (type :: payload) (b₃ :: back)
      have hend : [sync, l].length + (type :: payload).length = 3 + payload.length := by
        simp only [List.length_cons, List.length_nil]
        omega
      rwa [hend] at hslice
    have hchecksum : ∀ c, patch? (sync :: l :: type :: (payload ++ b₃ :: back))
        (3 + payload.length) [c] = some (sync :: l :: type :: (payload ++ c :: back)) := by
      intro c
      have hpatch := patch?_append (sync :: l :: type :: payload) [b₃] [c] back rfl
      have hend : (sync :: l :: type :: payload).length = 3 + payload.length := by
        simp only [List.length_cons]
        omega
      rwa [hend] at hpatch
    have hsize : (frame type payload).length = payload.length + 2 + 2 := by
      simp [frame]
    have hback : (b₀ :: b₁ :: b₂ :: (old ++ b₃ :: back)).drop (payload.length + 2 + 2) = back := by
      simp [← hold]
    simp only [hsync, hlength, htype, hpayload, hcontent, hchecksum, hsize, hback,
      Option.bind_eq_bind, Option.bind_some, Option.pure_def]
    simp [frame, l]

end Buffer

/-! ### Frames that are sent -/

/-- A frame to be sent: there is room for its payload in a frame, and for the frame in the buffer
that it is written into. -/
structure Sending where
  /-- What is in the buffer before. -/
  buffer : List UInt8
  /-- The type of the frame. -/
  type : UInt8
  /-- Its payload. -/
  payload : List UInt8
  /-- The payload is not too large for a frame. -/
  fits : payload.length ≤ 60
  /-- The buffer is not too small for the frame. -/
  room : payload.length + 4 ≤ buffer.length

namespace Sending

/-- The bytes that are sent. -/
def bytes (x : Sending) : List UInt8 := written x.buffer x.type x.payload

/-- The message that they are for. -/
def message? (x : Sending) : Option Message := Message.decode x.type x.payload

theorem bytes_eq (x : Sending) : x.bytes = frame x.type x.payload :=
  written_eq_frame (Nat.add_le_add_right x.fits 2) x.room

theorem length_bytes (x : Sending) : x.bytes.length = x.payload.length + 4 := by
  rw [bytes_eq]
  simp [frame]

end Sending

/-- The messages of frames that are sent back to back, each with the place of its frame's last byte;
the first byte has place `i`. -/
def arrivals : ℕ → List Sending → List (ℕ × Message)
  | _, [] => []
  | i, x :: xs =>
    (x.message?.map (i + x.bytes.length - 1, ·)).toList ++ arrivals (i + x.bytes.length) xs

theorem map_arrivals (i : ℕ) (xs : List Sending) :
    (arrivals i xs).map Prod.snd = xs.filterMap Sending.message? := by
  induction xs generalizing i with
  | nil => rfl
  | cons x xs ih =>
    rw [arrivals, List.map_append, ih, List.filterMap_cons]
    cases x.message? <;> rfl

namespace Decoder

/-- Without a sync byte nothing begins. -/
theorem feedAll_idle_of_not_mem {gap : List UInt8} (i : ℕ) (h : sync ∉ gap) :
    idle.feedAll i gap = ([], idle) := by
  induction gap generalizing i with
  | nil => rfl
  | cons b gap ih =>
    rw [List.mem_cons, not_or] at h
    rw [feedAll_cons_of_none (feed_idle_of_ne (Ne.symm h.1)), ih (i + 1) h.2]

theorem feedAll_sending (i : ℕ) (x : Sending) :
    idle.feedAll i x.bytes = ((x.message?.map (i + x.bytes.length - 1, ·)).toList, idle) := by
  have hplace : i + x.bytes.length - 1 = i + x.payload.length + 3 := by
    rw [x.length_bytes]
    omega
  rw [hplace, x.bytes_eq]
  exact feedAll_frame (Nat.add_le_add_right x.fits 2)

/-- After each frame the decoder is between frames, where the next one comes in. -/
theorem feedAll_arrivals (i : ℕ) (xs : List Sending) :
    idle.feedAll i (xs.flatMap Sending.bytes) = (arrivals i xs, idle) := by
  induction xs generalizing i with
  | nil => rfl
  | cons x xs ih => rw [List.flatMap_cons, feedAll_append, feedAll_sending, ih, arrivals]

end Decoder

/-- What writing a frame does to the buffer. -/
theorem place_spec (buffer : List UInt8) (type : UInt8) (payload : List UInt8) :
    let (count, after) := place buffer type payload
    (count = 0 ↔ 60 < payload.length ∨ buffer.length < payload.length + 4) ∧
    (count = 0 → after = buffer) ∧
    (count ≠ 0 → count = payload.length + 4 ∧ after.take count = frame type payload) ∧
    after.length = buffer.length ∧ after.drop count = buffer.drop count := by
  have hlarge : 60 < payload.length ∨ buffer.length < payload.length + 4 ↔
      maxLength < payload.length + 2 ∨ buffer.length < payload.length + 4 := by
    rw [maxLength]
    omega
  have hsize : (frame type payload).length = payload.length + 4 := by
    simp [frame]
  rw [place, hlarge]
  by_cases hsmall : maxLength < payload.length + 2 ∨ buffer.length < payload.length + 4
  · rw [if_pos hsmall]
    exact ⟨iff_of_true rfl hsmall, fun _ => rfl, fun h => absurd rfl h, rfl, rfl⟩
  · have hcount : (frame type payload).length ≠ 0 := by
      rw [hsize]
      exact Nat.succ_ne_zero _
    rw [if_neg hsmall]
    refine ⟨iff_of_false hcount hsmall, fun h => absurd h hcount, fun _ => ⟨hsize, List.take_left⟩,
      ?_, List.drop_left⟩
    rw [List.length_append, List.length_drop, hsize]
    omega

/-- **What is sent comes in.**  Behind bytes none of which is a sync byte, frames that are written
and sent back to back yield the messages of those that are for one, in their order, each at the last
byte of its frame, and then the decoder is between frames; a decoder on a fixed buffer ends with
nothing in it.  Writing a frame fails, with a count of zero and the buffer as it was, exactly if the
payload or the frame is too large; otherwise the counted bytes are the frame and the others are as
they were, and every place that is written to is in the buffer. -/
theorem sendings_arrive (gap : List UInt8) (hgap : sync ∉ gap) (xs : List Sending) :
    let stream := gap ++ xs.flatMap Sending.bytes
    (Decoder.idle.feedAll 0 stream = (arrivals gap.length xs, .idle) ∧
      (arrivals gap.length xs).map Prod.snd = xs.filterMap Sending.message? ∧
      Buffer.feedAll? [] stream = some (xs.filterMap Sending.message?, [])) ∧
    ∀ (buffer : List UInt8) (type : UInt8) (payload : List UInt8),
      let (count, after) := place buffer type payload
      Buffer.place? buffer type payload = some (count, after) ∧
      (count = 0 ↔ 60 < payload.length ∨ buffer.length < payload.length + 4) ∧
      (count = 0 → after = buffer) ∧
      (count ≠ 0 → count = payload.length + 4 ∧ after.take count = frame type payload) ∧
      after.length = buffer.length ∧ after.drop count = buffer.drop count := by
  intro stream
  have hfed : Decoder.idle.feedAll 0 stream = (arrivals gap.length xs, .idle) := by
    rw [Decoder.feedAll_append, Decoder.feedAll_idle_of_not_mem 0 hgap, Nat.zero_add,
      Decoder.feedAll_arrivals]
    rfl
  refine ⟨⟨hfed, map_arrivals _ xs, ?_⟩, fun buffer type payload => ?_⟩
  · have hbuffer := Buffer.feedAll?_held (d := .idle) trivial 0 stream
    rw [hfed, map_arrivals] at hbuffer
    exact hbuffer
  · exact ⟨Buffer.place?_eq buffer type payload, place_spec buffer type payload⟩

/-- Noise, a barometer reading, a frame of an unknown type whose payload looks like a header, and an
attitude. -/
theorem sendings_arrive_behind_noise :
    let buffer := List.replicate 64 (0xEE : UInt8)
    let vario : Sending := ⟨buffer, 0x09, [0x27, 0x10, 0x00, 0x64], by decide, by decide⟩
    let other : Sending := ⟨buffer, 0x21, [0xC8, 0x08, 0x1E], by decide, by decide⟩
    let attitude : Sending :=
      ⟨buffer, 0x1E, [0x00, 0xC8, 0x00, 0x01, 0x00, 0x02], by decide, by decide⟩
    let stream := [0x55, 0x00] ++ [vario, other, attitude].flatMap Sending.bytes
    (Decoder.idle.feedAll 0 stream).1.map Prod.fst = [9, 26] ∧
      (Decoder.idle.feedAll 0 stream).1.map Prod.snd =
        [vario, other, attitude].filterMap Sending.message? ∧
      (Decoder.idle.feedAll 0 stream).2 = .idle := by
  intro buffer vario other attitude stream
  obtain ⟨⟨hfed, hmessages, -⟩, -⟩ :=
    sendings_arrive [0x55, 0x00] (by decide) [vario, other, attitude]
  have hplaces : (arrivals 2 [vario, other, attitude]).map Prod.fst = [9, 26] := by
    decide +kernel
  rw [hfed]
  exact ⟨hplaces, hmessages, rfl⟩

end Crsf

end OnboardVision

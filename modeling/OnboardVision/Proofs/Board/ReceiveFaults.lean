import OnboardVision.Board.Surroundings
import OnboardVision.Proofs.Checksum.Rejection
import OnboardVision.Proofs.Telemetry.Messages
import OnboardVision.Proofs.Telemetry.Scanner

/-!
# Receive faults on the telemetry line

The telemetry task passes over a receive fault and keeps its decoder as it is.  So what comes behind
a fault is read as if the bytes that were lost had never been sent: a frame that was in progress
takes the bytes it still misses from the next frame.

* `Board.foldl_absorb`: only the bytes of the readings matter, in whatever bursts they come.
* `Crsf.Decoder.mem_feedAll_frame_iff`: a frame is read as one exactly if no other is in progress.

Main statement:

* `Board.frame_after_fault_iff`: a frame behind a fault is read exactly if the fault hit no frame
  behind its length byte.  `Board.frame_lost_after_fault` is a case where it does.
-/

namespace OnboardVision

namespace Message

/-- How many bytes the payload of a message takes. -/
def payloadSize : Message → ℕ
  | .attitude _ => 6
  | .fix _ => 15
  | .vario _ => 4

theorem length_of_decode {type : UInt8} {payload : List UInt8} {m : Message}
    (h : decode type payload = some m) : payload.length = m.payloadSize := by
  unfold decode at h
  split at h
  · unfold decodeAttitude at h
    split at h <;> cases h
    rfl
  · split at h
    · unfold decodeFix at h
      split at h <;> cases h
      rfl
    · split at h
      · unfold decodeVario at h
        split at h <;> cases h
        rfl
      · cases h

theorem payloadSize_le (m : Message) : m.payloadSize ≤ 15 := by
  cases m <;> simp [payloadSize]

end Message

namespace Crsf

/-- There is room for the frame of a message in front of the place where it ends. -/
theorem Framed.room {i j : ℕ} {stream : List UInt8} {out : List (ℕ × Message)} {m : Message}
    (h : Framed i stream out) (hm : (j, m) ∈ out) : i + m.payloadSize + 4 ≤ j + 1 := by
  induction h with
  | rest => cases hm
  | frame _ hdecode _ ih =>
    have hsize := Message.length_of_decode hdecode
    rcases List.mem_cons.1 hm with hm | hm
    · cases hm
      omega
    · have := ih hm
      omega

namespace Decoder

variable {d : Decoder} {i : ℕ} {type : UInt8} {payload : List UInt8} {m : Message}

theorem InProgress.feedAll (h : d.InProgress) (i : ℕ) (bytes : List UInt8) :
    (d.feedAll i bytes).2.InProgress := by
  induction bytes generalizing d i with
  | nil => exact h
  | cons b bytes ih => exact ih (Buffer.feed?_held h b).2 (i + 1)

theorem feedAll_frame_of_held (hd : d.held.length < 2)
    (h : payload.length + 2 ≤ maxLength) :
    d.feedAll i (frame type payload) =
      (((Message.decode type payload).map (i + payload.length + 3, ·)).toList, idle) := by
  have hsync : ¬ Accepts sync := by decide
  rw [← feedAll_frame h]
  cases d with
  | idle => rfl
  | opened => exact feedAll_opened_of_not_accepts hsync
  | inside length received => exact absurd hd (by simp [held])

/-- A message that comes out while a frame is in progress is the one of that frame, at its last byte,
or there is room for its own frame behind that. -/
theorem room_of_mem_feedAll_inside {length j : ℕ} {received bytes : List UInt8}
    (hlt : received.length < length)
    (hmem : (j, m) ∈ ((inside length received).feedAll i bytes).1) :
    (j + 1 = i + (length - received.length) ∧ m.payloadSize + 2 = length) ∨
      i + (length - received.length) + m.payloadSize + 4 ≤ j + 1 := by
  by_cases hshort : received.length + bytes.length < length
  · rw [feedAll_inside_of_lt hshort] at hmem
    cases hmem
  · -- the missing bytes are there: they end the frame, and the rest comes between frames
    have hcut := List.take_append_drop (length - received.length) bytes
    have htake : (bytes.take (length - received.length)).length = length - received.length := by
      rw [List.length_take]
      omega
    have hne : bytes.take (length - received.length) ≠ [] := by
      intro h
      rw [h, List.length_nil] at htake
      omega
    rw [← hcut, feedAll_append, feedAll_inside hne (by omega), htake] at hmem
    rcases List.mem_append.1 hmem with hmem | hmem
    · left
      obtain ⟨m', hm, heq⟩ := Option.map_eq_some_iff.1 (Option.mem_toList.1 hmem)
      cases heq
      obtain ⟨type, payload, hsegment, hdecode⟩ := messageOf_eq_some_iff.1 hm
      have hsize := Message.length_of_decode hdecode
      have hlength := congrArg List.length hsegment
      simp only [List.length_append, List.length_cons, List.length_nil, htake] at hlength
      omega
    · exact .inr ((feedAll_idle _ _).2.room hmem)

/-- **A frame is read as one exactly if no other is in progress.**  If there is one, its missing
bytes are taken from the new frame, and in what is left of that there is no room for a message of
the same kind. -/
theorem mem_feedAll_frame_iff (hd : d.InProgress) (hm : Message.decode type payload = some m) :
    (i + payload.length + 3, m) ∈ (d.feedAll i (frame type payload)).1 ↔ d.held.length < 2 := by
  have hsize := Message.length_of_decode hm
  have hsmall := m.payloadSize_le
  constructor
  · intro hmem
    cases d with
    | idle => decide
    | opened => decide
    | inside length received =>
      obtain ⟨-, -, hlt⟩ := hd
      have := room_of_mem_feedAll_inside hlt hmem
      omega
  · intro hheld
    rw [feedAll_frame_of_held hheld (by rw [maxLength]; omega), hm]
    exact List.mem_singleton_self _

end Decoder

end Crsf

namespace Board

/-! ### The telemetry task -/

/-- The bytes that a reading brings. -/
def Reading.data : Reading → List UInt8
  | .bytes data => data
  | .fault => []

/-- The task takes the bytes of its readings as one stream, in whatever bursts they come, and a
fault leaves no trace. -/
theorem foldl_absorb (s : Shared Rig) (readings : List Reading) :
    let done := s.rig.receiver.feedAll s.telemetry (readings.flatMap Reading.data)
    (readings.foldl absorb s).rig.receiver = done.2.1 ∧
      (readings.foldl absorb s).telemetry = done.2.2.1 := by
  induction readings generalizing s with
  | nil => exact ⟨rfl, rfl⟩
  | cons reading readings ih =>
    rw [List.foldl_cons, List.flatMap_cons, Receiver.feedAll_append]
    cases reading with
    | bytes data => exact ih _
    | fault => exact ih s

/-- The decoder is where the bytes of all readings have left it. -/
theorem decoder_foldl_absorb {s : Shared Rig} (hs : s.rig.receiver = {}) (readings : List Reading) :
    (readings.foldl absorb s).rig.receiver.decoder =
      (Crsf.Decoder.idle.feedAll 0 (readings.flatMap Reading.data)).2 := by
  have hline := (foldl_absorb s readings).1
  rw [hs, Receiver.feedAll_eq _ _ 0] at hline
  exact congrArg Receiver.decoder hline

/-- **A frame behind a fault is read exactly if the fault hit no frame in progress.**  After any
readings, the last of them a fault, the decoder is where the bytes received have left it.  A frame
that comes in next yields its message at its last byte exactly if the decoder holds no more than a
sync byte; then the message is applied and the decoder is between frames. -/
theorem frame_after_fault_iff (s : Shared Rig) (hs : s.rig.receiver = {}) (history : List Reading)
    {type : UInt8} {payload : List UInt8} {m : Message} (hm : Message.decode type payload = some m)
    {buffer : List UInt8} (hroom : payload.length + 4 ≤ buffer.length)
    {chunks : List (List UInt8)} (hchunks : chunks.flatten = Crsf.written buffer type payload) :
    let faulted := (history ++ [Reading.fault]).foldl absorb s
    let after := (chunks.map .bytes).foldl absorb faulted
    let d := faulted.rig.receiver.decoder
    let n := faulted.rig.receiver.navigator
    d = (Crsf.Decoder.idle.feedAll 0 (history.flatMap Reading.data)).2 ∧
    ((payload.length + 3, m) ∈ (d.feedAll 0 chunks.flatten).1 ↔ d.held.length < 2) ∧
    (d.held.length < 2 →
      after.telemetry = (n.apply m faulted.telemetry).2.1 ∧
      after.rig.receiver = ⟨.idle, (n.apply m faulted.telemetry).1⟩) := by
  intro faulted after d n
  have hfit : payload.length + 2 ≤ Crsf.maxLength := by
    have := m.payloadSize_le
    rw [Message.length_of_decode hm, Crsf.maxLength]
    omega
  have hframe : chunks.flatten = Crsf.frame type payload :=
    hchunks.trans (Crsf.written_eq_frame hfit hroom)
  have hd : d = (Crsf.Decoder.idle.feedAll 0 (history.flatMap Reading.data)).2 := by
    have hbytes : (history ++ [Reading.fault]).flatMap Reading.data =
        history.flatMap Reading.data := by
      simp [Reading.data]
    rw [← hbytes]
    exact decoder_foldl_absorb hs _
  have hin : d.InProgress := by
    rw [hd]
    exact Crsf.Decoder.InProgress.feedAll (d := .idle) trivial _ _
  refine ⟨hd, ?_, fun hheld => ?_⟩
  · rw [hframe]
    simpa using Crsf.Decoder.mem_feedAll_frame_iff (i := 0) hin hm
  · obtain ⟨hreceiver, htelemetry⟩ := foldl_absorb faulted (chunks.map .bytes)
    have hbytes : (chunks.map .bytes).flatMap Reading.data = chunks.flatten := by
      rw [List.flatMap_map]
      exact List.flatMap_id
    rw [hbytes, hframe, Receiver.feedAll_eq _ _ 0,
      Crsf.Decoder.feedAll_frame_of_held hheld hfit, hm] at hreceiver htelemetry
    exact ⟨htelemetry, hreceiver⟩

/-- Noise that ends with a sync byte, a fault, and an attitude in two bursts. -/
theorem attitude_after_fault :
    let frame := Crsf.written (List.replicate 64 0) 0x1E [0x03, 0x69, 0x00, 0x01, 0x00, 0x01]
    let faulted := ([Reading.bytes [0x55, 0xC8, 0x00, 0xC8]] ++ [Reading.fault]).foldl absorb
      ({ rig := {} } : Shared Rig)
    let after := ([frame.take 3, frame.drop 3].map .bytes).foldl absorb faulted
    after.telemetry = faulted.telemetry.setAttitude
      ⟨Message.angle 0x0001, Message.angle 0x0369, Message.angle 0x0001⟩ := by
  intro frame faulted after
  have hdecode : Message.decode 0x1E [0x03, 0x69, 0x00, 0x01, 0x00, 0x01] = some (.attitude
      ⟨Message.angle 0x0001, Message.angle 0x0369, Message.angle 0x0001⟩) := by decide +kernel
  have hroom : [0x03, 0x69, 0x00, 0x01, 0x00, 0x01].length + 4 ≤
      (List.replicate 64 (0 : UInt8)).length := by decide
  have hchunks : [frame.take 3, frame.drop 3].flatten = frame := by simp
  obtain ⟨-, -, hread⟩ := frame_after_fault_iff { rig := {} } rfl [.bytes [0x55, 0xC8, 0x00, 0xC8]]
    hdecode hroom hchunks
  exact (hread (by decide)).1

/-- A fault hits an attitude frame of which five bytes have come in.  It takes the five that it
misses from the next one, and neither is read. -/
theorem frame_lost_after_fault :
    let payload := [0x03, 0x69, 0x00, 0x01, 0x00, 0x01]
    let frame := Crsf.written (List.replicate 64 0) 0x1E payload
    let after := [.bytes (frame.take 5), .fault, .bytes frame].foldl absorb
      ({ rig := {} } : Shared Rig)
    (Message.decode 0x1E payload).map (fun m => (({} : Navigator).apply m {}).2.1.attitude) ≠
        some {} ∧
      after.telemetry = {} ∧ after.rig.receiver = {} := by
  decide +kernel

end Board

end OnboardVision

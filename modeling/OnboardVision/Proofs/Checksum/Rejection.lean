import OnboardVision.Proofs.Camera.Reception
import OnboardVision.Proofs.Checksum.Noise
import OnboardVision.Proofs.Telemetry.Decoding

/-!
# Noise on the serial links

A frame whose content or checksum is garbled by a short burst or by an odd number of bit errors does
not pass for a frame: its length or its size still says where it ends, and the checksum does not fit.
The readers are then between frames again, and the next frame is not lost with it.

Main statement:

* `Noise.garbled_rejected`: this holds of telemetry frames and of camera frames.
-/

namespace OnboardVision

namespace Crsf

/-- The bytes that are sent of a buffer after a frame was written into it. -/
def written (buffer : List UInt8) (type : UInt8) (payload : List UInt8) : List UInt8 :=
  let (count, bytes) := place buffer type payload
  bytes.take count

theorem written_eq_frame {buffer payload : List UInt8} {type : UInt8}
    (h : payload.length + 2 ≤ maxLength) (hroom : payload.length + 4 ≤ buffer.length) :
    written buffer type payload = frame type payload := by
  have hfits : ¬ (maxLength < payload.length + 2 ∨ buffer.length < payload.length + 4) := by omega
  rw [written, place, if_neg hfits]
  exact List.take_left

theorem Decoder.feedAll_garbled {e : Noise} {type : UInt8} {payload : List UInt8}
    (h : payload.length + 2 ≤ maxLength) (he : e ⊆ Finset.Ico 16 (8 * (payload.length + 4)))
    (hd : e.Detectable) (i : ℕ) : idle.feedAll i (e.garble 0 (frame type payload)) = ([], idle) := by
  -- the sync byte and the length arrive as they were sent, so the decoder takes the whole frame
  have hopening : e.garble 0 [sync, UInt8.ofNat (payload.length + 2)] =
      [sync, UInt8.ofNat (payload.length + 2)] :=
    Noise.garble_eq_self fun i hi => .inr (Finset.mem_Ico.1 (he hi)).1
  have hbody : e ⊆ Finset.Ico (8 * 2) (8 * (2 + (type :: payload).length + 1)) := by
    have hend : 2 + (type :: payload).length + 1 = payload.length + 4 := by
      rw [List.length_cons]
      omega
    rwa [hend]
  obtain ⟨c, hgarbled, hne⟩ := Noise.exists_garble_eq hbody hd
  obtain ⟨hl, hval⟩ := accepts_length h
  have hlen : (e.garble 2 (type :: payload) ++ [c]).length =
      (UInt8.ofNat (payload.length + 2)).toNat := by
    rw [hval]
    simp
  have hseg := feedAll_segment (i := i) hl hlen
  rw [messageOf_eq_none hne] at hseg
  rw [frame, List.append_assoc, Noise.garble_append, hopening]
  exact hgarbled ▸ hseg

end Crsf

/-- Noise behind the header leaves the markers and the size as they are, and the checksum wrong. -/
theorem Camera.garble_encodeFrame {e : Noise} (w h : UInt16) {pixels : List UInt8}
    (he : e ⊆ Finset.Ico 48 (8 * (pixels.length + 7))) (hd : e.Detectable) :
    ∃ pixels' c, e.garble 0 (encodeFrame w h pixels) =
        marker ++ (header w h ++ (pixels' ++ [c])) ∧
      pixels'.length = pixels.length ∧ c ≠ Checksum.ofBytes (header w h ++ pixels') := by
  have hopening : ∀ i ∈ e, 48 ≤ i := fun i hi => (Finset.mem_Ico.1 (he hi)).1
  have hmarker : e.garble 0 marker = marker :=
    Noise.garble_eq_self fun i hi => .inr (Nat.le_trans (by decide) (hopening i hi))
  have hheader : e.garble 2 (header w h) = header w h :=
    Noise.garble_eq_self fun i hi => .inr (hopening i hi)
  have hbody : e ⊆ Finset.Ico (8 * 2) (8 * (2 + (header w h ++ pixels).length + 1)) := by
    have hend : 2 + (header w h ++ pixels).length + 1 = pixels.length + 7 := by
      rw [List.length_append, show (header w h).length = 4 from rfl]
      omega
    rw [hend]
    exact he.trans (Finset.Ico_subset_Ico_left (by decide))
  obtain ⟨c, hgarbled, hne⟩ := Noise.exists_garble_eq hbody hd
  have hcontent : e.garble 2 (header w h ++ pixels) = header w h ++ e.garble 6 pixels := by
    rw [Noise.garble_append, hheader]
    rfl
  rw [hcontent] at hgarbled hne
  refine ⟨e.garble 6 pixels, c, ?_, Noise.length_garble e 6 pixels, Ne.symm hne⟩
  have hsplit : encodeFrame w h pixels =
      marker ++ ((header w h ++ pixels) ++ [Checksum.ofBytes (header w h ++ pixels)]) := rfl
  rw [hsplit, Noise.garble_append, hmarker, ← List.append_assoc (header w h), ← hgarbled]
  rfl

namespace Capture

variable {capacity : ℕ} {c : Capture capacity}

/-- Until a frame is complete, what was on offer before stays so up to the second marker, and then
nothing is. -/
theorem image?_of_part {data bytes : List UInt8} (hp : c.phase = .seeking)
    (hdata : data <+: Camera.marker ++ bytes) (hread : (c.receive data).1 = false) :
    (c.receive data).2.1.image? = if data.length < 2 then c.image? else none := by
  match data, hdata with
  | [], _ => simp
  | [b], hdata =>
    rw [receive_seeking hp, receive_nil, seek]
    split <;> rfl
  | b :: b' :: rest, hdata =>
    obtain ⟨later, hlater⟩ := hdata
    obtain ⟨rfl, rfl, -⟩ : b = Camera.sync ∧ b' = Camera.frameMark ∧ rest ++ later = bytes := by
      simpa [Camera.marker] using hlater
    -- the markers are in, and without a complete frame nothing comes on offer behind them
    have hmarker := receive_marker hp rest
    change c.receive (Camera.sync :: Camera.frameMark :: rest) = _ at hmarker
    rw [hmarker] at hread ⊢
    rw [image?_of_not_ready (ready_of_not_done hread rfl), if_neg (by simp)]

/-- A frame comes in between frames. -/
theorem receive_encodeFrame {im : Image capacity} (hp : c.phase = .seeking) (hs : Sized im) :
    c.receive (Camera.encodeFrame im.width im.height im.pixels.toList) =
      (true, ⟨.seeking, Checksum.ofBytes (Camera.header im.width im.height ++ im.pixels.toList),
        im, true⟩, []) := by
  obtain ⟨im', hw, hh, hpixels, hread⟩ := receive_frame (c := c)
    (k := Checksum.ofBytes (Camera.header im.width im.height ++ im.pixels.toList)) hp hs.1 hs.2
    (Array.length_toList.trans im.size_eq) (im.size_eq ▸ im.size_le)
  obtain rfl : im' = im := by
    cases im
    cases im'
    obtain rfl := Array.toList_inj.1 hpixels
    cases hw
    cases hh
    rfl
  rw [if_pos rfl] at hread
  simpa [Camera.encodeFrame, Camera.marker] using hread

end Capture

namespace Noise

open Crsf Capture

/-- **Garbled frames are lost, and only they are.**  Telemetry: with noise in the type, the payload
and the checksum, a frame yields no message, and what follows is read as if it had not been there.
Camera: with noise in the pixels and the checksum, no read of the frame completes it, what was on
offer before is withdrawn by its markers, and the capture is between frames at its end, where
another frame comes in. -/
theorem garbled_rejected :
    (∀ (e : Noise) (type : UInt8) (payload buffer : List UInt8) (i : ℕ),
      payload.length ≤ 60 → payload.length + 4 ≤ buffer.length →
      e ⊆ Finset.Ico 16 (8 * (payload.length + 4)) → e.Detectable →
      let garbled := e.garble 0 (written buffer type payload)
      Decoder.idle.feedAll i garbled = ([], .idle) ∧
      ∀ type' payload', payload'.length ≤ 60 →
        Decoder.idle.feedAll i (garbled ++ frame type' payload') =
          (((Message.decode type' payload').map
            (i + garbled.length + payload'.length + 3, ·)).toList, .idle)) ∧
    ∀ (capacity : ℕ) (c : Capture capacity) (im : Image capacity) (e : Noise),
      c.phase = .seeking → Sized im →
      e ⊆ Finset.Ico 48 (8 * (im.pixels.size + 7)) → e.Detectable →
      let garbled := e.garble 0 (Camera.encodeFrame im.width im.height im.pixels.toList)
      ∀ chunks : List (List UInt8), chunks.flatten <+: garbled →
        ∃ c', c.actAll (chunks.map .push) = (chunks.map (.received · false), c') ∧
          c'.image? = (if chunks.flatten.length < 2 then c.image? else none) ∧
          (chunks.flatten = garbled → c'.phase = .seeking ∧ ∀ im' : Image capacity, Sized im' →
            let (done, c'', _) :=
              c'.receive (Camera.encodeFrame im'.width im'.height im'.pixels.toList)
            done = true ∧ c''.image? = some im') := by
  constructor
  · intro e type payload buffer i hlen hroom he hd garbled
    have hfit : payload.length + 2 ≤ maxLength := Nat.add_le_add_right hlen 2
    have hsilent : Decoder.idle.feedAll i garbled = ([], .idle) := by
      simp only [garbled, written_eq_frame hfit hroom]
      exact Decoder.feedAll_garbled hfit he hd i
    refine ⟨hsilent, fun type' payload' hlen' => ?_⟩
    rw [Decoder.feedAll_append, hsilent, Decoder.feedAll_frame (Nat.add_le_add_right hlen' 2)]
    rfl
  · intro capacity c im e hp hs he hd garbled chunks hprefix
    obtain ⟨pixels, k, hgarbled, hlen, hk⟩ := Camera.garble_encodeFrame im.width im.height
      (he.trans (by rw [Array.length_toList])) hd
    obtain ⟨im', -, -, -, hread⟩ := receive_frame (c := c) (k := k) hp hs.1 hs.2
      (hlen.trans (Array.length_toList.trans im.size_eq)) (im.size_eq ▸ im.size_le)
    rw [if_neg hk, ← hgarbled] at hread
    have hopens : chunks.flatten <+:
        Camera.marker ++ (Camera.header im.width im.height ++ (pixels ++ [k])) := by
      rw [← hgarbled]
      exact hprefix
    have hpart : (c.receive chunks.flatten).1 = false := by
      obtain ⟨later, hlater⟩ := hprefix
      refine not_done_of_append later ?_
      rw [hlater, hread]
    refine ⟨_, actAll_push hpart, image?_of_part hp hopens hpart, fun hall => ?_⟩
    rw [hall, hread]
    exact ⟨rfl, fun im' hs' => by rw [receive_encodeFrame rfl hs']; exact ⟨rfl, rfl⟩⟩

/-- A burst over the last bit of the type and the first of the payload of an attitude, and three bits
in the pixels and the checksum of a frame that comes in two reads. -/
theorem garbled_attitude_and_square :
    let attitude := garble {23, 24} 0 (written (List.replicate 64 0) 0x1E [0, 0, 0, 0, 0, 0])
    let square : Image 4 := ⟨2, 2, #[10, 20, 30, 40], rfl, by decide⟩
    let frame := garble {48, 60, 87} 0 (Camera.encodeFrame 2 2 square.pixels.toList)
    Decoder.idle.feedAll 0 attitude = ([], .idle) ∧
    ∃ c', ({} : Capture 4).actAll [.push (frame.take 5), .push (frame.drop 5)] =
        ([.received (frame.take 5) false, .received (frame.drop 5) false], c') ∧
      c'.image? = none ∧ c'.phase = .seeking := by
  intro attitude square frame
  have hattitude := garbled_rejected.1 {23, 24} 0x1E [0, 0, 0, 0, 0, 0] (List.replicate 64 0) 0
    (by decide) (by decide) (by decide) (.inl ⟨⟨23, by decide⟩, 20, by decide⟩)
  obtain ⟨c', hcalls, himage, hall⟩ := garbled_rejected.2 4 {} square {48, 60, 87} rfl
    ⟨by decide, by decide⟩ (by decide) (.inr (by decide)) [frame.take 5, frame.drop 5]
    (by simp [frame, square])
  refine ⟨hattitude.1, c', hcalls, himage.trans (if_neg ?_), (hall ?_).1⟩
  · simp [frame, Camera.encodeFrame]
  · simp [frame, square]

end Noise

end OnboardVision

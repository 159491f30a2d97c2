import OnboardVision.Proofs.Camera.Reception

/-!
# Sizes that a capture can take

A size is `Camera.Usable` with a capture buffer if its frames have pixels and fit the buffer
(`Camera.usable_iff`).  Then a frame of that size comes in, in whatever reads, and the request for
the size tells the camera just that.
-/

namespace OnboardVision

namespace Capture

variable {capacity : ℕ} {c : Capture capacity}

/-- However the bytes are cut into reads, none but the last read completes a frame, and that one
completes the frame `im`. -/
def Takes (c : Capture capacity) (bytes : List UInt8) (im : Image capacity) : Prop :=
  ∀ (chunks : List (List UInt8)) (last : List UInt8), chunks.flatten ++ last = bytes → last ≠ [] →
    (c.actAll (chunks.map .push)).1 = chunks.map (.received · false) ∧
    ((c.actAll (chunks.map .push)).2.receive last).1 = true ∧
    ((c.actAll (chunks.map .push)).2.receive last).2.1.image? = some im

/-- It is enough that one read of the bytes completes the frame, and one of all but the last byte
does not. -/
theorem takes_concat_iff {front : List UInt8} {k : UInt8} {im : Image capacity} :
    c.Takes (front ++ [k]) im ↔ (c.receive front).1 = false ∧
      (c.receive (front ++ [k])).1 = true ∧ (c.receive (front ++ [k])).2.1.image? = some im := by
  constructor
  · intro h
    obtain ⟨hfront, -, -⟩ := h [front] [k] (by simp) (by simp)
    obtain ⟨-, hdone, himage⟩ := h [] (front ++ [k]) rfl (by simp)
    exact ⟨(Outcome.received.inj (List.cons.inj hfront).1).2, hdone, himage⟩
  · rintro ⟨hfront, hdone, himage⟩ chunks last hcut hlast
    -- the last byte is in the last read, so the others are short of it
    obtain ⟨part, b, rfl⟩ := (List.eq_nil_or_concat' last).resolve_left hlast
    rw [← List.append_assoc] at hcut
    obtain ⟨hbody, -⟩ := List.append_inj' hcut rfl
    have hearlier : (c.receive chunks.flatten).1 = false := by
      refine not_done_of_append part ?_
      rw [hbody]
      exact hfront
    obtain ⟨notes, hwhole⟩ := receive_append_of_not_done hearlier (part ++ [b])
    rw [← List.append_assoc, hcut] at hwhole
    rw [hwhole] at hdone himage
    rw [actAll_push hearlier]
    exact ⟨rfl, hdone, himage⟩

section Frame

variable {w h : UInt16} {pixels : List UInt8} (hp : c.phase = .seeking) (hw : w ≠ 0) (hh : h ≠ 0)
  (hlen : pixels.length = w.toNat * h.toNat) (hfit : w.toNat * h.toNat ≤ capacity)

include hp hw hh hlen hfit

/-- A frame is not complete before its checksum. -/
theorem not_done_before_checksum :
    (c.receive (Camera.marker ++ (Camera.header w h ++ pixels))).1 = false := by
  have hwrong : Checksum.ofBytes (Camera.header w h ++ pixels) + 1 ≠
      Checksum.ofBytes (Camera.header w h ++ pixels) := by simp
  -- if it were, it would be with a wrong checksum behind it as well
  obtain ⟨im, -, -, -, hread⟩ := receive_frame
    (k := Checksum.ofBytes (Camera.header w h ++ pixels) + 1) hp hw hh hlen hfit
  rw [if_neg hwrong, ← List.append_assoc, ← List.append_assoc, receive_append,
    List.append_assoc] at hread
  rcases hbody : c.receive (Camera.marker ++ (Camera.header w h ++ pixels)) with
    ⟨_ | _, c', notes⟩
  · rfl
  · rw [hbody] at hread
    cases hread

theorem takes_encodeFrame :
    ∃ im : Image capacity, im.width = w ∧ im.height = h ∧ im.pixels.toList = pixels ∧
      c.Takes (Camera.encodeFrame w h pixels) im := by
  obtain ⟨im, hwidth, hheight, hpixels, hread⟩ := receive_frame
    (k := Checksum.ofBytes (Camera.header w h ++ pixels)) hp hw hh hlen hfit
  have hframe : Camera.encodeFrame w h pixels = Camera.marker ++ (Camera.header w h ++ pixels) ++
      [Checksum.ofBytes (Camera.header w h ++ pixels)] := by
    simp [Camera.encodeFrame, Camera.marker]
  rw [if_pos rfl, ← List.append_assoc (Camera.header w h), ← List.append_assoc] at hread
  refine ⟨im, hwidth, hheight, hpixels, ?_⟩
  rw [hframe, takes_concat_iff, hread]
  exact ⟨not_done_before_checksum hp hw hh hlen hfit, rfl, rfl⟩

end Frame

end Capture

namespace Camera

/-- The seven bytes of a request: the markers, the size, and a checksum over the size. -/
theorem encodeRequest_eq (w h : UInt16) : ∃ b₀ b₁ b₂ b₃,
    encodeRequest w h =
      [sync, requestMark, b₀, b₁, b₂, b₃, Checksum.ofBytes [b₀, b₁, b₂, b₃]] ∧
    sizeOf? [b₀, b₁, b₂, b₃] = some (w, h) := ⟨_, _, _, _, rfl, sizeOf?_header w h⟩

/-- A camera can be asked for the size, and a capture buffer of `capacity` pixels takes what it
sends. -/
structure Usable (capacity : ℕ) (w h : UInt16) : Prop where
  /-- A frame has columns. -/
  width_ne : w ≠ 0
  /-- A frame has rows. -/
  height_ne : h ≠ 0
  /-- A frame fits the buffer. -/
  fits : w.toNat * h.toNat ≤ capacity
  /-- A capture between frames takes every frame of the size. -/
  frame : ∀ (c : Capture capacity) (pixels : List UInt8), c.phase = .seeking →
    pixels.length = w.toNat * h.toNat →
    ∃ im : Image capacity, im.width = w ∧ im.height = h ∧ im.pixels.toList = pixels ∧
      c.Takes (encodeFrame w h pixels) im
  /-- The request has seven bytes, with the size and a checksum over it. -/
  request : ∃ b₀ b₁ b₂ b₃,
    encodeRequest w h =
      [sync, requestMark, b₀, b₁, b₂, b₃, Checksum.ofBytes [b₀, b₁, b₂, b₃]] ∧
    sizeOf? [b₀, b₁, b₂, b₃] = some (w, h)

theorem usable_iff {capacity : ℕ} {w h : UInt16} :
    Usable capacity w h ↔ w ≠ 0 ∧ h ≠ 0 ∧ w.toNat * h.toNat ≤ capacity where
  mp hu := ⟨hu.width_ne, hu.height_ne, hu.fits⟩
  mpr := fun ⟨hw, hh, hfit⟩ =>
    { width_ne := hw
      height_ne := hh
      fits := hfit
      frame := fun _ _ hp hlen => Capture.takes_encodeFrame hp hw hh hlen hfit
      request := encodeRequest_eq w h }

end Camera

end OnboardVision

import OnboardVision.Proofs.Camera.Offer

/-!
# A whole frame

What a capture between frames does with the bytes of a frame, in one read (`Capture.receive_frame`)
and in several (`Capture.actAll_push`).
-/

namespace OnboardVision

theorem Camera.sizeOf?_header (w h : UInt16) : sizeOf? (header w h) = some (w, h) := by
  have hword : ∀ n : UInt16, UInt16.ofNat ((UInt8.ofNat (n.toNat % 256)).toNat +
      256 * (UInt8.ofNat (n.toNat / 256)).toNat) = n := by
    intro n
    have hn := n.toNat_lt
    have hlo : (UInt8.ofNat (n.toNat % 256)).toNat = n.toNat % 256 :=
      UInt8.toNat_ofNat_of_lt' (by simp only [UInt8.size]; omega)
    have hhi : (UInt8.ofNat (n.toNat / 256)).toNat = n.toNat / 256 :=
      UInt8.toNat_ofNat_of_lt' (by simp only [UInt8.size]; omega)
    rw [hlo, hhi, Nat.mod_add_div, UInt16.ofNat_toNat]
  change some _ = _
  rw [hword, hword]

namespace Image

variable {capacity : ℕ}

/-- Pixels that fill an image are its pixels. -/
theorem toList_overwrite {im : Image capacity} {bytes : List UInt8}
    (h : bytes.length = im.pixels.size) : (im.overwrite 0 bytes).pixels.toList = bytes := by
  change (write im.pixels 0 bytes).toList = bytes
  rw [toList_write _ _ _ (by omega), List.drop_of_length_le (by rw [Array.length_toList]; omega)]
  simp

theorem filled?_eq_some {w h : UInt16} (luma : UInt8) (hfit : w.toNat * h.toNat ≤ capacity) :
    ∃ im : Image capacity, filled? w h luma = some im ∧ im.width = w ∧ im.height = h :=
  ⟨_, dif_pos hfit, rfl, rfl⟩

end Image

namespace Capture

variable {capacity : ℕ} {c c' : Capture capacity}

/-! ### In one read -/

theorem receive_append (c : Capture capacity) (xs ys : List UInt8) :
    c.receive (xs ++ ys) =
      let (done, c, notes) := c.receive xs
      if done then (true, c, notes)
      else
        let (done, c, more) := c.receive ys
        (done, c, notes ++ more) := by
  induction xs generalizing c with
  | nil => simp
  | cons b xs ih =>
    rw [List.cons_append, receive_cons, receive_cons c b xs]
    rcases c.receive [b] with ⟨_ | _, c', notes⟩
    · simp only [ih, Bool.false_eq_true, if_false]
      rcases c'.receive xs with ⟨_ | _, c'', more⟩ <;> simp
    · rfl

theorem receive_marker (h : c.phase = .seeking) (bs : List UInt8) :
    c.receive (Camera.marker ++ bs) =
      ({ c with phase := .header [], crc := 0, ready := false } : Capture capacity).receive bs := by
  have hmarked : (c.seek Camera.sync).phase = .marked := rfl
  rw [Camera.marker, List.cons_append, List.cons_append, receive_seeking h, receive_marked hmarked]
  rfl

/-- A header makes room for its pixels. -/
theorem receive_sizes {im : Image capacity} {w h : UInt16} (hp : c.phase = .header [])
    (hw : w ≠ 0) (hh : h ≠ 0) (him : Image.filled? w h 0 = some im) (bs : List UInt8) :
    c.receive (Camera.header w h ++ bs) =
      ({ c with phase := .pixels 0, crc := Checksum.addAll c.crc (Camera.header w h), image := im } :
        Capture capacity).receive bs := by
  have hsize := Camera.sizeOf?_header w h
  obtain ⟨b₀, b₁, b₂, b₃, hbytes⟩ : ∃ b₀ b₁ b₂ b₃, Camera.header w h = [b₀, b₁, b₂, b₃] :=
    ⟨_, _, _, _, rfl⟩
  rw [hbytes] at hsize ⊢
  simp [receive_header hp, receive_header, takeHeader, begin, hsize, hw, hh, him,
    Checksum.addAll]

/-- The pixels of a frame are read up to its checksum. -/
theorem receive_all_pixels {pixels : List UInt8} (hp : c.phase = .pixels 0) (hne : pixels ≠ [])
    (hlen : pixels.length = c.image.pixels.size) (bs : List UInt8) :
    c.receive (pixels ++ bs) =
      ({ c with
        phase := .checksum, crc := Checksum.addAll c.crc pixels
        image := c.image.overwrite 0 pixels } : Capture capacity).receive bs := by
  cases pixels with
  | nil => exact absurd rfl hne
  | cons b rest =>
    -- all pixels are there, so they are copied together
    have hroom : c.image.pixels.size - 0 - 1 = rest.length := by
      rw [← hlen, List.length_cons]
      omega
    have htaken : c.takePixels 0 (b :: rest) =
        { c with
          phase := .checksum, crc := Checksum.addAll c.crc (b :: rest)
          image := c.image.overwrite 0 (b :: rest) } := by
      rw [takePixels, if_pos (by rw [← hlen]; omega)]
    rw [List.cons_append, receive_pixels hp, hroom]
    dsimp only
    rw [List.take_left, List.drop_left, htaken]

/-- **A frame comes in exactly if its checksum fits.** -/
theorem receive_frame {w h : UInt16} {pixels : List UInt8} {k : UInt8} (hp : c.phase = .seeking)
    (hw : w ≠ 0) (hh : h ≠ 0) (hlen : pixels.length = w.toNat * h.toNat)
    (hfit : w.toNat * h.toNat ≤ capacity) :
    ∃ im : Image capacity, im.width = w ∧ im.height = h ∧ im.pixels.toList = pixels ∧
      c.receive (Camera.marker ++ (Camera.header w h ++ (pixels ++ [k]))) =
        if k = Checksum.ofBytes (Camera.header w h ++ pixels) then
          (true, ⟨.seeking, k, im, true⟩, [])
        else
          (false, ⟨.seeking, Checksum.ofBytes (Camera.header w h ++ pixels), im, false⟩,
            [.frameCorrupt]) := by
  obtain ⟨blank, hblank, hwidth, hheight⟩ := Image.filled?_eq_some 0 hfit
  have hsize : pixels.length = blank.pixels.size := by
    rw [blank.size_eq, hwidth, hheight, hlen]
  have hsized : Sized blank := ⟨hwidth ▸ hw, hheight ▸ hh⟩
  have hne : pixels ≠ [] := by
    rintro rfl
    have := hsized.size_pos
    rw [← hsize] at this
    cases this
  refine ⟨blank.overwrite 0 pixels, hwidth, hheight, Image.toList_overwrite hsize, ?_⟩
  have hbody : c.receive (Camera.marker ++ (Camera.header w h ++ (pixels ++ [k]))) =
      (⟨.checksum, Checksum.ofBytes (Camera.header w h ++ pixels), blank.overwrite 0 pixels,
        false⟩ : Capture capacity).receive [k] := by
    rw [receive_marker hp, receive_sizes rfl hw hh hblank, receive_all_pixels rfl hne hsize,
      Checksum.ofBytes, Checksum.addAll_append]
  rw [hbody, receive_checksum rfl, verify]
  by_cases hk : k = Checksum.ofBytes (Camera.header w h ++ pixels)
  · simp [← hk]
  · simp [hk]

/-! ### In several reads -/

/-- If a read completes no frame, its first byte does not, and neither does the rest. -/
theorem feed_of_not_done {b : UInt8} {bs : List UInt8} (h : (c.receive (b :: bs)).1 = false) :
    ∃ c', c.feed b = (false, c') ∧ (c'.receive bs).1 = false ∧
      (c.receive (b :: bs)).2.1 = (c'.receive bs).2.1 := by
  rcases hfeed : c.feed b with ⟨_ | _, c'⟩
  · obtain ⟨notes, hread⟩ := receive_of_feed_false bs hfeed
    rw [hread] at h ⊢
    exact ⟨c', rfl, h, rfl⟩
  · obtain ⟨notes, hread⟩ := receive_of_feed_true bs hfeed
    rw [hread] at h
    cases h

theorem consumed_of_not_done {data : List UInt8} (h : (c.receive data).1 = false) :
    c.consumed data = data := by
  induction data generalizing c with
  | nil => rfl
  | cons b bs ih =>
    obtain ⟨c', hfeed, hrest, -⟩ := feed_of_not_done h
    rw [consumed_of_feed_false hfeed, ih hrest]

theorem ready_of_not_done {data : List UInt8} (h : (c.receive data).1 = false)
    (hr : c.ready = false) : (c.receive data).2.1.ready = false := by
  induction data generalizing c with
  | nil => simpa using hr
  | cons b bs ih =>
    obtain ⟨c', hfeed, hrest, heq⟩ := feed_of_not_done h
    rw [heq]
    exact ih hrest (ready_of_feed_false hfeed hr)

/-- Nor does a part of bytes complete a frame if the whole does not. -/
theorem not_done_of_append {xs : List UInt8} (ys : List UInt8)
    (h : (c.receive (xs ++ ys)).1 = false) : (c.receive xs).1 = false := by
  rw [receive_append] at h
  rcases hx : c.receive xs with ⟨_ | _, c', notes⟩
  · rfl
  · rw [hx] at h
    cases h

theorem receive_append_of_not_done {xs : List UInt8} (h : (c.receive xs).1 = false)
    (ys : List UInt8) : ∃ notes, c.receive (xs ++ ys) =
      (((c.receive xs).2.1.receive ys).1, ((c.receive xs).2.1.receive ys).2.1, notes) := by
  rw [receive_append]
  rcases hx : c.receive xs with ⟨done, c', notes⟩
  rw [hx] at h
  obtain rfl : done = false := h
  exact ⟨_, rfl⟩

/-- Bytes that complete no frame may come in one read or in several. -/
theorem actAll_push {chunks : List (List UInt8)} (h : (c.receive chunks.flatten).1 = false) :
    c.actAll (chunks.map .push) =
      (chunks.map (.received · false), (c.receive chunks.flatten).2.1) := by
  induction chunks generalizing c with
  | nil => simp [actAll]
  | cons data chunks ih =>
    -- no read completes a frame, so none of them drops bytes
    have hdata : (c.receive data).1 = false := not_done_of_append chunks.flatten h
    have hact : c.act (.push data) = (.received data false, (c.receive data).2.1) := by
      rw [act, consumed_of_not_done hdata, hdata]
    obtain ⟨notes, hread⟩ := receive_append_of_not_done hdata chunks.flatten
    rw [List.flatten_cons, hread] at h ⊢
    rw [List.map_cons, actAll, hact, ih h]
    rfl

end Capture

end OnboardVision

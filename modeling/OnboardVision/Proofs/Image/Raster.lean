import OnboardVision.Proofs.Image.Pixels

/-!
# Images with size and pixels apart

That the size and the pixels of an `Image` agree is part of its type.  `Raster` keeps them as fields
of their own, in a buffer that can be brought to any length up to its capacity.  It is addressed by
signed numbers of 32 bits, and the place of a pixel is a number of 32 bits that wraps around.  An
operation has no result where a place lies outside the pixels.

`Raster.editAll?_raster` says that edits always have a result, and that it is the one of `Image`.
`Raster.Faithful` is what one can rely on then (`Raster.faithful_of_edits`): there is one brightness
per pixel, sizes are taken exactly if they fit, and a pixel that is written is the only one that
changes.
-/

namespace OnboardVision

/-- A grey image whose size and pixels need not agree. -/
structure Raster (capacity : ℕ) where
  /-- Pixels in a row. -/
  width : UInt16 := 0
  /-- Rows. -/
  height : UInt16 := 0
  /-- The brightness of every pixel, row after row. -/
  pixels : Array UInt8 := #[]
  deriving DecidableEq, Repr

/-- The fields of an image. -/
def Image.raster {capacity : ℕ} (im : Image capacity) : Raster capacity :=
  ⟨im.width, im.height, im.pixels⟩

/-! ### Edits -/

/-- An operation on an image. -/
inductive Edit where
  /-- Starts again without pixels. -/
  | clear
  /-- Starts again with a size and one brightness, if the size fits. -/
  | fill (width height : UInt16) (luma : UInt8)
  /-- Gives the image a new size and one brightness, if the size fits. -/
  | reshape (width height : UInt16) (luma : UInt8)
  /-- Writes a pixel. -/
  | set (x y : Int32) (luma : UInt8)
  /-- Replaces the pixels by as many others. -/
  | rewrite (f : Array UInt8 → Array UInt8) (size_eq : ∀ a, (f a).size = a.size)

/-- Makes an edit; the flag tells whether its size was taken. -/
def Image.edit {capacity : ℕ} (im : Image capacity) : Edit → Bool × Image capacity
  | .clear => (true, .empty)
  | .fill width height luma =>
    match filled? width height luma with
    | some im' => (true, im')
    | none => (false, im)
  | .reshape width height luma => im.reshape width height luma
  | .set x y luma => (true, im.set x.toInt y.toInt luma)
  | .rewrite f size_eq => (true, im.withPixels f size_eq)

/-- Makes edits. -/
def Image.editAll {capacity : ℕ} (im : Image capacity) : List Edit → List Bool × Image capacity
  | [] => ([], im)
  | e :: es => ((im.edit e).1 :: ((im.edit e).2.editAll es).1, ((im.edit e).2.editAll es).2)

namespace Raster

variable {capacity : ℕ} {im : Image capacity} {r : Raster capacity}

/-- Brings pixels to the number `n`, by cutting some off or putting new ones behind them; not if
there is no room. -/
def resize? (capacity : ℕ) (pixels : Array UInt8) (n : ℕ) (luma : UInt8) : Option (Array UInt8) :=
  if n ≤ capacity then some (pixels.take n ++ Array.replicate (n - pixels.size) luma) else none

/-- Gives a raster a new size and one brightness; the flag tells whether the size fits. -/
def reshape (r : Raster capacity) (width height : UInt16) (luma : UInt8) :
    Bool × Raster capacity :=
  let n := (width.toUInt32 * height.toUInt32).toNat
  if capacity < n then (false, r)
  else
    -- the pixels are gone before there are new ones
    match resize? capacity #[] n luma with
    | some pixels => (true, { width, height, pixels })
    | none => (false, { r with pixels := #[] })

/-- A raster of one brightness, if its size fits. -/
def filled? (width height : UInt16) (luma : UInt8) : Option (Raster capacity) :=
  match reshape {} width height luma with
  | (true, r) => some r
  | (false, _) => none

/-- The place of a pixel among the pixels. -/
def place? (r : Raster capacity) (x y : Int32) : Option UInt32 :=
  if x < 0 ∨ y < 0 ∨ Int32.ofNat r.width.toNat ≤ x ∨ Int32.ofNat r.height.toNat ≤ y then none
  else some (y.toUInt32 * r.width.toUInt32 + x.toUInt32)

/-- The brightness of a pixel; no result if its place lies outside. -/
def get? (r : Raster capacity) (x y : Int32) : Option (Option UInt8) :=
  match r.place? x y with
  | none => some none
  | some i => (r.pixels[i.toNat]?).map some

/-- Writes a pixel; no result if its place lies outside. -/
def set? (r : Raster capacity) (x y : Int32) (luma : UInt8) : Option (Raster capacity) :=
  match r.place? x y with
  | none => some r
  | some i =>
    if i.toNat < r.pixels.size then
      some { r with pixels := r.pixels.setIfInBounds i.toNat luma }
    else none

/-- Makes an edit; the flag tells whether its size was taken. -/
def edit? (r : Raster capacity) : Edit → Option (Bool × Raster capacity)
  | .clear => some (true, {})
  | .fill width height luma =>
    match filled? width height luma with
    | some r' => some (true, r')
    | none => some (false, r)
  | .reshape width height luma => some (r.reshape width height luma)
  | .set x y luma => (r.set? x y luma).map (true, ·)
  | .rewrite f _ => some (true, { r with pixels := f r.pixels })

/-- Makes edits. -/
def editAll? (r : Raster capacity) : List Edit → Option (List Bool × Raster capacity)
  | [] => some ([], r)
  | e :: es => do
    let (flag, r) ← r.edit? e
    let (flags, r) ← r.editAll? es
    return (flag :: flags, r)

/-! ### Sizes -/

/-- The raster of a size and one brightness. -/
def uniform (width height : UInt16) (luma : UInt8) : Raster capacity :=
  ⟨width, height, Array.replicate (width.toNat * height.toNat) luma⟩

/-- Rows of 16 bits and columns of 16 bits have their product in 32 bits. -/
theorem toNat_size (w h : UInt16) : (w.toUInt32 * h.toUInt32).toNat = w.toNat * h.toNat := by
  have hw := w.toNat_lt
  have hh := h.toNat_lt
  have hprod : w.toNat * h.toNat < 2 ^ 16 * 2 ^ 16 := Nat.mul_lt_mul'' hw hh
  rw [UInt32.toNat_mul, UInt16.toNat_toUInt32, UInt16.toNat_toUInt32]
  exact Nat.mod_eq_of_lt hprod

theorem reshape_eq (r : Raster capacity) (w h : UInt16) (luma : UInt8) :
    r.reshape w h luma =
      if w.toNat * h.toNat ≤ capacity then (true, uniform w h luma) else (false, r) := by
  rw [reshape, toNat_size]
  by_cases hfit : w.toNat * h.toNat ≤ capacity
  · have hresize : resize? capacity #[] (w.toNat * h.toNat) luma =
        some (Array.replicate (w.toNat * h.toNat) luma) := by
      simp [resize?, hfit]
    simp only [if_neg (Nat.not_lt_of_le hfit), hresize, if_pos hfit]
    rfl
  · rw [if_pos (Nat.lt_of_not_le hfit), if_neg hfit]

theorem filled?_eq (w h : UInt16) (luma : UInt8) :
    (filled? w h luma : Option (Raster capacity)) =
      if w.toNat * h.toNat ≤ capacity then some (uniform w h luma) else none := by
  rw [filled?, reshape_eq]
  by_cases hfit : w.toNat * h.toNat ≤ capacity
  · rw [if_pos hfit, if_pos hfit]
  · rw [if_neg hfit, if_neg hfit]

theorem map_filled? (w h : UInt16) (luma : UInt8) :
    (Image.filled? w h luma : Option (Image capacity)).map Image.raster = filled? w h luma := by
  rw [filled?_eq, Image.filled?]
  by_cases hfit : w.toNat * h.toNat ≤ capacity
  · rw [dif_pos hfit, if_pos hfit]
    rfl
  · rw [dif_neg hfit, if_neg hfit]
    rfl

theorem reshape_raster (im : Image capacity) (w h : UInt16) (luma : UInt8) :
    im.raster.reshape w h luma =
      ((im.reshape w h luma).1, (im.reshape w h luma).2.raster) := by
  rw [reshape_eq, Image.reshape, Image.filled?]
  by_cases hfit : w.toNat * h.toNat ≤ capacity
  · rw [dif_pos hfit, if_pos hfit]
    rfl
  · rw [dif_neg hfit, if_neg hfit]

/-! ### Places -/

/-- The coordinates lie in the raster. -/
def Inside (r : Raster capacity) (x y : Int32) : Prop :=
  0 ≤ x.toInt ∧ x.toInt < r.width.toNat ∧ 0 ≤ y.toInt ∧ y.toInt < r.height.toNat

instance (r : Raster capacity) (x y : Int32) : Decidable (r.Inside x y) :=
  inferInstanceAs (Decidable (_ ∧ _ ∧ _ ∧ _))

theorem toInt_ofNat_toNat (n : UInt16) : (Int32.ofNat n.toNat).toInt = n.toNat :=
  Int32.toInt_ofNat_of_lt (Nat.lt_of_lt_of_le n.toNat_lt (by decide))

theorem toNat_toUInt32_of_nonneg {x : Int32} (h : 0 ≤ x.toInt) :
    x.toUInt32.toNat = x.toInt.toNat :=
  Int32.toNat_toUInt32_of_le (Int32.le_iff_toInt_le.2 h)

theorem not_inside_iff {x y : Int32} : ¬ r.Inside x y ↔
    x < 0 ∨ y < 0 ∨ Int32.ofNat r.width.toNat ≤ x ∨ Int32.ofNat r.height.toNat ≤ y := by
  simp only [Inside, Int32.lt_iff_toInt_lt, Int32.le_iff_toInt_le, toInt_ofNat_toNat,
    Int32.toInt_zero]
  omega

/-- The place of a pixel does not wrap around. -/
theorem toNat_place {x y : Int32} (h : r.Inside x y) :
    (y.toUInt32 * r.width.toUInt32 + x.toUInt32).toNat =
      y.toInt.toNat * r.width.toNat + x.toInt.toNat := by
  obtain ⟨hx, hxw, hy, hyh⟩ := h
  have hw := r.width.toNat_lt
  have hh := r.height.toNat_lt
  have hrow : y.toInt.toNat + 1 ≤ 2 ^ 16 := by omega
  have hrows : (y.toInt.toNat + 1) * r.width.toNat ≤ 2 ^ 16 * 2 ^ 16 :=
    Nat.mul_le_mul hrow (Nat.le_of_lt hw)
  rw [Nat.add_mul, Nat.one_mul] at hrows
  rw [UInt32.toNat_add, UInt32.toNat_mul, UInt16.toNat_toUInt32, toNat_toUInt32_of_nonneg hx,
    toNat_toUInt32_of_nonneg hy, Nat.mod_add_mod]
  exact Nat.mod_eq_of_lt (by omega)

/-- The place is the one in the image. -/
theorem map_place? (im : Image capacity) (x y : Int32) :
    (im.raster.place? x y).map UInt32.toNat = im.index? x.toInt y.toInt := by
  by_cases h : im.raster.Inside x y
  · rw [place?, if_neg (not_inside_iff.not_right.1 h), Option.map_some, toNat_place h]
    exact (if_pos h).symm
  · rw [place?, if_pos (not_inside_iff.1 h)]
    exact (if_neg h).symm

theorem get?_raster (im : Image capacity) (x y : Int32) :
    im.raster.get? x y = some (im.get? x.toInt y.toInt) := by
  have hplace := map_place? im x y
  rw [get?]
  cases hp : im.raster.place? x y with
  | none =>
    rw [hp] at hplace
    rw [Image.get?_of_index?_eq_none hplace.symm]
  | some i =>
    rw [hp] at hplace
    have hlt := Image.index?_lt hplace.symm
    rw [Image.get?_of_index? hplace.symm, Array.getElem?_eq_getElem hlt]
    exact congrArg (Option.map some) (Array.getElem?_eq_getElem hlt)

theorem set?_raster (im : Image capacity) (x y : Int32) (luma : UInt8) :
    im.raster.set? x y luma = some (im.set x.toInt y.toInt luma).raster := by
  have hplace := map_place? im x y
  rw [set?]
  cases hp : im.raster.place? x y with
  | none =>
    rw [hp] at hplace
    rw [Image.set_of_index?_eq_none hplace.symm]
  | some i =>
    rw [hp] at hplace
    have hlt := Image.index?_lt hplace.symm
    rw [Image.set, ← hplace]
    exact if_pos hlt

/-! ### Edits of an image -/

theorem edit?_raster (im : Image capacity) (e : Edit) :
    im.raster.edit? e = some ((im.edit e).1, (im.edit e).2.raster) := by
  cases e with
  | clear => rfl
  | fill w h luma =>
    rw [edit?, ← map_filled?, Image.edit]
    cases (Image.filled? w h luma : Option (Image capacity)) <;> rfl
  | reshape w h luma => rw [edit?, reshape_raster, Image.edit]
  | set x y luma => rw [edit?, set?_raster, Image.edit, Option.map_some]
  | rewrite f size_eq => rfl

/-- **Edits always have a result**, which is the one of the image. -/
theorem editAll?_raster (im : Image capacity) (edits : List Edit) :
    im.raster.editAll? edits = some ((im.editAll edits).1, (im.editAll edits).2.raster) := by
  induction edits generalizing im with
  | nil => rfl
  | cons e edits ih =>
    rw [editAll?, edit?_raster, Option.bind_eq_bind, Option.bind_some]
    dsimp only
    rw [ih]
    rfl

/-! ### What edits leave -/

/-- Size and pixels agree, sizes are taken exactly if they fit, and pixels are read and written one
by one. -/
structure Faithful (r : Raster capacity) : Prop where
  /-- There is one brightness per pixel. -/
  size_eq : r.pixels.size = r.width.toNat * r.height.toNat
  /-- The pixels fit. -/
  size_le : r.pixels.size ≤ capacity
  /-- A size that fits is taken, and one that does not changes nothing. -/
  reshape : ∀ w h luma, r.reshape w h luma =
    if w.toNat * h.toNat ≤ capacity then (true, uniform w h luma) else (false, r)
  /-- Inside the raster, a pixel is read from its row and column. -/
  get : ∀ x y, r.Inside x y → ∃ luma, r.get? x y = some (some luma) ∧
    r.pixels[y.toInt.toNat * r.width.toNat + x.toInt.toNat]? = some luma
  /-- Outside there is no pixel. -/
  get_outside : ∀ x y, ¬ r.Inside x y → r.get? x y = some none
  /-- A pixel that is written inside the raster is the only one that changes. -/
  set : ∀ x y luma, r.Inside x y → ∃ r', r.set? x y luma = some r' ∧
    r'.width = r.width ∧ r'.height = r.height ∧ r'.get? x y = some (some luma) ∧
    ∀ x' y', ¬ (x' = x ∧ y' = y) → r'.get? x' y' = r.get? x' y'
  /-- A write outside changes nothing. -/
  set_outside : ∀ x y luma, ¬ r.Inside x y → r.set? x y luma = some r

theorem index?_of_inside {x y : Int32} (h : im.raster.Inside x y) :
    im.index? x.toInt y.toInt = some (y.toInt.toNat * im.width.toNat + x.toInt.toNat) := if_pos h

theorem index?_of_not_inside {x y : Int32} (h : ¬ im.raster.Inside x y) :
    im.index? x.toInt y.toInt = none := if_neg h

theorem faithful_raster (im : Image capacity) : im.raster.Faithful where
  size_eq := im.size_eq
  size_le := im.size_le
  reshape := reshape_eq im.raster
  get x y h := by
    have hindex := index?_of_inside h
    have hlt := Image.index?_lt hindex
    refine ⟨_, ?_, Array.getElem?_eq_getElem hlt⟩
    rw [get?_raster, Image.get?_of_index? hindex, Array.getElem?_eq_getElem hlt]
  get_outside x y h := by
    rw [get?_raster, Image.get?_of_index?_eq_none (index?_of_not_inside h)]
  set x y luma h := by
    have hindex := index?_of_inside h
    refine ⟨_, set?_raster im x y luma, Image.width_set .., Image.height_set .., ?_, ?_⟩
    · have hlt := Image.index?_lt hindex
      rw [get?_raster, Image.get?_set, if_pos ⟨rfl, rfl⟩, Image.get?_of_index? hindex,
        Array.getElem?_eq_getElem hlt]
      rfl
    · intro x' y' hother
      rw [← Int32.toInt_inj, ← Int32.toInt_inj] at hother
      rw [get?_raster, get?_raster, Image.get?_set, if_neg hother]
  set_outside x y luma h := by
    rw [set?_raster, Image.set_of_index?_eq_none (index?_of_not_inside h)]

/-- **Edits leave an image.**  Whatever edits are made, none comes to a place outside the pixels,
and what they come to is what `Image` comes to.  It has one brightness per pixel, takes a size
exactly if it fits, and reads and writes each pixel at its row and column and no other; and a new
image of one brightness is to be had exactly if it fits. -/
theorem faithful_of_edits (edits : List Edit) :
    let (flags, im) := (Image.empty : Image capacity).editAll edits
    editAll? {} edits = some (flags, im.raster) ∧ im.raster.Faithful ∧
      (∀ x y : Int32, im.raster.get? x y = some (im.get? x.toInt y.toInt)) ∧
      ∀ w h luma, (filled? w h luma : Option (Raster capacity)) =
        if w.toNat * h.toNat ≤ capacity then some (uniform w h luma) else none :=
  ⟨editAll?_raster .empty edits, faithful_raster _, get?_raster _, filled?_eq⟩

/-- A size that does not fit, and writes beside every edge of the raster and into its last pixel. -/
example :
    let r : Option (List Bool × Raster 6) := editAll? {}
      [.fill 3 2 10, .reshape 4 2 20, .set (-1) 1 200, .set 3 0 200, .set 0 2 200, .set 2 1 200]
    r = some ([true, false, true, true, true, true], ⟨3, 2, #[10, 10, 10, 10, 10, 200]⟩) := by
  decide

end Raster

end OnboardVision

import Mathlib.Data.Int.Basic
import OnboardVision.Image.Basic

/-!
# Pixels of an image

Every pixel has a place of its own among the pixels of an image, and none lies outside
(`Image.index?_lt`, `Image.index?_inj`).  So a write changes the one pixel that it is addressed to
(`Image.get?_set`).

`Image.Painted v S im im'` says that `im'` is `im` with the pixels in `S` of brightness `v`.  A drawing
that writes one pixel after the other is taken apart with `Image.Painted.foldl`.
-/

namespace OnboardVision

namespace Image

variable {capacity : ℕ} {im im' im'' : Image capacity} {x y x' y' : ℤ} {i : ℕ} {v : UInt8}

/-! ### Places -/

theorem index?_eq_some_iff : im.index? x y = some i ↔
    (0 ≤ x ∧ x < im.width.toNat ∧ 0 ≤ y ∧ y < im.height.toNat) ∧
      i = y.toNat * im.width.toNat + x.toNat := by
  rw [index?]
  split
  · rename_i h
    simp [h, eq_comm]
  · rename_i h
    simp [h]

/-- A pixel inside the image has a place. -/
theorem index?_lt (h : im.index? x y = some i) : i < im.pixels.size := by
  obtain ⟨⟨hx, hxw, hy, hyh⟩, rfl⟩ := index?_eq_some_iff.1 h
  have hrow : y.toNat + 1 ≤ im.height.toNat := by omega
  have hbelow := Nat.mul_le_mul_right im.width.toNat hrow
  rw [Nat.add_mul, Nat.one_mul] at hbelow
  rw [im.size_eq, Nat.mul_comm im.width.toNat]
  omega

/-- No two pixels have the same place. -/
theorem index?_inj (h : im.index? x y = some i) (h' : im.index? x' y' = some i) :
    x = x' ∧ y = y' := by
  obtain ⟨⟨hx, hxw, hy, hyh⟩, hi⟩ := index?_eq_some_iff.1 h
  obtain ⟨⟨hx', hxw', hy', hyh'⟩, hi'⟩ := index?_eq_some_iff.1 h'
  have hwidth : 0 < im.width.toNat := by omega
  rw [hi] at hi'
  -- row and column are the quotient and the remainder of the place by the width
  have hcolumn := congrArg (· % im.width.toNat) hi'
  have hrow := congrArg (· / im.width.toNat) hi'
  simp only [Nat.mul_comm _ im.width.toNat] at hcolumn hrow
  rw [Nat.mul_add_mod, Nat.mul_add_mod, Nat.mod_eq_of_lt (by omega), Nat.mod_eq_of_lt (by omega)]
    at hcolumn
  rw [Nat.mul_add_div hwidth, Nat.mul_add_div hwidth, Nat.div_eq_of_lt (by omega),
    Nat.div_eq_of_lt (by omega)] at hrow
  omega

theorem get?_of_index? (h : im.index? x y = some i) : im.get? x y = im.pixels[i]? := by
  rw [get?, h]
  rfl

theorem get?_of_index?_eq_none (h : im.index? x y = none) : im.get? x y = none := by
  rw [get?, h]
  rfl

/-! ### Writes -/

@[simp] theorem width_set (im : Image capacity) (x y : ℤ) (v : UInt8) :
    (im.set x y v).width = im.width := by
  rw [set]
  split <;> rfl

@[simp] theorem height_set (im : Image capacity) (x y : ℤ) (v : UInt8) :
    (im.set x y v).height = im.height := by
  rw [set]
  split <;> rfl

@[simp] theorem index?_set (im : Image capacity) (x y : ℤ) (v : UInt8) (x' y' : ℤ) :
    (im.set x y v).index? x' y' = im.index? x' y' := by
  rw [index?, index?, width_set, height_set]

theorem set_of_index? (h : im.index? x y = some i) :
    (im.set x y v).pixels = im.pixels.setIfInBounds i v := by
  rw [set, h]
  rfl

theorem set_of_index?_eq_none (h : im.index? x y = none) : im.set x y v = im := by
  rw [set, h]

/-- A write changes the pixel that it is addressed to, if there is this pixel, and no other. -/
theorem get?_set (im : Image capacity) (x y : ℤ) (v : UInt8) (x' y' : ℤ) :
    (im.set x y v).get? x' y' =
      if x' = x ∧ y' = y then (im.get? x' y').map fun _ => v else im.get? x' y' := by
  cases hplace : im.index? x' y' with
  | none =>
    rw [get?_of_index?_eq_none hplace, get?_of_index?_eq_none ((index?_set ..).trans hplace)]
    split <;> rfl
  | some j =>
    rw [get?_of_index? hplace, get?_of_index? ((index?_set ..).trans hplace)]
    cases hwritten : im.index? x y with
    | none =>
      rw [set_of_index?_eq_none hwritten, if_neg]
      rintro ⟨rfl, rfl⟩
      rw [hplace] at hwritten
      cases hwritten
    | some i =>
      rw [set_of_index? hwritten, Array.getElem?_setIfInBounds]
      by_cases hsame : x' = x ∧ y' = y
      · obtain ⟨rfl, rfl⟩ := hsame
        obtain rfl : j = i := Option.some.inj (hplace.symm.trans hwritten)
        have hlt := index?_lt hplace
        simp [hlt]
      · have hother : i ≠ j := by
          rintro rfl
          exact hsame (index?_inj hplace hwritten)
        rw [if_neg hother, if_neg hsame]

/-! ### Painting -/

/-- The image `im'` is `im` with the pixels in `S` of brightness `v`. -/
structure Painted (v : UInt8) (S : ℤ → ℤ → Prop) (im im' : Image capacity) : Prop where
  /-- The width stays. -/
  width_eq : im'.width = im.width
  /-- The height stays. -/
  height_eq : im'.height = im.height
  /-- The pixels in `S` that there are have the brightness. -/
  get?_of_mem : ∀ x y, S x y → im'.get? x y = (im.get? x y).map fun _ => v
  /-- The others stay. -/
  get?_of_not_mem : ∀ x y, ¬ S x y → im'.get? x y = im.get? x y

namespace Painted

variable {S T : ℤ → ℤ → Prop}

theorem of_iff (h : Painted v S im im') (hiff : ∀ x y, S x y ↔ T x y) : Painted v T im im' where
  width_eq := h.width_eq
  height_eq := h.height_eq
  get?_of_mem x y hxy := h.get?_of_mem x y ((hiff x y).2 hxy)
  get?_of_not_mem x y hxy := h.get?_of_not_mem x y fun hS => hxy ((hiff x y).1 hS)

theorem refl (v : UInt8) (im : Image capacity) : Painted v (fun _ _ => False) im im :=
  ⟨rfl, rfl, fun _ _ h => h.elim, fun _ _ _ => rfl⟩

theorem trans (h : Painted v S im im') (h' : Painted v T im' im'') :
    Painted v (fun x y => S x y ∨ T x y) im im'' where
  width_eq := h'.width_eq.trans h.width_eq
  height_eq := h'.height_eq.trans h.height_eq
  get?_of_mem x y hxy := by
    by_cases hT : T x y
    · rw [h'.get?_of_mem x y hT]
      by_cases hS : S x y
      · rw [h.get?_of_mem x y hS, Option.map_map]
        rfl
      · rw [h.get?_of_not_mem x y hS]
    · rw [h'.get?_of_not_mem x y hT, h.get?_of_mem x y (hxy.resolve_right hT)]
  get?_of_not_mem x y hxy := by
    rw [not_or] at hxy
    rw [h'.get?_of_not_mem x y hxy.2, h.get?_of_not_mem x y hxy.1]

/-- What is painted step by step. -/
theorem foldl {α : Type} {f : Image capacity → α → Image capacity} {S : α → ℤ → ℤ → Prop}
    (hstep : ∀ im a, Painted v (S a) im (f im a)) (l : List α) (im : Image capacity) :
    Painted v (fun x y => ∃ a ∈ l, S a x y) im (l.foldl f im) := by
  induction l generalizing im with
  | nil => exact (refl v im).of_iff (by simp)
  | cons a l ih => exact ((hstep im a).trans (ih (f im a))).of_iff (by simp)

end Painted

theorem painted_set (im : Image capacity) (x y : ℤ) (v : UInt8) :
    Painted v (fun x' y' => x' = x ∧ y' = y) im (im.set x y v) where
  width_eq := width_set im x y v
  height_eq := height_set im x y v
  get?_of_mem x' y' h := by rw [get?_set, if_pos h]
  get?_of_not_mem x' y' h := by rw [get?_set, if_neg h]

end Image

end OnboardVision

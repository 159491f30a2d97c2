/-!
# Images

`Image capacity` is a grey image of at most `capacity` pixels in row-major order.  Its size and its
pixels always agree; that is part of the type.  A size that does not fit is refused and changes
nothing.  Pixels are addressed by integers, and what is addressed outside the image is not there:
reading gives nothing and writing does nothing.
-/

namespace OnboardVision

/-- A grey image of at most `capacity` pixels. -/
structure Image (capacity : Nat) where
  /-- Pixels in a row. -/
  width : UInt16
  /-- Rows. -/
  height : UInt16
  /-- The brightness of every pixel, row after row. -/
  pixels : Array UInt8
  /-- There is one brightness per pixel. -/
  size_eq : pixels.size = width.toNat * height.toNat
  /-- The pixels fit. -/
  size_le : pixels.size ≤ capacity
  deriving DecidableEq, Repr

namespace Image

variable {capacity : Nat}

/-- The image without pixels. -/
def empty : Image capacity :=
  { width := 0, height := 0, pixels := #[], size_eq := rfl, size_le := Nat.zero_le _ }

instance : Inhabited (Image capacity) := ⟨empty⟩

/-- An image of one brightness, if its size fits. -/
def filled? (width height : UInt16) (luma : UInt8) : Option (Image capacity) :=
  if h : width.toNat * height.toNat ≤ capacity then
    some
      { width, height
        pixels := Array.replicate (width.toNat * height.toNat) luma
        size_eq := Array.size_replicate
        size_le := by rw [Array.size_replicate]; exact h }
  else none

/-- Gives an image a new size and one brightness, if the size fits; the flag tells whether. -/
def reshape (im : Image capacity) (width height : UInt16) (luma : UInt8) : Bool × Image capacity :=
  match filled? width height luma with
  | some im' => (true, im')
  | none => (false, im)

/-- The place of a pixel among the pixels. -/
def index? (im : Image capacity) (x y : Int) : Option Nat :=
  if 0 ≤ x ∧ x < im.width.toNat ∧ 0 ≤ y ∧ y < im.height.toNat then
    some (y.toNat * im.width.toNat + x.toNat)
  else none

/-- The brightness of a pixel. -/
def get? (im : Image capacity) (x y : Int) : Option UInt8 := do im.pixels[← im.index? x y]?

/-- Replaces the pixels by as many others. -/
def withPixels (im : Image capacity) (f : Array UInt8 → Array UInt8)
    (h : ∀ a, (f a).size = a.size) : Image capacity :=
  { im with
    pixels := f im.pixels
    size_eq := by rw [h]; exact im.size_eq
    size_le := by rw [h]; exact im.size_le }

/-- Writes a pixel. -/
def set (im : Image capacity) (x y : Int) (luma : UInt8) : Image capacity :=
  match im.index? x y with
  | some i => im.withPixels (fun a => a.setIfInBounds i luma) fun _ => Array.size_setIfInBounds
  | none => im

/-- Writes bytes into an array from a place on; what does not fit is left out. -/
def write (a : Array UInt8) (i : Nat) : List UInt8 → Array UInt8
  | [] => a
  | b :: bs => write (a.setIfInBounds i b) (i + 1) bs

theorem size_write (a : Array UInt8) (i : Nat) (bs : List UInt8) :
    (write a i bs).size = a.size := by
  induction bs generalizing a i with
  | nil => rfl
  | cons b bs ih => simp [write, ih]

/-- Overwrites pixels from a place on. -/
def overwrite (im : Image capacity) (i : Nat) (bytes : List UInt8) : Image capacity :=
  im.withPixels (fun a => write a i bytes) fun a => size_write a i bytes

/-- Replaces every pixel by a function of its place and brightness. -/
def mapPixels (im : Image capacity) (f : Nat → UInt8 → UInt8) : Image capacity :=
  im.withPixels (fun a => a.mapIdx f) fun _ => Array.size_mapIdx

/-- The mean brightness, rounded down; zero for an image without pixels. -/
def mean (im : Image capacity) : UInt8 :=
  if im.pixels.isEmpty then 0
  else UInt8.ofNat ((im.pixels.foldl (fun n p => n + p.toNat) 0) / im.pixels.size)

end Image

/-- The retained image after an iteration: a new one replaces it, and without one it stays. -/
def retain {capacity : Nat} (previous current : Option (Image capacity)) : Option (Image capacity) :=
  current <|> previous

end OnboardVision

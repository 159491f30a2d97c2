import OnboardVision.Image.Basic
import OnboardVision.Single.Trig
import OnboardVision.Telemetry.Basic

/-!
# The artificial horizon

`Horizon.ofAttitude` places a line in an image: through the centre, moved by pitch and turned by
roll.  `Horizon.paint` draws it with a square brush at each of `Horizon.points`, the digital line
between the end points.
-/

namespace OnboardVision

/-- A pixel position, which may lie outside the image. -/
structure Point where
  /-- To the right. -/
  x : Int
  /-- Downwards. -/
  y : Int
  deriving DecidableEq, Repr, Inhabited

/-- A line between two points. -/
structure Horizon where
  /-- Where the line starts. -/
  left : Point
  /-- Where the line ends. -/
  right : Point
  deriving DecidableEq, Repr, Inhabited

namespace Horizon

/-- The brightness of the line. -/
def luma : UInt8 := 226

/-- How far the brush reaches from its centre: the line is three pixels thick. -/
def reach : Nat := 1

/-- The pitch in degrees that moves the line by the height of the image. -/
def pitchSpan : Single := 60

/-- The horizon of an attitude.  Half of the line is a third of the image's shorter side. -/
def ofAttitude (a : Attitude) (width height : UInt16) : Horizon :=
  let w := Single.ofNat width.toNat
  let h := Single.ofNat height.toNat
  let x : Int := (width.toNat / 2 : Nat)
  let y := (Single.ofNat (height.toNat / 2) + a.pitch * h / pitchSpan).toInt32
  let half := w.least h / 3
  let roll := a.roll.toRadians
  let dx := (half * roll.cos).round.toInt32
  let dy := (-half * roll.sin).round.toInt32
  { left := ⟨x - dx, y - dy⟩, right := ⟨x + dx, y + dy⟩ }

/-! ### The digital line -/

/-- The direction from `a` to `b`. -/
def heading (a b : Int) : Int := if a < b then 1 else -1

/-- One step along a line with extents `dx ≥ 0` and `dy ≤ 0` and the given headings.  The error
term tells which axes the step takes. -/
def advance (dx dy sx sy : Int) (p : Point) (err : Int) : Point × Int :=
  let stepX := dy ≤ 2 * err
  let stepY := 2 * err ≤ dx
  (⟨if stepX then p.x + sx else p.x, if stepY then p.y + sy else p.y⟩,
    err + (if stepX then dy else 0) + (if stepY then dx else 0))

/-- The points from `p` on until the line reaches its end, or `steps` steps are taken. -/
def walk (dx dy sx sy : Int) (goal : Point) : Nat → Point → Int → List Point
  | 0, p, _ => [p]
  | steps + 1, p, err =>
    if p = goal then [p]
    else
      let (p', err') := advance dx dy sx sy p err
      p :: walk dx dy sx sy goal steps p' err'

/-- How many steps the line takes: one per pixel of its longer axis. -/
def length (l : Horizon) : Nat :=
  max (l.right.x - l.left.x).natAbs (l.right.y - l.left.y).natAbs

/-- The points of the line in order. -/
def points (l : Horizon) : List Point :=
  let dx : Int := (l.right.x - l.left.x).natAbs
  let dy : Int := -(l.right.y - l.left.y).natAbs
  walk dx dy (heading l.left.x l.right.x) (heading l.left.y l.right.y) l.right l.length l.left
    (dx + dy)

/-! ### Drawing -/

variable {capacity : Nat}

/-- The offsets that the brush covers along one axis. -/
def brush : List Int := (List.range (2 * reach + 1)).map fun (i : Nat) => (i : Int) - reach

/-- Presses the brush on an image. -/
def stamp (im : Image capacity) (p : Point) : Image capacity :=
  brush.foldl (fun im oy => brush.foldl (fun im ox => im.set (p.x + ox) (p.y + oy) luma) im) im

/-- Draws the line on an image. -/
def paint (l : Horizon) (im : Image capacity) : Image capacity := l.points.foldl stamp im

end Horizon

end OnboardVision

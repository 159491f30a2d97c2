import OnboardVision.Single.Arith

/-!
# Angles and quick trigonometry

The sine and cosine of the flight code: a parabola through the extrema, corrected once by a
second parabola.  They are cheap and accurate to about a thousandth; the exact bits depend on the
order of the roundings, which is the order of the operations below.
-/

namespace OnboardVision

namespace Single

/-- The number nearest to π. -/
def pi : Single := ofBits 0x40490fdb

/-- The number nearest to 1/π. -/
def invPi : Single := ofBits 0x3ea2f983

/-- The largest integer not above `x`, within the 32-bit signed range. -/
def floor (x : Single) : Single :=
  let r := ofInt x.toInt32
  if x < r then r - 1 else r

/-- The nearest integer, a half going away from zero, within the 32-bit signed range. -/
def round (x : Single) : Single :=
  ofInt (x + (0.5 : Single).withSign x.isNeg).toInt32

/-- Approximate cosine of an angle in radians. -/
def cos (x : Single) : Single :=
  let turns := x * (invPi / 2)
  let phase := turns - (0.25 + floor (turns + 0.25))
  let wave := phase * (16 * (phase.abs - 0.5))
  wave + (0.225 * wave) * (wave.abs - 1)

/-- Approximate sine of an angle in radians. -/
def sin (x : Single) : Single := cos (x - pi / 2)

/-- Degrees to radians. -/
def toRadians (x : Single) : Single := x * (pi / 180)

/-- Radians to degrees. -/
def toDegrees (x : Single) : Single := x * 57.2957795130823208767981548141051703

end Single

end OnboardVision

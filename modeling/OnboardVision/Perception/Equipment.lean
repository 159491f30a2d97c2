import OnboardVision.Image.Basic
import OnboardVision.Timeline

/-!
# What a perception loop is connected to

A video source, an estimator and a display.  Only a video source may take time.
-/

namespace OnboardVision

/-- Where images come from. -/
class ImageSource (V : Type) (E R : outParam Type) (capacity : outParam Nat) where
  /-- Asks for a capture size. -/
  setGeometry : Instant → UInt16 → UInt16 → V → Shared R → V × Shared R
  /-- Captures the next image; the flag tells whether there is one. -/
  grab : V → Run E R (Bool × V)
  /-- The image of the last grab. -/
  image? : V → Option (Image capacity)

/-- What an estimator is given in one iteration. -/
structure Observation (capacity : Nat) where
  /-- The number of the iteration. -/
  frameNumber : Nat
  /-- Seconds since the iteration before. -/
  dt : Single
  /-- The image, if there is one. -/
  image : Option (Image capacity)
  /-- The telemetry. -/
  telemetry : Sample
  deriving DecidableEq, Repr

/-- An estimator of the vehicle's motion. -/
class Estimator (S : Type) (capacity : outParam Nat) where
  /-- Takes the input of one iteration. -/
  estimate : Observation capacity → S → Except EstimatorFailure Unit × S

/-- A display for images. -/
class Display (D : Type) (R : outParam Type) (capacity : outParam Nat) where
  /-- Shows an image in the window with the given name. -/
  present : String → Image capacity → D → Shared R → Except DisplayFailure Unit × D × Shared R

end OnboardVision

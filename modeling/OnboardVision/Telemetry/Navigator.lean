import OnboardVision.Note
import OnboardVision.Telemetry.Crsf

/-!
# Navigation

`Navigator` turns messages into telemetry.  The first position fix with enough satellites becomes
home; later fixes give the position relative to it, on a plane scaled for the latitude of home.
Poorer fixes are passed over.

`Receiver` is a navigator behind a frame decoder: what one telemetry line does.
-/

namespace OnboardVision

/-- Where positions are counted from. -/
structure Home where
  /-- Latitude in units of `10⁻⁷` degrees. -/
  lat : Int32
  /-- Longitude in units of `10⁻⁷` degrees. -/
  lon : Int32
  /-- Altitude in metres. -/
  altitude : Single
  /-- The length of a degree of longitude as a fraction of one of latitude. -/
  lonScale : Single
  deriving DecidableEq, Repr

/-- The home position once there is one. -/
structure Navigator where
  /-- The home position. -/
  home : Option Home := none
  deriving DecidableEq, Repr, Inhabited

namespace Navigator

/-- Metres per degree of latitude. -/
def metresPerDegree : Single := 111319.5

/-- The fewest satellites of a fix that counts. -/
def minSatellites : UInt8 := 4

/-- A whole number of `10⁻⁷` degrees, in degrees. -/
def degrees (e7 : Int32) : Single := Single.ofInt e7.toInt * 1.0e-7

/-- The home position at a fix. -/
def homeAt (f : Fix) : Home :=
  { lat := f.lat, lon := f.lon, altitude := f.altitude
    lonScale := (degrees f.lat).toRadians.cos }

/-- The position of a fix as seen from home.  The differences are taken as 32-bit integers, so
that nothing is lost on their way to single precision. -/
def positionFrom (h : Home) (f : Fix) : Position :=
  { north := degrees (f.lat - h.lat) * metresPerDegree
    east := degrees (f.lon - h.lon) * metresPerDegree * h.lonScale
    down := h.altitude - f.altitude }

/-- The velocity of a fix over ground, with the given vertical part. -/
def velocityOf (f : Fix) (down : Single) : Velocity :=
  let course := f.course.toRadians
  { north := f.speed * course.cos, east := f.speed * course.sin, down }

/-- Takes a position fix. -/
def applyFix (n : Navigator) (f : Fix) (t : Telemetry) : Navigator × Telemetry × List Note :=
  if f.satellites < minSatellites then (n, t, [])
  else
    let (home, notes) := match n.home with
      | some home => (home, [])
      | none => (homeAt f, [Note.homeFix f.satellites])
    ({ home := some home },
      (t.setPosition (positionFrom home f)).setVelocity (velocityOf f t.velocity.down), notes)

/-- Takes a message. -/
def apply (n : Navigator) (m : Message) (t : Telemetry) : Navigator × Telemetry × List Note :=
  match m with
  | .attitude a => (n, t.setAttitude a, [])
  | .fix f => n.applyFix f t
  | .vario v => (n, t.setVelocity { t.velocity with down := -v.climb }, [])

end Navigator

/-- A telemetry line: a frame decoder and the navigator behind it. -/
structure Receiver where
  /-- The frame decoder. -/
  decoder : Crsf.Decoder := .idle
  /-- The navigator. -/
  navigator : Navigator := {}
  deriving DecidableEq, Repr, Inhabited

namespace Receiver

/-- Takes one byte, and yields the message that it completed, if any. -/
def feed (r : Receiver) (b : UInt8) (t : Telemetry) :
    Option Message × Receiver × Telemetry × List Note :=
  match r.decoder.feed b with
  | (none, decoder) => (none, { r with decoder }, t, [])
  | (some m, decoder) =>
    let (navigator, t, notes) := r.navigator.apply m t
    (some m, { decoder, navigator }, t, notes)

/-- Takes bytes, and yields the messages in them. -/
def feedAll (r : Receiver) (t : Telemetry) :
    List UInt8 → List Message × Receiver × Telemetry × List Note
  | [] => ([], r, t, [])
  | b :: bs =>
    let (m?, r, t, notes) := r.feed b t
    let (ms, r, t, more) := r.feedAll t bs
    (m?.toList ++ ms, r, t, notes ++ more)

end Receiver

end OnboardVision

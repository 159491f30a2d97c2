import OnboardVision.Single.Arith

/-!
# Telemetry

The latest attitude, position and velocity of the vehicle.  Writing an attitude also raises the
`fresh` flag; whoever waits for an attitude takes the flag down.
-/

namespace OnboardVision

/-- Attitude in degrees. -/
structure Attitude where
  /-- Bank, right wing down. -/
  roll : Single := 0
  /-- Nose up. -/
  pitch : Single := 0
  /-- Heading. -/
  yaw : Single := 0
  deriving DecidableEq, Repr, Inhabited

/-- Metres from home. -/
structure Position where
  /-- Northwards. -/
  north : Single := 0
  /-- Eastwards. -/
  east : Single := 0
  /-- Downwards. -/
  down : Single := 0
  deriving DecidableEq, Repr, Inhabited

/-- Metres per second. -/
structure Velocity where
  /-- Northwards. -/
  north : Single := 0
  /-- Eastwards. -/
  east : Single := 0
  /-- Downwards. -/
  down : Single := 0
  deriving DecidableEq, Repr, Inhabited

/-- One reading of everything known about the vehicle. -/
structure Sample where
  /-- The latest attitude. -/
  attitude : Attitude := {}
  /-- The latest position. -/
  position : Position := {}
  /-- The latest velocity. -/
  velocity : Velocity := {}
  deriving DecidableEq, Repr, Inhabited

/-- The latest values, and whether an attitude came in that nobody has taken notice of. -/
structure Telemetry extends Sample where
  /-- An attitude was written since the flag was last taken down. -/
  fresh : Bool := false
  deriving DecidableEq, Repr, Inhabited

namespace Telemetry

/-- The values as they are now. -/
def sample (t : Telemetry) : Sample := t.toSample

/-- Writes an attitude. -/
def setAttitude (t : Telemetry) (a : Attitude) : Telemetry := { t with attitude := a, fresh := true }

/-- Writes a position. -/
def setPosition (t : Telemetry) (p : Position) : Telemetry := { t with position := p }

/-- Writes a velocity. -/
def setVelocity (t : Telemetry) (v : Velocity) : Telemetry := { t with velocity := v }

/-- Takes the flag down. -/
def acknowledge (t : Telemetry) : Telemetry := { t with fresh := false }

end Telemetry

end OnboardVision

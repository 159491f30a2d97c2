import OnboardVision.Board.ConsoleSession

/-!
# What goes on around the loop

Bytes from the camera and the flight controller, the host's packets, and the two tasks beside the
loop: the console task and the telemetry task.  The telemetry task decodes what the flight
controller sends and passes over receive faults.
-/

namespace OnboardVision

namespace Board

/-! ### The telemetry task -/

/-- What the telemetry task does with one reading. -/
def absorb (s : Shared Rig) : Reading → Shared Rig
  | .bytes data =>
    let (_, receiver, telemetry, notes) := s.rig.receiver.feedAll s.telemetry data
    { s with telemetry, rig := { s.rig with receiver } }.note notes
  | .fault => s

/-- The telemetry task at an instant, until it waits. -/
def runTelemetry (s : Shared Rig) : Shared Rig :=
  let readings := s.rig.telemetryLine.readings
  readings.foldl absorb { s with rig := { s.rig with telemetryLine := {} } }

/-! ### Events -/

/-- Something that happens to the board. -/
inductive Event where
  /-- The camera sends something. -/
  | camera (r : Reading)
  /-- The flight controller sends something. -/
  | telemetry (r : Reading)
  /-- The host does something to the bus. -/
  | host (a : HostAction)
  /-- The host sends a packet. -/
  | packet (data : List UInt8)
  deriving DecidableEq, Repr

/-- The receive buffer of the camera in bytes. -/
def cameraBuffer : Nat := 256

/-- The receive buffer of the telemetry task in bytes. -/
def telemetryBuffer : Nat := 64

/-- Takes an event. -/
def deliver (e : Event) (s : Shared Rig) : Shared Rig :=
  { s with rig := match e with
      | .camera r => { s.rig with cameraLine := s.rig.cameraLine.arrive cameraBuffer r }
      | .telemetry r => { s.rig with telemetryLine := s.rig.telemetryLine.arrive telemetryBuffer r }
      | .host a => { s.rig with host := s.rig.host.act a }
      | .packet data => { s.rig with host := s.rig.host.arrive data } }

instance : Surroundings Event Rig where
  deliver := deliver
  settle now s := runTelemetry (runConsole now s)
  lapse _ s := s

end Board

end OnboardVision

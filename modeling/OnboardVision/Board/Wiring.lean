import OnboardVision.Camera.Capture
import OnboardVision.Console.Line
import OnboardVision.Console.Reply
import OnboardVision.Telemetry.Navigator
import OnboardVision.Timeline

/-!
# What the board is connected to

`SerialLine` is the receiving side of a serial line: bursts and faults queue up until they are
read.  A reader takes one burst at a time, in pieces no longer than its buffer.  `HostLink` is
the console's end of the bus.  `Rig` is everything on the board that the tasks share besides
telemetry and settings.
-/

namespace OnboardVision

namespace Board

/-- Cuts a list into pieces of `n`, the last one maybe shorter; an empty list is one empty piece. -/
def pieces {α : Type} (n : Nat) (l : List α) : List (List α) :=
  if _ : n = 0 ∨ l.length ≤ n then [l] else l.take n :: pieces n (l.drop n)
termination_by l.length
decreasing_by
  simp only [List.length_drop]
  omega

/-- What one read of a serial line gives. -/
inductive Reading where
  /-- Bytes, maybe none. -/
  | bytes (data : List UInt8)
  /-- A receive fault. -/
  | fault
  deriving DecidableEq, Repr

/-- The receiving side of a serial line. -/
structure SerialLine where
  /-- What the next reads give. -/
  readings : List Reading := []
  deriving DecidableEq, Repr, Inhabited

/-- The line after one more arrival, for a reader with a buffer of `buffer` bytes. -/
def SerialLine.arrive (l : SerialLine) (buffer : Nat) : Reading → SerialLine
  | .bytes data => ⟨l.readings ++ (pieces buffer data).map .bytes⟩
  | .fault => ⟨l.readings ++ [.fault]⟩

/-- What the host does to the bus. -/
inductive HostAction where
  /-- Opens the console. -/
  | connect
  /-- Closes the console; packets that were not read are gone. -/
  | disconnect
  /-- Stops taking packets. -/
  | stall
  /-- Takes packets again. -/
  | resume
  deriving DecidableEq, Repr

/-- The console's end of the bus. -/
structure HostLink where
  /-- The host has opened the console. -/
  connected : Bool := false
  /-- The host takes no packets. -/
  stalled : Bool := false
  /-- The packets that were not read yet. -/
  packets : List (List UInt8) := []
  deriving DecidableEq, Repr, Inhabited

namespace HostLink

/-- The link after an action of the host. -/
def act (p : HostLink) : HostAction → HostLink
  | .connect => { p with connected := true }
  | .disconnect => { p with connected := false, packets := [] }
  | .stall => { p with stalled := true }
  | .resume => { p with stalled := false }

/-- The link after a packet from the host. -/
def arrive (p : HostLink) (packet : List UInt8) : HostLink :=
  if p.connected then { p with packets := p.packets ++ [packet] } else p

end HostLink

/-- What the console prints for a displayed image. -/
structure Summary where
  /-- The number of the image. -/
  count : UInt32
  /-- Its width. -/
  width : UInt16
  /-- Its height. -/
  height : UInt16
  /-- Its mean brightness. -/
  mean : UInt8
  deriving DecidableEq, Repr

/-- The console line of a summary. -/
def Summary.line (s : Summary) : String :=
  "[VIS] #" ++ toString s.count.toNat ++ " " ++ Note.size s.width s.height ++ " luma=" ++
    toString s.mean.toNat ++ lineEnd

/-- Something the board sent. -/
inductive Sent where
  /-- A packet to the host. -/
  | packet (text : String)
  /-- Bytes to the camera. -/
  | camera (bytes : List UInt8)
  deriving DecidableEq, Repr

/-- What the console task is doing. -/
inductive ConsolePhase where
  /-- It waits for the host to open the console. -/
  | offline
  /-- It waits for packets and summaries. -/
  | listening
  /-- It waits to send packets, and then goes on with the rest of a packet it has read. -/
  | sending (packets : List String) (rest : List UInt8)
  deriving DecidableEq, Repr, Inhabited

/-- What the tasks of the board share besides telemetry and settings. -/
structure Rig where
  /-- What comes from the camera. -/
  cameraLine : SerialLine := {}
  /-- What comes from the flight controller. -/
  telemetryLine : SerialLine := {}
  /-- Which of the coming writes to the camera fail. -/
  cameraFaults : List Bool := []
  /-- The console's end of the bus. -/
  host : HostLink := {}
  /-- The summary that waits to be printed. -/
  pending : Option Summary := none
  /-- What the console task is doing. -/
  phase : ConsolePhase := .offline
  /-- The line that the console task is reading. -/
  reader : LineReader := {}
  /-- What the telemetry task keeps. -/
  receiver : Receiver := {}
  /-- Everything sent so far, oldest first. -/
  sent : Array (Instant × Sent) := #[]
  deriving DecidableEq, Repr, Inhabited

end Board

end OnboardVision

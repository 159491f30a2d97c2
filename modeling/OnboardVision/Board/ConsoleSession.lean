import OnboardVision.Board.Setup
import OnboardVision.Board.Wiring

/-!
# Console sessions

The console task serves one session after the other.  In a session it runs the lines in the host's
packets, replies, and prints a summary for each displayed image; a packet comes before a summary.
What is sent goes out in packets, and while the host takes none the task waits.

* `runConsole` is everything the task does at one instant;
* `serve` runs the lines in a packet, `printSummary` prints a summary.

A line left unfinished at the end of a session is kept for the next one.
-/

namespace OnboardVision

namespace Board

/-- The packets that a text is sent in. -/
def packetsOf (text : String) : List String := (pieces maxPacket text.toList).map String.ofList

/-- Sends packets to the host. -/
def emit (now : Instant) (packets : List String) (s : Shared Rig) : Shared Rig :=
  { s with rig := { s.rig with
      sent := packets.foldl (fun sent p => sent.push (now, .packet p)) s.rig.sent } }

/-- Goes over to another phase. -/
def enter (phase : ConsolePhase) (s : Shared Rig) : Shared Rig :=
  { s with rig := { s.rig with phase } }

/-- Runs the lines in the bytes of a packet.  A reply that cannot be sent at once stops it. -/
def serve (now : Instant) : List UInt8 → Shared Rig → Shared Rig
  | [], s => enter .listening s
  | b :: bs, s =>
    let (line?, reader) := s.rig.reader.feed b
    let s := { s with rig := { s.rig with reader } }
    match line? with
    | none => serve now bs s
    | some line =>
      let done := s.hub.execute 0 line
      let s := { s with hub := done.hub }.note done.notes
      if s.rig.host.stalled then enter (.sending (packetsOf done.reply) bs) s
      else serve now bs (emit now (packetsOf done.reply) s)

/-- Prints the pending summary. -/
def printSummary (now : Instant) (s : Shared Rig) : Shared Rig :=
  match s.rig.pending with
  | none => s
  | some summary =>
    let s := { s with rig := { s.rig with pending := none } }
    if s.rig.host.stalled then enter (.sending (packetsOf summary.line) []) s
    else emit now (packetsOf summary.line) s

/-- The task waits to send. -/
def isSending (s : Shared Rig) : Bool :=
  match s.rig.phase with
  | .sending _ _ => true
  | _ => false

/-- Serves packets, and then the pending summary.  A packet that is too long for the buffer is lost
and ends the session; since the host is still there the next one begins at once. -/
def listen (now : Instant) : List (List UInt8) → Shared Rig → Shared Rig
  | [], s => printSummary now s
  | p :: ps, s =>
    let s := { s with rig := { s.rig with host := { s.rig.host with packets := ps } } }
    if maxPacket < p.length then
      listen now ps (s.note [.consoleDisconnected, .consoleConnected])
    else
      let s := serve now p s
      if isSending s then s else listen now ps s

/-- Serves everything there is to serve in a session. -/
def serveSession (now : Instant) (s : Shared Rig) : Shared Rig := listen now s.rig.host.packets s

/-- Ends a session whose host is gone. -/
def hangUp (s : Shared Rig) : Shared Rig := (enter .offline s).note [.consoleDisconnected]

/-- The console task at an instant, until it waits. -/
def runConsole (now : Instant) (s : Shared Rig) : Shared Rig :=
  match s.rig.phase with
  | .offline =>
    if s.rig.host.connected then serveSession now ((enter .listening s).note [.consoleConnected])
    else s
  | .listening => if s.rig.host.connected then serveSession now s else hangUp s
  | .sending packets rest =>
    if !s.rig.host.connected then hangUp s
    else if s.rig.host.stalled then s
    else
      let s := serve now rest (emit now packets s)
      if isSending s then s else serveSession now s

end Board

end OnboardVision

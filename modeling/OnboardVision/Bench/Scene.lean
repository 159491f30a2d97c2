import OnboardVision.Console.Reply
import OnboardVision.Perception.Barrier
import OnboardVision.Telemetry.Navigator

/-!
# The bench

On the bench there is no board: telemetry and settings change because a script says so.  A
`Bench.Event` is one such change.  Nothing else runs beside the loop.
-/

namespace OnboardVision

/-- An edit of some of the settings. -/
structure Settings.Edit where
  /-- The new width. -/
  width : Option UInt16 := none
  /-- The new height. -/
  height : Option UInt16 := none
  /-- The new frame rate. -/
  rate : Option Single := none
  /-- The new telemetry wait. -/
  syncMs : Option UInt32 := none
  deriving DecidableEq, Repr, Inhabited

/-- Applies an edit; what it does not name stays. -/
def Settings.Edit.apply (e : Settings.Edit) (s : Settings) : Settings :=
  { width := e.width.getD s.width
    height := e.height.getD s.height
    rate := e.rate.getD s.rate
    syncMs := e.syncMs.getD s.syncMs }

namespace Bench

/-- A change of the telemetry. -/
inductive Write where
  /-- Writes an attitude. -/
  | attitude (a : Attitude)
  /-- Writes a position. -/
  | position (p : Position)
  /-- Writes a velocity. -/
  | velocity (v : Velocity)
  /-- Bytes come in on the telemetry line. -/
  | bytes (data : List UInt8)
  /-- A message comes in. -/
  | message (m : Message)
  deriving DecidableEq, Repr

/-- A change from outside. -/
inductive Event where
  /-- A change of the telemetry. -/
  | telemetry (w : Write)
  /-- An edit of the settings. -/
  | edit (e : Settings.Edit)
  /-- A console line. -/
  | line (text : List Char)
  deriving DecidableEq, Repr

/-- What the bench keeps besides the shared state. -/
structure Rig where
  /-- The telemetry line. -/
  receiver : Receiver := {}
  /-- An attitude that comes in at the very last moment: the first time that a waiter sees its
  deadline gone at this instant or later. -/
  late : Option (Instant × Attitude) := none
  deriving DecidableEq, Repr, Inhabited

/-- Makes a change of the telemetry, and gives the messages that came in as bytes. -/
def Write.perform (w : Write) (r : Receiver) (t : Telemetry) :
    List Message × Receiver × Telemetry × List Note :=
  match w with
  | .attitude a => ([], r, t.setAttitude a, [])
  | .position p => ([], r, t.setPosition p, [])
  | .velocity v => ([], r, t.setVelocity v, [])
  | .bytes data => r.feedAll t data
  | .message m =>
    let (navigator, t, notes) := r.navigator.apply m t
    ([], { r with navigator }, t, notes)

/-- Makes a change of the telemetry in the shared state. -/
def write (w : Write) (s : Shared Rig) : Shared Rig :=
  let (_, receiver, telemetry, notes) := w.perform s.rig.receiver s.telemetry
  { s with telemetry, rig := { s.rig with receiver } }.note notes

/-- Takes an event. -/
def deliver : Event → Shared Rig → Shared Rig
  | .telemetry w, s => write w s
  | .edit e, s =>
    let (hub, notes) := s.hub.update e.apply
    { s with hub }.note notes
  | .line text, s =>
    let done := s.hub.execute 0 (.ok text)
    { s with hub := done.hub }.note done.notes

/-- The write at the very last moment. -/
def lapse (now : Instant) (s : Shared Rig) : Shared Rig :=
  match s.rig.late with
  | some (t, a) =>
    if t ≤ now then
      { s with telemetry := s.telemetry.setAttitude a, rig := { s.rig with late := none } }
    else s
  | none => s

instance : Surroundings Event Rig where
  deliver := deliver
  settle _ s := s
  lapse := lapse

/-- A timeline on the bench. -/
abbrev Scene := Timeline Event Rig

end Bench

end OnboardVision

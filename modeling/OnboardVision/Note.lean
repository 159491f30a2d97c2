import OnboardVision.Perception.Failure
import OnboardVision.Settings.Basic
import OnboardVision.Single.Text

/-!
# The journal

Everything the program remarks on is a `Note`: a value, not a line of text.  `Note.level` and
`Note.text` give the line that a journal shows for it.
-/

namespace OnboardVision

/-- How much a note matters. -/
inductive Level where
  | trace | debug | info | warn | error
  deriving DecidableEq, Repr

/-- Something worth writing down. -/
inductive Note where
  /-- A new snapshot is in force. -/
  | settingsApplied (snapshot : Snapshot)
  /-- An edit did not pass the checks; the old snapshot stays in force. -/
  | settingsRejected (cause : Refusal)
  /-- A console command changed the settings. -/
  | settingsEdited
  /-- The vision module is off and nothing of it was started. -/
  | visionDisabled
  /-- The vision module is on. -/
  | visionEnabled
  /-- The first usable position fix became the home position. -/
  | homeFix (satellites : UInt8)
  /-- A camera frame failed its checksum. -/
  | frameCorrupt
  /-- A camera frame has a geometry that the buffer does not take. -/
  | frameRejected (width height : UInt16)
  /-- The loop runs without a camera. -/
  | noVideo
  /-- A capture geometry was requested. -/
  | geometryRequested (width height : UInt16)
  /-- The estimator produced nothing in this iteration. -/
  | estimatorFailed (frame : Nat) (cause : EstimatorFailure)
  /-- The display showed nothing in this iteration. -/
  | displayFailed (frame : Nat) (cause : DisplayFailure)
  /-- The startup barrier is up. -/
  | awaitingTelemetry
  /-- Telemetry released the startup barrier. -/
  | telemetrySynchronized (pitch : Single)
  /-- The startup barrier gave up. -/
  | telemetryTimedOut
  /-- The loop starts although the barrier gave up. -/
  | startingBlind (cause : BarrierFailure)
  /-- The loop is running. -/
  | loopRunning (period : Duration)
  /-- An iteration started a whole period late or more. -/
  | overran (frame : Nat) (late : Duration)
  /-- An iteration is over. -/
  | iterated (frame : Nat) (wokeAt : Instant)
  /-- The module table could not be read. -/
  | modulesUnreadable
  /-- The camera line is alive. -/
  | cameraDetected
  /-- The camera line is silent. -/
  | cameraMissing
  /-- A geometry request could not be sent. -/
  | cameraRequestFailed
  /-- A console session began. -/
  | consoleConnected
  /-- A console session ended. -/
  | consoleDisconnected
  deriving DecidableEq, Repr

namespace Note

/-- The level a note is written at. -/
def level : Note → Level
  | .settingsApplied _ => .debug
  | .settingsRejected _ => .warn
  | .settingsEdited => .info
  | .visionDisabled => .info
  | .visionEnabled => .info
  | .homeFix _ => .info
  | .frameCorrupt => .debug
  | .frameRejected _ _ => .debug
  | .noVideo => .warn
  | .geometryRequested _ _ => .debug
  | .estimatorFailed _ _ => .warn
  | .displayFailed _ _ => .debug
  | .awaitingTelemetry => .debug
  | .telemetrySynchronized _ => .info
  | .telemetryTimedOut => .warn
  | .startingBlind _ => .error
  | .loopRunning _ => .info
  | .overran _ _ => .debug
  | .iterated _ _ => .trace
  | .modulesUnreadable => .warn
  | .cameraDetected => .info
  | .cameraMissing => .warn
  | .cameraRequestFailed => .warn
  | .consoleConnected => .info
  | .consoleDisconnected => .info

/-- A frame size, width first. -/
def size (width height : UInt16) : String := toString width.toNat ++ "x" ++ toString height.toNat

/-- The wording of a note. -/
def text : Note → String
  | .settingsApplied s => "settings: " ++ size s.width s.height ++ " @ " ++ s.rate.text ++ " Hz"
  | .settingsRejected e => "settings rejected: " ++ e.message
  | .settingsEdited => "console: settings updated"
  | .visionDisabled => "vision module disabled"
  | .visionEnabled => "vision module enabled"
  | .homeFix n => "home fix with " ++ toString n.toNat ++ " sats"
  | .frameCorrupt => "camera frame crc mismatch"
  | .frameRejected w h => "camera frame " ++ size w h ++ " rejected"
  | .noVideo => "no video source, running on telemetry only"
  | .geometryRequested w h => "capture geometry " ++ size w h
  | .estimatorFailed n e => "frame " ++ toString n ++ ": estimator " ++ e.message
  | .displayFailed n e => "frame " ++ toString n ++ ": display " ++ e.message
  | .awaitingTelemetry => "waiting for telemetry"
  | .telemetrySynchronized p => "telemetry synchronized, pitch=" ++ p.text
  | .telemetryTimedOut => "telemetry rendezvous timed out"
  | .startingBlind e => "starting without telemetry: " ++ e.message
  | .loopRunning p => "perception loop running, period " ++ toString p.toMillis ++ " ms"
  | .overran n d => "frame " ++ toString n ++ " overran by " ++ toString d ++ " us"
  | .iterated n t => "frame " ++ toString n ++ " at " ++ toString (Duration.toMillis t) ++ " ms"
  | .modulesUnreadable => "hw settings unreadable, all optional modules off"
  | .cameraDetected => "camera detected"
  | .cameraMissing => "no camera on USART3"
  | .cameraRequestFailed => "camera geometry request failed"
  | .consoleConnected => "console connected"
  | .consoleDisconnected => "console disconnected"

end Note

/-- The name of a level as journals show it. -/
def Level.label : Level → String
  | .trace => "TRACE"
  | .debug => "DEBUG"
  | .info => "INFO"
  | .warn => "WARN"
  | .error => "ERROR"

/-- A journal line. -/
def Note.line (n : Note) : String := n.level.label ++ " " ++ n.text

end OnboardVision

import OnboardVision.Bench.Devices
import OnboardVision.Board.Flight
import OnboardVision.Console.Line
import OnboardVision.Settings.Modules
import OnboardVision.Proofs.Cadence.Deadlines
import OnboardVision.Proofs.Cadence.Calls
import OnboardVision.Proofs.Timeline.Waiting
import OnboardVision.Proofs.Perception.HotReload
import OnboardVision.Proofs.Perception.Retained
import OnboardVision.Proofs.Settings.History
import OnboardVision.Proofs.Console.Texts
import OnboardVision.Proofs.Console.Edits
import OnboardVision.Proofs.Console.Effects
import OnboardVision.Proofs.Console.Grammar
import OnboardVision.Proofs.Console.Replies
import OnboardVision.Proofs.Telemetry.Scanner
import OnboardVision.Proofs.Checksum.Rejection
import OnboardVision.Proofs.Bench.Replay
import OnboardVision.Proofs.Perception.Rendezvous
import OnboardVision.Proofs.Telemetry.Meridian
import OnboardVision.Proofs.Board.ReceiveFaults
import OnboardVision.Proofs.Camera.Chunks
import OnboardVision.Proofs.Board.Release
import OnboardVision.Proofs.Board.Discretion
import OnboardVision.Proofs.Perception.Freshness
import OnboardVision.Proofs.Perception.Requests
import OnboardVision.Proofs.Settings.Activation
import OnboardVision.Proofs.Board.Detection
import OnboardVision.Proofs.Board.Grabs
import OnboardVision.Proofs.Board.Session
import OnboardVision.Proofs.Telemetry.Transmission
import OnboardVision.Proofs.Camera.Resync
import OnboardVision.Proofs.Board.Leftovers
import OnboardVision.Proofs.Board.Summaries
import OnboardVision.Proofs.Perception.Lateness
import OnboardVision.Proofs.Image.Drawing
import OnboardVision.Proofs.Settings.Period
import OnboardVision.Proofs.Image.Raster
import OnboardVision.Proofs.Camera.Cells

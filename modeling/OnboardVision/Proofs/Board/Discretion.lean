import OnboardVision.Board.Flight
import OnboardVision.Proofs.Board.Downlink
import OnboardVision.Proofs.Perception.Discretion

/-!
# What the board leaves alone

On the board the hub is changed by the console task alone, and it makes calls.  The serial camera and
the display of summaries leave the hub as it is.
-/

namespace OnboardVision

namespace Board

theorem hub_runTelemetry (s : Shared Rig) : (runTelemetry s).hub = s.hub := by
  obtain ⟨telemetry, journal, receiver, hrest⟩ := runTelemetry_rest s
  rw [hrest]

instance : Surroundings.Orderly Event Rig where
  deliver _ s := s.hub.leads_refl
  settle now s := by
    show s.hub.Leads (runTelemetry (runConsole now s)).hub
    rw [hub_runTelemetry]
    exact (attends_runConsole now s).called
  lapse _ s := s.hub.leads_refl

namespace SerialCamera

theorem hub_request (now : Instant) (w h : UInt16) (s : Shared Rig) :
    (request now w h s).hub = s.hub := by
  unfold request
  dsimp only
  split <;> rfl

theorem hub_completeFrame (c : Capture captureCapacity) (s : Shared Rig) :
    (completeFrame c s).2.2.hub = s.hub := by
  rw [completeFrame]
  generalize assemble s.rig.cameraLine.readings c = assembled
  rfl

instance : ImageSource.Discreet Shared.HubCalled SerialCamera where
  setGeometry now w h _ s := ⟨[], hub_request now w h s⟩
  grab v P hP := by
    show Run.Keeps P (grab v)
    unfold grab
    exact (Run.keeps_later _).bind fun _ =>
      (Run.keeps_await hP (fun c s => ⟨[], hub_completeFrame c s⟩) _ _).bind fun _ =>
        Run.keeps_pure _

end SerialCamera

theorem hub_present (im : Image captureCapacity) (d : SummaryDisplay) (s : Shared Rig) :
    (d.present im s).2.2.hub = s.hub := by
  unfold SummaryDisplay.present
  dsimp only
  split <;> rfl

instance : Display.Discreet Shared.HubCalled SummaryDisplay where
  present _ im d s := ⟨[], hub_present im d s⟩

end Board

end OnboardVision

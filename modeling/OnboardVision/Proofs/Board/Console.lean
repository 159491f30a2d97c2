import OnboardVision.Board.Surroundings
import OnboardVision.Proofs.Settings.Calls

/-!
# The console task beside the others

The console task makes calls on the hub, and it leaves alone what the telemetry task and the camera
work on (`Board.attends_runConsole`).
-/

namespace OnboardVision

namespace Board

/-- What the others work on: the telemetry, its decoder, and the serial lines. -/
def others (s : Shared Rig) : Telemetry × Receiver × SerialLine × SerialLine :=
  (s.telemetry, s.rig.receiver, s.rig.telemetryLine, s.rig.cameraLine)

/-- What the console task may change. -/
structure Attends (s s' : Shared Rig) : Prop where
  /-- The side of the others is the same. -/
  others_eq : others s' = others s
  /-- The hub is changed by calls. -/
  called : s.HubCalled s'

theorem attends_refl (s : Shared Rig) : Attends s s := ⟨rfl, s.hub.leads_refl⟩

theorem Attends.trans {s₁ s₂ s₃ : Shared Rig} (h : Attends s₁ s₂) (h' : Attends s₂ s₃) :
    Attends s₁ s₃ := ⟨h'.others_eq.trans h.others_eq, h.called.trans h'.called⟩

/-- Something else comes first. -/
theorem Attends.behind {s s₁ s' : Shared Rig} (h : Attends s₁ s') (hd : others s₁ = others s)
    (hhub : s₁.hub = s.hub) : Attends s s' :=
  Attends.trans ⟨hd, [], hhub⟩ h

theorem attends_serve (now : Instant) (data : List UInt8) (s : Shared Rig) :
    Attends s (serve now data s) := by
  induction data generalizing s with
  | nil => exact ⟨rfl, s.hub.leads_refl⟩
  | cons b data ih =>
    rw [serve]
    rcases s.rig.reader.feed b with ⟨_ | line, reader⟩
    · exact (ih _).behind rfl rfl
    · have hcall : s.hub.Leads (s.hub.execute 0 line).hub := s.hub.leads_execute 0 line
      dsimp only
      split
      · exact ⟨rfl, hcall⟩
      · refine .trans ?_ (ih _)
        exact ⟨rfl, hcall⟩

theorem attends_printSummary (now : Instant) (s : Shared Rig) :
    Attends s (printSummary now s) := by
  unfold printSummary
  split
  · exact attends_refl s
  · dsimp only
    split <;> exact ⟨rfl, s.hub.leads_refl⟩

theorem attends_listen (now : Instant) (packets : List (List UInt8)) (s : Shared Rig) :
    Attends s (listen now packets s) := by
  induction packets generalizing s with
  | nil => exact attends_printSummary now s
  | cons p packets ih =>
    simp only [listen]
    split
    · exact (ih _).behind rfl rfl
    · split
      · exact (attends_serve now p _).behind rfl rfl
      · exact ((attends_serve now p _).trans (ih _)).behind rfl rfl

theorem attends_runConsole (now : Instant) (s : Shared Rig) : Attends s (runConsole now s) := by
  have hsession : ∀ s, Attends s (serveSession now s) := fun s => attends_listen now _ s
  unfold runConsole
  split
  · split
    · exact (hsession _).behind rfl rfl
    · exact attends_refl s
  · split
    · exact hsession s
    · exact ⟨rfl, s.hub.leads_refl⟩
  · rename_i packets rest _
    split
    · exact ⟨rfl, s.hub.leads_refl⟩
    · split
      · exact attends_refl s
      · have hserve := attends_serve now rest (emit now packets s)
        dsimp only
        split
        · exact hserve.behind rfl rfl
        · exact (hserve.trans (hsession _)).behind rfl rfl

end Board

end OnboardVision

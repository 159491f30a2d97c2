import OnboardVision.Bench.Devices
import OnboardVision.Proofs.Perception.Discretion
import OnboardVision.Proofs.Settings.Calls

/-!
# What the scripted devices leave alone

The scripted devices of the bench change nothing in the shared state but the journal, so they are
discreet within every reflexive relation.  What happens on the bench changes the hub by calls alone.
-/

namespace OnboardVision

namespace Bench

instance : Surroundings.Orderly Event Rig where
  deliver e s := by
    cases e with
    | telemetry w => exact s.hub.leads_refl
    | edit e => exact s.hub.leads_update e.apply
    | line text => exact s.hub.leads_execute 0 (.ok text)
  settle _ s := s.hub.leads_refl
  lapse now s := by
    show s.hub.Leads (lapse now s).hub
    unfold lapse
    split
    · split <;> exact s.hub.leads_refl
    · exact s.hub.leads_refl

variable {capacity : ℕ} {keep : Shared Rig → Shared Rig → Prop} {P : Scene → Prop}

namespace Camera

theorem keeps_pause (hP : Timeline.Lasting keep P) (delay : Option Duration) :
    Run.Keeps P (pause delay) := by
  cases delay with
  | none => exact Run.keeps_pure ()
  | some d => exact Run.keeps_sleep hP d

theorem keeps_receive (hP : Timeline.Lasting keep P) (chunks : List Chunk)
    (c : Capture capacity) : Run.Keeps P (receive chunks c) := by
  induction chunks generalizing c with
  | nil => exact Run.keeps_pure _
  | cons chunk chunks ih =>
    refine (keeps_pause hP chunk.delay).bind fun _ => ?_
    rcases c.receive chunk.data with ⟨done, c', notes⟩
    refine Run.Keeps.bind (fun tl _ tl' h hx => ?_) fun _ => ?_
    · cases hx
      exact hP.note notes h
    · cases done with
      | true => exact Run.keeps_pure _
      | false => exact ih c'

instance [Std.Refl keep] : ImageSource.Discreet keep (Camera capacity) where
  setGeometry _ _ _ _ s := Std.Refl.refl s
  grab c P hP := by
    show Run.Keeps P (grab c)
    unfold grab
    dsimp only
    split
    · exact (keeps_pause hP _).bind fun _ => Run.keeps_pure _
    · exact (keeps_receive hP _ _).bind fun _ => Run.keeps_pure _

end Camera

instance [Std.Refl keep] : Display.Discreet keep (Screen capacity) where
  present _ _ _ s := Std.Refl.refl s

end Bench

end OnboardVision

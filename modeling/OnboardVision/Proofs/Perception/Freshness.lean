import OnboardVision.Proofs.Bench.Discretion
import OnboardVision.Proofs.Bench.Writes
import OnboardVision.Proofs.Perception.BarrierWait

/-!
# Fresh attitudes

A barrier that was released lets the loop see nothing but attitudes written since it was raised: its
own mark is overwritten by then, and later writes only overwrite one another.
-/

namespace OnboardVision

namespace Barrier

open Bench

variable {timeout : Option Duration} {verdict : Except BarrierFailure Attitude}

/-- A wait that ends does so within the clock. -/
theorem le_endOfTime_of_wait {E R : Type} [Surroundings E R] {tl ended : Timeline E R}
    (h : wait timeout tl = .ok verdict ended) : ∀ d, timeout = some d → tl.now + d ≤ endOfTime := by
  rintro d rfl
  by_contra hlt
  have hlater : (some <$> Run.later d : Run E R (Option Instant)) tl = .error .clockOverflow tl := by
    show EStateM.map some (Run.later d) tl = _
    have : Run.later d tl = .error .clockOverflow tl := by
      rw [Run.later, Run.bind_of_ok (Run.now_apply tl)]
      simp only [Instant.later?, if_neg hlt]
      rfl
    simp only [EStateM.map, this]
  have hwait : wait (some d) tl = .error .clockOverflow tl := Run.bind_of_error hlater
  rw [hwait] at h
  cases h

/-- The scene with the barrier up. -/
def shut (tl : Scene) : Scene := { tl with shared := raised tl.shared }

/-- What has happened on the bench when a wait ends: the attitude is not the mark any more, or the
deadline has come. -/
theorem since_of_wait {tl ended : Scene} (ht : tl.Timely)
    (h : wait timeout tl = .ok verdict ended) :
    ∃ past, Since (shut tl) past ended ∧
      ((∃ a, verdict = .ok a) ∧ ended.shared.telemetry.attitude.pitch ≠ sentinel ∨
        ∃ d, verdict = .error .timeout ∧ timeout = some d ∧ tl.now + d < endOfTime ∧
          ended.now = tl.now + d) := by
  have hP := lasting_since (shut tl) []
  have hstart : ∃ more, Since (shut tl) ([] ++ more) (shut tl) :=
    ⟨[], since_self ⟨ht.sorted, ht.ahead⟩⟩
  have hpoll : ∀ st s, Aside s (poll st s : Option Attitude × Unit × Shared Rig).2.2 := by
    intro st s
    rw [poll_eq]
    exact aside_hush s
  have hrest := hP.wait hpoll (deadline tl.now timeout) () hstart
  have hwait := wait_eq_of_le (le_endOfTime_of_wait h)
  rw [h] at hwait
  change Timeline.Rested _ _ _ tl.now (Timeline.wait poll _ () { tl with shared := raised tl.shared })
    at hrest
  rcases hw : Timeline.wait poll (deadline tl.now timeout) ()
    { tl with shared := raised tl.shared } with ⟨a | _ | _, st, tl'⟩
  · rw [hw] at hwait hrest
    obtain ⟨⟨past, hpast⟩, ⟨⟩, s, hfound⟩ := hrest
    rw [poll_eq, Prod.mk.injEq, Prod.mk.injEq] at hfound
    obtain ⟨hif, -, hshared⟩ := hfound
    have hgenuine : isGenuine s.telemetry.attitude = true := by
      by_contra hno
      rw [if_neg fun h => hno h.2] at hif
      cases hif
    obtain ⟨rfl, rfl⟩ := EStateM.Result.ok.inj hwait
    refine ⟨past, hpast.note _, .inl ⟨⟨a, rfl⟩, ?_⟩⟩
    show tl'.shared.telemetry.attitude.pitch ≠ sentinel
    rw [← hshared]
    exact isGenuine_iff.1 hgenuine
  · rw [hw] at hwait hrest
    obtain ⟨⟨past, hpast⟩, d, hd, hnow⟩ := hrest
    obtain ⟨d', rfl, rfl, hlt⟩ := deadline_eq_some_iff.1 hd
    rw [Nat.max_eq_right (Nat.le_add_right _ _)] at hnow
    dsimp only at hwait
    split at hwait
    · rename_i hgenuine
      obtain ⟨rfl, rfl⟩ := EStateM.Result.ok.inj hwait
      exact ⟨past, hpast, .inl ⟨⟨_, rfl⟩, isGenuine_iff.1 hgenuine⟩⟩
    · obtain ⟨rfl, rfl⟩ := EStateM.Result.ok.inj hwait
      exact ⟨past, hpast.note _, .inr ⟨d', rfl, rfl, hlt, hnow⟩⟩
  · rw [hw] at hwait
    cases hwait

end Barrier

instance : Std.Refl Bench.Aside := ⟨fun _ => ⟨rfl, rfl⟩⟩

namespace Perception

open Bench Barrier

variable {V S D : Type} {capacity : ℕ} [ImageSource V Event Rig capacity]
  [ImageSource.Discreet Aside V] [Estimator S capacity] [Display D Rig capacity]
  [Display.Discreet Aside D]

/-- **After a rendezvous the loop sees fresh attitudes only.**  If the barrier was released, then in
every iteration the attitude given to the estimator and drawn as the horizon is the one written last
by the end of the grab, by a telemetry writer, since the barrier went up.  If it was not, the loop
starts all the same, at the barrier's deadline. -/
theorem attitude_written_since_barrier {tl : Scene} (ht : tl.Timely) (p : Pipeline V S D capacity) :
    ∃ p' sized, p.applyGeometry tl.shared.snapshot tl = .ok p' sized ∧
      ∀ verdict ended,
        Barrier.wait tl.shared.snapshot.syncTimeout sized = .ok verdict ended →
        ∃ l begun, start p tl = .ok l begun ∧
          (∀ e, verdict = .error e → ∃ d, tl.shared.snapshot.syncTimeout = some d ∧
            sized.now + d < endOfTime ∧
            l.cadence = .start (sized.now + d) begun.shared.snapshot.period) ∧
          ∀ a, verdict = .ok a → ∀ ks l' next k l'', l.RanFrom begun ks l' next →
            l'.Completes k l'' → k.called = next →
            ∃ pass past t a, l'.pipeline.Completes pass l''.pipeline ∧
              pass.called = k.woken ∧ pass.report = k.report ∧
              Happened (shut sized) pass.grabbed.now pass.grabbed.shared.rig.late past ∧
              (written sized.shared.rig.receiver.decoder past).getLast? = some (t, a) ∧
              sized.now ≤ t ∧ t ≤ pass.grabbed.now ∧
              pass.observation.telemetry.attitude = a ∧
              pass.Estimated l'.pipeline.estimator l''.pipeline.estimator ∧
              l''.pipeline.previous =
                (pass.image.map fun im =>
                  (Horizon.ofAttitude a im.width im.height).paint im).or l'.pipeline.previous := by
  obtain ⟨v, g, s, hsize⟩ := Pipeline.applyGeometry_apply tl.shared.snapshot p tl
  refine ⟨_, _, hsize, fun verdict ended hwait => ?_⟩
  generalize hsized : ({ tl with shared := s } : Scene) = sized at hsize hwait ⊢
  have hst : sized.Timely := hsized ▸ ⟨ht.sorted, ht.ahead⟩
  obtain ⟨past, hpast, hverdict⟩ := since_of_wait hst hwait
  obtain ⟨l, notes, hstart, -, hcadence⟩ := start_of_wait hsize hwait
  refine ⟨l, _, hstart, ?late, ?fresh⟩
  case late =>
    rintro e rfl
    rcases hverdict with ⟨⟨a, ha⟩, -⟩ | ⟨d, -, hd, hlt, hnow⟩
    · cases ha
    · rw [hnow] at hcadence
      exact ⟨d, hd, hlt, hcadence⟩
  case fresh =>
    rintro a rfl ks l' next k l'' hran hk rfl
    have hgenuine : ended.shared.telemetry.attitude.pitch ≠ sentinel := by
      rcases hverdict with ⟨-, h⟩ | ⟨d, hd, -⟩
      · exact h
      · cases hd
    have hwritten : written sized.shared.rig.receiver.decoder past ≠ [] :=
      hpast.written_ne_nil fun hsame => hgenuine (congrArg Attitude.pitch hsame)
    -- from here on what has happened only grows
    have hP := lasting_since (shut sized) past
    have hbegun : ∃ more, Since (shut sized) (past ++ more)
        { ended with shared := ended.shared.note notes } :=
      ⟨[], by rw [List.append_nil]; exact hpast.note notes⟩
    have hwoken := (hk.keeps hP (hran.keeps hP hbegun)).1
    obtain ⟨pass, hpass, hcalled, -, -, hreport, -⟩ := hk.exists_pass
    rw [← hcalled] at hwoken
    obtain ⟨more, hgrabbed⟩ := (hpass.keeps hP hwoken).1
    obtain ⟨later, hlater⟩ := written_append sized.shared.rig.receiver.decoder past more
    have hne : written sized.shared.rig.receiver.decoder (past ++ more) ≠ [] := by
      rw [hlater]
      exact fun hnil => hwritten (List.append_eq_nil_iff.1 hnil).1
    obtain ⟨t, a, hlast, hle, hnow, hattitude⟩ := hgrabbed.exists_last hne
    have hserved := hpass.served
    refine ⟨pass, past ++ more, t, a, hpass, hcalled, hreport, hgrabbed.happened, hlast, hle, hnow,
      hattitude, hserved.estimated, ?_⟩
    rw [hserved.previous_eq, Pipeline.Pass.painted?, ← hattitude]
    rfl

/-- An attitude from before the start, one that comes in at the very moment of the barrier's deadline,
and one during the first grab. -/
def belated : Scene where
  agenda := [(40000, .telemetry (.attitude { pitch := 9 }))]
  shared :=
    { telemetry := { attitude := { pitch := 3 } }
      hub := { published := [⟨19200, { syncMs := 1 }⟩], slots := [.published 0] }
      rig := { late := some (500, { pitch := 7 }) } }

/-- A camera that takes ten milliseconds for its first image. -/
def steady : Bench.Devices 4 where
  video := some { script := .shots [{ delay := some 10000 }] }
  estimator := {}
  display := {}

/-- The second one releases the barrier, and what the first iteration sees was written since. -/
theorem attitude_of_belated :
    belated.Timely ∧ ∃ p' sized, steady.applyGeometry belated.shared.snapshot belated = .ok p' sized ∧
      ∃ ended, Barrier.wait belated.shared.snapshot.syncTimeout sized =
          .ok (.ok { pitch := 7 }) ended ∧ ended.now = 1000 ∧
        ∃ l begun k l' pass past t a, start steady belated = .ok l begun ∧ k.called = begun ∧
          l.Completes k l' ∧ l.pipeline.Completes pass l'.pipeline ∧ pass.called = k.woken ∧
          Happened (shut sized) pass.grabbed.now pass.grabbed.shared.rig.late past ∧
          (written sized.shared.rig.receiver.decoder past).getLast? = some (t, a) ∧
          sized.now ≤ t ∧ pass.observation.telemetry.attitude = a := by
  have ht : belated.Timely := ⟨by decide, by decide⟩
  obtain ⟨p', sized, hsize, hwaits⟩ := attitude_written_since_barrier ht steady
  refine ⟨ht, p', sized, hsize, ?_⟩
  cases hsize
  obtain ⟨ended, hwait, hnow⟩ : ∃ ended, Barrier.wait belated.shared.snapshot.syncTimeout
      { belated with shared := belated.shared.note [.geometryRequested 160 120] } =
        .ok (.ok { pitch := 7 }) ended ∧ ended.now = 1000 := ⟨_, rfl, rfl⟩
  obtain ⟨l, begun, hstart, -, hfresh⟩ := hwaits _ _ hwait
  refine ⟨ended, hwait, hnow, l, begun, ?_⟩
  obtain ⟨l₀, begun₀, report, l', done, hstart₀, hstep⟩ : ∃ l₀ begun₀ report l' done,
      start steady belated = .ok l₀ begun₀ ∧ l₀.step begun₀ = .ok (report, l') done :=
    ⟨_, _, _, _, _, rfl, rfl⟩
  rw [hstart₀] at hstart
  cases hstart
  obtain ⟨woken, hk⟩ := exists_completes hstep
  obtain ⟨pass, past, t, a, hpass, hcalled, -, hhappened, hlast, hle, -, hattitude, -⟩ :=
    hfresh _ rfl [] l begun _ l' (.nil l begun) hk rfl
  exact ⟨_, l', pass, past, t, a, hstart₀, rfl, hk, hpass, hcalled, hhappened, hlast, hle, hattitude⟩

end Perception

end OnboardVision

import OnboardVision.Proofs.Perception.BarrierWait
import OnboardVision.Proofs.Perception.Retained
import OnboardVision.Proofs.Perception.Runs
import OnboardVision.Proofs.Timeline.Lasting

/-!
# What the loop leaves alone

A loop and what it is connected to change the shared state in few places.  A source or a display is
`Discreet` within a relation if it makes no other changes; then whatever lasts through such changes
outlasts a start and every iteration.

* `Perception.RanFrom`: a run of a loop on a timeline.  Between two iterations time may pass.
* `Perception.RanFrom.keeps`: what lasts outlasts a run.
* `Perception.Completes.exists_pass`: a completed iteration of the loop is a pass of its pipeline.
-/

namespace OnboardVision

variable {E R V S D : Type} {capacity : ℕ} [Surroundings E R]

/-- A source that waits, makes notes, and changes the shared state within `keep`. -/
class ImageSource.Discreet (keep : Shared R → Shared R → Prop) (V : Type)
    [ImageSource V E R capacity] : Prop where
  /-- A request for a size. -/
  setGeometry : ∀ now w h (v : V) s, keep s (ImageSource.setGeometry now w h v s).2
  /-- A grab. -/
  grab : ∀ (v : V) {P : Timeline E R → Prop}, Timeline.Lasting keep P →
    Run.Keeps P (ImageSource.grab v)

omit [Surroundings E R] in
/-- A display that changes the shared state within `keep`. -/
class Display.Discreet (keep : Shared R → Shared R → Prop) (D : Type)
    [Display D R capacity] : Prop where
  /-- An image is shown. -/
  present : ∀ window (im : Image capacity) (d : D) s, keep s (Display.present window im d s).2.2

variable {keep : Shared R → Shared R → Prop} {P : Timeline E R → Prop}

namespace Pipeline

section Source

variable [ImageSource V E R capacity] [ImageSource.Discreet keep V]

theorem keeps_applyGeometry (hP : Timeline.Lasting keep P) (config : Snapshot)
    (p : Pipeline V S D capacity) : Run.Keeps P (p.applyGeometry config) := by
  intro tl q tl' h hx
  by_cases hsame : p.geometry = some (config.width, config.height)
  · rw [applyGeometry_of_same hsame] at hx
    cases hx
    exact h
  · cases hv : p.video with
    | none =>
      simp only [applyGeometry, hsame, ↓reduceIte, hv] at hx
      cases hx
      exact h
    | some v =>
      rw [applyGeometry_of_other hv hsame] at hx
      cases hx
      exact hP.note _ (hP.change h (ImageSource.Discreet.setGeometry _ _ _ _ _))

theorem keeps_grab (hP : Timeline.Lasting keep P) (p : Pipeline V S D capacity) :
    Run.Keeps P p.grab := by
  unfold grab
  split
  · exact Run.keeps_pure _
  · exact (ImageSource.Discreet.grab _ hP).bind fun _ => Run.keeps_pure _

end Source

/-- What lasts outlasts a display. -/
theorem Shown.keeps [Display D R capacity] [Display.Discreet keep D]
    (hP : Timeline.Lasting keep P) {frame : ℕ} {im? : Option (Image capacity)}
    {tl done : Timeline E R} {before after : D} {displayed : Bool}
    (hs : Shown frame im? tl before displayed after done) (h : P tl) : P done := by
  cases im? with
  | none =>
    obtain ⟨-, -, rfl⟩ := hs
    exact h
  | some im =>
    obtain ⟨-, -, rfl⟩ := hs
    exact hP.note _ (hP.change h (Display.Discreet.present _ _ _ _))

section Iteration

variable [ImageSource V E R capacity] [Estimator S capacity] [Display D R capacity]
  {p p' : Pipeline V S D capacity}

omit [Surroundings E R] in
/-- A completed iteration is a pass. -/
theorem exists_pass {config : Snapshot} {w : Wakeup} {tl done : Timeline E R} {report : Report}
    (h : p.iterate config w tl = .ok (report, p') done) : ∃ k : Pass V E R, p.Completes k p' ∧
      k.config = config ∧ k.wakeup = w ∧ k.called = tl ∧ k.report = report ∧ k.done = done := by
  have hbegin := h
  rw [iterate] at hbegin
  obtain ⟨sized, mid, hsize, hbegin⟩ := Run.bind_eq_ok.1 hbegin
  obtain ⟨q, grabbed, hgrab, -⟩ := Run.bind_eq_ok.1 hbegin
  exact ⟨⟨config, w, tl, q.video, grabbed, report, done⟩,
    ⟨⟨q, (Run.bind_of_ok hsize).trans hgrab, rfl⟩, h⟩, rfl, rfl, rfl, rfl, rfl⟩

/-- What lasts outlasts a pass, up to its grab and to its end. -/
theorem Completes.keeps [ImageSource.Discreet keep V] [Display.Discreet keep D]
    (hP : Timeline.Lasting keep P) {k : Pass V E R} (hk : p.Completes k p') (h : P k.called) :
    P k.grabbed ∧ P k.done := by
  obtain ⟨q, hgrabs, -⟩ := hk.grabs
  have hgrabbed : P k.grabbed :=
    ((keeps_applyGeometry hP k.config p).bind fun _ => keeps_grab hP _) h hgrabs
  exact ⟨hgrabbed, hk.served.shown.keeps hP (hP.note _ hgrabbed)⟩

end Iteration

end Pipeline

/-! ### Runs on a timeline -/

/-- What lasts through the mark of the barrier, and through its looks, outlasts its wait. -/
theorem Barrier.keeps_wait (hP : Timeline.Lasting keep P) (hraise : ∀ s, keep s (raise s))
    (hpoll : ∀ st s, keep s (poll st s).2.2) (timeout : Option Duration) :
    Run.Keeps P (wait timeout) := by
  have hwatch : ∀ deadline, Run.Keeps P (watch deadline : Run E R _) := by
    intro deadline
    refine (Run.keeps_modifyShared hP hraise).bind fun _ => (Run.keeps_note hP _).bind fun _ =>
      (Run.keeps_await hP hpoll () deadline).bind fun looked => ?_
    rcases looked with ⟨_ | a, st⟩
    · refine Run.keeps_shared.bind fun s => ?_
      dsimp only
      split
      · exact Run.keeps_pure _
      · exact (Run.keeps_note hP _).bind fun _ => Run.keeps_pure _
    · exact (Run.keeps_note hP _).bind fun _ => Run.keeps_pure _
  cases timeout with
  | none => exact (Run.keeps_pure none).bind hwatch
  | some d => exact ((Run.keeps_later d).bind fun t => Run.keeps_pure (some t)).bind hwatch

namespace Perception

variable [ImageSource V E R capacity] [Estimator S capacity] [Display D R capacity]
  {l l' l'' : Perception V S D capacity} {tl tl' : Timeline E R} {ks : List (Iteration E R)}
  {k : Iteration E R}

/-- A completed iteration of the loop is a pass of its pipeline, with the snapshot in force at the
wake-up. -/
theorem Completes.exists_pass (h : l.Completes k l') : ∃ pass : Pipeline.Pass V E R,
    l.pipeline.Completes pass l'.pipeline ∧ pass.called = k.woken ∧
      pass.config = k.woken.shared.snapshot ∧ pass.wakeup = k.report.wakeup ∧
      pass.report = k.report ∧
      ∃ notes, k.done = { pass.done with shared := pass.done.shared.note notes } := by
  obtain ⟨c, hwake, hset⟩ := h.spec
  have hstep := h.steps
  rw [step_of_await hwake hset] at hstep
  split at hstep
  · rename_i hiterate
    simp only [EStateM.Result.ok.injEq, Prod.mk.injEq] at hstep
    obtain ⟨⟨hreport, hl⟩, hdone⟩ := hstep
    obtain ⟨pass, hpass, hconfig, hw, hcalled, hrep, hd⟩ := Pipeline.exists_pass hiterate
    rw [← hl, ← hdone, ← hreport]
    exact ⟨pass, hpass, hcalled, hconfig, by rw [hw, hreport], hrep, _, by rw [hd]⟩
  · cases hstep

omit [ImageSource V E R capacity] [Estimator S capacity] [Display D R capacity] in
theorem keeps_await (hP : Timeline.Lasting keep P) (c : Cadence) :
    Run.Keeps P (c.await : Run E R (Wakeup × Cadence)) := by
  unfold Cadence.await
  split
  · exact Run.keeps_throw _
  · exact (Run.keeps_sleepUntil hP _).bind fun _ => Run.keeps_now.bind fun _ => Run.keeps_pure _

/-- What lasts outlasts an iteration, up to its wake-up and to its end. -/
theorem Completes.keeps [ImageSource.Discreet keep V] [Display.Discreet keep D]
    (hP : Timeline.Lasting keep P) (hk : l.Completes k l') (h : P k.called) :
    P k.woken ∧ P k.done := by
  obtain ⟨c, hwake⟩ := hk.wakes
  have hwoken : P k.woken := keeps_await hP _ h hwake
  obtain ⟨pass, hpass, hcalled, -, -, -, notes, hdone⟩ := hk.exists_pass
  rw [← hcalled] at hwoken
  rw [hdone, ← hcalled]
  exact ⟨hwoken, hP.note _ (hpass.keeps hP hwoken).2⟩

omit [Estimator S capacity] [Display D R capacity] in
/-- What lasts outlasts a start. -/
theorem keeps_start [ImageSource.Discreet keep V] (hP : Timeline.Lasting keep P)
    (hraise : ∀ s, keep s (Barrier.raise s))
    (hpoll : ∀ st s, keep s (Barrier.poll st s).2.2) (p : Pipeline V S D capacity) :
    Run.Keeps P (start p) := by
  refine Run.keeps_shared.bind fun s => (Pipeline.keeps_applyGeometry hP _ _).bind fun p' =>
    (Barrier.keeps_wait hP hraise hpoll _).bind fun verdict => ?_
  have hloop : Run.Keeps P (do
      let period := (← Run.shared).snapshot.period
      let origin ← Run.now
      Run.note (.loopRunning period)
      return { pipeline := p', cadence := .start origin period } :
        Run E R (Perception V S D capacity)) :=
    Run.keeps_shared.bind fun _ => Run.keeps_now.bind fun _ =>
      (Run.keeps_note hP _).bind fun _ => Run.keeps_pure _
  cases verdict with
  | ok a => exact hloop
  | error e => exact (Run.keeps_note hP _).bind fun _ => hloop
omit [Estimator S capacity] [Display D R capacity] in
/-- A start completes if its wait at the barrier does, whatever the verdict. -/
theorem start_of_wait {p p' : Pipeline V S D capacity} {tl sized ended : Timeline E R}
    {verdict : Except BarrierFailure Attitude}
    (hsize : p.applyGeometry tl.shared.snapshot tl = .ok p' sized)
    (hwait : Barrier.wait tl.shared.snapshot.syncTimeout sized = .ok verdict ended) :
    ∃ l notes, start p tl = .ok l { ended with shared := ended.shared.note notes } ∧
      l.pipeline = p' ∧ l.cadence = .start ended.now ended.shared.snapshot.period := by
  rw [start, Run.bind_of_ok (Run.shared_apply tl)]
  dsimp only
  rw [Run.bind_of_ok hsize, Run.bind_of_ok hwait]
  cases verdict with
  | ok a => exact ⟨_, [_], rfl, rfl, rfl⟩
  | error e =>
    let period := ended.shared.snapshot.period
    refine ⟨⟨p', .start ended.now period⟩, [.startingBlind e] ++ [.loopRunning period], ?_, rfl, rfl⟩
    rw [← Shared.note_note]
    rfl

/-- The loop completes iterations one after the other, beginning on the timeline `tl` and ending on
`tl'`.  Between them time may pass. -/
inductive RanFrom : Perception V S D capacity → Timeline E R → List (Iteration E R) →
    Perception V S D capacity → Timeline E R → Prop
  | nil (l : Perception V S D capacity) (tl : Timeline E R) : RanFrom l tl [] l tl
  | idle {l l' : Perception V S D capacity} {tl tl' : Timeline E R} {ks : List (Iteration E R)}
      (d : Duration) : RanFrom l (tl.pass d) ks l' tl' → RanFrom l tl ks l' tl'
  | cons {l l' l'' : Perception V S D capacity} {tl' : Timeline E R} {k : Iteration E R}
      {ks : List (Iteration E R)} :
      l.Completes k l' → RanFrom l' k.done ks l'' tl' → RanFrom l k.called (k :: ks) l'' tl'

theorem RanFrom.ran (h : l.RanFrom tl ks l' tl') : l.Ran ks l' := by
  induction h with
  | nil => exact .nil _
  | idle _ _ ih => exact ih
  | cons hk _ ih => exact .cons hk ih

/-- **What lasts outlasts a run.** -/
theorem RanFrom.keeps [ImageSource.Discreet keep V] [Display.Discreet keep D]
    (hP : Timeline.Lasting keep P) (h : l.RanFrom tl ks l' tl') (htl : P tl) : P tl' := by
  induction h with
  | nil => exact htl
  | idle d _ ih => exact ih (hP.arrive htl (Nat.le_add_right _ d))
  | cons hk _ ih => exact ih (hk.keeps hP htl).2

theorem RanFrom.keeps_woken [ImageSource.Discreet keep V] [Display.Discreet keep D]
    (hP : Timeline.Lasting keep P) (h : l.RanFrom tl ks l' tl') (htl : P tl) :
    ∀ k ∈ ks, P k.woken := by
  induction h with
  | nil => exact fun k hk => absurd hk List.not_mem_nil
  | idle d _ ih => exact ih (hP.arrive htl (Nat.le_add_right _ d))
  | cons hk _ ih =>
    obtain ⟨hwoken, hdone⟩ := hk.keeps hP htl
    exact List.forall_mem_cons.2 ⟨hwoken, ih hdone⟩

/-- So many steps in a row are a run on their timeline. -/
theorem exists_ranFrom_of_run {n : ℕ} (h : run n l tl = .ok () tl') :
    ∃ ks l', l.RanFrom tl ks l' tl' ∧ ks.length = n := by
  induction n generalizing l tl with
  | zero =>
    cases h
    exact ⟨[], l, .nil l _, rfl⟩
  | succ n ih =>
    rw [run] at h
    obtain ⟨⟨report, l₁⟩, mid, hstep, h⟩ := Run.bind_eq_ok.1 h
    obtain ⟨woken, hk⟩ := exists_completes hstep
    obtain ⟨ks, l', hran, hn⟩ := ih h
    exact ⟨_ :: ks, l', .cons hk hran, by simp [hn]⟩

end Perception

end OnboardVision

import OnboardVision.Bench.Devices
import OnboardVision.Proofs.Timeline.Waiting

/-!
# The retained image

What the iterations of a pipeline show, whatever its source, its estimator and its display do.

* `Pipeline.Pass` is an iteration that completed, with the source and the timeline as its grab left
  them; `Pipeline.Ran` chains passes.
* `Pipeline.Completes.served` says what one pass does to everything the pipeline is connected to.
* `Pipeline.exists_completes`: an iteration completes if its grab does.

Main statement:

* `Pipeline.last_painted_shown`: after every pass of a run, the retained image is the last one that
  the source had, with one horizon for the attitude of that pass, and that is what the display was
  given.
-/

namespace OnboardVision

theorem Shared.note_nil {R : Type} (s : Shared R) : s.note [] = s := by
  simp [note]

theorem retain_eq_or {capacity : ℕ} (previous current : Option (Image capacity)) :
    retain previous current = current.or previous := by
  cases current <;> rfl

namespace Pipeline

variable {E R V S D : Type} {capacity : ℕ}

/-- What the journal gets of an outcome. -/
def failureNotes {ε : Type} (f : ε → Note) : Except ε Unit → List Note
  | .ok () => []
  | .error e => [f e]

/-! ### The stages of an iteration -/

theorem runEstimator_apply [Estimator S capacity] (input : Observation capacity)
    (p : Pipeline V S D capacity) (tl : Timeline E R) :
    p.runEstimator input tl =
      .ok ((Estimator.estimate input p.estimator).1.isOk,
          { p with estimator := (Estimator.estimate input p.estimator).2 })
        { tl with
          shared := tl.shared.note (failureNotes (.estimatorFailed input.frameNumber)
            (Estimator.estimate input p.estimator).1) } := by
  rw [runEstimator]
  rcases Estimator.estimate input p.estimator with ⟨e | ⟨⟩, estimator⟩
  · rfl
  · rw [failureNotes, Shared.note_nil]
    rfl

/-- What was displayed, if there was an image: one call took the display from one state to another,
and the flag tells whether it succeeded. -/
def Shown [Display D R capacity] (frame : ℕ) (im? : Option (Image capacity)) (tl : Timeline E R)
    (before : D) (displayed : Bool) (after : D) (done : Timeline E R) : Prop :=
  match im? with
  | none => displayed = false ∧ after = before ∧ done = tl
  | some im =>
    let (verdict, display, s) := Display.present window im before tl.shared
    displayed = verdict.isOk ∧ after = display ∧
      done = { tl with shared := s.note (failureNotes (.displayFailed frame) verdict) }

theorem exists_present [Display D R capacity] (frame : ℕ) (p : Pipeline V S D capacity)
    (tl : Timeline E R) : ∃ displayed display done,
      p.present frame tl = .ok (displayed, { p with display }) done ∧
        Shown frame p.previous tl p.display displayed display done := by
  rw [present]
  rcases p with ⟨video, estimator, before, _ | im, geometry⟩
  · exact ⟨_, _, _, rfl, rfl, rfl, rfl⟩
  · simp only [Run.bind_of_ok (Run.shared_apply tl), Shown]
    rcases Display.present window im before tl.shared with ⟨e | ⟨⟩, display, s⟩
    · exact ⟨_, _, _, rfl, rfl, rfl, rfl⟩
    · exact ⟨_, _, _, rfl, rfl, rfl, by rw [failureNotes, Shared.note_nil]⟩

section Source

variable [ImageSource V E R capacity] {p q : Pipeline V S D capacity} {tl mid : Timeline E R}

theorem applyGeometry_of_same {config : Snapshot}
    (h : p.geometry = some (config.width, config.height)) (tl : Timeline E R) :
    p.applyGeometry config tl = .ok p tl := by
  rw [applyGeometry]
  exact congrFun (if_pos h) tl

theorem applyGeometry_of_other {config : Snapshot} {v : V} (hv : p.video = some v)
    (h : p.geometry ≠ some (config.width, config.height)) (tl : Timeline E R) :
    p.applyGeometry config tl =
      let (v, s) := ImageSource.setGeometry tl.now config.width config.height v tl.shared
      .ok { p with video := some v, geometry := some (config.width, config.height) }
        { tl with shared := s.note [.geometryRequested config.width config.height] } := by
  rw [applyGeometry, hv]
  exact congrFun (if_neg h) tl

/-- Only the source is asked for another size. -/
theorem applyGeometry_apply (config : Snapshot) (p : Pipeline V S D capacity)
    (tl : Timeline E R) : ∃ v g s, p.applyGeometry config tl =
      .ok { p with video := v, geometry := g } { tl with shared := s } := by
  rw [applyGeometry]
  dsimp only
  split
  · exact ⟨p.video, p.geometry, tl.shared, rfl⟩
  · cases p.video with
    | none => exact ⟨none, _, tl.shared, rfl⟩
    | some v => exact ⟨_, _, _, rfl⟩

/-- A grab changes the source and nothing else of a pipeline. -/
theorem eq_of_grab (h : p.grab tl = .ok q mid) : q = { p with video := q.video } := by
  rw [grab] at h
  cases hv : p.video with
  | none =>
    rw [hv] at h
    cases h
    rfl
  | some v =>
    rw [hv] at h
    obtain ⟨_, _, -, h⟩ := Run.bind_eq_ok.1 h
    cases h
    rfl

end Source

/-! ### Passes -/

/-- A completed iteration. -/
structure Pass (V E R : Type) where
  /-- The snapshot that it was run with. -/
  config : Snapshot
  /-- Its wake-up. -/
  wakeup : Wakeup
  /-- The timeline that it was called on. -/
  called : Timeline E R
  /-- The source at the end of the grab, if there is one. -/
  source : Option V
  /-- The timeline at the end of the grab. -/
  grabbed : Timeline E R
  /-- What it reported. -/
  report : Report
  /-- The timeline it left behind. -/
  done : Timeline E R

namespace Pass

variable [ImageSource V E R capacity]

/-- The telemetry at the end of the grab. -/
def sample (k : Pass V E R) : Sample := k.grabbed.shared.telemetry.sample

/-- The image that the source had. -/
def image (k : Pass V E R) : Option (Image capacity) := k.source.bind ImageSource.image?

/-- That image with a horizon on it. -/
def painted? (k : Pass V E R) : Option (Image capacity) :=
  k.image.map fun im => (Horizon.ofAttitude k.sample.attitude im.width im.height).paint im

/-- What the estimator is to be given. -/
def observation (k : Pass V E R) : Observation capacity :=
  { frameNumber := k.wakeup.frame, dt := k.wakeup.seconds, image := k.image, telemetry := k.sample }

/-- One call with the observation took the estimator from one state to another, and the report tells
whether it had a result. -/
def Estimated [Estimator S capacity] (k : Pass V E R) (before after : S) : Prop :=
  let (verdict, estimator) := Estimator.estimate k.observation before
  k.report.estimated = verdict.isOk ∧ after = estimator

/-- The timeline after the call of the estimator. -/
def afterEstimate [Estimator S capacity] (k : Pass V E R) (before : S) : Timeline E R :=
  { k.grabbed with
    shared := k.grabbed.shared.note (failureNotes (.estimatorFailed k.wakeup.frame)
      (Estimator.estimate k.observation before).1) }

end Pass

variable [ImageSource V E R capacity] [Estimator S capacity] [Display D R capacity]
  {p q p' p'' : Pipeline V S D capacity} {k : Pass V E R} {ks : List (Pass V E R)}
  {tl mid : Timeline E R}

/-- The pipeline `p` completes the pass `k` and is `p'` afterwards. -/
structure Completes (p : Pipeline V S D capacity) (k : Pass V E R)
    (p' : Pipeline V S D capacity) : Prop where
  /-- The grab ended with the source and on the timeline that the pass says. -/
  grabs : ∃ q, (p.applyGeometry k.config >>= grab) k.called = .ok q k.grabbed ∧ q.video = k.source
  /-- The whole iteration completed. -/
  iterates : p.iterate k.config k.wakeup k.called = .ok (k.report, p') k.done

/-- What a pass does to everything that the pipeline is connected to. -/
structure Served (p : Pipeline V S D capacity) (k : Pass V E R)
    (p' : Pipeline V S D capacity) : Prop where
  /-- The source is as the grab left it. -/
  video_eq : p'.video = k.source
  /-- A new image is retained with its horizon. -/
  previous_eq : p'.previous = k.painted?.or p.previous
  /-- The estimator was called once. -/
  estimated : k.Estimated p.estimator p'.estimator
  /-- The display was called once if there is something to show. -/
  shown : Shown k.wakeup.frame p'.previous (k.afterEstimate p.estimator) p.display
    k.report.displayed p'.display k.done
  /-- The report. -/
  report_eq : k.report.wakeup = k.wakeup ∧ k.report.hadFrame = k.image.isSome

omit [Estimator S capacity] [Display D R capacity] in
/-- Up to the end of the grab, nothing but the source changes. -/
theorem eq_of_grabs {config : Snapshot} (h : (p.applyGeometry config >>= grab) tl = .ok q mid) :
    ∃ v g, q = { p with video := v, geometry := g } := by
  obtain ⟨v, g, s, hsize⟩ := applyGeometry_apply config p tl
  rw [Run.bind_of_ok hsize] at h
  have hq := eq_of_grab h
  exact ⟨q.video, g, hq⟩

/-- From the end of the grab on, an iteration takes no time and does not fail. -/
theorem exists_iterate_of_grabs {config : Snapshot}
    (h : (p.applyGeometry config >>= grab) tl = .ok q mid) (w : Wakeup) :
    ∃ report p' done, p.iterate config w tl = .ok (report, p') done ∧
      p.Served ⟨config, w, tl, q.video, mid, report, done⟩ p' ∧ p'.geometry = q.geometry := by
  obtain ⟨sized, tl₁, hsize, hgrab⟩ := Run.bind_eq_ok.1 h
  obtain ⟨v, g, rfl⟩ := eq_of_grabs h
  rw [iterate, Run.bind_of_ok hsize, Run.bind_of_ok hgrab,
    Run.bind_of_ok (Run.shared_apply mid)]
  dsimp only
  rw [Run.bind_of_ok (runEstimator_apply _ _ _)]
  dsimp only
  -- only the image that is retained matters to the display, not how it came there
  generalize hp₂ : retainPainted _ _ _ = p₂
  obtain ⟨displayed, display, done, hpresent, hshown⟩ := exists_present w.frame p₂ _
  rw [Run.bind_of_ok hpresent]
  subst hp₂
  exact ⟨_, _, _, rfl, ⟨rfl, retain_eq_or _ _, ⟨rfl, rfl⟩, hshown, rfl, rfl⟩, rfl⟩

/-- A completed pass, and what its grab left of the pipeline. -/
theorem Completes.spec (h : p.Completes k p') :
    ∃ q, (p.applyGeometry k.config >>= grab) k.called = .ok q k.grabbed ∧
      p'.video = q.video ∧ p'.geometry = q.geometry ∧ p.Served k p' := by
  obtain ⟨q, hgrabs, hsource⟩ := h.grabs
  obtain ⟨report, p'', done, hiterate, hserved, hgeometry⟩ :=
    exists_iterate_of_grabs hgrabs k.wakeup
  have hiterates := h.iterates
  rw [hiterate] at hiterates
  cases hiterates
  refine ⟨q, hgrabs, hserved.video_eq, hgeometry, ?_⟩
  rw [hsource] at hserved
  exact hserved

theorem Completes.served (h : p.Completes k p') : p.Served k p' := by
  obtain ⟨-, -, -, -, hserved⟩ := h.spec
  exact hserved

/-- An iteration completes if its grab does. -/
theorem exists_completes {config : Snapshot}
    (h : (p.applyGeometry config >>= grab) tl = .ok q mid) (w : Wakeup) :
    ∃ report p' done, p.Completes ⟨config, w, tl, q.video, mid, report, done⟩ p' := by
  obtain ⟨report, p', done, hiterate, -, -⟩ := exists_iterate_of_grabs h w
  exact ⟨report, p', done, ⟨q, h, rfl⟩, hiterate⟩

/-! ### Runs -/

/-- The pipeline completes passes one after the other.  What happens on the timeline between one and
the next is left open. -/
inductive Ran : Pipeline V S D capacity → List (Pass V E R) → Pipeline V S D capacity → Prop
  | nil (p : Pipeline V S D capacity) : Ran p [] p
  | cons {p p' p'' : Pipeline V S D capacity} {k : Pass V E R} {ks : List (Pass V E R)} :
      p.Completes k p' → Ran p' ks p'' → Ran p (k :: ks) p''

/-- A run retains the last image that it painted. -/
theorem Ran.previous_eq (h : p.Ran ks p') :
    p'.previous = (ks.filterMap Pass.painted?).getLast?.or p.previous := by
  induction h with
  | nil p => rfl
  | @cons p p' p'' k ks hk hran ih =>
    -- what the first pass painted counts only if the others painted nothing
    rw [ih, hk.served.previous_eq, List.filterMap_cons]
    cases k.painted? with
    | none => rfl
    | some im =>
      cases hlast : (ks.filterMap Pass.painted?).getLast? <;> simp [List.getLast?_cons, hlast]

/-- **The image that is retained and shown.**  After every pass of a run of a new pipeline, the
retained image is the last one that the source had, with the horizon for the attitude at the end of
that grab and for the image's own size, and no image as long as there was none.  The pass shows it in
one call, and makes one call of the estimator, with the image as it came and the same telemetry; the
source is as the grab left it.  No outcome of these calls keeps a pass from completing. -/
theorem last_painted_shown {video : Option V} {estimator : S} {display : D} {tl₀ tl₁ : Timeline E R}
    {p₀ : Pipeline V S D capacity} (hnew : connect video estimator display tl₀ = .ok p₀ tl₁)
    (hran : p₀.Ran ks p) :
    (∀ k p', p.Completes k p' →
      p'.previous = ((ks ++ [k]).filterMap Pass.painted?).getLast? ∧
      Shown k.wakeup.frame p'.previous (k.afterEstimate p.estimator) p.display
        k.report.displayed p'.display k.done ∧
      k.Estimated p.estimator p'.estimator ∧
      p'.video = k.source ∧ k.report.wakeup = k.wakeup ∧ k.report.hadFrame = k.image.isSome) ∧
    ∀ config w tl q mid, (p.applyGeometry config >>= grab) tl = .ok q mid →
      ∃ report p' done, p.Completes ⟨config, w, tl, q.video, mid, report, done⟩ p' := by
  have hfresh : p₀.previous = none := by
    rw [connect] at hnew
    split at hnew <;> (cases hnew; rfl)
  have hprevious := hran.previous_eq
  rw [hfresh, Option.or_none] at hprevious
  refine ⟨fun k p' hk => ?_, fun config w tl q mid hgrabs => exists_completes hgrabs w⟩
  have hserved := hk.served
  refine ⟨?_, hserved.shown, hserved.estimated, hserved.video_eq, hserved.report_eq⟩
  rw [hserved.previous_eq, hprevious, List.filterMap_append, List.getLast?_append]
  cases hpainted : k.painted? <;> simp [hpainted]

/-- A vehicle that banks and climbs. -/
def banking : Bench.Scene where
  shared := { telemetry := { attitude := { roll := 20, pitch := 10 } }, rig := {} }

/-- A camera has one image and then none, the estimator fails at first, and so does the display: what
the second pass shows is the image of the first one, with one horizon. -/
theorem shown_without_new_image :
    ∃ (p₀ p₁ p₂ : Bench.Devices 4) (k₁ k₂ : Pass (Bench.Camera 4) Bench.Event Bench.Rig),
      connect (some { script := .shots [{ width := some 2, height := some 2, luma := some 50 }] })
        { script := [some .diverged] } { script := [some .busy] } banking = .ok p₀ banking ∧
      p₀.Completes k₁ p₁ ∧ p₁.Completes k₂ p₂ ∧
      (k₁.report.hadFrame, k₁.report.estimated, k₁.report.displayed) = (true, false, false) ∧
      (k₂.report.hadFrame, k₂.report.estimated, k₂.report.displayed) = (false, true, true) ∧
      p₂.previous = k₁.painted? ∧ p₂.display.last = k₁.painted?.map (window, ·) := by
  obtain ⟨p₀, q₁, g₁, r₁, p₁, d₁, q₂, g₂, r₂, p₂, d₂, hnew, hgrab₁, hdone₁, hgrab₂, hdone₂, hr₁,
      hr₂⟩ : ∃ p₀ : Bench.Devices 4, ∃ q₁ g₁ r₁ p₁ d₁ q₂ g₂ r₂ p₂ d₂,
      connect (some { script := .shots [{ width := some 2, height := some 2, luma := some 50 }] })
        { script := [some .diverged] } { script := [some .busy] } banking = .ok p₀ banking ∧
      (p₀.applyGeometry default >>= grab) banking = .ok q₁ g₁ ∧
      p₀.iterate default default banking = .ok (r₁, p₁) d₁ ∧
      (p₁.applyGeometry default >>= grab) d₁ = .ok q₂ g₂ ∧
      p₁.iterate default default d₁ = .ok (r₂, p₂) d₂ ∧
      (r₁.hadFrame, r₁.estimated, r₁.displayed) = (true, false, false) ∧
      (r₂.hadFrame, r₂.estimated, r₂.displayed) = (false, true, true) :=
    ⟨_, _, _, _, _, _, _, _, _, _, _, rfl, rfl, rfl, rfl, rfl, rfl, rfl⟩
  obtain ⟨k₁, hk₁, rfl⟩ : ∃ k, p₀.Completes k p₁ ∧ k.report = r₁ :=
    ⟨⟨default, default, banking, _, g₁, r₁, d₁⟩, ⟨⟨q₁, hgrab₁, rfl⟩, hdone₁⟩, rfl⟩
  obtain ⟨k₂, hk₂, rfl⟩ : ∃ k, p₁.Completes k p₂ ∧ k.report = r₂ :=
    ⟨⟨default, default, d₁, _, g₂, r₂, d₂⟩, ⟨⟨q₂, hgrab₂, rfl⟩, hdone₂⟩, rfl⟩
  have hframe₁ := hk₁.served.report_eq.2
  obtain ⟨hprevious, hshown, -, -, -, hframe₂⟩ :=
    (last_painted_shown hnew (.cons hk₁ (.nil p₁))).1 k₂ p₂ hk₂
  refine ⟨p₀, p₁, p₂, k₁, k₂, hnew, hk₁, hk₂, hr₁, hr₂, ?_⟩
  simp only [Prod.mk.injEq] at hr₁ hr₂
  obtain ⟨im, him⟩ := Option.isSome_iff_exists.1 (hframe₁.symm.trans hr₁.1)
  have hnone : k₂.image = none := by simpa [hr₂.1] using hframe₂
  have hretained : p₂.previous = k₁.painted? := by
    rw [hprevious]
    simp [Pass.painted?, him, hnone]
  refine ⟨hretained, ?_⟩
  rw [hretained] at hshown
  simp only [Pass.painted?, him, Option.map_some, Shown] at hshown ⊢
  rw [hshown.2.1]
  rfl

end Pipeline

end OnboardVision

import OnboardVision.Proofs.Perception.Discretion

/-!
# Recorded sources

A `Recorded` source notes down the sizes it is asked for.  The loop cannot tell: whatever it does
with the source itself it does with the recorded one, at the same instants and with the same reports
(`Perception.RanFrom.exists_recorded`), so what a record says of a run it says of the run without the
recorder.
-/

namespace OnboardVision

/-- A source, and the sizes that it was asked for, in order. -/
structure Recorded (V : Type) where
  /-- The source. -/
  source : V
  /-- The sizes. -/
  requests : List (UInt16 × UInt16) := []

variable {E R V S D : Type} {capacity : ℕ}

instance [ImageSource V E R capacity] : ImageSource (Recorded V) E R capacity where
  setGeometry now w h v s :=
    let (source, s) := ImageSource.setGeometry now w h v.source s
    (⟨source, v.requests ++ [(w, h)]⟩, s)
  grab v := do
    let (found, source) ← ImageSource.grab v.source
    return (found, { v with source })
  image? v := ImageSource.image? v.source

theorem Run.exists_of_map_eq_ok {α β : Type} {f : α → β} {x : Run E R α} {y : Run E R β} {b : β}
    {tl tl' : Timeline E R} (h : f <$> x = y) (hy : y tl = .ok b tl') :
    ∃ a, x tl = .ok a tl' ∧ f a = b := by
  rw [← h, ← bind_pure_comp] at hy
  obtain ⟨a, mid, hx, hb⟩ := Run.bind_eq_ok.1 hy
  cases hb
  exact ⟨a, hx, rfl⟩

namespace Pipeline

/-- The pipeline without the recorder. -/
def plain (p : Pipeline (Recorded V) S D capacity) : Pipeline V S D capacity :=
  { p with video := p.video.map Recorded.source }

variable [ImageSource V E R capacity] [Estimator S capacity] [Display D R capacity]

omit [Estimator S capacity] [Display D R capacity] in
theorem map_applyGeometry (config : Snapshot) (p : Pipeline (Recorded V) S D capacity) :
    plain <$> (p.applyGeometry config : Run E R _) = p.plain.applyGeometry config := by
  by_cases hsame : p.geometry = some (config.width, config.height)
  · have hplain : p.plain.geometry = some (config.width, config.height) := hsame
    simp only [applyGeometry, hsame, hplain, ↓reduceIte, map_pure]
  · have hplain : ¬ p.plain.geometry = some (config.width, config.height) := hsame
    simp only [applyGeometry, hsame, hplain, ↓reduceIte]
    rcases p with ⟨_ | v, estimator, display, previous, geometry⟩ <;> rfl

omit [Estimator S capacity] [Display D R capacity] in
theorem map_grab (p : Pipeline (Recorded V) S D capacity) :
    plain <$> (p.grab : Run E R _) = p.plain.grab := by
  rcases p with ⟨_ | v, estimator, display, previous, geometry⟩
  · rfl
  · simp only [grab, plain, Option.map, ImageSource.grab, bind_assoc, pure_bind, map_bind, map_pure]

omit [ImageSource V E R capacity] [Display D R capacity] in
theorem map_runEstimator (input : Observation capacity) (p : Pipeline (Recorded V) S D capacity) :
    Prod.map id plain <$> (p.runEstimator input : Run E R _) = p.plain.runEstimator input := by
  rw [runEstimator, runEstimator, plain]
  rcases Estimator.estimate input p.estimator with ⟨e | ⟨⟩, estimator⟩ <;> rfl

omit [ImageSource V E R capacity] [Estimator S capacity] in
theorem map_present (frame : ℕ) (p : Pipeline (Recorded V) S D capacity) :
    Prod.map id plain <$> (p.present frame : Run E R _) = p.plain.present frame := by
  rcases p with ⟨video, estimator, display, _ | im, geometry⟩
  · rfl
  · simp only [present, plain, map_bind]
    refine bind_congr fun s => ?_
    rcases Display.present window im display s with ⟨e | ⟨⟩, display', s'⟩ <;> rfl

omit [Estimator S capacity] [Display D R capacity] in
theorem plain_current (p : Pipeline (Recorded V) S D capacity) : p.plain.current = p.current := by
  rcases p with ⟨_ | v, estimator, display, previous, geometry⟩ <;> rfl

theorem map_iterate (config : Snapshot) (w : Wakeup) (p : Pipeline (Recorded V) S D capacity) :
    Prod.map id plain <$> (p.iterate config w : Run E R _) = p.plain.iterate config w := by
  rw [iterate, iterate, ← map_applyGeometry]
  simp only [bind_map_left, map_bind]
  refine bind_congr fun sized => ?_
  rw [← map_grab]
  simp only [bind_map_left]
  refine bind_congr fun grabbed => bind_congr fun s => ?_
  rw [plain_current, ← map_runEstimator]
  simp only [bind_map_left]
  refine bind_congr fun estimated => ?_
  have hretain : ∀ im?, (estimated.2.plain.retainPainted s.telemetry.sample.attitude im?) =
      (estimated.2.retainPainted s.telemetry.sample.attitude im?).plain := fun _ => rfl
  simp only [Prod.map_snd, hretain, ← map_present, bind_map_left]
  rfl

end Pipeline

namespace Perception

/-- The loop without the recorder. -/
def plain (l : Perception (Recorded V) S D capacity) : Perception V S D capacity :=
  ⟨l.pipeline.plain, l.cadence⟩

variable [Surroundings E R] [ImageSource V E R capacity] [Estimator S capacity]
  [Display D R capacity]

omit [Estimator S capacity] [Display D R capacity] in
theorem map_start (p : Pipeline (Recorded V) S D capacity) :
    plain <$> (start p : Run E R _) = start p.plain := by
  rw [start, start]
  simp only [map_bind]
  refine bind_congr fun s => ?_
  rw [← Pipeline.map_applyGeometry]
  simp only [bind_map_left]
  refine bind_congr fun sized => bind_congr fun verdict => ?_
  cases verdict <;> rfl

theorem map_step (l : Perception (Recorded V) S D capacity) :
    Prod.map id plain <$> (l.step : Run E R _) = l.plain.step := by
  rw [step, step]
  simp only [map_bind]
  refine bind_congr fun woken => bind_congr fun s => ?_
  cases woken.2.setPeriod s.snapshot.period with
  | none => rfl
  | some c =>
    simp only [map_bind]
    rw [plain, ← Pipeline.map_iterate]
    simp only [bind_map_left]
    refine bind_congr fun iterated => ?_
    dsimp only [Prod.map_fst, id_eq]
    split <;> rfl

variable {p : Pipeline (Recorded V) S D capacity} {l : Perception (Recorded V) S D capacity}
  {m m' : Perception V S D capacity} {tl tl' : Timeline E R} {k : Iteration E R}
  {ks : List (Iteration E R)}

omit [Estimator S capacity] [Display D R capacity] in
/-- A start with a recorder. -/
theorem exists_recorded_of_start (h : start p.plain tl = .ok m tl') :
    ∃ l, start p tl = .ok l tl' ∧ l.plain = m := Run.exists_of_map_eq_ok (map_start p) h

theorem Completes.exists_recorded (h : l.plain.Completes k m') :
    ∃ l', l.Completes k l' ∧ l'.plain = m' := by
  obtain ⟨⟨report, l'⟩, hstep, hl'⟩ := Run.exists_of_map_eq_ok (map_step l) h.steps
  cases hl'
  exact ⟨l', ⟨h.wakes, hstep⟩, rfl⟩

/-- **The recorder does not get in the way.**  Every run is a run with a recorder, with the same
iterations. -/
theorem RanFrom.exists_recorded (h : m.RanFrom tl ks m' tl') (hm : l.plain = m) :
    ∃ l', l.RanFrom tl ks l' tl' ∧ l'.plain = m' := by
  induction h generalizing l with
  | nil m tl => exact ⟨l, .nil l tl, hm⟩
  | idle d _ ih =>
    obtain ⟨l', hran, hl'⟩ := ih hm
    exact ⟨l', .idle d hran, hl'⟩
  | cons hk _ ih =>
    subst hm
    obtain ⟨l₁, hk₁, hl₁⟩ := hk.exists_recorded
    obtain ⟨l', hran, hl'⟩ := ih hl₁
    exact ⟨l', .cons hk₁ hran, hl'⟩

end Perception

end OnboardVision

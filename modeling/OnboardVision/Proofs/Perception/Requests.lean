import Mathlib.Data.List.Destutter
import OnboardVision.Proofs.Bench.Discretion
import OnboardVision.Proofs.Camera.Geometry
import OnboardVision.Proofs.Perception.HotReload
import OnboardVision.Proofs.Perception.Recording
import OnboardVision.Proofs.Settings.Calls

/-!
# Requests for a size

The loop asks its source for the size of the snapshot that it starts with, and then for the size of
the snapshot that an iteration wakes to whenever it is another one.

* `Pipeline.Asked p sizes`: the source of the pipeline was asked for the sizes `sizes`, except those
  that it had been asked for last.
* `Perception.requests_of_snapshots` says so of every run, and that each of these sizes is one that
  the capture buffer takes.
-/

namespace OnboardVision

/-- Behind a list without repetitions comes what it does not end with. -/
theorem destutter_ne_concat {α : Type} [DecidableEq α] (l : List α) (a : α) :
    (l ++ [a]).destutter (· ≠ ·) =
      if (l.destutter (· ≠ ·)).getLast? = some a then l.destutter (· ≠ ·)
      else l.destutter (· ≠ ·) ++ [a] := by
  cases l with
  | nil => rfl
  | cons b l =>
    rw [List.cons_append, List.destutter_cons', List.destutter_cons']
    induction l generalizing b with
    | nil => by_cases h : b = a <;> simp [h]
    | cons c l ih =>
      rw [List.cons_append]
      by_cases h : b ≠ c
      · have hlast : (b :: l.destutter' (· ≠ ·) c).getLast? = (l.destutter' (· ≠ ·) c).getLast? :=
          List.getLast?_cons_of_ne_nil (List.destutter'_ne_nil _ _)
        rw [List.destutter'_cons_pos _ h, List.destutter'_cons_pos _ h, ih, hlast]
        split <;> rfl
      · rw [List.destutter'_cons_neg _ h, List.destutter'_cons_neg _ h, ih]

/-- The last of the elements that stay is the last of all. -/
theorem getLast?_destutter_ne {α : Type} [DecidableEq α] (l : List α) :
    (l.destutter (· ≠ ·)).getLast? = l.getLast? := by
  induction l using List.reverseRecOn with
  | nil => rfl
  | append_singleton l a ih =>
    rw [destutter_ne_concat, List.getLast?_concat]
    split
    · assumption
    · rw [List.getLast?_concat]

/-- The size of the frames. -/
def Snapshot.size (sn : Snapshot) : UInt16 × UInt16 := (sn.width, sn.height)

/-- A snapshot that is checked against a buffer with room for the default has a size that the buffer
takes. -/
theorem Hub.Leads.usable {settings : Settings} {capacities : List ℕ} {counters N : ℕ} {h : Hub}
    (hleads : (fresh settings capacities counters).Leads h) (hcap : capacities[0]? = some N)
    (hN : 160 * 120 ≤ N) : Camera.Usable N (h.snapshot 0).size.1 (h.snapshot 0).size.2 := by
  obtain ⟨as, rfl⟩ := hleads
  have hforce := inForce_snapshot settings counters as hcap
  exact Camera.usable_iff.2
    ⟨hforce.sound.width_ne, hforce.sound.height_ne, hforce.fits_iff.2 (.inl hN)⟩

variable {E R V S D : Type} {capacity : ℕ} {sizes : List (UInt16 × UInt16)} {tl tl' : Timeline E R}

namespace Pipeline

/-- The source of the pipeline was asked for the sizes in order, except for those that it had been
asked for last, and the pipeline knows the last one. -/
def Asked (p : Pipeline (Recorded V) S D capacity) (sizes : List (UInt16 × UInt16)) : Prop :=
  ∃ v, p.video = some v ∧ v.requests = sizes.destutter (· ≠ ·) ∧ p.geometry = sizes.getLast?

variable [ImageSource V E R capacity] {p q p' : Pipeline (Recorded V) S D capacity}

/-- What the source is asked for is the size of the snapshot, if it was not the last one. -/
theorem Asked.applyGeometry (h : p.Asked sizes) (config : Snapshot) (tl : Timeline E R) :
    ∃ q sized, p.applyGeometry config tl = .ok q sized ∧ q.Asked (sizes ++ [config.size]) := by
  obtain ⟨v, hv, hrequests, hgeometry⟩ := h
  have hnext := destutter_ne_concat sizes config.size
  rw [getLast?_destutter_ne, ← hgeometry, ← hrequests] at hnext
  have hlast : (sizes ++ [config.size]).getLast? = some config.size := List.getLast?_concat
  by_cases hsame : p.geometry = some config.size
  · rw [if_pos hsame] at hnext
    exact ⟨p, tl, applyGeometry_of_same hsame tl, v, hv, hnext.symm, hsame.trans hlast.symm⟩
  · rw [if_neg hsame] at hnext
    exact ⟨_, _, applyGeometry_of_other hv hsame tl, _, rfl, hnext.symm, hlast.symm⟩

theorem Asked.grab (h : p.Asked sizes) (hgrab : p.grab tl = .ok q tl') : q.Asked sizes := by
  obtain ⟨v, hv, hrequests, hgeometry⟩ := h
  rw [Pipeline.grab, hv] at hgrab
  obtain ⟨⟨found, v'⟩, mid, hsource, hq⟩ := Run.bind_eq_ok.1 hgrab
  obtain ⟨⟨found', source⟩, mid', -, hv'⟩ := Run.bind_eq_ok.1 hsource
  cases hv'
  cases hq
  exact ⟨_, rfl, hrequests, hgeometry⟩

variable [Estimator S capacity] [Display D R capacity]

/-- A pass asks for the size of its snapshot. -/
theorem Completes.asked {k : Pass (Recorded V) E R} (hk : p.Completes k p') (h : p.Asked sizes) :
    p'.Asked (sizes ++ [k.config.size]) := by
  obtain ⟨q, hgrabs, hvideo, hgeometry, -⟩ := hk.spec
  obtain ⟨p₁, sized, hsize, hasked⟩ := h.applyGeometry k.config k.called
  rw [Run.bind_of_ok hsize] at hgrabs
  obtain ⟨v, hv, hrequests, hlast⟩ := hasked.grab hgrabs
  exact ⟨v, hvideo.trans hv, hrequests, hgeometry.trans hlast⟩

end Pipeline

namespace Perception

variable [Surroundings E R] [ImageSource V E R capacity]

theorem asked_of_start {p : Pipeline (Recorded V) S D capacity}
    {l : Perception (Recorded V) S D capacity} (hstart : start p tl = .ok l tl')
    (h : p.Asked sizes) : l.pipeline.Asked (sizes ++ [tl.shared.snapshot.size]) := by
  obtain ⟨p', sized, verdict, ended, hsize, hwait, -⟩ := of_start hstart
  obtain ⟨l₀, notes, hstart₀, hpipeline, -⟩ := start_of_wait hsize hwait
  rw [hstart₀] at hstart
  cases hstart
  obtain ⟨q, sized', hsize', hasked⟩ := h.applyGeometry tl.shared.snapshot tl
  rw [hsize'] at hsize
  cases hsize
  rw [hpipeline]
  exact hasked

variable [Estimator S capacity] [Display D R capacity]
  {l l' : Perception (Recorded V) S D capacity} {k : Iteration E R} {ks : List (Iteration E R)}

theorem Completes.asked (hk : l.Completes k l') (h : l.pipeline.Asked sizes) :
    l'.pipeline.Asked (sizes ++ [k.woken.shared.snapshot.size]) := by
  obtain ⟨pass, hpass, -, hconfig, -⟩ := hk.exists_pass
  rw [← hconfig]
  exact hpass.asked h

/-- **What a run asks for.**  Every wake-up adds the size of its snapshot. -/
theorem RanFrom.asked (hran : l.RanFrom tl ks l' tl') (h : l.pipeline.Asked sizes) :
    l'.pipeline.Asked (sizes ++ ks.map fun k => k.woken.shared.snapshot.size) := by
  induction hran generalizing sizes with
  | nil => rwa [List.map_nil, List.append_nil]
  | idle d _ ih => exact ih h
  | cons hk _ ih =>
    have hall := ih (hk.asked h)
    rwa [List.append_assoc, List.singleton_append] at hall

/-- **Requests follow the snapshots.**  A source is asked for the size of the snapshot that the loop
starts with, and then, at each wake-up and before the grab, for the size of the snapshot in force
unless it was asked for the same one last.  So no two requests in a row are the same, and if the
default fits the capture buffer, the buffer takes each size that is asked for. -/
theorem requests_of_snapshots [Surroundings.Orderly E R] [ImageSource.Discreet Shared.HubCalled V]
    [Display.Discreet Shared.HubCalled D] {settings : Settings} {capacities : List ℕ}
    {counters N : ℕ} (hcap : capacities[0]? = some N) (hN : 160 * 120 ≤ N) (ht : tl.Timely)
    (hhub : (Hub.fresh settings capacities counters).Leads tl.shared.hub) {source : V}
    {estimator : S} {display : D} {m m' : Perception V S D capacity} {begun next : Timeline E R}
    (hstart : start { video := some source, estimator, display } tl = .ok m begun)
    (hran : m.RanFrom begun ks m' next) :
    let sizes := tl.shared.snapshot.size :: ks.map fun k => k.woken.shared.snapshot.size
    ∃ l l' : Perception (Recorded V) S D capacity,
      start { video := some { source }, estimator, display } tl = .ok l begun ∧ l.plain = m ∧
      l.RanFrom begun ks l' next ∧ l'.plain = m' ∧
      (∃ v, l'.pipeline.video = some v ∧ v.requests = sizes.destutter (· ≠ ·) ∧
        v.requests.IsChain (· ≠ ·) ∧ ∀ r ∈ v.requests, Camera.Usable N r.1 r.2) ∧
      ∀ w c woken, m'.cadence.await next = .ok (w, c) woken →
        ∃ p sized v, l'.pipeline.applyGeometry woken.shared.snapshot woken = .ok p sized ∧
          p.video = some v ∧
          v.requests = (sizes ++ [woken.shared.snapshot.size]).destutter (· ≠ ·) ∧
          v.requests.getLast? = some woken.shared.snapshot.size ∧
          Camera.Usable N woken.shared.snapshot.width woken.shared.snapshot.height := by
  intro sizes
  obtain ⟨l, hrecorded, hl⟩ := exists_recorded_of_start
    (p := { video := some { source }, estimator, display }) hstart
  obtain ⟨l', hran', hl'⟩ := hran.exists_recorded hl
  have hasked : l.pipeline.Asked ([] ++ [tl.shared.snapshot.size]) :=
    asked_of_start hrecorded ⟨_, rfl, rfl, rfl⟩
  have hasked : l'.pipeline.Asked sizes := hran'.asked hasked
  -- all hubs come from the first one by calls
  have hP := Timeline.lasting_leads (E := E) (R := R) (Hub.fresh settings capacities counters)
  have hpoll : ∀ (st : Unit) (s : Shared R), s.HubCalled (Barrier.poll st s).2.2 := by
    intro st s
    rw [Barrier.poll_eq]
    exact s.hub.leads_refl
  have hbegun := keeps_start hP (fun s => s.hub.leads_refl) hpoll _ ⟨ht, hhub⟩ hstart
  refine ⟨l, l', hrecorded, hl, hran', hl', ?_, fun w c woken hwake => ?_⟩
  · obtain ⟨v, hv, hrequests, -⟩ := hasked
    refine ⟨v, hv, hrequests, ?_, fun r hr => ?_⟩
    · rw [hrequests]
      exact List.isChain_destutter _ _
    · rw [hrequests] at hr
      rcases List.mem_cons.1 ((List.destutter_sublist _ _).subset hr) with rfl | hr
      · exact hhub.usable hcap hN
      · obtain ⟨k, hk, rfl⟩ := List.mem_map.1 hr
        exact (hran.keeps_woken hP hbegun k hk).2.usable hcap hN
  · obtain ⟨p, sized, hsize, v, hv, hrequests, hlast⟩ :=
      hasked.applyGeometry woken.shared.snapshot woken
    refine ⟨p, sized, v, hsize, hv, hrequests, ?_, ?_⟩
    · rw [hrequests, getLast?_destutter_ne, List.getLast?_concat]
    · exact (keeps_await hP m'.cadence (hran.keeps hP hbegun) hwake).2.usable hcap hN

/-- The frames get smaller, are to get too large, and get back to their size. -/
def resized : Bench.Scene where
  agenda :=
    [(10, .telemetry (.attitude { pitch := 5 })),
      (20000, .edit { width := some 80, height := some 60 }),
      (50000, .edit { width := some 640, height := some 480 }),
      (80000, .edit { width := some 160, height := some 120 })]
  shared := { hub := (Hub.fresh {} [19200] 0).run [.connect (.published 0)], rig := {} }

/-- A camera without images. -/
def dark : Bench.Camera 4 := { script := .shots [] }

/-- Each of the sizes that passed is asked for once. -/
theorem requests_of_resized :
    ∃ (m m' : Bench.Loop 4) (begun next : Bench.Scene) (ks : List (Iteration Bench.Event Bench.Rig))
      (l' : Perception (Recorded (Bench.Camera 4)) (Bench.Analyst 4) (Bench.Screen 4) 4)
      (v : Recorded (Bench.Camera 4)),
      start { video := some dark, estimator := {}, display := {} } resized = .ok m begun ∧
      m.RanFrom begun ks m' next ∧ ks.length = 3 ∧ l'.plain = m' ∧
      l'.pipeline.video = some v ∧ v.requests = [(160, 120), (80, 60), (160, 120)] ∧
      ∀ r ∈ v.requests, Camera.Usable 19200 r.1 r.2 := by
  obtain ⟨m, begun, w₁, c₁, woken₁, r₁, m₁, d₁, w₂, c₂, woken₂, r₂, m₂, d₂, w₃, c₃, woken₃, r₃, m₃,
      d₃, hstart, hwake₁, hstep₁, hwake₂, hstep₂, hwake₃, hstep₃, hsizes⟩ :
      ∃ m begun w₁ c₁ woken₁ r₁ m₁ d₁ w₂ c₂ woken₂ r₂ m₂ d₂ w₃ c₃ woken₃ r₃ m₃ d₃,
        start { video := some dark, estimator := {}, display := {} : Bench.Devices 4 } resized =
          .ok m begun ∧
        m.cadence.await begun = .ok (w₁, c₁) woken₁ ∧ m.step begun = .ok (r₁, m₁) d₁ ∧
        m₁.cadence.await d₁ = .ok (w₂, c₂) woken₂ ∧ m₁.step d₁ = .ok (r₂, m₂) d₂ ∧
        m₂.cadence.await d₂ = .ok (w₃, c₃) woken₃ ∧ m₂.step d₂ = .ok (r₃, m₃) d₃ ∧
        [woken₁, woken₂, woken₃].map (·.shared.snapshot.size) = [(80, 60), (80, 60), (160, 120)] :=
    ⟨_, _, _, _, _, _, _, _, _, _, _, _, _, _, _, _, _, _, _, _,
      rfl, rfl, rfl, rfl, rfl, rfl, rfl, rfl⟩
  have hran := RanFrom.cons (completes_of_await hwake₁ hstep₁) (.cons
    (completes_of_await hwake₂ hstep₂) (.cons (completes_of_await hwake₃ hstep₃) (.nil m₃ d₃)))
  have ht : resized.Timely := ⟨by decide, by decide⟩
  obtain ⟨l, l', -, -, -, hl', ⟨v, hv, hrequests, -, husable⟩, -⟩ :=
    requests_of_snapshots (N := 19200) rfl (Nat.le_refl _) ht ⟨_, rfl⟩ hstart hran
  refine ⟨m, m₃, begun, d₃, _, l', v, hstart, hran, rfl, hl', hv, ?_, husable⟩
  rw [hrequests]
  simp only [List.map_cons, List.map_nil, List.cons.injEq] at hsizes ⊢
  rw [hsizes.1, hsizes.2.1, hsizes.2.2.1]
  decide

end Perception

end OnboardVision

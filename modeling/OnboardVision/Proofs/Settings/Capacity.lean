import OnboardVision.Proofs.Settings.History

/-!
# Snapshots and the capture buffer

Settings are checked against the size of the capture buffer when they are published.  The snapshot
that is in force before anything was published is the default, whatever the buffer holds.

* `Settings.passes_iff_sound`: what the checks let through.
* `Hub.InForce.sound` and `Hub.InForce.fits_iff`: what that leaves for a snapshot in force.

Main statement:

* `Hub.snapshot_fits_iff`: after every history, a snapshot in force has a frame with pixels and a
  rate that the loop can run at; it fits its capture buffer exactly if the default does or settings
  have been accepted.  `Hub.default_beyond_buffer` is a case where it does not.
-/

namespace OnboardVision

namespace Single

variable {x y : Single}

theorem exists_key_of_isFinite (h : x.isFinite = true) : ∃ k, x.key = some k := by
  cases x with
  | finite neg rank => exact ⟨_, rfl⟩
  | nan => cases h
  | inf neg => cases h

/-- The order of finite numbers is total. -/
theorem not_le_iff (hx : x.isFinite = true) (hy : y.isFinite = true) : ¬ x ≤ y ↔ y < x := by
  obtain ⟨a, ha⟩ := exists_key_of_isFinite hx
  obtain ⟨b, hb⟩ := exists_key_of_isFinite hy
  show ¬ compareBy _ x y = true ↔ compareBy _ y x = true
  simp only [compareBy, ha, hb, decide_eq_true_eq]
  exact Int.not_le

theorem not_lt_iff (hx : x.isFinite = true) (hy : y.isFinite = true) : ¬ x < y ↔ y ≤ x := by
  obtain ⟨a, ha⟩ := exists_key_of_isFinite hx
  obtain ⟨b, hb⟩ := exists_key_of_isFinite hy
  show ¬ compareBy _ x y = true ↔ compareBy _ y x = true
  simp only [compareBy, ha, hb, decide_eq_true_eq]
  exact Int.not_lt

end Single

namespace Snapshot

/-- A frame with pixels in it, and a rate that the loop can run at. -/
structure Sound (sn : Snapshot) : Prop where
  /-- The frame has columns. -/
  width_ne : sn.width ≠ 0
  /-- The frame has rows. -/
  height_ne : sn.height ≠ 0
  /-- The rate is a finite number. -/
  rate_finite : sn.rate.isFinite = true
  /-- The rate is positive. -/
  rate_pos : 0 < sn.rate
  /-- The rate is at most the highest one. -/
  rate_le : sn.rate ≤ maxRate

/-- The frame has no more pixels than a capture buffer of `capacity` pixels. -/
def Fits (sn : Snapshot) (capacity : ℕ) : Prop := sn.width.toNat * sn.height.toNat ≤ capacity

instance (sn : Snapshot) (capacity : ℕ) : Decidable (sn.Fits capacity) :=
  inferInstanceAs (Decidable (_ ≤ _))

theorem rateAllowed_iff {hz : Single} :
    rateAllowed hz = true ↔ hz.isFinite = true ∧ 0 < hz ∧ hz ≤ maxRate := by
  simp only [rateAllowed, Bool.and_eq_true, Bool.not_eq_true', decide_eq_false_iff_not, and_assoc]
  refine and_congr_right fun hfinite => ?_
  rw [Single.not_le_iff hfinite (by decide), Single.not_lt_iff (by decide) hfinite]

/-- The default is a snapshot of 160 by 120 pixels at 30 Hz. -/
theorem sound_default : ({} : Snapshot).Sound := by
  constructor <;> decide

theorem fits_default_iff {capacity : ℕ} : ({} : Snapshot).Fits capacity ↔ 160 * 120 ≤ capacity :=
  Iff.rfl

end Snapshot

/-- The checks let through what is sound and fits. -/
theorem Settings.passes_iff_sound {s : Settings} {capacity : ℕ} :
    s.Passes capacity ↔ (⟨s⟩ : Snapshot).Sound ∧ (⟨s⟩ : Snapshot).Fits capacity := by
  rw [passes_iff, not_or, Snapshot.rateAllowed_iff, Nat.not_lt]
  constructor
  · rintro ⟨⟨hw, hh⟩, hfits, hfinite, hpos, hle⟩
    exact ⟨⟨hw, hh, hfinite, hpos, hle⟩, hfits⟩
  · rintro ⟨⟨hw, hh, hfinite, hpos, hle⟩, hfits⟩
    exact ⟨⟨hw, hh⟩, hfits, hfinite, hpos, hle⟩

namespace Hub

section InForce

variable {start : Settings} {as : List Action} {i capacity : ℕ} {sn : Snapshot}

theorem InForce.sound (h : InForce start as i capacity sn) : sn.Sound := by
  rcases h with ⟨k, s, -, hs, rfl, -⟩ | ⟨-, rfl⟩
  · exact (Settings.passes_iff_sound.1 hs).1
  · exact Snapshot.sound_default

/-- A snapshot that does not fit is the default, and nothing has replaced it. -/
theorem InForce.fits_iff (h : InForce start as i capacity sn) :
    sn.Fits capacity ↔
      160 * 120 ≤ capacity ∨ ∃ k s, Offered start as i k s ∧ s.Passes capacity := by
  rcases h with ⟨k, s, hoffer, hs, rfl, -⟩ | ⟨hnone, rfl⟩
  · exact ⟨fun _ => .inr ⟨k, s, hoffer, hs⟩, fun _ => (Settings.passes_iff_sound.1 hs).2⟩
  · rw [Snapshot.fits_default_iff]
    exact ⟨.inl, fun h => h.resolve_right fun ⟨k, s, hoffer, hs⟩ => hnone k s hoffer hs⟩

end InForce

/-- What a snapshot of a hub is after a history. -/
theorem inForce_snapshot (start : Settings) {capacities : List ℕ} (counters : ℕ) (as : List Action)
    {i capacity : ℕ} (hi : capacities[i]? = some capacity) :
    InForce start as i capacity (((fresh start capacities counters).run as).snapshot i) := by
  have hfresh : (fresh start capacities counters).published[i]? = some { capacity } := by
    simp [fresh, hi]
  obtain ⟨sn, hsn, hforce⟩ := run_published rfl hfresh as
  rw [snapshot, hsn]
  exact hforce

/-- **The snapshots in force after every history.**  Each has a frame with pixels and a rate that the
loop can run at.  It fits the capture buffer that settings are checked against exactly if the default
fits it or some call has offered settings that passed. -/
theorem snapshot_fits_iff (start : Settings) (capacities : List ℕ) (counters : ℕ)
    (as : List Action) (i : Fin capacities.length) :
    let sn := ((fresh start capacities counters).run as).snapshot i
    let capacity := capacities.get i
    sn.Sound ∧ (sn.Fits capacity ↔
      160 * 120 ≤ capacity ∨ ∃ k s, Offered start as i k s ∧ s.Passes capacity) := by
  have hforce := inForce_snapshot start counters as (List.getElem?_eq_getElem i.isLt)
  exact ⟨hforce.sound, hforce.fits_iff⟩

/-- The snapshot for a buffer of 16 by 12 pixels is larger than the buffer, and stays so while every
publication is refused. -/
theorem default_beyond_buffer :
    let refused : List Action := [.publish 0 {}, .connect (.published 0), .update id]
    ¬ ((fresh {} [16 * 12] 0).snapshot 0).Fits (16 * 12) ∧
      ¬ (((fresh {} [16 * 12] 0).run refused).snapshot 0).Fits (16 * 12) := by
  decide

end Hub

end OnboardVision

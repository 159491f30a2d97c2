import Mathlib.Data.Int.ModEq
import OnboardVision.Proofs.Telemetry.Messages

/-!
# Across the 180th meridian

Longitudes are whole numbers of `10⁻⁷` degrees, of which a full turn has `3600000000`.  The navigator
subtracts two of them as 32-bit numbers, which wrap around at another place.

Main statement:

* `Navigator.east_shorter_iff`: the difference is the shorter way round exactly if the longitudes,
  as numbers, are at most half a turn apart.

Two places close to each other on both sides of the 180th meridian are not, and
`Navigator.east_across_meridian` is a case where the navigator is thousands of kilometres off.
-/

namespace OnboardVision

namespace Navigator

/-- Half a turn in units of `10⁻⁷` degrees. -/
def halfTurn : ℤ := 1800000000

/-- A longitude between the two sides of the 180th meridian. -/
def IsLongitude (lon : Int32) : Prop := -halfTurn ≤ lon.toInt ∧ lon.toInt ≤ halfTurn

instance (lon : Int32) : Decidable (IsLongitude lon) := inferInstanceAs (Decidable (_ ∧ _))

/-- The difference `d` leads to the longitude `a` from the longitude `b`, and no other that does is
shorter: it is at most half a turn, to the east or to the west. -/
def IsShorterWay (a b d : ℤ) : Prop :=
  d ≡ a - b [ZMOD 2 * halfTurn] ∧ -halfTurn ≤ d ∧ d ≤ halfTurn

instance (a b d : ℤ) : Decidable (IsShorterWay a b d) := inferInstanceAs (Decidable (_ ∧ _ ∧ _))

/-- What the 32-bit difference of two longitudes is. -/
theorem toInt_sub_longitude {a b : Int32} (ha : IsLongitude a) (hb : IsLongitude b) :
    (a - b).toInt =
      if a.toInt - b.toInt < -2 ^ 31 then a.toInt - b.toInt + 2 ^ 32
      else if a.toInt - b.toInt < 2 ^ 31 then a.toInt - b.toInt
      else a.toInt - b.toInt - 2 ^ 32 := by
  simp only [IsLongitude, halfTurn] at ha hb
  rw [Int32.toInt_sub, Int.bmod_def]
  split_ifs <;> omega

theorem isShorterWay_iff {a b : Int32} (ha : IsLongitude a) (hb : IsLongitude b) :
    IsShorterWay a.toInt b.toInt (a - b).toInt ↔
      -halfTurn ≤ a.toInt - b.toInt ∧ a.toInt - b.toInt ≤ halfTurn := by
  have hdiff := toInt_sub_longitude ha hb
  simp only [IsLongitude, halfTurn] at ha hb
  simp only [IsShorterWay, Int.ModEq, halfTurn]
  split_ifs at hdiff <;> omega

/-- **The way to the east is the shorter one between longitudes at most half a turn apart.**  A usable
fix sets the eastward position from the 32-bit difference to the longitude of home; that is a shorter
way round exactly if the longitudes differ, as numbers, by half a turn at most, and the difference
itself exactly if that fits into 32 bits. -/
theorem east_shorter_iff (n : Navigator) (home : Home) (f : Fix) (t : Telemetry)
    (hhome : n.home = some home) (hsat : 4 ≤ f.satellites) (hlon : IsLongitude home.lon)
    (hlon' : IsLongitude f.lon) :
    let d := f.lon - home.lon
    (n.apply (.fix f) t).2.1.position.east =
      Single.ofInt d.toInt * 1.0e-7 * 111319.5 * home.lonScale ∧
    (IsShorterWay f.lon.toInt home.lon.toInt d.toInt ↔
      -halfTurn ≤ f.lon.toInt - home.lon.toInt ∧ f.lon.toInt - home.lon.toInt ≤ halfTurn) ∧
    (d.toInt = f.lon.toInt - home.lon.toInt ↔
      -2 ^ 31 ≤ f.lon.toInt - home.lon.toInt ∧ f.lon.toInt - home.lon.toInt < 2 ^ 31) := by
  have hcounts : ¬ f.satellites < 4 := UInt8.not_lt.2 hsat
  refine ⟨?_, isShorterWay_iff hlon' hlon, ?_⟩
  · rw [apply, applyFix_of_not_lt hcounts, hhome]
    rfl
  · rw [toInt_sub_longitude hlon' hlon]
    split_ifs <;> omega

/-- From 100 degrees east to 70 degrees west, ten degrees less than half a turn. -/
theorem east_to_the_west :
    let start : Fix := ⟨0, 1000000000, 0, 0, 0, 9⟩
    let f : Fix := ⟨0, -700000000, 0, 0, 0, 9⟩
    IsShorterWay f.lon.toInt start.lon.toInt (f.lon - start.lon).toInt ∧
      (f.lon - start.lon).toInt = -1700000000 := by
  intro start f
  obtain ⟨-, hshorter, hexact⟩ := east_shorter_iff { home := some (homeAt start) } (homeAt start) f {}
    rfl (by decide) (by decide) (by decide)
  exact ⟨hshorter.2 (by decide), (hexact.2 (by decide)).trans (by decide)⟩

/-- Home is two centimetres away on the other side of the 180th meridian, and the position is more
than seven thousand kilometres off: the difference has wrapped around as a 32-bit number. -/
theorem east_across_meridian :
    let start : Fix := ⟨0, -1799999999, 0, 0, 0, 9⟩
    let f : Fix := ⟨0, 1799999999, 0, 0, 0, 9⟩
    let (n, t, _) := ({} : Navigator).applyAll {} [.fix start]
    n.home = some (homeAt start) ∧ IsLongitude start.lon ∧ IsLongitude f.lon ∧
    IsShorterWay f.lon.toInt start.lon.toInt (-2) ∧ (f.lon - start.lon).toInt = -694967298 ∧
    ¬ IsShorterWay f.lon.toInt start.lon.toInt (f.lon - start.lon).toInt ∧
    (n.apply (.fix f) t).2.1.position.east < -7000000 := by
  decide +kernel

end Navigator

end OnboardVision

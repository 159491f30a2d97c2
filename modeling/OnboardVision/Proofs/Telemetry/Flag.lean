import Mathlib.Data.List.Basic
import OnboardVision.Telemetry.Navigator

/-!
# The flag over the attitude

The flag says that an attitude came in, and nothing else on the receiving side looks at it.

* `Telemetry.Flagged a b`: on the way from `a` to `b` a change of the attitude raised the flag.
  Everything that comes in on a telemetry line keeps to this (`Receiver.flagged_feedAll`).
* `Telemetry.Alike a b`: the two differ at most in the flag.  What a telemetry line makes of either
  differs at most in the flag (`Receiver.feedAll_congr`).
-/

namespace OnboardVision

namespace Telemetry

/-- Who finds the flag down in `b` finds the attitude of `a`, with the flag down there too. -/
def Flagged (a b : Telemetry) : Prop :=
  b.fresh = false → b.attitude = a.attitude ∧ a.fresh = false

theorem Flagged.refl (a : Telemetry) : a.Flagged a := fun h => ⟨rfl, h⟩

theorem Flagged.trans {a b c : Telemetry} (hab : a.Flagged b) (hbc : b.Flagged c) :
    a.Flagged c := by
  intro hc
  obtain ⟨hatt, hb⟩ := hbc hc
  obtain ⟨hatt', ha⟩ := hab hb
  exact ⟨hatt.trans hatt', ha⟩

theorem flagged_setAttitude (t : Telemetry) (a : Attitude) : t.Flagged (t.setAttitude a) := by
  intro h
  cases h

theorem flagged_setPosition (t : Telemetry) (p : Position) : t.Flagged (t.setPosition p) :=
  fun h => ⟨rfl, h⟩

theorem flagged_setVelocity (t : Telemetry) (v : Velocity) : t.Flagged (t.setVelocity v) :=
  fun h => ⟨rfl, h⟩

/-- The same values, whatever the flags. -/
def Alike (a b : Telemetry) : Prop := a.sample = b.sample

theorem alike_acknowledge (t : Telemetry) : t.acknowledge.Alike t := rfl

theorem alike_iff {a b : Telemetry} : a.Alike b ↔ a.acknowledge = b.acknowledge := by
  rcases a with ⟨a, fa⟩
  rcases b with ⟨b, fb⟩
  simp [Alike, sample, acknowledge]

end Telemetry

namespace Navigator

variable {a b : Telemetry}

theorem flagged_apply (n : Navigator) (m : Message) (t : Telemetry) :
    t.Flagged (n.apply m t).2.1 := by
  cases m with
  | attitude a => exact t.flagged_setAttitude a
  | vario v => exact t.flagged_setVelocity _
  | fix f =>
    rw [apply, applyFix]
    split
    · exact .refl t
    · exact (t.flagged_setPosition _).trans (Telemetry.flagged_setVelocity _ _)

theorem apply_congr (n : Navigator) (m : Message) (h : a.Alike b) :
    (n.apply m a).1 = (n.apply m b).1 ∧ (n.apply m a).2.1.Alike (n.apply m b).2.1 ∧
      (n.apply m a).2.2 = (n.apply m b).2.2 := by
  obtain ⟨⟨att, pos, vel⟩, fa⟩ := a
  obtain ⟨⟨att', pos', vel'⟩, fb⟩ := b
  obtain ⟨rfl, rfl, rfl⟩ : att = att' ∧ pos = pos' ∧ vel = vel' := by
    simpa [Telemetry.Alike, Telemetry.sample] using h
  cases m with
  | attitude a => exact ⟨rfl, rfl, rfl⟩
  | vario v => exact ⟨rfl, rfl, rfl⟩
  | fix f =>
    simp only [apply, applyFix]
    split
    · exact ⟨rfl, rfl, rfl⟩
    · exact ⟨rfl, rfl, rfl⟩

end Navigator

namespace Receiver

variable {a b : Telemetry}

theorem flagged_feed (r : Receiver) (x : UInt8) (t : Telemetry) :
    t.Flagged (r.feed x t).2.2.1 := by
  unfold feed
  split
  · exact .refl t
  · exact Navigator.flagged_apply _ _ t

theorem flagged_feedAll (r : Receiver) (t : Telemetry) (data : List UInt8) :
    t.Flagged (r.feedAll t data).2.2.1 := by
  induction data generalizing r t with
  | nil => exact .refl t
  | cons x data ih => exact (r.flagged_feed x t).trans (ih _ _)

theorem feed_congr (r : Receiver) (x : UInt8) (h : a.Alike b) :
    (r.feed x a).1 = (r.feed x b).1 ∧ (r.feed x a).2.1 = (r.feed x b).2.1 ∧
      (r.feed x a).2.2.1.Alike (r.feed x b).2.2.1 ∧ (r.feed x a).2.2.2 = (r.feed x b).2.2.2 := by
  unfold feed
  split
  · exact ⟨rfl, rfl, h, rfl⟩
  · rename_i m decoder _
    obtain ⟨hn, ht, hnotes⟩ := r.navigator.apply_congr m h
    exact ⟨rfl, congrArg (Receiver.mk decoder) hn, ht, hnotes⟩

theorem feedAll_cons (r : Receiver) (t : Telemetry) (x : UInt8) (data : List UInt8) :
    r.feedAll t (x :: data) =
      let (m?, r, t, notes) := r.feed x t
      (m?.toList ++ (r.feedAll t data).1, (r.feedAll t data).2.1, (r.feedAll t data).2.2.1,
        notes ++ (r.feedAll t data).2.2.2) := rfl

theorem feedAll_congr (r : Receiver) (data : List UInt8) (h : a.Alike b) :
    (r.feedAll a data).1 = (r.feedAll b data).1 ∧
      (r.feedAll a data).2.1 = (r.feedAll b data).2.1 ∧
      (r.feedAll a data).2.2.1.Alike (r.feedAll b data).2.2.1 ∧
      (r.feedAll a data).2.2.2 = (r.feedAll b data).2.2.2 := by
  induction data generalizing r a b with
  | nil => exact ⟨rfl, rfl, h, rfl⟩
  | cons x data ih =>
    obtain ⟨hm, hr, ht, hnotes⟩ := r.feed_congr x h
    rw [feedAll_cons, feedAll_cons]
    rcases ha : r.feed x a with ⟨m, r', a', notes⟩
    rcases hb : r.feed x b with ⟨m', r'', b', notes'⟩
    rw [ha, hb] at hm hr ht hnotes
    obtain rfl : m = m' := hm
    obtain rfl : r' = r'' := hr
    obtain rfl : notes = notes' := hnotes
    obtain ⟨hms, hrs, hts, hmore⟩ := ih r' ht
    exact ⟨congrArg (m.toList ++ ·) hms, hrs, hts, congrArg (notes ++ ·) hmore⟩

end Receiver

end OnboardVision

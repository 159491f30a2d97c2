import OnboardVision.Proofs.Telemetry.Angles
import OnboardVision.Proofs.Telemetry.Messages

/-!
# Attitudes in a byte stream

What a telemetry line does to the attitude and to the flag over it depends on nothing but the
attitudes whose frames the bytes complete.

* `Crsf.Decoder.attitudes`: those attitudes.
* `Receiver.feedAll_attitude`: the last of them is the attitude afterwards, and the flag is up if
  there is one.
-/

namespace OnboardVision

namespace Crsf.Decoder

variable {d : Decoder}

/-- The attitudes whose frames some bytes complete. -/
def attitudes (d : Decoder) (data : List UInt8) : List Attitude :=
  ((d.feedAll 0 data).1.map Prod.snd).filterMap Message.attitude?

/-- Where the bytes are counted from makes no difference. -/
theorem feedAll_count (d : Decoder) (i j : ℕ) (data : List UInt8) :
    (d.feedAll i data).1.map Prod.snd = (d.feedAll j data).1.map Prod.snd ∧
      (d.feedAll i data).2 = (d.feedAll j data).2 := by
  induction data generalizing d i j with
  | nil => exact ⟨rfl, rfl⟩
  | cons b data ih =>
    obtain ⟨hout, hd⟩ := ih (d.feed b).2 (i + 1) (j + 1)
    rw [feedAll_cons, feedAll_cons]
    refine ⟨?_, hd⟩
    rw [List.map_append, List.map_append, hout]
    cases (d.feed b).1 <;> rfl

theorem attitudes_append (d : Decoder) (xs ys : List UInt8) :
    d.attitudes (xs ++ ys) = d.attitudes xs ++ (d.feedAll 0 xs).2.attitudes ys := by
  rw [attitudes, feedAll_append, List.map_append, List.filterMap_append,
    (feedAll_count _ _ 0 ys).1]
  rfl

theorem feedAll_append_snd (d : Decoder) (xs ys : List UInt8) :
    (d.feedAll 0 (xs ++ ys)).2 = ((d.feedAll 0 xs).2.feedAll 0 ys).2 := by
  rw [feedAll_append]
  exact (feedAll_count _ _ 0 ys).2

/-- None of them has the barrier's mark for a pitch. -/
theorem pitch_ne_sentinel_of_mem {data : List UInt8} {a : Attitude} (h : a ∈ d.attitudes data) :
    a.pitch ≠ Barrier.sentinel := by
  obtain ⟨m, hm, hattitude⟩ := List.mem_filterMap.1 h
  obtain ⟨⟨j, m⟩, hmem, rfl⟩ := List.mem_map.1 hm
  cases m with
  | attitude a' =>
    cases hattitude
    exact pitch_ne_sentinel hmem
  | fix f => cases hattitude
  | vario v => cases hattitude

end Crsf.Decoder

namespace Receiver

/-- What bytes do to the attitude and to the flag over it. -/
theorem feedAll_attitude (r : Receiver) (t : Telemetry) (data : List UInt8) :
    (r.feedAll t data).2.1.decoder = (r.decoder.feedAll 0 data).2 ∧
      (r.feedAll t data).2.2.1.attitude = (r.decoder.attitudes data).getLast?.getD t.attitude ∧
      (r.feedAll t data).2.2.1.fresh = (!(r.decoder.attitudes data).isEmpty || t.fresh) := by
  rw [feedAll_eq r t 0 data]
  have hattitude := Navigator.applyAll_overwritten (·.attitude) Message.attitude? id
    (fun n m t => by rw [(Navigator.apply_fields n m t).2, Option.map_id]; rfl) r.navigator t
    ((r.decoder.feedAll 0 data).1.map Prod.snd)
  have hfresh := Navigator.applyAll_overwritten (·.fresh) Message.attitude? (fun _ => true)
    (fun n m t => by rw [(Navigator.apply_fields n m t).2]) r.navigator t
    ((r.decoder.feedAll 0 data).1.map Prod.snd)
  rw [Option.map_id, ← Crsf.Decoder.attitudes] at hattitude
  rw [← Crsf.Decoder.attitudes] at hfresh
  refine ⟨rfl, hattitude, hfresh.trans ?_⟩
  rcases List.eq_nil_or_concat' (r.decoder.attitudes data) with h | ⟨as, a, h⟩
  · rw [h]
    rfl
  · rw [h, List.getLast?_concat]
    simp

end Receiver

end OnboardVision

import OnboardVision.Proofs.Board.CameraLine
import OnboardVision.Proofs.Board.ReceiveFaults

/-!
# Looking for the camera

The board looks for its camera once, and what it goes by is the first reading of the line.  So a
fault or an empty reading at the start hides a camera whose bytes come in right behind it.

* `SerialCamera.reads_nextReading`: the search takes one reading.
* `SerialCamera.find_isSome_iff`: when the search finds the camera, and when that is what the bytes
  say.
* `SerialCamera.camera_behind_fault`: a camera that is not found.
-/

namespace OnboardVision

namespace Board

namespace SerialCamera

theorem reads_nextReading : Reads nextReading fun st r => (some r, st) := by
  intro t st s
  rcases s with ⟨telemetry, hub, journal, rig⟩
  rcases rig with ⟨⟨_ | ⟨r, readings⟩⟩, _⟩
  · exact ⟨[], by simp [nextReading, readUntil, Shared.note]⟩
  · exact ⟨[], by simp [nextReading, readUntil, Shared.note, Function.comp_def]⟩

/-- The search ends with the first reading in time. -/
theorem await_nextReading {tl : Timeline Event Rig} {d : Duration} (h : Bounded tl d) :
    ∃ found st tl', Run.await nextReading () (some (tl.now + d)) tl = .ok (found, st) tl' ∧
      found = (inTime (tl.now + d) tl).head?.map Prod.snd ∧
      tl'.now = ((inTime (tl.now + d) tl).head?.map Prod.fst).getD (tl.now + d) := by
  obtain ⟨found, st, tl', left, hwait, hread, hnone⟩ := reads_nextReading.await_eq h ()
  refine ⟨found, st, tl', hwait, ?_⟩
  rcases hline : inTime (tl.now + d) tl with _ | ⟨x, line⟩
  · rw [hline] at hread
    cases found with
    | none => exact ⟨rfl, (hnone rfl).2⟩
    | some r => cases hread
  · rw [hline] at hread
    cases found with
    | none => cases hread
    | some r =>
      simp only [readUntil, Option.map_some, Prod.mk.injEq, Option.some.injEq] at hread
      exact ⟨congrArg some hread.1.2.symm, hread.1.1.symm⟩

/-- **The first reading decides.**  The search ends with the first reading within half a second, or
when that is over, and it finds the camera exactly if that reading has bytes.  So it is right about
a camera that sends something in time unless what comes first has no bytes and something behind it
has. -/
theorem find_isSome_iff {tl : Timeline Event Rig} (h : Bounded tl openTimeout) :
    let due := tl.now + openTimeout
    let line := inTime due tl
    ∃ found tl', find tl = .ok found tl' ∧
      tl'.now = (line.head?.map Prod.fst).getD due ∧
      (found.isSome ↔ ∃ x ∈ line.head?, x.2.data ≠ []) ∧
      ((found.isSome ↔ ∃ x ∈ line, x.2.data ≠ []) ↔
        ∀ x rest, line = x :: rest → x.2.data = [] → ∀ y ∈ rest, y.2.data = []) := by
  intro due line
  obtain ⟨first, st, tl₁, hwait, hfirst, hnow⟩ := await_nextReading h
  have hlater : Run.later openTimeout tl = .ok due tl := Run.later_of_le (Nat.le_of_lt h.clock)
  -- what comes of the first reading
  have hfound : ∃ found tl', find tl = .ok found tl' ∧ tl'.now = tl₁.now ∧
      (found.isSome ↔ ∃ r ∈ first, r.data ≠ []) := by
    rw [find, Run.bind_of_ok hlater, Run.bind_of_ok hwait]
    rcases first with _ | ⟨_ | ⟨b, data⟩⟩ | _
    · exact ⟨none, _, rfl, rfl, by simp⟩
    · exact ⟨none, _, rfl, rfl, by simp [Reading.data]⟩
    · exact ⟨some {}, _, rfl, rfl, by simp [Reading.data]⟩
    · exact ⟨none, _, rfl, rfl, by simp [Reading.data]⟩
  obtain ⟨found, tl', hfind, hsame, hiff⟩ := hfound
  have hhead : found.isSome ↔ ∃ x ∈ line.head?, x.2.data ≠ [] := by
    rw [hiff, hfirst]
    change (∃ r ∈ line.head?.map Prod.snd, r.data ≠ []) ↔ _
    cases line.head? <;> simp
  refine ⟨found, tl', hfind, hsame.trans hnow, hhead, ?_⟩
  rw [hhead]
  rcases line with _ | ⟨x, rest⟩
  · simp
  · by_cases hx : x.2.data = []
    · simp [hx]
    · simp [hx]

/-- A camera that begins to send a tenth of a second after the start is found. -/
theorem camera_heard :
    let tl : Timeline Event Rig :=
      { agenda := [(100000, .camera (.bytes [0xA5, 0x5A]))], shared := { rig := {} } }
    ∃ found tl', find tl = .ok found tl' ∧ tl'.now = 100000 ∧ found.isSome := by
  intro tl
  have hbounded : Bounded tl openTimeout := ⟨by simp [tl], by decide, rfl⟩
  have hline : inTime (tl.now + openTimeout) tl = [(100000, .bytes [0xA5, 0x5A])] := by
    decide +kernel
  obtain ⟨found, tl', hfind, hnow, hiff, -⟩ := find_isSome_iff hbounded
  rw [hline] at hnow hiff
  exact ⟨found, tl', hfind, hnow, hiff.2 (by simp [Reading.data])⟩

/-- A fault comes in, and a tenth of a second later the camera's first bytes: there is no camera. -/
theorem camera_behind_fault :
    let tl : Timeline Event Rig :=
      { agenda := [(100000, .camera .fault), (200000, .camera (.bytes [0xA5, 0x5A]))]
        shared := { rig := {} } }
    (∃ x ∈ inTime (tl.now + openTimeout) tl, x.2.data ≠ []) ∧ ∃ tl', find tl = .ok none tl' :=
  ⟨by decide +kernel, _, rfl⟩

end SerialCamera

end Board

end OnboardVision

import OnboardVision.Proofs.Board.ReceiveFaults
import OnboardVision.Proofs.Telemetry.Transmission

/-!
# The telemetry decoder behind a gap

A decoder that has accepted a length from noise waits for as many bytes as it says.
`Crsf.Decoder.remaining` bounds how many bytes other than a sync byte it takes until it is between
frames again; every such byte lowers it.

* `Crsf.Decoder.eq_idle_of_gap`: 63 of them are enough for every decoder.
* `Crsf.Decoder.gap_too_short`: 62 are not, and then the next frame is lost.
-/

namespace OnboardVision

namespace Message

/-- The type is known, and the payload has the size for it. -/
def Known (type : UInt8) (payload : List UInt8) : Prop :=
  (type = attitudeType ∧ payload.length = 6) ∨ (type = fixType ∧ payload.length = 15) ∨
    (type = varioType ∧ payload.length = 4)

instance (type : UInt8) (payload : List UInt8) : Decidable (Known type payload) := by
  unfold Known
  infer_instance

theorem exists_decode {type : UInt8} {payload : List UInt8} (h : Known type payload) :
    ∃ m, decode type payload = some m := by
  rcases h with ⟨rfl, hsize⟩ | ⟨rfl, hsize⟩ | ⟨rfl, hsize⟩
  · match payload, hsize with
    | [_, _, _, _, _, _], _ => exact ⟨_, rfl⟩
  · match payload, hsize with
    | [_, _, _, _, _, _, _, _, _, _, _, _, _, _, _], _ => exact ⟨_, rfl⟩
  · match payload, hsize with
    | [_, _, _, _], _ => exact ⟨_, rfl⟩

end Message

namespace Crsf

namespace Decoder

variable {d : Decoder} {b : UInt8} {gap : List UInt8}

/-- How many bytes other than a sync byte the decoder takes at most until it is between frames: the
next one may be the largest length. -/
def remaining : Decoder → ℕ
  | idle => 0
  | opened => maxLength + 1
  | inside length received => length - received.length

theorem remaining_le (h : d.InProgress) : d.remaining ≤ maxLength + 1 := by
  cases d with
  | idle => exact Nat.zero_le _
  | opened => exact Nat.le_refl _
  | inside length received =>
    exact Nat.le_succ_of_le (Nat.le_trans (Nat.sub_le _ _) h.2.1)

/-- A frame in progress misses a byte. -/
theorem eq_idle_of_remaining (h : d.InProgress) (hzero : d.remaining = 0) : d = idle := by
  cases d with
  | idle => rfl
  | opened => cases hzero
  | inside length received => exact absurd hzero (Nat.sub_ne_zero_of_lt h.2.2)

theorem remaining_feed (d : Decoder) (hb : b ≠ sync) :
    (d.feed b).2.remaining ≤ d.remaining - 1 := by
  cases d with
  | idle =>
    rw [feed_idle_of_ne hb]
    exact Nat.le_refl _
  | opened =>
    by_cases hl : Accepts b
    · rw [feed_opened_of_accepts hl]
      exact hl.2
    · have hfeed : opened.feed b = (none, if b = sync then opened else idle) := if_neg hl
      rw [hfeed, if_neg hb]
      exact Nat.zero_le _
  | inside length received =>
    by_cases hlt : received.length + 1 < length
    · rw [feed_inside_of_lt hlt]
      simp only [remaining, List.length_append, List.length_singleton]
      omega
    · rw [feed_inside_of_le (Nat.le_of_not_lt hlt)]
      exact Nat.zero_le _

theorem remaining_feedAll (d : Decoder) (i : ℕ) (hgap : sync ∉ gap) :
    (d.feedAll i gap).2.remaining ≤ d.remaining - gap.length := by
  induction gap generalizing d i with
  | nil => exact Nat.le_refl _
  | cons b gap ih =>
    rw [List.mem_cons, not_or] at hgap
    have hfirst := remaining_feed d (Ne.symm hgap.1)
    calc (d.feedAll i (b :: gap)).2.remaining
        = ((d.feed b).2.feedAll (i + 1) gap).2.remaining := rfl
      _ ≤ (d.feed b).2.remaining - gap.length := ih _ _ hgap.2
      _ ≤ d.remaining - (b :: gap).length := by
        rw [List.length_cons]
        omega

/-- Whatever came in before, behind 63 bytes none of which is a sync byte the decoder is between
frames. -/
theorem eq_idle_of_gap (history : List UInt8) (hgap : sync ∉ gap) (hlong : 63 ≤ gap.length) :
    (idle.feedAll 0 (history ++ gap)).2 = idle := by
  set d := (idle.feedAll 0 history).2
  have hstart : d.InProgress := InProgress.feedAll (d := idle) trivial 0 history
  have hspent : (d.feedAll (0 + history.length) gap).2.remaining = 0 := by
    have hbound := remaining_le hstart
    have hless := remaining_feedAll d (0 + history.length) hgap
    rw [maxLength] at hbound
    omega
  rw [feedAll_append]
  exact eq_idle_of_remaining (hstart.feedAll _ gap) hspent

/-- A sync byte, the largest length, and all but the last of the bytes that it announces: the frame
behind them is lost. -/
theorem gap_too_short : ∃ history gap : List UInt8, gap.length = 62 ∧ sync ∉ gap ∧
    (idle.feedAll 0 (history ++ gap)).2 ≠ idle ∧
    ∀ (x : Sending) (m : Message), x.message? = some m →
      ((history ++ gap ++ x.bytes).length - 1, m) ∉
        (idle.feedAll 0 (history ++ gap ++ x.bytes)).1 := by
  have hstate : idle.feedAll 0 ([sync] ++ 62 :: List.replicate 61 0) =
      ([], inside 62 (List.replicate 61 0)) := by decide +kernel
  refine ⟨[sync], 62 :: List.replicate 61 0, by decide, by decide, ?_, fun x m hm hmem => ?_⟩
  · rw [hstate]
    exact nofun
  · have hin : (inside 62 (List.replicate 61 0)).InProgress :=
      ⟨by decide, Nat.le_refl _, by rw [List.length_replicate]; decide⟩
    have hplace : ([sync] ++ 62 :: List.replicate 61 0 ++ x.bytes).length - 1 =
        0 + ([sync] ++ 62 :: List.replicate 61 0).length + x.payload.length + 3 := by
      rw [List.length_append, x.length_bytes]
      omega
    -- the frame in progress holds 63 bytes
    rw [hplace, x.bytes_eq, feedAll_append, hstate, List.nil_append, mem_feedAll_frame_iff hin hm]
      at hmem
    simp [held] at hmem

end Decoder

end Crsf

end OnboardVision

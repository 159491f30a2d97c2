import OnboardVision.Perception.Barrier
import OnboardVision.Proofs.Single.Rounding
import OnboardVision.Proofs.Telemetry.Messages

/-!
# Angles on the wire

An angle is a whole number of 100 microradians, divided by 10000 and turned into degrees, with three
roundings on the way.  The pitch that stands for "no telemetry yet" lies between two neighbouring
angles: none is rounded to it.

* `Message.angle_le_angle`: the conversion keeps the order of angles that are not negative;
* `Message.angle_ne_sentinel`: no angle is the barrier's mark;
* `Crsf.Decoder.feed_eq_attitude_iff`: which bytes complete an attitude;
* `Crsf.Decoder.pitch_ne_sentinel`: no attitude in a byte stream has the mark for a pitch.
-/

namespace OnboardVision

namespace Message

/-- Ten thousand, the number that angles are divided by. -/
def anglesPerRadian : Fin Single.infRank := ⟨0x461c4000, by decide⟩

/-- Degrees in a radian. -/
def degreesPerRadian : Fin Single.infRank := ⟨0x42652ee1, by decide⟩

theorem angle_eq (raw : ℤ) :
    angle raw = Single.ofInt raw / .finite false anglesPerRadian * .finite false degreesPerRadian := by
  have hten : (10000 : Single) = .finite false anglesPerRadian := by decide +kernel
  have hdegrees : (57.2957795130823208767981548141051703 : Single) =
      .finite false degreesPerRadian := by decide +kernel
  rw [angle, Single.toDegrees, hten, hdegrees]

theorem hasSign_angle (raw : ℤ) : (angle raw).HasSign (decide (raw < 0)) := by
  rw [angle_eq]
  exact ((Single.hasSign_ofInt raw).div (by decide)).mul (by decide)

/-- The conversion keeps the order. -/
theorem angle_le_angle {i j : ℤ} (hi : 0 ≤ i) (h : i ≤ j) : angle i ≤ angle j := by
  have hsign : ∀ k : ℤ, 0 ≤ k → (Single.ofInt k).HasSign false := by
    intro k hk
    have := Single.hasSign_ofInt k
    rwa [decide_eq_false (Int.not_lt.2 hk)] at this
  have hsi := hsign i hi
  have hsj := hsign j (Int.le_trans hi h)
  rw [angle_eq, angle_eq]
  refine Single.mul_le_mul (hsi.div (by decide)) (hsj.div (by decide)) (by decide) ?_
  exact Single.div_le_div hsi hsj (by decide) (Single.ofInt_le hi h)

/-- **No angle is the barrier's mark.**  The mark has no minus sign, and it lies between the angles
17453 and 17454. -/
theorem angle_ne_sentinel (raw : ℤ) : angle raw ≠ Barrier.sentinel := by
  intro hmark
  rcases lt_or_ge raw 0 with hneg | hpos
  · have hsign := (hasSign_angle raw).2
    rw [hmark, decide_eq_true hneg] at hsign
    exact absurd hsign (by decide +kernel)
  · rcases lt_or_ge 17453 raw with hhigh | hlow
    · have hle := angle_le_angle (i := 17454) (by decide) hhigh
      rw [hmark] at hle
      exact absurd hle (by decide +kernel)
    · have hle := angle_le_angle hpos hlow
      rw [hmark] at hle
      exact absurd hle (by decide +kernel)

/-- The attitude in a payload: pitch, roll and yaw. -/
def ofAngles (p₁ p₀ r₁ r₀ y₁ y₀ : UInt8) : Attitude where
  roll := angle (signedWord r₁ r₀)
  pitch := angle (signedWord p₁ p₀)
  yaw := angle (signedWord y₁ y₀)

/-- Every six bytes behind the type of attitudes are one, and nothing else is. -/
theorem decode_eq_attitude_iff {type : UInt8} {payload : List UInt8} {a : Attitude} :
    decode type payload = some (.attitude a) ↔ type = attitudeType ∧
      ∃ p₁ p₀ r₁ r₀ y₁ y₀, payload = [p₁, p₀, r₁, r₀, y₁, y₀] ∧ a = ofAngles p₁ p₀ r₁ r₀ y₁ y₀ := by
  constructor
  · intro h
    unfold decode at h
    split at h
    · rename_i htype
      unfold decodeAttitude at h
      split at h
      · cases h
        exact ⟨htype, _, _, _, _, _, _, rfl, rfl⟩
      · cases h
    · split at h
      · unfold decodeFix at h
        split at h <;> cases h
      · split at h
        · unfold decodeVario at h
          split at h <;> cases h
        · cases h
  · rintro ⟨rfl, p₁, p₀, r₁, r₀, y₁, y₀, rfl, rfl⟩
    rfl

end Message

namespace Crsf

/-- A byte completes an attitude exactly if it is the checksum of a frame of that type. -/
theorem Decoder.feed_eq_attitude_iff {d : Decoder} {b : UInt8} {a : Attitude} :
    (d.feed b).1 = some (.attitude a) ↔ ∃ length received p₁ p₀ r₁ r₀ y₁ y₀,
      d = .inside length received ∧ length ≤ received.length + 1 ∧
      received = Message.attitudeType :: [p₁, p₀, r₁, r₀, y₁, y₀] ∧
      b = Checksum.ofBytes received ∧ a = Message.ofAngles p₁ p₀ r₁ r₀ y₁ y₀ := by
  constructor
  · intro h
    cases d with
    | idle => cases h
    | opened =>
      simp only [feed] at h
      split at h <;> cases h
    | inside length received =>
      by_cases hlen : received.length + 1 < length
      · rw [feed_inside_of_lt hlen] at h
        cases h
      · rw [feed_inside_of_le (Nat.le_of_not_lt hlen)] at h
        obtain ⟨type, payload, hbody, hdecode⟩ := messageOf_eq_some_iff.1 h
        obtain ⟨rfl, p₁, p₀, r₁, r₀, y₁, y₀, rfl, rfl⟩ := Message.decode_eq_attitude_iff.1 hdecode
        obtain ⟨rfl, hlast⟩ := List.append_inj' hbody rfl
        exact ⟨length, _, p₁, p₀, r₁, r₀, y₁, y₀, rfl, Nat.le_of_not_lt hlen, rfl,
          List.singleton_inj.1 hlast, rfl⟩
  · rintro ⟨length, received, p₁, p₀, r₁, r₀, y₁, y₀, rfl, hlen, rfl, rfl, rfl⟩
    rw [feed_inside_of_le hlen, messageOf_frame]
    rfl

/-- No attitude in a byte stream has the barrier's mark for a pitch. -/
theorem Decoder.pitch_ne_sentinel {d : Decoder} {i j : ℕ} {bytes : List UInt8} {a : Attitude}
    (h : (j, Message.attitude a) ∈ (d.feedAll i bytes).1) : a.pitch ≠ Barrier.sentinel := by
  induction bytes generalizing d i with
  | nil => cases h
  | cons b bytes ih =>
    rw [feedAll_cons] at h
    rcases List.mem_append.1 h with h | h
    · obtain ⟨m, hm, heq⟩ := Option.map_eq_some_iff.1 (Option.mem_toList.1 h)
      cases heq
      obtain ⟨-, -, p₁, p₀, -, -, -, -, -, -, -, -, rfl⟩ := feed_eq_attitude_iff.1 hm
      exact Message.angle_ne_sentinel _
    · exact ih h

end Crsf

end OnboardVision

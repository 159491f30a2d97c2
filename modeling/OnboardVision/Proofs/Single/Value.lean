import Mathlib
import OnboardVision.Proofs.Single.Rounding

/-!
# Numbers as rationals

A finite single-precision number is a rational, `Single.value?`.  Rounding takes the nearest of
them: with `s` binary places below a 24-bit significand, `Single.rankOfRatio` rounds a quotient to a
multiple of `2ˢ`, and a number that is no such multiple lies on the other side of one.

* `Single.magnitude_rankOfRatio`: the value of a rounded quotient;
* `Single.rankOfRatio_nearest`: no rank is nearer to the quotient;
* `Single.div_nearest`: the quotient of two positive numbers is the number nearest to their exact
  quotient.
-/

namespace OnboardVision

namespace Single

/-- The rational that a finite number is. -/
def value? : Single → Option ℚ
  | .finite neg rank => some ((signed neg (magnitude rank) : ℤ) / (unitsPerOne : ℚ))
  | _ => none

variable {a b s n : ℕ}

/-! ### Values of ranks -/

/-- A significand `n` with `s` binary places behind it. -/
theorem magnitude_scaled (hn : n ≤ 2 * binade) (hs : s = 0 ∨ binade ≤ n) :
    magnitude (s * binade + n) = n * 2 ^ s := by
  rcases Nat.eq_or_lt_of_le hn with rfl | hlt
  · -- the power of two that the next binade begins with
    have hrank : s * binade + 2 * binade = (s + 2) * binade := (Nat.add_mul s 2 binade).symm
    rw [hrank, magnitude, if_neg (by simp only [binade]; omega),
      Nat.mul_mod_left, Nat.mul_div_cancel _ (by decide), twoPow_eq]
    show (binade + 0) * 2 ^ (s + 1) = 2 * binade * 2 ^ s
    ring
  · rcases hs with rfl | hle
    · rw [Nat.zero_mul, Nat.zero_add, magnitude_of_lt hlt, Nat.pow_zero, Nat.mul_one]
    · rcases Nat.eq_zero_or_pos s with rfl | hpos
      · rw [Nat.zero_mul, Nat.zero_add, magnitude_of_lt hlt, Nat.pow_zero, Nat.mul_one]
      · obtain ⟨d, rfl⟩ := Nat.exists_eq_add_of_le hle
        have hd : d < binade := by omega
        have hrank : s * binade + (binade + d) = d + (s + 1) * binade := by ring
        have hbig : ¬ d + (s + 1) * binade < 2 * binade := by
          have : 2 * binade ≤ (s + 1) * binade := Nat.mul_le_mul_right _ (by omega)
          omega
        rw [hrank, magnitude, if_neg hbig, Nat.add_mul_mod_self_right, Nat.mod_eq_of_lt hd,
          Nat.add_mul_div_right _ _ (by decide), Nat.div_eq_of_lt hd, Nat.zero_add,
          Nat.add_sub_cancel, twoPow_eq]

/-- The significand and the binary places of a rank from the second binade on. -/
theorem exists_significand (hn : binade ≤ n) :
    ∃ c, magnitude n = c * 2 ^ (n / binade - 1) ∧ binade ≤ c ∧ c < 2 * binade := by
  have hmod : n % binade < binade := Nat.mod_lt n (by decide)
  by_cases hlt : n < 2 * binade
  · have hplace : n / binade = 1 := by
      simp only [binade] at hn hlt ⊢
      omega
    exact ⟨n, by rw [magnitude_of_lt hlt, hplace, Nat.sub_self, Nat.pow_zero, Nat.mul_one], hn, hlt⟩
  · exact ⟨binade + n % binade, by rw [magnitude, if_neg hlt, twoPow_eq], Nat.le_add_right _ _,
      by omega⟩

/-- A value is a multiple of `2ˢ`, or one of the smaller ones. -/
theorem twoPow_dvd_or_le (s n : ℕ) : 2 ^ s ∣ magnitude n ∨ magnitude n ≤ binade * 2 ^ s := by
  by_cases hn : binade ≤ n
  · obtain ⟨c, hc, -, hlt⟩ := exists_significand hn
    rw [hc]
    by_cases hs : s ≤ n / binade - 1
    · exact .inl (Dvd.dvd.mul_left (Nat.pow_dvd_pow 2 hs) c)
    · right
      calc c * 2 ^ (n / binade - 1) ≤ 2 * binade * 2 ^ (n / binade - 1) :=
            Nat.mul_le_mul_right _ (Nat.le_of_lt hlt)
        _ = binade * 2 ^ (n / binade - 1 + 1) := by ring
        _ ≤ binade * 2 ^ s := Nat.mul_le_mul_left _ (Nat.pow_le_pow_right (by decide) (by omega))
  · right
    rw [magnitude_of_lt (by omega)]
    exact Nat.le_trans (by omega) (Nat.le_mul_of_pos_right binade (twoPow_pos s))

/-! ### The nearest rank -/

/-- The value of a rounded quotient. -/
theorem magnitude_rankOfRatio (hb : 0 < b) (hs : (a / b).log2 - 23 = s) :
    magnitude (rankOfRatio a b) = roundHalfEven a (b * 2 ^ s) * 2 ^ s := by
  obtain ⟨hhigh, hlow⟩ := rankOfRatio_bounds hb hs
  have hrank : rankOfRatio a b = s * binade + roundHalfEven a (b * 2 ^ s) := by
    rw [rankOfRatio, hs]
    rfl
  rw [hrank] at hhigh hlow ⊢
  refine magnitude_scaled ?_ ?_
  · rw [Nat.add_mul] at hhigh
    omega
  · rcases Nat.eq_zero_or_pos s with hzero | hpos
    · exact .inl hzero
    · have := hlow (Nat.ne_of_gt hpos)
      rw [Nat.add_mul, Nat.one_mul] at this
      exact .inr (by omega)

/-- No multiple of `b` is nearer to `a` than the rounded one. -/
theorem roundHalfEven_nearest (hb : 0 < b) (j : ℤ) :
    |(roundHalfEven a b * b - a : ℤ)| ≤ |(j * b - a : ℤ)| := by
  obtain ⟨m, hm⟩ : ∃ m, roundHalfEven a b = m := ⟨_, rfl⟩
  obtain ⟨hlow, hhigh, -⟩ := roundHalfEven_spec hb hm
  rw [hm]
  have hlow' : (m * b : ℤ) * 2 ≤ 2 * a + b := by
    exact_mod_cast (by linarith : m * b * 2 ≤ 2 * a + b)
  have hhigh' : (2 * a : ℤ) ≤ m * b * 2 + b := by
    exact_mod_cast (by linarith : 2 * a ≤ m * b * 2 + b)
  have hb' : (0 : ℤ) < b := Int.natCast_pos.2 hb
  rcases lt_trichotomy j m with hlt | rfl | hgt
  · have hstep : j * b + b ≤ m * b := by nlinarith
    rw [abs_le, abs_of_nonpos (by linarith)]
    constructor <;> linarith
  · exact le_refl _
  · have hstep : (m * b + b : ℤ) ≤ j * b := by nlinarith
    rw [abs_le, abs_of_nonneg (by linarith)]
    constructor <;> linarith

/-- **No rank is nearer to a quotient than the one it is rounded to.** -/
theorem rankOfRatio_nearest (hb : 0 < b) (n : ℕ) :
    |(magnitude (rankOfRatio a b) * b - a : ℤ)| ≤ |(magnitude n * b - a : ℤ)| := by
  obtain ⟨s, hs⟩ : ∃ s, (a / b).log2 - 23 = s := ⟨_, rfl⟩
  have hmultiple : ∀ j : ℕ,
      |(magnitude (rankOfRatio a b) * b - a : ℤ)| ≤ |((j * 2 ^ s : ℕ) * b - a : ℤ)| := by
    intro j
    have h := roundHalfEven_nearest (a := a) (Nat.mul_pos hb (twoPow_pos s)) j
    rw [magnitude_rankOfRatio hb hs]
    push_cast [twoPow_eq] at h ⊢
    convert h using 2 <;> ring
  rcases twoPow_dvd_or_le s n with ⟨j, hj⟩ | hle
  · rw [hj, Nat.mul_comm]
    exact hmultiple j
  · rcases Nat.eq_zero_or_pos s with rfl | hpos
    · have h := hmultiple (magnitude n)
      rwa [Nat.pow_zero, Nat.mul_one] at h
    · -- the smaller value has a multiple between itself and the quotient
      have hq : 2 ^ (s + 23) ≤ a / b := hs ▸ twoPow_scale_le (hs ▸ Nat.ne_of_gt hpos)
      have hbelow : binade * 2 ^ s * b ≤ a := by
        have hpow : binade * 2 ^ s = 2 ^ (s + 23) := by
          rw [Nat.pow_add, Nat.mul_comm]
        rw [hpow]
        exact (Nat.le_div_iff_mul_le hb).1 hq
      have hn : magnitude n * b ≤ binade * 2 ^ s * b := Nat.mul_le_mul_right b hle
      have hbelow' : ((binade * 2 ^ s : ℕ) * b : ℤ) ≤ a := by exact_mod_cast hbelow
      have hn' : (magnitude n * b : ℤ) ≤ (binade * 2 ^ s : ℕ) * b := by exact_mod_cast hn
      refine le_trans (hmultiple binade) ?_
      rw [abs_of_nonpos (by linarith), abs_of_nonpos (by linarith)]
      linarith

/-- A number below zero is further off than zero. -/
theorem rankOfRatio_nearest_signed (hb : 0 < b) (neg : Bool) (n : ℕ) :
    |(magnitude (rankOfRatio a b) * b - a : ℤ)| ≤ |(signed neg (magnitude n) * b - a : ℤ)| := by
  cases neg with
  | false => exact rankOfRatio_nearest hb n
  | true =>
    have hzero : |(magnitude (rankOfRatio a b) * b - a : ℤ)| ≤ a := by
      have h := rankOfRatio_nearest (a := a) hb 0
      have hmag : magnitude 0 = 0 := rfl
      rwa [hmag, Nat.cast_zero, zero_mul, zero_sub, abs_neg,
        abs_of_nonneg (Int.natCast_nonneg a)] at h
    have hneg : (signed true (magnitude n) * b : ℤ) ≤ 0 := by
      rw [signed, if_pos rfl, neg_mul]
      exact neg_nonpos.2 (by positivity)
    refine le_trans hzero ?_
    rw [abs_of_nonpos (by linarith)]
    linarith

/-! ### Quotients -/

section Quotients

variable {q v : ℚ} {z : Single}

theorem units_pos : (0 : ℚ) < unitsPerOne := Nat.cast_pos.2 unitsPerOne_pos

/-- The value of a rank as a fraction. -/
theorem value?_eq_div {k : Fin infRank} {n d : ℕ} (hd : 0 < d)
    (h : magnitude k * d = n * unitsPerOne) : (finite false k).value? = some (n / d : ℚ) := by
  have hd' : (0 : ℚ) < d := Nat.cast_pos.2 hd
  refine congrArg some ((div_eq_div_iff units_pos.ne' hd'.ne').2 ?_)
  show ((magnitude k : ℤ) * d : ℚ) = n * unitsPerOne
  exact_mod_cast h

/-- A rounded quotient that is a finite number. -/
theorem value?_ofRatio (hq : (ofRatio false a b).value? = some q) :
    rankOfRatio a b < infRank ∧ q = (magnitude (rankOfRatio a b) : ℤ) / (unitsPerOne : ℚ) := by
  simp only [ofRatio] at hq
  split at hq
  · rename_i hlt
    exact ⟨hlt, (Option.some.inj hq).symm⟩
  · cases hq

/-- How far a number of units is from a quotient. -/
theorem abs_units_sub (hb : 0 < b) (k : ℤ) :
    |(k / unitsPerOne - a / (b * unitsPerOne) : ℚ)| =
      |(k * b - a : ℤ)| / (b * unitsPerOne : ℚ) := by
  have hu := units_pos
  have hb' : (0 : ℚ) < b := Nat.cast_pos.2 hb
  have hdiff : (k / unitsPerOne - a / (b * unitsPerOne) : ℚ) =
      (k * b - a : ℤ) / (b * unitsPerOne : ℚ) := by
    push_cast
    field_simp
  rw [hdiff, abs_div, abs_of_pos (mul_pos hb' hu), Int.cast_abs]

/-- **Rounding takes the nearest number.** -/
theorem ofRatio_nearest (hb : 0 < b) (hq : (ofRatio false a b).value? = some q)
    (hz : z.value? = some v) :
    |q - a / (b * unitsPerOne)| ≤ |v - a / (b * unitsPerOne)| := by
  obtain ⟨-, rfl⟩ := value?_ofRatio hq
  cases z with
  | nan => cases hz
  | inf neg => cases hz
  | finite neg n =>
    obtain rfl : _ = v := Option.some.inj hz
    rw [abs_units_sub hb, abs_units_sub hb]
    refine div_le_div_of_nonneg_right ?_ (mul_nonneg (Nat.cast_nonneg b) units_pos.le)
    exact Int.cast_le.2 (rankOfRatio_nearest_signed hb neg n)

/-- **Division is correctly rounded**: no number is nearer to the exact quotient. -/
theorem div_nearest {m n : Fin infRank} {x y : ℚ} (hx : (finite false m).value? = some x)
    (hy : (finite false n).value? = some y) (hn : n.val ≠ 0)
    (hq : (.finite false m / .finite false n : Single).value? = some q)
    (hz : z.value? = some v) : |q - x / y| ≤ |v - x / y| := by
  have hu := units_pos
  have hb : 0 < magnitude n := magnitude_pos hn
  have hb' : (0 : ℚ) < magnitude n := Nat.cast_pos.2 hb
  have hexact : x / y = (magnitude m * unitsPerOne : ℕ) / (magnitude n * unitsPerOne : ℚ) := by
    obtain rfl : _ = x := Option.some.inj hx
    obtain rfl : _ = y := Option.some.inj hy
    simp only [signed, Bool.false_eq_true, ↓reduceIte, Int.cast_natCast]
    push_cast
    field_simp
  rw [finite_div m n hn] at hq
  rw [hexact]
  exact ofRatio_nearest hb hq hz

end Quotients

end Single

end OnboardVision

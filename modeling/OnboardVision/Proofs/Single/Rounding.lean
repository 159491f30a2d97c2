import Mathlib
import OnboardVision.Single.Arith

/-!
# Rounding keeps the order

Every operation on single-precision numbers is exact arithmetic followed by one rounding.  Rounding
never turns a smaller quotient into a larger number, so the operations with one operand fixed keep
the order too.

* `Single.roundHalfEven_mono`, `Single.rankOfRatio_mono`: rounding a quotient to an integer, and to
  a rank;
* `Single.magnitude_mono`: higher ranks have larger values;
* `Single.ofRatio_le`, `Single.add_le_add`, `Single.div_le_div`, `Single.mul_le_mul`,
  `Single.toNat64_mono`: the operations on numbers without a minus sign.
-/

namespace OnboardVision

namespace Single

variable {a b c d : ℕ}

theorem twoPow_eq (k : ℕ) : twoPow k = 2 ^ k := rfl

theorem twoPow_pos (k : ℕ) : 0 < twoPow k := Nat.pow_pos (by decide)

/-! ### To an integer -/

/-- The nearest integer to `a / b` is no further off than a half, and even if it is that far off. -/
theorem roundHalfEven_spec (hb : 0 < b) {n : ℕ} (hn : roundHalfEven a b = n) :
    b * (2 * n) ≤ 2 * a + b ∧ 2 * a ≤ b * (2 * n) + b ∧
      (b * (2 * n) = 2 * a + b ∨ 2 * a = b * (2 * n) + b → n % 2 = 0) := by
  have hdiv : b * (a / b) + a % b = a := Nat.div_add_mod a b
  have hmod : a % b < b := Nat.mod_lt a hb
  have htwice : b * (2 * (a / b)) = 2 * (b * (a / b)) := by ring
  have hsucc : b * (2 * (a / b + 1)) = 2 * (b * (a / b)) + 2 * b := by ring
  simp only [roundHalfEven] at hn
  generalize a / b = q at *
  generalize a % b = r at *
  generalize b * q = p at *
  split at hn
  · subst hn
    omega
  · split at hn
    · subst hn
      omega
    · rcases Nat.mod_two_eq_zero_or_one q with hq | hq
      · rw [hq, Nat.add_zero] at hn
        subst hn
        omega
      · rw [hq] at hn
        subst hn
        omega

/-- A smaller quotient is not rounded to a larger integer. -/
theorem roundHalfEven_mono (hb : 0 < b) (hd : 0 < d) (h : a * d ≤ c * b) :
    roundHalfEven a b ≤ roundHalfEven c d := by
  obtain ⟨m, hm⟩ : ∃ m, roundHalfEven a b = m := ⟨_, rfl⟩
  obtain ⟨n, hn⟩ : ∃ n, roundHalfEven c d = n := ⟨_, rfl⟩
  obtain ⟨hlow, -, heven⟩ := roundHalfEven_spec hb hm
  obtain ⟨-, hhigh, heven'⟩ := roundHalfEven_spec hd hn
  rw [hm, hn]
  by_contra hlt
  obtain ⟨k, rfl⟩ : ∃ k, m = n + 1 + k := ⟨m - n - 1, by omega⟩
  -- both quotients would have to be the half between `n` and `n + 1`, and both neighbours even
  have hleft : b * (2 * (n + 1 + k)) * d ≤ (2 * a + b) * d := Nat.mul_le_mul_right d hlow
  have hright : 2 * c * b ≤ (d * (2 * n) + d) * b := Nat.mul_le_mul_right b hhigh
  have hbd : 0 < b * d := Nat.mul_pos hb hd
  have hk : k = 0 := by nlinarith
  subst hk
  have htie : b * (2 * (n + 1 + 0)) = 2 * a + b := by
    refine Nat.le_antisymm hlow (Nat.le_of_mul_le_mul_right ?_ hd)
    nlinarith
  have htie' : 2 * c = d * (2 * n) + d := by
    refine Nat.le_antisymm hhigh (Nat.le_of_mul_le_mul_right ?_ hb)
    nlinarith
  have := heven (.inl htie)
  have := heven' (.inr htie')
  omega

theorem div_le_roundHalfEven (a b : ℕ) : a / b ≤ roundHalfEven a b := by
  simp only [roundHalfEven]
  split
  · exact Nat.le_refl _
  · split <;> omega

theorem roundHalfEven_le_succ (a b : ℕ) : roundHalfEven a b ≤ a / b + 1 := by
  simp only [roundHalfEven]
  split
  · omega
  · split <;> omega

/-! ### To a rank -/

/-- How many binary places of `q` are below a 24-bit significand. -/
theorem lt_twoPow_scale (q : ℕ) : q < 2 ^ (q.log2 - 23 + 24) := by
  refine Nat.lt_of_lt_of_le Nat.lt_log2_self (Nat.pow_le_pow_right (by decide) ?_)
  omega

theorem twoPow_scale_le {q : ℕ} (h : q.log2 - 23 ≠ 0) : 2 ^ (q.log2 - 23 + 23) ≤ q := by
  have hq : q ≠ 0 := by
    rintro rfl
    exact h (by decide)
  have hlog : q.log2 - 23 + 23 = q.log2 := by omega
  rw [hlog]
  exact Nat.log2_self_le hq

/-- The rank of a quotient lies in the binade that its leading bit tells. -/
theorem rankOfRatio_bounds (hb : 0 < b) {s : ℕ} (hs : (a / b).log2 - 23 = s) :
    rankOfRatio a b ≤ (s + 2) * binade ∧ (s ≠ 0 → (s + 1) * binade ≤ rankOfRatio a b) := by
  have hbs : 0 < b * 2 ^ s := Nat.mul_pos hb (twoPow_pos s)
  have hrank : rankOfRatio a b = s * binade + roundHalfEven a (b * 2 ^ s) := by
    rw [rankOfRatio, hs]
    rfl
  rw [hrank]
  constructor
  · have hq : a / b < 2 ^ (s + 24) := hs ▸ lt_twoPow_scale (a / b)
    have hlt : a / (b * 2 ^ s) < 2 ^ 24 := by
      rw [← Nat.div_div_eq_div_mul]
      rw [Nat.pow_add, Nat.mul_comm] at hq
      exact (Nat.div_lt_iff_lt_mul (twoPow_pos s)).2 hq
    have := roundHalfEven_le_succ a (b * 2 ^ s)
    simp only [binade]
    omega
  · intro hne
    have hq : 2 ^ (s + 23) ≤ a / b := hs ▸ twoPow_scale_le (hs ▸ hne)
    have hle : 2 ^ 23 ≤ a / (b * 2 ^ s) := by
      rw [← Nat.div_div_eq_div_mul]
      rw [Nat.pow_add, Nat.mul_comm] at hq
      exact (Nat.le_div_iff_mul_le (twoPow_pos s)).2 hq
    have := div_le_roundHalfEven a (b * 2 ^ s)
    simp only [binade]
    omega

theorem div_le_div_of_mul_le (hb : 0 < b) (hd : 0 < d) (h : a * d ≤ c * b) : a / b ≤ c / d := by
  refine (Nat.le_div_iff_mul_le hd).2 (Nat.le_of_mul_le_mul_right ?_ hb)
  calc a / b * d * b = a / b * b * d := by ring
    _ ≤ a * d := Nat.mul_le_mul_right d (Nat.div_mul_le_self a b)
    _ ≤ c * b := h

/-- **A smaller quotient is not rounded to a higher rank.** -/
theorem rankOfRatio_mono (hb : 0 < b) (hd : 0 < d) (h : a * d ≤ c * b) :
    rankOfRatio a b ≤ rankOfRatio c d := by
  obtain ⟨s, hs⟩ : ∃ s, (a / b).log2 - 23 = s := ⟨_, rfl⟩
  obtain ⟨t, ht⟩ : ∃ t, (c / d).log2 - 23 = t := ⟨_, rfl⟩
  have hst : s ≤ t := by
    rw [← hs, ← ht, Nat.log2_eq_log_two, Nat.log2_eq_log_two]
    exact Nat.sub_le_sub_right (Nat.log_mono_right (div_le_div_of_mul_le hb hd h)) 23
  rcases Nat.eq_or_lt_of_le hst with rfl | hlt
  · rw [rankOfRatio, rankOfRatio, hs, ht]
    refine Nat.add_le_add_left (roundHalfEven_mono (Nat.mul_pos hb (twoPow_pos s))
      (Nat.mul_pos hd (twoPow_pos s)) ?_) _
    calc a * (d * twoPow s) = a * d * twoPow s := by ring
      _ ≤ c * b * twoPow s := Nat.mul_le_mul_right _ h
      _ = c * (b * twoPow s) := by ring
  · -- different binades: the lower one ends where the higher one begins, or before
    have hlow := (rankOfRatio_bounds hb hs).1
    have hhigh := (rankOfRatio_bounds hd ht).2 (Nat.ne_of_gt (Nat.zero_lt_of_lt hlt))
    have hbetween : (s + 2) * binade ≤ (t + 1) * binade := Nat.mul_le_mul_right _ (by omega)
    omega

/-! ### Ranks and values -/

theorem magnitude_of_lt {m : ℕ} (h : m < 2 * binade) : magnitude m = m := if_pos h

/-- The values of a binade. -/
theorem magnitude_bounds {m : ℕ} (h : 2 * binade ≤ m) :
    binade * 2 ^ (m / binade - 1) ≤ magnitude m ∧
      magnitude m < binade * 2 ^ (m / binade - 1 + 1) := by
  have hmod : m % binade < binade := Nat.mod_lt m (by decide)
  rw [magnitude, if_neg (Nat.not_lt_of_le h), twoPow_eq]
  constructor
  · exact Nat.mul_le_mul_right _ (Nat.le_add_right _ _)
  · rw [Nat.pow_succ', ← Nat.mul_assoc]
    exact Nat.mul_lt_mul_of_pos_right (by omega) (twoPow_pos _)

/-- A higher rank has no smaller value. -/
theorem magnitude_mono {m n : ℕ} (h : m ≤ n) : magnitude m ≤ magnitude n := by
  by_cases hn : n < 2 * binade
  · rwa [magnitude_of_lt hn, magnitude_of_lt (Nat.lt_of_le_of_lt h hn)]
  · have hn' : 2 * binade ≤ n := Nat.le_of_not_lt hn
    have hplace : 2 ≤ n / binade := (Nat.le_div_iff_mul_le (by decide)).2 hn'
    by_cases hm : m < 2 * binade
    · rw [magnitude_of_lt hm]
      refine Nat.le_of_lt (Nat.lt_of_lt_of_le hm (Nat.le_trans ?_ (magnitude_bounds hn').1))
      rw [Nat.mul_comm]
      exact Nat.mul_le_mul_left _ (Nat.le_self_pow (by omega) 2)
    · have hm' : 2 * binade ≤ m := Nat.le_of_not_lt hm
      rcases Nat.eq_or_lt_of_le (Nat.div_le_div_right (c := binade) h) with hsame | hlower
      · -- one binade: the place in it decides
        have hmod : m % binade ≤ n % binade := by
          have hm := Nat.div_add_mod m binade
          have hn := Nat.div_add_mod n binade
          rw [hsame] at hm
          omega
        rw [magnitude, magnitude, if_neg hm, if_neg hn, hsame]
        exact Nat.mul_le_mul_right _ (Nat.add_le_add_left hmod _)
      · refine Nat.le_trans (Nat.le_of_lt (magnitude_bounds hm').2)
          (Nat.le_trans (Nat.mul_le_mul_left _ ?_) (magnitude_bounds hn').1)
        exact Nat.pow_le_pow_right (by decide) (by omega)

/-! ### Numbers without a sign -/

/-- A number, maybe infinite, whose sign bit is `neg`. -/
def HasSign (neg : Bool) (x : Single) : Prop := x ≠ .nan ∧ x.isNeg = neg

variable {x y : Single} {neg : Bool}

theorem HasSign.cases (h : x.HasSign neg) : (∃ m, x = .finite neg m) ∨ x = .inf neg := by
  obtain ⟨hnan, rfl⟩ := h
  cases x with
  | nan => exact absurd rfl hnan
  | inf neg => exact .inr rfl
  | finite neg m => exact .inl ⟨m, rfl⟩

theorem hasSign_ofRatio (neg : Bool) (a b : ℕ) : (ofRatio neg a b).HasSign neg := by
  simp only [ofRatio]
  split
  · exact ⟨by simp, rfl⟩
  · exact ⟨by simp, rfl⟩

theorem hasSign_ofInt (i : ℤ) : (ofInt i).HasSign (decide (i < 0)) := hasSign_ofRatio _ _ _

/-- The place of a rounded quotient on the number line. -/
theorem key_ofRatio (a b : ℕ) :
    (ofRatio false a b).key = some (min (rankOfRatio a b) infRank : ℕ) := by
  simp only [ofRatio]
  split
  · rename_i h
    rw [Nat.min_eq_left (Nat.le_of_lt h)]
    rfl
  · rename_i h
    rw [Nat.min_eq_right (Nat.le_of_not_lt h)]
    rfl

theorem le_of_key {i j : ℤ} (hx : x.key = some i) (hy : y.key = some j) (h : i ≤ j) : x ≤ y := by
  show compareBy _ x y = true
  rw [compareBy, hx, hy]
  exact decide_eq_true h

/-- **Rounding keeps the order.** -/
theorem ofRatio_le (hb : 0 < b) (hd : 0 < d) (h : a * d ≤ c * b) :
    ofRatio false a b ≤ ofRatio false c d := by
  refine le_of_key (key_ofRatio a b) (key_ofRatio c d) (Int.ofNat_le.2 ?_)
  exact min_le_min_right _ (rankOfRatio_mono hb hd h)

theorem ofInt_le {i j : ℤ} (hi : 0 ≤ i) (h : i ≤ j) : ofInt i ≤ ofInt j := by
  have hij : i.natAbs ≤ j.natAbs := by omega
  rw [ofInt, ofInt, decide_eq_false (Int.not_lt.2 hi),
    decide_eq_false (Int.not_lt.2 (Int.le_trans hi h))]
  generalize unitsPerOne = u
  exact ofRatio_le Nat.one_pos Nat.one_pos (Nat.mul_le_mul_right 1 (Nat.mul_le_mul_right u hij))

theorem le_inf (h : x.HasSign false) : x ≤ .inf false := by
  rcases h.cases with ⟨m, rfl⟩ | rfl
  · exact decide_eq_true (Int.ofNat_le.2 (Nat.le_of_lt m.isLt))
  · exact decide_eq_true (Int.le_refl (infRank : ℤ))

/-- Two numbers in order are finite and so are their ranks, or the larger one is infinite. -/
theorem HasSign.le_cases (hx : x.HasSign false) (hy : y.HasSign false) (h : x ≤ y) :
    (∃ m n, m.val ≤ n.val ∧ x = .finite false m ∧ y = .finite false n) ∨ y = .inf false := by
  rcases hy.cases with ⟨n, rfl⟩ | rfl
  · rcases hx.cases with ⟨m, rfl⟩ | rfl
    · exact .inl ⟨m, n, Int.ofNat_le.1 (of_decide_eq_true h), rfl, rfl⟩
    · have hle : (infRank : ℤ) ≤ n.val := of_decide_eq_true h
      exact absurd n.isLt (Nat.not_lt_of_le (Int.ofNat_le.1 hle))
  · exact .inr rfl

theorem finite_le_iff {m n : Fin infRank} :
    (finite false m : Single) ≤ .finite false n ↔ m.val ≤ n.val := by
  show compareBy _ _ _ = true ↔ _
  simp only [compareBy, key, signed, Bool.false_eq_true, ↓reduceIte, decide_eq_true_eq]
  exact Int.ofNat_le

/-- Dropping the fraction keeps the order. -/
theorem toNat64_mono (hx : x.HasSign false) (hy : y.HasSign false) (h : x ≤ y) :
    x.toNat64 ≤ y.toNat64 := by
  rcases hx.le_cases hy h with ⟨m, n, hmn, rfl, rfl⟩ | rfl
  · have hle : magnitude m / unitsPerOne ≤ magnitude n / unitsPerOne :=
      Nat.div_le_div_right (magnitude_mono hmn)
    simp only [toNat64, truncate, signed, Bool.false_eq_true, ↓reduceIte]
    generalize magnitude m / unitsPerOne = a at *
    generalize magnitude n / unitsPerOne = b at *
    omega
  · cases x with
    | nan => exact Nat.zero_le _
    | inf neg =>
      obtain rfl : neg = false := hx.2
      exact Nat.le_refl _
    | finite neg k =>
      simp only [toNat64, truncate, Bool.false_eq_true, ↓reduceIte]
      omega

section Operations

variable {k : Fin infRank}

theorem unitsPerOne_pos : 0 < unitsPerOne := twoPow_pos _

theorem finite_add (m n : Fin infRank) :
    (.finite false m + .finite false n : Single) =
      ofRatio false (magnitude m + magnitude n) 1 := by
  show ofUnits false (magnitude m + magnitude n : ℤ) = _
  rw [ofUnits]
  split
  · rename_i hzero
    have hsum : magnitude m + magnitude n = 0 := by omega
    rw [hsum]
    rfl
  · rw [decide_eq_false (by omega)]
    rfl

theorem finite_div (m n : Fin infRank) (hn : n.val ≠ 0) :
    (.finite false m / .finite false n : Single) =
      ofRatio false (magnitude m * unitsPerOne) (magnitude n) := by
  show div _ _ = _
  rw [div, if_neg hn]
  rfl

theorem finite_mul (m n : Fin infRank) (s t : Bool) :
    (.finite s m * .finite t n : Single) =
      ofRatio (s != t) (magnitude m * magnitude n) unitsPerOne := by
  show mul _ _ = _
  rw [mul]

theorem HasSign.div (hx : x.HasSign neg) (hk : k.val ≠ 0) :
    (x / .finite false k).HasSign neg := by
  rcases hx.cases with ⟨m, rfl⟩ | rfl
  · show (div _ _).HasSign neg
    rw [Single.div, if_neg hk, Bool.bne_false]
    exact hasSign_ofRatio _ _ _
  · show (Single.inf (neg != false)).HasSign neg
    rw [Bool.bne_false]
    exact ⟨by simp, rfl⟩

theorem HasSign.mul (hx : x.HasSign neg) (hk : k.val ≠ 0) :
    (x * .finite false k).HasSign neg := by
  rcases hx.cases with ⟨m, rfl⟩ | rfl
  · rw [finite_mul, Bool.bne_false]
    exact hasSign_ofRatio _ _ _
  · show (mul _ _).HasSign neg
    rw [Single.mul, if_neg hk, Bool.bne_false]
    exact ⟨by simp, rfl⟩

theorem magnitude_pos {m : ℕ} (h : m ≠ 0) : 0 < magnitude m :=
  Nat.lt_of_lt_of_le (by decide : 0 < magnitude 1) (magnitude_mono (Nat.pos_of_ne_zero h))

/-- Division keeps the order. -/
theorem div_le_div (hx : x.HasSign false) (hy : y.HasSign false) (hk : k.val ≠ 0) (h : x ≤ y) :
    x / .finite false k ≤ y / .finite false k := by
  rcases hx.le_cases hy h with ⟨m, n, hmn, rfl, rfl⟩ | rfl
  · show div _ _ ≤ div _ _
    rw [div, div, if_neg hk, if_neg hk]
    refine ofRatio_le (magnitude_pos hk) (magnitude_pos hk) ?_
    exact Nat.mul_le_mul_right _ (Nat.mul_le_mul_right _ (magnitude_mono hmn))
  · exact le_inf (hx.div hk)

theorem HasSign.add (hx : x.HasSign false) : (x + .finite false k).HasSign false := by
  rcases hx.cases with ⟨m, rfl⟩ | rfl
  · rw [finite_add]
    exact hasSign_ofRatio _ _ _
  · show (Single.inf false).HasSign false
    exact ⟨nofun, rfl⟩

/-- Addition keeps the order. -/
theorem add_le_add (hx : x.HasSign false) (hy : y.HasSign false) (h : x ≤ y) :
    x + .finite false k ≤ y + .finite false k := by
  rcases hx.le_cases hy h with ⟨m, n, hmn, rfl, rfl⟩ | rfl
  · rw [finite_add, finite_add]
    refine ofRatio_le Nat.one_pos Nat.one_pos (Nat.mul_le_mul_right 1 ?_)
    exact Nat.add_le_add_right (magnitude_mono hmn) _
  · exact le_inf hx.add

/-- A larger divisor gives no larger quotient. -/
theorem div_le_div_left {m n : Fin infRank} (hm : m.val ≠ 0) (hmn : m.val ≤ n.val) :
    (.finite false k / .finite false n : Single) ≤ .finite false k / .finite false m := by
  have hn : n.val ≠ 0 := by omega
  rw [finite_div _ _ hm, finite_div _ _ hn]
  refine ofRatio_le (magnitude_pos hn) (magnitude_pos hm) ?_
  exact Nat.mul_le_mul_left _ (magnitude_mono hmn)

/-- Multiplication keeps the order. -/
theorem mul_le_mul (hx : x.HasSign false) (hy : y.HasSign false) (hk : k.val ≠ 0) (h : x ≤ y) :
    x * .finite false k ≤ y * .finite false k := by
  rcases hx.le_cases hy h with ⟨m, n, hmn, rfl, rfl⟩ | rfl
  · rw [finite_mul, finite_mul]
    refine ofRatio_le unitsPerOne_pos unitsPerOne_pos ?_
    exact Nat.mul_le_mul_right _ (Nat.mul_le_mul_right _ (magnitude_mono hmn))
  · have hinf : Single.inf false * .finite false k = .inf false := by
      show mul _ _ = _
      rw [mul, if_neg hk]
      rfl
    rw [hinf]
    exact le_inf (hx.mul hk)

end Operations

end Single

end OnboardVision

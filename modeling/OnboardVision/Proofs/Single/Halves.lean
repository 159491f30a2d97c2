import Mathlib
import OnboardVision.Proofs.Single.Value

/-!
# Rounding by adding a half

A number is rounded to a whole one by adding a half and dropping the fraction.  The sum is rounded
too.  From one on that does no harm in any binade but one: below `2²³` the sum is exact, or it passes
a power of two and stays clear of the next whole number; from `2²⁴` on the half is lost in a number
that is whole already.  In between whole numbers are neighbours, so the sum is a tie, and an odd
number becomes the even one above it (`Single.TiesUp`).

* `Single.div_sum_of_lt`, `Single.div_sum_of_eq`, `Single.div_sum_of_gt`: the whole part of the sum,
  by binades;
* `Single.toNat64_add_half`: the result, for every number from one up to `2⁶²`.
-/

namespace OnboardVision

namespace Single

variable {a c e s : ℕ}

/-! ### The sum in units -/

/-- The binade of a whole number of units tells how many places are rounded off. -/
theorem magnitude_rankOfRatio_one (hlow : binade * 2 ^ s ≤ a) (hhigh : a < 2 * binade * 2 ^ s) :
    magnitude (rankOfRatio a 1) = roundHalfEven a (2 ^ s) * 2 ^ s := by
  have hpos : 0 < a := Nat.lt_of_lt_of_le (Nat.mul_pos (by decide) (twoPow_pos s)) hlow
  have hlog : a.log2 = s + 23 := by
    rw [Nat.log2_eq_iff (Nat.ne_of_gt hpos)]
    constructor
    · calc 2 ^ (s + 23) = binade * 2 ^ s := by rw [Nat.pow_add, Nat.mul_comm]
        _ ≤ a := hlow
    · calc a < 2 * binade * 2 ^ s := hhigh
        _ = 2 ^ (s + 23 + 1) := by rw [Nat.pow_add, Nat.pow_add]; simp only [binade]; ring
  have hs : (a / 1).log2 - 23 = s := by
    rw [Nat.div_one, hlog, Nat.add_sub_cancel]
  rw [magnitude_rankOfRatio Nat.one_pos hs, Nat.one_mul]

theorem roundHalfEven_of_lt {r : ℕ} (h : 2 * r < s) : roundHalfEven (c * s + r) s = c := by
  have hdiv : (c * s + r) / s = c := by
    rw [Nat.add_comm, Nat.add_mul_div_right _ _ (by omega), Nat.div_eq_of_lt (by omega),
      Nat.zero_add]
  have hmod : (c * s + r) % s = r := by
    rw [Nat.add_comm, Nat.add_mul_mod_self_right, Nat.mod_eq_of_lt (by omega)]
  simp only [roundHalfEven, hdiv, hmod, if_pos h]

/-- A significand of one place too many is rounded to one of the two next to its half. -/
theorem roundHalfEven_two_bounds {n g : ℕ} (hg : 0 < g) :
    2 * roundHalfEven (n * g) (2 * g) ≤ n + 1 ∧ n ≤ 2 * roundHalfEven (n * g) (2 * g) + 1 := by
  obtain ⟨m, hm⟩ : ∃ m, roundHalfEven (n * g) (2 * g) = m := ⟨_, rfl⟩
  have hpos : 0 < 2 * g := by omega
  obtain ⟨hle, hge, -⟩ := roundHalfEven_spec hpos hm
  rw [hm]
  constructor
  · refine Nat.le_of_mul_le_mul_right (?_ : _ * (2 * g) ≤ _ * (2 * g)) hpos
    linarith
  · refine Nat.le_of_mul_le_mul_right (?_ : _ * (2 * g) ≤ _ * (2 * g)) hpos
    linarith

/-- A significand that a half `h` has carried past a power of two is not rounded past the next whole
number. -/
theorem div_carried {h m n : ℕ} (hdvd : h ∣ binade) (hpass : 2 * binade ≤ n)
    (hn : n < 2 * binade + h) (hm : 2 * m ≤ n + 1 ∧ n ≤ 2 * m + 1) : m / h = n / (2 * h) := by
  obtain ⟨t, ht⟩ := hdvd
  have hleft : m / h = t := by
    refine Nat.div_eq_of_lt_le ?_ ?_ <;> rw [Nat.mul_comm]
    · omega
    · rw [Nat.mul_add, ← ht]
      omega
  have hright : n / (2 * h) = t := by
    refine Nat.div_eq_of_lt_le ?_ ?_ <;> rw [Nat.mul_comm, Nat.mul_assoc]
    · omega
    · rw [Nat.mul_add, ← ht]
      omega
  rw [hleft, hright]

/-- A number below `2²³`: the sum is exact, or it has passed a power of two by less than a half. -/
theorem div_sum_of_lt (hlow : binade ≤ c) (hhigh : c < 2 * binade) (he : 126 ≤ e) (he' : e < 149) :
    magnitude (rankOfRatio (c * 2 ^ e + 2 ^ 148) 1) / 2 ^ 149 =
      (c * 2 ^ e + 2 ^ 148) / 2 ^ 149 := by
  -- in units of the last place of the number, a half is a power of two
  obtain ⟨d, hd⟩ : ∃ d, 148 = e + d := ⟨148 - e, by omega⟩
  have hdvd : 2 ^ d ∣ binade := Nat.pow_dvd_pow 2 (by omega : d ≤ 23)
  have hle : 2 ^ d ≤ binade := Nat.le_of_dvd (by decide) hdvd
  have hg : 0 < 2 ^ e := Nat.two_pow_pos e
  have hsum : c * 2 ^ e + 2 ^ 148 = (c + 2 ^ d) * 2 ^ e := by
    rw [hd, Nat.pow_add, Nat.mul_comm (2 ^ e), Nat.add_mul]
  have hone : 2 ^ 149 = 2 * 2 ^ d * 2 ^ e := by
    rw [Nat.mul_assoc, Nat.mul_comm (2 ^ d), ← Nat.pow_add, ← hd]
    rfl
  rw [hsum, hone, Nat.mul_div_mul_right _ _ hg]
  by_cases hsame : c + 2 ^ d < 2 * binade
  · have hround : roundHalfEven ((c + 2 ^ d) * 2 ^ e) (2 ^ e) = c + 2 ^ d :=
      roundHalfEven_of_lt (r := 0) (by omega)
    rw [magnitude_rankOfRatio_one (Nat.mul_le_mul_right _ (by omega))
      (Nat.mul_lt_mul_of_pos_right hsame hg), hround, Nat.mul_div_mul_right _ _ hg]
  · have hnext : 2 ^ (e + 1) = 2 * 2 ^ e := Nat.pow_succ'
    have hlow' : binade * 2 ^ (e + 1) ≤ (c + 2 ^ d) * 2 ^ e := by
      rw [hnext, ← Nat.mul_assoc]
      exact Nat.mul_le_mul_right _ (by omega)
    have hhigh' : (c + 2 ^ d) * 2 ^ e < 2 * binade * 2 ^ (e + 1) := by
      rw [hnext, ← Nat.mul_assoc]
      exact Nat.mul_lt_mul_of_pos_right (by omega) hg
    rw [magnitude_rankOfRatio_one hlow' hhigh', hnext, Nat.mul_comm 2 (2 ^ d), Nat.mul_assoc,
      Nat.mul_div_mul_right _ _ (by omega), Nat.mul_comm (2 ^ d) 2]
    exact div_carried hdvd (by omega) (by omega) (roundHalfEven_two_bounds hg)

/-- A whole number from `2²³` up to `2²⁴`: the sum is a tie, and becomes even. -/
theorem div_sum_of_eq (hlow : binade ≤ c) (hhigh : c < 2 * binade) :
    magnitude (rankOfRatio (c * 2 ^ 149 + 2 ^ 148) 1) / 2 ^ 149 = c + c % 2 := by
  have hdiv : (c * 2 ^ 149 + 2 ^ 148) / 2 ^ 149 = c := by omega
  have hmod : (c * 2 ^ 149 + 2 ^ 148) % 2 ^ 149 = 2 ^ 148 := by omega
  have hround : roundHalfEven (c * 2 ^ 149 + 2 ^ 148) (2 ^ 149) = c + c % 2 := by
    simp only [roundHalfEven, hdiv, hmod]
    rw [if_neg (by decide), if_neg (by decide)]
  have hbinade : c * 2 ^ 149 + 2 ^ 148 < 2 * binade * 2 ^ 149 := by
    simp only [binade] at hhigh ⊢
    omega
  rw [magnitude_rankOfRatio_one (Nat.le_trans (Nat.mul_le_mul_right _ hlow) (Nat.le_add_right _ _))
    hbinade, hround, Nat.mul_div_cancel _ (by decide)]

/-- A number from `2²⁴` on is whole, and the half is lost. -/
theorem div_sum_of_gt (hlow : binade ≤ c) (hhigh : c < 2 * binade) (he : 149 < e) :
    magnitude (rankOfRatio (c * 2 ^ e + 2 ^ 148) 1) / 2 ^ 149 = c * 2 ^ (e - 149) ∧
      (c * 2 ^ e + 2 ^ 148) / 2 ^ 149 = c * 2 ^ (e - 149) := by
  obtain ⟨d, rfl⟩ := Nat.exists_eq_add_of_lt he
  have hpow : 2 ^ (149 + d + 1) = 2 ^ (d + 1) * 2 ^ 149 := by
    rw [← Nat.pow_add]
    congr 1
    omega
  have hlost : 2 * 2 ^ 148 < 2 ^ (149 + d + 1) := by
    rw [hpow, Nat.pow_succ]
    have := twoPow_pos d
    rw [twoPow_eq] at this
    omega
  have hsub : 149 + d + 1 - 149 = d + 1 := by omega
  rw [hsub]
  constructor
  · have hbinade : c * 2 ^ (149 + d + 1) + 2 ^ 148 < 2 * binade * 2 ^ (149 + d + 1) := by
      have : (c + 1) * 2 ^ (149 + d + 1) ≤ 2 * binade * 2 ^ (149 + d + 1) :=
        Nat.mul_le_mul_right _ hhigh
      rw [Nat.add_mul] at this
      omega
    rw [magnitude_rankOfRatio_one
      (Nat.le_trans (Nat.mul_le_mul_right _ hlow) (Nat.le_add_right _ _)) hbinade,
      roundHalfEven_of_lt hlost, hpow, ← Nat.mul_assoc, Nat.mul_div_cancel _ (by decide)]
  · rw [hpow, ← Nat.mul_assoc]
    omega

/-! ### The sum as a number -/

theorem unitsPerOne_eq : unitsPerOne = 2 ^ 149 := rfl

theorem toNat64_finite {k : Fin infRank} (h : magnitude k / unitsPerOne < 2 ^ 64) :
    (finite false k).toNat64 = magnitude k / unitsPerOne := by
  simp only [toNat64, truncate, signed, Bool.false_eq_true, ↓reduceIte]
  generalize magnitude k / unitsPerOne = n at *
  omega

/-- A whole number of units, rounded, as an integer of 64 bits. -/
theorem toNat64_ofRatio (ha : a ≤ 2 ^ 212) :
    (ofRatio false a 1).toNat64 = magnitude (rankOfRatio a 1) / unitsPerOne := by
  have hrank : rankOfRatio a 1 ≤ rankOfRatio (2 ^ 212) 1 :=
    rankOfRatio_mono Nat.one_pos Nat.one_pos (Nat.mul_le_mul_right 1 ha)
  have hfinite : rankOfRatio a 1 < infRank := Nat.lt_of_le_of_lt hrank (by decide)
  have hlarge : magnitude (rankOfRatio (2 ^ 212) 1) / unitsPerOne < 2 ^ 64 := by decide
  have hmag : magnitude (rankOfRatio a 1) / unitsPerOne < 2 ^ 64 :=
    Nat.lt_of_le_of_lt (Nat.div_le_div_right (magnitude_mono hrank)) hlarge
  simp only [ofRatio, dif_pos hfinite]
  exact toNat64_finite hmag

/-- From one on a number has a significand with at least 126 places behind it. -/
theorem exists_significand_of_le {k : ℕ} (h : 2 ^ 149 ≤ magnitude k) :
    ∃ c e, magnitude k = c * 2 ^ e ∧ binade ≤ c ∧ c < 2 * binade ∧ 126 ≤ e := by
  have hrank : 127 * binade ≤ k := by
    by_contra hlt
    have hle : magnitude k ≤ magnitude (127 * binade - 1) := magnitude_mono (by omega)
    have hsmall : magnitude (127 * binade - 1) < 2 ^ 149 := by decide
    omega
  obtain ⟨c, hc, hlow, hhigh⟩ := exists_significand (Nat.le_trans (by decide) hrank)
  have hplace : 127 ≤ k / binade := (Nat.le_div_iff_mul_le (by decide)).2 hrank
  exact ⟨c, _, hc, hlow, hhigh, by omega⟩

/-- The binade of a number tells its places. -/
theorem binade_le_iff (hlow : binade ≤ c) (hhigh : c < 2 * binade) :
    binade * 2 ^ s ≤ c * 2 ^ e ↔ s ≤ e := by
  constructor
  · intro h
    by_contra hless
    refine Nat.lt_irrefl (c * 2 ^ e) ?_
    calc c * 2 ^ e < 2 * binade * 2 ^ e :=
          Nat.mul_lt_mul_of_pos_right hhigh (Nat.two_pow_pos e)
      _ = binade * 2 ^ (e + 1) := by ring
      _ ≤ binade * 2 ^ s := Nat.mul_le_mul_left _ (Nat.pow_le_pow_right (by decide) (by omega))
      _ ≤ c * 2 ^ e := h
  · intro h
    exact Nat.mul_le_mul hlow (Nat.pow_le_pow_right (by decide) h)

/-- An odd whole number from `2²³` up to `2²⁴`: with a half added it is as near to the even number
above it as to itself. -/
def TiesUp (q : ℚ) : Prop := 2 ^ 23 ≤ q ∧ q < 2 ^ 24 ∧ ∃ k : ℕ, q = 2 * k + 1

theorem tiesUp_iff (hlow : binade ≤ c) (hhigh : c < 2 * binade) :
    TiesUp ((c * 2 ^ e : ℕ) / 2 ^ 149) ↔ e = 149 ∧ c % 2 = 1 := by
  have hpos : (0 : ℚ) < 2 ^ 149 := by positivity
  have hcancel : ((c * 2 ^ 149 : ℕ) / 2 ^ 149 : ℚ) = c := by
    rw [Nat.cast_mul, Nat.cast_pow, Nat.cast_ofNat, mul_div_cancel_right₀ _ hpos.ne']
  rw [TiesUp, le_div_iff₀ hpos, div_lt_iff₀ hpos]
  constructor
  · rintro ⟨hge, hlt, k, hk⟩
    have hge' : 2 ^ 23 * 2 ^ 149 ≤ c * 2 ^ e := by exact_mod_cast hge
    have hlt' : c * 2 ^ e < 2 ^ 24 * 2 ^ 149 := by exact_mod_cast hlt
    have he : 149 ≤ e := (binade_le_iff hlow hhigh).1 hge'
    have he' : ¬ 150 ≤ e := fun hmore => by
      have := (binade_le_iff hlow hhigh).2 hmore
      simp only [binade] at this
      omega
    obtain rfl : e = 149 := by omega
    rw [hcancel] at hk
    have hk' : c = 2 * k + 1 := by exact_mod_cast hk
    omega
  · rintro ⟨rfl, hodd⟩
    refine ⟨?_, ?_, c / 2, ?_⟩
    · exact_mod_cast Nat.mul_le_mul_right (2 ^ 149) hlow
    · exact_mod_cast Nat.mul_lt_mul_of_pos_right hhigh (Nat.two_pow_pos 149)
    · rw [hcancel]
      exact_mod_cast (by omega : c = 2 * (c / 2) + 1)

/-- The whole part of a number and a half, counted in units. -/
theorem floor_add_half (v : ℕ) : ⌊((v : ℕ) / 2 ^ 149 + 1 / 2 : ℚ)⌋₊ = (v + 2 ^ 148) / 2 ^ 149 := by
  have hsum : ((v : ℕ) / 2 ^ 149 + 1 / 2 : ℚ) = ((v + 2 ^ 148 : ℕ) : ℚ) / ((2 ^ 149 : ℕ) : ℚ) := by
    push_cast
    ring
  rw [hsum, Nat.floor_div_eq_div]

theorem value?_finite {k : Fin infRank} {q : ℚ} (hk : (finite false k).value? = some q) :
    q = (magnitude k : ℕ) / 2 ^ 149 := by
  obtain rfl : _ = q := Option.some.inj hk
  rw [unitsPerOne_eq, Nat.cast_pow, Nat.cast_ofNat]
  rfl

theorem half_eq : (0.5 : Single) = .finite false ⟨0x3f000000, by decide⟩ := by decide

/-- **A half added, and the fraction dropped.**  From one on this is the nearest whole number, a half
going up, unless the number is an odd one from `2²³` up to `2²⁴`: then it is the next one. -/
theorem toNat64_add_half {k : Fin infRank} {q : ℚ} (hk : (finite false k).value? = some q)
    (hone : 1 ≤ q) (hlt : q < 2 ^ 62) :
    (¬ TiesUp q → (.finite false k + 0.5 : Single).toNat64 = ⌊q + 1 / 2⌋₊) ∧
      (TiesUp q → (.finite false k + 0.5 : Single).toNat64 = ⌊q + 1 / 2⌋₊ + 1) := by
  obtain rfl := value?_finite hk
  have hpos : (0 : ℚ) < 2 ^ 149 := by positivity
  have hge : 2 ^ 149 ≤ magnitude k := by
    rw [one_le_div hpos] at hone
    exact_mod_cast hone
  have hle : magnitude k < 2 ^ 62 * 2 ^ 149 := by
    rw [div_lt_iff₀ hpos] at hlt
    exact_mod_cast hlt
  obtain ⟨c, e, hc, hlow, hhigh, hplace⟩ := exists_significand_of_le hge
  have hsum : (.finite false k + 0.5 : Single) = ofRatio false (magnitude k + 2 ^ 148) 1 := by
    rw [half_eq, finite_add]
    rfl
  rw [hsum, toNat64_ofRatio (by omega), unitsPerOne_eq, floor_add_half, hc, tiesUp_iff hlow hhigh]
  rcases Nat.lt_trichotomy e 149 with he | rfl | he
  · rw [div_sum_of_lt hlow hhigh hplace he]
    exact ⟨fun _ => rfl, fun h => by omega⟩
  · rw [div_sum_of_eq hlow hhigh]
    constructor <;> intro h <;> omega
  · obtain ⟨hrounded, hexact⟩ := div_sum_of_gt hlow hhigh he
    rw [hrounded, hexact]
    exact ⟨fun _ => rfl, fun h => by omega⟩

/-- From `2²³` on every number is whole. -/
theorem exists_nat_of_le {k : Fin infRank} {q : ℚ} (hk : (finite false k).value? = some q)
    (h : 2 ^ 23 ≤ q) : ∃ n : ℕ, q = n := by
  obtain rfl := value?_finite hk
  have hpos : (0 : ℚ) < 2 ^ 149 := by positivity
  have hge : 2 ^ 23 * 2 ^ 149 ≤ magnitude k := by
    rw [le_div_iff₀ hpos] at h
    exact_mod_cast h
  obtain ⟨c, e, hc, hlow, hhigh, -⟩ := exists_significand_of_le (k := k) (by omega)
  rw [hc] at hge ⊢
  have he : 149 ≤ e := (binade_le_iff hlow hhigh).1 hge
  obtain ⟨d, rfl⟩ := Nat.exists_eq_add_of_le he
  refine ⟨c * 2 ^ d, ?_⟩
  rw [div_eq_iff hpos.ne', Nat.pow_add, Nat.mul_comm (2 ^ 149), ← Nat.mul_assoc, Nat.cast_mul,
    Nat.cast_pow 2 149, Nat.cast_ofNat]

end Single

end OnboardVision

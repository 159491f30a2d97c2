import Mathlib
import OnboardVision.Single.Text
import OnboardVision.Proofs.Single.Value

/-!
# Numbers in tenths

`Single.tenths` rounds the exact value to one place behind the point.  `Single.InTenths` says which
text that is by the value.

* `Single.nearest_roundHalfEven`: rounding takes the nearest integer;
* `Single.Nearest.unique`: there is only one.

Main statement:

* `Single.inTenths_iff`: so there is one text, and `Single.tenths` gives it.
-/

namespace OnboardVision

namespace Single

variable {x : Single} {q : ℚ} {a b d n : ℕ}

/-! ### The nearest integer -/

/-- No integer is nearer to `q`, and in a tie this one is even. -/
structure Nearest (q : ℚ) (n : ℕ) : Prop where
  /-- It is not more than a half away. -/
  near : |q - n| ≤ 1 / 2
  /-- If it is that far away it is even. -/
  even : |q - n| = 1 / 2 → Even n

/-- Two neighbours are not both even. -/
theorem Nearest.not_lt (h : Nearest q n) (h' : Nearest q d) : ¬ n < d := by
  intro hlt
  have hstep : (n + 1 : ℚ) ≤ d := by exact_mod_cast hlt
  have hhigh := (abs_le.1 h.near).2
  have hlow := (abs_le.1 h'.near).1
  -- so `q` is halfway between the two
  have hq : q = n + 1 / 2 := by linarith
  have hd : d = n + 1 := by
    have : (d : ℚ) = n + 1 := by linarith
    exact_mod_cast this
  subst hd hq
  have heven : Even n := h.even (by norm_num)
  have heven' : Even (n + 1) := h'.even (by push_cast; norm_num)
  exact Nat.even_add_one.1 heven' heven

theorem Nearest.unique (h : Nearest q n) (h' : Nearest q d) : n = d :=
  Nat.le_antisymm (Nat.not_lt.1 (h'.not_lt h)) (Nat.not_lt.1 (h.not_lt h'))

/-- Rounding takes the nearest integer. -/
theorem nearest_roundHalfEven (a : ℕ) (hb : 0 < b) : Nearest (a / b) (roundHalfEven a b) := by
  obtain ⟨n, hn⟩ : ∃ n, roundHalfEven a b = n := ⟨_, rfl⟩
  obtain ⟨hlow, hhigh, htie⟩ := roundHalfEven_spec hb hn
  rw [hn]
  have hb' : (0 : ℚ) < b := Nat.cast_pos.2 hb
  have hdiff : (a / b - n : ℚ) = (2 * a - b * (2 * n)) / (2 * b) := by field_simp
  have hlow' : (b * (2 * n) : ℚ) ≤ 2 * a + b := by exact_mod_cast hlow
  have hhigh' : (2 * a : ℚ) ≤ b * (2 * n) + b := by exact_mod_cast hhigh
  refine ⟨?_, fun h => Nat.even_iff.2 (htie ?_)⟩
  · rw [hdiff, abs_le, le_div_iff₀ (by positivity), div_le_iff₀ (by positivity)]
    constructor <;> linarith
  · rw [hdiff, abs_eq (by norm_num), div_eq_iff (by positivity), div_eq_iff (by positivity)] at h
    rcases h with h | h
    · right
      exact_mod_cast (by linarith : (2 * a : ℚ) = b * (2 * n) + b)
    · left
      exact_mod_cast (by linarith : (b * (2 * n) : ℚ) = 2 * a + b)

/-! ### Tenths -/

/-- The text of a number in tenths.  That of a finite one is its sign, and as many tenths as are
nearest to its absolute value, with a point before the last digit. -/
inductive InTenths : Single → String → Prop where
  /-- Not a number. -/
  | nan : InTenths .nan "NaN"
  /-- Beyond all numbers. -/
  | inf : InTenths (.inf false) "inf"
  /-- Below all numbers. -/
  | negInf : InTenths (.inf true) "-inf"
  /-- A finite number. -/
  | value {x : Single} {v : ℚ} {d : ℕ} (hv : x.value? = some v) (hd : Nearest (10 * |v|) d) :
    InTenths x ((if x.isNeg then "-" else "") ++ toString (d / 10) ++ "." ++ toString (d % 10))

theorem padded_one {n : ℕ} (h : n < 10) : padded 1 n = toString n := by
  revert n
  decide

theorem tenths_finite {neg : Bool} {k : Fin infRank} (hd : roundHalfEven (magnitude k * 10)
    unitsPerOne = d) : (finite neg k).tenths =
      (if neg then "-" else "") ++ toString (d / 10) ++ "." ++ toString (d % 10) := by
  have htext : (Decimal.mk d (-1)).text = toString (d / 10) ++ "." ++ padded 1 (d % 10) := rfl
  rw [tenths, hd, htext, padded_one (Nat.mod_lt d (by decide))]
  simp only [String.append_assoc]

/-- How many tenths a finite number is nearest to. -/
theorem nearest_tenths {neg : Bool} {k : Fin infRank} {v : ℚ} (hv : (finite neg k).value? = some v) :
    Nearest (10 * |v|) (roundHalfEven (magnitude k * 10) unitsPerOne) := by
  obtain rfl : _ = v := Option.some.inj hv
  have habs : |(signed neg (magnitude k) : ℚ)| = magnitude k := by
    cases neg <;> simp [signed]
  have htenths : 10 * |((signed neg (magnitude k) : ℤ) / unitsPerOne : ℚ)| =
      (magnitude k * 10 : ℕ) / (unitsPerOne : ℚ) := by
    rw [abs_div, habs, abs_of_pos units_pos]
    push_cast
    ring
  rw [htenths]
  exact nearest_roundHalfEven _ unitsPerOne_pos

/-- **There is one text for a number in tenths.** -/
theorem inTenths_iff {text : String} : x.InTenths text ↔ text = x.tenths := by
  constructor
  · intro h
    cases h with
    | nan => rfl
    | inf => rfl
    | negInf => rfl
    | value hv hd =>
      cases x with
      | nan => cases hv
      | inf neg => cases hv
      | finite neg k => exact (tenths_finite ((nearest_tenths hv).unique hd)).symm
  · rintro rfl
    cases x with
    | nan => exact .nan
    | inf neg =>
      cases neg with
      | false => exact .inf
      | true => exact .negInf
    | finite neg k =>
      rw [tenths_finite rfl]
      exact .value rfl (nearest_tenths rfl)

end Single

end OnboardVision

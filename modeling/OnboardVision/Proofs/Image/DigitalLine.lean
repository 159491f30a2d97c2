import Mathlib.Algebra.Order.Ring.Abs
import Mathlib.Data.List.Range
import Mathlib.Tactic.Linarith
import Mathlib.Tactic.Ring
import OnboardVision.Image.Horizon

/-!
# The digital line

The points of a horizon have a closed form.  After `i` of the `n` steps of a line that spans `s`
columns, the line is `i * s / n` columns from its start, rounded to a whole number
(`Horizon.rounded`), and likewise for rows.  That makes the point `Horizon.centre i`, and the error
term of the walk is then `Horizon.error i` (`Horizon.advance_centre`).

So the walk comes to the end of the line at its last step and not before, whatever the direction
of the line (`Horizon.points_eq`), and `Horizon.digital_points` says what its points are.
-/

namespace OnboardVision

namespace Horizon

/-! ### Rounding -/

/-- `i * span / length`, rounded to the nearest whole number, and a half upwards. -/
def rounded (span length i : ℕ) : ℕ := (2 * (i * span) + length) / (2 * length)

section Rounding

variable {span length i j : ℕ}

/-- The rounded number is the one whose error is at most a half. -/
theorem rounded_eq_iff (hlength : 0 < length) : rounded span length i = j ↔
    -(length : ℤ) < 2 * (j * length - i * span) ∧ 2 * (j * length - i * span) ≤ (length : ℤ) := by
  rw [rounded, Nat.div_eq_iff (by omega), Nat.le_sub_one_iff_lt (by omega)]
  zify
  constructor
  · rintro ⟨hlow, hhigh⟩
    constructor <;> linarith
  · rintro ⟨hlow, hhigh⟩
    constructor <;> linarith

theorem rounded_spec (span : ℕ) (hlength : 0 < length) (i : ℕ) :
    -(length : ℤ) < 2 * (rounded span length i * length - i * span) ∧
      2 * (rounded span length i * length - i * span) ≤ (length : ℤ) :=
  (rounded_eq_iff hlength).1 rfl

@[simp] theorem rounded_zero (span length : ℕ) : rounded span length 0 = 0 := by
  rw [rounded, Nat.zero_mul, Nat.mul_zero, Nat.zero_add]
  exact Nat.div_eq_zero_iff.2 (by omega)

/-- Along the longer axis there is a step each time. -/
theorem rounded_self (hi : i ≤ length) : rounded length length i = i := by
  obtain rfl | hlength := Nat.eq_zero_or_pos length
  · rw [Nat.le_zero.1 hi, rounded_zero]
  · rw [rounded_eq_iff hlength]
    constructor <;> linarith

/-- All steps together are the span. -/
theorem rounded_length (hspan : span ≤ length) : rounded span length length = span := by
  obtain rfl | hlength := Nat.eq_zero_or_pos length
  · rw [Nat.le_zero.1 hspan, rounded_zero]
  · rw [rounded_eq_iff hlength]
    constructor <;> linarith

/-- How far the next step would overshoot, if it went along the shorter axis as well. -/
theorem le_overshoot (hspan : span ≤ length) (hlength : 0 < length) (i : ℕ) :
    -(span : ℤ) ≤ 2 * ((rounded span length i + 1) * length - (i + 1) * span) := by
  have hlow := (rounded_spec span hlength i).1
  have hspan : (span : ℤ) ≤ length := by exact_mod_cast hspan
  linarith

/-- The next step goes along the shorter axis as well if it overshoots by at most a half. -/
theorem rounded_succ (hspan : span ≤ length) (hlength : 0 < length) (i : ℕ) :
    rounded span length (i + 1) = rounded span length i +
      if 2 * ((rounded span length i + 1 : ℤ) * length - (i + 1) * span) ≤ length
        then 1 else 0 := by
  obtain ⟨hlow, hhigh⟩ := rounded_spec span hlength i
  have hover := le_overshoot hspan hlength i
  have hspan : (span : ℤ) ≤ length := by exact_mod_cast hspan
  have hpos : (0 : ℤ) < length := by exact_mod_cast hlength
  rw [rounded_eq_iff hlength]
  push_cast
  split <;> constructor <;> linarith

/-- No point of the line is more than half a pixel off it. -/
theorem abs_rounded_sub_le (span : ℕ) (hi : i ≤ length) :
    |2 * ((rounded span length i : ℤ) * length - i * span)| ≤ length := by
  obtain rfl | hlength := Nat.eq_zero_or_pos length
  · rw [Nat.le_zero.1 hi]
    simp
  · obtain ⟨hlow, hhigh⟩ := rounded_spec span hlength i
    exact abs_le.2 ⟨hlow.le, hhigh⟩

theorem rounded_le (hspan : span ≤ length) (hi : i ≤ length) : rounded span length i ≤ span := by
  have hmul := Nat.mul_le_mul_right span hi
  calc rounded span length i
      ≤ rounded span length length := Nat.div_le_div_right (by omega)
    _ = span := rounded_length hspan

end Rounding

/-! ### The closed form -/

/-- How many columns the line goes through. -/
def spanX (l : Horizon) : ℕ := (l.right.x - l.left.x).natAbs

/-- How many rows the line goes through. -/
def spanY (l : Horizon) : ℕ := (l.right.y - l.left.y).natAbs

/-- How many columns the line is from its start after `i` steps. -/
def column (l : Horizon) (i : ℕ) : ℕ := rounded l.spanX l.length i

/-- How many rows the line is from its start after `i` steps. -/
def row (l : Horizon) (i : ℕ) : ℕ := rounded l.spanY l.length i

/-- The point of the line after `i` steps. -/
def centre (l : Horizon) (i : ℕ) : Point :=
  ⟨l.left.x + heading l.left.x l.right.x * l.column i,
    l.left.y + heading l.left.y l.right.y * l.row i⟩

/-- The error term of the walk after `i` steps. -/
def error (l : Horizon) (i : ℕ) : ℤ := (l.row i + 1) * l.spanX - (l.column i + 1) * l.spanY

variable {l : Horizon} {i j : ℕ}

theorem spanX_le (l : Horizon) : l.spanX ≤ l.length := le_max_left _ _

theorem spanY_le (l : Horizon) : l.spanY ≤ l.length := le_max_right _ _

/-- The line is as long as its longer axis. -/
theorem spans (l : Horizon) : (l.spanX = l.length ∧ l.spanY ≤ l.length) ∨
    (l.spanY = l.length ∧ l.spanX ≤ l.length) := by
  rw [length, ← spanX, ← spanY]
  omega

theorem heading_cases (a b : ℤ) : heading a b = 1 ∨ heading a b = -1 := by
  rw [heading]
  split
  · exact .inl rfl
  · exact .inr rfl

theorem abs_heading_mul (a b : ℤ) (n : ℕ) : |heading a b * n| = n := by
  obtain h | h := heading_cases a b <;> simp [h]

theorem heading_mul_natAbs (a b : ℤ) : heading a b * (b - a).natAbs = b - a := by
  rw [heading]
  split <;> omega

theorem heading_mul_inj {a b m n : ℤ} (h : heading a b * m = heading a b * n) : m = n := by
  obtain hh | hh := heading_cases a b <;> rw [hh] at h <;> omega

/-! ### Where the line starts and ends -/

@[simp] theorem centre_zero (l : Horizon) : l.centre 0 = l.left := by
  simp [centre, column, row]

@[simp] theorem centre_length (l : Horizon) : l.centre l.length = l.right := by
  rw [centre, column, row, rounded_length l.spanX_le, rounded_length l.spanY_le, spanX, spanY,
    heading_mul_natAbs, heading_mul_natAbs, add_sub_cancel, add_sub_cancel]

theorem error_zero (l : Horizon) : l.error 0 = l.spanX + -l.spanY := by
  simp [error, column, row, sub_eq_add_neg]

theorem centre_inj (hi : i ≤ l.length) (hj : j ≤ l.length) (h : l.centre i = l.centre j) :
    i = j := by
  rw [centre, centre, Point.mk.injEq] at h
  obtain ⟨hcolumn, hrow⟩ := h
  have hcolumn := heading_mul_inj (add_left_cancel hcolumn)
  have hrow := heading_mul_inj (add_left_cancel hrow)
  rw [column, column] at hcolumn
  rw [row, row] at hrow
  -- the longer axis tells the points apart
  obtain ⟨hlong, -⟩ | ⟨hlong, -⟩ := l.spans
  · rw [hlong, rounded_self hi, rounded_self hj] at hcolumn
    exact_mod_cast hcolumn
  · rw [hlong, rounded_self hi, rounded_self hj] at hrow
    exact_mod_cast hrow

theorem centre_ne_right (hi : i < l.length) : l.centre i ≠ l.right := by
  intro h
  rw [← centre_length] at h
  exact hi.ne (centre_inj hi.le le_rfl h)

/-! ### Steps -/

theorem column_succ (hi : i < l.length) :
    l.column (i + 1) = l.column i + if -(l.spanY : ℤ) ≤ 2 * l.error i then 1 else 0 := by
  have hlength : 0 < l.length := by omega
  obtain ⟨hlong, hshort⟩ | ⟨hlong, hshort⟩ := l.spans
  · have hover := le_overshoot hshort hlength i
    rw [error, column, column, row, hlong, rounded_self hi, rounded_self hi.le, if_pos hover]
  · rw [error, column, column, row, hlong, rounded_self hi.le, rounded_succ hshort hlength]
    congr 2
    rw [eq_iff_iff]
    constructor <;> intro h <;> linarith

theorem row_succ (hi : i < l.length) :
    l.row (i + 1) = l.row i + if 2 * l.error i ≤ (l.spanX : ℤ) then 1 else 0 := by
  have hlength : 0 < l.length := by omega
  obtain ⟨hlong, hshort⟩ | ⟨hlong, hshort⟩ := l.spans
  · rw [error, row, row, column, hlong, rounded_self hi.le, rounded_succ hshort hlength]
  · have hover := le_overshoot hshort hlength i
    rw [error, row, row, column, hlong, rounded_self hi, rounded_self hi.le,
      if_pos (by linarith)]

/-- A step of the walk goes from each point of the line to the next. -/
theorem advance_centre (hi : i < l.length) :
    advance l.spanX (-l.spanY) (heading l.left.x l.right.x) (heading l.left.y l.right.y)
      (l.centre i) (l.error i) = (l.centre (i + 1), l.error (i + 1)) := by
  have hcolumn := column_succ hi
  have hrow := row_succ hi
  rw [advance, centre, centre, Prod.mk.injEq, Point.mk.injEq, hcolumn, hrow]
  refine ⟨⟨?_, ?_⟩, ?_⟩
  · split
    · push_cast
      ring
    · rw [Nat.add_zero]
  · split
    · push_cast
      ring
    · rw [Nat.add_zero]
  · rw [error.eq_1 l (i + 1), hcolumn, hrow]
    nth_rewrite 1 [error]
    split <;> split <;> push_cast <;> ring

/-- The walk from a point of the line on. -/
theorem walk_centre (l : Horizon) : ∀ steps i, i + steps = l.length →
    walk l.spanX (-l.spanY) (heading l.left.x l.right.x) (heading l.left.y l.right.y) l.right
      steps (l.centre i) (l.error i) = (List.range' i (steps + 1)).map l.centre := by
  intro steps
  induction steps with
  | zero =>
    intro i _
    rfl
  | succ steps ih =>
    intro i hi
    rw [walk, if_neg (centre_ne_right (by omega)), advance_centre (by omega), List.range'_succ,
      List.map_cons]
    dsimp only
    rw [ih (i + 1) (by omega)]

/-- The points of the line, each by its number. -/
theorem points_eq (l : Horizon) : l.points = (List.range (l.length + 1)).map l.centre := by
  have hwalk := walk_centre l l.length 0 (Nat.zero_add _)
  rw [centre_zero, error_zero, ← List.range_eq_range'] at hwalk
  exact hwalk

/-- Halves are rounded away from the start of the line. -/
example : points ⟨⟨0, 0⟩, ⟨4, -2⟩⟩ = [⟨0, 0⟩, ⟨1, -1⟩, ⟨2, -1⟩, ⟨3, -2⟩, ⟨4, -2⟩] := by decide

/-! ### Bounds -/

theorem column_le (hi : i ≤ l.length) : l.column i ≤ l.spanX := rounded_le l.spanX_le hi

theorem row_le (hi : i ≤ l.length) : l.row i ≤ l.spanY := rounded_le l.spanY_le hi

/-- The error term is at most one and a half lengths of the line. -/
theorem abs_error_le (hi : i < l.length) : |2 * l.error i| ≤ 3 * l.length := by
  have hlength : 0 < l.length := by omega
  rw [abs_le, error, column, row]
  obtain ⟨hlong, hshort⟩ | ⟨hlong, hshort⟩ := l.spans
  · obtain ⟨hlow, hhigh⟩ := rounded_spec l.spanY hlength i
    have hshort : (l.spanY : ℤ) ≤ l.length := by exact_mod_cast hshort
    rw [hlong, rounded_self hi.le]
    constructor <;> linarith
  · obtain ⟨hlow, hhigh⟩ := rounded_spec l.spanX hlength i
    have hshort : (l.spanX : ℤ) ≤ l.length := by exact_mod_cast hshort
    rw [hlong, rounded_self hi.le]
    constructor <;> linarith

/-! ### What the points are -/

/-- How far the line goes along its shorter axis. -/
def breadth (l : Horizon) : ℕ := min l.spanX l.spanY

theorem breadth_le (l : Horizon) : l.breadth ≤ l.length := min_le_max

/-- The coordinate of a point along the longer axis of the line. -/
def major (l : Horizon) (p : Point) : ℤ := if l.spanY ≤ l.spanX then p.x else p.y

/-- The coordinate of a point along the shorter axis of the line. -/
def minor (l : Horizon) (p : Point) : ℤ := if l.spanY ≤ l.spanX then p.y else p.x

/-- The points are those of the digital line. -/
structure Digital (l : Horizon) (ps : List Point) : Prop where
  /-- There is a point for each step, and the start. -/
  length_eq : ps.length = l.length + 1
  /-- The first point is the start. -/
  head_eq : ps.head? = some l.left
  /-- The last point is the end. -/
  getLast_eq : ps.getLast? = some l.right
  /-- Between a point and the next are one step along the longer axis, towards the end, and at most
  one along the shorter. -/
  isChain : ps.IsChain fun p q =>
    l.major q = l.major p + heading (l.major l.left) (l.major l.right) ∧
      (l.minor q = l.minor p ∨
        l.minor q = l.minor p + heading (l.minor l.left) (l.minor l.right))
  /-- No point is more than half a pixel off the line. -/
  near : ∀ (i : ℕ) (p : Point), ps[i]? = some p → |l.major p - l.major l.left| = i ∧
    |2 * (|l.minor p - l.minor l.left| * l.length - i * l.breadth)| ≤ l.length

/-- The point of the line after `i` steps, by axes. -/
theorem centre_axes (hi : i ≤ l.length) :
    l.major (l.centre i) = l.major l.left + heading (l.major l.left) (l.major l.right) * i ∧
      l.minor (l.centre i) = l.minor l.left +
        heading (l.minor l.left) (l.minor l.right) * rounded l.breadth l.length i := by
  by_cases hflat : l.spanY ≤ l.spanX
  · have hlong : l.spanX = l.length := (max_eq_left hflat).symm
    simp only [major, minor, if_pos hflat, breadth, min_eq_right hflat]
    rw [centre, column, row, hlong, rounded_self hi]
    exact ⟨rfl, rfl⟩
  · have hsteep := Nat.le_of_not_le hflat
    have hlong : l.spanY = l.length := (max_eq_right hsteep).symm
    simp only [major, minor, if_neg hflat, breadth, min_eq_left hsteep]
    rw [centre, column, row, hlong, rounded_self hi]
    exact ⟨rfl, rfl⟩

/-- **The points of a line are its digital line.** -/
theorem digital_points (l : Horizon) : l.Digital l.points where
  length_eq := by rw [points_eq, List.length_map, List.length_range]
  head_eq := by
    rw [points_eq, List.range_succ_eq_map, List.map_cons, List.head?_cons, centre_zero]
  getLast_eq := by
    rw [points_eq, List.range_succ, List.map_append, List.map_singleton, List.getLast?_concat,
      centre_length]
  isChain := by
    rw [points_eq, List.isChain_map, List.isChain_range_succ]
    intro i hi
    obtain ⟨hmajor, hminor⟩ := centre_axes hi.le
    obtain ⟨hmajor', hminor'⟩ := centre_axes (i := i + 1) hi
    rw [Nat.succ_eq_add_one, hmajor', hminor', hmajor, hminor,
      rounded_succ l.breadth_le (by omega)]
    constructor
    · push_cast
      ring
    · split
      · right
        push_cast
        ring
      · exact .inl rfl
  near := by
    intro i p hp
    rw [points_eq, List.getElem?_map, Option.map_eq_some_iff] at hp
    obtain ⟨j, hj, rfl⟩ := hp
    obtain ⟨hi, rfl⟩ := List.getElem?_eq_some_iff.1 hj
    rw [List.length_range, Nat.lt_succ_iff] at hi
    obtain ⟨hmajor, hminor⟩ := centre_axes hi
    rw [List.getElem_range, hmajor, hminor, add_sub_cancel_left, add_sub_cancel_left,
      abs_heading_mul, abs_heading_mul]
    exact ⟨rfl, abs_rounded_sub_le l.breadth hi⟩

end Horizon

end OnboardVision

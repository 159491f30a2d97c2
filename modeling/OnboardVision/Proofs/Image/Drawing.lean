import Mathlib.Data.PFun
import OnboardVision.Proofs.Image.DigitalLine
import OnboardVision.Proofs.Image.Pixels

/-!
# Drawing the horizon

`Horizon.paint` walks as many steps as the line is long.  `Horizon.draw` draws the line without
counting: it moves on until it stands on the end of the line, with 32-bit numbers, and addresses
every pixel by its place.  A number that does not fit or a place outside the pixels is a
`Horizon.Fault`, and nothing in its definition makes the drawing end.

It ends all the same, and it stamps the points of the digital line, unless a number does not fit
(`Horizon.exists_draw_eq`); none is too large for a line whose ends are at most `2 ^ 28` away from
the origin (`Horizon.Moderate`).
-/

namespace OnboardVision

namespace Horizon

/-- Why a drawing stops before its end. -/
inductive Fault
  /-- A number does not fit into 32 bits. -/
  | overflow
  /-- A pixel that is not there is written. -/
  | outside
  deriving DecidableEq, Repr

variable {capacity : ℕ}

/-! ### Drawing without counting -/

/-- The number fits into 32 bits. -/
def Fits (n : ℤ) : Prop := -2 ^ 31 ≤ n ∧ n < 2 ^ 31

instance (n : ℤ) : Decidable (Fits n) := inferInstanceAs (Decidable (_ ∧ _))

/-- A number of 32 bits. -/
def int32 (n : ℤ) : Except Fault ℤ := if Fits n then pure n else throw .overflow

/-- Writes a pixel at its place, which is a number of 32 bits without a sign. -/
def press (im : Image capacity) (x y : ℤ) : Except Fault (Image capacity) :=
  match im.index? x y with
  | none => pure im
  | some i =>
    if 2 ^ 32 ≤ i then throw .overflow
    else if i < im.pixels.size then pure (im.set x y luma)
    else throw .outside

/-- Presses the brush on an image. -/
def touch (im : Image capacity) (p : Point) : Except Fault (Image capacity) :=
  brush.foldlM (fun im oy => brush.foldlM (fun im ox => do
    let x ← int32 (p.x + ox)
    let y ← int32 (p.y + oy)
    press im x y) im) im

/-- A step along one axis, if it is taken. -/
def shift (taken : Prop) [Decidable taken] (position direction err change : ℤ) :
    Except Fault (ℤ × ℤ) :=
  if taken then do
    let err' ← int32 (err + change)
    let position' ← int32 (position + direction)
    pure (position', err')
  else pure (position, err)

/-- One step along the line. -/
def move (dx dy sx sy : ℤ) (p : Point) (err : ℤ) : Except Fault (Point × ℤ) := do
  let twice ← int32 (2 * err)
  let (x, err') ← shift (dy ≤ twice) p.x sx err dy
  let (y, err'') ← shift (twice ≤ dx) p.y sy err' dx
  pure (⟨x, y⟩, err'')

/-- A drawing in progress. -/
structure Pen (capacity : ℕ) where
  /-- The points that have been stamped. -/
  stamped : List Point
  /-- The image so far. -/
  image : Image capacity
  /-- Where the pen stands. -/
  point : Point
  /-- The error term. -/
  err : ℤ

/-- One turn: the pen stamps where it stands.  If that is the goal, it leaves the stamped points and
the image; if not, it moves on. -/
def turn (dx dy sx sy : ℤ) (goal : Point) (pen : Pen capacity) :
    Except Fault ((List Point × Image capacity) ⊕ Pen capacity) := do
  let image ← touch pen.image pen.point
  let stamped := pen.stamped ++ [pen.point]
  if pen.point = goal then pure (.inl (stamped, image))
  else
    let (point, err) ← move dx dy sx sy pen.point pen.err
    pure (.inr { stamped, image, point, err })

/-- Turns, for as long as there is a next one. -/
def strokes (dx dy sx sy : ℤ) (goal : Point) :
    Pen capacity →. Except Fault (List Point × Image capacity) :=
  PFun.fix fun pen => Part.some <|
    match turn dx dy sx sy goal pen with
    | .error fault => .inl (.error fault)
    | .ok (.inl result) => .inl (.ok result)
    | .ok (.inr next) => .inr next

/-- The extents of the line and the error term at its start. -/
def extents (l : Horizon) : Except Fault (ℤ × ℤ × ℤ) := do
  let across ← int32 (l.right.x - l.left.x)
  let dx ← int32 across.natAbs
  let down ← int32 (l.right.y - l.left.y)
  let rows ← int32 down.natAbs
  let dy ← int32 (-rows)
  let err ← int32 (dx + dy)
  pure (dx, dy, err)

/-- Draws the line: the stamped points and the image behind. -/
def draw (l : Horizon) (im : Image capacity) : Part (Except Fault (List Point × Image capacity)) :=
  match extents l with
  | .error fault => Part.some (.error fault)
  | .ok (dx, dy, err) =>
    strokes dx dy (heading l.left.x l.right.x) (heading l.left.y l.right.y) l.right
      { stamped := [], image := im, point := l.left, err }

section Strokes

variable {dx dy sx sy : ℤ} {goal : Point} {pen next : Pen capacity} {fault : Fault}
  {result : List Point × Image capacity}

theorem strokes_of_error (h : turn dx dy sx sy goal pen = .error fault) :
    strokes dx dy sx sy goal pen = Part.some (.error fault) := by
  refine Part.eq_some_iff.2 (PFun.fix_stop ?_)
  rw [h]
  exact Part.mem_some _

theorem strokes_of_done (h : turn dx dy sx sy goal pen = .ok (.inl result)) :
    strokes dx dy sx sy goal pen = Part.some (.ok result) := by
  refine Part.eq_some_iff.2 (PFun.fix_stop ?_)
  rw [h]
  exact Part.mem_some _

theorem strokes_of_next (h : turn dx dy sx sy goal pen = .ok (.inr next)) :
    strokes dx dy sx sy goal pen = strokes dx dy sx sy goal next := by
  refine PFun.fix_fwd_eq ?_
  rw [h]
  exact Part.mem_some _

end Strokes

/-! ### What a drawing gives -/

/-- The computation gives the result, or a number does not fit; and that is not so where it is
safe. -/
def Gives {α : Type} (safe : Prop) (d : Except Fault α) (a : α) : Prop :=
  d = .ok a ∨ d = .error .overflow ∧ ¬ safe

section Gives

variable {α β : Type} {safe : Prop} {d : Except Fault α} {a : α} {n : ℤ}

theorem Gives.pure (safe : Prop) (a : α) : Gives safe (pure a) a := .inl rfl

theorem Gives.bind {f : α → Except Fault β} {b : β} (hd : Gives safe d a) (hf : Gives safe (f a) b) :
    Gives safe (d >>= f) b := by
  obtain rfl | ⟨rfl, hnot⟩ := hd
  · exact hf
  · exact .inr ⟨rfl, hnot⟩

theorem Gives.foldlM {f : β → α → Except Fault β} {g : β → α → β} {l : List α}
    (h : ∀ b, ∀ a ∈ l, Gives safe (f b a) (g b a)) (b : β) :
    Gives safe (l.foldlM f b) (l.foldl g b) := by
  induction l generalizing b with
  | nil => exact .pure safe b
  | cons a l ih =>
    rw [List.foldlM_cons, List.foldl_cons]
    exact (h b a List.mem_cons_self).bind (ih (fun b a ha => h b a (List.mem_cons_of_mem _ ha)) _)

theorem gives_int32 (h : safe → Fits n) : Gives safe (int32 n) n := by
  rw [int32]
  split
  · exact .inl rfl
  · rename_i hn
    exact .inr ⟨rfl, fun hsafe => hn (h hsafe)⟩

/-- No place is outside the pixels, so a press does what a write does. -/
theorem gives_press (safe : Prop) (im : Image capacity) (x y : ℤ) :
    Gives safe (press im x y) (im.set x y luma) := by
  rw [press]
  split
  · rename_i hplace
    rw [Image.set_of_index?_eq_none hplace]
    exact .inl rfl
  · rename_i i hplace
    have hlt := Image.index?_lt hplace
    have hsize : im.pixels.size ≤ 2 ^ 16 * 2 ^ 16 :=
      im.size_eq ▸ Nat.mul_le_mul im.width.toNat_lt.le im.height.toNat_lt.le
    rw [if_neg (by omega), if_pos hlt]
    exact .inl rfl

theorem gives_shift {taken : Prop} [Decidable taken] {position direction err change : ℤ}
    (herr : safe → Fits (err + change)) (hposition : safe → Fits (position + direction)) :
    Gives safe (shift taken position direction err change)
      (if taken then position + direction else position, err + if taken then change else 0) := by
  rw [shift]
  split
  · exact (gives_int32 herr).bind ((gives_int32 hposition).bind (.pure safe _))
  · rw [add_zero]
    exact .pure safe _

end Gives

/-! ### The brush -/

theorem mem_brush {o : ℤ} : o ∈ brush ↔ |o| ≤ reach := by
  rw [brush, List.mem_map, abs_le]
  constructor
  · rintro ⟨i, hi, rfl⟩
    rw [List.mem_range] at hi
    omega
  · rintro ⟨hlow, hhigh⟩
    exact ⟨(o + reach).toNat, List.mem_range.2 (by omega), by omega⟩

theorem gives_touch {safe : Prop} {p : Point} (hx : safe → |p.x| ≤ 2 ^ 30)
    (hy : safe → |p.y| ≤ 2 ^ 30) (im : Image capacity) :
    Gives safe (touch im p) (stamp im p) := by
  have hfits {n o : ℤ} (hn : |n| ≤ 2 ^ 30) (ho : o ∈ brush) : Fits (n + o) := by
    rw [mem_brush, reach] at ho
    rw [abs_le] at hn ho
    rw [Fits]
    omega
  refine Gives.foldlM (fun im oy hoy => Gives.foldlM (fun im ox hox => ?_) im) im
  have hcolumn := gives_int32 fun hsafe => hfits (hx hsafe) hox
  have hrow := gives_int32 fun hsafe => hfits (hy hsafe) hoy
  exact hcolumn.bind (hrow.bind (gives_press safe im _ _))

/-- The brush changes the pixels next to its centre and no others. -/
theorem painted_stamp (im : Image capacity) (p : Point) :
    Image.Painted luma (fun x y => |x - p.x| ≤ reach ∧ |y - p.y| ≤ reach) im (stamp im p) := by
  have hrow (oy : ℤ) (im : Image capacity) := Image.Painted.foldl
    (fun im ox => Image.painted_set im (p.x + ox) (p.y + oy) luma) brush im
  refine (Image.Painted.foldl (fun im oy => hrow oy im) brush im).of_iff ?_
  intro x y
  constructor
  · rintro ⟨oy, hoy, ox, hox, rfl, rfl⟩
    rw [mem_brush] at hoy hox
    simpa using ⟨hox, hoy⟩
  · rintro ⟨hx, hy⟩
    exact ⟨y - p.y, mem_brush.2 hy, x - p.x, mem_brush.2 hx, by omega, by omega⟩

theorem painted_paint (l : Horizon) (im : Image capacity) :
    Image.Painted luma (fun x y => ∃ p ∈ l.points, |x - p.x| ≤ reach ∧ |y - p.y| ≤ reach) im
      (l.paint im) :=
  Image.Painted.foldl painted_stamp l.points im

/-! ### Moderate lines -/

/-- The ends of the line are not too far away for numbers of 32 bits. -/
structure Moderate (l : Horizon) : Prop where
  /-- The column of the start. -/
  left_x : |l.left.x| ≤ 2 ^ 28
  /-- The row of the start. -/
  left_y : |l.left.y| ≤ 2 ^ 28
  /-- The column of the end. -/
  right_x : |l.right.x| ≤ 2 ^ 28
  /-- The row of the end. -/
  right_y : |l.right.y| ≤ 2 ^ 28

variable {l : Horizon} {i : ℕ}

theorem Moderate.length_le (h : l.Moderate) : l.length ≤ 2 ^ 29 := by
  obtain ⟨hlx, hly, hrx, hry⟩ := h
  rw [abs_le] at hlx hly hrx hry
  rw [length]
  omega

/-- On the way from `a` to `b`, nothing is further away than `a` and `b` are. -/
theorem abs_add_heading_le {a b m : ℤ} {n : ℕ} (ha : |a| ≤ m) (hb : |b| ≤ m)
    (hn : n ≤ (b - a).natAbs) : |a + heading a b * n| ≤ m := by
  rw [abs_le] at ha hb ⊢
  rw [heading]
  split <;> omega

theorem Moderate.centre_le (h : l.Moderate) (hi : i ≤ l.length) :
    |(l.centre i).x| ≤ 2 ^ 28 ∧ |(l.centre i).y| ≤ 2 ^ 28 :=
  ⟨abs_add_heading_le h.left_x h.right_x (column_le hi),
    abs_add_heading_le h.left_y h.right_y (row_le hi)⟩

theorem Moderate.error_le (h : l.Moderate) (hi : i < l.length) : |2 * l.error i| ≤ 3 * 2 ^ 29 := by
  have herror := abs_error_le hi
  have hlength := h.length_le
  omega

/-! ### The run of a drawing -/

theorem gives_move (hi : i < l.length) :
    Gives l.Moderate
      (move l.spanX (-l.spanY) (heading l.left.x l.right.x) (heading l.left.y l.right.y)
        (l.centre i) (l.error i))
      (l.centre (i + 1), l.error (i + 1)) := by
  rw [← advance_centre hi, advance, move]
  have hcentre (h : l.Moderate) := h.centre_le hi.le
  have herror (h : l.Moderate) := h.error_le hi
  have hlength (h : l.Moderate) := h.length_le
  have hspans := l.spans
  have hx := heading_cases l.left.x l.right.x
  have hy := heading_cases l.left.y l.right.y
  simp only [abs_le] at hcentre herror
  refine (gives_int32 fun h => ?_).bind ((gives_shift (fun h => ?_) fun h => ?_).bind
    ((gives_shift (fun h => ?_) fun h => ?_).bind (.pure _ _)))
  -- between the two changes the error term is at most two and a half lengths of the line
  all_goals
    specialize hcentre h
    specialize herror h
    specialize hlength h
    rw [Fits]
  · omega
  · omega
  · omega
  · split <;> omega
  · omega

theorem gives_touch_centre (hi : i ≤ l.length) (im : Image capacity) :
    Gives l.Moderate (touch im (l.centre i)) (stamp im (l.centre i)) :=
  gives_touch (fun h => (h.centre_le hi).1.trans (by norm_num))
    (fun h => (h.centre_le hi).2.trans (by norm_num)) im

/-- A turn at a point of the line before its end. -/
theorem gives_turn (hi : i < l.length) (stamped : List Point) (im : Image capacity) :
    Gives l.Moderate
      (turn l.spanX (-l.spanY) (heading l.left.x l.right.x) (heading l.left.y l.right.y) l.right
        ⟨stamped, im, l.centre i, l.error i⟩)
      (.inr ⟨stamped ++ [l.centre i], stamp im (l.centre i), l.centre (i + 1), l.error (i + 1)⟩) := by
  refine (gives_touch_centre hi.le im).bind ?_
  rw [if_neg (centre_ne_right hi)]
  exact (gives_move hi).bind (.pure _ _)

/-- The turn at the end of the line. -/
theorem gives_turn_length (l : Horizon) (stamped : List Point) (im : Image capacity) :
    Gives l.Moderate
      (turn l.spanX (-l.spanY) (heading l.left.x l.right.x) (heading l.left.y l.right.y) l.right
        ⟨stamped, im, l.centre l.length, l.error l.length⟩)
      (.inl (stamped ++ [l.centre l.length], stamp im (l.centre l.length))) := by
  refine (gives_touch_centre le_rfl im).bind ?_
  rw [if_pos (centre_length l)]
  exact .pure _ _

/-- The drawing from a point of the line on ends. -/
theorem exists_strokes_eq (l : Horizon) : ∀ steps i, i + steps = l.length →
    ∀ (stamped : List Point) (im : Image capacity), ∃ outcome,
      strokes l.spanX (-l.spanY) (heading l.left.x l.right.x) (heading l.left.y l.right.y) l.right
          ⟨stamped, im, l.centre i, l.error i⟩ = Part.some outcome ∧
        Gives l.Moderate outcome
          (stamped ++ (List.range' i (steps + 1)).map l.centre,
            ((List.range' i (steps + 1)).map l.centre).foldl stamp im) := by
  intro steps
  induction steps with
  | zero =>
    intro i hi stamped im
    obtain rfl : i = l.length := hi
    obtain hturn | ⟨hturn, hnot⟩ := gives_turn_length l stamped im
    · exact ⟨_, strokes_of_done hturn, .inl rfl⟩
    · exact ⟨_, strokes_of_error hturn, .inr ⟨rfl, hnot⟩⟩
  | succ steps ih =>
    intro i hi stamped im
    obtain hturn | ⟨hturn, hnot⟩ := gives_turn (by omega : i < l.length) stamped im
    · have hrest := ih (i + 1) (by omega) (stamped ++ [l.centre i]) (stamp im (l.centre i))
      rw [List.append_assoc] at hrest
      rw [strokes_of_next hturn, List.range'_succ, List.map_cons, List.foldl_cons]
      exact hrest
    · exact ⟨_, strokes_of_error hturn, .inr ⟨rfl, hnot⟩⟩

theorem gives_extents (l : Horizon) :
    Gives l.Moderate (extents l) (l.spanX, -l.spanY, l.error 0) := by
  have hlength (h : l.Moderate) := h.length_le
  simp only [length] at hlength
  rw [error_zero]
  refine (gives_int32 fun h => ?_).bind ((gives_int32 fun h => ?_).bind
    ((gives_int32 fun h => ?_).bind ((gives_int32 fun h => ?_).bind
      ((gives_int32 fun h => ?_).bind ((gives_int32 fun h => ?_).bind (.pure _ _))))))
  all_goals
    specialize hlength h
    rw [Fits]
    omega

/-- A drawing ends, and stamps the points of the line unless a number does not fit. -/
theorem exists_draw_eq (l : Horizon) (im : Image capacity) :
    ∃ outcome, draw l im = Part.some outcome ∧
      Gives l.Moderate outcome (l.points, l.paint im) := by
  obtain hextents | ⟨hextents, hnot⟩ := gives_extents l
  · have hstrokes := exists_strokes_eq l l.length 0 (Nat.zero_add _) [] im
    rw [centre_zero, ← List.range_eq_range', ← points_eq, List.nil_append] at hstrokes
    rw [draw, hextents]
    exact hstrokes
  · rw [draw, hextents]
    exact ⟨_, rfl, .inr ⟨rfl, hnot⟩⟩

/-- **A drawing ends, and it draws the digital line.**  It stamps the points of the line one after
the other, from the start to the end, and leaves what `paint` does: the pixels next to these points
have the brightness of the line, and everything else stays.  Only a number that does not fit can
stop it, which does not happen to a moderate line. -/
theorem draw_eq_paint (l : Horizon) (im : Image capacity) :
    (draw l im = Part.some (.ok (l.points, l.paint im)) ∨
        draw l im = Part.some (.error .overflow)) ∧
      (l.Moderate → draw l im = Part.some (.ok (l.points, l.paint im))) ∧
      l.Digital l.points ∧
      Image.Painted 226 (fun x y => ∃ p ∈ l.points, |x - p.x| ≤ 1 ∧ |y - p.y| ≤ 1) im
        (l.paint im) := by
  obtain ⟨outcome, hdraw, houtcome⟩ := exists_draw_eq l im
  refine ⟨?_, ?_, digital_points l, painted_paint l im⟩
  · obtain rfl | ⟨rfl, -⟩ := houtcome
    · exact .inl hdraw
    · exact .inr hdraw
  · intro hl
    obtain rfl | ⟨-, hnot⟩ := houtcome
    · exact hdraw
    · exact (hnot hl).elim

end Horizon

end OnboardVision

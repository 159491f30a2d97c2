import OnboardVision.Proofs.Camera.Registers
import OnboardVision.Proofs.Image.Raster
import OnboardVision.Proofs.Telemetry.FrameBuffer

/-!
# A capture by places

`Registers` takes its bytes from the front of a list, and its image has the right number of pixels
by its type.  `Cells` goes through the bytes of a read by places, in a loop that goes on until the
last of them, and it keeps the frame in a `Raster`.  Nothing in its definitions makes a turn of the
loop take a byte, a place lie inside, or the size of the frame agree with its pixels.

All of this holds all the same (`Cells.turns_in_range`): what calls come to is the cells of some
registers (`Registers.cells`), turn by turn (`Registers.turn?_cells`), and `Cells.InRange` holds of
them between any two turns.
-/

namespace OnboardVision

/-- Copies bytes onto the pixels from place `start` on and before place `stop`, if there are these
places and as many bytes. -/
def Raster.copy? {capacity : ℕ} (r : Raster capacity) (start stop : ℕ) (bytes : List UInt8) :
    Option (Raster capacity) :=
  if start ≤ stop ∧ stop ≤ r.pixels.size ∧ bytes.length = stop - start then
    some { r with pixels := Image.write r.pixels start bytes }
  else none

/-- A frame has begun. -/
def Stage.UnderWay : Stage → Prop
  | .seeking | .marked => False
  | .header _ | .pixels _ | .checksum => True

/-- Frame assembly on header cells and a raster. -/
structure Cells (capacity : ℕ) where
  /-- How far the frame in progress is. -/
  stage : Stage := .seeking
  /-- The header cells. -/
  header : Vector UInt8 4 := Vector.replicate 4 0
  /-- The checksum of the frame in progress. -/
  crc : UInt8 := 0
  /-- The frame buffer. -/
  frame : Raster capacity := {}
  /-- The buffer holds a complete frame that may be handed out. -/
  ready : Bool := false
  deriving DecidableEq, Repr

/-- Where a turn of the loop leaves off. -/
structure Stop (capacity : ℕ) where
  /-- The place of the next byte. -/
  place : ℕ
  /-- The turn completed a frame. -/
  done : Bool
  /-- The cells behind it. -/
  cells : Cells capacity

namespace Cells

open Camera Crsf.Buffer

variable {capacity : ℕ}

/-! ### The loop -/

/-- The cells before the pixels of the header in them; a size that is empty or does not fit is given
up. -/
def begin (c : Cells capacity) : Cells capacity :=
  let (w, h) := geometry c.header
  if w = 0 ∨ h = 0 then { c with stage := .seeking }
  else
    match c.frame.reshape w h 0 with
    | (true, frame) => { c with stage := .pixels 0, frame }
    | (false, frame) => { c with stage := .seeking, frame }

/-- One turn of the loop, at place `i` of the bytes. -/
def turn? (c : Cells capacity) (data : List UInt8) (i : ℕ) : Option (Stop capacity) :=
  match c.stage with
  | .seeking => do
    let b ← data[i]?
    if b = sync then return ⟨i + 1, false, { c with stage := .marked }⟩
    else return ⟨i + 1, false, c⟩
  | .marked => do
    let b ← data[i]?
    if b = frameMark then
      return ⟨i + 1, false, { c with stage := .header 0, crc := 0, ready := false }⟩
    else if b = sync then return ⟨i + 1, false, c⟩
    else return ⟨i + 1, false, { c with stage := .seeking }⟩
  | .header got => do
    let b ← data[i]?
    let c := { c with header := ← store? c.header got b, crc := Checksum.add c.crc b }
    if got + 1 < 4 then return ⟨i + 1, false, { c with stage := .header (got + 1) }⟩
    else return ⟨i + 1, false, c.begin⟩
  | .pixels written => do
    let total := c.frame.pixels.size
    let n := min (← difference? total written) (← difference? data.length i)
    let chunk ← slice? data i (i + n)
    return ⟨i + n, false, { c with
      frame := ← c.frame.copy? written (written + n) chunk
      crc := Checksum.addAll c.crc chunk
      stage := if written + n = total then .checksum else .pixels (written + n) }⟩
  | .checksum => do
    let b ← data[i]?
    if b = c.crc then return ⟨i + 1, true, { c with stage := .seeking, ready := true }⟩
    else return ⟨i + 1, false, { c with stage := .seeking }⟩

/-- The turns from place `i` on, up to a complete frame or the end of the bytes; no result if these
are more than `n` turns. -/
def turns? (data : List UInt8) (n : ℕ) (c : Cells capacity) (i : ℕ) :
    Option (List (Stop capacity)) :=
  if i < data.length then
    match n with
    | 0 => none
    | n + 1 => do
      let s ← c.turn? data i
      if s.done then return [s]
      else return s :: (← turns? data n s.cells s.place)
  else some []

/-- What turns come to; the flag tells whether a frame was completed. -/
def outcome (c : Cells capacity) (stops : List (Stop capacity)) : Bool × Cells capacity :=
  match stops.getLast? with
  | some s => (s.done, s.cells)
  | none => (false, c)

/-- Makes a call, with no more turns than it has bytes. -/
def act? (c : Cells capacity) : Capture.Call → Option (Bool × Cells capacity)
  | .push data => do return c.outcome (← turns? data data.length c 0)
  | .withdraw => some (false, { c with ready := false })

/-- Makes calls. -/
def actAll? (c : Cells capacity) : List Capture.Call → Option (List Bool × Cells capacity)
  | [] => some ([], c)
  | a :: as => do
    let (done, c) ← c.act? a
    let (flags, c) ← c.actAll? as
    return (done :: flags, c)

/-- Every place that a turn comes to is there. -/
structure InRange (c : Cells capacity) : Prop where
  /-- In the header there is a next cell. -/
  header : ∀ got, c.stage = .header got → got < 4
  /-- In the pixels there is a next one. -/
  pixels : ∀ written, c.stage = .pixels written →
    written < c.frame.width.toNat * c.frame.height.toNat
  /-- The frame has one brightness per pixel. -/
  size_eq : c.frame.pixels.size = c.frame.width.toNat * c.frame.height.toNat
  /-- The pixels fit. -/
  size_le : c.frame.pixels.size ≤ capacity
  /-- A frame that is under way is not handed out. -/
  ready : c.stage.UnderWay → c.ready = false

end Cells

namespace Registers

open Camera Crsf.Buffer

variable {capacity : ℕ} {r r' : Registers capacity} {data : List UInt8} {i n : ℕ} {b : UInt8}
  {bs : List UInt8} {t : Turn capacity}

/-- The cells of registers. -/
def cells (r : Registers capacity) : Cells capacity :=
  ⟨r.stage, r.header, r.crc, r.image.raster, r.ready⟩

/-! ### What is under way is not ready -/

/-- Registers in range, with no frame to hand out while one is under way. -/
structure Orderly (r : Registers capacity) : Prop where
  /-- There is a next cell or pixel. -/
  inRange : r.InRange
  /-- A frame that is under way is not handed out. -/
  ready : r.stage.UnderWay → r.ready = false

theorem ready_begin (r : Registers capacity) : r.begin.1.ready = r.ready := by
  unfold begin
  dsimp only
  split
  · rfl
  · split <;> rfl

theorem ready_of_turn? (hr : r.stage.UnderWay → r.ready = false) (h : r.turn? b bs = some t) :
    t.registers.stage.UnderWay → t.registers.ready = false := by
  obtain ⟨stage, header, crc, im, ready⟩ := r
  cases stage with
  | seeking =>
    simp only [turn?] at h
    split at h <;> (cases h; exact False.elim)
  | marked =>
    simp only [turn?] at h
    split at h
    · cases h
      exact fun _ => rfl
    · split at h <;> (cases h; exact False.elim)
  | header got =>
    simp only [turn?, Option.bind_eq_bind, Option.bind_eq_some_iff] at h
    obtain ⟨header', -, h⟩ := h
    split at h
    · cases h
      exact fun _ => hr trivial
    · cases h
      exact fun _ => (ready_begin _).trans (hr trivial)
  | pixels written =>
    simp only [turn?, takePixels?, Option.bind_eq_bind, Option.bind_eq_some_iff] at h
    obtain ⟨room, -, chunk, -, r', ⟨im', -, hr'⟩, h⟩ := h
    cases hr'
    cases h
    exact fun _ => hr trivial
  | checksum =>
    simp only [turn?] at h
    split at h <;> (cases h; exact False.elim)

theorem Orderly.turn? (h : r.Orderly) (b : UInt8) (bs : List UInt8) :
    ∃ t, r.turn? b bs = some t ∧ r.Advances b bs t ∧ t.registers.Orderly := by
  obtain ⟨t, hturn, hadv⟩ := h.inRange.turn? b bs
  exact ⟨t, hturn, hadv, hadv.inRange, ready_of_turn? h.ready hturn⟩

theorem Orderly.cells_inRange (h : r.Orderly) : r.cells.InRange where
  header got hs := by
    have hin := h.inRange
    rwa [Registers.InRange, show r.stage = .header got from hs] at hin
  pixels written hs := by
    have hin := h.inRange
    rw [Registers.InRange, show r.stage = .pixels written from hs] at hin
    exact hin.trans_eq r.image.size_eq
  size_eq := r.image.size_eq
  size_le := r.image.size_le
  ready := h.ready

/-! ### Turns on a raster -/

theorem begin_cells (r : Registers capacity) : r.cells.begin = r.begin.1.cells := by
  unfold Cells.begin begin cells
  dsimp only
  split
  · rfl
  · rw [Raster.reshape_raster]
    rcases r.image.reshape (geometry r.header).1 (geometry r.header).2 0 with ⟨_ | _, im⟩ <;> rfl

/-- A chunk of the bytes from place `i` on. -/
theorem slice?_of_drop {chunk rest : List UInt8} (hi : i ≤ data.length)
    (h : data.drop i = chunk ++ rest) : slice? data i (i + chunk.length) = some chunk := by
  have hfront : (data.take i).length = i := List.length_take_of_le hi
  have hslice := slice?_append (data.take i) chunk rest
  rwa [List.append_assoc, ← h, List.take_append_drop, hfront] at hslice

theorem turn?_cells_of_pixels {written : ℕ} (hs : r.stage = .pixels written)
    (hlt : written < r.image.pixels.size) (hdrop : data.drop i = b :: bs)
    (hturn : r.turn? b bs = some t) :
    r.cells.turn? data i = some ⟨i + t.taken, t.done, t.registers.cells⟩ := by
  obtain ⟨hchunk, hfit, -⟩ := turn?_eq_of_pixels hs hlt b bs
  generalize hc : b :: bs.take (r.image.pixels.size - written - 1) = chunk at hchunk hfit
  rw [hchunk] at hturn
  cases hturn
  have hlen : data.length - i = bs.length + 1 := by rw [← List.length_drop, hdrop, List.length_cons]
  have hcount : min (r.image.pixels.size - written) (data.length - i) = chunk.length := by
    rw [← hc, hlen, List.length_cons, List.length_take]
    omega
  have hsplit : data.drop i = chunk ++ bs.drop (r.image.pixels.size - written - 1) := by
    rw [hdrop, ← hc, List.cons_append, List.take_append_drop]
  have hslice : slice? data i (i + chunk.length) = some chunk := slice?_of_drop (by omega) hsplit
  have hcopy : r.image.raster.copy? written (written + chunk.length) chunk =
      some (r.image.overwrite written chunk).raster :=
    if_pos ⟨Nat.le_add_right _ _, hfit, (Nat.add_sub_cancel_left _ _).symm⟩
  have hroom : difference? r.image.raster.pixels.size written =
      some (r.image.pixels.size - written) := if_pos (Nat.le_of_lt hlt)
  have hleft : difference? data.length i = some (data.length - i) := if_pos (by omega)
  simp only [Cells.turn?, cells, hs, hroom, hleft, Option.bind_eq_bind, Option.bind_some, hcount,
    hslice, hcopy]
  rfl

/-- **A turn of the registers is one of their cells.** -/
theorem turn?_cells (h : r.InRange) (hdrop : data.drop i = b :: bs)
    (hturn : r.turn? b bs = some t) :
    r.cells.turn? data i = some ⟨i + t.taken, t.done, t.registers.cells⟩ := by
  have hget : data[i]? = some b := by
    rw [← List.head?_drop, hdrop]
    rfl
  obtain ⟨stage, header, crc, im, ready⟩ := r
  cases stage with
  | seeking =>
    simp only [turn?] at hturn
    simp only [Cells.turn?, cells, hget, Option.bind_eq_bind, Option.bind_some]
    split at hturn <;> (rename_i hb; cases hturn; simp [hb])
  | marked =>
    simp only [turn?] at hturn
    simp only [Cells.turn?, cells, hget, Option.bind_eq_bind, Option.bind_some]
    by_cases hb : b = frameMark
    · rw [if_pos hb] at hturn ⊢
      cases hturn
      rfl
    · rw [if_neg hb] at hturn ⊢
      split at hturn <;> (rename_i hb'; cases hturn; simp [hb'])
  | header got =>
    simp only [turn?, Option.bind_eq_bind, Option.bind_eq_some_iff] at hturn
    obtain ⟨header', hstore, hturn⟩ := hturn
    simp only [Cells.turn?, cells, hget, hstore, Option.bind_eq_bind, Option.bind_some]
    split at hturn
    · rename_i hmore
      rw [if_pos hmore]
      cases hturn
      rfl
    · rename_i hlast
      have hbegin := begin_cells ⟨.header got, header', Checksum.add crc b, im, ready⟩
      rw [if_neg hlast]
      cases hturn
      exact congrArg (fun c : Cells capacity => some (Stop.mk (i + 1) false c)) hbegin
  | pixels written => exact turn?_cells_of_pixels rfl h hdrop hturn
  | checksum =>
    simp only [turn?] at hturn
    simp only [Cells.turn?, cells, hget, Option.bind_eq_bind, Option.bind_some]
    split at hturn <;> (rename_i hb; cases hturn; simp [hb])

/-! ### The loop -/

/-- Turns from place `i` on go forward and stay in range, and come to what a read of the bytes
comes to. -/
structure Covers (r : Registers capacity) (data : List UInt8) (i : ℕ)
    (stops : List (Stop capacity)) : Prop where
  /-- Every turn takes a byte. -/
  forward : (i :: stops.map Stop.place).IsChain (· < ·)
  /-- No turn takes a byte that is not there, or leaves its range. -/
  inRange : ∀ s ∈ stops, s.place ≤ data.length ∧ s.cells.InRange
  /-- They come to a read. -/
  receive : ∃ r' notes, r.receive? (data.drop i) = some ((r.cells.outcome stops).1, r', notes) ∧
    r'.cells = (r.cells.outcome stops).2 ∧ r'.Orderly

theorem Covers.nil (h : r.Orderly) (hi : ¬ i < data.length) : r.Covers data i [] where
  forward := .singleton i
  inRange := by simp
  receive := by
    rw [List.drop_eq_nil_of_le (Nat.le_of_not_lt hi), Registers.receive?]
    exact ⟨r, [], rfl, rfl, h⟩

section Turn

variable (hdrop : data.drop i = b :: bs) (hturn : r.turn? b bs = some t)
  (hadv : r.Advances b bs t) (ho : t.registers.Orderly)

include hdrop hadv in
theorem place_le : i + t.taken ≤ data.length := by
  have hle := hadv.le
  have hlen := congrArg List.length hdrop
  rw [List.length_drop, List.length_cons] at hlen
  omega

include hdrop hturn hadv ho

/-- A complete frame ends the turns. -/
theorem Covers.last (hdone : t.done = true) :
    r.Covers data i [⟨i + t.taken, true, t.registers.cells⟩] where
  forward := .cons_cons (Nat.lt_add_of_pos_right hadv.pos) (.singleton _)
  inRange s hs := by
    obtain rfl := List.mem_singleton.1 hs
    exact ⟨place_le hdrop hadv, ho.cells_inRange⟩
  receive := by
    rw [hdrop, receive?_of_turn hturn hadv.pos, if_pos hdone]
    exact ⟨_, _, rfl, rfl, ho⟩

/-- Behind a turn that completes no frame there are others. -/
theorem Covers.cons {stops : List (Stop capacity)} (hdone : t.done = false)
    (h : t.registers.Covers data (i + t.taken) stops) :
    r.Covers data i (⟨i + t.taken, false, t.registers.cells⟩ :: stops) where
  forward := .cons_cons (Nat.lt_add_of_pos_right hadv.pos) h.forward
  inRange s hs := by
    rcases List.mem_cons.1 hs with rfl | hs
    · exact ⟨place_le hdrop hadv, ho.cells_inRange⟩
    · exact h.inRange s hs
  receive := by
    obtain ⟨r', notes, hread, hcells, ho'⟩ := h.receive
    have hsame : r.cells.outcome (⟨i + t.taken, false, t.registers.cells⟩ :: stops) =
        t.registers.cells.outcome stops := by
      rw [Cells.outcome, Cells.outcome, List.getLast?_cons]
      cases stops.getLast? <;> rfl
    rw [hsame, hdrop, receive?_of_turn hturn hadv.pos, hdone, if_neg Bool.false_ne_true, ← hdrop,
      List.drop_drop, hread]
    exact ⟨r', _, rfl, hcells, ho'⟩

end Turn

/-- From any place on, there are no more turns than bytes. -/
theorem Orderly.exists_turns?_from (h : r.Orderly) (hi : i ≤ data.length)
    (hn : data.length - i ≤ n) :
    ∃ stops, Cells.turns? data n r.cells i = some stops ∧ r.Covers data i stops := by
  -- each turn leaves fewer bytes, and there is one turn less to make
  induction n generalizing r i with
  | zero =>
    have hlast : ¬ i < data.length := by omega
    exact ⟨[], if_neg hlast, .nil h hlast⟩
  | succ n ih =>
    by_cases hnext : i < data.length
    · have hdrop := List.drop_eq_getElem_cons hnext
      obtain ⟨t, hturn, hadv, ho⟩ := h.turn? data[i] (data.drop (i + 1))
      have hcells := turn?_cells h.inRange hdrop hturn
      rw [Cells.turns?, if_pos hnext]
      simp only [hcells, Option.bind_eq_bind, Option.bind_some]
      cases hdone : t.done with
      | true => exact ⟨_, rfl, .last hdrop hturn hadv ho hdone⟩
      | false =>
        have hpos := hadv.pos
        obtain ⟨stops, hturns, hcovers⟩ := ih ho (place_le hdrop hadv) (by omega)
        refine ⟨_, ?_, .cons hdrop hturn hadv ho hdone hcovers⟩
        rw [if_neg Bool.false_ne_true, hturns]
        rfl
    · exact ⟨[], if_neg hnext, .nil h hnext⟩

/-- **The loop ends.**  A read makes no more turns than it has bytes. -/
theorem Orderly.exists_turns? (h : r.Orderly) (data : List UInt8) :
    ∃ stops, Cells.turns? data data.length r.cells 0 = some stops ∧ r.Covers data 0 stops :=
  h.exists_turns?_from (Nat.zero_le _) (Nat.sub_le _ _)

/-! ### Calls -/

theorem Orderly.act? (h : r.Orderly) (a : Capture.Call) :
    ∃ done r', r.act? a = some (done, r') ∧ r.cells.act? a = some (done, r'.cells) ∧
      r'.Orderly := by
  cases a with
  | push data =>
    obtain ⟨stops, hturns, hcovers⟩ := h.exists_turns? data
    obtain ⟨r', notes, hread, hcells, ho⟩ := hcovers.receive
    refine ⟨(r.cells.outcome stops).1, r', ?_, ?_, ho⟩
    · rw [List.drop_zero] at hread
      simp only [Registers.act?, hread, Option.bind_eq_bind, Option.bind_some]
      rfl
    · simp only [Cells.act?, hturns, Option.bind_eq_bind, Option.bind_some, hcells]
      rfl
  | withdraw => exact ⟨false, r.withdraw, rfl, rfl, h.inRange, fun _ => rfl⟩

theorem Orderly.actAll? (h : r.Orderly) (calls : List Capture.Call) :
    ∃ flags r', r.actAll? calls = some (flags, r') ∧
      r.cells.actAll? calls = some (flags, r'.cells) ∧ r'.Orderly := by
  induction calls generalizing r with
  | nil => exact ⟨[], r, rfl, rfl, h⟩
  | cons a calls ih =>
    obtain ⟨done, r₁, hact, hcells, h₁⟩ := h.act? a
    obtain ⟨flags, r', hrest, hmore, h'⟩ := ih h₁
    refine ⟨done :: flags, r', ?_, ?_, h'⟩
    · simp [Registers.actAll?, hact, hrest]
    · simp [Cells.actAll?, hcells, hmore]

end Registers

namespace Cells

/-- **Every turn takes a byte, in range.**  Whatever calls are made, no access of theirs fails, and
they come to what `Capture` comes to, in the cells of some registers.  From there a read of any
bytes ends within as many turns as there are bytes: each turn goes on to a later place, none goes
beyond the last byte, and between any two of them the cells are in range. -/
theorem turns_in_range (calls : List Capture.Call) :
    ∃ r : Registers capacity, Registers.Runs {} calls r ∧
      actAll? {} calls =
        some ((({} : Capture capacity).actAll calls).1.map Capture.Outcome.done, r.cells) ∧
      r.cells.InRange ∧
      ∀ data : List UInt8, ∃ stops, turns? data data.length r.cells 0 = some stops ∧
        (0 :: stops.map Stop.place).IsChain (· < ·) ∧
        ∀ s ∈ stops, s.place ≤ data.length ∧ s.cells.InRange := by
  have hfresh : ({} : Registers capacity).Orderly := ⟨trivial, False.elim⟩
  obtain ⟨r, hruns, -⟩ := hfresh.inRange.actAll? calls
  obtain ⟨flags, r', hresult, hcells, ho⟩ := hfresh.actAll? calls
  obtain ⟨rfl, rfl⟩ : flags = _ ∧ r' = r := by
    have := hresult.symm.trans hruns.result
    simpa using this
  refine ⟨r', hruns, hcells, ho.cells_inRange, fun data => ?_⟩
  obtain ⟨stops, hturns, hcovers⟩ := ho.exists_turns? data
  exact ⟨stops, hturns, hcovers.forward, hcovers.inRange⟩

end Cells

end OnboardVision

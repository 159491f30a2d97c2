import Mathlib.Data.Vector.Basic
import OnboardVision.Proofs.Camera.Offer

/-!
# A capture on fixed cells

A capture may keep the header of a frame in four cells that are never cleared, and count what has
come in.  `Registers` is such a capture.  Its reads are a loop; a turn of it takes one byte, or all
the pixels that there are.  A read has no result where a cell or a range lies outside, where a
difference falls below zero, or where a turn takes no byte at all, which would go on for ever.

`Registers.InRange.turn?` says what a turn does, and `Registers.InRange.actAll?` that calls always
have a result, and that it is the one of `Capture`.
-/

namespace OnboardVision

namespace Camera

/-- Puts a byte into a header cell, if there is this cell. -/
def store? (header : Vector UInt8 4) (i : ℕ) (b : UInt8) : Option (Vector UInt8 4) :=
  if h : i < 4 then some (header.set i b h) else none

/-- A difference, if it does not fall below zero. -/
def difference? (m n : ℕ) : Option ℕ := if n ≤ m then some (m - n) else none

/-- The first `n` bytes, if there are as many. -/
def front? (n : ℕ) (data : List UInt8) : Option (List UInt8) :=
  if n ≤ data.length then some (data.take n) else none

/-- Copies bytes onto the pixels from place `start` on and before place `stop`, if there are these
places and as many bytes. -/
def copy? {capacity : ℕ} (im : Image capacity) (start stop : ℕ) (bytes : List UInt8) :
    Option (Image capacity) :=
  if start ≤ stop ∧ stop ≤ im.pixels.size ∧ bytes.length = stop - start then
    some (im.overwrite start bytes)
  else none

/-- The size in the header cells. -/
def geometry (header : Vector UInt8 4) : UInt16 × UInt16 :=
  (UInt16.ofNat (header[0].toNat + 256 * header[1].toNat),
    UInt16.ofNat (header[2].toNat + 256 * header[3].toNat))

theorem sizeOf?_toList (header : Vector UInt8 4) :
    sizeOf? header.toList = some (geometry header) := by
  rcases header with ⟨⟨cells⟩, h⟩
  match cells, h with
  | [_, _, _, _], _ => rfl

/-- A byte stands behind those that are in the cells before it. -/
theorem exists_store?_eq (header : Vector UInt8 4) {i : ℕ} (h : i < 4) (b : UInt8) :
    ∃ header', store? header i b = some header' ∧
      header'.toList.take (i + 1) = header.toList.take i ++ [b] := by
  refine ⟨_, dif_pos h, ?_⟩
  have hcells : header.toList.length = 4 := Vector.length_toList
  rw [Vector.toList_set, List.set_eq_take_append_cons_drop, if_pos (by omega), List.append_cons]
  refine List.take_left' ?_
  rw [List.length_append, List.length_take, List.length_singleton]
  omega

end Camera

/-- How far into a frame the stream is, as counts. -/
inductive Stage where
  /-- Looking for the first marker. -/
  | seeking
  /-- After the first marker. -/
  | marked
  /-- In the header, with the number of its bytes so far. -/
  | header (got : ℕ)
  /-- In the pixels, with the number written so far. -/
  | pixels (written : ℕ)
  /-- Before the checksum. -/
  | checksum
  deriving DecidableEq, Repr, Inhabited

/-- Frame assembly on header cells and one image buffer. -/
structure Registers (capacity : ℕ) where
  /-- How far the frame in progress is. -/
  stage : Stage := .seeking
  /-- The header cells.  Those that the frame in progress has not come to are left from earlier
  frames. -/
  header : Vector UInt8 4 := Vector.replicate 4 0
  /-- The checksum of the frame in progress. -/
  crc : UInt8 := 0
  /-- The image buffer. -/
  image : Image capacity := .empty
  /-- The buffer holds a complete frame that may be handed out. -/
  ready : Bool := false
  deriving DecidableEq, Repr

/-- What a turn of the loop comes to. -/
structure Turn (capacity : ℕ) where
  /-- How many bytes it takes. -/
  taken : ℕ
  /-- It completes a frame. -/
  done : Bool
  /-- The registers behind it. -/
  registers : Registers capacity
  /-- What it remarks on. -/
  notes : List Note

/-- The call completed a frame. -/
def Capture.Outcome.done : Outcome → Bool
  | .received _ done => done
  | .withdrawn => false

namespace Registers

open Camera

variable {capacity : ℕ} {r r' : Registers capacity} {b : UInt8} {bs : List UInt8}

/-! ### Reads -/

/-- The registers before the pixels of the header in the cells; a size that is empty or does not
fit is given up. -/
def begin (r : Registers capacity) : Registers capacity × List Note :=
  let (w, h) := geometry r.header
  if w = 0 ∨ h = 0 then ({ r with stage := .seeking }, [.frameRejected w h])
  else
    match r.image.reshape w h 0 with
    | (true, image) => ({ r with stage := .pixels 0, image }, [])
    | (false, image) => ({ r with stage := .seeking, image }, [.frameRejected w h])

/-- The registers behind pixels. -/
def takePixels? (r : Registers capacity) (written : ℕ) (chunk : List UInt8) :
    Option (Registers capacity) := do
  let written' := written + chunk.length
  return { r with
    image := ← copy? r.image written written' chunk
    crc := Checksum.addAll r.crc chunk
    stage := if written' = r.image.pixels.size then .checksum else .pixels written' }

/-- One turn of the loop, on the next byte `b` and those behind it. -/
def turn? (r : Registers capacity) (b : UInt8) (bs : List UInt8) : Option (Turn capacity) :=
  match r.stage with
  | .seeking =>
    if b = sync then some ⟨1, false, { r with stage := .marked }, []⟩
    else some ⟨1, false, r, []⟩
  | .marked =>
    if b = frameMark then
      some ⟨1, false, { r with stage := .header 0, crc := 0, ready := false }, []⟩
    else if b = sync then some ⟨1, false, r, []⟩
    else some ⟨1, false, { r with stage := .seeking }, []⟩
  | .header got => do
    let r := { r with header := ← store? r.header got b, crc := Checksum.add r.crc b }
    if got + 1 < 4 then return ⟨1, false, { r with stage := .header (got + 1) }, []⟩
    else return ⟨1, false, r.begin.1, r.begin.2⟩
  | .pixels written => do
    let n := min (← difference? r.image.pixels.size written) (bs.length + 1)
    return ⟨n, false, ← r.takePixels? written (← front? n (b :: bs)), []⟩
  | .checksum =>
    if b = r.crc then some ⟨1, true, { r with stage := .seeking, ready := true }, []⟩
    else some ⟨1, false, { r with stage := .seeking }, [.frameCorrupt]⟩

/-- Takes the bytes of one read, turn by turn. -/
def receive? (r : Registers capacity) (data : List UInt8) :
    Option (Bool × Registers capacity × List Note) :=
  match data with
  | [] => some (false, r, [])
  | b :: bs =>
    match r.turn? b bs with
    | none => none
    | some t =>
      if t.taken = 0 then none
      else if t.done then some (true, t.registers, t.notes)
      else do
        let (done, r, more) ← t.registers.receive? ((b :: bs).drop t.taken)
        return (done, r, t.notes ++ more)
termination_by data.length
decreasing_by
  rw [List.length_drop, List.length_cons]
  omega

/-- Withdraws the last complete frame. -/
def withdraw (r : Registers capacity) : Registers capacity := { r with ready := false }

/-- Makes a call; the flag tells whether it completed a frame. -/
def act? (r : Registers capacity) : Capture.Call → Option (Bool × Registers capacity)
  | .push data => do
    let (done, r, _) ← r.receive? data
    return (done, r)
  | .withdraw => some (false, r.withdraw)

/-- Makes calls. -/
def actAll? (r : Registers capacity) :
    List Capture.Call → Option (List Bool × Registers capacity)
  | [] => some ([], r)
  | a :: as => do
    let (done, r) ← r.act? a
    let (flags, r) ← r.actAll? as
    return (done :: flags, r)

/-! ### The capture in the registers -/

/-- The phase that the stage and the header cells make. -/
def phase (r : Registers capacity) : Phase :=
  match r.stage with
  | .seeking => .seeking
  | .marked => .marked
  | .header got => .header (r.header.toList.take got)
  | .pixels written => .pixels written
  | .checksum => .checksum

/-- The capture that the registers hold. -/
def capture (r : Registers capacity) : Capture capacity := ⟨r.phase, r.crc, r.image, r.ready⟩

@[simp] theorem capture_crc (r : Registers capacity) : r.capture.crc = r.crc := rfl

/-- There is a next header cell in the header, and a next pixel in the pixels. -/
def InRange (r : Registers capacity) : Prop :=
  match r.stage with
  | .header got => got < 4
  | .pixels written => written < r.image.pixels.size
  | _ => True

/-- With all its cells filled, a header begins its pixels or is given up. -/
theorem begin_eq (r : Registers capacity) (p : Phase) :
    (r.begin.1.capture, r.begin.2) =
        Capture.begin ⟨p, r.crc, r.image, r.ready⟩ r.header.toList ∧ r.begin.1.InRange := by
  unfold begin Capture.begin Image.reshape
  rw [sizeOf?_toList]
  rcases geometry r.header with ⟨w, h⟩
  dsimp only
  by_cases hempty : w = 0 ∨ h = 0
  · rw [if_pos hempty, if_pos hempty]
    exact ⟨rfl, trivial⟩
  · rw [if_neg hempty, if_neg hempty]
    cases him : (Image.filled? w h 0 : Option (Image capacity)) with
    | none => exact ⟨rfl, trivial⟩
    | some im =>
      obtain ⟨rfl, rfl⟩ := Image.size_of_filled? him
      have hsized : Capture.Sized im := not_or.1 hempty
      exact ⟨rfl, hsized.size_pos⟩

/-! ### Turns -/

/-- A turn on the bytes `b :: bs` takes some of them, and the capture takes the same ones. -/
structure Advances (r : Registers capacity) (b : UInt8) (bs : List UInt8) (t : Turn capacity) :
    Prop where
  /-- A turn takes a byte. -/
  pos : 0 < t.taken
  /-- A turn takes no byte that is not there. -/
  le : t.taken ≤ bs.length + 1
  /-- The next cell or pixel is there again. -/
  inRange : t.registers.InRange
  /-- The read goes on behind the turn, unless a frame is complete. -/
  receive : r.capture.receive (b :: bs) =
    if t.done then (true, t.registers.capture, t.notes)
    else
      let (done, c, more) := t.registers.capture.receive ((b :: bs).drop t.taken)
      (done, c, t.notes ++ more)

/-- A turn that takes one byte. -/
theorem Advances.one {done : Bool} {notes : List Note} (hin : r'.InRange)
    (hread : r.capture.receive (b :: bs) =
      if done then (true, r'.capture, notes)
      else
        let (done, c, more) := r'.capture.receive bs
        (done, c, notes ++ more)) : r.Advances b bs ⟨1, done, r', notes⟩ :=
  ⟨Nat.one_pos, Nat.le_add_left _ _, hin, hread⟩

theorem turn?_seeking (h : r.stage = .seeking) (b : UInt8) (bs : List UInt8) :
    ∃ t, r.turn? b bs = some t ∧ r.Advances b bs t := by
  have hphase : r.capture.phase = .seeking := by simp only [capture, phase, h]
  have hread : r.capture.receive (b :: bs) = _ := Capture.receive_seeking hphase
  have hin : r.InRange := by simp only [InRange, h]
  rw [Capture.seek] at hread
  rw [turn?, h]
  dsimp only
  by_cases hb : b = sync
  · rw [if_pos hb] at hread ⊢
    exact ⟨_, rfl, .one trivial hread⟩
  · rw [if_neg hb] at hread ⊢
    exact ⟨_, rfl, .one hin hread⟩

theorem turn?_marked (h : r.stage = .marked) (b : UInt8) (bs : List UInt8) :
    ∃ t, r.turn? b bs = some t ∧ r.Advances b bs t := by
  have hphase : r.capture.phase = .marked := by simp only [capture, phase, h]
  have hread : r.capture.receive (b :: bs) = _ := Capture.receive_marked hphase
  have hin : r.InRange := by simp only [InRange, h]
  rw [Capture.mark] at hread
  rw [turn?, h]
  dsimp only
  by_cases hb : b = frameMark
  · rw [if_pos hb] at hread ⊢
    exact ⟨_, rfl, .one (Nat.zero_lt_succ 3) hread⟩
  · rw [if_neg hb] at hread ⊢
    by_cases hs : b = sync
    · rw [if_pos hs] at hread ⊢
      exact ⟨_, rfl, .one hin hread⟩
    · rw [if_neg hs] at hread ⊢
      exact ⟨_, rfl, .one trivial hread⟩

theorem turn?_header {got : ℕ} (h : r.stage = .header got) (hgot : got < 4) (b : UInt8)
    (bs : List UInt8) : ∃ t, r.turn? b bs = some t ∧ r.Advances b bs t := by
  obtain ⟨stage, cells, crc, im, ready⟩ := r
  obtain rfl : stage = .header got := h
  have hread : (⟨.header (cells.toList.take got), crc, im, ready⟩ : Capture capacity).receive
      (b :: bs) = _ := Capture.receive_header rfl
  obtain ⟨header, hstore, htake⟩ := exists_store?_eq cells hgot b
  have hlen : (header.toList.take (got + 1)).length = got + 1 := by
    rw [List.length_take, Vector.length_toList]
    omega
  rw [Capture.takeHeader, ← htake, hlen] at hread
  simp only [turn?, hstore, Option.bind_eq_bind, Option.bind_some]
  by_cases hmore : got + 1 < 4
  · rw [if_pos hmore] at hread ⊢
    exact ⟨_, rfl, .one hmore hread⟩
  · have hall : header.toList.take (got + 1) = header.toList :=
      List.take_of_length_le (by rw [Vector.length_toList]; omega)
    obtain ⟨hbegin, hin⟩ := begin_eq ⟨.header got, header, Checksum.add crc b, im, ready⟩
      (.header (cells.toList.take got))
    rw [if_neg hmore] at hread ⊢
    rw [hall, ← hbegin] at hread
    exact ⟨_, rfl, .one hin hread⟩

theorem turn?_checksum (h : r.stage = .checksum) (b : UInt8) (bs : List UInt8) :
    ∃ t, r.turn? b bs = some t ∧ r.Advances b bs t := by
  have hphase : r.capture.phase = .checksum := by simp only [capture, phase, h]
  have hread : r.capture.receive (b :: bs) = _ := Capture.receive_checksum hphase
  rw [Capture.verify, capture_crc] at hread
  rw [turn?, h]
  dsimp only
  by_cases hb : b = r.crc
  · rw [if_pos hb] at hread ⊢
    exact ⟨_, rfl, .one trivial hread⟩
  · rw [if_neg hb] at hread ⊢
    exact ⟨_, rfl, .one trivial hread⟩

/-- The registers behind pixels that have room. -/
def takePixels (r : Registers capacity) (written : ℕ) (chunk : List UInt8) : Registers capacity :=
  { r with
    image := r.image.overwrite written chunk
    crc := Checksum.addAll r.crc chunk
    stage := if written + chunk.length = r.image.pixels.size then .checksum
      else .pixels (written + chunk.length) }

theorem takePixels?_eq {written : ℕ} {chunk : List UInt8}
    (h : written + chunk.length ≤ r.image.pixels.size) :
    r.takePixels? written chunk = some (r.takePixels written chunk) := by
  have hcopy : copy? r.image written (written + chunk.length) chunk =
      some (r.image.overwrite written chunk) :=
    if_pos ⟨Nat.le_add_right _ _, h, (Nat.add_sub_cancel_left _ _).symm⟩
  simp only [takePixels?, hcopy, Option.bind_eq_bind, Option.bind_some]
  rfl

theorem capture_takePixels {written : ℕ} {chunk : List UInt8}
    (h : written + chunk.length ≤ r.image.pixels.size) :
    (r.takePixels written chunk).capture = r.capture.takePixels written chunk := by
  by_cases hall : written + chunk.length = r.image.pixels.size
  · simp [takePixels, Capture.takePixels, capture, phase, hall]
  · have hmore : ¬ r.image.pixels.size ≤ written + chunk.length := by omega
    simp [takePixels, Capture.takePixels, capture, phase, hall, hmore]

theorem inRange_takePixels {written : ℕ} {chunk : List UInt8}
    (h : written + chunk.length ≤ r.image.pixels.size) :
    (r.takePixels written chunk).InRange := by
  by_cases hall : written + chunk.length = r.image.pixels.size
  · simp [takePixels, InRange, hall]
  · have hmore : written + chunk.length < r.image.pixels.size := by omega
    simp [takePixels, InRange, hall, hmore]

/-- In the pixels, a turn takes all that there are and that there is room for. -/
theorem turn?_eq_of_pixels {written : ℕ} (h : r.stage = .pixels written)
    (hlt : written < r.image.pixels.size) (b : UInt8) (bs : List UInt8) :
    let chunk := b :: bs.take (r.image.pixels.size - written - 1)
    r.turn? b bs = some ⟨chunk.length, false, r.takePixels written chunk, []⟩ ∧
      written + chunk.length ≤ r.image.pixels.size ∧
      (b :: bs).drop chunk.length = bs.drop (r.image.pixels.size - written - 1) := by
  obtain ⟨room, hroom⟩ : ∃ room, r.image.pixels.size - written = room + 1 :=
    Nat.exists_eq_succ_of_ne_zero (by omega)
  have hchunk : (b :: bs.take room).length = min (room + 1) (bs.length + 1) := by
    rw [List.length_cons, List.length_take]
    omega
  have hfront : front? (min (room + 1) (bs.length + 1)) (b :: bs) = some (b :: bs.take room) := by
    rw [← List.length_cons (a := b), front?, if_pos (Nat.min_le_right _ _), ← List.take_eq_take_min]
    rfl
  have hfit : written + (b :: bs.take room).length ≤ r.image.pixels.size := by omega
  have hleft : difference? r.image.pixels.size written = some (room + 1) :=
    hroom ▸ if_pos (Nat.le_of_lt hlt)
  rw [hroom, Nat.add_sub_cancel]
  refine ⟨?_, hfit, ?_⟩
  · rw [turn?, h]
    simp only [hleft, hfront, takePixels?_eq hfit, hchunk, Option.bind_eq_bind, Option.bind_some]
    rfl
  · rw [List.length_cons, List.drop_succ_cons, List.length_take]
    exact List.drop_eq_drop_min.symm

theorem turn?_pixels {written : ℕ} (h : r.stage = .pixels written)
    (hlt : written < r.image.pixels.size) (b : UInt8) (bs : List UInt8) :
    ∃ t, r.turn? b bs = some t ∧ r.Advances b bs t := by
  have hphase : r.capture.phase = .pixels written := by simp only [capture, phase, h]
  have hread : r.capture.receive (b :: bs) = _ := Capture.receive_pixels hphase
  obtain ⟨hturn, hfit, hdrop⟩ := turn?_eq_of_pixels h hlt b bs
  have htaken : (b :: bs.take (r.image.pixels.size - written - 1)).length ≤ bs.length + 1 :=
    Nat.succ_le_succ (List.length_take_le' _ _)
  refine ⟨_, hturn, Nat.succ_pos _, htaken, inRange_takePixels hfit, ?_⟩
  rw [capture_takePixels hfit, hdrop]
  exact hread

/-- **A turn.**  From registers in range, no access fails and some bytes are taken. -/
theorem InRange.turn? (h : r.InRange) (b : UInt8) (bs : List UInt8) :
    ∃ t, r.turn? b bs = some t ∧ r.Advances b bs t := by
  cases hs : r.stage with
  | seeking => exact turn?_seeking hs b bs
  | marked => exact turn?_marked hs b bs
  | header got =>
    simp only [InRange, hs] at h
    exact turn?_header hs h b bs
  | pixels written =>
    simp only [InRange, hs] at h
    exact turn?_pixels hs h b bs
  | checksum => exact turn?_checksum hs b bs

/-! ### Reads, turn by turn -/

theorem receive?_of_turn {t : Turn capacity} (h : r.turn? b bs = some t) (hpos : 0 < t.taken) :
    r.receive? (b :: bs) =
      if t.done then some (true, t.registers, t.notes)
      else do
        let (done, r, more) ← t.registers.receive? ((b :: bs).drop t.taken)
        return (done, r, t.notes ++ more) := by
  rw [receive?, h]
  exact if_neg (Nat.ne_of_gt hpos)

/-- **A read.**  From registers in range it has a result, which is that of the capture, and the
registers are in range again. -/
theorem InRange.receive? (h : r.InRange) (data : List UInt8) :
    ∃ r' : Registers capacity,
      r.receive? data = some ((r.capture.receive data).1, r', (r.capture.receive data).2.2) ∧
        r'.capture = (r.capture.receive data).2.1 ∧ r'.InRange := by
  -- a turn takes a byte at least, so less is left
  induction hn : data.length using Nat.strongRecOn generalizing r data with
  | ind n ih =>
  cases data with
  | nil =>
    rw [Registers.receive?, Capture.receive_nil]
    exact ⟨r, rfl, rfl, h⟩
  | cons b bs =>
    obtain ⟨t, hturn, hadv⟩ := h.turn? b bs
    have hread := hadv.receive
    rw [receive?_of_turn hturn hadv.pos]
    cases hdone : t.done with
    | true =>
      rw [hdone, if_pos rfl] at hread
      rw [hread]
      exact ⟨_, rfl, rfl, hadv.inRange⟩
    | false =>
      have hless : ((b :: bs).drop t.taken).length < n := by
        have := hadv.pos
        rw [List.length_drop, ← hn, List.length_cons]
        omega
      obtain ⟨r', hrest, hcapture, hin⟩ := ih _ hless hadv.inRange _ rfl
      rw [hdone, if_neg Bool.false_ne_true] at hread
      rw [hread, if_neg Bool.false_ne_true, hrest]
      exact ⟨r', rfl, hcapture, hin⟩

/-! ### Calls -/

/-- Calls lead from registers to others: every access is in range, and the flags and the capture
are those of `Capture`. -/
structure Runs (r : Registers capacity) (calls : List Capture.Call) (r' : Registers capacity) :
    Prop where
  /-- There is a result. -/
  result : r.actAll? calls = some ((r.capture.actAll calls).1.map Capture.Outcome.done, r')
  /-- It holds what the capture comes to. -/
  capture_eq : r'.capture = (r.capture.actAll calls).2

theorem InRange.act? (h : r.InRange) (a : Capture.Call) :
    ∃ r' : Registers capacity, r.act? a = some ((r.capture.act a).1.done, r') ∧
      r'.capture = (r.capture.act a).2 ∧ r'.InRange := by
  cases a with
  | push data =>
    obtain ⟨r', hread, hcapture, hin⟩ := h.receive? data
    refine ⟨r', ?_, hcapture, hin⟩
    simp only [Registers.act?, hread, Option.bind_eq_bind, Option.bind_some]
    rfl
  | withdraw => exact ⟨_, rfl, rfl, h⟩

theorem InRange.actAll? (h : r.InRange) (calls : List Capture.Call) :
    ∃ r', r.Runs calls r' ∧ r'.InRange := by
  induction calls generalizing r with
  | nil => exact ⟨r, ⟨rfl, rfl⟩, h⟩
  | cons a calls ih =>
    obtain ⟨r₁, hact, hcapture, hin₁⟩ := h.act? a
    obtain ⟨r', hruns, hin⟩ := ih hin₁
    refine ⟨r', ⟨?_, ?_⟩, hin⟩
    · simp only [Registers.actAll?, hact, hruns.result, hcapture, Option.bind_eq_bind,
        Option.bind_some]
      rfl
    · rw [hruns.capture_eq, hcapture]
      rfl

end Registers

end OnboardVision

import Mathlib.Data.List.Basic
import OnboardVision.Camera.Capture

/-!
# A read byte by byte

`Capture.receive` copies pixels as many at a time as there are.  That is the same as taking the
bytes one by one (`Capture.receive_cons`), so what a read does is known from `Capture.feed`, which
takes one byte.  There is one lemma for each phase, and `Capture.consumed` says which bytes of a read
are taken at all.
-/

namespace OnboardVision

namespace Image

variable {capacity : ℕ}

theorem size_of_filled? {w h : UInt16} {luma : UInt8} {im : Image capacity}
    (hf : filled? w h luma = some im) : im.width = w ∧ im.height = h := by
  unfold filled? at hf
  split at hf
  · cases hf
    exact ⟨rfl, rfl⟩
  · cases hf

theorem write_append (a : Array UInt8) (i : ℕ) (xs ys : List UInt8) :
    write a i (xs ++ ys) = write (write a i xs) (i + xs.length) ys := by
  induction xs generalizing a i with
  | nil => rfl
  | cons b xs ih =>
    rw [List.cons_append, write, ih, List.length_cons, Nat.add_assoc, Nat.add_comm 1]
    rfl

theorem overwrite_append (im : Image capacity) (i : ℕ) (xs ys : List UInt8) :
    im.overwrite i (xs ++ ys) = (im.overwrite i xs).overwrite (i + xs.length) ys := by
  simp only [overwrite, withPixels, write_append]

/-- Bytes that fit replace as many others. -/
theorem toList_write (a : Array UInt8) (i : ℕ) (bytes : List UInt8)
    (h : i + bytes.length ≤ a.size) :
    (write a i bytes).toList = a.toList.take i ++ bytes ++ a.toList.drop (i + bytes.length) := by
  induction bytes generalizing a i with
  | nil => simp [write]
  | cons b bytes ih =>
    rw [List.length_cons] at h ⊢
    have hfit : i + 1 + bytes.length ≤ (a.setIfInBounds i b).size := by
      rw [Array.size_setIfInBounds]
      omega
    have hset : a.toList.set i b = a.toList.take i ++ [b] ++ a.toList.drop (i + 1) := by
      rw [List.set_eq_take_append_cons_drop, if_pos (by rw [Array.length_toList]; omega)]
      simp
    have htake : (a.toList.take i ++ [b]).length = i + 1 := by
      rw [List.length_append, List.length_take, Array.length_toList, List.length_singleton]
      omega
    rw [write, ih _ _ hfit, Array.toList_setIfInBounds, hset, List.take_left' htake,
      ← List.drop_drop, List.drop_left' htake, List.drop_drop]
    simp [Nat.add_comm, Nat.add_left_comm]

@[simp] theorem size_overwrite (im : Image capacity) (i : ℕ) (bytes : List UInt8) :
    (im.overwrite i bytes).pixels.size = im.pixels.size := size_write _ _ _

end Image

namespace Capture

variable {capacity : ℕ} {c c' : Capture capacity} {b : UInt8} {bs : List UInt8}

/-! ### A read in its phases -/

@[simp] theorem receive_nil (c : Capture capacity) : c.receive [] = (false, c, []) := by
  rw [receive]

theorem receive_seeking (h : c.phase = .seeking) : c.receive (b :: bs) = (c.seek b).receive bs := by
  rw [receive, h]

theorem receive_marked (h : c.phase = .marked) : c.receive (b :: bs) = (c.mark b).receive bs := by
  rw [receive, h]

theorem receive_header {received : List UInt8} (h : c.phase = .header received) :
    c.receive (b :: bs) =
      let (c, notes) := c.takeHeader received b
      let (done, c, more) := c.receive bs
      (done, c, notes ++ more) := by
  rw [receive, h]

theorem receive_pixels {written : ℕ} (h : c.phase = .pixels written) :
    c.receive (b :: bs) =
      let room := c.image.pixels.size - written - 1
      (c.takePixels written (b :: bs.take room)).receive (bs.drop room) := by
  rw [receive, h]

theorem receive_checksum (h : c.phase = .checksum) :
    c.receive (b :: bs) =
      let (done, c, notes) := c.verify b
      if done then (true, c, notes)
      else
        let (done, c, more) := c.receive bs
        (done, c, notes ++ more) := by
  rw [receive, h]

/-! ### Pixels one by one -/

theorem takePixels_append (c : Capture capacity) (written : ℕ) (xs ys : List UInt8) :
    c.takePixels written (xs ++ ys) =
      (c.takePixels written xs).takePixels (written + xs.length) ys := by
  simp only [takePixels, Image.overwrite_append, Image.size_overwrite, Checksum.addAll,
    List.foldl_append, List.length_append, Nat.add_assoc]

/-- Pixels that are copied together may as well come one behind the other. -/
theorem receive_takePixels (c : Capture capacity) (written : ℕ) (b : UInt8) (bs : List UInt8) :
    (c.takePixels written [b]).receive bs =
      (c.takePixels written (b :: bs.take (c.image.pixels.size - written - 1))).receive
        (bs.drop (c.image.pixels.size - written - 1)) := by
  cases bs with
  | nil => simp
  | cons b' bs =>
    cases hroom : c.image.pixels.size - written - 1 with
    | zero => rfl
    | succ room =>
      -- there is room for more than this one, so the phase stays
      have hphase : (c.takePixels written [b]).phase = .pixels (written + 1) :=
        if_neg (by rw [List.length_singleton]; omega)
      have hroom' : (c.takePixels written [b]).image.pixels.size - (written + 1) - 1 = room := by
        simp only [takePixels, Image.size_overwrite]
        omega
      have hsplit := c.takePixels_append written [b] (b' :: bs.take room)
      rw [List.singleton_append, List.length_singleton] at hsplit
      rw [receive_pixels hphase, hroom', List.take_succ_cons, List.drop_succ_cons, hsplit]

/-- **A read is its first byte and then the others.** -/
theorem receive_cons (c : Capture capacity) (b : UInt8) (bs : List UInt8) :
    c.receive (b :: bs) =
      let (done, c, notes) := c.receive [b]
      if done then (true, c, notes)
      else
        let (done, c, more) := c.receive bs
        (done, c, notes ++ more) := by
  cases h : c.phase with
  | seeking => simp [receive_seeking h]
  | marked => simp [receive_marked h]
  | header received => simp [receive_header h]
  | pixels written => simp [receive_pixels h, receive_takePixels]
  | checksum =>
    rw [receive_checksum h, receive_checksum h]
    rcases c.verify b with ⟨done, c', notes⟩
    cases done <;> simp

/-! ### One byte -/

/-- Takes one byte; the flag tells whether it completes a frame. -/
def feed (c : Capture capacity) (b : UInt8) : Bool × Capture capacity :=
  ((c.receive [b]).1, (c.receive [b]).2.1)

theorem receive_of_feed_true (bs : List UInt8) (h : c.feed b = (true, c')) :
    ∃ notes, c.receive (b :: bs) = (true, c', notes) := by
  rw [receive_cons]
  rcases hone : c.receive [b] with ⟨done, c₁, notes⟩
  rw [feed, hone] at h
  cases h
  exact ⟨notes, rfl⟩

theorem receive_of_feed_false (bs : List UInt8) (h : c.feed b = (false, c')) :
    ∃ notes, c.receive (b :: bs) = ((c'.receive bs).1, (c'.receive bs).2.1, notes) := by
  rw [receive_cons]
  rcases hone : c.receive [b] with ⟨done, c₁, notes⟩
  rw [feed, hone] at h
  cases h
  exact ⟨_, rfl⟩

theorem feed_seeking (h : c.phase = .seeking) : c.feed b = (false, c.seek b) := by
  rw [feed, receive_seeking h, receive_nil]

theorem feed_marked (h : c.phase = .marked) : c.feed b = (false, c.mark b) := by
  rw [feed, receive_marked h, receive_nil]

theorem feed_header {received : List UInt8} (h : c.phase = .header received) :
    c.feed b = (false, (c.takeHeader received b).1) := by
  rw [feed, receive_header h]
  simp

theorem feed_pixels {written : ℕ} (h : c.phase = .pixels written) :
    c.feed b = (false, c.takePixels written [b]) := by
  rw [feed, receive_pixels h]
  simp

theorem feed_checksum (h : c.phase = .checksum) :
    c.feed b = if b = c.crc then (true, { c with phase := .seeking, ready := true })
      else (false, { c with phase := .seeking }) := by
  by_cases hb : b = c.crc <;> simp [feed, receive_checksum h, verify, hb]

/-! ### The bytes that count -/

/-- The bytes of a read that are taken: those up to the end of the first complete frame. -/
def consumed (c : Capture capacity) : List UInt8 → List UInt8
  | [] => []
  | b :: bs => b :: if (c.feed b).1 then [] else (c.feed b).2.consumed bs

theorem consumed_of_feed_true (h : c.feed b = (true, c')) : c.consumed (b :: bs) = [b] := by
  rw [consumed, h]
  rfl

theorem consumed_of_feed_false (h : c.feed b = (false, c')) :
    c.consumed (b :: bs) = b :: c'.consumed bs := by
  rw [consumed, h]
  rfl

/-- **Induction along a read.**  `I` holds before every byte that is taken; the read ends with its
bytes or with a complete frame. -/
theorem receive_induction {I : Capture capacity → List UInt8 → Prop}
    {motive : Bool → Capture capacity → List UInt8 → Prop}
    (ended : ∀ c taken, I c taken → motive false c taken)
    (step : ∀ c taken b c', I c taken → c.feed b = (false, c') → I c' (taken ++ [b]))
    (complete : ∀ c taken b c', I c taken → c.feed b = (true, c') → motive true c' (taken ++ [b]))
    (data taken : List UInt8) (c : Capture capacity) (h : I c taken) :
    motive (c.receive data).1 (c.receive data).2.1 (taken ++ c.consumed data) := by
  induction data generalizing c taken with
  | nil =>
    rw [receive_nil, consumed, List.append_nil]
    exact ended c taken h
  | cons b bs ih =>
    rcases hfeed : c.feed b with ⟨_ | _, c'⟩
    · obtain ⟨notes, hread⟩ := receive_of_feed_false bs hfeed
      have := ih (taken ++ [b]) c' (step c taken b c' h hfeed)
      rw [hread, consumed_of_feed_false hfeed, List.append_cons]
      exact this
    · obtain ⟨notes, hread⟩ := receive_of_feed_true bs hfeed
      rw [hread, consumed_of_feed_true hfeed]
      exact complete c taken b c' h hfeed

end Capture

end OnboardVision

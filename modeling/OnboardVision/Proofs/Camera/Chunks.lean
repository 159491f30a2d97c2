import OnboardVision.Proofs.Camera.Reception
import OnboardVision.Proofs.Camera.Registers

/-!
# Reads of any length

Pixels are copied as many at a time as a read has, so where the reads of a stream end decides which
copies are made.  It decides nothing else, as long as no read goes on behind a byte that completes a
frame: `Registers.chunks_eq_bytes` says that such reads leave the same registers as the same bytes
one by one, cell for cell, and complete as many frames.  A read that does go on is that read cut off
behind the frame.
-/

namespace OnboardVision

namespace Capture

variable {capacity : ℕ} {c : Capture capacity}

/-- A read completes a frame with its last byte or not at all. -/
def WithinFrame (c : Capture capacity) (data : List UInt8) : Prop :=
  ∀ front back, data = front ++ back → (c.receive front).1 = true → back = []

/-- So does each of several reads, one behind the other. -/
def WithinFrames (c : Capture capacity) : List (List UInt8) → Prop
  | [] => True
  | data :: chunks => c.WithinFrame data ∧ (c.receive data).2.1.WithinFrames chunks

/-- How many of the calls complete a frame. -/
def completions (c : Capture capacity) (calls : List Call) : ℕ :=
  (c.actAll calls).1.countP Outcome.done

/-- A read for each byte. -/
def byteReads (data : List UInt8) : List Call := data.map fun b => .push [b]

theorem byteReads_cons (b : UInt8) (bs : List UInt8) :
    byteReads (b :: bs) = [.push [b]] ++ byteReads bs := rfl

theorem byteReads_append (xs ys : List UInt8) :
    byteReads (xs ++ ys) = byteReads xs ++ byteReads ys := List.map_append

theorem actAll_append (c : Capture capacity) (as bs : List Call) :
    c.actAll (as ++ bs) =
      ((c.actAll as).1 ++ ((c.actAll as).2.actAll bs).1, ((c.actAll as).2.actAll bs).2) := by
  induction as generalizing c with
  | nil => rfl
  | cons a as ih => simp only [List.cons_append, actAll, ih]

theorem completions_append (c : Capture capacity) (as bs : List Call) :
    c.completions (as ++ bs) = c.completions as + (c.actAll as).2.completions bs := by
  simp only [completions, actAll_append, List.countP_append]

theorem completions_push (c : Capture capacity) (data : List UInt8) :
    c.completions [.push data] = (c.receive data).1.toNat := by
  simp only [completions, actAll, act, List.countP_cons, List.countP_nil, Outcome.done]
  cases (c.receive data).1 <;> rfl

theorem WithinFrame.eq_nil {b : UInt8} {bs : List UInt8} (h : c.WithinFrame (b :: bs))
    (hone : (c.receive [b]).1 = true) : bs = [] := h [b] bs rfl hone

/-- What is left of a read behind its first byte. -/
theorem WithinFrame.tail {b : UInt8} {bs : List UInt8} (h : c.WithinFrame (b :: bs))
    (hone : (c.receive [b]).1 = false) : (c.receive [b]).2.1.WithinFrame bs := by
  rintro front back rfl hfront
  refine h (b :: front) back rfl ?_
  obtain ⟨notes, hread⟩ := receive_append_of_not_done hone front
  rw [List.singleton_append] at hread
  rw [hread]
  exact hfront

end Capture

namespace Registers

open Capture (Call)

variable {capacity : ℕ} {r r' : Registers capacity} {b : UInt8} {bs : List UInt8}

/-! ### Pixels -/

theorem takePixels_append (r : Registers capacity) (written : ℕ) (xs ys : List UInt8) :
    r.takePixels written (xs ++ ys) =
      (r.takePixels written xs).takePixels (written + xs.length) ys := by
  simp only [takePixels, Image.overwrite_append, Image.size_overwrite, Checksum.addAll,
    List.foldl_append, List.length_append, Nat.add_assoc]

theorem receive?_pixels {written : ℕ} (h : r.stage = .pixels written)
    (hlt : written < r.image.pixels.size) (b : UInt8) (bs : List UInt8) :
    r.receive? (b :: bs) =
      (r.takePixels written (b :: bs.take (r.image.pixels.size - written - 1))).receive?
        (bs.drop (r.image.pixels.size - written - 1)) := by
  obtain ⟨hturn, -, hdrop⟩ := turn?_eq_of_pixels h hlt b bs
  rw [receive?_of_turn hturn (Nat.succ_pos _), if_neg Bool.false_ne_true, hdrop]
  rcases (r.takePixels written (b :: bs.take (r.image.pixels.size - written - 1))).receive?
    (bs.drop (r.image.pixels.size - written - 1)) with _ | ⟨done, r', notes⟩ <;> rfl

/-- Pixels that are copied together may as well come one behind the other. -/
theorem receive?_takePixels {written : ℕ} (hlt : written < r.image.pixels.size) (b : UInt8)
    (bs : List UInt8) :
    (r.takePixels written [b]).receive? bs =
      (r.takePixels written (b :: bs.take (r.image.pixels.size - written - 1))).receive?
        (bs.drop (r.image.pixels.size - written - 1)) := by
  cases bs with
  | nil => simp
  | cons b' bs =>
    cases hroom : r.image.pixels.size - written - 1 with
    | zero => rfl
    | succ room =>
      -- there is room for more than this one, so the stage stays
      have hstage : (r.takePixels written [b]).stage = .pixels (written + 1) :=
        if_neg (by rw [List.length_singleton]; omega)
      have hsize : (r.takePixels written [b]).image.pixels.size = r.image.pixels.size :=
        Image.size_overwrite _ _ _
      have hsplit := r.takePixels_append written [b] (b' :: bs.take room)
      rw [List.singleton_append, List.length_singleton] at hsplit
      have hroom' : (r.takePixels written [b]).image.pixels.size - (written + 1) - 1 = room := by
        omega
      rw [receive?_pixels hstage (by omega), hroom', List.take_succ_cons, List.drop_succ_cons,
        hsplit]

/-! ### Reads byte by byte -/

/-- Outside the pixels a turn looks at one byte. -/
theorem turn?_eq_of_not_pixels (h : ∀ written, r.stage ≠ .pixels written) (b : UInt8)
    (bs : List UInt8) : r.turn? b bs = r.turn? b [] := by
  unfold turn?
  split
  case h_4 written hs => exact absurd hs (h written)
  all_goals rfl

/-- **A read is its first byte and then the others.** -/
theorem receive?_cons (h : r.InRange) (b : UInt8) (bs : List UInt8) :
    r.receive? (b :: bs) = do
      let (done, r, notes) ← r.receive? [b]
      if done then return (true, r, notes)
      else
        let (done, r, more) ← r.receive? bs
        return (done, r, notes ++ more) := by
  by_cases hs : ∃ written, r.stage = .pixels written
  · obtain ⟨written, hs⟩ := hs
    simp only [InRange, hs] at h
    rw [receive?_pixels hs h b bs, receive?_pixels hs h b [], ← receive?_takePixels h,
      ← receive?_takePixels h, receive?, Option.bind_eq_bind, Option.bind_some]
    dsimp only
    rcases (r.takePixels written [b]).receive? bs with _ | ⟨done, r', notes⟩ <;> rfl
  · obtain ⟨t, hturn, hadv⟩ := h.turn? b []
    -- the one byte that there is makes up the turn
    have htaken : t.taken = 1 := Nat.le_antisymm hadv.le hadv.pos
    have hturn' : r.turn? b bs = some t := by
      rw [turn?_eq_of_not_pixels (not_exists.1 hs), hturn]
    rw [receive?_of_turn hturn' hadv.pos, receive?_of_turn hturn hadv.pos, htaken]
    cases t.done with
    | true => rfl
    | false => simp [receive?]

theorem receive?_cons_of_done (h : r.InRange) {notes : List Note}
    (hone : r.receive? [b] = some (true, r', notes)) (bs : List UInt8) :
    r.receive? (b :: bs) = some (true, r', notes) := by
  rw [receive?_cons h, hone]
  rfl

theorem receive?_cons_of_not_done (h : r.InRange) {r₁ : Registers capacity} {done : Bool}
    {notes more : List Note} (hone : r.receive? [b] = some (false, r₁, notes))
    (hrest : r₁.receive? bs = some (done, r', more)) :
    r.receive? (b :: bs) = some (done, r', notes ++ more) := by
  rw [receive?_cons h, hone]
  simp [hrest]

/-- A read that completes a frame with its first part is that part of it. -/
theorem receive?_append_of_done (h : r.InRange) {xs : List UInt8}
    (hx : (r.capture.receive xs).1 = true) (ys : List UInt8) :
    r.receive? (xs ++ ys) = r.receive? xs := by
  induction xs generalizing r with
  | nil =>
    rw [Capture.receive_nil] at hx
    cases hx
  | cons b xs ih =>
    obtain ⟨r₁, hone, hcapture, hin⟩ := h.receive? [b]
    cases hdone : (r.capture.receive [b]).1 with
    | true =>
      rw [hdone] at hone
      rw [List.cons_append, receive?_cons_of_done h hone, receive?_cons_of_done h hone]
    | false =>
      rw [hdone] at hone
      obtain ⟨notes, hread⟩ := Capture.receive_append_of_not_done hdone xs
      rw [List.singleton_append] at hread
      rw [hread, ← hcapture] at hx
      obtain ⟨r₂, hrest, -, -⟩ := hin.receive? xs
      have hrest' := (ih hin hx).trans hrest
      rw [List.cons_append, receive?_cons_of_not_done h hone hrest,
        receive?_cons_of_not_done h hone hrest']

/-! ### Calls -/

theorem actAll?_append {r₁ : Registers capacity} {flags more : List Bool} {as bs : List Call}
    (ha : r.actAll? as = some (flags, r₁)) (hb : r₁.actAll? bs = some (more, r')) :
    r.actAll? (as ++ bs) = some (flags ++ more, r') := by
  induction as generalizing r flags with
  | nil =>
    cases ha
    exact hb
  | cons a as ih =>
    simp only [actAll?, Option.bind_eq_bind, Option.bind_eq_some_iff] at ha
    obtain ⟨⟨done, r₂⟩, hact, ⟨flags₂, r₃⟩, hrest, hsome⟩ := ha
    cases hsome
    simp [actAll?, hact, ih hrest]

theorem Runs.trans {r₁ : Registers capacity} {as bs : List Call} (ha : r.Runs as r₁)
    (hb : r₁.Runs bs r') : r.Runs (as ++ bs) r' := by
  have hresult := actAll?_append ha.result hb.result
  have hcapture := hb.capture_eq
  rw [ha.capture_eq] at hresult hcapture
  rw [← List.map_append] at hresult
  exact ⟨by rw [hresult, Capture.actAll_append], by rw [hcapture, Capture.actAll_append]⟩

theorem runs_push {data : List UInt8} {notes : List Note}
    (hread : r.receive? data = some ((r.capture.receive data).1, r', notes))
    (hcapture : r'.capture = (r.capture.receive data).2.1) : r.Runs [.push data] r' := by
  refine ⟨?_, hcapture⟩
  simp only [actAll?, act?, hread, Option.bind_eq_bind, Option.bind_some]
  rfl

/-- From `r`, the one calls come to the same registers as the others, and complete as many
frames. -/
def Agree (r : Registers capacity) (calls calls' : List Call) : Prop :=
  ∃ r' : Registers capacity, r.Runs calls r' ∧ r.Runs calls' r' ∧
    r.capture.completions calls = r.capture.completions calls'

/-- Calls that agree go on behind calls that agree. -/
theorem Agree.append {r₁ : Registers capacity} {as as' bs bs' : List Call} (ha : r.Runs as r₁)
    (ha' : r.Runs as' r₁) (hcount : r.capture.completions as = r.capture.completions as')
    (hb : r₁.Agree bs bs') : r.Agree (as ++ bs) (as' ++ bs') := by
  obtain ⟨r', hruns, hruns', hmore⟩ := hb
  refine ⟨r', ha.trans hruns, ha'.trans hruns', ?_⟩
  rw [Capture.completions_append, Capture.completions_append, hcount, ← ha.capture_eq,
    ← ha'.capture_eq, hmore]

/-- The bytes of a read that ends with its frame, one by one. -/
theorem InRange.runs_byteReads (h : r.InRange) {data : List UInt8} {done : Bool}
    {notes : List Note} (hw : r.capture.WithinFrame data)
    (hread : r.receive? data = some (done, r', notes)) :
    r.Runs (Capture.byteReads data) r' ∧
      r.capture.completions (Capture.byteReads data) = done.toNat := by
  induction data generalizing r notes with
  | nil =>
    rw [Registers.receive?] at hread
    cases hread
    exact ⟨⟨rfl, rfl⟩, rfl⟩
  | cons b bs ih =>
    obtain ⟨r₁, hone, hcapture, hin⟩ := h.receive? [b]
    have hstep : r.Runs [.push [b]] r₁ := runs_push hone hcapture
    have hcount := r.capture.completions_push [b]
    cases hdone : (r.capture.receive [b]).1 with
    | true =>
      obtain rfl := hw.eq_nil hdone
      rw [hone, hdone] at hread
      cases hread
      rw [hdone] at hcount
      exact ⟨hstep, hcount⟩
    | false =>
      rw [hdone] at hone hcount
      obtain ⟨r₂, hrest, -, -⟩ := hin.receive? bs
      rw [receive?_cons_of_not_done h hone hrest] at hread
      cases hread
      obtain ⟨hruns, hmore⟩ := ih hin (hcapture ▸ hw.tail hdone) hrest
      rw [Capture.byteReads_cons]
      refine ⟨hstep.trans hruns, ?_⟩
      rw [Capture.completions_append, ← hstep.capture_eq, hcount, hmore]
      exact Nat.zero_add _

/-- Reads that end with their frames, and the bytes of all of them one by one. -/
theorem InRange.agree_byteReads (h : r.InRange) {chunks : List (List UInt8)}
    (hw : r.capture.WithinFrames chunks) :
    r.Agree (chunks.map .push) (Capture.byteReads chunks.flatten) := by
  induction chunks generalizing r with
  | nil => exact ⟨r, ⟨rfl, rfl⟩, ⟨rfl, rfl⟩, rfl⟩
  | cons data chunks ih =>
    obtain ⟨hdata, hchunks⟩ := hw
    obtain ⟨r₁, hread, hcapture, hin⟩ := h.receive? data
    have hstep : r.Runs [.push data] r₁ := runs_push hread hcapture
    obtain ⟨hbytes, hcount⟩ := h.runs_byteReads hdata hread
    rw [← Capture.completions_push] at hcount
    have hrest := ih hin (hcapture ▸ hchunks)
    rw [List.flatten_cons, Capture.byteReads_append]
    exact Agree.append hstep hbytes hcount.symm hrest

/-- A read that goes on behind a complete frame, and its part up to there. -/
theorem InRange.agree_cut (h : r.InRange) {front : List UInt8}
    (hfront : (r.capture.receive front).1 = true) (back : List UInt8) :
    r.Agree [.push (front ++ back)] [.push front] := by
  obtain ⟨r₁, hread, hcapture, -⟩ := h.receive? (front ++ back)
  obtain ⟨r₂, hcut, hcapture', -⟩ := h.receive? front
  obtain ⟨hdone, rfl, -⟩ : (r.capture.receive (front ++ back)).1 = (r.capture.receive front).1 ∧
      r₁ = r₂ ∧ (r.capture.receive (front ++ back)).2.2 = (r.capture.receive front).2.2 := by
    rw [receive?_append_of_done h hfront, hcut] at hread
    simp only [Option.some.injEq, Prod.mk.injEq] at hread
    exact ⟨hread.1.symm, hread.2.1.symm, hread.2.2.symm⟩
  refine ⟨r₁, runs_push hread hcapture, runs_push hcut hcapture', ?_⟩
  rw [Capture.completions_push, Capture.completions_push, hdone]

/-- **Reads of any length.**  Whatever calls came before, reads none of which goes on behind a
complete frame leave every register as the same bytes one by one do, and complete as many frames.  A
read that does go on behind a complete frame comes to the same as its part up to there. -/
theorem chunks_eq_bytes (calls : List Call) :
    ∃ r : Registers capacity, Runs {} calls r ∧
      (∀ chunks, r.capture.WithinFrames chunks →
        r.Agree (chunks.map .push) (Capture.byteReads chunks.flatten)) ∧
      ∀ front back, (r.capture.receive front).1 = true →
        r.Agree [.push (front ++ back)] [.push front] := by
  have hfresh : ({} : Registers capacity).InRange := trivial
  obtain ⟨r, hruns, hin⟩ := hfresh.actAll? calls
  exact ⟨r, hruns, fun _ hw => hin.agree_byteReads hw, fun _ back hf => hin.agree_cut hf back⟩

end Registers

end OnboardVision

import Mathlib.Data.List.Infix
import OnboardVision.Proofs.Camera.Bytes
import OnboardVision.Proofs.Checksum.Residue
import OnboardVision.Proofs.History

/-!
# The frame on offer

One buffer serves the frame in progress and the frame on offer.  `Capture.Follows` says what both
have to do with the bytes taken so far: a frame in progress is in the bytes as far as it has come
(`Capture.Tracks`), and what is on offer is settled by the bytes behind the last complete frame
(`Capture.Offers`).  Every call keeps it (`Capture.Follows.act`), hence every sequence of calls
(`Capture.Follows.actAll`).

Main statement:

* `Capture.image?_actAll`: a capture hands out an image exactly while the last complete frame is
  neither withdrawn nor followed by the start of another, and the image is what the bytes of that
  frame say.
-/

namespace OnboardVision

namespace Camera

/-- What begins a frame. -/
def marker : List UInt8 := [sync, frameMark]

theorem word_ofNat (lo hi : UInt8) :
    word (UInt16.ofNat (lo.toNat + 256 * hi.toNat)) = [lo, hi] := by
  have hlo := lo.toNat_lt
  have hhi := hi.toNat_lt
  have hval : (UInt16.ofNat (lo.toNat + 256 * hi.toNat)).toNat = lo.toNat + 256 * hi.toNat :=
    UInt16.toNat_ofNat_of_lt' (by simp only [UInt16.size]; omega)
  have hmod : (lo.toNat + 256 * hi.toNat) % 256 = lo.toNat := by omega
  have hdiv : (lo.toNat + 256 * hi.toNat) / 256 = hi.toNat := by omega
  rw [word, hval, hmod, hdiv, UInt8.ofNat_toNat, UInt8.ofNat_toNat]

/-- A size is read from its own bytes only. -/
theorem eq_header_of_sizeOf? {bytes : List UInt8} {w h : UInt16}
    (hs : sizeOf? bytes = some (w, h)) : bytes = header w h := by
  unfold sizeOf? at hs
  split at hs
  · simp only [Option.some.injEq, Prod.mk.injEq] at hs
    rw [← hs.1, ← hs.2, header, word_ofNat, word_ofNat]
    rfl
  · cases hs

theorem marker_infix_concat {l : List UInt8} {b : UInt8} :
    marker <:+: l ++ [b] ↔ marker <:+: l ∨ (l.getLast? = some sync ∧ b = frameMark) := by
  have hsuffix : marker <:+ l ++ [b] ↔ l.getLast? = some sync ∧ b = frameMark := by
    constructor
    · rintro ⟨front, h⟩
      have h' : front ++ [sync] ++ [frameMark] = l ++ [b] := by simpa [marker] using h
      obtain ⟨rfl, hb⟩ := List.append_inj' h' rfl
      simp at hb
      exact ⟨by simp, hb.symm⟩
    · rintro ⟨hl, rfl⟩
      obtain ⟨front, rfl⟩ := List.getLast?_eq_some_iff.1 hl
      exact ⟨front, by simp [marker]⟩
  rw [List.infix_concat_iff, hsuffix, or_comm]

end Camera

namespace Capture

variable {capacity : ℕ} {c c' : Capture capacity} {b : UInt8} {taken : List UInt8}

/-- The bytes end in a start marker and `body`, which has the checksum `crc`. -/
def Behind (crc : UInt8) (taken body : List UInt8) : Prop :=
  crc = Checksum.ofBytes body ∧ Camera.marker ++ body <:+ taken

/-- There are pixels. -/
def Sized (im : Image capacity) : Prop := im.width ≠ 0 ∧ im.height ≠ 0

theorem Sized.size_pos {im : Image capacity} (h : Sized im) : 0 < im.pixels.size := by
  rw [im.size_eq]
  refine Nat.mul_pos (Nat.pos_of_ne_zero fun h0 => ?_) (Nat.pos_of_ne_zero fun h0 => ?_)
  · exact h.1 (UInt16.toNat_inj.1 h0)
  · exact h.2 (UInt16.toNat_inj.1 h0)

/-- The header of the buffer, and its first `n` pixels. -/
def contents (im : Image capacity) (n : ℕ) : List UInt8 :=
  Camera.header im.width im.height ++ im.pixels.toList.take n

/-- The phase says how far the frame in progress is in the bytes taken. -/
def Tracks (c : Capture capacity) (taken : List UInt8) : Prop :=
  match c.phase with
  | .seeking => True
  | .marked => [Camera.sync] <:+ taken
  | .header received => received.length < 4 ∧ Behind c.crc taken received
  | .pixels written => Sized c.image ∧ written < c.image.pixels.size ∧
      Behind c.crc taken (contents c.image written)
  | .checksum => Sized c.image ∧ Behind c.crc taken (contents c.image c.image.pixels.size)

theorem Behind.add {crc : UInt8} {body : List UInt8} (h : Behind crc taken body) :
    Behind (Checksum.add crc b) (taken ++ [b]) (body ++ [b]) := by
  obtain ⟨rfl, front, rfl⟩ := h
  refine ⟨?_, front, by simp⟩
  rw [Checksum.ofBytes_append]
  rfl

theorem contents_overwrite {im : Image capacity} {n : ℕ} (h : n < im.pixels.size) :
    contents (im.overwrite n [b]) (n + 1) = contents im n ++ [b] := by
  have hpix : (im.overwrite n [b]).pixels.toList.take (n + 1) = im.pixels.toList.take n ++ [b] := by
    change (Image.write im.pixels n [b]).toList.take (n + 1) = _
    rw [Image.toList_write _ _ _ h]
    refine List.take_left' ?_
    rw [List.length_append, List.length_take, Array.length_toList, List.length_singleton]
    omega
  rw [contents, hpix, ← List.append_assoc]
  rfl

/-- A header that is accepted has made room for its pixels; any other is given up. -/
theorem begin_spec (c : Capture capacity) (received : List UInt8) :
    (c.begin received).1 = { c with phase := .seeking } ∨
      ∃ im : Image capacity, (c.begin received).1 = { c with phase := .pixels 0, image := im } ∧
        Sized im ∧ contents im 0 = received := by
  unfold begin
  split
  · exact .inl rfl
  · rename_i w h hs
    split
    · exact .inl rfl
    · rename_i hne
      rw [not_or] at hne
      split
      · rename_i im him
        obtain ⟨rfl, rfl⟩ := Image.size_of_filled? him
        refine .inr ⟨im, rfl, hne, ?_⟩
        rw [contents, List.take_zero, List.append_nil, Camera.eq_header_of_sizeOf? hs]
      · exact .inl rfl

theorem tracks_seek (hp : c.phase = .seeking) : (c.seek b).Tracks (taken ++ [b]) := by
  rw [seek]
  split
  · rename_i hb
    exact ⟨taken, by rw [hb]⟩
  · simp only [Tracks, hp]

theorem tracks_mark (hp : c.phase = .marked) (h : [Camera.sync] <:+ taken) :
    (c.mark b).Tracks (taken ++ [b]) := by
  rw [mark]
  split
  · rename_i hb
    obtain ⟨front, rfl⟩ := h
    exact ⟨by decide, rfl, front, by simp [Camera.marker, hb]⟩
  · split
    · rename_i hb
      simp only [Tracks, hp]
      exact ⟨taken, by rw [hb]⟩
    · trivial

theorem tracks_takeHeader {received : List UInt8} (h : Behind c.crc taken received) :
    (c.takeHeader received b).1.Tracks (taken ++ [b]) := by
  rw [takeHeader]
  dsimp only
  split
  · rename_i hlt
    exact ⟨hlt, h.add⟩
  · rcases begin_spec { c with crc := Checksum.add c.crc b } (received ++ [b]) with
      heq | ⟨im, heq, hsized, hcontents⟩
    · rw [heq]
      trivial
    · rw [heq]
      exact ⟨hsized, hsized.size_pos, hcontents ▸ h.add⟩

theorem tracks_takePixels {written : ℕ} (hsized : Sized c.image)
    (hlt : written < c.image.pixels.size) (h : Behind c.crc taken (contents c.image written)) :
    (c.takePixels written [b]).Tracks (taken ++ [b]) := by
  have hadd := contents_overwrite (b := b) hlt ▸ h.add (b := b)
  have hsize : (c.image.overwrite written [b]).pixels.size = c.image.pixels.size :=
    Image.size_overwrite _ _ _
  rw [takePixels, List.length_singleton]
  split
  · rename_i hlast
    obtain hlast : c.image.pixels.size = written + 1 := by omega
    refine ⟨hsized, ?_⟩
    rw [hsize, hlast]
    exact hadd
  · rename_i hmore
    exact ⟨hsized, by rw [hsize]; exact Nat.lt_of_not_le hmore, hadd⟩

/-- One more byte. -/
theorem Tracks.feed (h : c.Tracks taken) (b : UInt8) : (c.feed b).2.Tracks (taken ++ [b]) := by
  cases hp : c.phase with
  | seeking =>
    rw [feed_seeking hp]
    exact tracks_seek hp
  | marked =>
    simp only [Tracks, hp] at h
    rw [feed_marked hp]
    exact tracks_mark hp h
  | header received =>
    simp only [Tracks, hp] at h
    rw [feed_header hp]
    exact tracks_takeHeader h.2
  | pixels written =>
    simp only [Tracks, hp] at h
    obtain ⟨hsized, hlt, hbehind⟩ := h
    rw [feed_pixels hp]
    exact tracks_takePixels hsized hlt hbehind
  | checksum =>
    rw [feed_checksum hp]
    split <;> trivial

/-! ### The frame on offer -/

theorem image?_of_not_ready (h : c.ready = false) : c.image? = none := by
  rw [image?, h]
  rfl

/-- The bytes end in a frame with the size and the pixels of the image. -/
def EndsIn (taken : List UInt8) (im : Image capacity) : Prop :=
  Sized im ∧ Camera.encodeFrame im.width im.height im.pixels.toList <:+ taken

/-- The buffer holds the last complete frame, and what came in behind it is stray. -/
structure Idles (c : Capture capacity) (taken later : List UInt8) : Prop where
  /-- The frame is handed out. -/
  ready : c.ready = true
  /-- No other frame is in progress. -/
  phase : c.phase = if later.getLast? = some Camera.sync then .marked else .seeking
  /-- The frame came in. -/
  frame : ∃ front, taken = front ++ later ∧ EndsIn front c.image

/-- What is on offer, given the bytes taken behind the last complete frame, if that was not
withdrawn. -/
def Offers (c : Capture capacity) (taken : List UInt8) : Option (List UInt8) → Prop
  | some later => (Camera.marker <:+: later ∧ c.ready = false) ∨
      (¬ Camera.marker <:+: later ∧ c.Idles taken later)
  | none => c.ready = false

/-- Only a complete frame is handed out. -/
theorem ready_of_feed_false (h : c.feed b = (false, c')) (hr : c.ready = false) :
    c'.ready = false := by
  cases hp : c.phase with
  | seeking =>
    rw [feed_seeking hp, seek] at h
    split at h <;> (cases h; exact hr)
  | marked =>
    rw [feed_marked hp, mark] at h
    split at h
    · cases h
      rfl
    · split at h <;> (cases h; exact hr)
  | header received =>
    rw [feed_header hp, takeHeader] at h
    dsimp only at h
    split at h
    · cases h
      exact hr
    · rcases begin_spec { c with crc := Checksum.add c.crc b } (received ++ [b]) with
        heq | ⟨im, heq, -, -⟩ <;> (rw [heq] at h; cases h; exact hr)
  | pixels written =>
    rw [feed_pixels hp] at h
    cases h
    exact hr
  | checksum =>
    rw [feed_checksum hp] at h
    split at h
    · cases h
    · cases h
      exact hr

/-- Between frames, a byte is the first marker or stray, unless it is the second marker. -/
theorem feed_between (hp : c.phase = .seeking ∨ c.phase = .marked)
    (hb : ¬ (c.phase = .marked ∧ b = Camera.frameMark)) :
    c.feed b = (false, { c with phase := if b = Camera.sync then .marked else .seeking }) := by
  rcases hp with hp | hp
  · rw [feed_seeking hp, seek]
    split
    · rfl
    · rw [← hp]
  · rw [feed_marked hp, mark, if_neg fun h => hb ⟨hp, h⟩]
    split
    · rw [← hp]
    · rfl

theorem Idles.feed {later : List UInt8} (h : c.Idles taken later)
    (hl : ¬ Camera.marker <:+: later) (hf : c.feed b = (false, c')) :
    c'.Offers (taken ++ [b]) (some (later ++ [b])) := by
  obtain ⟨hready, hphase, front, rfl, hframe⟩ := h
  -- the one byte that withdraws the frame is a second marker right behind a first one
  by_cases hb : later.getLast? = some Camera.sync ∧ b = Camera.frameMark
  · rw [if_pos hb.1] at hphase
    rw [feed_marked hphase, mark, if_pos hb.2] at hf
    cases hf
    exact .inl ⟨Camera.marker_infix_concat.2 (.inr hb), rfl⟩
  · have hp : c.phase = .seeking ∨ c.phase = .marked := by
      rw [hphase]
      split
      · exact .inr rfl
      · exact .inl rfl
    have hmark : ¬ (c.phase = .marked ∧ b = Camera.frameMark) := by
      rintro ⟨hm, rfl⟩
      rw [hphase] at hm
      split at hm
      · rename_i hlast
        exact hb ⟨hlast, rfl⟩
      · cases hm
    rw [feed_between hp hmark] at hf
    cases hf
    refine .inr ⟨fun hinf => ?_, hready, by simp, front, List.append_assoc _ _ _, hframe⟩
    rcases Camera.marker_infix_concat.1 hinf with h | h
    · exact hl h
    · exact hb h

/-- A byte that completes no frame lets the one on offer stand, unless it begins another one. -/
theorem Offers.feed {since : Option (List UInt8)} (h : c.Offers taken since)
    (hf : c.feed b = (false, c')) : c'.Offers (taken ++ [b]) (since.map (· ++ [b])) := by
  cases since with
  | none => exact ready_of_feed_false hf h
  | some later =>
    rcases h with ⟨hm, hr⟩ | ⟨hm, hidle⟩
    · exact .inl ⟨Camera.marker_infix_concat.2 (.inl hm), ready_of_feed_false hf hr⟩
    · exact hidle.feed hm hf

/-- A frame is complete when its checksum fits. -/
theorem Tracks.complete (h : c.Tracks taken) (hf : c.feed b = (true, c')) :
    c'.Idles (taken ++ [b]) [] := by
  cases hp : c.phase with
  | seeking => rw [feed_seeking hp] at hf; cases hf
  | marked => rw [feed_marked hp] at hf; cases hf
  | header received => rw [feed_header hp] at hf; cases hf
  | pixels written => rw [feed_pixels hp] at hf; cases hf
  | checksum =>
    simp only [Tracks, hp] at h
    -- what the byte is compared with is the checksum of a header and all of its pixels
    obtain ⟨hsized, hcrc, front, rfl⟩ := h
    rw [feed_checksum hp] at hf
    split at hf
    · rename_i hb
      cases hf
      have hall : c.image.pixels.toList.take c.image.pixels.size = c.image.pixels.toList :=
        List.take_of_length_le (Nat.le_of_eq Array.length_toList)
      rw [contents, hall] at hcrc ⊢
      refine ⟨rfl, rfl, _, (List.append_nil _).symm, hsized, front, ?_⟩
      rw [hb, hcrc]
      simp [Camera.encodeFrame, Camera.marker]
    · cases hf

/-- An image that is handed out came in, and nothing has begun another one since. -/
theorem Offers.endsIn {since : Option (List UInt8)} {im : Image capacity}
    (h : c.Offers taken since) (him : c.image? = some im) : ∃ front later,
      since = some later ∧ ¬ Camera.marker <:+: later ∧ taken = front ++ later ∧ EndsIn front im := by
  cases since with
  | none =>
    rw [image?_of_not_ready h] at him
    cases him
  | some later =>
    rcases h with ⟨-, hready⟩ | ⟨hm, hready, -, front, htaken, hframe⟩
    · rw [image?_of_not_ready hready] at him
      cases him
    · rw [image?, if_pos hready] at him
      cases him
      exact ⟨front, later, rfl, hm, htaken, hframe⟩

theorem Offers.isSome_iff {since : Option (List UInt8)} (h : c.Offers taken since) :
    c.image?.isSome ↔ ∃ later, since = some later ∧ ¬ Camera.marker <:+: later := by
  constructor
  · intro hsome
    obtain ⟨im, him⟩ := Option.isSome_iff_exists.1 hsome
    obtain ⟨-, later, hs, hm, -⟩ := h.endsIn him
    exact ⟨later, hs, hm⟩
  · rintro ⟨later, rfl, hm⟩
    rcases h with ⟨hm', -⟩ | ⟨-, hidle⟩
    · exact absurd hm' hm
    · rw [image?, if_pos hidle.ready]
      rfl

/-! ### Calls -/

/-- A call to the frame assembly. -/
inductive Call where
  /-- Takes the bytes of one read. -/
  | push (data : List UInt8)
  /-- Withdraws the last complete frame. -/
  | withdraw
  deriving DecidableEq, Repr

/-- What a call came to. -/
inductive Outcome where
  /-- These bytes were taken, and completed a frame or not. -/
  | received (bytes : List UInt8) (done : Bool)
  /-- The last complete frame was withdrawn. -/
  | withdrawn
  deriving DecidableEq, Repr

/-- The bytes that a call took. -/
def Outcome.bytes : Outcome → List UInt8
  | .received bytes _ => bytes
  | .withdrawn => []

/-- The bytes that calls took. -/
def bytesOf (outcomes : List Outcome) : List UInt8 := outcomes.flatMap Outcome.bytes

/-- A call that neither completed a frame nor withdrew one. -/
def Outcome.Quiet (o : Outcome) : Prop := ∃ bytes, o = .received bytes false

/-- Makes a call. -/
def act (c : Capture capacity) : Call → Outcome × Capture capacity
  | .push data => (.received (c.consumed data) (c.receive data).1, (c.receive data).2.1)
  | .withdraw => (.withdrawn, c.withdraw)

/-- Makes calls. -/
def actAll (c : Capture capacity) : List Call → List Outcome × Capture capacity
  | [] => ([], c)
  | a :: as => ((c.act a).1 :: ((c.act a).2.actAll as).1, ((c.act a).2.actAll as).2)

/-- The bytes taken behind the last complete frame, if that was not withdrawn. -/
def since : Option (List UInt8) → Outcome → Option (List UInt8)
  | _, .received _ true => some []
  | s, .received bytes false => s.map (· ++ bytes)
  | _, .withdrawn => none

/-- The phase and what is on offer, after the bytes `taken`. -/
structure Follows (c : Capture capacity) (taken : List UInt8) (later : Option (List UInt8)) :
    Prop where
  /-- The phase. -/
  tracks : c.Tracks taken
  /-- What is on offer. -/
  offers : c.Offers taken later

theorem Follows.act {later : Option (List UInt8)} (h : c.Follows taken later) (a : Call) :
    (c.act a).2.Follows (taken ++ (c.act a).1.bytes) (since later (c.act a).1) := by
  cases a with
  | withdraw =>
    refine ⟨?_, rfl⟩
    change c.Tracks (taken ++ [])
    rw [List.append_nil]
    exact h.tracks
  | push data =>
    have hstart : c.Follows (taken ++ []) (later.map (· ++ [])) := by
      rw [List.append_nil]
      cases later <;> simpa using h
    refine receive_induction (I := fun c bytes => c.Follows (taken ++ bytes) (later.map (· ++ bytes)))
      (motive := fun done c bytes =>
        c.Follows (taken ++ bytes) (since later (.received bytes done)))
      (fun _ _ h => h) ?step ?complete data [] c hstart
    case step =>
      intro c bytes b c' h hf
      have htracks := h.tracks.feed b
      have hoffers := h.offers.feed hf
      rw [hf] at htracks
      simp only [← List.append_assoc]
      refine ⟨htracks, ?_⟩
      cases later <;> simpa using hoffers
    case complete =>
      intro c bytes b c' h hf
      have htracks := h.tracks.feed b
      rw [hf] at htracks
      rw [← List.append_assoc]
      exact ⟨htracks, .inr ⟨by simp [Camera.marker], h.tracks.complete hf⟩⟩

theorem Follows.actAll {later : Option (List UInt8)} (h : c.Follows taken later) (as : List Call) :
    (c.actAll as).2.Follows (taken ++ bytesOf (c.actAll as).1)
      ((c.actAll as).1.foldl since later) := by
  induction as generalizing c taken later with
  | nil => simpa [Capture.actAll, bytesOf] using h
  | cons a as ih =>
    have := ih (h.act a)
    rw [List.append_assoc] at this
    exact this

/-- What is known of the last complete frame tells which call completed it. -/
theorem foldl_since_eq_some_iff {outcomes : List Outcome} {later : List UInt8} :
    outcomes.foldl since none = some later ↔ ∃ before bytes after,
      outcomes = before ++ .received bytes true :: after ∧ (∀ o ∈ after, o.Quiet) ∧
        bytesOf after = later := by
  -- from the back: only the last outcome decides what is known after it
  induction outcomes using List.reverseRecOn generalizing later with
  | nil => simp
  | append_singleton outcomes o ih =>
    rw [List.foldl_append, List.foldl_cons, List.foldl_nil]
    simp only [concat_eq_append_cons_iff]
    constructor
    · intro h
      match o, h with
      | .received bytes true, h =>
        cases h
        exact ⟨outcomes, bytes, [], .inl ⟨rfl, rfl, rfl⟩, by simp, rfl⟩
      | .received bytes false, h =>
        obtain ⟨earlier, hearlier, rfl⟩ := Option.map_eq_some_iff.1 h
        obtain ⟨before, first, after, rfl, hquiet, rfl⟩ := ih.1 hearlier
        refine ⟨before, first, after ++ [.received bytes false], .inr ⟨after, rfl, rfl⟩, ?_, ?_⟩
        · intro o ho
          rcases List.mem_append.1 ho with ho | ho
          · exact hquiet o ho
          · exact ⟨bytes, List.mem_singleton.1 ho⟩
        · simp [bytesOf, Outcome.bytes]
    · rintro ⟨before, bytes, after, ⟨-, rfl, rfl⟩ | ⟨front, rfl, rfl⟩, hquiet, rfl⟩
      · rfl
      · obtain ⟨last, rfl⟩ := hquiet o (by simp)
        have hfront := ih.2 ⟨before, bytes, front, rfl, fun o ho => hquiet o (by simp [ho]), rfl⟩
        rw [hfront]
        simp [since, bytesOf, Outcome.bytes]

/-- Behind the last complete frame there were only quiet calls, and no other frame began. -/
def Undisturbed (after : List Outcome) : Prop :=
  (∀ o ∈ after, o.Quiet) ∧ ¬ Camera.marker <:+: bytesOf after

/-- The frame that such a call completed is the one that `since` counts from. -/
theorem exists_undisturbed_iff {outcomes : List Outcome} :
    (∃ before bytes after, outcomes = before ++ .received bytes true :: after ∧
      Undisturbed after) ↔
      ∃ later, outcomes.foldl since none = some later ∧ ¬ Camera.marker <:+: later := by
  simp only [foldl_since_eq_some_iff]
  constructor
  · rintro ⟨before, bytes, after, ho, hquiet, hm⟩
    exact ⟨_, ⟨before, bytes, after, ho, hquiet, rfl⟩, hm⟩
  · rintro ⟨_, ⟨before, bytes, after, ho, hquiet, rfl⟩, hm⟩
    exact ⟨before, bytes, after, ho, hquiet, hm⟩

/-- **The frame on offer.**  After any calls there is an image exactly if the last call that
completed a frame was followed neither by a withdrawal nor by the start of another frame.  It is the
frame that this call completed: its size, its pixels and a checksum that fits are what the bytes
taken until then end in. -/
theorem image?_actAll (calls : List Call) :
    let (outcomes, c) := ({} : Capture capacity).actAll calls
    (c.image?.isSome ↔ ∃ before bytes after,
      outcomes = before ++ .received bytes true :: after ∧ Undisturbed after) ∧
    ∀ im, c.image? = some im → ∃ before bytes after,
      outcomes = before ++ .received bytes true :: after ∧ Undisturbed after ∧
        EndsIn (bytesOf before ++ bytes) im := by
  have hfresh : ({} : Capture capacity).Follows [] none := ⟨trivial, rfl⟩
  have hoffers := (hfresh.actAll calls).offers
  rcases hcalls : ({} : Capture capacity).actAll calls with ⟨outcomes, c⟩
  rw [hcalls] at hoffers
  dsimp only at hoffers ⊢
  refine ⟨hoffers.isSome_iff.trans exists_undisturbed_iff.symm, fun im him => ?_⟩
  obtain ⟨front, later, hs, hm, htaken, hframe⟩ := hoffers.endsIn him
  obtain ⟨before, bytes, after, rfl, hquiet, rfl⟩ := foldl_since_eq_some_iff.1 hs
  have hall : bytesOf before ++ bytes ++ bytesOf after = front ++ bytesOf after := by
    rw [← htaken]
    simp [bytesOf, Outcome.bytes]
  have hfront := List.append_cancel_right hall
  exact ⟨before, bytes, after, rfl, ⟨hquiet, hm⟩, hfront ▸ hframe⟩

end Capture

end OnboardVision

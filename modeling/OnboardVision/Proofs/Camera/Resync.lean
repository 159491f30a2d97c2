import OnboardVision.Proofs.Camera.Geometry
import OnboardVision.Proofs.Telemetry.Resync

/-!
# Readers behind a gap

A reader that takes noise for the beginning of a frame waits for the rest of it.  Bytes that begin
nothing bring it back: each of them lowers a bound on how many more it takes
(`Capture.remaining`, and `Crsf.Decoder.remaining` for the telemetry).

* `Capture.seeking_of_gap`: after as many bytes as the largest frame has behind its first marker, a
  capture looks for the first marker again.
* `Capture.takes_between`: between frames, and also behind a first marker, every frame comes in.

Main statement:

* `Capture.resync`: both readers find back to the stream behind a gap, and for the telemetry the
  length of the gap is the least.
-/

namespace OnboardVision

namespace Capture

variable {capacity : ℕ} {c c' : Capture capacity} {b : UInt8} {data : List UInt8}

/-- How many bytes other than a first marker the capture takes at most until it looks for one:
behind a first marker there may be a second one, a header, as many pixels as the buffer has, and a
checksum. -/
def remaining (c : Capture capacity) : ℕ :=
  match c.phase with
  | .seeking => 0
  | .marked => capacity + 6
  | .header received => (4 - received.length) + capacity + 1
  | .pixels written => (c.image.pixels.size - written - 1) + 2
  | .checksum => 1

theorem remaining_le (c : Capture capacity) : c.remaining ≤ capacity + 6 := by
  have hsize : c.image.pixels.size ≤ capacity := c.image.size_le
  unfold remaining
  split <;> omega

theorem seeking_of_remaining (h : c.remaining = 0) : c.phase = .seeking := by
  unfold remaining at h
  split at h
  · assumption
  all_goals omega

theorem remaining_seek (hp : c.phase = .seeking) (hb : b ≠ Camera.sync) :
    (c.seek b).remaining = 0 := by
  rw [seek, if_neg hb]
  simp only [remaining, hp]

theorem remaining_mark (hb : b ≠ Camera.sync) : (c.mark b).remaining ≤ capacity + 5 := by
  rw [mark, if_neg hb]
  split
  · simp only [remaining, List.length_nil]
    omega
  · exact Nat.zero_le _

theorem remaining_takeHeader (c : Capture capacity) (received : List UInt8) (b : UInt8) :
    (c.takeHeader received b).1.remaining ≤ (4 - received.length) + capacity := by
  rw [takeHeader]
  dsimp only
  split
  · rename_i hmore
    simp only [remaining, List.length_append, List.length_singleton] at hmore ⊢
    omega
  · rcases begin_spec { c with crc := Checksum.add c.crc b } (received ++ [b]) with
      heq | ⟨im, heq, hsized, hcontents⟩
    · rw [heq]
      exact Nat.zero_le _
    · -- the header is complete with this byte, so three came before
      have hlength : received.length + 1 = 4 := by
        rw [← List.length_singleton (a := b), ← List.length_append, ← hcontents]
        rfl
      have hfit : im.pixels.size ≤ capacity := im.size_le
      have hpixels := hsized.size_pos
      rw [heq]
      simp only [remaining]
      omega

theorem remaining_takePixels (c : Capture capacity) (written : ℕ) (b : UInt8) :
    (c.takePixels written [b]).remaining ≤ (c.image.pixels.size - written - 1) + 1 := by
  have hsize : (c.image.overwrite written [b]).pixels.size = c.image.pixels.size :=
    Image.size_overwrite _ _ _
  rw [takePixels, List.length_singleton]
  split
  · exact Nat.succ_le_succ (Nat.zero_le _)
  · simp only [remaining, hsize]
    omega

/-- A byte that is no first marker. -/
theorem remaining_feed (c : Capture capacity) (hb : b ≠ Camera.sync) :
    (c.feed b).2.remaining ≤ c.remaining - 1 := by
  cases hp : c.phase with
  | seeking =>
    rw [feed_seeking hp, remaining_seek hp hb]
    exact Nat.zero_le _
  | marked =>
    have hc : c.remaining = capacity + 6 := by simp only [remaining, hp]
    rw [feed_marked hp, hc]
    exact remaining_mark hb
  | header received =>
    have hc : c.remaining = (4 - received.length) + capacity + 1 := by simp only [remaining, hp]
    rw [feed_header hp, hc]
    exact remaining_takeHeader c received b
  | pixels written =>
    have hc : c.remaining = (c.image.pixels.size - written - 1) + 2 := by simp only [remaining, hp]
    rw [feed_pixels hp, hc]
    exact remaining_takePixels c written b
  | checksum =>
    rw [feed_checksum hp]
    split <;> exact Nat.zero_le _

theorem seeking_of_feed_true (h : c.feed b = (true, c')) : c'.phase = .seeking := by
  cases hp : c.phase with
  | seeking => rw [feed_seeking hp] at h; cases h
  | marked => rw [feed_marked hp] at h; cases h
  | header received => rw [feed_header hp] at h; cases h
  | pixels written => rw [feed_pixels hp] at h; cases h
  | checksum =>
    rw [feed_checksum hp] at h
    split at h <;> cases h
    rfl

/-- The bytes of a read.  If they complete a frame, the rest of them is dropped, and nothing
remains. -/
theorem remaining_receive (c : Capture capacity) (hdata : Camera.sync ∉ data) :
    (c.receive data).2.1.remaining ≤ c.remaining - data.length := by
  induction data generalizing c with
  | nil =>
    rw [receive_nil]
    exact Nat.le_refl _
  | cons b data ih =>
    rw [List.mem_cons, not_or] at hdata
    have hfirst := remaining_feed c (Ne.symm hdata.1)
    rcases hfeed : c.feed b with ⟨_ | _, c'⟩
    · obtain ⟨notes, hread⟩ := receive_of_feed_false data hfeed
      have hrest := ih c' hdata.2
      rw [hfeed] at hfirst
      rw [hread, List.length_cons]
      dsimp only at hfirst hrest ⊢
      omega
    · obtain ⟨notes, hread⟩ := receive_of_feed_true data hfeed
      rw [hread]
      dsimp only
      simp only [remaining, seeking_of_feed_true hfeed, Nat.zero_le]

/-- The bytes that come in with calls. -/
def incoming (calls : List Call) : List UInt8 :=
  calls.flatMap fun
    | .push data => data
    | .withdraw => []

theorem remaining_actAll (c : Capture capacity) {calls : List Call}
    (hgap : Camera.sync ∉ incoming calls) :
    (c.actAll calls).2.remaining ≤ c.remaining - (incoming calls).length := by
  induction calls generalizing c with
  | nil => exact Nat.le_refl _
  | cons a calls ih =>
    rw [incoming, List.flatMap_cons, List.mem_append, not_or] at hgap
    have hrest := ih (c.act a).2 hgap.2
    rw [incoming, List.flatMap_cons, List.length_append, actAll]
    cases a with
    | push data =>
      have hread := remaining_receive c hgap.1
      simp only [act, incoming] at hrest hread ⊢
      omega
    | withdraw =>
      simp only [act, incoming, List.length_nil, Nat.zero_add] at hrest ⊢
      exact hrest

/-- Whatever came in before, behind as many bytes as the largest frame has after its first marker,
none of which is a first marker, the capture looks for one. -/
theorem seeking_of_gap (c : Capture capacity) {calls : List Call}
    (hgap : Camera.sync ∉ incoming calls) (hlong : capacity + 6 ≤ (incoming calls).length) :
    (c.actAll calls).2.phase = .seeking := by
  have hbound := c.remaining_le
  have hspent := c.remaining_actAll hgap
  exact seeking_of_remaining (by omega)

/-! ### A frame behind the gap -/

/-- Behind a first marker another one begins a frame just as well. -/
theorem receive_sync_of_marked (hp : c.phase = .marked) (bs : List UInt8) :
    c.receive (Camera.sync :: bs) =
      ({ c with phase := .seeking } : Capture capacity).receive (Camera.sync :: bs) := by
  have hmark : c.mark Camera.sync = c := by
    rw [mark, if_neg (by decide), if_pos rfl]
  have hseek : ({ c with phase := .seeking } : Capture capacity).seek Camera.sync = c := by
    rw [seek, if_pos rfl, ← hp]
  rw [receive_marked hp, receive_seeking rfl, hmark, hseek]

theorem takes_of_seeking {im : Image capacity} (hp : c.phase = .seeking) (hs : Sized im) :
    c.Takes (Camera.encodeFrame im.width im.height im.pixels.toList) im := by
  have hread := receive_encodeFrame hp hs
  have hfront := not_done_before_checksum hp hs.1 hs.2 (Array.length_toList.trans im.size_eq)
    (im.size_eq ▸ im.size_le)
  have hframe : Camera.encodeFrame im.width im.height im.pixels.toList =
      Camera.marker ++ (Camera.header im.width im.height ++ im.pixels.toList) ++
        [Checksum.ofBytes (Camera.header im.width im.height ++ im.pixels.toList)] := by
    simp [Camera.encodeFrame, Camera.marker]
  rw [hframe] at hread ⊢
  rw [takes_concat_iff, hread]
  exact ⟨hfront, rfl, rfl⟩

theorem takes_between {im : Image capacity} (hp : c.phase = .seeking ∨ c.phase = .marked)
    (hs : Sized im) : c.Takes (Camera.encodeFrame im.width im.height im.pixels.toList) im := by
  rcases hp with hp | hp
  · exact takes_of_seeking hp hs
  · have htakes := takes_of_seeking (c := { c with phase := .seeking }) rfl hs
    have hframe : Camera.encodeFrame im.width im.height im.pixels.toList =
        Camera.sync ::
            (Camera.frameMark :: (Camera.header im.width im.height ++ im.pixels.toList)) ++
          [Checksum.ofBytes (Camera.header im.width im.height ++ im.pixels.toList)] := rfl
    rw [hframe, takes_concat_iff] at htakes ⊢
    rw [receive_sync_of_marked hp, List.cons_append, receive_sync_of_marked hp]
    exact htakes

/-- **Both readers find back to the stream.**  Telemetry: whatever came in before, behind a gap of
63 bytes none of which is a sync byte the decoder is between frames, also on a fixed buffer, and the
next frame of a known type and size yields its message at its last byte; behind some gap of 62 bytes
the next frame is lost.  Camera: whatever calls were made before, calls that bring in as many bytes
as the largest frame has behind its first marker, none of which is a first marker, leave the capture
looking for one; and between frames, or behind a first marker, every frame comes in in whatever
reads, complete with the read that has its last byte. -/
theorem resync :
    (∀ history gap : List UInt8, 63 ≤ gap.length → Crsf.sync ∉ gap →
      (Crsf.Decoder.idle.feedAll 0 (history ++ gap)).2 = .idle ∧
      Crsf.Buffer.feedAll? [] (history ++ gap) = some (Crsf.scan (history ++ gap), []) ∧
      ∀ x : Crsf.Sending, Message.Known x.type x.payload → ∃ m, x.message? = some m ∧
        Crsf.Decoder.idle.feedAll 0 (history ++ gap ++ x.bytes) =
          ((Crsf.Decoder.idle.feedAll 0 (history ++ gap)).1 ++
            [((history ++ gap ++ x.bytes).length - 1, m)], .idle)) ∧
    (∃ history gap : List UInt8, gap.length = 62 ∧ Crsf.sync ∉ gap ∧
      (Crsf.Decoder.idle.feedAll 0 (history ++ gap)).2 ≠ .idle ∧
      ∀ (x : Crsf.Sending) (m : Message), x.message? = some m →
        ((history ++ gap ++ x.bytes).length - 1, m) ∉
          (Crsf.Decoder.idle.feedAll 0 (history ++ gap ++ x.bytes)).1) ∧
    ∀ (capacity : ℕ) (calls : List Call),
      let c := (({} : Capture capacity).actAll calls).2
      (∀ gap : List Call, capacity + 6 ≤ (incoming gap).length → Camera.sync ∉ incoming gap →
        (c.actAll gap).2.phase = .seeking) ∧
      (c.phase = .seeking ∨ c.phase = .marked → ∀ im : Image capacity, Sized im →
        c.Takes (Camera.encodeFrame im.width im.height im.pixels.toList) im) := by
  refine ⟨fun history gap hlong hgap => ?_, Crsf.Decoder.gap_too_short, fun capacity calls => ?_⟩
  · have hidle := Crsf.Decoder.eq_idle_of_gap history hgap hlong
    obtain ⟨-, -, hbuffer⟩ := Crsf.Decoder.messages_eq_scan (history ++ gap)
    rw [hidle] at hbuffer
    refine ⟨hidle, hbuffer, fun x hknown => ?_⟩
    obtain ⟨m, hm⟩ := Message.exists_decode hknown
    have hplace : (history ++ gap ++ x.bytes).length = (history ++ gap).length + x.bytes.length :=
      List.length_append
    refine ⟨m, hm, ?_⟩
    rw [Crsf.Decoder.feedAll_append, hidle, Crsf.Decoder.feedAll_sending, Crsf.Sending.message?, hm,
      hplace, Nat.zero_add]
    rfl
  · exact ⟨fun gap hlong hgap => seeking_of_gap _ hgap hlong, fun hp im hs => takes_between hp hs⟩

/-- A sync byte before 63 zeros and a barometer reading; and a capture of four pixels in a header,
eleven bytes of noise in two reads, and a square whose pixels look like markers. -/
theorem resync_after_noise :
    let vario : Crsf.Sending :=
      ⟨List.replicate 8 0, 0x09, [0x27, 0x10, 0x00, 0x64], by decide, by decide⟩
    let noise := [Crsf.sync] ++ List.replicate 63 0
    let square : Image 4 := ⟨2, 2, #[0xA5, 0x5A, 0xA5, 0xA5], rfl, by decide⟩
    let calls : List Call := [.push [0xA5, 0x5A, 2, 0]]
    let gap : List Call := [.push [2, 0, 7, 7, 7, 7], .withdraw, .push [9, 9, 9, 9, 9]]
    (∃ m, vario.message? = some m ∧
      Crsf.Decoder.idle.feedAll 0 (noise ++ vario.bytes) = ([(71, m)], .idle)) ∧
    ((({} : Capture 4).actAll calls).2.actAll gap).2.phase = .seeking ∧
    (({} : Capture 4).actAll (calls ++ gap)).2.Takes (Camera.encodeFrame 2 2 square.pixels.toList)
      square := by
  intro vario noise square calls gap
  obtain ⟨-, -, hnext⟩ := resync.1 [Crsf.sync] (List.replicate 63 0) (by simp) (by decide)
  obtain ⟨m, hm, hfed⟩ := hnext vario (by decide)
  have hquiet : Crsf.Decoder.idle.feedAll 0 noise = ([], .idle) := by decide +kernel
  have hlength : (noise ++ vario.bytes).length - 1 = 71 := by decide +kernel
  have hseeking := (resync.2.2 4 calls).1 gap (by decide) (by decide)
  have htakes := (resync.2.2 4 (calls ++ gap)).2 (.inl (by decide +kernel)) square
    ⟨by decide, by decide⟩
  refine ⟨⟨m, hm, ?_⟩, hseeking, htakes⟩
  change Crsf.Decoder.idle.feedAll 0 (noise ++ vario.bytes) = _ at hfed
  rw [hfed, hquiet, hlength, List.nil_append]

end Capture

end OnboardVision

import OnboardVision.Proofs.Board.CameraLine
import OnboardVision.Proofs.Board.ReceiveFaults
import OnboardVision.Proofs.Camera.Chunks
import OnboardVision.Proofs.Camera.Geometry

/-!
# Grabs

A grab withdraws the frame of an earlier one and then reads until a frame is complete or its time is
over.  What the frame assembly has of a frame in progress stays from grab to grab.

* `SerialCamera.readUntil_assembleOne`: the reads of a grab come to one of all bytes in time.
* `SerialCamera.exists_made`: the reads that a grab makes, of which only the last one may complete a
  frame.
* `SerialCamera.capture_useAll`: after any grabs and geometry requests the frame assembly is what
  the bytes in time have made of it.

Main statement:

* `SerialCamera.grab_hands_out_new_frame`: a grab hands out a frame exactly if it is complete within
  that grab.
-/

namespace OnboardVision

namespace Board

open Capture (Call Outcome bytesOf EndsIn)

/-- The call to the frame assembly that comes of a reading. -/
def Reading.call? : Reading → Option Call
  | .bytes data => some (.push data)
  | .fault => none

namespace SerialCamera

variable {c c' : Capture captureCapacity} {line : List (Instant × Reading)}

/-! ### Reads -/

/-- Assembles one reading. -/
def assembleOne (c : Capture captureCapacity) : Reading → Option Unit × Capture captureCapacity
  | .bytes data => (if (c.receive data).1 then some () else none, (c.receive data).2.1)
  | .fault => (none, c)

theorem assemble_eq (t : Instant) (readings : List Reading) (c : Capture captureCapacity) :
    let done := readUntil assembleOne c (readings.map (t, ·))
    ∃ notes, assemble readings c = (done.1.isSome, done.2.2.map Prod.snd, done.2.1, notes) := by
  induction readings generalizing c with
  | nil => exact ⟨[], rfl⟩
  | cons r readings ih =>
    cases r with
    | fault => exact ih c
    | bytes data =>
      rcases hread : c.receive data with ⟨_ | _, c', notes⟩
      · obtain ⟨more, hrest⟩ := ih c'
        refine ⟨notes ++ more, ?_⟩
        rw [assemble, hread]
        simp [readUntil, assembleOne, hread, hrest]
      · refine ⟨notes, ?_⟩
        rw [assemble, hread]
        simp [readUntil, assembleOne, hread, Function.comp_def]

theorem reads_completeFrame : Reads completeFrame assembleOne := by
  intro t c s
  obtain ⟨notes, hassemble⟩ := assemble_eq t s.rig.cameraLine.readings c
  refine ⟨notes, ?_⟩
  rw [completeFrame, hassemble]
  rcases (readUntil assembleOne c (s.rig.cameraLine.readings.map (t, ·))).1 with _ | x <;> rfl

/-- The bytes that readings bring. -/
def bytesIn (line : List (Instant × Reading)) : List UInt8 := line.flatMap (·.2.data)

/-- One read after the other comes to one read of all their bytes. -/
theorem readUntil_assembleOne (c : Capture captureCapacity) (line : List (Instant × Reading)) :
    (readUntil assembleOne c line).1.isSome = (c.receive (bytesIn line)).1 ∧
      (readUntil assembleOne c line).2.1 = (c.receive (bytesIn line)).2.1 := by
  induction line generalizing c with
  | nil => simp [readUntil, bytesIn]
  | cons x line ih =>
    obtain ⟨t, r⟩ := x
    cases r with
    | fault => exact ih c
    | bytes data =>
      have hbytes : bytesIn ((t, .bytes data) :: line) = data ++ bytesIn line := rfl
      rw [hbytes, Capture.receive_append, readUntil, assembleOne]
      rcases hread : c.receive data with ⟨_ | _, c', notes⟩
      · exact ih c'
      · exact ⟨rfl, rfl⟩

/-- The calls that readings make. -/
def calls (made : List (Instant × Reading)) : List Call := made.filterMap (·.2.call?)

/-- The reads that are made: no read but the last one completes a frame, and if none does, none is
left out. -/
structure Made (c : Capture captureCapacity) (made unread : List (Instant × Reading))
    (found : Option (Instant × Unit)) (c' : Capture captureCapacity) : Prop where
  /-- The frame assembly takes them one by one. -/
  state : c' = (c.actAll (calls made)).2
  /-- If a frame is complete, the last read has completed it. -/
  complete : ∀ t, found = some (t, ()) → made.getLast?.map Prod.fst = some t ∧
    ∃ front bytes, (c.actAll (calls made)).1 = front ++ [.received bytes true] ∧ bytes ≠ [] ∧
      ∀ o ∈ front, o.Quiet
  /-- If no frame is complete, everything was read. -/
  incomplete : found = none → unread = [] ∧ ∀ o ∈ (c.actAll (calls made)).1, o.Quiet

variable {made unread : List (Instant × Reading)} {found : Option (Instant × Unit)} {t : Instant}
  {data : List UInt8}

theorem last_cons {x : Instant × Reading} (h : made.getLast?.map Prod.fst = some t) :
    (x :: made).getLast?.map Prod.fst = some t := by
  cases made with
  | nil => cases h
  | cons y made => exact h

theorem Made.fault (h : Made c made unread found c') (t : Instant) :
    Made c ((t, .fault) :: made) unread found c' where
  state := h.state
  complete := fun u hu => ⟨last_cons (h.complete u hu).1, (h.complete u hu).2⟩
  incomplete := h.incomplete

/-- A read that completes no frame, and then the others. -/
theorem Made.quiet (hdata : (c.receive data).1 = false)
    (h : Made (c.receive data).2.1 made unread found c') (t : Instant) :
    Made c ((t, .bytes data) :: made) unread found c' := by
  have hact : c.act (.push data) = (.received (c.consumed data) false, (c.receive data).2.1) := by
    rw [Capture.act, hdata]
  have hcalls : c.actAll (calls ((t, .bytes data) :: made)) =
      (.received (c.consumed data) false :: ((c.receive data).2.1.actAll (calls made)).1,
        ((c.receive data).2.1.actAll (calls made)).2) := by
    change c.actAll (.push data :: calls made) = _
    rw [Capture.actAll, hact]
  refine ⟨by rw [hcalls]; exact h.state, fun u hu => ?_, fun hnone => ?_⟩
  · obtain ⟨hlast, front, bytes, houtcomes, hne, hfront⟩ := h.complete u hu
    refine ⟨last_cons hlast, .received (c.consumed data) false :: front, bytes, ?_, hne,
      List.forall_mem_cons.2 ⟨⟨_, rfl⟩, hfront⟩⟩
    rw [hcalls, houtcomes]
    rfl
  · obtain ⟨hunread, hall⟩ := h.incomplete hnone
    rw [hcalls]
    exact ⟨hunread, List.forall_mem_cons.2 ⟨⟨_, rfl⟩, hall⟩⟩

/-- The read that completes a frame. -/
theorem made_of_complete (hdata : (c.receive data).1 = true) (t : Instant)
    (unread : List (Instant × Reading)) :
    Made c [(t, .bytes data)] unread (some (t, ())) (c.receive data).2.1 := by
  refine ⟨rfl, fun u hu => ?_, nofun⟩
  obtain rfl : t = u := by simpa using hu
  refine ⟨rfl, [], c.consumed data, ?_, ?_, nofun⟩
  · change [Outcome.received (c.consumed data) (c.receive data).1] = _
    rw [hdata]
    rfl
  · cases data with
    | nil => simp at hdata
    | cons b bs => simp [Capture.consumed]

theorem exists_made (c : Capture captureCapacity) (line : List (Instant × Reading)) :
    ∃ made unread, line = made ++ unread ∧
      Made c made unread (readUntil assembleOne c line).1 (readUntil assembleOne c line).2.1 := by
  induction line generalizing c with
  | nil => exact ⟨[], [], rfl, rfl, nofun, fun _ => ⟨rfl, nofun⟩⟩
  | cons x line ih =>
    obtain ⟨t, r⟩ := x
    cases r with
    | fault =>
      obtain ⟨made, unread, rfl, hmade⟩ := ih c
      exact ⟨(t, .fault) :: made, unread, rfl, hmade.fault t⟩
    | bytes data =>
      rw [readUntil, assembleOne]
      cases hdata : (c.receive data).1 with
      | true => exact ⟨[(t, .bytes data)], line, rfl, made_of_complete hdata t line⟩
      | false =>
        obtain ⟨made, unread, rfl, hmade⟩ := ih (c.receive data).2.1
        exact ⟨(t, .bytes data) :: made, unread, rfl, hmade.quiet hdata t⟩

/-! ### Uses of the camera -/

/-- A use of the camera, at any time and whatever has come in since the one before. -/
inductive Use where
  /-- A grab. -/
  | grab (start : Timeline Event Rig) (bounded : Bounded start grabTimeout)
  /-- A geometry request. -/
  | request (now : Instant) (width height : UInt16) (shared : Shared Rig)

/-- The camera behind a grab; one that does not end leaves it as it was. -/
def behind (v : SerialCamera) :
    EStateM.Result Halt (Timeline Event Rig) (Bool × SerialCamera) → SerialCamera
  | .ok (_, v') _ => v'
  | .error _ _ => v

/-- The camera after a use. -/
def use (v : SerialCamera) : Use → SerialCamera
  | .grab start _ => v.behind (v.grab start)
  | .request now width height shared => (ImageSource.setGeometry now width height v shared).1

/-- The bytes that come in during a use. -/
def Use.bytes : Use → List UInt8
  | .grab start _ => bytesIn (inTime (start.now + grabTimeout) start)
  | .request .. => []

/-- What a use comes to for the frame assembly: a withdrawal, and then one read of all bytes in
time. -/
def Use.calls : Use → List Call
  | u@(.grab ..) => [.withdraw, .push u.bytes]
  | .request .. => []

/-- The bytes that the frame assembly has taken in some uses. -/
def takenIn (us : List Use) : List UInt8 :=
  bytesOf (({} : Capture captureCapacity).actAll (us.flatMap Use.calls)).1

/-- One grab. -/
theorem grab_eq_ok {start : Timeline Event Rig} (h : Bounded start grabTimeout) (v : SerialCamera) :
    let due := start.now + grabTimeout
    let read := readUntil assembleOne v.capture.withdraw (inTime due start)
    ∃ tl, v.grab start = .ok (read.1.isSome, ⟨read.2.1⟩) tl ∧
      tl.now = (read.1.map Prod.fst).getD due := by
  intro due read
  obtain ⟨found, c, tl, left, hwait, hread, hnone⟩ :=
    reads_completeFrame.await_eq h v.capture.withdraw
  have hlater : Run.later grabTimeout start = .ok due start :=
    Run.later_of_le (Nat.le_of_lt h.clock)
  have hread' : read = (found.map (tl.now, ·), c, left) := hread
  refine ⟨tl, ?_, ?_⟩
  · rw [grab, Run.bind_of_ok hlater, Run.bind_of_ok hwait, hread']
    cases found <;> rfl
  · rw [hread']
    cases found with
    | none => exact (hnone rfl).2
    | some a => rfl

theorem capture_use (v : SerialCamera) (u : Use) :
    (v.use u).capture = (v.capture.actAll u.calls).2 := by
  cases u with
  | grab start bounded =>
    obtain ⟨tl, hgrab, -⟩ := grab_eq_ok bounded v
    rw [use, hgrab]
    exact (readUntil_assembleOne _ _).2
  | request => rfl

/-- The camera after some uses. -/
def useAll (v : SerialCamera) (us : List Use) : SerialCamera := us.foldl use v

theorem capture_useAll (v : SerialCamera) (us : List Use) :
    (v.useAll us).capture = (v.capture.actAll (us.flatMap Use.calls)).2 := by
  induction us generalizing v with
  | nil => rfl
  | cons u us ih =>
    rw [List.flatMap_cons, Capture.actAll_append, ← capture_use]
    exact ih (v.use u)

theorem withdraw_of_not_ready (h : c.ready = false) : c.withdraw = c := by
  rw [Capture.withdraw, ← h]

/-- Grabs that complete no frame take all bytes that come in. -/
theorem withdraw_useAll {v : SerialCamera} {us : List Use}
    (h : (v.capture.withdraw.receive (us.flatMap Use.bytes)).1 = false) :
    (v.useAll us).capture.withdraw =
      (v.capture.withdraw.receive (us.flatMap Use.bytes)).2.1 := by
  induction us generalizing v with
  | nil => simp [useAll]
  | cons u us ih =>
    change ((v.use u).useAll us).capture.withdraw = _
    cases u with
    | request => exact ih h
    | grab start bounded =>
      rw [List.flatMap_cons] at h ⊢
      have hgrab := Capture.not_done_of_append _ h
      obtain ⟨notes, hread⟩ := Capture.receive_append_of_not_done hgrab (us.flatMap Use.bytes)
      -- behind the grab there is nothing to withdraw
      have hsame : (v.use (.grab start bounded)).capture.withdraw =
          (v.capture.withdraw.receive (Use.grab start bounded).bytes).2.1 := by
        rw [capture_use]
        exact withdraw_of_not_ready (Capture.ready_of_not_done hgrab rfl)
      rw [hread] at h ⊢
      rw [← hsame] at h ⊢
      exact ih h

/-- What comes in behind a complete frame makes no difference. -/
theorem readUntil_of_complete {front : List (Instant × Reading)}
    (h : (c.receive (bytesIn front)).1 = true) (back : List (Instant × Reading)) :
    (readUntil assembleOne c (front ++ back)).1.isSome = true ∧
      (readUntil assembleOne c (front ++ back)).2.1 = (c.receive (bytesIn front)).2.1 := by
  obtain ⟨hsome, hcapture⟩ := readUntil_assembleOne c (front ++ back)
  rw [bytesIn, List.flatMap_append, Capture.receive_append] at hsome hcapture
  rw [bytesIn] at h ⊢
  rcases hfront : c.receive (front.flatMap (·.2.data)) with ⟨done, c', notes⟩
  rw [hfront] at h hsome hcapture
  rw [hfront]
  obtain rfl : done = true := h
  exact ⟨hsome, hcapture⟩

/-- The bytes of a frame come in during the last uses and the present grab.  When they begin the
frame assembly is between frames, and the grab has the last of them to read. -/
structure Underway (us : List Use) (line : List (Instant × Reading)) (w h : UInt16)
    (pixels : List UInt8) : Prop where
  /-- A frame has columns. -/
  width_ne : w ≠ 0
  /-- A frame has rows. -/
  height_ne : h ≠ 0
  /-- It has all of its pixels. -/
  length_eq : pixels.length = w.toNat * h.toNat
  /-- It fits the buffer. -/
  fits : w.toNat * h.toNat ≤ captureCapacity
  /-- These are its bytes. -/
  bytes : ∃ before during front back, us = before ++ during ∧ line = front ++ back ∧
    (useAll {} before).capture.phase = .seeking ∧ bytesIn front ≠ [] ∧
    during.flatMap Use.bytes ++ bytesIn front = Camera.encodeFrame w h pixels

/-- A frame may be spread over any number of grabs. -/
theorem Underway.complete {us : List Use} {w h : UInt16} {pixels : List UInt8}
    (hu : Underway us line w h pixels) :
    (readUntil assembleOne (useAll {} us).capture.withdraw line).1.isSome ∧
      ∃ im, (readUntil assembleOne (useAll {} us).capture.withdraw line).2.1.image? = some im ∧
        im.width = w ∧ im.height = h ∧ im.pixels.toList = pixels := by
  obtain ⟨before, during, front, back, rfl, rfl, hphase, hne, hbytes⟩ := hu.bytes
  obtain ⟨im, hwidth, hheight, hpixels, htakes⟩ := Capture.takes_encodeFrame
    (c := (useAll {} before).capture.withdraw) hphase hu.width_ne hu.height_ne hu.length_eq hu.fits
  obtain ⟨hearlier, hdone, himage⟩ := htakes [during.flatMap Use.bytes] (bytesIn front)
    (by simpa using hbytes) hne
  -- no grab before this one has completed a frame
  have hquiet : ((useAll {} before).capture.withdraw.receive (during.flatMap Use.bytes)).1 =
      false := by
    simp only [List.map_cons, List.map_nil, Capture.actAll, Capture.act, List.cons.injEq,
      Outcome.received.injEq] at hearlier
    exact hearlier.1.2
  have hstate : (useAll {} (before ++ during)).capture.withdraw =
      ((useAll {} before).capture.withdraw.actAll
        ([during.flatMap Use.bytes].map .push)).2 := by
    rw [useAll, List.foldl_append]
    exact withdraw_useAll hquiet
  obtain ⟨hsome, hcapture⟩ := readUntil_of_complete hdone back
  rw [hstate]
  refine ⟨hsome, im, ?_, hwidth, hheight, hpixels⟩
  rw [hcapture]
  exact himage

/-- What a grab comes to that begins at `start`, after the uses `us`: `done` and the camera `v'`, at
the instant `ended`.  It has made the reads `made`, and `unread` is what is left of the readings in
time. -/
structure Grabbed (us : List Use) (start : Timeline Event Rig)
    (made unread : List (Instant × Reading)) (done : Bool) (v' : SerialCamera) (ended : Instant) : Prop where
  /-- The readings in time are read in their order. -/
  line : inTime (start.now + grabTimeout) start = made ++ unread
  /-- The frame assembly takes what is read, one reading after the other. -/
  reads : v'.capture = ((useAll {} us).capture.withdraw.actAll (calls made)).2
  /-- The grab is true exactly if a read completes a frame. -/
  done_iff : done ↔
    ∃ bytes, .received bytes true ∈ ((useAll {} us).capture.withdraw.actAll (calls made)).1
  /-- It ends in time. -/
  timely : ended ≤ start.now + grabTimeout
  /-- It ends with the read that completes a frame, or else at its deadline with everything read. -/
  ended_eq : if done then made.getLast?.map Prod.fst = some ended
    else ended = start.now + grabTimeout ∧ unread = []
  /-- There is an image behind it exactly if it is true. -/
  isSome_iff : v'.capture.image?.isSome ↔ done
  /-- The image is that of a frame that ends with the last byte read, so its checksum came in during
  this grab. -/
  image : ∀ im, v'.capture.image? = some im →
    let bytes := bytesOf ((useAll {} us).capture.withdraw.actAll (calls made)).1
    EndsIn (takenIn us ++ bytes) im ∧ bytes.getLast? =
      some (Checksum.ofBytes (Camera.header im.width im.height ++ im.pixels.toList))
  /-- A frame that began to come in during an earlier grab is complete with its last byte. -/
  spanning : ∀ w h pixels, Underway us (inTime (start.now + grabTimeout) start) w h pixels →
    done ∧ ∃ im, v'.capture.image? = some im ∧
      im.width = w ∧ im.height = h ∧ im.pixels.toList = pixels

/-- A grab begins without a frame to hand out. -/
theorem follows_useAll (us : List Use) :
    (useAll {} us).capture.withdraw.Follows (takenIn us) none := by
  have hfresh : ({} : Capture captureCapacity).Follows [] none := ⟨trivial, rfl⟩
  have hfollows := (hfresh.actAll (us.flatMap Use.calls)).act .withdraw
  rw [List.nil_append] at hfollows
  have htaken : takenIn us = takenIn us ++ [] := (List.append_nil _).symm
  rw [capture_useAll, htaken]
  exact hfollows

/-- The last byte of a frame is its checksum. -/
theorem getLast?_of_endsIn {taken bytes : List UInt8} {im : Image captureCapacity}
    (h : EndsIn (taken ++ bytes) im) (hne : bytes ≠ []) :
    bytes.getLast? =
      some (Checksum.ofBytes (Camera.header im.width im.height ++ im.pixels.toList)) := by
  obtain ⟨-, front, hfront⟩ := h
  have hlast : (front ++ Camera.encodeFrame im.width im.height im.pixels.toList).getLast? =
      some (Checksum.ofBytes (Camera.header im.width im.height ++ im.pixels.toList)) := by
    rw [Camera.encodeFrame, ← List.append_assoc, List.getLast?_concat]
  rw [← List.getLast?_append_of_ne_nil taken hne, ← hfront, hlast]

/-- Reads of which the last completes a frame hand out that frame. -/
theorem image?_of_complete {taken bytes : List UInt8} {cs : List Call} {front : List Outcome}
    (hc : c.Follows taken none) (houtcomes : (c.actAll cs).1 = front ++ [.received bytes true])
    (hne : bytes ≠ []) :
    (c.actAll cs).2.image?.isSome ∧ ∀ im, (c.actAll cs).2.image? = some im →
      EndsIn (taken ++ bytesOf (c.actAll cs).1) im ∧ (bytesOf (c.actAll cs).1).getLast? =
        some (Checksum.ofBytes (Camera.header im.width im.height ++ im.pixels.toList)) := by
  have hoffers := (hc.actAll cs).offers
  have hlast : (c.actAll cs).1.foldl Capture.since none = some [] := by
    rw [houtcomes, List.foldl_append]
    rfl
  rw [hlast] at hoffers
  refine ⟨hoffers.isSome_iff.2 ⟨[], rfl, by simp [Camera.marker]⟩, fun im him => ?_⟩
  obtain ⟨whole, later, hlater, -, hbytes, hframe⟩ := hoffers.endsIn him
  obtain rfl : [] = later := by simpa using hlater
  rw [List.append_nil] at hbytes
  rw [← hbytes] at hframe
  refine ⟨hframe, getLast?_of_endsIn hframe ?_⟩
  rw [houtcomes]
  simp [bytesOf, Outcome.bytes, hne]

/-- Reads that complete no frame hand out none. -/
theorem image?_of_quiet {taken : List UInt8} {cs : List Call} (hc : c.Follows taken none)
    (hquiet : ∀ o ∈ (c.actAll cs).1, o.Quiet) : (c.actAll cs).2.image? = none := by
  have hoffers := (hc.actAll cs).offers
  cases hs : (c.actAll cs).1.foldl Capture.since none with
  | none =>
    rw [hs] at hoffers
    exact Capture.image?_of_not_ready hoffers
  | some later =>
    obtain ⟨before, bytes, after, heq, -, -⟩ := Capture.foldl_since_eq_some_iff.1 hs
    obtain ⟨bytes', hbytes⟩ := hquiet (.received bytes true) (by simp [heq])
    cases hbytes

theorem le_of_mem_inTime {due : Instant} {tl : Timeline Event Rig} {x : Instant × Reading}
    (h : x ∈ inTime due tl) : x.1 ≤ due := of_decide_eq_true (List.mem_filter.1 h).2

theorem Made.grabbed {us : List Use} {start : Timeline Event Rig}
    (h : Made (useAll {} us).capture.withdraw made unread found c')
    (hline : inTime (start.now + grabTimeout) start = made ++ unread)
    (hspanning : ∀ w h pixels, Underway us (inTime (start.now + grabTimeout) start) w h pixels →
      found.isSome ∧ ∃ im, c'.image? = some im ∧
        im.width = w ∧ im.height = h ∧ im.pixels.toList = pixels) :
    Grabbed us start made unread found.isSome ⟨c'⟩
      ((found.map Prod.fst).getD (start.now + grabTimeout)) := by
  have hfollows := follows_useAll us
  cases found with
  | none =>
    obtain ⟨hunread, hquiet⟩ := h.incomplete rfl
    have himage : c'.image? = none := by
      rw [h.state]
      exact image?_of_quiet hfollows hquiet
    exact {
      line := hline
      reads := h.state
      done_iff := by
        refine ⟨nofun, fun ⟨bytes, hbytes⟩ => ?_⟩
        obtain ⟨bytes', heq⟩ := hquiet _ hbytes
        cases heq
      timely := Nat.le_refl _
      ended_eq := ⟨rfl, hunread⟩
      isSome_iff := by
        rw [himage]
        rfl
      image := by
        intro im him
        rw [himage] at him
        cases him
      spanning := hspanning }
  | some x =>
    obtain ⟨t, ⟨⟩⟩ := x
    obtain ⟨hlast, front, bytes, houtcomes, hne, -⟩ := h.complete t rfl
    obtain ⟨hsome, himage⟩ := image?_of_complete hfollows houtcomes hne
    rw [← h.state] at hsome himage
    exact {
      line := hline
      reads := h.state
      done_iff := by
        rw [houtcomes]
        exact ⟨fun _ => ⟨bytes, by simp⟩, fun _ => rfl⟩
      timely := by
        obtain ⟨x, hx, rfl⟩ := Option.map_eq_some_iff.1 hlast
        have hmem : x ∈ inTime (start.now + grabTimeout) start := by
          rw [hline]
          exact List.mem_append_left _ (List.mem_of_getLast? hx)
        exact le_of_mem_inTime hmem
      ended_eq := hlast
      isSome_iff := ⟨fun _ => rfl, fun _ => hsome⟩
      image := himage
      spanning := hspanning }

/-- **A grab never hands out an old frame.**  After any grabs and geometry requests, whatever the
reads of each grab have brought, a grab ends by its deadline; it is true exactly if one of its reads
completes a frame, and exactly then there is an image behind it: that of the frame whose checksum it
has read. -/
theorem grab_hands_out_new_frame (us : List Use) {start : Timeline Event Rig}
    (h : Bounded start grabTimeout) : ∃ done v' tl made unread,
      (useAll {} us).grab start = .ok (done, v') tl ∧
        Grabbed us start made unread done v' tl.now := by
  obtain ⟨tl, hgrab, hnow⟩ := grab_eq_ok h (useAll {} us)
  obtain ⟨made, unread, hline, hmade⟩ := exists_made (useAll {} us).capture.withdraw
    (inTime (start.now + grabTimeout) start)
  have hgrabbed := hmade.grabbed hline fun _ _ _ hu => hu.complete
  rw [← hnow] at hgrabbed
  exact ⟨_, _, tl, made, unread, hgrab, hgrabbed⟩

/-- A frame of one pixel comes in during two grabs, with a geometry request in between and a fault.
-/
theorem pixel_over_two_grabs :
    let frame := Camera.encodeFrame 1 1 [7]
    let first : Timeline Event Rig :=
      { agenda := [(1000, .camera (.bytes (frame.take 5)))], shared := { rig := {} } }
    let second : Timeline Event Rig :=
      { now := 200000
        agenda := [(210000, .camera .fault), (220000, .camera (.bytes (frame.drop 5)))]
        shared := { rig := {} } }
    ∃ bounded : Bounded first grabTimeout,
      let us := [.grab first bounded, .request 160000 1 1 { rig := {} }]
      ∃ v' tl im, (useAll {} us).grab second = .ok (true, v') tl ∧ tl.now ≤ 350000 ∧
        v'.capture.image? = some im ∧ im.pixels.toList = [7] := by
  intro frame first second
  have hfirst : Bounded first grabTimeout := ⟨by simp [first], by decide, rfl⟩
  have hsecond : Bounded second grabTimeout := ⟨by simp [second], by decide, rfl⟩
  refine ⟨hfirst, ?_⟩
  intro us
  have hbytes : bytesIn (inTime (first.now + grabTimeout) first) = frame.take 5 := by
    decide +kernel
  have hline : inTime (second.now + grabTimeout) second =
      [(210000, .fault), (220000, .bytes (frame.drop 5))] := by decide +kernel
  have hunder : Underway us (inTime (second.now + grabTimeout) second) 1 1 [7] :=
    { width_ne := by decide
      height_ne := by decide
      length_eq := by decide
      fits := by decide
      bytes := by
        refine ⟨[], us, _, [], rfl, (List.append_nil _).symm, rfl, ?_, ?_⟩
        · rw [hline]
          decide
        · have hus : us.flatMap Use.bytes = bytesIn (inTime (first.now + grabTimeout) first) := by
            simp [us, Use.bytes]
          have hrest : bytesIn [(210000, .fault), (220000, .bytes (frame.drop 5))] =
              frame.drop 5 := by
            simp [bytesIn, Reading.data]
          rw [hus, hbytes, hline, hrest, List.take_append_drop] }
  obtain ⟨done, v', tl, made, unread, hgrab, hgrabbed⟩ := grab_hands_out_new_frame us hsecond
  obtain ⟨hdone, im, himage, -, -, hpixels⟩ := hgrabbed.spanning 1 1 [7] hunder
  have hdue : second.now + grabTimeout = 350000 := by decide
  have htimely := hgrabbed.timely
  rw [hdue] at htimely
  rw [hdone] at hgrab
  exact ⟨v', tl, im, hgrab, htimely, himage, hpixels⟩

end SerialCamera

end Board

end OnboardVision

import OnboardVision.Proofs.Telemetry.FrameBuffer

/-!
# Frames in a whole stream

The decoder against two descriptions that look at a stream as a whole:

* `Crsf.scan` goes through the stream frame by frame and gives the messages in it;
* `Crsf.Framed` says of messages with places that they are those of frames in the stream, one behind
  the other.

`Crsf.Decoder.messages_eq_scan` says that the decoder's messages are both, and that a decoder which
keeps the frame in a fixed buffer yields the same ones.
-/

namespace OnboardVision

namespace Crsf

/-- The message of a segment: a type, a payload, and the checksum over both. -/
def read? (segment : List UInt8) : Option Message := do
  let type ← segment.head?
  let checksum ← segment.getLast?
  let payload := segment.tail.dropLast
  if Checksum.ofBytes (type :: payload) = checksum then Message.decode type payload else none

/-- The messages in a stream.  The scan looks for a sync byte and reads the length behind it.  If
that is not a length, the scan goes on with it if it is a sync byte, and behind it otherwise.  If it
is, the scan reads a segment of so many bytes and goes on behind it, or ends if there are fewer. -/
def scan : List UInt8 → List Message
  | [] => []
  | [_] => []
  | b :: l :: rest =>
    if b = sync then
      if Accepts l then
        if rest.length < l.toNat then []
        else (read? (rest.take l.toNat)).toList ++ scan (rest.drop l.toNat)
      else if l = sync then scan (l :: rest)
      else scan rest
    else scan (l :: rest)
termination_by stream => stream.length
decreasing_by
  all_goals simp only [List.length_cons, List.length_drop]
  all_goals omega

/-- The stream, whose first byte has place `i`, consists of frames with the given messages, each
with the place of the frame's last byte, and of bytes before, between and behind them. -/
inductive Framed : ℕ → List UInt8 → List (ℕ × Message) → Prop
  | rest (i : ℕ) (stream : List UInt8) : Framed i stream []
  | frame {i : ℕ} {gap payload stream : List UInt8} {type : UInt8} {m : Message}
      {out : List (ℕ × Message)} :
      payload.length + 2 ≤ maxLength → Message.decode type payload = some m →
      Framed (i + gap.length + (payload.length + 4)) stream out →
      Framed i (gap ++ frame type payload ++ stream)
        ((i + gap.length + payload.length + 3, m) :: out)

theorem Framed.skip {i : ℕ} (front : List UInt8) {stream : List UInt8} {out : List (ℕ × Message)}
    (h : Framed (i + front.length) stream out) : Framed i (front ++ stream) out := by
  generalize hj : i + front.length = j at h
  cases h with
  | rest => exact .rest i _
  | @frame _ gap payload stream type m out hlen hm h =>
    subst hj
    rw [Nat.add_assoc i, ← List.length_append] at h
    simpa [Nat.add_assoc] using Framed.frame hlen hm h

theorem read?_eq_messageOf {segment : List UInt8} (h : minLength ≤ segment.length) :
    read? segment = messageOf segment := by
  cases segment with
  | nil => cases h
  | cons type rest =>
    rcases List.eq_nil_or_concat' rest with rfl | ⟨payload, c, rfl⟩
    · exact absurd (show 2 ≤ 1 from h) (by decide)
    · rw [← List.cons_append, messageOf_append_singleton, read?, List.getLast?_concat]
      simp [eq_comm]

/-- A segment behind its length is a frame if it has a message. -/
theorem Framed.segment {i : ℕ} {l : UInt8} {segment stream : List UInt8}
    {out : List (ℕ × Message)} (hl : Accepts l) (hlen : segment.length = l.toNat)
    (h : Framed (i + (segment.length + 2)) stream out) :
    Framed i (sync :: l :: segment ++ stream)
      (((messageOf segment).map (i + segment.length + 1, ·)).toList ++ out) := by
  cases hm : messageOf segment with
  | none => exact Framed.skip (sync :: l :: segment) h
  | some m =>
    obtain ⟨type, payload, rfl, hdecode⟩ := messageOf_eq_some_iff.1 hm
    have hsize : payload.length + 2 = l.toNat := by simpa using hlen
    rw [← frame_eq hsize]
    have hfit : payload.length + 2 ≤ maxLength := hsize ▸ hl.2
    have hframe := @Framed.frame i [] payload stream type m out hfit hdecode (by simpa using h)
    simpa [Nat.add_assoc] using hframe

namespace Decoder

/-- The decoder's messages are the scan's, and those of frames in the stream. -/
theorem feedAll_idle (i : ℕ) (stream : List UInt8) :
    (idle.feedAll i stream).1.map Prod.snd = scan stream ∧
      Framed i stream (idle.feedAll i stream).1 := by
  fun_induction scan stream generalizing i with
  | case1 => exact ⟨rfl, .rest i []⟩
  | case2 b =>
    by_cases hb : b = sync
    · rw [hb, feedAll_cons_of_none feed_idle_sync]
      exact ⟨rfl, .rest i _⟩
    · rw [feedAll_cons_of_none (feed_idle_of_ne hb)]
      exact ⟨rfl, .rest i _⟩
  | case3 l rest hl hshort =>
    rw [feedAll_cons_of_none feed_idle_sync, feedAll_cons_of_none (feed_opened_of_accepts hl),
      feedAll_inside_of_lt (by simpa using hshort)]
    exact ⟨rfl, .rest i _⟩
  | case4 l rest hl hlong ih =>
    -- the whole segment is there: it is read, and the scan goes on behind it
    have hlen : (rest.take l.toNat).length = l.toNat := by
      rw [List.length_take]
      omega
    have hrest : rest.take l.toNat ++ rest.drop l.toNat = rest := List.take_append_drop _ _
    generalize rest.take l.toNat = segment, rest.drop l.toNat = later at hlen hrest ih ⊢
    subst hrest
    have hread : read? segment = messageOf segment := read?_eq_messageOf (hlen ▸ hl.1)
    obtain ⟨hscan, hframed⟩ := ih (i + (segment.length + 2))
    rw [← List.cons_append, ← List.cons_append, feedAll_append, feedAll_segment hl hlen]
    refine ⟨?_, Framed.segment hl hlen hframed⟩
    rw [List.map_append, hread]
    cases messageOf segment <;> simp [hscan]
  | case5 rest hl ih =>
    obtain ⟨hscan, hframed⟩ := ih (i + 1)
    rw [feedAll_cons_of_none feed_idle_sync, feedAll_opened_of_not_accepts hl]
    exact ⟨hscan, Framed.skip [sync] hframed⟩
  | case6 l rest hl hne ih =>
    obtain ⟨hscan, hframed⟩ := ih (i + 2)
    rw [feedAll_cons_of_none feed_idle_sync, feedAll_opened_of_not_accepts hl,
      feedAll_cons_of_none (feed_idle_of_ne hne)]
    exact ⟨hscan, Framed.skip [sync, l] hframed⟩
  | case7 b l rest hb ih =>
    obtain ⟨hscan, hframed⟩ := ih (i + 1)
    rw [feedAll_cons_of_none (feed_idle_of_ne hb)]
    exact ⟨hscan, Framed.skip [b] hframed⟩

/-- **The messages in a stream.**  Byte by byte, the decoder yields the messages that the scan finds
in the whole stream, each at the last byte of its frame.  A fixed buffer is enough for that. -/
theorem messages_eq_scan (stream : List UInt8) :
    (idle.feedAll 0 stream).1.map Prod.snd = scan stream ∧
      Framed 0 stream (idle.feedAll 0 stream).1 ∧
      Buffer.feedAll? [] stream = some (scan stream, (idle.feedAll 0 stream).2.held) := by
  obtain ⟨hscan, hframed⟩ := feedAll_idle 0 stream
  refine ⟨hscan, hframed, ?_⟩
  rw [← hscan]
  exact Buffer.feedAll?_held (d := idle) trivial 0 stream

end Decoder

end Crsf

end OnboardVision

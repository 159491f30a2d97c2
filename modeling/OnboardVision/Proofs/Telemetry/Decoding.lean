import Mathlib.Data.List.Basic
import OnboardVision.Proofs.Checksum.Residue
import OnboardVision.Telemetry.Crsf

/-!
# What the decoder does with a stretch of bytes

`Crsf.Decoder` takes one byte at a time.  Here its steps are put together: what a stretch of bytes
does to a decoder between frames, after a sync byte and inside a frame.

* `Crsf.Decoder.feedAll_append`: stretches can be fed one after the other.
* `Crsf.Decoder.feedAll_segment`: an accepted length is followed by a segment of so many bytes, and
  the decoder is between frames again, whatever they are.
* `Crsf.Decoder.feedAll_frame`: a written frame is read back.
* `Crsf.messageOf_eq_some_iff`: which segments have a message.
-/

namespace OnboardVision

namespace Crsf

/-- A length byte that the decoder accepts. -/
def Accepts (l : UInt8) : Prop := minLength ≤ l.toNat ∧ l.toNat ≤ maxLength

instance (l : UInt8) : Decidable (Accepts l) := inferInstanceAs (Decidable (_ ∧ _))

theorem messageOf_append_singleton (content : List UInt8) (c : UInt8) :
    messageOf (content ++ [c]) =
      if c = Checksum.ofBytes content then
        content.head?.bind fun type => Message.decode type content.tail
      else none := by
  rw [messageOf, List.dropLast_concat, List.getLast?_concat]
  cases content with
  | nil => simp
  | cons type payload => simp

theorem messageOf_eq_none {content : List UInt8} {c : UInt8} (h : Checksum.ofBytes content ≠ c) :
    messageOf (content ++ [c]) = none := by
  rw [messageOf_append_singleton, if_neg (Ne.symm h)]

theorem messageOf_frame (type : UInt8) (payload : List UInt8) :
    messageOf (type :: payload ++ [Checksum.ofBytes (type :: payload)]) =
      Message.decode type payload := by
  rw [messageOf_append_singleton, if_pos rfl]
  rfl

theorem messageOf_eq_some_iff {segment : List UInt8} {m : Message} :
    messageOf segment = some m ↔ ∃ type payload,
      segment = type :: payload ++ [Checksum.ofBytes (type :: payload)] ∧
        Message.decode type payload = some m := by
  constructor
  · intro h
    rcases List.eq_nil_or_concat' segment with rfl | ⟨content, c, rfl⟩
    · cases h
    · rw [messageOf_append_singleton] at h
      split at h
      · rename_i hc
        cases content with
        | nil => cases h
        | cons type payload => exact ⟨type, payload, by rw [hc], h⟩
      · cases h
  · rintro ⟨type, payload, rfl, h⟩
    rw [messageOf_frame, h]

/-- A segment with a checksum that fits, behind a sync byte and its length, is a frame. -/
theorem frame_eq {l type : UInt8} {payload : List UInt8} (h : payload.length + 2 = l.toNat) :
    frame type payload =
      sync :: l :: (type :: payload ++ [Checksum.ofBytes (type :: payload)]) := by
  rw [frame, h, UInt8.ofNat_toNat]
  rfl

namespace Decoder

variable {d d' : Decoder} {i length : ℕ} {b l : UInt8} {received bytes : List UInt8}

/-! ### Feeding -/

theorem feedAll_cons (d : Decoder) (i : ℕ) (b : UInt8) (bytes : List UInt8) :
    d.feedAll i (b :: bytes) =
      (((d.feed b).1.map (i, ·)).toList ++ ((d.feed b).2.feedAll (i + 1) bytes).1,
        ((d.feed b).2.feedAll (i + 1) bytes).2) := rfl

theorem feedAll_cons_of_none (h : d.feed b = (none, d')) :
    d.feedAll i (b :: bytes) = d'.feedAll (i + 1) bytes := by
  rw [feedAll_cons, h]
  rfl

theorem feedAll_append (d : Decoder) (i : ℕ) (xs ys : List UInt8) :
    d.feedAll i (xs ++ ys) =
      ((d.feedAll i xs).1 ++ ((d.feedAll i xs).2.feedAll (i + xs.length) ys).1,
        ((d.feedAll i xs).2.feedAll (i + xs.length) ys).2) := by
  induction xs generalizing d i with
  | nil => rfl
  | cons b xs ih =>
    rw [List.cons_append, feedAll_cons, feedAll_cons, ih, List.length_cons, List.append_assoc,
      Nat.add_assoc, Nat.add_comm 1]

/-! ### Between frames and after a sync byte -/

theorem feed_idle_sync : idle.feed sync = (none, opened) := rfl

theorem feed_idle_of_ne (h : b ≠ sync) : idle.feed b = (none, idle) := by
  rw [feed, if_neg h]

theorem feed_opened_of_accepts (h : Accepts l) : opened.feed l = (none, inside l.toNat []) :=
  if_pos h

/-- A byte that is no length counts as if nothing had come before it: it may be a sync byte. -/
theorem feedAll_opened_of_not_accepts (h : ¬ Accepts l) :
    opened.feedAll i (l :: bytes) = idle.feedAll i (l :: bytes) := by
  have hfeed : opened.feed l = idle.feed l := if_neg h
  rw [feedAll_cons, feedAll_cons, hfeed]

/-! ### Inside a frame -/

theorem feed_inside_of_lt (h : received.length + 1 < length) :
    (inside length received).feed b = (none, inside length (received ++ [b])) := by
  simp only [feed, List.length_append, List.length_singleton, h, ↓reduceIte]

theorem feed_inside_of_le (h : length ≤ received.length + 1) :
    (inside length received).feed b = (messageOf (received ++ [b]), idle) := by
  simp only [feed, List.length_append, List.length_singleton, Nat.not_lt.2 h, ↓reduceIte]

theorem feedAll_inside_of_lt (h : received.length + bytes.length < length) :
    (inside length received).feedAll i bytes = ([], inside length (received ++ bytes)) := by
  induction bytes generalizing received i with
  | nil =>
    rw [List.append_nil]
    rfl
  | cons b bytes ih =>
    rw [List.length_cons] at h
    have hrest : (received ++ [b]).length + bytes.length < length := by
      rw [List.length_append, List.length_singleton]
      omega
    rw [feedAll_cons_of_none (feed_inside_of_lt (by omega)), ih hrest, List.append_assoc]
    rfl

/-- The bytes that are missing in a frame end it. -/
theorem feedAll_inside (hne : bytes ≠ []) (h : received.length + bytes.length = length) :
    (inside length received).feedAll i bytes =
      (((messageOf (received ++ bytes)).map (i + bytes.length - 1, ·)).toList, idle) := by
  obtain ⟨front, b, rfl⟩ := (List.eq_nil_or_concat' bytes).resolve_left hne
  rw [List.length_append, List.length_singleton] at h
  have hlast : length ≤ (received ++ front).length + 1 := by
    rw [List.length_append]
    omega
  rw [feedAll_append, feedAll_inside_of_lt (by omega), feedAll_cons, feed_inside_of_le hlast,
    List.append_assoc]
  simp [feedAll]

/-! ### Whole frames -/

/-- The segment behind an accepted length is read for what it is, and the decoder is between frames
again. -/
theorem feedAll_segment {segment : List UInt8} (hl : Accepts l) (hlen : segment.length = l.toNat) :
    idle.feedAll i (sync :: l :: segment) =
      (((messageOf segment).map (i + segment.length + 1, ·)).toList, idle) := by
  have hne : segment ≠ [] := by
    rintro rfl
    have := hl.1
    rw [← hlen] at this
    cases this
  have hplace : i + 1 + 1 + segment.length - 1 = i + segment.length + 1 := by omega
  rw [feedAll_cons_of_none feed_idle_sync, feedAll_cons_of_none (feed_opened_of_accepts hl),
    feedAll_inside hne (by simpa using hlen), hplace, List.nil_append]

theorem accepts_length {payload : List UInt8} (h : payload.length + 2 ≤ maxLength) :
    Accepts (UInt8.ofNat (payload.length + 2)) ∧
      (UInt8.ofNat (payload.length + 2)).toNat = payload.length + 2 := by
  have hval : (UInt8.ofNat (payload.length + 2)).toNat = payload.length + 2 :=
    UInt8.toNat_ofNat_of_lt' (Nat.lt_of_le_of_lt h (by decide))
  refine ⟨?_, hval⟩
  rw [Accepts, hval]
  exact ⟨Nat.le_add_left _ _, h⟩

theorem feedAll_frame {type : UInt8} {payload : List UInt8} (h : payload.length + 2 ≤ maxLength) :
    idle.feedAll i (frame type payload) =
      (((Message.decode type payload).map (i + payload.length + 3, ·)).toList, idle) := by
  obtain ⟨hl, hval⟩ := accepts_length h
  have hlen : (type :: payload ++ [Checksum.ofBytes (type :: payload)]).length =
      (UInt8.ofNat (payload.length + 2)).toNat := by
    rw [hval]
    simp
  have hseg := feedAll_segment (i := i) hl hlen
  rw [messageOf_frame] at hseg
  simpa [frame, Nat.add_assoc] using hseg

end Decoder

end Crsf

end OnboardVision

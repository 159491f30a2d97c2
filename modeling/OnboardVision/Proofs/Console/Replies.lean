import OnboardVision.Board.ConsoleSession
import OnboardVision.Proofs.Console.Effects
import OnboardVision.Proofs.Settings.Calls
import OnboardVision.Proofs.Settings.Period

/-!
# Replies go out whole

A reply is written piece by piece into a buffer of 96 bytes, and what does not fit is lost without
notice (`writeAll`).  It is sent in packets of 64 bytes.  So a reply reaches the host as one packet,
and all of it, if it is shorter than a packet (`Whole`).

* `LineError.whole_reply`: the replies to lines that are no commands;
* `Snapshot.Sound.utf8ByteSize_reply_le`: the longest that a snapshot can get.

Main statement:

* `Hub.replies_whole`: the reply to every line after every history goes out whole, unless it would
  show a period beyond the end of the clock.
-/

namespace OnboardVision

/-! ### Writing into a buffer -/

/-- How many bytes a reply may have. -/
def replyCapacity : ℕ := 96

/-- Writes pieces behind a text in a buffer of `capacity` bytes, and tells whether all of them are
in it.  A piece that does not fit is left out whole, and ends the writing. -/
def writeAll (capacity : ℕ) : String → List String → String × Bool
  | text, [] => (text, true)
  | text, piece :: pieces =>
    if text.utf8ByteSize + piece.utf8ByteSize ≤ capacity then
      writeAll capacity (text ++ piece) pieces
    else (text, false)

/-- A text that fits is written whole, whatever the pieces are. -/
theorem writeAll_of_le {capacity : ℕ} (pieces : List String) (text : String)
    (h : (text ++ String.join pieces).utf8ByteSize ≤ capacity) :
    writeAll capacity text pieces = (text ++ String.join pieces, true) := by
  induction pieces generalizing text with
  | nil => simp [writeAll]
  | cons piece pieces ih =>
    rw [String.join_cons, ← String.append_assoc] at h ⊢
    have hfit : text.utf8ByteSize + piece.utf8ByteSize ≤ capacity := by
      rw [String.utf8ByteSize_append, String.utf8ByteSize_append] at h
      omega
    rw [writeAll, if_pos hfit, ih _ h]

/-- A reply that nothing is lost of, and that is one packet. -/
structure Whole (reply : String) : Prop where
  /-- It is a line. -/
  ends : ∃ text, reply = text ++ lineEnd
  /-- It is shorter than the largest packet. -/
  short : reply.utf8ByteSize < Board.maxPacket
  /-- However it is cut into pieces, all of them are written. -/
  written : ∀ pieces, String.join pieces = reply → writeAll replyCapacity "" pieces = (reply, true)
  /-- Its bytes are one packet. -/
  bytes : Board.pieces Board.maxPacket reply.toByteArray.data.toList =
    [reply.toByteArray.data.toList]
  /-- So it is sent as it is. -/
  packet : Board.packetsOf reply = [reply]

/-- A character takes a byte at least. -/
theorem length_le_utf8Len (cs : List Char) : cs.length ≤ String.utf8Len cs := by
  induction cs with
  | nil => exact Nat.le_refl 0
  | cons c cs ih =>
    rw [String.utf8Len_cons, List.length_cons]
    exact Nat.add_le_add ih c.utf8Size_pos

theorem length_toList_le (text : String) : text.toList.length ≤ text.utf8ByteSize := by
  have h := length_le_utf8Len text.toList
  rwa [← String.utf8ByteSize_ofList, String.ofList_toList] at h

theorem pieces_of_le {α : Type} {n : ℕ} {l : List α} (h : l.length ≤ n) :
    Board.pieces n l = [l] := by
  rw [Board.pieces, dif_pos (.inr h)]

/-- Whatever is shorter than a packet goes out whole. -/
theorem whole_of_lt {text : String} (h : (text ++ lineEnd).utf8ByteSize < Board.maxPacket) :
    Whole (text ++ lineEnd) := by
  refine ⟨⟨text, rfl⟩, h, fun pieces hpieces => ?_, pieces_of_le ?_, ?_⟩
  · have hfits : ("" ++ String.join pieces).utf8ByteSize ≤ replyCapacity := by
      rw [String.empty_append, hpieces]
      exact Nat.le_trans (Nat.le_of_lt h) (by decide)
    rw [writeAll_of_le pieces "" hfits, String.empty_append, hpieces]
  · exact Nat.le_of_lt h
  · rw [Board.packetsOf, pieces_of_le (Nat.le_trans (length_toList_le _) (Nat.le_of_lt h))]
    simp

/-! ### How long replies are -/

theorem utf8Len_of_digits {cs : List Char} (h : ∀ c ∈ cs, c.isDigit = true) :
    String.utf8Len cs = cs.length := by
  induction cs with
  | nil => rfl
  | cons c cs ih =>
    have hc : c.utf8Size = 1 := by
      have hdigit := Char.isDigit_iff_toNat.1 (h c List.mem_cons_self)
      have hascii : c.toNat ≤ 127 := Nat.le_trans hdigit.2 (by decide)
      exact Char.utf8Size_eq_one_iff.2 (UInt32.le_iff_toNat_le.2 hascii)
    rw [String.utf8Len_cons, ih fun d hd => h d (List.mem_cons_of_mem c hd), hc, List.length_cons]

/-- A number below a power of ten has that many digits at most, each of them a byte. -/
theorem utf8ByteSize_toString_le {n k : ℕ} (hk : 0 < k) (h : n < 10 ^ k) :
    (toString n).utf8ByteSize ≤ k := by
  have hlist : toString n = String.ofList (Nat.toDigits 10 n) := rfl
  rw [hlist, String.utf8ByteSize_ofList, utf8Len_of_digits fun c hc =>
    Nat.isDigit_of_mem_toDigits (by decide) (by decide) hc]
  exact Nat.toDigits_length 10 n k hk h

theorem utf8ByteSize_size_le (width height : UInt16) :
    (Note.size width height).utf8ByteSize ≤ 11 := by
  have hside : ∀ n : UInt16, (toString n.toNat).utf8ByteSize ≤ 5 := fun n =>
    utf8ByteSize_toString_le (by decide) (Nat.lt_trans n.toNat_lt (by decide))
  have hx : "x".utf8ByteSize = 1 := by decide
  rw [Note.size, String.utf8ByteSize_append, String.utf8ByteSize_append, hx]
  have := hside width
  have := hside height
  omega

namespace Single

/-- A rate of 1000 Hz has the most digits before the point, and rounding cannot add another one. -/
theorem utf8ByteSize_tenths_le {k : Fin infRank} (h : k.val ≤ thousand) :
    (finite false k).tenths.utf8ByteSize ≤ 6 := by
  obtain ⟨d, hd⟩ : ∃ d, roundHalfEven (magnitude k * 10) unitsPerOne = d := ⟨_, rfl⟩
  have hdigits : d ≤ 10000 := by
    have hmono : roundHalfEven (magnitude k * 10) unitsPerOne ≤
        roundHalfEven (magnitude thousand * 10) unitsPerOne :=
      roundHalfEven_mono unitsPerOne_pos unitsPerOne_pos
        (Nat.mul_le_mul_right _ (Nat.mul_le_mul_right 10 (magnitude_mono h)))
    exact hd ▸ Nat.le_trans hmono (by decide)
  have hsign : (if false = true then "-" else "").utf8ByteSize = 0 := by decide
  have hwhole : (toString (d / 10)).utf8ByteSize ≤ 4 :=
    utf8ByteSize_toString_le (by decide) (by omega)
  have hpoint : ".".utf8ByteSize = 1 := by decide
  have hlast : (toString (d % 10)).utf8ByteSize ≤ 1 :=
    utf8ByteSize_toString_le (by decide) (Nat.mod_lt _ (by decide))
  rw [tenths_finite hd, String.utf8ByteSize_append, String.utf8ByteSize_append,
    String.utf8ByteSize_append, hsign, hpoint]
  omega

end Single

/-- A snapshot takes sixty bytes at most. -/
theorem Snapshot.Sound.utf8ByteSize_reply_le {sn : Snapshot} (h : sn.Sound)
    (hclock : sn.period ≤ endOfTime) : sn.reply.utf8ByteSize ≤ 60 := by
  obtain ⟨r, hr, -, hle⟩ := h.exists_rank
  have hrate : sn.rate.tenths.utf8ByteSize ≤ 6 := hr ▸ Single.utf8ByteSize_tenths_le hle
  have hsize := utf8ByteSize_size_le sn.width sn.height
  -- the clock has no period of more than 17 digits
  have hperiod : (toString sn.period.toMillis).utf8ByteSize ≤ 17 := by
    refine utf8ByteSize_toString_le (by decide) ?_
    have hticks : sn.period % (endOfTime + 1) ≤ endOfTime := Nat.le_trans (Nat.mod_le _ _) hclock
    exact Nat.lt_of_le_of_lt (Nat.div_le_div_right hticks) (by decide)
  have hcfg : "[CFG] ".utf8ByteSize = 6 := by decide
  have hat : " @ ".utf8ByteSize = 3 := by decide
  have hunit : " Hz, period ".utf8ByteSize = 12 := by decide
  have hms : " ms".utf8ByteSize = 3 := by decide
  have hend : lineEnd.utf8ByteSize = 2 := by decide
  simp only [reply, String.utf8ByteSize_append, hcfg, hat, hunit, hms, hend]
  omega

theorem Snapshot.Sound.whole_reply {sn : Snapshot} (h : sn.Sound) (hclock : sn.period ≤ endOfTime) :
    Whole sn.reply :=
  whole_of_lt (Nat.lt_of_le_of_lt (h.utf8ByteSize_reply_le hclock) (by decide))

theorem LineError.whole_reply (e : LineError) : Whole e.reply := by
  refine whole_of_lt ?_
  cases e <;> decide

namespace Hub

/-- Every snapshot that is ever in force has passed the checks or is the default. -/
theorem sound_run (start : Settings) (capacities : List ℕ) (counters : ℕ) (as : List Action)
    (i : Fin capacities.length) :
    (((fresh start capacities counters).run as).snapshot i).Sound :=
  (inForce_snapshot start counters as (List.getElem?_eq_getElem i.isLt)).sound

/-- **Replies go out whole.**  After every history the snapshot in force, every error, and the reply
to every line fill less than a packet, so that nothing of them is lost and each of them is one packet.
Only a snapshot whose period is beyond the end of the clock is left out. -/
theorem replies_whole (start : Settings) (capacities : List ℕ) (counters : ℕ) (as : List Action)
    (i : Fin capacities.length) :
    let h := (fresh start capacities counters).run as
    (∀ e : LineError, Whole e.reply) ∧
    ((h.snapshot i).period ≤ endOfTime → Whole (h.snapshot i).reply) ∧
    ∀ line, (∀ c, line >>= Command.read = .ok c →
        ((h.execute i line).hub.snapshot i).period ≤ endOfTime) →
      Whole (h.execute i line).reply := by
  intro h
  refine ⟨LineError.whole_reply, (sound_run start capacities counters as i).whole_reply,
    fun line hclock => ?_⟩
  cases hline : line >>= Command.read with
  | error e =>
    rw [execute_of_error hline]
    exact e.whole_reply
  | ok c =>
    -- running the line is one more call of the history
    obtain ⟨as', has'⟩ := h.leads_execute i line
    have hrun : (h.execute i line).hub = (fresh start capacities counters).run (as ++ as') := by
      rw [has']
      exact List.foldl_append.symm
    rw [reply_execute h i hline]
    refine Snapshot.Sound.whole_reply ?_ (hclock c hline)
    rw [hrun]
    exact sound_run start capacities counters (as ++ as') i

/-- The largest frame, and a rate so low that its period has seventeen digits. -/
theorem slow_snapshot_whole :
    let slow : Settings := { width := 65535, height := 65535, rate := .ofBits 0x297a0000 }
    let as : List Action := [.connect (.published 0), .update fun _ => slow]
    let h := (fresh {} [2 ^ 32] 0).run as
    (h.snapshot 0).period ≤ endOfTime ∧ Whole (h.snapshot 0).reply ∧
      (h.snapshot 0).reply =
        "[CFG] 65535x65535 @ 0.0 Hz, period 18014398509481984 ms\r\n" := by
  intro slow as h
  have hclock : (h.snapshot 0).period ≤ endOfTime := by decide
  obtain ⟨-, hwhole, -⟩ := replies_whole {} [2 ^ 32] 0 as 0
  exact ⟨hclock, hwhole hclock, by decide⟩

end Hub

end OnboardVision

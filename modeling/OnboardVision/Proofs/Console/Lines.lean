import Mathlib.Data.List.Basic
import Mathlib.Data.List.DropRight
import OnboardVision.Console.Line
import OnboardVision.Proofs.Console.Words

/-!
# Lines of a whole stream

`LineReader.lines` splits a stream at its terminators all at once: every segment that is ended by
one is a line, or an overflow, or nothing if it is blank.  The reader, which takes one byte after
the other, finds the same lines (`LineReader.feedAll_eq_lines`), each of them at its terminator
(`LineReader.feedAll_splits`).
-/

namespace OnboardVision

namespace LineReader

/-- The segments of a stream that are ended by a terminator. -/
def segments (stream : List UInt8) : List (List UInt8) := (stream.splitOnP isTerminator).dropLast

/-- A segment is lost if it is too long or not ASCII. -/
def Lost (segment : List UInt8) : Prop := capacity < segment.length ∨ ∃ b ∈ segment, ¬ b < 128

instance (segment : List UInt8) : Decidable (Lost segment) := by
  unfold Lost
  infer_instance

/-- The character of a byte. -/
def char (b : UInt8) : Char := Char.ofNat b.toNat

/-- What a segment comes to. -/
def lineOf (segment : List UInt8) : Option (Except LineError (List Char)) :=
  if Lost segment then some (.error .overflow)
  else if (segment.map char).all isBlank then none
  else some (.ok (segment.map char))

/-- The lines of a stream. -/
def lines (stream : List UInt8) : List (Except LineError (List Char)) :=
  (segments stream).filterMap lineOf

/-! ### The reader -/

variable {r : LineReader} {segment : List UInt8} {b : UInt8}

/-- The reader has come to the end of the segment. -/
structure Holds (r : LineReader) (segment : List UInt8) : Prop where
  /-- It is all of one line. -/
  unended : ∀ b ∈ segment, isTerminator b = false
  /-- The reader knows whether it is lost. -/
  overflowed_iff : r.overflowed ↔ Lost segment
  /-- If not, the reader has its characters. -/
  held : r.overflowed = false → r.held = segment.map char

theorem holds_nil : Holds {} [] :=
  ⟨nofun, by simp [Lost], fun _ => rfl⟩

theorem lost_concat :
    Lost (segment ++ [b]) ↔ Lost segment ∨ ¬ (b < 128 ∧ segment.length < capacity) := by
  have hlength : capacity < segment.length + 1 ↔
      capacity < segment.length ∨ ¬ segment.length < capacity := by omega
  simp only [Lost, List.length_append, List.length_singleton, List.mem_append, List.mem_singleton,
    or_and_right, exists_or, exists_eq_left, hlength, not_and_or]
  grind

/-- A byte that goes on with the line. -/
theorem Holds.feed (h : r.Holds segment) (hb : isTerminator b = false) :
    ∃ r', r.feed b = (none, r') ∧ r'.Holds (segment ++ [b]) := by
  have hunended : ∀ x ∈ segment ++ [b], isTerminator x = false := by
    intro x hx
    rcases List.mem_append.1 hx with hx | hx
    · exact h.unended x hx
    · rw [List.mem_singleton.1 hx]
      exact hb
  -- a reader that has lost nothing knows how long the line is
  have hlength : r.overflowed = false → r.held.length = segment.length := by
    intro hover
    rw [h.held hover, List.length_map]
  rw [LineReader.feed, hb]
  by_cases hfit : b < 128 ∧ r.held.length < capacity
  · refine ⟨_, if_pos hfit, hunended, ?_, fun hover => ?_⟩
    · rw [lost_concat, ← h.overflowed_iff]
      cases hover : r.overflowed with
      | true => simp
      | false => simpa [hlength hover] using hfit
    · rw [List.map_append, ← h.held hover]
      rfl
  · refine ⟨_, if_neg hfit, hunended, ?_, nofun⟩
    rw [lost_concat, ← h.overflowed_iff]
    cases hover : r.overflowed with
    | true => simp
    | false => simpa [hlength hover] using hfit

theorem Holds.finish (h : r.Holds segment) : r.finish = lineOf segment := by
  rw [LineReader.finish, lineOf]
  cases hover : r.overflowed with
  | true => simp [h.overflowed_iff.1 hover]
  | false =>
    have hkept : ¬ Lost segment := fun hlost => by
      rw [h.overflowed_iff.2 hlost] at hover
      cases hover
    simp [hkept, h.held hover]

theorem Holds.feedAll (h : r.Holds segment) (i : ℕ) (stream : List UInt8) :
    (r.feedAll i stream).1.map Prod.snd = lines (segment ++ stream) := by
  -- along the stream: the segment in progress grows, or it is ended and the next one begins
  induction stream generalizing r i segment with
  | nil => simp [LineReader.feedAll, lines, segments, List.splitOnP_eq_singleton h.unended]
  | cons b stream ih =>
    rw [LineReader.feedAll]
    cases hb : isTerminator b with
    | true =>
      have hfeed : r.feed b = (lineOf segment, {}) := by
        rw [LineReader.feed, hb, if_pos rfl, h.finish]
      have hsplit : segments (segment ++ b :: stream) = segment :: segments stream := by
        rw [segments, List.splitOnP_append_cons_of_forall_mem h.unended b hb,
          List.dropLast_cons_of_ne_nil (List.splitOnP_ne_nil _ _)]
        rfl
      have hrest := ih holds_nil (i + 1)
      rw [List.nil_append] at hrest
      rw [hfeed, lines, hsplit, List.filterMap_cons]
      cases lineOf segment <;> simp [hrest, lines]
    | false =>
      obtain ⟨r', hfeed, hholds⟩ := h.feed hb
      have hrest := ih hholds (i + 1)
      rw [hfeed, List.append_cons, ← hrest]
      simp

/-- **The reader finds the lines of the stream.**  They do not depend on where a read of it ends and
the next one begins. -/
theorem feedAll_eq_lines (i : ℕ) (stream : List UInt8) :
    (({} : LineReader).feedAll i stream).1.map Prod.snd = lines stream := holds_nil.feedAll i stream

/-- A line, a line feed behind its carriage return, a line with a byte that is not ASCII, and a line
that has not ended. -/
example : lines [104, 105, 13, 10, 200, 10, 120] = [.ok ['h', 'i'], .error .overflow] := by
  decide +kernel

theorem feedAll_cons (r : LineReader) (i : ℕ) (b : UInt8) (bs : List UInt8) :
    r.feedAll i (b :: bs) =
      (((r.feed b).1.map (i, ·)).toList ++ ((r.feed b).2.feedAll (i + 1) bs).1,
        ((r.feed b).2.feedAll (i + 1) bs).2) := rfl

/-- The reader goes on where it was. -/
theorem feedAll_append (r : LineReader) (i : ℕ) (xs ys : List UInt8) :
    r.feedAll i (xs ++ ys) =
      ((r.feedAll i xs).1 ++ ((r.feedAll i xs).2.feedAll (i + xs.length) ys).1,
        ((r.feedAll i xs).2.feedAll (i + xs.length) ys).2) := by
  induction xs generalizing r i with
  | nil => rfl
  | cons x xs ih =>
    have hplace : i + 1 + xs.length = i + (x :: xs).length := by
      rw [List.length_cons, Nat.add_assoc, Nat.add_comm 1]
    rw [List.cons_append, feedAll_cons, feedAll_cons, ih, hplace, List.append_assoc]

theorem feedAll_singleton (r : LineReader) (i : ℕ) (b : UInt8) :
    r.feedAll i [b] = (((r.feed b).1.map (i, ·)).toList, (r.feed b).2) := by
  rw [feedAll_cons, feedAll, List.append_nil]

/-- One more byte of the stream. -/
theorem feedAll_concat (r : LineReader) (i : ℕ) (stream : List UInt8) (b : UInt8) :
    (r.feedAll i (stream ++ [b])).1.map Prod.snd = (r.feedAll i stream).1.map Prod.snd ++
        ((r.feedAll i stream).2.feed b).1.toList ∧
      (r.feedAll i (stream ++ [b])).2 = ((r.feedAll i stream).2.feed b).2 := by
  rw [feedAll_append, feedAll_singleton]
  rcases ((r.feedAll i stream).2.feed b).1 with _ | line <;> simp

theorem lines_concat (stream : List UInt8) (b : UInt8) : lines (stream ++ [b]) =
    lines stream ++ ((({} : LineReader).feedAll 0 stream).2.feed b).1.toList := by
  rw [← feedAll_eq_lines 0, ← feedAll_eq_lines 0, (feedAll_concat _ _ _ _).1]

/-! ### The line in progress -/

/-- What a stream has behind its last terminator. -/
def unfinished (stream : List UInt8) : List UInt8 := stream.rtakeWhile (!isTerminator ·)

theorem unfinished_concat (stream : List UInt8) (b : UInt8) :
    unfinished (stream ++ [b]) = if isTerminator b then [] else unfinished stream ++ [b] := by
  rw [unfinished, List.rtakeWhile_concat]
  cases isTerminator b <;> rfl

theorem unfinished_append (xs ys : List UInt8) :
    unfinished (xs ++ ys) = if ys.any isTerminator then unfinished ys else unfinished xs ++ ys := by
  induction ys using List.reverseRecOn with
  | nil => simp
  | append_singleton ys b ih =>
    rw [← List.append_assoc, unfinished_concat, ih, unfinished_concat, List.any_append]
    cases hb : isTerminator b <;> cases ys.any isTerminator <;> simp [hb]

theorem unfinished_suffix (stream : List UInt8) : unfinished stream <:+ stream :=
  List.rtakeWhile_suffix _ _

theorem unfinished_eq_self {stream : List UInt8} (h : stream.any isTerminator = false) :
    unfinished stream = stream := by
  have hnothing := unfinished_append [] stream
  rw [h] at hnothing
  exact hnothing

/-- The reader has come to the end of the line in progress, and goes on with the next byte. -/
theorem Holds.next {stream : List UInt8} (h : r.Holds (unfinished stream)) (b : UInt8) :
    (r.feed b).2.Holds (unfinished (stream ++ [b])) := by
  rw [unfinished_concat]
  cases hb : isTerminator b with
  | true =>
    rw [LineReader.feed, hb]
    exact holds_nil
  | false =>
    obtain ⟨r', hfeed, hholds⟩ := h.feed hb
    rw [hfeed]
    exact hholds

/-- A byte yields something exactly if it is a terminator, and that is what its segment comes to. -/
theorem Holds.feed_fst (h : r.Holds segment) (b : UInt8) :
    (r.feed b).1 = if isTerminator b then lineOf segment else none := by
  cases hb : isTerminator b with
  | true => rw [LineReader.feed, hb, if_pos rfl, h.finish, if_pos rfl]
  | false =>
    obtain ⟨r', hfeed, -⟩ := h.feed hb
    rw [hfeed]
    rfl

/-- A line is ended by a terminator, and it is what the segment comes to. -/
theorem Holds.line {line : Except LineError (List Char)} (h : r.Holds segment)
    (hline : (r.feed b).1 = some line) : isTerminator b ∧ lineOf segment = some line := by
  rw [h.feed_fst, Option.ite_none_right_eq_some] at hline
  exact hline

/-! ### Byte by byte -/

/-- After a stream the reader has come to the end of its last line. -/
theorem holds_feedAll (i : ℕ) (stream : List UInt8) :
    (({} : LineReader).feedAll i stream).2.Holds (unfinished stream) := by
  induction stream using List.reverseRecOn with
  | nil => exact holds_nil
  | append_singleton stream b ih =>
    rw [(feedAll_concat _ _ _ _).2]
    exact ih.next b

theorem feed_fst_of_not_terminator (r : LineReader) (hb : isTerminator b = false) :
    (r.feed b).1 = none := by
  rw [feed, hb, if_neg Bool.false_ne_true]
  split <;> rfl

/-- Bytes without a terminator yield nothing. -/
theorem feedAll_fst_eq_nil (r : LineReader) (i : ℕ) {tail : List UInt8}
    (h : tail.any isTerminator = false) : (r.feedAll i tail).1 = [] := by
  induction tail generalizing r i with
  | nil => rfl
  | cons b tail ih =>
    rw [List.any_cons, Bool.or_eq_false_iff] at h
    rw [feedAll_cons, feed_fst_of_not_terminator r h.1]
    exact ih _ _ h.2

theorem mem_toList_map_iff {α : Type} {o : Option α} {n place : ℕ} {line : α} :
    (place, line) ∈ (o.map (n, ·)).toList ↔ place = n ∧ o = some line := by
  cases o with
  | none => simp
  | some l => simp [eq_comm]

/-- What a byte yields stands at its place. -/
theorem mem_feedAll_iff (stream : List UInt8) (place : ℕ) (line : Except LineError (List Char)) :
    (place, line) ∈ (({} : LineReader).feedAll 0 stream).1 ↔
      ∃ b, stream[place]? = some b ∧ isTerminator b ∧
        lineOf (unfinished (stream.take place)) = some line := by
  induction stream using List.reverseRecOn with
  | nil => simp [LineReader.feedAll]
  | append_singleton stream b ih =>
    rw [feedAll_append, feedAll_singleton, List.mem_append, ih, Nat.zero_add,
      (holds_feedAll 0 stream).feed_fst, mem_toList_map_iff]
    rcases Nat.lt_trichotomy place stream.length with hlt | rfl | hgt
    · simp [Nat.ne_of_lt hlt, List.getElem?_append_left hlt,
        List.take_append_of_le_length (Nat.le_of_lt hlt)]
    · cases hb : isTerminator b <;> simp [hb]
    · have hbehind : (stream ++ [b])[place]? = none := by
        rw [List.getElem?_eq_none_iff, List.length_append]
        exact hgt
      simp [Nat.ne_of_gt hgt, hbehind, Nat.le_of_lt hgt]

/-- The characters of a line that is not lost are its bytes. -/
theorem map_toNat_char (segment : List UInt8) :
    (segment.map char).map Char.toNat = segment.map UInt8.toNat := by
  rw [List.map_map]
  refine List.map_congr_left fun b _ => ?_
  have hvalid : b.toNat.isValidChar := .inl (Nat.lt_trans b.toNat_lt (by decide))
  rw [Function.comp_apply, char, Char.ofNat, dif_pos hvalid]
  rfl

theorem lineOf_eq_ok_iff {line : List Char} : lineOf segment = some (.ok line) ↔
    ¬ Lost segment ∧ line = segment.map char ∧ ¬ line.all isBlank := by
  rw [lineOf]
  split
  · rename_i hlost
    simp [hlost]
  · rename_i hkept
    split
    · rename_i hblank
      refine iff_of_false nofun ?_
      rintro ⟨-, rfl, hline⟩
      exact hline hblank
    · rename_i hblank
      constructor
      · intro hline
        cases hline
        exact ⟨hkept, rfl, hblank⟩
      · rintro ⟨-, rfl, -⟩
        rfl

/-- **Splitting of a stream.**  The reader yields, in order, what each segment comes to that is ended
by a terminator: an overflow, nothing, or a line with exactly its bytes.  It does so at the terminator
and nowhere else.  A segment without an end yields nothing, and none has to do with a later one.  No
line that is read is empty for `Command.read`. -/
theorem feedAll_splits (stream : List UInt8) :
    (({} : LineReader).feedAll 0 stream).1.map Prod.snd = (segments stream).filterMap lineOf ∧
    (∀ place line, (place, line) ∈ (({} : LineReader).feedAll 0 stream).1 ↔
      ∃ b, stream[place]? = some b ∧ isTerminator b ∧
        lineOf (unfinished (stream.take place)) = some line) ∧
    (∀ tail, tail.any isTerminator = false →
      (({} : LineReader).feedAll 0 (stream ++ tail)).1 = (({} : LineReader).feedAll 0 stream).1) ∧
    (∀ b rest, isTerminator b →
      (({} : LineReader).feedAll 0 (stream ++ b :: rest)).1 =
        (({} : LineReader).feedAll 0 (stream ++ [b])).1 ++
          (({} : LineReader).feedAll (stream.length + 1) rest).1) ∧
    ∀ line, .ok line ∈ (({} : LineReader).feedAll 0 stream).1.map Prod.snd →
      (∃ segment ∈ segments stream, segment.length ≤ capacity ∧ (∀ b ∈ segment, b < 128) ∧
        line.map Char.toNat = segment.map UInt8.toNat) ∧
      Command.read line ≠ .error .empty := by
  have hlines : (({} : LineReader).feedAll 0 stream).1.map Prod.snd =
      (segments stream).filterMap lineOf := feedAll_eq_lines 0 stream
  refine ⟨hlines, mem_feedAll_iff stream, fun tail htail => ?_, fun b rest hb => ?_,
    fun line hline => ?_⟩
  · rw [feedAll_append, feedAll_fst_eq_nil _ _ htail, List.append_nil]
  · have hfresh : (({} : LineReader).feedAll 0 (stream ++ [b])).2 = {} := by
      rw [(feedAll_concat _ _ _ _).2, LineReader.feed, hb, if_pos rfl]
    rw [List.append_cons, feedAll_append _ _ (stream ++ [b]), hfresh, List.length_append,
      Nat.zero_add]
    rfl
  · rw [hlines] at hline
    obtain ⟨segment, hmem, hline⟩ := List.mem_filterMap.1 hline
    obtain ⟨hkept, rfl, hblank⟩ := lineOf_eq_ok_iff.1 hline
    rw [Lost, not_or, Nat.not_lt] at hkept
    refine ⟨⟨segment, hmem, hkept.1, fun b hb => ?_, map_toNat_char segment⟩, ?_⟩
    · exact Decidable.not_not.1 fun hbig => hkept.2 ⟨b, hb, hbig⟩
    · rw [Ne, Command.read_eq_empty_iff]
      exact hblank

end LineReader

end OnboardVision

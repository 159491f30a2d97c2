import OnboardVision.Proofs.Telemetry.Decoding

/-!
# A decoder on a fixed buffer

A decoder may keep the frame in progress in a buffer of fixed size, and read complete frames by
slices of it.  `Crsf.Buffer.feed?` is such a decoder; it has no result where the buffer is full, or
where a slice or a place lies outside.  `Crsf.Buffer.feedAll?_held` says that it always has a
result, and that it is the one of `Crsf.Decoder`: the buffer is never too small, and nothing is
read that is not there.
-/

namespace OnboardVision

namespace Crsf

namespace Buffer

/-! ### Buffers -/

/-- The size of the buffer: the largest frame fits. -/
def size : ℕ := 64

/-- Puts a byte behind the others, if there is room. -/
def push? (buffer : List UInt8) (b : UInt8) : Option (List UInt8) :=
  if buffer.length < size then some (buffer ++ [b]) else none

/-- The bytes from place `start` on and before place `stop`, if there are these places. -/
def slice? (bytes : List UInt8) (start stop : ℕ) : Option (List UInt8) :=
  if start ≤ stop ∧ stop ≤ bytes.length then some ((bytes.take stop).drop start) else none

theorem slice?_append (front bytes back : List UInt8) :
    slice? (front ++ bytes ++ back) front.length (front.length + bytes.length) = some bytes := by
  have hplaces : front.length ≤ front.length + bytes.length ∧
      front.length + bytes.length ≤ (front ++ bytes ++ back).length := by
    simp
  rw [slice?, if_pos hplaces, ← List.length_append, List.take_left, List.drop_left]

/-- The first two bytes, if there are two. -/
def pair? (bytes : List UInt8) : Option (UInt8 × UInt8) := do return (← bytes[0]?, ← bytes[1]?)

/-- The first four bytes, if there are four. -/
def quad? (bytes : List UInt8) : Option (UInt8 × UInt8 × UInt8 × UInt8) := do
  return (← bytes[0]?, ← bytes[1]?, ← bytes[2]?, ← bytes[3]?)

/-! ### Payloads by slices -/

/-- An attitude by slices of its payload. -/
def attitude? (payload : List UInt8) : Option Message := do
  let (p1, p0) ← pair? (← slice? payload 0 2)
  let (r1, r0) ← pair? (← slice? payload 2 4)
  let (y1, y0) ← pair? (← slice? payload 4 6)
  return .attitude
    { roll := Message.angle (Message.signedWord r1 r0)
      pitch := Message.angle (Message.signedWord p1 p0)
      yaw := Message.angle (Message.signedWord y1 y0) }

/-- A satellite position by slices of its payload. -/
def fix? (payload : List UInt8) : Option Message := do
  let (a3, a2, a1, a0) ← quad? (← slice? payload 0 4)
  let (o3, o2, o1, o0) ← quad? (← slice? payload 4 8)
  let (s1, s0) ← pair? (← slice? payload 8 10)
  let (c1, c0) ← pair? (← slice? payload 10 12)
  let (h1, h0) ← pair? (← slice? payload 12 14)
  return .fix
    { lat := Message.long a3 a2 a1 a0
      lon := Message.long o3 o2 o1 o0
      speed := Single.ofNat (Message.word s1 s0) / 36
      course := Single.ofNat (Message.word c1 c0) / 100
      altitude := Single.ofNat (Message.word h1 h0) - 1000
      satellites := ← payload[14]? }

/-- A barometer reading by slices of its payload. -/
def vario? (payload : List UInt8) : Option Message := do
  let (a1, a0) ← pair? (← slice? payload 0 2)
  let (c1, c0) ← pair? (← slice? payload 2 4)
  return .vario
    { altitude := Message.packedAltitude (Message.word a1 a0)
      climb := Single.ofInt (Message.signedWord c1 c0) / 100 }

/-- Reads a payload if it has the right size; any other is no message. -/
def ofSize (n : ℕ) (read : List UInt8 → Option Message) (payload : List UInt8) :
    Option (Option Message) :=
  if payload.length = n then some <$> read payload else some none

/-- The message of a payload, if there is one. -/
def decode? (type : UInt8) (payload : List UInt8) : Option (Option Message) :=
  if type = Message.attitudeType then ofSize 6 attitude? payload
  else if type = Message.fixType then ofSize 15 fix? payload
  else if type = Message.varioType then ofSize 4 vario? payload
  else some none

theorem ofSize_attitude? (payload : List UInt8) :
    ofSize 6 attitude? payload = some (Message.decodeAttitude payload) := by
  by_cases h : payload.length = 6
  · match payload, h with
    | [_, _, _, _, _, _], _ => rfl
  · rw [ofSize, if_neg h]
    unfold Message.decodeAttitude
    split
    · exact absurd rfl h
    · rfl

theorem ofSize_fix? (payload : List UInt8) :
    ofSize 15 fix? payload = some (Message.decodeFix payload) := by
  by_cases h : payload.length = 15
  · match payload, h with
    | [_, _, _, _, _, _, _, _, _, _, _, _, _, _, _], _ => rfl
  · rw [ofSize, if_neg h]
    unfold Message.decodeFix
    split
    · exact absurd rfl h
    · rfl

theorem ofSize_vario? (payload : List UInt8) :
    ofSize 4 vario? payload = some (Message.decodeVario payload) := by
  by_cases h : payload.length = 4
  · match payload, h with
    | [_, _, _, _], _ => rfl
  · rw [ofSize, if_neg h]
    unfold Message.decodeVario
    split
    · exact absurd rfl h
    · rfl

/-- A payload is read only if it has all the bytes that are read. -/
theorem decode?_eq (type : UInt8) (payload : List UInt8) :
    decode? type payload = some (Message.decode type payload) := by
  unfold decode? Message.decode
  split
  · exact ofSize_attitude? payload
  · split
    · exact ofSize_fix? payload
    · split
      · exact ofSize_vario? payload
      · rfl

/-! ### The decoder -/

/-- The message of the complete frame that takes up the first `total` bytes, if there is one. -/
def message? (buffer : List UInt8) (total : ℕ) : Option (Option Message) := do
  let frame ← slice? buffer 0 total
  let body ← slice? frame 2 (total - 1)
  let checksum ← frame[total - 1]?
  if Checksum.ofBytes body = checksum then decode? (← body[0]?) (← slice? body 1 body.length)
  else return none

/-- Takes one byte, and yields the message of the frame that it ends, if any. -/
def feed? (buffer : List UInt8) (b : UInt8) : Option (Option Message × List UInt8) :=
  if buffer.length = 0 then
    if b = sync then do return (none, ← push? buffer b) else some (none, buffer)
  else if buffer.length = 1 then
    if minLength ≤ b.toNat ∧ b.toNat ≤ maxLength then do return (none, ← push? buffer b)
    else if b = sync then do return (none, ← push? [] b)
    else some (none, [])
  else do
    let total := 2 + (← buffer[1]?).toNat
    let buffer ← push? buffer b
    if buffer.length < total then some (none, buffer)
    else (message? buffer total).map (·, [])

/-- Takes bytes, and yields the messages in them. -/
def feedAll? (buffer : List UInt8) : List UInt8 → Option (List Message × List UInt8)
  | [] => some ([], buffer)
  | b :: bytes => do
    let (m?, buffer) ← feed? buffer b
    let (ms, buffer) ← feedAll? buffer bytes
    return (m?.toList ++ ms, buffer)

end Buffer

namespace Decoder

/-- The bytes of the frame in progress. -/
def held : Decoder → List UInt8
  | idle => []
  | opened => [sync]
  | inside length received => sync :: UInt8.ofNat length :: received

/-- The length of the frame in progress was accepted, and the frame is not complete. -/
def InProgress : Decoder → Prop
  | inside length received =>
    minLength ≤ length ∧ length ≤ maxLength ∧ received.length < length
  | _ => True

end Decoder

namespace Buffer

open Decoder

/-- A complete frame is read by slices as it is read as a list. -/
theorem message?_eq {l : UInt8} {body : List UInt8} {b : UInt8} (hmin : 1 ≤ body.length)
    (hlen : body.length + 1 = l.toNat) :
    message? (sync :: l :: body ++ [b]) (2 + l.toNat) = some (messageOf (body ++ [b])) := by
  obtain ⟨type, payload, rfl⟩ := List.exists_cons_of_length_pos hmin
  generalize hf : sync :: l :: (type :: payload) ++ [b] = frame
  have hsize : frame.length = 2 + l.toNat := by
    rw [← hf, ← hlen, List.length_append]
    simp only [List.length_cons, List.length_nil]
    omega
  have hend : 2 + l.toNat - 1 = [sync, l].length + (type :: payload).length := by
    rw [← hlen, Nat.add_sub_assoc (Nat.le_add_left 1 _)]
    rfl
  have hframe : slice? frame 0 (2 + l.toNat) = some frame := by
    have := slice?_append [] frame []
    rwa [hsize, List.length_nil, Nat.zero_add, List.nil_append, List.append_nil] at this
  have hbody : slice? frame 2 (2 + l.toNat - 1) = some (type :: payload) := by
    rw [hend, ← hf]
    exact slice?_append [sync, l] (type :: payload) [b]
  have hcheck : frame[2 + l.toNat - 1]? = some b := by
    rw [hend, ← hf, ← List.length_append]
    exact List.getElem?_concat_length
  have hpayload : slice? (type :: payload) 1 (type :: payload).length = some payload := by
    have := slice?_append [type] payload []
    rwa [List.append_nil, Nat.add_comm] at this
  rw [messageOf_append_singleton]
  simp only [message?, hframe, hbody, hcheck, hpayload, decode?_eq, Option.bind_eq_bind,
    Option.bind_some, List.getElem?_cons_zero, eq_comm (a := b)]
  split <;> rfl

/-- Inside a frame, the buffer takes the byte, and the frame is complete or not. -/
theorem feed?_inside {l b : UInt8} {received : List UInt8} (hroom : received.length + 2 < size) :
    feed? (sync :: l :: received) b =
      if received.length + 1 < l.toNat then some (none, sync :: l :: received ++ [b])
      else (message? (sync :: l :: received ++ [b]) (2 + l.toNat)).map (·, []) := by
  have hpush : push? (sync :: l :: received) b = some (sync :: l :: received ++ [b]) :=
    if_pos hroom
  have hshort : received.length + 1 + 1 + 1 < 2 + l.toNat ↔ received.length + 1 < l.toNat := by
    omega
  simp [feed?, hpush, hshort]

theorem feed?_held {d : Decoder} (h : d.InProgress) (b : UInt8) :
    feed? d.held b = some ((d.feed b).1, (d.feed b).2.held) ∧ (d.feed b).2.InProgress := by
  cases d with
  | idle =>
    by_cases hb : b = sync
    · subst hb
      exact ⟨rfl, trivial⟩
    · rw [feed_idle_of_ne hb]
      refine ⟨?_, trivial⟩
      simp [feed?, held, hb]
  | opened =>
    by_cases hb : Accepts b
    · rw [feed_opened_of_accepts hb]
      refine ⟨?_, hb.1, hb.2, Nat.lt_of_lt_of_le (by decide) hb.1⟩
      rw [Accepts] at hb
      simp [feed?, held, hb, push?, size]
    · have hfeed : opened.feed b = (none, if b = sync then opened else idle) := if_neg hb
      rw [hfeed]
      rw [Accepts] at hb
      by_cases hs : b = sync
      · subst hs
        exact ⟨rfl, trivial⟩
      · simp [feed?, held, hb, hs, InProgress]
  | inside length received =>
    obtain ⟨hmin, hmax, hlt⟩ := h
    obtain ⟨l, rfl⟩ : ∃ l : UInt8, l.toNat = length :=
      ⟨_, UInt8.toNat_ofNat_of_lt' (Nat.lt_of_le_of_lt hmax (by decide))⟩
    simp only [minLength, maxLength] at hmin hmax
    have hroom : received.length + 2 < size := by
      rw [size]
      omega
    rw [held, UInt8.ofNat_toNat, feed?_inside hroom]
    by_cases hshort : received.length + 1 < l.toNat
    · rw [if_pos hshort, feed_inside_of_lt hshort, held, UInt8.ofNat_toNat]
      exact ⟨rfl, hmin, hmax, by simpa using hshort⟩
    · rw [if_neg hshort, feed_inside_of_le (Nat.le_of_not_lt hshort),
        message?_eq (by omega) (by omega)]
      exact ⟨rfl, trivial⟩

/-- Whatever comes in, the buffer is large enough and every access is in range. -/
theorem feedAll?_held {d : Decoder} (h : d.InProgress) (i : ℕ) (bytes : List UInt8) :
    feedAll? d.held bytes =
      some ((d.feedAll i bytes).1.map Prod.snd, (d.feedAll i bytes).2.held) := by
  induction bytes generalizing d i with
  | nil => rfl
  | cons b bytes ih =>
    obtain ⟨hfeed, hin⟩ := feed?_held h b
    rw [feedAll?, hfeed, feedAll_cons]
    cases (d.feed b).1 <;> simp [ih hin (i + 1)]

end Buffer

end Crsf

end OnboardVision

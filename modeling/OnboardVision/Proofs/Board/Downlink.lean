import OnboardVision.Proofs.Board.Console
import OnboardVision.Proofs.Board.ReceiveFaults
import OnboardVision.Proofs.Telemetry.Attitudes
import OnboardVision.Proofs.Timeline.Waiting

/-!
# What the flight controller sends

Only the telemetry task writes telemetry on the board, and all that it looks at is the bytes on its
line: what the camera, the host and the console do leaves its side alone.

* `Board.heard` is the attitudes that come in on the line, each with the instant at which the last
  byte of its frame does.
* `Board.exists_news`: at the next instant of the agenda the telemetry has the last attitude heard by
  then, behind a raised flag, or nothing has changed about it.
-/

namespace OnboardVision

namespace Board

/-! ### Bytes on the line -/

/-- The bytes that an event brings to the telemetry task. -/
def Event.data : Event → List UInt8
  | .telemetry r => r.data
  | _ => []

/-- The bytes on the line that the telemetry task has not read yet. -/
def queued (s : Shared Rig) : List UInt8 := s.rig.telemetryLine.readings.flatMap Reading.data

theorem flatten_pieces {α : Type} (n : ℕ) (l : List α) : (pieces n l).flatten = l := by
  induction hl : l.length using Nat.strongRecOn generalizing l with
  | _ m ih =>
    rw [pieces]
    split
    · simp
    · rename_i hlong
      have hdrop : (l.drop n).length < m := by
        rw [List.length_drop]
        omega
      rw [List.flatten_cons, ih _ hdrop _ rfl, List.take_append_drop]

theorem queued_deliver (e : Event) (s : Shared Rig) :
    queued (deliver e s) = queued s ++ e.data := by
  have hline : ∀ (line : SerialLine) (r : Reading),
      (line.arrive telemetryBuffer r).readings.flatMap Reading.data =
        line.readings.flatMap Reading.data ++ r.data := by
    intro line r
    cases r with
    | fault => simp [SerialLine.arrive, Reading.data]
    | bytes data =>
      have hdata : ((pieces telemetryBuffer data).map Reading.bytes).flatMap Reading.data = data := by
        rw [List.flatMap_map]
        exact (List.flatMap_id).trans (flatten_pieces _ _)
      rw [SerialLine.arrive, List.flatMap_append, hdata]
      rfl
  cases e with
  | telemetry r => exact hline _ r
  | camera r => exact (List.append_nil _).symm
  | host a => exact (List.append_nil _).symm
  | packet data => exact (List.append_nil _).symm

/-- The state after events that nobody has looked at. -/
def delivered (s : Shared Rig) (l : List (Instant × Event)) : Shared Rig :=
  l.foldl (fun s e => deliver e.2 s) s

theorem delivered_spec (s : Shared Rig) (l : List (Instant × Event)) :
    (delivered s l).telemetry = s.telemetry ∧
      (delivered s l).rig.receiver = s.rig.receiver ∧
      queued (delivered s l) = queued s ++ l.flatMap (·.2.data) := by
  induction l generalizing s with
  | nil => exact ⟨rfl, rfl, (List.append_nil _).symm⟩
  | cons e l ih =>
    obtain ⟨htel, hrec, hline⟩ := ih (deliver e.2 s)
    have hreceiver : (deliver e.2 s).rig.receiver = s.rig.receiver := by
      cases e.2 <;> rfl
    refine ⟨htel, hrec.trans hreceiver, hline.trans ?_⟩
    rw [queued_deliver, List.flatMap_cons, List.append_assoc]

/-- All that the telemetry task changes. -/
theorem runTelemetry_rest (s : Shared Rig) : ∃ telemetry journal receiver, runTelemetry s =
    { s with telemetry, journal, rig := { s.rig with receiver, telemetryLine := {} } } := by
  have habsorb : ∀ (readings : List Reading) (s : Shared Rig), ∃ telemetry journal receiver,
      readings.foldl absorb s = { s with telemetry, journal, rig := { s.rig with receiver } } := by
    intro readings
    induction readings with
    | nil => exact fun s => ⟨s.telemetry, s.journal, s.rig.receiver, rfl⟩
    | cons r readings ih =>
      intro s
      obtain ⟨telemetry, journal, receiver, hrest⟩ := ih (absorb s r)
      refine ⟨telemetry, journal, receiver, ?_⟩
      rw [List.foldl_cons, hrest]
      cases r <;> rfl
  obtain ⟨telemetry, journal, receiver, hrest⟩ := habsorb s.rig.telemetryLine.readings
    { s with rig := { s.rig with telemetryLine := {} } }
  exact ⟨telemetry, journal, receiver, hrest⟩

/-- The telemetry task reads everything on its line. -/
theorem runTelemetry_spec (s : Shared Rig) :
    let done := s.rig.receiver.feedAll s.telemetry (queued s)
    (runTelemetry s).rig.receiver = done.2.1 ∧ (runTelemetry s).telemetry = done.2.2.1 ∧
      queued (runTelemetry s) = [] := by
  obtain ⟨hreceiver, htelemetry⟩ := foldl_absorb
    { s with rig := { s.rig with telemetryLine := {} } } s.rig.telemetryLine.readings
  obtain ⟨telemetry, journal, receiver, hrest⟩ := runTelemetry_rest s
  refine ⟨hreceiver, htelemetry, ?_⟩
  rw [hrest]
  rfl

/-- At an instant what is due is delivered, and then the console task and the telemetry task run. -/
theorem shared_settle (tl : Timeline Event Rig) :
    tl.settle.shared = runTelemetry (runConsole tl.now
      (delivered tl.shared (tl.agenda.takeWhile (·.1 ≤ tl.now)))) :=
  congrArg (fun s => runTelemetry (runConsole tl.now s)) (Timeline.deliverDue_snd _ _ _)

/-- What the board makes of an instant, as far as the telemetry task is concerned. -/
theorem settle_spec (tl : Timeline Event Rig) :
    let data := queued tl.shared ++ (tl.agenda.takeWhile (·.1 ≤ tl.now)).flatMap (·.2.data)
    let done := tl.shared.rig.receiver.feedAll tl.shared.telemetry data
    tl.settle.shared.rig.receiver = done.2.1 ∧ tl.settle.shared.telemetry = done.2.2.1 ∧
      queued tl.settle.shared = [] := by
  intro data done
  obtain ⟨htel, hrec, hline⟩ := delivered_spec tl.shared (tl.agenda.takeWhile (·.1 ≤ tl.now))
  have hshared := shared_settle tl
  generalize delivered tl.shared (tl.agenda.takeWhile (·.1 ≤ tl.now)) = s at htel hrec hline hshared
  have hconsole := (attends_runConsole tl.now s).others_eq
  simp only [others, Prod.mk.injEq] at hconsole
  obtain ⟨htel', hrec', hline', -⟩ := hconsole
  have hdata : queued (runConsole tl.now s) = data := by
    rw [queued, hline']
    exact hline
  have hdone := runTelemetry_spec (runConsole tl.now s)
  rw [hdata, htel', hrec', htel, hrec] at hdone
  rw [hshared]
  exact hdone

/-! ### Attitudes on the line -/

end Board

namespace Crsf.Decoder

/-- The attitudes in a stream that comes in bursts, each with the instant of the burst that
completes its frame. -/
def timedAttitudes (d : Decoder) : List (Instant × List UInt8) → List (Instant × Attitude)
  | [] => []
  | (t, data) :: bursts =>
    (d.attitudes data).map (t, ·) ++ (d.feedAll 0 data).2.timedAttitudes bursts

variable {d : Decoder}

/-- Bursts of one instant are as good as one. -/
theorem timedAttitudes_append {t : Instant} {bursts : List (Instant × List UInt8)}
    (h : ∀ b ∈ bursts, b.1 = t) (d : Decoder) (later : List (Instant × List UInt8)) :
    d.timedAttitudes (bursts ++ later) =
      (d.attitudes (bursts.flatMap Prod.snd)).map (t, ·) ++
        (d.feedAll 0 (bursts.flatMap Prod.snd)).2.timedAttitudes later := by
  induction bursts generalizing d with
  | nil => rfl
  | cons b bursts ih =>
    obtain ⟨u, data⟩ := b
    obtain rfl : u = t := h _ List.mem_cons_self
    rw [List.cons_append, timedAttitudes, ih (fun b hb => h b (List.mem_cons_of_mem _ hb)),
      List.flatMap_cons, attitudes_append, feedAll_append_snd, List.map_append, List.append_assoc]

/-- An attitude comes with a burst. -/
theorem exists_burst_of_mem {bursts : List (Instant × List UInt8)} {x : Instant × Attitude}
    (h : x ∈ d.timedAttitudes bursts) : ∃ b ∈ bursts, b.1 = x.1 ∧ b.2 ≠ [] := by
  induction bursts generalizing d with
  | nil => cases h
  | cons b bursts ih =>
    rcases List.mem_append.1 h with h | h
    · obtain ⟨a, ha, rfl⟩ := List.mem_map.1 h
      refine ⟨b, List.mem_cons_self, rfl, fun hb => ?_⟩
      rw [hb] at ha
      cases ha
    · obtain ⟨b', hb', hx⟩ := ih h
      exact ⟨b', List.mem_cons_of_mem _ hb', hx⟩

theorem pitch_ne_sentinel_of_mem_timed {bursts : List (Instant × List UInt8)}
    {x : Instant × Attitude} (h : x ∈ d.timedAttitudes bursts) : x.2.pitch ≠ Barrier.sentinel := by
  induction bursts generalizing d with
  | nil => cases h
  | cons b bursts ih =>
    rcases List.mem_append.1 h with h | h
    · obtain ⟨a, ha, rfl⟩ := List.mem_map.1 h
      exact pitch_ne_sentinel_of_mem ha
    · exact ih h

end Crsf.Decoder

namespace Board

/-- The bytes that an event brings, with the instant at which the telemetry task reads them. -/
def burst (now : Instant) (e : Instant × Event) : Instant × List UInt8 := (max now e.1, e.2.data)

/-- The attitudes that come in: in the bytes that are on the line, and in those to come. -/
def heard (tl : Timeline Event Rig) : List (Instant × Attitude) :=
  tl.shared.rig.receiver.decoder.timedAttitudes
    ((tl.now, queued tl.shared) :: tl.agenda.map (burst tl.now))

variable {tl : Timeline Event Rig} {t : Instant}

theorem heard_of_queued (h : queued tl.shared = []) :
    heard tl = tl.shared.rig.receiver.decoder.timedAttitudes (tl.agenda.map (burst tl.now)) := by
  rw [heard, h]
  rfl

/-- With nothing on the line, attitudes are heard when something on the agenda happens. -/
theorem exists_event_of_mem_heard (h : queued tl.shared = []) (ht : tl.Timely) {x : Instant × Attitude}
    (hx : x ∈ heard tl) : ∃ e ∈ tl.agenda, e.1 = x.1 := by
  rw [heard_of_queued h] at hx
  obtain ⟨b, hb, hbx, -⟩ := Crsf.Decoder.exists_burst_of_mem hx
  obtain ⟨e, he, rfl⟩ := List.mem_map.1 hb
  exact ⟨e, he, (Nat.max_eq_right (Nat.le_of_lt (ht.ahead e he))).symm.trans hbx⟩

theorem pitch_ne_sentinel_of_mem_heard {x : Instant × Attitude} (hx : x ∈ heard tl) :
    x.2.pitch ≠ Barrier.sentinel := Crsf.Decoder.pitch_ne_sentinel_of_mem_timed hx

/-- What an agenda brings is what it brings by the instant `t` and what it brings later. -/
theorem burst_arrive (hsorted : tl.agenda.Pairwise (·.1 ≤ ·.1)) (ht : tl.now ≤ t) :
    tl.agenda.map (burst tl.now) =
      (tl.agenda.takeWhile (·.1 ≤ t)).map (burst tl.now) ++
        (tl.arrive t).agenda.map (burst t) := by
  have hlater : (tl.arrive t).agenda.map (burst t) =
      (tl.agenda.dropWhile (·.1 ≤ t)).map (burst tl.now) := by
    rw [Timeline.arrive_agenda, Timeline.dropWhile_eq_filter hsorted]
    refine List.map_congr_left fun e he => ?_
    have hlt : t < e.1 := of_decide_eq_true (List.mem_filter.1 he).2
    rw [burst, burst, Nat.max_eq_right (Nat.le_of_lt hlt),
      Nat.max_eq_right (Nat.le_trans ht (Nat.le_of_lt hlt))]
  rw [hlater, ← List.map_append, List.takeWhile_append_dropWhile]

/-- **The news of an instant.**  What was heard by then is the latest attitude, behind a raised
flag. -/
theorem exists_news (hsorted : tl.agenda.Pairwise (·.1 ≤ ·.1)) (ht : tl.now ≤ t)
    (hq : tl.now = t ∨ queued tl.shared = [])
    (hdue : ∀ e ∈ tl.agenda, e.1 ≤ t → max tl.now e.1 = t) :
    ∃ news : List Attitude,
      heard tl = news.map (t, ·) ++ heard (tl.arrive t) ∧
      (tl.arrive t).shared.telemetry.attitude = news.getLast?.getD tl.shared.telemetry.attitude ∧
      (tl.arrive t).shared.telemetry.fresh = (!news.isEmpty || tl.shared.telemetry.fresh) ∧
      queued (tl.arrive t).shared = [] := by
  obtain ⟨hreceiver, htelemetry, hqueued⟩ := settle_spec { tl with now := t }
  have harrive := burst_arrive hsorted ht
  have hearlier : ∀ e ∈ tl.agenda.takeWhile (·.1 ≤ t), max tl.now e.1 = t := by
    intro e he
    rw [Timeline.takeWhile_eq_filter hsorted] at he
    obtain ⟨hmem, hle⟩ := List.mem_filter.1 he
    exact hdue e hmem (of_decide_eq_true hle)
  dsimp only at hreceiver htelemetry
  generalize tl.agenda.takeWhile (·.1 ≤ t) = due at hreceiver htelemetry harrive hearlier
  obtain ⟨hdecoder, hattitude, hfresh⟩ := tl.shared.rig.receiver.feedAll_attitude tl.shared.telemetry
    (queued tl.shared ++ due.flatMap (·.2.data))
  refine ⟨_, ?_, (congrArg (·.attitude) htelemetry).trans hattitude,
    (congrArg (·.fresh) htelemetry).trans hfresh, hqueued⟩
  have hnow : heard tl = tl.shared.rig.receiver.decoder.timedAttitudes
      ((t, queued tl.shared) :: tl.agenda.map (burst tl.now)) := by
    rcases hq with rfl | hq
    · rfl
    · rw [heard_of_queued hq, hq]
      rfl
  have hone : ∀ b ∈ (t, queued tl.shared) :: due.map (burst tl.now), b.1 = t := by
    refine List.forall_mem_cons.2 ⟨rfl, fun b hb => ?_⟩
    obtain ⟨e, he, rfl⟩ := List.mem_map.1 hb
    exact hearlier e he
  have hthen : (tl.arrive t).shared.rig.receiver.decoder =
      (tl.shared.rig.receiver.decoder.feedAll 0
        (queued tl.shared ++ due.flatMap (·.2.data))).2 :=
    (congrArg Receiver.decoder hreceiver).trans hdecoder
  have hlater : heard (tl.arrive t) = _ := heard_of_queued hqueued
  rw [hnow, harrive, ← List.cons_append, Crsf.Decoder.timedAttitudes_append hone,
    List.flatMap_cons, List.flatMap_map, hlater, hthen]
  rfl

end Board

end OnboardVision

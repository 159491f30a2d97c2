import OnboardVision.Proofs.Board.Record

/-!
# Which summaries are printed

The channel between the display and the console task holds one summary, and a new one that finds it
full is dropped.  So the channel keeps the oldest summary since the last one was taken, however long
the console task is away.

Main statement:

* `Board.Watched.printed_oldest`: a summary that is printed is the first that the display has made
  since the one before it was taken; it is the latest one exactly if it is the only one.
-/

namespace OnboardVision

namespace Board

/-- The summaries made since the last one was taken. -/
def untaken (record : List Deed) : List Summary := shownIn (record.rtakeWhile (·.took?.isNone))

theorem untaken_concat (record : List Deed) (d : Deed) : untaken (record ++ [d]) =
    if d.took?.isNone then untaken record ++ d.shown?.toList else [] := by
  rw [untaken, List.rtakeWhile_concat]
  split
  · exact shownIn_concat _ d
  · rfl

theorem untaken_suffix (record : List Deed) : untaken record <:+ shownIn record :=
  (List.rtakeWhile_suffix _ _).filterMap _

/-- The last summary that was taken is `x`, and before that the record was `front`. -/
def LastTook (record front : List Deed) (x : Summary) : Prop :=
  ∃ behind, record = front ++ .took x :: behind ∧ ∀ d ∈ behind, d.took? = none

theorem LastTook.concat {record front : List Deed} {x : Summary} {d : Deed}
    (h : LastTook record front x) (hd : d.took? = none) : LastTook (record ++ [d]) front x := by
  obtain ⟨behind, rfl, hbehind⟩ := h
  refine ⟨behind ++ [d], by simp, ?_⟩
  exact List.forall_mem_append.2 ⟨hbehind, List.forall_mem_singleton.2 hd⟩

/-- What is taken is the oldest summary there is, and what is printed is the last that was taken. -/
def Fetched (before : List Deed) : Deed → Prop
  | .took x => (untaken before).head? = some x
  | .sent (.summary x) => ∃ front, LastTook before front x
  | _ => True

/-- Summaries are numbered from one. -/
def Numbered (before : List Summary) (x : Summary) : Prop :=
  x.count = UInt32.ofNat (before.length + 1)

namespace Watched

/-- The record tells what the display has made and what has become of it. -/
structure Prints (s : Shared Rig) (w : Watched) : Prop where
  /-- The host has got the messages on record. -/
  printed_eq : printed w.board = printed s ++ packetsOfAll (sentIn w.record)
  /-- The oldest summary since the last one was taken is in the channel. -/
  pending_eq : w.board.rig.pending = (untaken w.record).head?
  /-- A summary that waits to be sent is the last that was taken. -/
  taken : ∀ x, w.waiting = some (.summary x) → ∃ front, LastTook w.record front x
  /-- What is on record as taken or sent came out of the channel in that way. -/
  fetched : Always Fetched w.record
  /-- The display has counted the summaries. -/
  count_eq : w.display.count = UInt32.ofNat (shownIn w.record).length
  /-- It has numbered them. -/
  numbered : Always Numbered (shownIn w.record)

variable {s : Shared Rig} {w w' : Watched} {x : Summary}

/-- Something that is not about summaries. -/
theorem Prints.other {d : Deed} (h : Prints s w) (hrecord : w'.record = w.record ++ [d])
    (hshown : d.shown? = none) (htook : d.took? = none) (hsent : d.sent? = none)
    (hprinted : printed w'.board = printed w.board)
    (hpending : w'.board.rig.pending = w.board.rig.pending)
    (hwaiting : ∀ x, w'.waiting = some (.summary x) → w.waiting = some (.summary x))
    (hdisplay : w'.display = w.display) : Prints s w' := by
  have hfetched : Fetched w.record d := by
    cases d with
    | took x => cases htook
    | sent o => cases hsent
    | _ => trivial
  have huntaken : untaken w'.record = untaken w.record := by
    rw [hrecord, untaken_concat, htook, hshown]
    simp
  have hmessages : sentIn w'.record = sentIn w.record := by simp [hrecord, hsent]
  have hsummaries : shownIn w'.record = shownIn w.record := by simp [hrecord, hshown]
  refine ⟨?_, ?_, ?_, ?_, ?_, ?_⟩
  · rw [hprinted, hmessages]
    exact h.printed_eq
  · rw [hpending, huntaken]
    exact h.pending_eq
  · intro x hx
    obtain ⟨front, hfront⟩ := h.taken x (hwaiting x hx)
    rw [hrecord]
    exact ⟨front, hfront.concat htook⟩
  · rw [hrecord]
    exact h.fetched.concat hfetched
  · rw [hdisplay, hsummaries]
    exact h.count_eq
  · rw [hsummaries]
    exact h.numbered

/-- The summary is taken out of the channel. -/
theorem Prints.took (h : Prints s w) (hx : w.board.rig.pending = some x) {board : Shared Rig}
    (hs : gist board = { gist w.board with pending := none }) :
    Prints s ({ w.mark (.took x) with board }.hold (.summary x)) := by
  have hmessages : sentIn (w.record ++ [.took x]) = sentIn w.record := by simp [Deed.sent?]
  have hsummaries : shownIn (w.record ++ [.took x]) = shownIn w.record := by simp [Deed.shown?]
  refine ⟨?_, ?_, ?_, h.fetched.concat (h.pending_eq.symm.trans hx), ?_, ?_⟩
  · change printed board = printed s ++ packetsOfAll (sentIn (w.record ++ [.took x]))
    rw [hmessages, ← h.printed_eq]
    exact congrArg ConsoleView.printed hs
  · change board.rig.pending = (untaken (w.record ++ [.took x])).head?
    rw [untaken_concat]
    exact congrArg ConsoleView.pending hs
  · intro y hy
    cases hy
    exact ⟨w.record, [], rfl, nofun⟩
  · exact hsummaries ▸ h.count_eq
  · exact hsummaries ▸ h.numbered

/-- The host gets a message. -/
theorem Prints.sent {o : Output} (h : Prints s w) (ho : w.waiting = some o) (now : Instant) :
    Prints s (w.send now (packetsOf o.text)) := by
  have hrecord := record_send ho now (packetsOf o.text)
  have hs := gist_emit now (packetsOf o.text) w.board
  have hsummaries : shownIn (w.record ++ [.sent o]) = shownIn w.record := by simp [Deed.shown?]
  have hfetched : Fetched w.record (.sent o) := by
    cases o with
    | reply text => trivial
    | summary x => exact h.taken x ho
  refine ⟨?_, ?_, ?_, ?_, ?_, ?_⟩
  · rw [hrecord, sentIn_concat, packetsOfAll_append, ← List.append_assoc, ← h.printed_eq]
    refine (congrArg ConsoleView.printed hs).trans ?_
    simp [gist, view, Deed.sent?, packetsOfAll]
  · rw [hrecord, untaken_concat]
    refine (congrArg ConsoleView.pending hs).trans (h.pending_eq.trans ?_)
    simp [Deed.took?, Deed.shown?]
  · intro x hx
    cases hx
  · rw [hrecord]
    exact h.fetched.concat hfetched
  · rw [hrecord, hsummaries]
    exact h.count_eq
  · rw [hrecord, hsummaries]
    exact h.numbered

/-- The display makes a summary, and hands it over if none is waiting. -/
theorem Prints.shown (h : Prints s w) (im : Image captureCapacity) : Prints s (w.present im) := by
  let x : Summary := ⟨w.display.count + 1, im.width, im.height, im.mean⟩
  have hrecord : (w.present im).record = w.record ++ [.shown x] := record_present im w
  have hs := gist_present im w
  have hsummaries : shownIn (w.record ++ [.shown x]) = shownIn w.record ++ [x] := by
    simp [Deed.shown?]
  have hmessages : sentIn (w.record ++ [.shown x]) = sentIn w.record := by simp [Deed.sent?]
  refine ⟨?_, ?_, ?_, ?_, ?_, ?_⟩
  · rw [hrecord, hmessages, ← h.printed_eq]
    exact congrArg ConsoleView.printed hs
  · rw [hrecord, untaken_concat]
    refine (congrArg ConsoleView.pending hs).trans ?_
    simp [Deed.took?, Deed.shown?, h.pending_eq, x]
  · intro y hy
    obtain ⟨front, hfront⟩ := h.taken y hy
    rw [hrecord]
    exact ⟨front, hfront.concat rfl⟩
  · rw [hrecord]
    exact h.fetched.concat trivial
  · rw [hrecord, hsummaries, List.length_append, List.length_singleton, UInt32.ofNat_add,
      ← h.count_eq, display_present]
    rfl
  · rw [hrecord, hsummaries]
    refine h.numbered.concat ?_
    rw [Numbered, UInt32.ofNat_add, ← h.count_eq]
    rfl

theorem Prints.step (h : Prints s w) (hstep : Step w w') : Prints s w' := by
  cases hstep with
  | turn hs =>
    exact ⟨(congrArg ConsoleView.printed hs).trans h.printed_eq,
      (congrArg ConsoleView.pending hs).trans h.pending_eq, h.taken, h.fetched, h.count_eq,
      h.numbered⟩
  | opened => exact h.other (d := .opened) rfl rfl rfl rfl rfl rfl (fun _ => id) rfl
  | closed => exact h.other (d := .closed) rfl rfl rfl rfl rfl rfl nofun rfl
  | byte hopen hb hs =>
    exact h.other (d := .ran _ none) rfl rfl rfl rfl (congrArg ConsoleView.printed hs)
      (congrArg ConsoleView.pending hs) (fun _ => id) rfl
  | line hopen hb hs =>
    exact h.other (d := .ran _ _) rfl rfl rfl rfl (congrArg ConsoleView.printed hs)
      (congrArg ConsoleView.pending hs) nofun rfl
  | took hx hs => exact h.took hx hs
  | sent ho now => exact h.sent ho now
  | shown im => exact h.shown im

theorem prints_watch (h : Dormant s) (history : List Happening) : Prints s (watch s history) := by
  refine (watch_steps h.offline history).invariant ?_ fun w w' hw => hw.step
  exact ⟨(List.append_nil _).symm, h.empty, nofun, always_nil _, rfl, always_nil _⟩

/-- The last of some numbered summaries is as many numbers on as there are summaries in between. -/
theorem count_getLast {shown later : List Summary} (h : Always Numbered (shown ++ x :: later)) :
    ∃ y, (shown ++ x :: later).getLast? = some y ∧
      y.count = x.count + UInt32.ofNat later.length := by
  have hx : x.count = UInt32.ofNat (shown.length + 1) := h shown x later rfl
  rcases List.eq_nil_or_concat' later with rfl | ⟨between, y, rfl⟩
  · exact ⟨x, List.getLast?_concat .., (add_zero _).symm⟩
  · have hlast : shown ++ x :: (between ++ [y]) = (shown ++ x :: between) ++ [y] := by simp
    have hy : y.count = UInt32.ofNat ((shown ++ x :: between).length + 1) :=
      h (shown ++ x :: between) y [] hlast
    refine ⟨y, by rw [hlast, List.getLast?_concat], ?_⟩
    rw [hy, hx, ← UInt32.ofNat_add]
    congr 1
    simp
    omega

/-- **The oldest summary is printed.**  Whatever happens on the board, the host gets the messages on
record.  A summary among them was taken out of the channel before, and it is the first of those that
the display had made since the one before it was taken.  The latest one is as many numbers on as
there were later ones; so, short of as many images as there are numbers, the summary that is printed
is the latest one exactly if there was no later one. -/
theorem printed_oldest {before after : List Deed} (h : Dormant s) (history : List Happening)
    (hsent : (watch s history).record = before ++ .sent (.summary x) :: after) :
    printed (history.foldl Happening.run (s, {})).1 =
        printed s ++ packetsOfAll (sentIn (watch s history).record) ∧
      ∃ front later, LastTook before front x ∧ untaken front = x :: later ∧
        (∃ y, (shownIn front).getLast? = some y ∧
          y.count = x.count + UInt32.ofNat later.length) ∧
        (later.length < UInt32.size → ((shownIn front).getLast? = some x ↔ later = [])) := by
  have hprints := prints_watch h history
  obtain ⟨front, hlast⟩ : ∃ front, LastTook before front x := hprints.fetched before _ after hsent
  obtain ⟨behind, hbefore, -⟩ := id hlast
  have hfront : (watch s history).record =
      front ++ .took x :: (behind ++ .sent (.summary x) :: after) := by simp [hsent, hbefore]
  have htook : (untaken front).head? = some x := hprints.fetched front (.took x) _ hfront
  obtain ⟨later, hlater⟩ := List.head?_eq_some_iff.1 htook
  obtain ⟨shown, hshown⟩ := untaken_suffix front
  rw [hlater] at hshown
  have hnumbered := hprints.numbered
  rw [hfront, shownIn_append, ← hshown] at hnumbered
  obtain ⟨y, hy, hcount⟩ := count_getLast hnumbered.of_append
  rw [hshown] at hy
  refine ⟨?_, front, later, hlast, hlater, ⟨y, hy, hcount⟩, ?_⟩
  · rw [← plain_watch]
    exact hprints.printed_eq
  · intro hfew
    constructor
    · intro hlatest
      obtain rfl : y = x := Option.some.inj (hy.symm.trans hlatest)
      have hzero : UInt32.ofNat later.length = 0 := by simpa using hcount
      have hlength := congrArg UInt32.toNat hzero
      rw [UInt32.toNat_ofNat_of_lt' hfew] at hlength
      exact List.eq_nil_of_length_eq_zero hlength
    · rintro rfl
      rw [← hshown, List.getLast?_concat]

/-- Two images are displayed before the host opens the console. -/
def twoImages : List Happening :=
  [.display ((Image.filled? 2 1 9).getD .empty), .display ((Image.filled? 2 1 7).getD .empty),
    .event (.host .connect), .console 0]

/-- The summary of the first one is printed. -/
theorem record_twoImages : (watch { hub := Flight.hub, rig := {} } twoImages).record =
    [.shown ⟨1, 2, 1, 9⟩, .shown ⟨2, 2, 1, 7⟩, .opened, .took ⟨1, 2, 1, 9⟩,
      .sent (.summary ⟨1, 2, 1, 9⟩)] := by
  decide +kernel

/-- What the theorem says of it. -/
theorem oldest_of_two :
    let record := (watch { hub := Flight.hub, rig := {} } twoImages).record
    let before : List Deed :=
      [.shown ⟨1, 2, 1, 9⟩, .shown ⟨2, 2, 1, 7⟩, .opened, .took ⟨1, 2, 1, 9⟩]
    record = before ++ [.sent (.summary ⟨1, 2, 1, 9⟩)] ∧
      ∃ front later, LastTook before front ⟨1, 2, 1, 9⟩ ∧ untaken front = ⟨1, 2, 1, 9⟩ :: later ∧
        (∃ y, (shownIn front).getLast? = some y ∧ y.count = 1 + UInt32.ofNat later.length) ∧
        (later.length < UInt32.size →
          ((shownIn front).getLast? = some ⟨1, 2, 1, 9⟩ ↔ later = [])) := by
  intro record before
  have hsent : record = before ++ [.sent (.summary ⟨1, 2, 1, 9⟩)] := record_twoImages
  obtain ⟨-, holdest⟩ := printed_oldest ⟨rfl, rfl, rfl⟩ twoImages hsent
  exact ⟨hsent, holdest⟩

/-- The first of the two is printed, although the second one was made before the first was taken. -/
theorem latest_not_printed :
    ¬ ∀ (s : Shared Rig) (history : List Happening) (before front after : List Deed) (x : Summary),
      Dormant s → (watch s history).record = before ++ .sent (.summary x) :: after →
      LastTook before front x → (shownIn front).getLast? = some x := by
  intro hall
  have hlast : LastTook
      [.shown ⟨1, 2, 1, 9⟩, .shown ⟨2, 2, 1, 7⟩, .opened, .took ⟨1, 2, 1, 9⟩]
      [.shown ⟨1, 2, 1, 9⟩, .shown ⟨2, 2, 1, 7⟩, .opened] ⟨1, 2, 1, 9⟩ := ⟨[], rfl, nofun⟩
  have hlatest := hall _ twoImages _ _ [] _ ⟨rfl, rfl, rfl⟩ record_twoImages hlast
  exact absurd hlatest (by decide)

end Watched

end Board

end OnboardVision

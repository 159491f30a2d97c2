import OnboardVision.Proofs.Telemetry.Decoding
import OnboardVision.Proofs.Telemetry.Flag

/-!
# Messages one after the other

`Navigator.applyAll` takes messages in order.  What a telemetry line does with bytes is to decode
them and to take the messages (`Receiver.feedAll_eq`).

Every value of the telemetry has one kind of message that writes it, so what it is in the end is told
by the messages of that kind alone: `Navigator.applyAll_overwritten` for a value that does not depend
on home, `Navigator.applyAll_position` for the one that does.

Main statement:

* `Navigator.telemetry_of_messages`: home has the coordinates of the first usable fix, and the
  telemetry is what the last message of each kind says, in whatever order the kinds come.
-/

namespace OnboardVision

namespace Message

/-! ### Kinds -/

/-- The kinds of messages. -/
inductive Kind where
  /-- Attitudes. -/
  | attitude
  /-- Satellite positions. -/
  | fix
  /-- Barometer readings. -/
  | vario
  deriving DecidableEq, Repr

/-- The kind of a message. -/
def kind : Message → Kind
  | .attitude _ => .attitude
  | .fix _ => .fix
  | .vario _ => .vario

/-- The attitude in a message. -/
def attitude? : Message → Option Attitude
  | .attitude a => some a
  | _ => none

/-- The fix in a message, if it rests on enough satellites to count. -/
def usableFix? : Message → Option Fix
  | .fix f => if f.satellites < 4 then none else some f
  | _ => none

/-- The barometer reading in a message. -/
def vario? : Message → Option Vario
  | .vario v => some v
  | _ => none

end Message

namespace Telemetry

/-- The telemetry that an attitude, a fix and a barometer reading make, as seen from home.  What is
missing is zero. -/
def ofLast (home : Option Home) (attitude : Option Attitude) (fix : Option Fix)
    (vario : Option Vario) : Telemetry where
  attitude := attitude.getD { roll := 0, pitch := 0, yaw := 0 }
  position := (home.bind fun h => fix.map fun f =>
    { north := Single.ofInt (f.lat - h.lat).toInt * 1.0e-7 * 111319.5
      east := Single.ofInt (f.lon - h.lon).toInt * 1.0e-7 * 111319.5 * h.lonScale
      down := h.altitude - f.altitude }).getD { north := 0, east := 0, down := 0 }
  velocity :=
    { north := (fix.map fun f => f.speed * f.course.toRadians.cos).getD 0
      east := (fix.map fun f => f.speed * f.course.toRadians.sin).getD 0
      down := (vario.map fun v => -v.climb).getD 0 }
  fresh := attitude.isSome

end Telemetry

namespace Navigator

variable {n : Navigator} {t : Telemetry} {f : Fix}

/-! ### One message -/

theorem applyFix_of_lt (h : f.satellites < 4) : n.applyFix f t = (n, t, []) := if_pos h

/-- A usable fix writes the position and the velocity over ground. -/
theorem applyFix_of_not_lt (h : ¬ f.satellites < 4) :
    n.applyFix f t =
      ({ home := some (n.home.getD (homeAt f)) },
        (t.setPosition (positionFrom (n.home.getD (homeAt f)) f)).setVelocity
          (velocityOf f t.velocity.down),
        if n.home.isSome then [] else [.homeFix f.satellites]) := by
  have hcounts : ¬ f.satellites < minSatellites := h
  rw [applyFix, if_neg hcounts]
  cases n.home <;> rfl

/-- Nothing that was written is lost to a message of another kind. -/
theorem apply_fields (n : Navigator) (m : Message) (t : Telemetry) :
    (n.apply m t).1.home = n.home.or (m.usableFix?.map homeAt) ∧
    (n.apply m t).2.1 =
      { attitude := m.attitude?.getD t.attitude
        position := (m.usableFix?.map fun f =>
          positionFrom (n.home.getD (homeAt f)) f).getD t.position
        velocity :=
          { north := (m.usableFix?.map fun f => f.speed * f.course.toRadians.cos).getD
              t.velocity.north
            east := (m.usableFix?.map fun f => f.speed * f.course.toRadians.sin).getD
              t.velocity.east
            down := (m.vario?.map fun v => -v.climb).getD t.velocity.down }
        fresh := (m.attitude?.map fun _ => true).getD t.fresh } := by
  cases m with
  | attitude a => exact ⟨Option.or_none.symm, rfl⟩
  | vario v => exact ⟨Option.or_none.symm, rfl⟩
  | fix f =>
    by_cases h : f.satellites < 4
    · rw [apply, applyFix_of_lt h, Message.usableFix?, if_pos h]
      exact ⟨Option.or_none.symm, rfl⟩
    · rw [apply, applyFix_of_not_lt h, Message.usableFix?, if_neg h]
      refine ⟨?_, rfl⟩
      cases n.home <;> rfl

/-! ### All messages -/

/-- Takes messages. -/
def applyAll (n : Navigator) (t : Telemetry) : List Message → Navigator × Telemetry × List Note
  | [] => (n, t, [])
  | m :: ms =>
    let (n, t, notes) := n.apply m t
    let (n, t, more) := n.applyAll t ms
    (n, t, notes ++ more)

theorem applyAll_cons (n : Navigator) (t : Telemetry) (m : Message) (ms : List Message) :
    n.applyAll t (m :: ms) =
      (((n.apply m t).1.applyAll (n.apply m t).2.1 ms).1,
        ((n.apply m t).1.applyAll (n.apply m t).2.1 ms).2.1,
        (n.apply m t).2.2 ++ ((n.apply m t).1.applyAll (n.apply m t).2.1 ms).2.2) := rfl

theorem applyAll_append (n : Navigator) (t : Telemetry) (xs ys : List Message) :
    n.applyAll t (xs ++ ys) =
      (((n.applyAll t xs).1.applyAll (n.applyAll t xs).2.1 ys).1,
        ((n.applyAll t xs).1.applyAll (n.applyAll t xs).2.1 ys).2.1,
        (n.applyAll t xs).2.2 ++ ((n.applyAll t xs).1.applyAll (n.applyAll t xs).2.1 ys).2.2) := by
  induction xs generalizing n t with
  | nil => rfl
  | cons m xs ih => rw [List.cons_append, applyAll_cons, ih, applyAll_cons, List.append_assoc]

theorem applyAll_home (n : Navigator) (t : Telemetry) (ms : List Message) :
    (n.applyAll t ms).1.home = n.home.or ((ms.filterMap Message.usableFix?).head?.map homeAt) := by
  induction ms generalizing n t with
  | nil => exact Option.or_none.symm
  | cons m ms ih =>
    rw [applyAll_cons, ih, (apply_fields n m t).1, Option.or_assoc, List.filterMap_cons]
    cases m.usableFix? with
    | none => rfl
    | some f => rfl

/-- A value that some messages overwrite, whatever home is, is what the last of them says. -/
theorem applyAll_overwritten {α β : Type} (field : Telemetry → β) (write? : Message → Option α)
    (value : α → β)
    (h : ∀ n m t, field (apply n m t).2.1 = ((write? m).map value).getD (field t))
    (n : Navigator) (t : Telemetry) (ms : List Message) :
    field (n.applyAll t ms).2.1 = ((ms.filterMap write?).getLast?.map value).getD (field t) := by
  induction ms generalizing n t with
  | nil => rfl
  | cons m ms ih =>
    rw [applyAll_cons, ih, h, List.filterMap_cons]
    cases write? m with
    | none => rfl
    | some a =>
      rw [List.getLast?_cons]
      cases (ms.filterMap write?).getLast? <;> rfl

/-- The position is what the last usable fix says as seen from home, and home is where the first one
was. -/
theorem applyAll_position (n : Navigator) (t : Telemetry) (ms : List Message) :
    (n.applyAll t ms).2.1.position =
      ((n.applyAll t ms).1.home.bind fun h =>
        (ms.filterMap Message.usableFix?).getLast?.map (positionFrom h)).getD t.position := by
  -- from the back: the last message writes the position, or it leaves home and position as they are
  induction ms using List.reverseRecOn with
  | nil => simp [applyAll]
  | append_singleton ms m ih =>
    have hlast := applyAll_append n t ms [m]
    obtain ⟨hhome, hwrite⟩ := apply_fields (n.applyAll t ms).1 m (n.applyAll t ms).2.1
    rw [hlast, applyAll_cons]
    dsimp only [applyAll]
    rw [hhome, hwrite, List.filterMap_append]
    cases hm : m.usableFix? with
    | none => simp [hm, ih]
    | some f => cases (n.applyAll t ms).1.home <;> simp [hm]

/-! ### Order -/

/-- Two messages of different kinds may come in either order. -/
theorem applyAll_pair_comm {a b : Message} (h : a.kind ≠ b.kind) (n : Navigator) (t : Telemetry) :
    n.applyAll t [a, b] = n.applyAll t [b, a] := by
  have hfix : ∀ (m : Message) (f : Fix), m.kind ≠ .fix →
      n.applyAll t [m, .fix f] = n.applyAll t [.fix f, m] := by
    intro m f hm
    by_cases hf : f.satellites < 4
    · cases m <;> simp [applyAll, apply, applyFix_of_lt hf]
    · cases m with
      | attitude a => simp [applyAll, apply, applyFix_of_not_lt hf]; rfl
      | vario v => simp [applyAll, apply, applyFix_of_not_lt hf]; rfl
      | fix g => exact absurd rfl hm
  cases a with
  | fix f => exact (hfix b f (Ne.symm h)).symm
  | attitude a =>
    cases b with
    | fix f => exact hfix _ f h
    | attitude b => exact absurd rfl h
    | vario v => rfl
  | vario v =>
    cases b with
    | fix f => exact hfix _ f h
    | attitude b => rfl
    | vario w => exact absurd rfl h

theorem applyAll_swap {a b : Message} (h : a.kind ≠ b.kind) (n : Navigator) (t : Telemetry)
    (before after : List Message) :
    n.applyAll t (before ++ b :: a :: after) = n.applyAll t (before ++ a :: b :: after) := by
  have hsplit : ∀ x y : Message, before ++ x :: y :: after = before ++ ([x, y] ++ after) :=
    fun _ _ => rfl
  have hpair : ∀ (n : Navigator) (t : Telemetry),
      n.applyAll t ([b, a] ++ after) = n.applyAll t ([a, b] ++ after) := by
    intro n t
    rw [applyAll_append, applyAll_append n t [a, b], applyAll_pair_comm h]
  rw [hsplit, hsplit, applyAll_append, applyAll_append n t before ([a, b] ++ after), hpair]

/-! ### The whole telemetry -/

/-- From a fresh start, every value is what the last message of its kind says. -/
theorem applyAll_fresh (ms : List Message) :
    (({} : Navigator).applyAll {} ms).2.1 =
      Telemetry.ofLast (({} : Navigator).applyAll {} ms).1.home
        (ms.filterMap Message.attitude?).getLast? (ms.filterMap Message.usableFix?).getLast?
        (ms.filterMap Message.vario?).getLast? := by
  have hposition := applyAll_position {} {} ms
  have hattitude := applyAll_overwritten (·.attitude) Message.attitude? id
    (fun n m t => by rw [(apply_fields n m t).2, Option.map_id]; rfl) {} {} ms
  have hfresh := applyAll_overwritten (·.fresh) Message.attitude? _
    (fun n m t => by rw [(apply_fields n m t).2]) {} {} ms
  have hnorth := applyAll_overwritten (·.velocity.north) Message.usableFix? _
    (fun n m t => by rw [(apply_fields n m t).2]) {} {} ms
  have heast := applyAll_overwritten (·.velocity.east) Message.usableFix? _
    (fun n m t => by rw [(apply_fields n m t).2]) {} {} ms
  have hdown := applyAll_overwritten (·.velocity.down) Message.vario? _
    (fun n m t => by rw [(apply_fields n m t).2]) {} {} ms
  rcases hall : ({} : Navigator).applyAll {} ms with
    ⟨n, ⟨⟨attitude, position, north, east, down⟩, fresh⟩, notes⟩
  rw [hall] at hposition hattitude hfresh hnorth heast hdown
  dsimp only at hposition hattitude hfresh hnorth heast hdown ⊢
  rw [Option.map_id] at hattitude
  subst hattitude hfresh hnorth heast hdown
  rw [hposition, Telemetry.ofLast]
  cases (ms.filterMap Message.attitude?).getLast? <;> rfl

/-- **The telemetry is what the last message of each kind says.**  From a fresh start, home has the
latitude, the longitude and the altitude of the first usable fix and the scale for its latitude; it
stays so, and without such a fix there is none.  The attitude is the last one; position and velocity
over ground are those of the last usable fix, seen from home; the vertical velocity is that of the
last barometer reading; what no message has written is zero.  A fix with too few satellites changes
nothing, a fix keeps the vertical velocity and a barometer reading everything else, and neighbours
of different kinds may change places. -/
theorem telemetry_of_messages (ms : List Message) :
    let (n, t, notes) := ({} : Navigator).applyAll {} ms
    let fixes := ms.filterMap Message.usableFix?
    (n.home = fixes.head?.map fun f =>
      { lat := f.lat, lon := f.lon, altitude := f.altitude
        lonScale := (Single.ofInt f.lat.toInt * 1.0e-7).toRadians.cos }) ∧
    t = Telemetry.ofLast n.home (ms.filterMap Message.attitude?).getLast? fixes.getLast?
      (ms.filterMap Message.vario?).getLast? ∧
    (∀ h more, n.home = some h → (n.applyAll t more).1.home = some h) ∧
    (∀ f : Fix, f.satellites < 4 → n.apply (.fix f) t = (n, t, [])) ∧
    (∀ f, (n.apply (.fix f) t).2.1.velocity.down = t.velocity.down) ∧
    (∀ v : Vario, n.apply (.vario v) t =
      (n, { t with velocity.down := -v.climb }, [])) ∧
    ∀ before a b after, ms = before ++ a :: b :: after → a.kind ≠ b.kind →
      ({} : Navigator).applyAll {} (before ++ b :: a :: after) = (n, t, notes) := by
  have hhome := applyAll_home {} {} ms
  have hlast := applyAll_fresh ms
  rcases hall : ({} : Navigator).applyAll {} ms with ⟨n, t, notes⟩
  rw [hall] at hhome hlast
  refine ⟨hhome, hlast, ?stays, ?ignored, ?fix, fun _ => rfl, ?swap⟩
  case stays =>
    intro h more hn
    rw [applyAll_home, hn]
    rfl
  case ignored => exact fun f hf => applyFix_of_lt hf
  case fix =>
    intro f
    rw [(apply_fields n (.fix f) t).2]
    rfl
  case swap =>
    rintro before a b after rfl hab
    rw [applyAll_swap hab, hall]

end Navigator

namespace Receiver

theorem feedAll_append (r : Receiver) (t : Telemetry) (xs ys : List UInt8) :
    r.feedAll t (xs ++ ys) =
      let (ms, r, t, notes) := r.feedAll t xs
      let (ms', r, t, more) := r.feedAll t ys
      (ms ++ ms', r, t, notes ++ more) := by
  induction xs generalizing r t with
  | nil => rfl
  | cons x xs ih =>
    rw [List.cons_append, feedAll_cons, feedAll_cons]
    simp only [ih, List.append_assoc]

/-- A telemetry line decodes its bytes and takes the messages in them. -/
theorem feedAll_eq (r : Receiver) (t : Telemetry) (i : ℕ) (data : List UInt8) :
    r.feedAll t data =
      let (out, decoder) := r.decoder.feedAll i data
      let (navigator, t, notes) := r.navigator.applyAll t (out.map Prod.snd)
      (out.map Prod.snd, { decoder, navigator }, t, notes) := by
  induction data generalizing r t i with
  | nil => rfl
  | cons x data ih =>
    rw [feedAll_cons, Crsf.Decoder.feedAll_cons]
    rcases hfeed : r.decoder.feed x with ⟨_ | m, decoder⟩
    · have hone : r.feed x t = (none, { r with decoder }, t, []) := by rw [feed, hfeed]
      rw [hone]
      dsimp only
      rw [ih _ _ (i + 1)]
      rfl
    · have hone : r.feed x t = (some m, { decoder, navigator := (r.navigator.apply m t).1 },
          (r.navigator.apply m t).2.1, (r.navigator.apply m t).2.2) := by rw [feed, hfeed]
      rw [hone]
      dsimp only
      rw [ih _ _ (i + 1)]
      rfl

end Receiver

end OnboardVision

import OnboardVision.Console.Reply
import OnboardVision.Proofs.Single.Tenths

/-!
# What a reply shows

The reply to a line that is no command says what is wrong with it (`LineError.Says`).  The reply to a
command has the size of the frame, the rate in tenths of a hertz and the period in milliseconds;
`Snapshot.Shows` says which text that is by what the numbers in it are.

* `Duration.toMillis_ofMillis`: a number of milliseconds that fits into 64 bits is printed as it is.

Main statements:

* `LineError.says_iff` and `Snapshot.shows_iff`: a reply is the one text that says what is wrong with
  the line, or shows the snapshot.
-/

namespace OnboardVision

/-- The text says what is wrong with a line. -/
inductive LineError.Says : LineError → String → Prop where
  /-- There is no word in it. -/
  | empty : Says .empty "[ERR] empty line\r\n"
  /-- The first word is no keyword. -/
  | unknown : Says .unknown "[ERR] unknown command\r\n"
  /-- There are too few words. -/
  | missingArgument : Says .missingArgument "[ERR] missing argument\r\n"
  /-- An argument is no numeral of its kind. -/
  | invalidArgument : Says .invalidArgument "[ERR] invalid argument\r\n"
  /-- The line does not fit the line buffer, or is not ASCII. -/
  | overflow : Says .overflow "[ERR] line too long\r\n"

/-- **The reply to a line that is no command is the one text that says what is wrong with it.** -/
theorem LineError.says_iff {e : LineError} {text : String} : e.Says text ↔ text = e.reply := by
  constructor
  · intro h
    cases h <;> decide
  · rintro rfl
    cases e with
    | empty => exact .empty
    | unknown => exact .unknown
    | missingArgument => exact .missingArgument
    | invalidArgument => exact .invalidArgument
    | overflow => exact .overflow

theorem Duration.toMillis_ofMillis {ms : ℕ} (h : ofMillis ms ≤ endOfTime) :
    (ofMillis ms).toMillis = ms := by
  rw [toMillis, Nat.mod_eq_of_lt (Nat.lt_succ_of_le h), ofMillis]
  exact Nat.mul_div_cancel_left ms (by decide)

namespace Snapshot

variable {sn : Snapshot} {text : String}

/-- The text shows the snapshot: the size of the frame, the rate in tenths of a hertz, and the
milliseconds of the period.  These are the ones that 64 bits hold, and so the period if it fits. -/
def Shows (sn : Snapshot) (text : String) : Prop :=
  ∃ (hz : String) (ms : ℕ), sn.rate.InTenths hz ∧
    ms = 1000 * max 1 (1000 / sn.rate + 0.5).toNat64 % 2 ^ 64 / 1000 ∧
    (sn.period ≤ endOfTime → 1000 * ms = sn.period) ∧
    text = "[CFG] " ++ toString sn.width.toNat ++ "x" ++ toString sn.height.toNat ++ " @ " ++ hz ++
      " Hz, period " ++ toString ms ++ " ms\r\n"

theorem reply_eq (sn : Snapshot) :
    sn.reply = "[CFG] " ++ toString sn.width.toNat ++ "x" ++ toString sn.height.toNat ++ " @ " ++
      sn.rate.tenths ++ " Hz, period " ++ toString sn.period.toMillis ++ " ms\r\n" := by
  have hend : " ms" ++ lineEnd = " ms\r\n" := by decide
  simp only [reply, Note.size, String.append_assoc, hend]

/-- **The reply is the one text that shows the snapshot.** -/
theorem shows_iff : sn.Shows text ↔ text = sn.reply := by
  have hmillis : sn.period.toMillis =
      1000 * max 1 (1000 / sn.rate + 0.5).toNat64 % 2 ^ 64 / 1000 := rfl
  rw [reply_eq]
  constructor
  · rintro ⟨hz, ms, hhz, hms, -, rfl⟩
    rw [Single.inTenths_iff.1 hhz, hms, hmillis]
  · rintro rfl
    refine ⟨_, _, Single.inTenths_iff.2 rfl, hmillis, fun hfits => ?_, rfl⟩
    exact congrArg (1000 * ·) (Duration.toMillis_ofMillis hfits)

/-- A rate of 32.25 Hz is as far from 32.2 as from 32.3. -/
example : ({ rate := 32.25 } : Snapshot).reply = "[CFG] 160x120 @ 32.2 Hz, period 31 ms\r\n" := by
  decide

/-- The period is beyond 64 bits, and what they hold of it is shown. -/
example : ({ rate := 1.0e-20 } : Snapshot).reply =
    "[CFG] 160x120 @ 0.0 Hz, period 18446744073709550 ms\r\n" := by
  decide

end Snapshot

end OnboardVision

import OnboardVision.Proofs.Settings.Capacity
import OnboardVision.Proofs.Single.Halves

/-!
# The period of a frame rate

The period is `1000 / rate` milliseconds to the nearest, found by adding a half and dropping the
fraction.  A rate that passed the checks is at most 1000 Hz, so the quotient is at least one.

* `Snapshot.one_le_quotient`: that quotient;
* `Snapshot.period_antitone`: a higher rate has no longer period.

Main statements:

* `Snapshot.Sound.period_le_endOfTime_iff`: 64 bits have room for the period exactly down to rates of
  some `5.4 · 10⁻¹⁴` Hz; they always have for the wait of the start (`Snapshot.syncTimeout_lt`);
* `Snapshot.period_of_accepted`: the period of every accepted rate.  It is the rounded quotient
  unless that is an odd number of milliseconds from `2²³` up to `2²⁴`, and then a millisecond more;
  `Snapshot.period_after_odd_quotient` is such a rate.
-/

namespace OnboardVision

namespace Single

variable {x : Single}

theorem zero_eq : (0 : Single) = .finite false ⟨0, by decide⟩ := by decide

/-- The rank of 1000. -/
def thousand : Fin infRank := ⟨0x447a0000, by decide⟩

theorem thousand_eq : (1000 : Single) = .finite false thousand := by decide

/-- A positive finite number has a rank above that of zero, and no minus sign. -/
theorem exists_rank_of_pos (hfinite : x.isFinite = true) (hpos : 0 < x) :
    ∃ k : Fin infRank, x = .finite false k ∧ k.val ≠ 0 := by
  cases x with
  | nan => cases hfinite
  | inf neg => cases hfinite
  | finite neg k =>
    rw [zero_eq] at hpos
    have hkey : (0 : ℤ) < signed neg k := of_decide_eq_true hpos
    cases neg with
    | true =>
      simp only [signed, ↓reduceIte] at hkey
      omega
    | false =>
      simp only [signed, Bool.false_eq_true, ↓reduceIte] at hkey
      exact ⟨k, rfl, by omega⟩

end Single

namespace Snapshot

open Single

variable {s : Settings} {capacity : ℕ} {sn : Snapshot}

/-- Accepted settings are put in force as they are. -/
theorem sound_of_accepted (hs : ofSettings s capacity = .ok sn) :
    sn.toSettings = s ∧ sn.Sound := by
  rcases ofSettings_cases s capacity with hpasses | ⟨e, he⟩
  · rw [hpasses] at hs
    cases hs
    exact ⟨rfl, (Settings.passes_iff_sound.1 hpasses).1⟩
  · rw [he] at hs
    cases hs

/-- The rate of a snapshot that passed the checks. -/
theorem Sound.exists_rank (h : sn.Sound) :
    ∃ r : Fin infRank, sn.rate = .finite false r ∧ r.val ≠ 0 ∧ r.val ≤ thousand := by
  obtain ⟨r, hr, hne⟩ := exists_rank_of_pos h.rate_finite h.rate_pos
  have hle := h.rate_le
  rw [hr, maxRate, thousand_eq, finite_le_iff] at hle
  exact ⟨r, hr, hne, hle⟩

/-- The quotient is one at least. -/
theorem one_le_quotient {r : Fin infRank} {q : ℚ} (hne : r.val ≠ 0) (hle : r.val ≤ thousand)
    (hq : (.finite false thousand / .finite false r : Single).value? = some q) : 1 ≤ q := by
  rw [finite_div _ _ hne] at hq
  obtain ⟨-, rfl⟩ := value?_ofRatio hq
  have hrank : rankOfRatio unitsPerOne 1 ≤
      rankOfRatio (magnitude thousand * unitsPerOne) (magnitude r) := by
    refine rankOfRatio_mono Nat.one_pos (magnitude_pos hne) ?_
    rw [Nat.mul_one, Nat.mul_comm]
    exact Nat.mul_le_mul_right _ (magnitude_mono hle)
  have hone : magnitude (rankOfRatio unitsPerOne 1) = unitsPerOne := by decide
  have hmag := magnitude_mono hrank
  rw [hone] at hmag
  rw [one_le_div units_pos]
  exact_mod_cast hmag

theorem hasSign_quotient {r : Fin infRank} (hne : r.val ≠ 0) :
    (.finite false thousand / .finite false r : Single).HasSign false :=
  HasSign.div ⟨nofun, rfl⟩ hne

/-- **A higher rate has no longer period.** -/
theorem period_antitone {sn' : Snapshot} (h : sn.Sound) (h' : sn'.Sound)
    (hle : sn.rate ≤ sn'.rate) : sn'.period ≤ sn.period := by
  obtain ⟨r, hr, hne, -⟩ := h.exists_rank
  obtain ⟨r', hr', hne', -⟩ := h'.exists_rank
  rw [hr, hr', finite_le_iff] at hle
  have hx := hasSign_quotient hne
  have hx' := hasSign_quotient hne'
  have hquotient : (.finite false thousand / .finite false r' : Single) ≤
      .finite false thousand / .finite false r := div_le_div_left hne hle
  have hsum := add_le_add (k := ⟨0x3f000000, by decide⟩) hx' hx hquotient
  rw [period, period, periodMs, periodMs, hr, hr', thousand_eq, half_eq]
  exact Nat.mul_le_mul_left 1000 (max_le_max_left 1 (toNat64_mono hx'.add hx.add hsum))

/-! ### Room in 64 bits -/

/-- The rank of the lowest rate whose period still fits into 64 bits. -/
def slowest : Fin infRank := ⟨0x29742401, by decide⟩

theorem slowest_eq : (5.4210112e-14 : Single) = .finite false slowest := by decide

theorem sound_of_rank {r : Fin infRank} (hne : r.val ≠ 0) (hle : r.val ≤ thousand) :
    ({ rate := .finite false r } : Snapshot).Sound where
  width_ne := sound_default.width_ne
  height_ne := sound_default.height_ne
  rate_finite := rfl
  rate_pos := by
    rw [zero_eq]
    exact decide_eq_true (Int.natCast_pos.2 (Nat.pos_of_ne_zero hne))
  rate_le := by
    rw [maxRate, thousand_eq, finite_le_iff]
    exact hle

/-- **When the period fits into 64 bits.**  The period is exact, and on the board it is a product of
64-bit numbers.  The two are the same for rates from about `5.4 · 10⁻¹⁴` Hz on, and for no others. -/
theorem Sound.period_le_endOfTime_iff (h : sn.Sound) :
    sn.period ≤ endOfTime ↔ 5.4210112e-14 ≤ sn.rate := by
  obtain ⟨r, hr, -, -⟩ := h.exists_rank
  rw [slowest_eq]
  constructor
  · intro hfits
    by_contra hlow
    -- then the rate is at most the next lower number, and that has too long a period already
    have hle : r.val ≤ (⟨0x29742400, by decide⟩ : Fin infRank).val := by
      rw [hr, finite_le_iff] at hlow
      exact Nat.le_of_lt_succ (Nat.lt_of_not_le hlow)
    have hlonger := period_antitone h (sound_of_rank (by decide) (by decide))
      (hr ▸ finite_le_iff.2 hle)
    have hlong : endOfTime <
        ({ rate := .finite false ⟨0x29742400, by decide⟩ } : Snapshot).period := by decide
    exact absurd (Nat.le_trans hlonger hfits) (Nat.not_le.2 hlong)
  · intro hle
    exact Nat.le_trans (period_antitone (sound_of_rank (by decide) (by decide)) h hle) (by decide)

/-- The wait of the start is a 32-bit number of milliseconds. -/
theorem syncTimeout_lt {d : Duration} (hd : sn.syncTimeout = some d) : d < 2 ^ 42 := by
  rw [syncTimeout] at hd
  split at hd
  · cases hd
  · cases hd
    calc 1000 * sn.syncMs.toNat < 1000 * 2 ^ 32 :=
          Nat.mul_lt_mul_of_pos_left sn.syncMs.toNat_lt (by decide)
      _ ≤ 2 ^ 42 := by decide

/-! ### Accepted rates -/

/-- A quotient that is a number has a rank. -/
theorem exists_rank_of_value {x : Single} {q : ℚ} (hx : x.HasSign false) (hq : x.value? = some q) :
    ∃ k : Fin infRank, x = .finite false k := by
  rcases hx.cases with hfinite | rfl
  · exact hfinite
  · cases hq

/-- A quotient whose period fits the clock does so when it is rounded. -/
theorem floor_le_endOfTime {k : Fin infRank} {q : ℚ} (hk : (finite false k).value? = some q)
    (hlt : q < 2 ^ 64 / 1000) : 1000 * ⌊q + 1 / 2⌋₊ ≤ endOfTime := by
  by_cases hsmall : q < 2 ^ 23
  · have hfloor : ⌊q + 1 / 2⌋₊ ≤ 2 ^ 24 := Nat.floor_le_of_le (by push_cast; linarith)
    exact Nat.le_trans (Nat.mul_le_mul_left _ hfloor) (by decide)
  · obtain ⟨n, rfl⟩ := exists_nat_of_le hk (not_lt.1 hsmall)
    have hhalf : ⌊(1 / 2 : ℚ)⌋₊ = 0 := by norm_num
    rw [add_comm, Nat.floor_add_natCast (by norm_num), hhalf, Nat.zero_add]
    have hn : 1000 * n < 2 ^ 64 := by
      rw [lt_div_iff₀ (by norm_num)] at hlt
      exact_mod_cast (by linarith : (1000 * n : ℚ) < 2 ^ 64)
    exact Nat.le_of_lt_succ hn

/-- **The period of accepted settings.**  With `q` the single-precision number nearest to 1000
divided by the rate, the period is `q` to the nearest millisecond, a half going up; only an odd `q`
from `2²³` up to `2²⁴` gives a millisecond more.  It is a millisecond at least, it fits the clock, and
no higher rate has a longer one. -/
theorem period_of_accepted (hs : ofSettings s capacity = .ok sn) {q : ℚ}
    (hq : (1000 / s.rate : Single).value? = some q) (hlt : q < 2 ^ 64 / 1000) :
    (∃ hz : ℚ, s.rate.value? = some hz ∧
      ∀ (z : Single) v, z.value? = some v → |q - 1000 / hz| ≤ |v - 1000 / hz|) ∧
    (¬ TiesUp q → sn.period = 1000 * ⌊q + 1 / 2⌋₊) ∧
    (TiesUp q → sn.period = 1000 * (⌊q + 1 / 2⌋₊ + 1)) ∧
    1000 ≤ sn.period ∧ sn.period ≤ endOfTime ∧
    ∀ s' capacity' sn', ofSettings s' capacity' = .ok sn' → s.rate ≤ s'.rate →
      sn'.period ≤ sn.period := by
  obtain ⟨rfl, hsound⟩ := sound_of_accepted hs
  obtain ⟨r, hr, hne, hle⟩ := hsound.exists_rank
  have hq' := hq
  rw [hr, thousand_eq] at hq'
  have hone := one_le_quotient hne hle hq'
  obtain ⟨k, hk⟩ := exists_rank_of_value (hasSign_quotient hne) hq'
  have hvalue : (finite false k).value? = some q := hk ▸ hq'
  obtain ⟨hnearest, hties⟩ := toNat64_add_half hvalue hone (by linarith)
  have hperiod : sn.period = 1000 * max 1 (.finite false k + 0.5 : Single).toNat64 := by
    rw [period, periodMs, hr, thousand_eq, hk]
    rfl
  have hfloor : 1 ≤ ⌊q + 1 / 2⌋₊ := Nat.le_floor (by push_cast; linarith)
  have hplain : ¬ TiesUp q → sn.period = 1000 * ⌊q + 1 / 2⌋₊ := fun h => by
    rw [hperiod, hnearest h, max_eq_right hfloor]
  have hmore : TiesUp q → sn.period = 1000 * (⌊q + 1 / 2⌋₊ + 1) := fun h => by
    rw [hperiod, hties h, max_eq_right (Nat.le_add_left 1 _)]
  refine ⟨?_, hplain, hmore, ?_, ?_, fun s' capacity' sn' hs' hrate => ?_⟩
  · have hthousand : (finite false thousand).value? = some 1000 := by
      rw [value?_eq_div (n := 1000) (d := 1) (by decide) (by decide)]
      norm_num
    exact ⟨_, hr ▸ rfl, fun z v hz => div_nearest hthousand rfl hne hq' hz⟩
  · rw [hperiod]
    exact Nat.mul_le_mul_left 1000 (le_max_left 1 _)
  · by_cases h : TiesUp q
    · have hsmall : ⌊q + 1 / 2⌋₊ ≤ 2 ^ 25 :=
        Nat.floor_le_of_le (by push_cast; linarith [h.2.1])
      rw [hmore h]
      exact Nat.le_trans (Nat.mul_le_mul_left _ (Nat.add_le_add_right hsmall 1)) (by decide)
    · rw [hplain h]
      exact floor_le_endOfTime hvalue hlt
  · obtain ⟨rfl, hsound'⟩ := sound_of_accepted hs'
    exact period_antitone hsound hsound' hrate

/-- 60 Hz give sixteen milliseconds and two thirds, nearly, and so a period of seventeen. -/
theorem period_at_sixty :
    let s : Settings := { rate := 60 }
    ofSettings s (160 * 120) = .ok ⟨s⟩ ∧ (1000 / s.rate : Single).value? = some (8738133 / 2 ^ 19) ∧
      (8738133 / 2 ^ 19 : ℚ) < 2 ^ 64 / 1000 ∧ (⟨s⟩ : Snapshot).period = 17000 := by
  intro s
  have hs : ofSettings s (160 * 120) = .ok ⟨s⟩ := by decide
  have hq : (1000 / s.rate : Single).value? = some (8738133 / 2 ^ 19) := by
    have hrank : (1000 / s.rate : Single) = .finite false ⟨0x41855555, by decide⟩ := by decide
    rw [hrank, value?_eq_div (n := 8738133) (d := 2 ^ 19) (by decide) (by decide)]
    norm_num
  have hlt : (8738133 / 2 ^ 19 : ℚ) < 2 ^ 64 / 1000 := by norm_num
  obtain ⟨-, hplain, -⟩ := period_of_accepted hs hq hlt
  have hties : ¬ TiesUp (8738133 / 2 ^ 19) := fun h => by
    have := h.1
    norm_num at this
  have hfloor : ⌊(8738133 / 2 ^ 19 + 1 / 2 : ℚ)⌋₊ = 17 := by
    rw [Nat.floor_eq_iff (by norm_num)]
    norm_num
  refine ⟨hs, hq, hlt, ?_⟩
  rw [hplain hties, hfloor]

/-- A quotient of 10445419 ms, an odd number, and a period of a millisecond more. -/
theorem period_after_odd_quotient :
    let s : Settings := { rate := .ofBits 0x38c8c5bd }
    ofSettings s (160 * 120) = .ok ⟨s⟩ ∧ (1000 / s.rate : Single).value? = some 10445419 ∧
      (10445419 : ℚ) < 2 ^ 64 / 1000 ∧
      (⟨s⟩ : Snapshot).period ≠ 1000 * ⌊(10445419 + 1 / 2 : ℚ)⌋₊ := by
  intro s
  have hq : (1000 / s.rate : Single).value? = some 10445419 := by
    have hrank : (1000 / s.rate : Single) = .finite false ⟨0x4b1f626b, by decide⟩ := by decide
    rw [hrank, value?_eq_div (n := 10445419) (d := 1) (by decide) (by decide)]
    norm_num
  have hfloor : ⌊(10445419 + 1 / 2 : ℚ)⌋₊ = 10445419 := by
    rw [Nat.floor_eq_iff (by norm_num)]
    norm_num
  refine ⟨by decide, hq, by norm_num, ?_⟩
  rw [hfloor]
  decide

end Snapshot

end OnboardVision

import OnboardVision.Proofs.Console.Words
import Mathlib.Data.List.Induction
import Mathlib.Data.Nat.Digits.Defs

/-!
# The grammar of commands

`Command.read` against what an operator has to know about it.  A line is its words; the first one
is a keyword, and the keyword says what each of its arguments must be (`Command.signature`).  A
line without words, a line with another first word, and the first argument that is missing or is
none of its kind (`Command.Fault`) are told apart, and every other line means a command
(`Command.Means`).  Numerals are given by the number that their digits denote (`Numeral`), so
leading zeros do not count and every bound is exact.

`Command.read_follows_grammar` says that reading is this relation, on every line, and so that a
command that is written out is read back.
-/

namespace OnboardVision

/-! ### Numerals -/

/-- The word is a numeral for `n`: decimal digits after an optional plus sign, which denote a number
below `bound`. -/
def Numeral (bound : ℕ) (w : List Char) (n : ℕ) : Prop :=
  ∃ ds : List Char, ds ≠ [] ∧ (w = ds ∨ w = '+' :: ds) ∧ (∀ c ∈ ds, '0' ≤ c ∧ c ≤ '9') ∧
    Nat.ofDigits 10 (ds.reverse.map fun c => c.toNat - '0'.toNat) = n ∧ n < bound

theorem Numeral.lt {bound n : ℕ} {w : List Char} (h : Numeral bound w n) : n < bound := by
  obtain ⟨ds, -, -, -, -, hlt⟩ := h
  exact hlt

theorem isDigit_iff {c : Char} : c.isDigit = true ↔ '0' ≤ c ∧ c ≤ '9' := by
  simp [Char.isDigit, Char.le_def]

/-- Digits are read from the most significant one on. -/
theorem Single.ofDigits_eq (ds : List Char) :
    ofDigits ds = Nat.ofDigits 10 (ds.reverse.map fun c => c.toNat - '0'.toNat) := by
  induction ds using List.reverseRecOn with
  | nil => rfl
  | append_singleton ds c ih =>
    have hlast : ofDigits (ds ++ [c]) = 10 * ofDigits ds + digitValue c := by
      simp [ofDigits, List.foldl_append]
    rw [hlast, ih, List.reverse_concat, List.map_cons, Nat.ofDigits_cons, Nat.add_comm]
    rfl

/-- What is read behind the optional sign. -/
theorem checkDigits_eq_some_iff {bound n : ℕ} {ds : List Char} :
    (if ds.isEmpty || !ds.all Char.isDigit then none
      else if Single.ofDigits ds < bound then some (Single.ofDigits ds) else none) = some n ↔
    ds ≠ [] ∧ (∀ c ∈ ds, c.isDigit = true) ∧ Single.ofDigits ds = n ∧ n < bound := by
  by_cases hds : ds ≠ [] ∧ ∀ c ∈ ds, c.isDigit = true
  · have hread : (ds.isEmpty || !ds.all Char.isDigit) = false := by
      simpa using hds
    rw [if_neg (by simp [hread]), Option.ite_none_right_eq_some, Option.some_inj]
    constructor
    · rintro ⟨hlt, rfl⟩
      exact ⟨hds.1, hds.2, rfl, hlt⟩
    · rintro ⟨-, -, rfl, hlt⟩
      exact ⟨hlt, rfl⟩
  · have hread : (ds.isEmpty || !ds.all Char.isDigit) = true := by
      by_contra hread
      exact hds (by simpa using hread)
    rw [if_pos hread]
    exact iff_of_false nofun fun h => hds ⟨h.1, h.2.1⟩

theorem readNumeral?_plus {bound n : ℕ} {ds : List Char} :
    readNumeral? bound ('+' :: ds) = some n ↔
      ds ≠ [] ∧ (∀ c ∈ ds, c.isDigit = true) ∧ Single.ofDigits ds = n ∧ n < bound :=
  checkDigits_eq_some_iff

theorem readNumeral?_bare {bound n : ℕ} {ds : List Char} (h : ds.head? ≠ some '+') :
    readNumeral? bound ds = some n ↔
      ds ≠ [] ∧ (∀ c ∈ ds, c.isDigit = true) ∧ Single.ofDigits ds = n ∧ n < bound := by
  rw [← checkDigits_eq_some_iff, readNumeral?.eq_def]
  split
  · exact absurd rfl h
  · exact Iff.rfl

theorem readNumeral?_eq_some_iff {bound n : ℕ} {w : List Char} :
    readNumeral? bound w = some n ↔ Numeral bound w n := by
  simp only [Numeral, ← Single.ofDigits_eq, ← isDigit_iff]
  constructor
  · intro h
    by_cases hsign : w.head? = some '+'
    · obtain ⟨ds, rfl⟩ := List.head?_eq_some_iff.1 hsign
      obtain ⟨hne, hdigits, hvalue, hlt⟩ := readNumeral?_plus.1 h
      exact ⟨ds, hne, .inr rfl, hdigits, hvalue, hlt⟩
    · obtain ⟨hne, hdigits, hvalue, hlt⟩ := (readNumeral?_bare hsign).1 h
      exact ⟨w, hne, .inl rfl, hdigits, hvalue, hlt⟩
  · rintro ⟨ds, hne, rfl | rfl, hdigits, hvalue, hlt⟩
    · refine (readNumeral?_bare fun hsign => ?_).2 ⟨hne, hdigits, hvalue, hlt⟩
      have hplus : '+'.isDigit = true := hdigits '+' (List.mem_of_head? hsign)
      exact absurd hplus (by decide)
    · exact readNumeral?_plus.2 ⟨hne, hdigits, hvalue, hlt⟩

/-- A number is read back from its decimal digits. -/
theorem numeral_toString {bound n : ℕ} (h : n < bound) : Numeral bound (toString n).toList n := by
  have hlist : (toString n).toList = Nat.toDigits 10 n := Nat.toList_repr
  have hdigits : ∀ c ∈ Nat.toDigits 10 n, '0' ≤ c ∧ c ≤ '9' := fun c hc =>
    isDigit_iff.1 (Nat.isDigit_of_mem_toDigits (by decide) (by decide) hc)
  have hvalue : Single.ofDigits (Nat.toDigits 10 n) = n := Nat.ofDigitChars_ten_toDigits
  rw [Single.ofDigits_eq] at hvalue
  exact ⟨_, Nat.toDigits_ne_nil, .inl hlist, hdigits, hvalue, h⟩

namespace Command

/-- A numeral is read as a word of fixed width if it is below the number of those words. -/
theorem map_readNumeral?_eq_some_iff {α : Type} {ofNat : ℕ → α} {toNat : α → ℕ} {bound : ℕ}
    (hof : ∀ a, ofNat (toNat a) = a) (hto : ∀ n < bound, toNat (ofNat n) = n) {w : List Char}
    {a : α} : (readNumeral? bound w).map ofNat = some a ↔ Numeral bound w (toNat a) := by
  rw [← readNumeral?_eq_some_iff, Option.map_eq_some_iff]
  constructor
  · rintro ⟨n, hn, rfl⟩
    rwa [hto n (readNumeral?_eq_some_iff.1 hn).lt]
  · intro h
    exact ⟨toNat a, h, hof a⟩

theorem word16?_eq_some_iff {w : List Char} {n : UInt16} :
    word16? w = some n ↔ Numeral (2 ^ 16) w n.toNat :=
  map_readNumeral?_eq_some_iff (fun _ => UInt16.ofNat_toNat) fun _ => UInt16.toNat_ofNat_of_lt'

theorem word32?_eq_some_iff {w : List Char} {n : UInt32} :
    word32? w = some n ↔ Numeral (2 ^ 32) w n.toNat :=
  map_readNumeral?_eq_some_iff (fun _ => UInt32.ofNat_toNat) fun _ => UInt32.toNat_ofNat_of_lt'

/-! ### Keywords and their arguments -/

/-- The words that are numerals below a bound. -/
def IsNumeral (bound : ℕ) (w : List Char) : Prop := ∃ n, Numeral bound w n

/-- The words that are rates. -/
def IsRate (w : List Char) : Prop := ∃ hz, Single.read? w = some hz

/-- The keywords, each with what its arguments must be, from left to right. -/
def signature : Keyword → String × List (List Char → Prop)
  | .rate => ("rate", [IsRate])
  | .size => ("size", [IsNumeral (2 ^ 16), IsNumeral (2 ^ 16)])
  | .sync => ("sync", [IsNumeral (2 ^ 32)])
  | .report => ("show", [])

/-- What is wrong with the words behind a keyword: the first of its arguments that is not there as
it must be is missing or is something else. -/
inductive Fault : List (List Char → Prop) → List (List Char) → LineError → Prop
  /-- There are fewer words than arguments. -/
  | missing {p ps} : Fault (p :: ps) [] .missingArgument
  /-- The word is not what the argument must be, whatever follows. -/
  | invalid {p ps w ws} (hw : ¬ p w) : Fault (p :: ps) (w :: ws) .invalidArgument
  /-- The word is as it must be, and a later argument is not. -/
  | later {p ps w ws e} (hw : p w) (h : Fault ps ws e) : Fault (p :: ps) (w :: ws) e

/-- What the words of a line mean.  Words behind the last argument do not matter. -/
inductive Means : List (List Char) → Except LineError Command → Prop
  /-- There is no word. -/
  | empty : Means [] (.error .empty)
  /-- The first word is no keyword. -/
  | unknown {w ws} (h : ∀ k, w ≠ (signature k).1.toList) : Means (w :: ws) (.error .unknown)
  /-- An argument is missing, or is not what it must be. -/
  | fault {k ws e} (h : Fault (signature k).2 ws e) :
      Means ((signature k).1.toList :: ws) (.error e)
  /-- A rate. -/
  | rate {w hz ws} (h : Single.read? w = some hz) :
      Means ("rate".toList :: w :: ws) (.ok (.rate hz))
  /-- Two numerals of 16 bits. -/
  | size {w h ws} {width height : UInt16} (hwidth : Numeral (2 ^ 16) w width.toNat)
      (hheight : Numeral (2 ^ 16) h height.toNat) :
      Means ("size".toList :: w :: h :: ws) (.ok (.size width height))
  /-- A numeral of 32 bits. -/
  | sync {w ws} {ms : UInt32} (h : Numeral (2 ^ 32) w ms.toNat) :
      Means ("sync".toList :: w :: ws) (.ok (.sync ms))
  /-- Nothing more. -/
  | report {ws} : Means ("show".toList :: ws) (.ok .report)

theorem fault_cons_iff {p : List Char → Prop} {ps : List (List Char → Prop)} {w : List Char}
    {ws : List (List Char)} {e : LineError} :
    Fault (p :: ps) (w :: ws) e ↔ ¬ p w ∧ e = .invalidArgument ∨ p w ∧ Fault ps ws e := by
  constructor
  · rintro (_ | hw | ⟨hw, h⟩)
    · exact .inl ⟨hw, rfl⟩
    · exact .inr ⟨hw, h⟩
  · rintro (⟨hw, rfl⟩ | ⟨hw, h⟩)
    · exact .invalid hw
    · exact .later hw h

section Arguments

variable {α : Type} {f : List Char → Option α} {g : α × List (List Char) → Except LineError Command}

/-- One argument is read, and then the others. -/
theorem argument_bind_eq_ok_iff {ws : List (List Char)} {c : Command} :
    (argument f ws >>= g) = .ok c ↔
      ∃ w rest a, ws = w :: rest ∧ f w = some a ∧ g (a, rest) = .ok c := by
  cases ws with
  | nil => exact iff_of_false nofun (by simp)
  | cons w rest => cases hw : f w <;> simp [argument, hw, bind, Except.bind]

/-- The first argument is at fault, or it is read and one of the others is. -/
theorem argument_bind_eq_error_iff {p : List Char → Prop} {ps : List (List Char → Prop)}
    {ws : List (List Char)} {e : LineError} (hp : ∀ w, p w ↔ ∃ a, f w = some a)
    (hg : ∀ a rest, g (a, rest) = .error e ↔ Fault ps rest e) :
    (argument f ws >>= g) = .error e ↔ Fault (p :: ps) ws e := by
  cases ws with
  | nil =>
    constructor
    · rintro ⟨⟩
      exact .missing
    · rintro ⟨⟩
      rfl
  | cons w rest =>
    cases hw : f w with
    | none => simp [fault_cons_iff, hp, argument, hw, bind, Except.bind, eq_comm]
    | some a => simp [fault_cons_iff, hp, ← hg a, argument, hw, bind, Except.bind]

end Arguments

theorem isNumeral_iff {α : Type} (ofNat : ℕ → α) {bound : ℕ} (w : List Char) :
    IsNumeral bound w ↔ ∃ a, (readNumeral? bound w).map ofNat = some a := by
  simp only [IsNumeral, ← readNumeral?_eq_some_iff, Option.map_eq_some_iff]
  constructor
  · rintro ⟨n, hn⟩
    exact ⟨ofNat n, n, hn, rfl⟩
  · rintro ⟨-, n, hn, -⟩
    exact ⟨n, hn⟩

theorem readArguments_eq_error_iff {k : Keyword} {ws : List (List Char)} {e : LineError} :
    readArguments k ws = .error e ↔ Fault (signature k).2 ws e := by
  have hdone : ∀ (c : Command) rest, (.ok c : Except LineError Command) = .error e ↔
      Fault [] rest e := fun c rest => iff_of_false nofun nofun
  cases k with
  | rate => exact argument_bind_eq_error_iff (fun _ => Iff.rfl) fun hz => hdone (.rate hz)
  | size =>
    refine argument_bind_eq_error_iff (isNumeral_iff UInt16.ofNat) fun width rest => ?_
    exact argument_bind_eq_error_iff (isNumeral_iff UInt16.ofNat) fun height => hdone (.size width height)
  | sync => exact argument_bind_eq_error_iff (isNumeral_iff UInt32.ofNat) fun ms => hdone (.sync ms)
  | report => exact hdone .report ws

/-! ### Reading is the grammar -/

theorem spelling_eq (k : Keyword) : k.spelling = (signature k).1.toList := by
  cases k <;> rfl

theorem ofWord?_eq_some_iff {w : List Char} {k : Keyword} :
    Keyword.ofWord? w = some k ↔ w = (signature k).1.toList := by
  rw [← spelling_eq]
  constructor
  · intro h
    have hfound := List.find?_some h
    exact (of_decide_eq_true hfound).symm
  · rintro rfl
    cases k <;> rfl

/-- What the words behind a keyword mean. -/
theorem means_of_readArguments {k : Keyword} {ws : List (List Char)} {c : Command}
    (h : readArguments k ws = .ok c) : Means ((signature k).1.toList :: ws) (.ok c) := by
  cases k with
  | rate =>
    obtain ⟨w, rest, hz, rfl, hw, ⟨⟩⟩ := argument_bind_eq_ok_iff.1 h
    exact .rate hw
  | size =>
    obtain ⟨w, rest, width, rfl, hw, h⟩ := argument_bind_eq_ok_iff.1 h
    obtain ⟨v, rest, height, rfl, hv, ⟨⟩⟩ := argument_bind_eq_ok_iff.1 h
    exact .size (word16?_eq_some_iff.1 hw) (word16?_eq_some_iff.1 hv)
  | sync =>
    obtain ⟨w, rest, ms, rfl, hw, ⟨⟩⟩ := argument_bind_eq_ok_iff.1 h
    exact .sync (word32?_eq_some_iff.1 hw)
  | report =>
    cases h
    exact .report

theorem read_eq_of_keyword {line : List Char} {k : Keyword} {ws : List (List Char)}
    (h : words line = (signature k).1.toList :: ws) : read line = readArguments k ws := by
  rw [read, h]
  simp only [ofWord?_eq_some_iff.2 rfl]

theorem means_read (line : List Char) : Means (words line) (read line) := by
  cases hline : words line with
  | nil =>
    rw [read, hline]
    exact .empty
  | cons w ws =>
    cases hw : Keyword.ofWord? w with
    | none =>
      have hread : read line = .error .unknown := by simp [read, hline, hw]
      rw [hread]
      refine .unknown fun k hk => ?_
      simp [ofWord?_eq_some_iff.2 hk] at hw
    | some k =>
      obtain rfl := ofWord?_eq_some_iff.1 hw
      rw [read_eq_of_keyword hline]
      cases hread : readArguments k ws with
      | error e => exact .fault (readArguments_eq_error_iff.1 hread)
      | ok c => exact means_of_readArguments hread

/-- Words mean one thing. -/
theorem Means.read_eq {line : List Char} {r : Except LineError Command}
    (h : Means (words line) r) : read line = r := by
  generalize hline : words line = ws at h
  cases h with
  | empty => rw [read, hline]
  | @unknown w ws h =>
    have hw : Keyword.ofWord? w = none :=
      Option.eq_none_iff_forall_ne_some.2 fun k hk => h k (ofWord?_eq_some_iff.1 hk)
    simp [read, hline, hw]
  | fault h =>
    rw [read_eq_of_keyword hline]
    exact readArguments_eq_error_iff.2 h
  | rate h =>
    rw [read_eq_of_keyword (k := .rate) hline]
    exact argument_bind_eq_ok_iff.2 ⟨_, _, _, rfl, h, rfl⟩
  | size hwidth hheight =>
    rw [read_eq_of_keyword (k := .size) hline]
    refine argument_bind_eq_ok_iff.2 ⟨_, _, _, rfl, word16?_eq_some_iff.2 hwidth, ?_⟩
    exact argument_bind_eq_ok_iff.2 ⟨_, _, _, rfl, word16?_eq_some_iff.2 hheight, rfl⟩
  | sync h =>
    rw [read_eq_of_keyword (k := .sync) hline]
    exact argument_bind_eq_ok_iff.2 ⟨_, _, _, rfl, word32?_eq_some_iff.2 h, rfl⟩
  | report => exact read_eq_of_keyword (k := .report) hline

theorem read_eq_iff_means {line : List Char} {r : Except LineError Command} :
    read line = r ↔ Means (words line) r := by
  refine ⟨?_, Means.read_eq⟩
  rintro rfl
  exact means_read line

/-- **Reading follows the grammar.**  Every line has its words, and is read as what they mean: as a
command with the values that its numerals denote, or as the first thing that is wrong with it.  So
the words of a command that sets the size or the telemetry wait are read as that command, with any
white space around them and whatever follows. -/
theorem read_follows_grammar (line : List Char) :
    (∃! ws, Laid ws line) ∧
    ∀ ws, Laid ws line →
      (∀ r, read line = r ↔ Means ws r) ∧
      (∀ (width height : UInt16) (rest : List (List Char)),
        ws = "size".toList :: (toString width.toNat).toList :: (toString height.toNat).toList ::
          rest → read line = .ok (.size width height)) ∧
      ∀ (ms : UInt32) (rest : List (List Char)),
        ws = "sync".toList :: (toString ms.toNat).toList :: rest →
          read line = .ok (.sync ms) := by
  refine ⟨⟨words line, laid_words line, fun ws h => h.words_eq.symm⟩, fun ws h => ?_⟩
  obtain rfl := h.words_eq
  refine ⟨fun r => read_eq_iff_means, ?_, ?_⟩
  · intro width height rest hws
    rw [read_eq_iff_means, hws]
    exact .size (numeral_toString width.toNat_lt) (numeral_toString height.toNat_lt)
  · intro ms rest hws
    rw [read_eq_iff_means, hws]
    exact .sync (numeral_toString ms.toNat_lt)

/-- A plus sign, leading zeros, white space of several kinds and a word too many. -/
theorem padded_size_follows_grammar :
    let line := "\u3000size\t+0080  060 x".toList
    Laid ["size".toList, "+0080".toList, "060".toList, "x".toList] line ∧
      read line = .ok (.size 80 60) := by
  intro line
  have hlaid : Laid ["size".toList, "+0080".toList, "060".toList, "x".toList] line :=
    words_eq_iff_laid.1 (by decide)
  have hwidth : Numeral (2 ^ 16) "+0080".toList (80 : UInt16).toNat :=
    readNumeral?_eq_some_iff.1 (by decide)
  have hheight : Numeral (2 ^ 16) "060".toList (60 : UInt16).toNat :=
    readNumeral?_eq_some_iff.1 (by decide)
  obtain ⟨hread, -, -⟩ := (read_follows_grammar line).2 _ hlaid
  exact ⟨hlaid, (hread _).2 (.size hwidth hheight)⟩

end Command

end OnboardVision

import OnboardVision.Console.Command

/-!
# Words of a line

A line without words is a blank one (`words_eq_nil_iff`), and nothing else makes `Command.read`
complain of an empty line (`Command.read_eq_empty_iff`).

What the words of a line are is a relation as well: `Laid` builds the lines that show given words,
with any white space around them, and `words_eq_iff_laid` says that `words` inverts it.
-/

namespace OnboardVision

theorem attach_ne_nil (c : Char) (touches : Bool) (ws : List (List Char)) :
    attach c touches ws ≠ [] := by
  rw [attach.eq_def]
  split <;> exact List.cons_ne_nil _ _

/-- A line has no words exactly if it is blank. -/
theorem words_eq_nil_iff (line : List Char) : words line = [] ↔ line.all isBlank := by
  induction line with
  | nil => simp [words]
  | cons c cs ih =>
    rw [words.eq_def, List.all_cons]
    cases hc : isBlank c with
    | true => simpa [hc] using ih
    | false => simp [hc, attach_ne_nil]

/-! ### Lines that show given words -/

/-- The line shows these words: each is a run of characters other than white space, and white space
stands between any two of them, perhaps before the first, and perhaps after the last. -/
inductive Laid : List (List Char) → List Char → Prop
  /-- A blank line shows no word. -/
  | blank {gap : List Char} (hgap : ∀ c ∈ gap, isBlank c = true) : Laid [] gap
  /-- A word ends with the line or at white space. -/
  | word {gap w rest : List Char} {ws : List (List Char)} (hgap : ∀ c ∈ gap, isBlank c = true)
      (hne : w ≠ []) (hw : ∀ c ∈ w, isBlank c = false) (hend : ∀ c ∈ rest.head?, isBlank c = true)
      (hrest : Laid ws rest) : Laid (w :: ws) (gap ++ w ++ rest)

theorem words_cons_of_blank {c : Char} (hc : isBlank c = true) (cs : List Char) :
    words (c :: cs) = words cs := by
  rw [words.eq_def]
  exact if_pos hc

/-- A word of one character, behind which no other one goes on. -/
theorem words_cons_of_end {c : Char} {cs : List Char} (hc : isBlank c = false)
    (hend : ∀ d ∈ cs.head?, isBlank d = true) : words (c :: cs) = [c] :: words cs := by
  rw [words.eq_def]
  cases cs with
  | nil => simp [hc, attach]
  | cons d cs =>
    have hd : isBlank d = true := hend d rfl
    simp [hc, hd, attach]

theorem words_cons_of_touching {c d : Char} (hc : isBlank c = false) (hd : isBlank d = false)
    (cs : List Char) : words (c :: d :: cs) = attach c true (words (d :: cs)) := by
  rw [words.eq_def]
  simp [hc, hd]

theorem words_append_of_blank {gap : List Char} (hgap : ∀ c ∈ gap, isBlank c = true)
    (line : List Char) : words (gap ++ line) = words line := by
  induction gap with
  | nil => rfl
  | cons c gap ih =>
    have hc : isBlank c = true := hgap c List.mem_cons_self
    rw [List.cons_append, words_cons_of_blank hc]
    exact ih fun d hd => hgap d (List.mem_cons_of_mem c hd)

theorem words_append_of_word {w rest : List Char} (hne : w ≠ [])
    (hw : ∀ c ∈ w, isBlank c = false) (hend : ∀ c ∈ rest.head?, isBlank c = true) :
    words (w ++ rest) = w :: words rest := by
  induction w with
  | nil => exact absurd rfl hne
  | cons c w ih =>
    have hc : isBlank c = false := hw c List.mem_cons_self
    cases w with
    | nil => exact words_cons_of_end hc hend
    | cons d w =>
      have hd : isBlank d = false := hw d (List.mem_cons_of_mem c List.mem_cons_self)
      have htail := ih (List.cons_ne_nil d w) fun e he => hw e (List.mem_cons_of_mem c he)
      rw [List.cons_append] at htail
      rw [List.cons_append, List.cons_append, words_cons_of_touching hc hd, htail, attach]

namespace Laid

theorem words_eq {ws : List (List Char)} {line : List Char} (h : Laid ws line) :
    words line = ws := by
  induction h with
  | blank hgap => exact (words_eq_nil_iff _).2 (List.all_eq_true.2 hgap)
  | word hgap hne hw hend _ ih =>
    rw [List.append_assoc, words_append_of_blank hgap, words_append_of_word hne hw hend, ih]

theorem cons_blank {ws : List (List Char)} {line : List Char} {c : Char} (h : Laid ws line)
    (hc : isBlank c = true) : Laid ws (c :: line) := by
  cases h with
  | blank hgap => exact .blank (List.forall_mem_cons.2 ⟨hc, hgap⟩)
  | @word gap w rest ws hgap hne hw hend hrest =>
    have hgap' : ∀ d ∈ c :: gap, isBlank d = true := List.forall_mem_cons.2 ⟨hc, hgap⟩
    exact .word hgap' hne hw hend hrest

theorem cons_end {ws : List (List Char)} {line : List Char} {c : Char} (h : Laid ws line)
    (hc : isBlank c = false) (hend : ∀ d ∈ line.head?, isBlank d = true) :
    Laid ([c] :: ws) (c :: line) :=
  @word [] [c] line ws (List.forall_mem_nil _) (List.cons_ne_nil c []) (by simpa using hc) hend h

/-- The first word of a line that begins with it is prolonged by a character in front. -/
theorem cons_touching {ws : List (List Char)} {line : List Char} {c d : Char}
    (h : Laid ws (d :: line)) (hc : isBlank c = false) (hd : isBlank d = false) :
    Laid (attach c true ws) (c :: d :: line) := by
  generalize hl : d :: line = l at h
  cases h with
  | blank hgap =>
    subst hl
    have hblank : isBlank d = true := hgap d List.mem_cons_self
    exact absurd hblank (by simp [hd])
  | @word gap w rest ws hgap hne hw hend hrest =>
    cases gap with
    | cons e gap =>
      obtain ⟨rfl, -⟩ := List.cons.inj hl
      have hblank : isBlank d = true := hgap d List.mem_cons_self
      exact absurd hblank (by simp [hd])
    | nil =>
      have hw' : ∀ e ∈ c :: w, isBlank e = false := List.forall_mem_cons.2 ⟨hc, hw⟩
      exact @word [] (c :: w) rest ws (List.forall_mem_nil _) (List.cons_ne_nil c w) hw' hend hrest

end Laid

theorem laid_words (line : List Char) : Laid (words line) line := by
  induction line with
  | nil => exact .blank (List.forall_mem_nil _)
  | cons c cs ih =>
    cases hc : isBlank c with
    | true =>
      rw [words_cons_of_blank hc]
      exact ih.cons_blank hc
    | false =>
      cases cs with
      | nil =>
        rw [words_cons_of_end hc (by simp)]
        exact ih.cons_end hc (by simp)
      | cons d cs =>
        cases hd : isBlank d with
        | true =>
          rw [words_cons_of_end hc (by simpa using hd)]
          exact ih.cons_end hc (by simpa using hd)
        | false =>
          rw [words_cons_of_touching hc hd]
          exact ih.cons_touching hc hd

/-- **The words of a line are those that it shows.** -/
theorem words_eq_iff_laid {line : List Char} {ws : List (List Char)} :
    words line = ws ↔ Laid ws line := by
  refine ⟨?_, Laid.words_eq⟩
  rintro rfl
  exact laid_words line

namespace Command

variable {α β : Type}

theorem bind_ne_empty {x : Except LineError α} {f : α → Except LineError β}
    (hx : x ≠ .error .empty) (hf : ∀ a, f a ≠ .error .empty) : x >>= f ≠ .error .empty := by
  cases x with
  | ok a => exact hf a
  | error e =>
    intro he
    cases he
    exact hx rfl

theorem argument_ne_empty (f : List Char → Option α) (ws : List (List Char)) :
    argument f ws ≠ .error .empty := by
  cases ws with
  | nil => nofun
  | cons w ws =>
    rw [argument]
    split <;> nofun

/-- What a command lacks is an argument, never a word at all. -/
theorem readArguments_ne_empty (k : Keyword) (ws : List (List Char)) :
    readArguments k ws ≠ .error .empty := by
  cases k with
  | rate => exact bind_ne_empty (argument_ne_empty _ _) fun _ => nofun
  | size =>
    refine bind_ne_empty (argument_ne_empty _ _) fun _ => ?_
    exact bind_ne_empty (argument_ne_empty _ _) fun _ => nofun
  | sync => exact bind_ne_empty (argument_ne_empty _ _) fun _ => nofun
  | report => nofun

/-- Only a blank line is an empty one. -/
theorem read_eq_empty_iff (line : List Char) :
    read line = .error .empty ↔ line.all isBlank := by
  rw [← words_eq_nil_iff, read]
  cases words line with
  | nil => simp
  | cons w ws =>
    refine iff_of_false ?_ (List.cons_ne_nil _ _)
    dsimp only
    cases Keyword.ofWord? w with
    | none => nofun
    | some k => exact readArguments_ne_empty k ws

end Command

end OnboardVision

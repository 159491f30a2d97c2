import Mathlib.Data.List.Basic

/-!
# Histories

A history is a list that grows at its end: outcomes of calls, entries of a record.  `Always` says
of every entry how it goes with the history before it, and is kept by one more entry that does.
-/

namespace OnboardVision

variable {α : Type} {l l' before after : List α} {a x : α}

/-- An entry of a history that has grown is the last one, or it was there before. -/
theorem concat_eq_append_cons_iff :
    l ++ [a] = before ++ x :: after ↔ (l = before ∧ a = x ∧ after = []) ∨
      ∃ front, after = front ++ [a] ∧ l = before ++ x :: front := by
  rcases List.eq_nil_or_concat' after with rfl | ⟨front, y, rfl⟩
  · constructor
    · intro h
      obtain ⟨rfl, hx⟩ := List.append_inj' h rfl
      exact .inl ⟨rfl, by simpa using hx, rfl⟩
    · rintro (⟨rfl, rfl, -⟩ | ⟨front, h, -⟩)
      · rfl
      · simp at h
  · rw [← List.cons_append, ← List.append_assoc]
    constructor
    · intro h
      obtain ⟨rfl, hy⟩ := List.append_inj' h rfl
      obtain rfl : a = y := by simpa using hy
      exact .inr ⟨front, rfl, rfl⟩
    · rintro (⟨-, -, h⟩ | ⟨front', h, rfl⟩)
      · simp at h
      · obtain ⟨rfl, hy⟩ := List.append_inj' h rfl
        obtain rfl : y = a := by simpa using hy
        rfl

theorem filterMap_concat {β : Type} (f : α → Option β) (l : List α) (a : α) :
    (l ++ [a]).filterMap f = l.filterMap f ++ (f a).toList := by
  cases h : f a <;> simp [h]

/-- Every entry goes with the history before it. -/
def Always (P : List α → α → Prop) (l : List α) : Prop :=
  ∀ before a after, l = before ++ a :: after → P before a

variable {P : List α → α → Prop}

theorem always_nil (P : List α → α → Prop) : Always P [] :=
  fun _ _ _ h => absurd h.symm (by simp)

theorem Always.of_append (h : Always P (l ++ l')) : Always P l := by
  rintro before a after rfl
  exact h before a (after ++ l') (by simp)

theorem Always.concat (h : Always P l) (ha : P l a) : Always P (l ++ [a]) := by
  intro before x after hsplit
  rcases concat_eq_append_cons_iff.1 hsplit with ⟨rfl, rfl, -⟩ | ⟨front, -, hl⟩
  · exact ha
  · exact h before x front hl

end OnboardVision

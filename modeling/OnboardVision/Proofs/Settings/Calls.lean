import OnboardVision.Proofs.Console.Edits
import OnboardVision.Proofs.Settings.Capacity
import OnboardVision.Proofs.Timeline.Lasting

/-!
# The hub changes by calls

Whatever goes on around a loop, the hub is changed by calls alone: `Hub.Leads h h'` says that some
history of calls leads from one hub to the other.  Surroundings that keep to this are
`Surroundings.Orderly`, and `Timeline.lasting_leads` is the invariant.
-/

namespace OnboardVision

namespace Hub

/-- Some calls lead from the one hub to the other. -/
def Leads (h h' : Hub) : Prop := ∃ as : List Action, h' = h.run as

theorem leads_refl (h : Hub) : h.Leads h := ⟨[], rfl⟩

theorem Leads.trans {h₁ h₂ h₃ : Hub} (h : h₁.Leads h₂) (h' : h₂.Leads h₃) : h₁.Leads h₃ := by
  obtain ⟨as, rfl⟩ := h
  obtain ⟨as', rfl⟩ := h'
  exact ⟨as ++ as', by rw [run, run, run, List.foldl_append]⟩

theorem leads_update (h : Hub) (edit : Settings → Settings) : h.Leads (h.update edit).1 :=
  ⟨[.update edit], rfl⟩

theorem leads_execute (h : Hub) (i : ℕ) (line : Except LineError (List Char)) :
    h.Leads (h.execute i line).hub := by
  cases he : Command.editOf? line with
  | none =>
    rw [execute_of_none he]
    exact h.leads_refl
  | some edit =>
    rw [(execute_of_edit he).1]
    exact h.leads_update edit

end Hub

variable {E R : Type}

/-- The hub is changed by calls, if at all. -/
def Shared.HubCalled (s s' : Shared R) : Prop := s.hub.Leads s'.hub

instance : Std.Refl (Shared.HubCalled (R := R)) := ⟨fun s => s.hub.leads_refl⟩

/-- Surroundings that change the hub by calls alone. -/
class Surroundings.Orderly (E : outParam Type) (R : Type) [Surroundings E R] : Prop where
  /-- An event. -/
  deliver : ∀ (e : E) (s : Shared R), s.HubCalled (Surroundings.deliver e s)
  /-- Everybody else. -/
  settle : ∀ (now : Instant) (s : Shared R), s.HubCalled (Surroundings.settle now s)
  /-- The moment before a deadline is seen. -/
  lapse : ∀ (now : Instant) (s : Shared R), s.HubCalled (Surroundings.lapse now s)

variable [Surroundings E R] [Surroundings.Orderly E R]

theorem Timeline.settle_hubCalled (tl : Timeline E R) : tl.shared.HubCalled tl.settle.shared := by
  have hdeliver : ∀ (l : List (Instant × E)) (s : Shared R),
      s.HubCalled (l.foldl (fun s e => Surroundings.deliver e.2 s) s) := by
    intro l
    induction l with
    | nil => exact fun s => s.hub.leads_refl
    | cons e l ih => exact fun s => (Surroundings.Orderly.deliver e.2 s).trans (ih _)
  show tl.shared.HubCalled (Surroundings.settle tl.now (deliverDue tl.now tl.agenda tl.shared).2)
  rw [Timeline.deliverDue_snd]
  exact (hdeliver _ _).trans (Surroundings.Orderly.settle _ _)

/-- **Calls lead to every hub.** -/
theorem Timeline.lasting_leads (h : Hub) :
    Lasting (E := E) (R := R) Shared.HubCalled fun tl => tl.Timely ∧ h.Leads tl.shared.hub where
  timely := And.left
  arrive := by
    rintro tl t ⟨ht, hleads⟩ -
    exact ⟨ht.arrive t, hleads.trans (settle_hubCalled { tl with now := t })⟩
  expire := by
    rintro tl d ⟨ht, hleads⟩ hd hfree
    rw [Timeline.expire, Nat.max_eq_right hd]
    exact ⟨⟨ht.sorted, hfree⟩, hleads.trans (Surroundings.Orderly.lapse d tl.shared)⟩
  note := by
    rintro tl notes ⟨ht, hleads⟩
    exact ⟨⟨ht.sorted, ht.ahead⟩, hleads⟩
  change := by
    rintro tl s ⟨ht, hleads⟩ hs
    exact ⟨⟨ht.sorted, ht.ahead⟩, hleads.trans hs⟩

end OnboardVision
